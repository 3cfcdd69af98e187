import Beegfs.Lib.Run
import Beegfs.Storage.FileInodeInvariant

/-!
# Whether a stored inode can be read again

The flags of an inode are changed without a look at the format version in which it will be stored.
An inode that was loaded from format version 4 has no information about the original parent, and
while it is inlined it is written in that version again.  The functions that set the state of a file
or mark it as having remote storage targets add flags that are not supported there.  In all other
cases, what is written is accepted by the decoder.
-/

namespace Beegfs

open Bytes Decoder MetaReader Serializer Grammar DiskMetaData DentryStoreData List

/-! ## Changing an inode -/

/-- The functions that are applied to an inode before it is stored. -/
inductive FileInodeMutator
  | setFileState (value : BitVec 8)
  | setIsRstAvailable (available : Bool)
  | setAttrData (validAttribs : BitVec 32) (attribs : SettableFileAttribs) (now : BitVec 64)
    (storeRes : Bool)
  | setPersistentOrigParentEntryID (origParentEntryID : List Byte)
  | setIsInlined (value : Bool)
  | setBuddyMirrorFeatureFlag (mirrored : Bool)

namespace FileInode

/-- The inode after a function was applied to it. -/
def mutate (inode : FileInode) : FileInodeMutator → FileInode
  | .setFileState value => inode.modify (·.setFileState value)
  | .setIsRstAvailable available => inode.modify (·.setIsRstAvailable available)
  | .setAttrData validAttribs attribs now storeRes =>
    inode.setAttrData validAttribs attribs now storeRes
  | .setPersistentOrigParentEntryID id => inode.modify (·.setPersistentOrigParentEntryID id)
  | .setIsInlined value => inode.setIsInlined value
  | .setBuddyMirrorFeatureFlag mirrored => inode.modify (·.setBuddyMirrorFeatureFlag mirrored)

variable {inode : FileInode}

lemma Valid.mutate (h : inode.Valid) (mutator : FileInodeMutator) :
    (inode.mutate mutator).Valid := by
  unfold FileInode.mutate
  cases mutator with
  | setFileState value => exact h.modify (h.inodeDiskData.setFileState value)
  | setIsRstAvailable available => exact h.modify (h.inodeDiskData.setIsRstAvailable available)
  | setAttrData validAttribs attribs now storeRes =>
    exact h.setAttrData validAttribs attribs now storeRes
  | setPersistentOrigParentEntryID id =>
    exact h.modify (h.inodeDiskData.setPersistentOrigParentEntryID id)
  | setIsInlined value => exact h.setIsInlined value
  | setBuddyMirrorFeatureFlag mirrored =>
    exact h.modify (h.inodeDiskData.setBuddyMirrorFeatureFlag mirrored)

lemma Valid.runFrom_mutate (h : inode.Valid) (mutators : List FileInodeMutator) :
    (runFrom FileInode.mutate inode mutators).Valid :=
  runFrom_induction (V := fun _ => True) (fun _ mutator _ h => h.mutate mutator) h fun _ _ =>
    trivial

end FileInode

/-! ## What is written -/

namespace DiskMetaData

variable {data : DiskMetaData} {pattern : StripePattern}

lemma Valid.shorten (h : data.Valid) : data.shorten.Valid :=
  ⟨h.inodeData.of_eq rfl rfl rfl, h.dentry_compat, h.dentry_not_mirrored⟩

lemma Valid.written (h : data.Valid) (writer : FileWriter) : (writer.written data).Valid := by
  have hflags := writer.dentryFeatureFlags_written data
  refine ⟨?_, ?_, ?_⟩
  · rw [writer.inodeData_written]
    exact h.inodeData
  · rw [hflags]
    exact compat_or h.dentry_compat (by decide)
  · rw [hflags]
    exact Word.or_and_eq_zero_iff.mpr ⟨h.dentry_not_mirrored, by decide⟩

/-- In each format version, the entry ID is written. -/
lemma length_entryID_lt_dentryBytes (data : DiskMetaData) (pattern : StripePattern)
    (metaDataType : DiskMetaDataType) (formatVersion : BitVec 8) :
    data.dentryDiskData.entryID.length + 1 <
      (data.dentryBytes pattern metaDataType formatVersion).length := by
  have h := length_lt_length_stringBytes 4 data.dentryDiskData.entryID
  have hver : (stringBytes 4 data.dentryDiskData.entryID).length ≤
      (data.versionBytes pattern formatVersion).length := by
    unfold versionBytes
    split
    · simp only [bytesV3, length_append]
      omega
    · split
      · simp only [bytesV4, tailBytes, length_append]
        omega
      · simp only [bytesV6, tailBytes, length_append]
        omega
  rw [dentryBytes, length_append]
  omega

variable (owner : LocalOwner)

/-- What is read of a file in format version 4. -/
def receivedV4 (data : DiskMetaData) (decoded : StripePattern) (owner : LocalOwner)
    (initial : DiskMetaData) : DiskMetaData :=
  setOwner owner .false
    { dentryDiskData :=
        { (data.receivedHeader initial).dentryDiskData with entryID := data.dentryDiskData.entryID }
      inodeData := data.receivedInodeV4 decoded initial.inodeData }

lemma deserializeDentry_accepts_V4 (initial : DiskMetaData)
    (metaDataType : DiskMetaDataType) (h : data.Valid)
    (hpat : data.inodeData.stripePattern = some pattern)
    (horig : data.inodeData.origFeature = .false)
    (hlater : data.inodeData.inodeFeatureFlags &&& FileInodeStoreData.laterFlags = 0)
    (hlen : (data.dentryBytes pattern metaDataType 4).length < 2 ^ 32) :
    (deserializeDentry (m := Grammar Byte) owner initial).accepts
      (data.receivedV4 (.create pattern.getChunkSize none pattern.content) owner initial)
      (data.dentryBytes pattern metaDataType 4) := by
  have hid := lt_trans (data.length_entryID_lt_dentryBytes pattern metaDataType 4) hlen
  obtain ⟨_, hpat', hchunk, hpool⟩ := h.inodeData.hasPattern
  obtain rfl := Option.some.inj (hpat.symm.trans hpat')
  have hcomp := (FileInodeStoreData.compatV4_iff h.inodeData.compat
    (h.inodeData.not_origFlags horig)).mpr hlater
  refine deserializeDentry_accepts h.dentry_compat h.dentry_not_mirrored metaDataType ?_
  have hstat := StatData.serializeFmt_accepts .dentryV4 data.inodeData.inodeStatData
    initial.inodeData.inodeStatData
  refine accepts_map _ (accepts_bind rfl (accepts_unless hcomp ?_))
  exact accepts_bind (a := ()) rfl (accepts_bind hstat (accepts_bind (readEntryID_accepts _ hid)
    (accepts_map _ (readInodeTail_accepts _ h.inodeData.not_mirrored
      (StripePattern.format_accepts_of_not_hasPoolId (hpool horig) hchunk _)))))

lemma Valid.readable (h : data.Valid) (metaDataType : DiskMetaDataType)
    (hlen : (data.dentryBytes pattern metaDataType 6).length < 2 ^ 32) : data.Readable := by
  refine ⟨h.inodeData.not_mirrored, h.dentry_not_mirrored, h.dentry_compat,
    lt_trans (data.length_entryID_lt_dentryBytes pattern metaDataType 6) hlen, fun hflag => ?_⟩
  have hle : (data.bytesV6 pattern).length ≤ (data.dentryBytes pattern metaDataType 6).length := by
    rw [dentryBytes, length_append]
    exact Nat.le_add_left _ _
  exact lt_trans (lt_of_lt_of_le (length_origParentEntryID_lt pattern hflag) hle) hlen

end DiskMetaData

/-! ## Storing a loaded inode -/

namespace FileInode

open FileInodeStoreData

variable (inode : FileInode) (writer : FileWriter)

/-- The inode is written in format version 4, which does not support one of its flags. -/
def HasUnsupportedFlag : Prop :=
  (writer.prepare (inode.diskMetaData writer)).dentryDiskData.entryType ≠ DirEntryType.directory ∧
    inode.featureFlags &&& inodeInline ≠ 0 ∧ inode.inodeDiskData.origFeature = .false ∧
    inode.inodeDiskData.inodeFeatureFlags &&& laterFlags ≠ 0

/-- What was written from an offset on is accepted by the decoder, by itself and with whatever
follows it. -/
def Accepted (ser : Serializer) (offset : BitVec 32) (owner : LocalOwner) (initial : DiskMetaData) :
    Prop :=
  ∃ mem, ser.buffer = some mem ∧ ∀ n, ser.bufferOffset ≤ n → ∃ decoded des,
    deserializeDentry (m := DesM) owner initial (Deserializer.ofMemory mem n offset) =
      .ok (decoded, des) ∧ des.good = true

variable {inode : FileInode}

lemma Valid.diskMetaData (h : inode.Valid) (writer : FileWriter) :
    (inode.diskMetaData writer).Valid := by
  refine ⟨?_, h.dentry_compat, h.dentry_not_mirrored⟩
  cases writer with
  | dentry => exact h.inodeDiskData.of_eq rfl rfl rfl
  | fileInode => exact h.inodeDiskData

lemma origFeature_diskMetaData :
    (inode.diskMetaData writer).inodeData.origFeature = inode.inodeDiskData.origFeature := by
  cases writer <;> rfl

/-- The format version is 3, 4 or 6, and version 4 is for inlined inodes without information about
the original parent. -/
lemma formatVersion_cases (h : inode.Valid) (writer : FileWriter) :
    (writer.formatVersion (inode.diskMetaData writer) = 3 ∧ ¬ inode.HasUnsupportedFlag writer) ∨
    (writer.formatVersion (inode.diskMetaData writer) = 6 ∧ ¬ inode.HasUnsupportedFlag writer) ∨
    (writer.formatVersion (inode.diskMetaData writer) = 4 ∧
      inode.inodeDiskData.origFeature = .false ∧ (inode.HasUnsupportedFlag writer ↔
        inode.inodeDiskData.inodeFeatureFlags &&& laterFlags ≠ 0)) := by
  rw [writer.formatVersion_eq, origFeature_diskMetaData]
  by_cases htype : (writer.prepare (inode.diskMetaData writer)).dentryDiskData.entryType =
      DirEntryType.directory
  · rw [if_pos htype]
    exact .inl ⟨rfl, fun hflag => hflag.1 htype⟩
  rw [if_neg htype]
  by_cases hinl : inode.featureFlags &&& inodeInline = 0
  · have hnot : ¬ inode.HasUnsupportedFlag writer := fun hflag => hflag.2.1 hinl
    have hinl' : (inode.diskMetaData writer).dentryDiskData.dentryFeatureFlags &&&
        inodeInline = 0 := hinl
    rw [if_pos hinl']
    cases writer with
    | dentry => exact .inl ⟨rfl, hnot⟩
    | fileInode => exact .inr (.inl ⟨rfl, hnot⟩)
  have hinl' : (inode.diskMetaData writer).dentryDiskData.dentryFeatureFlags &&&
      inodeInline ≠ 0 := hinl
  rw [if_neg hinl']
  by_cases horig : inode.inodeDiskData.origFeature = .true
  · rw [if_pos horig]
    exact .inr (.inl ⟨rfl, fun hflag => absurd (horig.symm.trans hflag.2.2.1) nofun⟩)
  · have hfalse := origFeature_eq_false h.inodeDiskData horig
    rw [if_neg horig]
    exact .inr (.inr ⟨rfl, hfalse, fun hflag => hflag.2.2.2,
      fun hlater => ⟨htype, hinl, hfalse, hlater⟩⟩)

/-- The metadata as they are written. -/
def stored : DiskMetaData := (writer.written (inode.diskMetaData writer)).shorten

/-- The bytes that are written if the inode points to `pattern`. -/
def storedBytes (pattern : StripePattern) : List Byte :=
  (inode.stored writer).dentryBytes pattern (writer.metaDataType (inode.diskMetaData writer))
    (writer.formatVersion (inode.diskMetaData writer))

lemma Valid.stored (h : inode.Valid) (writer : FileWriter) : (inode.stored writer).Valid :=
  ((h.diskMetaData writer).written writer).shorten

lemma inodeFeatureFlags_stored :
    (inode.stored writer).inodeData.inodeFeatureFlags = inode.inodeDiskData.inodeFeatureFlags :=
  (congrArg FileInodeStoreData.inodeFeatureFlags
    (writer.inodeData_written (inode.diskMetaData writer))).trans
    (by cases writer <;> rfl)

lemma origFeature_stored :
    (inode.stored writer).inodeData.origFeature = inode.inodeDiskData.origFeature :=
  (congrArg FileInodeStoreData.origFeature
    (writer.inodeData_written (inode.diskMetaData writer))).trans
    (inode.origFeature_diskMetaData writer)

/-- An inode is written, up to the length of its strings. -/
lemma Valid.exists_serialize (h : inode.Valid) (writer : FileWriter) :
    ∃ pattern put, (inode.stored writer).inodeData.stripePattern = some pattern ∧
      (∀ ser, writer.serialize (inode.diskMetaData writer) ser =
        some (writer.written (inode.diskMetaData writer), put ser)) ∧
      Appends put (inode.storedBytes writer pattern) := by
  obtain ⟨pattern, hpat, -⟩ := (h.diskMetaData writer).inodeData.hasPattern
  obtain ⟨put, hput, hbytes⟩ := writer.exists_serialize hpat
  have hstored := congrArg FileInodeStoreData.stripePattern
    (writer.inodeData_written (inode.diskMetaData writer))
  exact ⟨pattern, put, hstored.trans hpat, hput, hbytes⟩

/-- If the inode has a flag that is not supported, what is written for it is not accepted. -/
lemma Valid.not_accepted (h : inode.Valid) {writer : FileWriter} {pattern : StripePattern}
    (hflag : inode.HasUnsupportedFlag writer) {put : Serializer → Serializer}
    (hbytes : Appends put (inode.storedBytes writer pattern)) {mem : ℕ → Byte}
    {size offset : BitVec 32} (hgood : (put ⟨some mem, size, offset⟩).good = true)
    (owner : LocalOwner) (initial : DiskMetaData) :
    ¬ Accepted (put ⟨some mem, size, offset⟩) offset owner initial := by
  rintro ⟨_, hmem1, hread⟩
  obtain ⟨decoded, des, hdes, hgood'⟩ := hread _ (BitVec.le_refl _)
  obtain ⟨_, hmem', hnext, -⟩ := hbytes.next (dentryBytes_ne_nil _ _ _ _) hgood (BitVec.le_refl _)
  obtain rfl := Option.some.inj (hmem1.symm.trans hmem')
  obtain ⟨w, hw, hnext', -⟩ := (reads_deserializeDentry owner initial).sound hdes hgood'
  rcases formatVersion_cases h writer with ⟨_, hnot⟩ | ⟨_, hnot⟩ | ⟨hver, hfalse, hiff⟩
  · exact hnot hflag
  · exact hnot hflag
  rw [storedBytes, hver] at hnext
  have hsto := h.stored writer
  have hcomp : ¬ checkFeatureFlagsCompat (inode.stored writer).inodeData.inodeFeatureFlags
      getSupportedDentryV4FileInodeFeatureFlags = true := by
    rw [compatV4_iff hsto.inodeData.compat
      (hsto.inodeData.not_origFlags ((inode.origFeature_stored writer).trans hfalse)),
      inode.inodeFeatureFlags_stored]
    exact hiff.mp hflag
  rw [Bool.not_eq_true] at hcomp
  -- an entry in format version 4 whose flags are not supported there is not read
  have hmat : Cursor.Matches _ ((deserializeDentry (m := Grammar Byte) owner initial).accepts
    decoded) := ⟨w, hw, hnext'⟩
  refine absurd hmat ?_
  refine reads_integral.not_matches_bind rfl hnext fun des hnext => ?_
  refine reads_integral.not_matches_bind rfl hnext fun des hnext => ?_
  refine reads_integral.not_matches_bind rfl hnext fun des hnext => ?_
  rw [hsto.dentry_compat]
  refine reads_integral.not_matches_bind rfl hnext fun des hnext => ?_
  have hpadd := readDentryPadding_accepts
    ((inode.stored writer).receivedHeader initial).dentryDiskData hsto.dentry_not_mirrored
  refine (decodes_readDentryPadding _).refines.not_matches_bind hpadd hnext fun des hnext => ?_
  have hflags : ∀ read, ¬ Cursor.Matches des ((deserializeDentryV4 (m := Grammar Byte)
      ((inode.stored writer).receivedHeader initial)).accepts read) := by
    intro read
    refine reads_integral.not_matches_bind rfl hnext fun des hnext => ?_
    rw [hcomp]
    rintro ⟨w, hw, _⟩
    exact hw
  rintro ⟨w, hw, hnext⟩
  obtain ⟨read, v, v', hread, _, rfl⟩ := hw
  exact hflags read ⟨v, hread, ((Deserializer.next_append des v v').mp hnext).1⟩

/-- An inode that was loaded and changed is written by both functions, and what is written is
accepted by the decoder if and only if it has no flag that the format version does not support. -/
theorem accepted_iff_not_hasUnsupportedFlag {inode : FileInode} (h : inode.Loaded)
    (mutators : List FileInodeMutator) (writer : FileWriter) (mem : ℕ → Byte)
    (size offset : BitVec 32) (owner : LocalOwner) (initial : DiskMetaData) :
    let changed := runFrom mutate inode mutators
    ∃ written ser, writer.serialize (changed.diskMetaData writer) ⟨some mem, size, offset⟩ =
        some (written, ser) ∧ (ser.good = true →
        (Accepted ser offset owner initial ↔ ¬ changed.HasUnsupportedFlag writer)) := by
  intro changed
  have hvalid : changed.Valid := h.valid.runFrom_mutate mutators
  obtain ⟨pattern, _, hpat, hput, hbytes⟩ := hvalid.exists_serialize writer
  refine ⟨_, _, hput _, fun hgood => ⟨fun haccepted hflag => ?_, fun hflag => ?_⟩⟩
  · exact hvalid.not_accepted hflag hbytes hgood owner initial haccepted
  · have hfits := hbytes.fits_of_good _ (Option.some_ne_none mem) hgood
    have hlen : (changed.storedBytes writer pattern).length < 2 ^ 32 :=
      lt_of_le_of_lt (le_trans (Nat.le_add_left _ _) hfits.2) size.isLt
    have hrecv : ∃ received, (deserializeDentry (m := Grammar Byte) owner initial).accepts
        received (changed.storedBytes writer pattern) := by
      have hsto := hvalid.stored writer
      unfold storedBytes at hlen ⊢
      rcases formatVersion_cases hvalid writer with ⟨hver, _⟩ | ⟨hver, _⟩ | ⟨hver, hfalse, hiff⟩
      all_goals rw [hver] at hlen ⊢
      · have hid := lt_trans (length_entryID_lt_dentryBytes _ _ _ _) hlen
        refine ⟨?_, deserializeDentry_accepts hsto.dentry_compat hsto.dentry_not_mirrored _
          (accepts_bind (readEntryID_accepts (receivedHeader _ initial) hid) ?_)⟩
        rotate_left
        · rw [if_pos]
          · exact accepts_map (G := Deserializer.word 32) _ rfl
          · exact bne_iff_ne.mpr (Word.or_and_self_ne_zero (by decide) _)
      · obtain ⟨_, hpat', hchunk, -⟩ := hsto.inodeData.hasPattern
        obtain rfl := Option.some.inj (hpat.symm.trans hpat')
        exact ⟨_, deserializeDentry_accepts_V6 owner initial _ (hsto.readable _ hlen)
          hsto.inodeData.compat hchunk⟩
      · have hlater : (changed.stored writer).inodeData.inodeFeatureFlags &&& laterFlags = 0 := by
          rw [changed.inodeFeatureFlags_stored]
          by_contra hne
          exact hflag (hiff.mpr hne)
        exact ⟨_, deserializeDentry_accepts_V4 owner initial _ hsto hpat
          ((changed.origFeature_stored writer).trans hfalse) hlater hlen⟩
    obtain ⟨received, hrecv⟩ := hrecv
    have hbuf := congrArg Serializer.buffer (hbytes.eq_append _ mem rfl hfits)
    refine ⟨_, hbuf, fun n hn => ?_⟩
    obtain ⟨_, hmem', hnext, -⟩ := hbytes.next (dentryBytes_ne_nil _ _ _ _) hgood hn
    obtain rfl := Option.some.inj (hbuf.symm.trans hmem')
    exact ⟨received, _, (reads_deserializeDentry owner initial).complete hrecv hnext,
      Cursor.good_advance (σ := Deserializer) hnext⟩

theorem oldFile_accepted_iff :
    oldFile.Loaded ∧
      (let changed := runFrom mutate oldFile [.setIsRstAvailable true, .setIsInlined false]
      ∃ written ser, FileWriter.fileInode.serialize (changed.diskMetaData .fileInode)
          ⟨some fun _ => 0, 4096, 0⟩ = some (written, ser) ∧ (ser.good = true →
          (Accepted ser 0 ⟨1, 2⟩ (freshData oldFile.inodeDiskData) ↔
            ¬ changed.HasUnsupportedFlag .fileInode))) :=
  ⟨loaded_oldFile, accepted_iff_not_hasUnsupportedFlag loaded_oldFile
    [.setIsRstAvailable true, .setIsInlined false] .fileInode (fun _ => 0) 4096 0 ⟨1, 2⟩
    (freshData oldFile.inodeDiskData)⟩

/-- The file of an older server gets a remote storage target.  It is stored without an error, and
cannot be loaded any more. -/
theorem oldFile_not_accepted_after_setIsRstAvailable :
    oldFile.Loaded ∧ (let changed := oldFile.mutate (.setIsRstAvailable true)
      ∃ written ser, FileWriter.dentry.serialize (changed.diskMetaData .dentry)
          ⟨some fun _ => 0, 4096, 0⟩ = some (written, ser) ∧
        ser.good = true ∧ ∀ owner initial, ¬ Accepted ser 0 owner initial) := by
  refine ⟨loaded_oldFile, ?_⟩
  intro changed
  have hvalid : changed.Valid := loaded_oldFile.valid.mutate (.setIsRstAvailable true)
  obtain ⟨_, put, hpat, hput, hbytes⟩ := hvalid.exists_serialize .dentry
  obtain rfl := Option.some.inj hpat
  have hgood : (put ⟨some fun _ => 0, 4096, 0⟩).good = true := by
    rw [hbytes.eq_append _ _ rfl ⟨by decide, by decide +kernel⟩]
    decide +kernel
  exact ⟨_, _, hput _, hgood, fun owner initial => hvalid.not_accepted
    ⟨by decide, by decide, by decide, by decide⟩ hbytes hgood owner initial⟩

end FileInode

end Beegfs
