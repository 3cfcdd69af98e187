import Beegfs.Storage.InodeReadability

/-!
# The chunk files of a file stay where they are

Where the chunk files are depends on the user and the parent directory that the file had when it was
created.  As long as these are the current ones, they are not stored, and are set anew whenever the
inode is loaded.  A file can be given to another user, renamed, taken out of its directory entry,
and stored and loaded in between, and the chunk files are still found.

There is one exception.  An inode without information about the original parent that is a file of
its own is written in a format version that has this information, and has it when it is loaded
again.
-/

namespace Beegfs

open Bytes Decoder MetaReader Serializer DiskMetaData FileInodeStoreData Word DentryStoreData Option

/-! ## Storing and loading -/

namespace FileInode

variable (inode : FileInode)

/-- The function that stores the inode. -/
def writer : FileWriter := if inode.isInlined then .dentry else .fileInode

/-- The size of the buffer that the inode is written to: `DIRENTRY_SERBUF_SIZE` or
`META_SERBUF_SIZE`. -/
def serBufSize : BitVec 32 := if inode.isInlined then 4096 else 8192

/-- Loads an inode from the place where `inode` is stored. -/
def load (parentEntryID : EntryID) (data : DiskMetaData) : Option FileInode :=
  if inode.isInlined then createFromInlinedInode parentEntryID data else createFromInodeFile data

/-- Stores the inode and loads it again.  The buffer has some contents before, and the object that
is read into has members that are not initialized. -/
def reload (parentEntryID : EntryID) (mem : ℕ → Byte) (owner : LocalOwner)
    (undefined : FileInodeStoreData) : Option FileInode := do
  let (_, ser) ← inode.writer.serialize (inode.diskMetaData inode.writer)
    ⟨some mem, inode.serBufSize, 0⟩
  if ser.good then do
    let mem ← ser.buffer
    let data ← readMetaData owner undefined (Deserializer.ofMemory mem ser.bufferOffset 0)
    inode.load parentEntryID data
  else none

variable {inode inode' : FileInode}

/-- What was loaded again was read from what had been written, if this is in the format. -/
lemma Valid.exists_of_reload (h : inode.Valid) {parentEntryID : EntryID} {mem : ℕ → Byte}
    {owner : LocalOwner} {undefined : FileInodeStoreData}
    (hrel : inode.reload parentEntryID mem owner undefined = some inode') :
    ∃ pattern data, (inode.stored inode.writer).inodeData.stripePattern = some pattern ∧
      (inode.storedBytes inode.writer pattern).length < 2 ^ 32 ∧
      inode.load parentEntryID data = some inode' ∧ data.FileRead ∧
      ∀ received, (deserializeDentry (m := Grammar Byte) owner (freshData undefined)).accepts
        received (inode.storedBytes inode.writer pattern) → data = received := by
  obtain ⟨pattern, _, hpat, hput, hbytes⟩ := h.exists_serialize inode.writer
  unfold reload at hrel
  rw [hput] at hrel
  simp only [bind_eq_bind, bind_some] at hrel
  split at hrel
  next hgood =>
    obtain ⟨_, hmem', hload⟩ := bind_eq_some_iff.mp hrel
    obtain ⟨data, hdata, hload⟩ := bind_eq_some_iff.mp hload
    have hfits := hbytes.fits_of_good _ (some_ne_none mem) hgood
    have hne := dentryBytes_ne_nil (inode.stored inode.writer) pattern
      (inode.writer.metaDataType (inode.diskMetaData inode.writer))
      (inode.writer.formatVersion (inode.diskMetaData inode.writer))
    refine ⟨pattern, data, hpat,
      lt_of_le_of_lt (le_trans (Nat.le_add_left _ _) hfits.2) (BitVec.isLt _), hload, ?_, ?_⟩
    · refine fileRead_of_readMetaData hdata ?_
      unfold load at hload
      split at hload
      · exact (createFromInlinedInode_eq_some hload).2.1
      · exact (createFromInodeFile_eq_some hload).1
    · intro received hrecv
      obtain ⟨_, hmem1, hread⟩ := hbytes.read
        (reads_deserializeDentry owner (freshData undefined)) hrecv hne hgood (BitVec.le_refl _)
      obtain rfl := Option.some.inj (hmem'.symm.trans hmem1)
      rw [readMetaData, hread] at hdata
      dsimp only at hdata
      split at hdata
      next => exact (Option.some.inj hdata).symm
      next => nomatch hdata
  next => nomatch hrel

end FileInode

/-! ## The life of a file -/

/-- A file: its inode and the directory that it is in. -/
structure FileEntry where
  inode : FileInode
  parentEntryID : EntryID

/-- What happens to a file. -/
inductive FileEntryOp
  /-- The attributes are changed, the user among them. -/
  | setAttrData (validAttribs : BitVec 32) (attribs : SettableFileAttribs) (now : BitVec 64)
    (storeRes : Bool)
  /-- The dynamic attributes are taken from the chunk files. -/
  | updateDynamicAttribs (dyn : DynamicAttribs)
  /-- The file is moved to another directory. -/
  | rename (newParentEntryID : EntryID)
  /-- The inode becomes a file of its own. -/
  | deinline
  /-- The inode is stored and loaded. -/
  | reload (mem : ℕ → Byte) (owner : LocalOwner) (undefined : FileInodeStoreData)

namespace FileEntry

variable (file : FileEntry)

/-- If an inode cannot be stored or loaded, the one in memory stays in use. -/
def step : FileEntryOp → FileEntry
  | .setAttrData validAttribs attribs now storeRes =>
    { file with inode := file.inode.setAttrData validAttribs attribs now storeRes }
  | .updateDynamicAttribs dyn => { file with inode := file.inode.updateDynamicAttribs dyn }
  | .rename newParentEntryID =>
    { inode := file.inode.modify (·.setPersistentOrigParentEntryID file.parentEntryID.val)
      parentEntryID := newParentEntryID }
  | .deinline => { file with inode := file.inode.setIsInlined false }
  | .reload mem owner undefined =>
    { file with
      inode := (file.inode.reload file.parentEntryID mem owner undefined).getD file.inode }

open FileInode

/-- A file at the time when it is loaded or created. -/
inductive Initial : FileEntry → Prop
  | inlinedInode (owner : LocalOwner) (undefined : FileInodeStoreData) (des : Deserializer)
    (data : DiskMetaData) (inode : FileInode) (parentEntryID : EntryID)
    (hdata : readMetaData owner undefined des = some data)
    (hinode : createFromInlinedInode parentEntryID data = some inode) :
    Initial ⟨inode, parentEntryID⟩
  | inodeFile (owner : LocalOwner) (undefined : FileInodeStoreData) (des : Deserializer)
    (data : DiskMetaData) (inode : FileInode) (parentEntryID : EntryID)
    (hdata : readMetaData owner undefined des = some data)
    (hinode : createFromInodeFile data = some inode) :
    Initial ⟨inode, parentEntryID⟩
  | create (parentEntryID : EntryID) (entryID : List Byte) (entryType : BitVec 8)
    (statData : StatData) (chunkSize : BitVec 32) (storagePoolId : Option (BitVec 16))
    (content : StripePatternContent) (isBuddyMirrored : Bool) (origParentUID : BitVec 32) :
    Initial ⟨create parentEntryID entryID entryType statData
      (.create chunkSize storagePoolId content) isBuddyMirrored origParentUID, parentEntryID⟩

/-- `DirEntryType_ISFILE` -/
def IsFile : Prop := 2 ≤ file.inode.entryType ∧ file.inode.entryType ≤ 7
  deriving Decidable

/-- Not all information about the original parent is stored.  What is not stored is the current
user and the current parent. -/
structure Consistent : Prop where
  valid : file.inode.Valid
  isFile : file.IsFile
  isInlined_iff : file.inode.isInlined = true ↔ file.inode.featureFlags &&& inodeInline ≠ 0
  origUID : file.inode.inodeDiskData.origFeature = .true →
    file.inode.inodeDiskData.inodeFeatureFlags &&& hasOrigUID ≠ 0 ∨
      file.inode.inodeDiskData.origParentUID =
        file.inode.inodeDiskData.inodeStatData.settableFileAttribs.userID
  origParent : file.inode.inodeDiskData.origFeature = .true →
    file.inode.inodeDiskData.inodeFeatureFlags &&& hasOrigParentID ≠ 0 ∨
      (file.inode.isInlined = true ∧
        file.inode.inodeDiskData.origParentEntryID = file.parentEntryID.val)
  not_laterFlags : file.inode.inodeDiskData.origFeature = .false →
    file.inode.inodeDiskData.inodeFeatureFlags &&& laterFlags = 0
  length_origParentEntryID : file.inode.inodeDiskData.origParentEntryID.length < 2 ^ 32

variable {file : FileEntry}

/-! ## Files that were loaded or created -/

/-- The feature flags of an inode that has to store its original parent. -/
def parentStoredFlags (data : FileInodeStoreData) : BitVec 32 :=
  if data.origFeature = .true then data.inodeFeatureFlags ||| hasOrigParentID
  else data.inodeFeatureFlags

lemma parentStoredFlags_and (data : FileInodeStoreData) :
    parentStoredFlags data &&& hasOrigUID = data.inodeFeatureFlags &&& hasOrigUID ∧
      (data.origFeature = .true → parentStoredFlags data &&& hasOrigParentID ≠ 0) ∧
      (data.origFeature = .false → parentStoredFlags data = data.inodeFeatureFlags) := by
  unfold parentStoredFlags
  split
  next htrue =>
    exact ⟨or_and_of_disjoint (by decide), fun _ => or_and_self_ne_zero (by decide) _,
      fun hfalse => absurd (htrue.symm.trans hfalse) nofun⟩
  next hne => exact ⟨rfl, fun htrue => absurd htrue hne, fun _ => rfl⟩

/-- An inode that is taken out of its directory entry has to store the original parent. -/
lemma setIsInlined_false_eq (inode : FileInode) :
    inode.setIsInlined false =
      { inode with
        inodeDiskData :=
          { inode.inodeDiskData with inodeFeatureFlags := parentStoredFlags inode.inodeDiskData }
        featureFlags := inode.featureFlags &&& ~~~ inodeInline
        isInlined := false } := by
  unfold setIsInlined parentStoredFlags
  simp only [if_true]
  split
  · rfl
  · rfl

variable {inode : FileInode} {parentEntryID : EntryID}

lemma consistent_setIsInlined_false (hvalid : inode.Valid) (hfile : IsFile ⟨inode, parentEntryID⟩)
    (huid : inode.inodeDiskData.origFeature = .true →
      inode.inodeDiskData.inodeFeatureFlags &&& hasOrigUID ≠ 0 ∨ inode.inodeDiskData.origParentUID =
          inode.inodeDiskData.inodeStatData.settableFileAttribs.userID)
    (hlater : inode.inodeDiskData.origFeature = .false →
      inode.inodeDiskData.inodeFeatureFlags &&& laterFlags = 0)
    (hlen : inode.inodeDiskData.origParentEntryID.length < 2 ^ 32) :
    Consistent ⟨inode.setIsInlined false, parentEntryID⟩ := by
  have hval' := hvalid.setIsInlined false
  obtain ⟨hflag, hpar, hkept⟩ := parentStoredFlags_and inode.inodeDiskData
  rw [setIsInlined_false_eq] at hval' ⊢
  refine ⟨hval', hfile, ?_, ?_, fun horig => .inl (hpar horig), fun horig => ?_, hlen⟩
  · rw [and_not_and_self]
    exact ⟨nofun, fun h => absurd rfl h⟩
  · rw [← hflag] at huid
    exact huid
  · rw [hkept horig]
    exact hlater horig

variable {data : DiskMetaData}

lemma consistent_of_inodeFile (hread : data.FileRead) (h : createFromInodeFile data = some inode)
    (hfile : IsFile ⟨inode, parentEntryID⟩) : Consistent ⟨inode, parentEntryID⟩ := by
  obtain ⟨-, rfl⟩ := createFromInodeFile_eq_some h
  refine consistent_setIsInlined_false ⟨hread.inodeData, hread.dentry_compat,
    hread.dentry_not_mirrored⟩ ?_ hread.origUID hread.not_laterFlags hread.length_origParentEntryID
  rw [setIsInlined_false_eq] at hfile
  exact hfile

/-- An inode whose original parent is not stored gets its current parent. -/
lemma setDynamicOrigParentEntryID_eq (inode : FileInodeStoreData) (parentEntryID : EntryID) :
    ∃ id, inode.setDynamicOrigParentEntryID parentEntryID.val =
        { inode with origParentEntryID := id } ∧ (inode.inodeFeatureFlags &&& hasOrigParentID = 0 →
        id = parentEntryID.val) ∧ (inode.inodeFeatureFlags &&& hasOrigParentID ≠ 0 →
        id = inode.origParentEntryID) := by
  unfold setDynamicOrigParentEntryID
  split
  next hzero => exact ⟨_, rfl, fun _ => rfl, fun hne => absurd hzero hne⟩
  next hne => exact ⟨_, rfl, fun hzero => absurd hzero hne, fun _ => rfl⟩

lemma consistent_of_inlinedInode
    (hread : data.FileRead) (h : createFromInlinedInode parentEntryID data = some inode)
    (hfile : IsFile ⟨inode, parentEntryID⟩) : Consistent ⟨inode, parentEntryID⟩ := by
  have hvalid := FileInode.LoadedFrom.valid (.inlinedInode parentEntryID h) hread
  obtain ⟨-, -, hinode⟩ := createFromInlinedInode_eq_some h
  obtain ⟨_, hid, hzero, hne⟩ := setDynamicOrigParentEntryID_eq data.inodeData parentEntryID
  rw [hid] at hinode
  subst hinode
  refine ⟨hvalid, hfile, ?_, hread.origUID, fun _ => ?_, hread.not_laterFlags, ?_⟩
  · exact ⟨fun _ => or_and_self_ne_zero (by decide) _, fun _ => rfl⟩
  · by_cases hflag : data.inodeData.inodeFeatureFlags &&& hasOrigParentID = 0
    · exact .inr ⟨rfl, hzero hflag⟩
    · exact .inl hflag
  · by_cases hflag : data.inodeData.inodeFeatureFlags &&& hasOrigParentID = 0
    · rw [hzero hflag]
      exact parentEntryID.property
    · rw [hne hflag]
      exact hread.length_origParentEntryID

/-! ## Changing a file -/

lemma setAttrData_eq (inode : FileInode) (validAttribs : BitVec 32) (attribs : SettableFileAttribs)
    (now : BitVec 64) (storeRes : Bool) :
    ∃ flags stat, inode.setAttrData validAttribs attribs now storeRes =
        { inode with
          inodeDiskData :=
            { inode.inodeDiskData with inodeFeatureFlags := flags, inodeStatData := stat } } ∧
      (flags = inode.inodeDiskData.inodeFeatureFlags ∨ (inode.inodeDiskData.origFeature = .true ∧
          flags = inode.inodeDiskData.inodeFeatureFlags ||| hasOrigUID)) ∧
      (inode.inodeDiskData.origFeature = .true → flags &&& hasOrigUID ≠ 0 ∨
        inode.inodeDiskData.origParentUID = stat.settableFileAttribs.userID ∨
        stat.settableFileAttribs.userID =
          inode.inodeDiskData.inodeStatData.settableFileAttribs.userID) := by
  unfold FileInode.setAttrData FileInode.setSettableFileAttribs FileInode.modify
  dsimp only
  by_cases hset : validAttribs &&& setAttrChangeUserID ≠ 0 ∧
      attribs.userID ≠ inode.inodeDiskData.origParentUID ∧ inode.inodeDiskData.origFeature = .true
  · rw [if_pos hset]
    have huid : (inode.inodeDiskData.inodeFeatureFlags ||| hasOrigUID) &&&
        hasOrigUID ≠ 0 := or_and_self_ne_zero (by decide) _
    cases storeRes <;> exact ⟨_, _, rfl, .inr ⟨hset.2.2, rfl⟩, fun _ => .inl huid⟩
  · rw [if_neg hset]
    cases storeRes with
    | true =>
      refine ⟨_, _, rfl, .inl rfl, fun htrue => .inr ?_⟩
      by_cases hvalid : validAttribs &&& setAttrChangeUserID = 0
      · exact .inr (if_neg fun hne => hne hvalid)
      · refine .inl ?_
        show _ = if validAttribs &&& setAttrChangeUserID ≠ 0 then attribs.userID else _
        rw [if_pos hvalid]
        by_contra hne
        exact hset ⟨hvalid, Ne.symm hne, htrue⟩
    | false => exact ⟨_, _, rfl, .inl rfl, fun _ => .inr (.inr rfl)⟩

/-- The file is still consistent, and its chunk files are where they were. -/
def Keeps (file file' : FileEntry) : Prop :=
  file'.Consistent ∧ file.inode.getPathInfo.SamePlace file'.inode.getPathInfo

section

variable (h : file.Consistent)

include h

lemma Consistent.keeps_setAttrData (validAttribs : BitVec 32)
    (attribs : SettableFileAttribs) (now : BitVec 64) (storeRes : Bool) :
    file.Keeps (file.step (.setAttrData validAttribs attribs now storeRes)) := by
  have hvalid := h.valid.setAttrData validAttribs attribs now storeRes
  obtain ⟨flags, _, heq, hflags, huid⟩ :=
    setAttrData_eq file.inode validAttribs attribs now storeRes
  rw [heq] at hvalid
  have hother : ∀ f, hasOrigUID &&& f = 0 →
      flags &&& f = file.inode.inodeDiskData.inodeFeatureFlags &&& f := by
    intro f hf
    rcases hflags with rfl | ⟨-, rfl⟩
    · rfl
    · exact or_and_of_disjoint hf
  show file.Keeps ⟨file.inode.setAttrData validAttribs attribs now storeRes, file.parentEntryID⟩
  rw [heq]
  refine ⟨⟨hvalid, h.isFile, h.isInlined_iff, fun htrue => ?_, fun htrue => ?_, fun hfalse => ?_,
    h.length_origParentEntryID⟩, rfl, fun _ => ⟨rfl, rfl⟩⟩
  · rcases huid htrue with hflag | heq | hsame
    · exact .inl hflag
    · exact .inr heq
    · rcases h.origUID htrue with hflag | hsame'
      · refine .inl fun hzero => ?_
        rcases hflags with rfl | ⟨-, rfl⟩
        · exact hflag hzero
        · exact or_and_self_ne_zero (by decide) _ hzero
      · exact .inr (hsame'.trans hsame.symm)
  · rw [hother _ (by decide)]
    exact h.origParent htrue
  · rw [hother _ (by decide)]
    exact h.not_laterFlags hfalse

/-- The original parent that is stored when a file is moved is the one that was in use. -/
lemma Consistent.setPersistentOrigParentEntryID_eq :
    file.inode.inodeDiskData.setPersistentOrigParentEntryID file.parentEntryID.val =
      { file.inode.inodeDiskData with
        inodeFeatureFlags := parentStoredFlags file.inode.inodeDiskData } := by
  unfold setPersistentOrigParentEntryID
  split
  next hset =>
    have hpar : file.inode.inodeDiskData.origParentEntryID = file.parentEntryID.val := by
      rcases h.origParent hset.2 with hflag | ⟨-, heq⟩
      · exact absurd hset.1 hflag
      · exact heq
    rw [← hpar, parentStoredFlags, if_pos hset.2]
    rfl
  next hset =>
    have hflags : parentStoredFlags file.inode.inodeDiskData =
        file.inode.inodeDiskData.inodeFeatureFlags :=
      ite_eq_right_iff.mpr fun htrue =>
        or_twoPow_eq_self (k := 4) fun hzero => hset ⟨hzero, htrue⟩
    rw [hflags]

lemma Consistent.keeps_rename (newParentEntryID : EntryID) :
    file.Keeps (file.step (.rename newParentEntryID)) := by
  have hvalid := FileInode.Valid.mutate h.valid
    (.setPersistentOrigParentEntryID file.parentEntryID.val)
  have heq := h.setPersistentOrigParentEntryID_eq
  obtain ⟨hflag, hpar, hkept⟩ := parentStoredFlags_and file.inode.inodeDiskData
  unfold FileInode.mutate FileInode.modify at hvalid
  dsimp only at hvalid
  rw [heq] at hvalid
  show file.Keeps ⟨⟨file.inode.inodeDiskData.setPersistentOrigParentEntryID
    file.parentEntryID.val, _, _, _⟩, newParentEntryID⟩
  rw [heq]
  refine ⟨{ h with
    valid := hvalid
    origUID := ?_
    origParent := fun horig => .inl (hpar horig)
    not_laterFlags := fun horig => ?_ }, rfl, fun _ => ⟨rfl, rfl⟩⟩
  · have huid := h.origUID
    rw [← hflag] at huid
    exact huid
  · rw [hkept horig]
    exact h.not_laterFlags horig

lemma Consistent.keeps_deinline : file.Keeps (file.step .deinline) := by
  refine ⟨consistent_setIsInlined_false h.valid h.isFile h.origUID h.not_laterFlags
    h.length_origParentEntryID, ?_⟩
  rw [step, setIsInlined_false_eq]
  exact ⟨rfl, fun _ => ⟨rfl, rfl⟩⟩

end

/-! ## Storing and loading a file -/

/-- What an inode that was loaded has of the data that were read. -/
lemma load_eq_some {inode' : FileInode} (h : inode.load parentEntryID data = some inode') :
    inode'.entryType = data.dentryDiskData.entryType ∧
      ∃ id, inode'.getPathInfo = { data.inodeData.getPathInfo with origParentEntryID := id } ∧
        (data.inodeData.inodeFeatureFlags &&& hasOrigParentID ≠ 0 →
          id = data.inodeData.origParentEntryID) ∧ (inode.isInlined = true →
          data.inodeData.inodeFeatureFlags &&& hasOrigParentID = 0 → id = parentEntryID.val) := by
  unfold FileInode.load at h
  split at h
  next =>
    obtain ⟨-, -, hinode⟩ := createFromInlinedInode_eq_some h
    obtain ⟨id, hid, hzero, hne⟩ := setDynamicOrigParentEntryID_eq data.inodeData parentEntryID
    rw [hid] at hinode
    subst hinode
    exact ⟨rfl, id, rfl, hne, fun _ => hzero⟩
  next hinl =>
    obtain ⟨-, hinode⟩ := createFromInodeFile_eq_some h
    rw [setIsInlined_false_eq] at hinode
    subst hinode
    exact ⟨rfl, _, rfl, fun _ => rfl, fun hinl' => absurd hinl' hinl⟩

lemma IsFile.ne (hfile : file.IsFile) {entryType : BitVec 8} (h : entryType < 2) :
    file.inode.entryType ≠ entryType := by
  rintro rfl
  exact BitVec.not_le.mpr h hfile.1

/-- The type of the entry of a file is not set anew. -/
lemma prepare_of_isFile (hfile : file.IsFile) (writer : FileWriter) :
    writer.prepare (file.inode.diskMetaData writer) = file.inode.diskMetaData writer := by
  cases writer with
  | dentry => rfl
  | fileInode => exact if_neg (hfile.ne (by decide))

/-- The format version in which a file is stored. -/
lemma Consistent.formatVersion_eq (h : file.Consistent) :
    file.inode.writer.formatVersion (file.inode.diskMetaData file.inode.writer) =
      if file.inode.isInlined = true ∧ file.inode.inodeDiskData.origFeature ≠ .true then 4
      else 6 := by
  rw [FileWriter.formatVersion_eq, prepare_of_isFile h.isFile, file.inode.origFeature_diskMetaData]
  refine (if_neg (h.isFile.ne (by decide))).trans ?_
  cases hinl : file.inode.isInlined with
  | false =>
    have hflag : file.inode.featureFlags &&& inodeInline = 0 := by
      by_contra hflag
      cases hinl.symm.trans (h.isInlined_iff.mpr hflag)
    have hwriter : file.inode.writer = .fileInode := by
      rw [writer, hinl]
      rfl
    rw [hwriter]
    refine (if_pos hflag).trans ?_
    rw [if_neg (by simp), if_neg fun hold => absurd hold.1 (by simp)]
  | true =>
    have hflag := h.isInlined_iff.mp hinl
    refine (if_neg hflag).trans ?_
    by_cases horig : file.inode.inodeDiskData.origFeature = .true
    · rw [if_pos horig, if_neg fun h => h.2 horig]
    · rw [if_neg horig, if_pos ⟨rfl, horig⟩]

/-- What is written of an inode is what it has, up to the length of strings. -/
lemma stored_eq (inode : FileInode) (writer : FileWriter) :
    (inode.stored writer).inodeData.origParentUID = inode.inodeDiskData.origParentUID ∧
      (inode.stored writer).inodeData.inodeStatData.settableFileAttribs =
        inode.inodeDiskData.inodeStatData.settableFileAttribs ∧
      (inode.stored writer).inodeData.origParentEntryID =
        shortened inode.inodeDiskData.origParentEntryID := by
  have hwrit := writer.inodeData_written (inode.diskMetaData writer)
  unfold stored shorten
  rw [hwrit]
  cases writer <;> exact ⟨rfl, rfl, rfl⟩

lemma entryType_stored (hfile : file.IsFile) (writer : FileWriter) :
    (file.inode.stored writer).dentryDiskData.entryType = file.inode.entryType := by
  show (writer.prepare (file.inode.diskMetaData writer)).dentryDiskData.entryType = _
  rw [prepare_of_isFile hfile]
  rfl

lemma inodeFeatureFlags_receivedV6 (decoded : StripePattern)
    (owner : LocalOwner) (initial : DiskMetaData) :
    (data.receivedV6 decoded owner initial).inodeData.inodeFeatureFlags &&&
        hasOrigParentID = data.inodeData.inodeFeatureFlags &&& hasOrigParentID := by
  show ((data.receivedState initial.inodeData).inodeFeatureFlags ||| _) &&& _ = _
  rw [or_and_of_disjoint (by decide), receivedState]
  split
  · unfold setFileState
    split
    · exact and_not_and_of_disjoint (by decide)
    · exact or_and_of_disjoint (by decide)
  · rfl

/-- A file with information about the original parent has the same after it was stored. -/
lemma Consistent.samePlace_receivedV6 (h : file.Consistent)
    (htrue : file.inode.inodeDiskData.origFeature = .true) {decoded : StripePattern}
    {owner : LocalOwner} {initial : DiskMetaData} (hload : file.inode.load file.parentEntryID
      ((file.inode.stored file.inode.writer).receivedV6 decoded owner initial) = some inode) :
    file.inode.getPathInfo.SamePlace inode.getPathInfo := by
  obtain ⟨-, id, hinfo, hne, hzero⟩ := load_eq_some hload
  rw [inodeFeatureFlags_receivedV6, file.inode.inodeFeatureFlags_stored] at hne hzero
  obtain ⟨huid, hstat, hid⟩ := stored_eq file.inode file.inode.writer
  have hflags : file.inode.getPathInfo.flags = pathInfoFeatureOrig := by
    unfold FileInode.getPathInfo FileInodeStoreData.getPathInfo
    rw [htrue]
  rw [PathInfo.SamePlace, hinfo, hflags]
  refine ⟨rfl, fun _ => ⟨?_, ?_⟩⟩
  · show (file.inode.stored file.inode.writer).receivedOrigUID = _
    rw [receivedOrigUID, file.inode.inodeFeatureFlags_stored, huid, hstat]
    split
    next => rfl
    next hflag =>
      rcases h.origUID htrue with hflag' | heq
      · exact absurd (bne_iff_ne.mpr hflag') hflag
      · exact heq.symm
  · show id = file.inode.inodeDiskData.origParentEntryID
    by_cases hflag : file.inode.inodeDiskData.inodeFeatureFlags &&&
        hasOrigParentID = 0
    · rcases h.origParent htrue with hflag' | ⟨hinl, heq⟩
      · exact absurd hflag hflag'
      · rw [hzero hinl hflag, heq]
    · rw [hne hflag]
      show (file.inode.stored file.inode.writer).receivedOrigParentEntryID _ = _
      rw [receivedOrigParentEntryID, file.inode.inodeFeatureFlags_stored,
        if_pos (bne_iff_ne.mpr hflag), hid, shortened_of_lt h.length_origParentEntryID]

/-- Storing and loading keeps the chunk files where they are, unless the inode is a file of its own
that has no information about the original parent. -/
lemma Consistent.keeps_reload (h : file.Consistent)
    (hcond : file.inode.isInlined = true ∨ file.inode.inodeDiskData.origFeature = .true)
    (mem : ℕ → Byte) (owner : LocalOwner) (undefined : FileInodeStoreData) :
    file.Keeps (file.step (.reload mem owner undefined)) := by
  show file.Keeps ⟨(file.inode.reload file.parentEntryID mem owner undefined).getD file.inode, _⟩
  cases hrel : file.inode.reload file.parentEntryID mem owner undefined with
  | none => exact ⟨h, rfl, fun _ => ⟨rfl, rfl⟩⟩
  | some inode =>
    obtain ⟨_, data, hpat, hlen, hload, hread, hdata⟩ := h.valid.exists_of_reload hrel
    have hsto := h.valid.stored file.inode.writer
    have hver := h.formatVersion_eq
    unfold storedBytes at hlen hdata
    rw [hver] at hlen hdata
    suffices hkeeps : data.dentryDiskData.entryType = file.inode.entryType ∧
        file.inode.getPathInfo.SamePlace inode.getPathInfo by
      have hfile : IsFile ⟨inode, file.parentEntryID⟩ := by
        show 2 ≤ inode.entryType ∧ inode.entryType ≤ 7
        rw [(load_eq_some hload).1, hkeeps.1]
        exact h.isFile
      refine ⟨?_, hkeeps.2⟩
      unfold FileInode.load at hload
      split at hload
      · exact consistent_of_inlinedInode hread hload hfile
      · exact consistent_of_inodeFile hread hload hfile
    by_cases htrue : file.inode.inodeDiskData.origFeature = .true
    · rw [if_neg fun hold => hold.2 htrue] at hlen hdata
      obtain ⟨_, hpat', hchunk, -⟩ := hsto.inodeData.hasPattern
      obtain rfl := Option.some.inj (hpat.symm.trans hpat')
      have hrecv := hdata _ (deserializeDentry_accepts_V6 owner _ _ (hsto.readable _ hlen)
        hsto.inodeData.compat hchunk)
      rw [hrecv] at hload
      refine ⟨?_, h.samePlace_receivedV6 htrue hload⟩
      rw [hrecv]
      exact entryType_stored h.isFile file.inode.writer
    · have hinl := hcond.resolve_right htrue
      have hfalse := origFeature_eq_false h.valid.inodeDiskData htrue
      rw [if_pos ⟨hinl, htrue⟩] at hlen hdata
      have hrecv := hdata _ (deserializeDentry_accepts_V4 owner _ _ hsto hpat
        ((file.inode.origFeature_stored file.inode.writer).trans hfalse) ?_ hlen)
      · refine ⟨?_, ?_⟩
        · rw [hrecv]
          exact entryType_stored h.isFile file.inode.writer
        · obtain ⟨-, _, hinfo, -⟩ := load_eq_some hload
          have hflags : file.inode.getPathInfo.flags = 0 := by
            unfold FileInode.getPathInfo FileInodeStoreData.getPathInfo
            rw [hfalse]
          rw [PathInfo.SamePlace, hinfo, hflags, hrecv]
          exact ⟨rfl, fun hne => absurd rfl hne⟩
      · rw [file.inode.inodeFeatureFlags_stored]
        exact h.not_laterFlags hfalse

/-! ## Every run -/

/-- The condition on a step: an inode that is a file of its own is stored only if it has information
about the original parent. -/
def OrigKnown (file : FileEntry) : FileEntryOp → Prop
  | .reload .. => file.inode.isInlined = true ∨ file.inode.inodeDiskData.origFeature = .true
  | _ => True

instance (file : FileEntry) (op : FileEntryOp) : Decidable (file.OrigKnown op) :=
  match op with
  | .reload .. => inferInstanceAs (Decidable (_ ∨ _))
  | .setAttrData .. | .updateDynamicAttribs _ | .rename _ | .deinline =>
    isTrue trivial

lemma Consistent.keeps_step (h : file.Consistent) {op : FileEntryOp} (hop : file.OrigKnown op) :
    file.Keeps (file.step op) := by
  cases op with
  | setAttrData => exact h.keeps_setAttrData ..
  | updateDynamicAttribs dyn =>
    exact ⟨{ h with valid := h.valid.updateDynamicAttribs dyn }, rfl, fun _ => ⟨rfl, rfl⟩⟩
  | rename newParentEntryID => exact h.keeps_rename newParentEntryID
  | deinline => exact h.keeps_deinline
  | reload mem owner undefined => exact h.keeps_reload hop mem owner undefined

lemma Initial.consistent (h : file.Initial) (hfile : file.IsFile) : file.Consistent := by
  cases h with
  | inlinedInode _ _ _ _ _ _ hdata hinode =>
    exact consistent_of_inlinedInode (fileRead_of_readMetaData hdata
      (createFromInlinedInode_eq_some hinode).2.1) hinode hfile
  | inodeFile _ _ _ _ _ _ hdata hinode =>
    exact consistent_of_inodeFile (fileRead_of_readMetaData hdata
      (createFromInodeFile_eq_some hinode).1) hinode hfile
  | create parentEntryID entryID _ statData chunkSize storagePoolId content isBuddyMirrored
      origParentUID =>
    have hchunk : (StripePattern.create chunkSize storagePoolId content).getChunkSize ≠ 0 := by
      show (if chunkSize = 0 then _ else chunkSize) ≠ 0
      split
      · decide
      next hne => exact hne
    have huid : (FileInodeStoreData.create entryID statData
          (.create chunkSize storagePoolId content) (if isBuddyMirrored then buddyMirrored else 0)
          origParentUID parentEntryID.val .true).inodeFeatureFlags &&& hasOrigUID ≠ 0 ∨
        origParentUID = statData.settableFileAttribs.userID := by
      by_cases heq : origParentUID = statData.settableFileAttribs.userID
      · exact .inr heq
      · refine .inl ?_
        rw [FileInodeStoreData.create, if_pos ⟨Ne.symm heq, rfl⟩]
        exact or_and_self_ne_zero (by decide) _
    refine ⟨⟨⟨⟨_, rfl, hchunk, nofun⟩, nofun, ?_, ?_, nofun⟩, ?_, ?_⟩, hfile, ?_, fun _ => huid,
      fun _ => .inr ⟨rfl, rfl⟩, nofun, parentEntryID.property⟩
    all_goals dsimp only [FileInode.create, FileInodeStoreData.create]
    · split <;> cases isBuddyMirrored <;> decide
    · split <;> cases isBuddyMirrored <;> decide
    all_goals cases isBuddyMirrored <;> decide

/-- In every run from a file that was loaded or created, the chunk files are always found where they
were at the start, if no inode without information about the original parent is stored as a file of
its own. -/
theorem everyState_samePlace {file : FileEntry} (h : file.Initial) (hfile : file.IsFile)
    {ops : List FileEntryOp} (hops : EveryStep step OrigKnown file ops) :
    EveryState step (fun file' => file.inode.getPathInfo.SamePlace file'.inode.getPathInfo) file
      ops := by
  refine everyState_of_everyStep (I := fun file' => file'.Consistent ∧
    file.inode.getPathInfo.SamePlace file'.inode.getPathInfo)
    ?_ (fun _ h => h.2) ⟨h.consistent hfile, rfl, fun _ => ⟨rfl, rfl⟩⟩ hops
  rintro file' _ hop ⟨hcons, hplace⟩
  obtain ⟨hcons', hplace'⟩ := hcons.keeps_step hop
  exact ⟨hcons', hplace.trans hplace'⟩

/-- A new file of the user 1000 in the directory `root`. -/
def newFile : FileEntry :=
  let root : EntryID := ⟨[114, 111, 111, 116], by decide⟩
  { inode := create root [65, 45, 49] 2 oldFile.inodeDiskData.inodeStatData
      (.create 0x80000 (some 7) (.raid0 [1, 2] 4)) false 1000
    parentEntryID := root }

/-- The new file is given to another user, moved, taken out of its directory entry and stored. -/
def moveOut : List FileEntryOp :=
  [.setAttrData setAttrChangeUserID
      { mode := 0, userID := 1001, groupID := 0, modificationTimeSecs := 0,
        lastAccessTimeSecs := 0 } 5 true,
    .reload (fun _ => 0) ⟨1, 2⟩ oldFile.inodeDiskData, .rename ⟨[66], by decide⟩, .deinline,
    .reload (fun _ => 0) ⟨1, 2⟩ oldFile.inodeDiskData]

theorem newFile_samePlace :
    newFile.Initial ∧ newFile.IsFile ∧ EveryStep step OrigKnown newFile moveOut ∧ EveryState step
        (fun file => newFile.inode.getPathInfo.SamePlace file.inode.getPathInfo) newFile
        moveOut := by
  have hinitial : newFile.Initial := .create ..
  have hfile : newFile.IsFile := by decide
  have hops : EveryStep step OrigKnown newFile moveOut := by decide +kernel
  exact ⟨hinitial, hfile, hops, everyState_samePlace hinitial hfile hops⟩

/-- The file of an older server is taken out of its directory entry, stored and loaded.  After that,
its chunk files are looked for at another place. -/
theorem oldFile_not_samePlace :
    Initial ⟨oldFile, ⟨[114, 111, 111, 116], by decide⟩⟩ ∧
      IsFile ⟨oldFile, ⟨[114, 111, 111, 116], by decide⟩⟩ ∧ ¬ oldFile.getPathInfo.SamePlace
        (runFrom step ⟨oldFile, ⟨[114, 111, 111, 116], by decide⟩⟩
          [.deinline, .reload (fun _ => 0) ⟨1, 2⟩ oldFile.inodeDiskData]).inode.getPathInfo := by
  obtain ⟨data, hdata, hinode⟩ := bind_eq_some_iff.mp load_oldEntry
  exact ⟨.inlinedInode _ _ _ data _ _ hdata hinode, by decide, by decide +kernel⟩

end FileEntry

end Beegfs
