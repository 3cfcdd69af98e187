import Beegfs.Storage.FileInode

/-!
# What is always true of an inode

An inode has a stripe pattern and flags that the current format supports.  An inode that has no
information about the original parent has no flags for it either, and its pattern has no storage
pool.  This holds for inodes that were loaded, whatever the format version was, and for inodes of
new files, and no function that changes an inode changes it.
-/

namespace Beegfs

open Bytes MetaReader DiskMetaData Grammar Word StripePattern

namespace FileInodeStoreData

/-- The flags that say what is stored about the original parent. -/
def origFlags : BitVec 32 := hasOrigParentID ||| hasOrigUID

/-- The flags that were added after format version 4, apart from those for the original parent. -/
def laterFlags : BitVec 32 := hasRst ||| hasStateFlags

/-- The invariant of the data of an inode. -/
structure Valid (inode : FileInodeStoreData) : Prop where
  hasPattern : ∃ pattern, inode.stripePattern = some pattern ∧ pattern.getChunkSize ≠ 0 ∧
    (inode.origFeature = .false → pattern.header.hasPoolId = false)
  origFeature_ne_unset : inode.origFeature ≠ .unset
  compat : checkFeatureFlagsCompat inode.inodeFeatureFlags
    getSupportedDentryV5FileInodeFeatureFlags = true
  not_mirrored : inode.inodeFeatureFlags &&& mirrored = 0
  not_origFlags : inode.origFeature = .false → inode.inodeFeatureFlags &&& origFlags = 0

variable {inode : FileInodeStoreData}

lemma origFeature_eq_false (h : inode.Valid) (hne : inode.origFeature ≠ .true) :
    inode.origFeature = .false := by
  have hunset := h.origFeature_ne_unset
  cases horig : inode.origFeature with
  | unset => exact absurd horig hunset
  | true => exact absurd horig hne
  | false => rfl

/-- Format version 4 supports the flags of an inode without information about the original parent,
unless a later one is among them. -/
lemma compatV4_iff (hcomp : checkFeatureFlagsCompat inode.inodeFeatureFlags
      getSupportedDentryV5FileInodeFeatureFlags = true)
    (horig : inode.inodeFeatureFlags &&& origFlags = 0) :
    checkFeatureFlagsCompat inode.inodeFeatureFlags getSupportedDentryV4FileInodeFeatureFlags =
      true ↔ inode.inodeFeatureFlags &&& laterFlags = 0 := by
  have hsplit : ~~~ getSupportedDentryV4FileInodeFeatureFlags =
      ~~~ getSupportedDentryV5FileInodeFeatureFlags ||| (origFlags ||| laterFlags) := by decide
  rw [checkFeatureFlagsCompat_iff] at hcomp
  rw [checkFeatureFlagsCompat_iff, hsplit, BitVec.and_or_distrib_left, BitVec.and_or_distrib_left,
    hcomp, horig]
  simp

namespace Valid

variable (h : inode.Valid)

include h

/-- What is kept when only other members change. -/
lemma of_eq {inode' : FileInodeStoreData} (hpat : inode'.stripePattern = inode.stripePattern)
    (horig : inode'.origFeature = inode.origFeature)
    (hflags : inode'.inodeFeatureFlags = inode.inodeFeatureFlags) : inode'.Valid := by
  constructor
  · rw [hpat, horig]
    exact h.hasPattern
  · rw [horig]
    exact h.origFeature_ne_unset
  · rw [hflags]
    exact h.compat
  · rw [hflags]
    exact h.not_mirrored
  · rw [hflags, horig]
    exact h.not_origFlags

lemma add {flag : BitVec 32}
    (hcomp : checkFeatureFlagsCompat flag getSupportedDentryV5FileInodeFeatureFlags = true)
    (hmirr : flag &&& mirrored = 0)
    (horig : inode.origFeature = .false → flag &&& origFlags = 0) :
    (inode.addInodeFeatureFlag flag).Valid where
  hasPattern := h.hasPattern
  origFeature_ne_unset := h.origFeature_ne_unset
  compat := compat_or h.compat hcomp
  not_mirrored := or_and_eq_zero_iff.mpr ⟨h.not_mirrored, hmirr⟩
  not_origFlags hfalse := or_and_eq_zero_iff.mpr ⟨h.not_origFlags hfalse, horig hfalse⟩

lemma remove (flag : BitVec 32) : (inode.removeInodeFeatureFlag flag).Valid where
  hasPattern := h.hasPattern
  origFeature_ne_unset := h.origFeature_ne_unset
  compat := checkFeatureFlagsCompat_iff.mpr
    (and_and_eq_zero (checkFeatureFlagsCompat_iff.mp h.compat) _)
  not_mirrored := and_and_eq_zero h.not_mirrored _
  not_origFlags hfalse := and_and_eq_zero (h.not_origFlags hfalse) _

lemma setFileState (value : BitVec 8) : (inode.setFileState value).Valid := by
  have hvalue : Valid { inode with rawFileState := value } := h.of_eq rfl rfl rfl
  unfold FileInodeStoreData.setFileState
  split
  · exact hvalue.remove hasStateFlags
  · exact hvalue.add (by decide) (by decide) fun _ => by decide

lemma setIsRstAvailable (available : Bool) : (inode.setIsRstAvailable available).Valid := by
  unfold FileInodeStoreData.setIsRstAvailable
  split
  · exact h.add (by decide) (by decide) fun _ => by decide
  · exact h.remove hasRst

lemma setBuddyMirrorFeatureFlag (mirrored : Bool) :
    (inode.setBuddyMirrorFeatureFlag mirrored).Valid := by
  unfold FileInodeStoreData.setBuddyMirrorFeatureFlag
  split
  · exact h.add (by decide) (by decide) fun _ => by decide
  · exact h.remove buddyMirrored

lemma setPersistentOrigParentEntryID (id : List Byte) :
    (inode.setPersistentOrigParentEntryID id).Valid := by
  unfold FileInodeStoreData.setPersistentOrigParentEntryID
  split
  next htrue =>
    have hid : Valid { inode with origParentEntryID := id } := h.of_eq rfl rfl rfl
    refine hid.add (by decide) (by decide) fun hfalse => ?_
    nomatch htrue.2.symm.trans hfalse
  next => exact h

lemma setDynamicOrigParentEntryID (id : List Byte) :
    (inode.setDynamicOrigParentEntryID id).Valid := by
  unfold FileInodeStoreData.setDynamicOrigParentEntryID
  split
  · exact h.of_eq rfl rfl rfl
  · exact h

end Valid

end FileInodeStoreData

/-- The invariant of the metadata of a file. -/
structure DiskMetaData.Valid (data : DiskMetaData) : Prop where
  inodeData : data.inodeData.Valid
  dentry_compat : checkFeatureFlagsCompat data.dentryDiskData.dentryFeatureFlags
    getSupportedDentryFeatureFlags = true
  dentry_not_mirrored : data.dentryDiskData.dentryFeatureFlags &&& DentryStoreData.mirrored = 0

namespace FileInode

/-- The invariant of an inode. -/
structure Valid (inode : FileInode) : Prop where
  inodeDiskData : inode.inodeDiskData.Valid
  dentry_compat : checkFeatureFlagsCompat inode.featureFlags getSupportedDentryFeatureFlags = true
  dentry_not_mirrored : inode.featureFlags &&& DentryStoreData.mirrored = 0

variable {inode : FileInode}

namespace Valid

variable (h : inode.Valid)

include h

lemma modify {f : FileInodeStoreData → FileInodeStoreData}
    (hf : (f inode.inodeDiskData).Valid) : (inode.modify f).Valid :=
  ⟨hf, h.dentry_compat, h.dentry_not_mirrored⟩

lemma setIsInlined (value : Bool) : (inode.setIsInlined value).Valid := by
  unfold FileInode.setIsInlined
  cases value with
  | true =>
    exact ⟨h.inodeDiskData, compat_or h.dentry_compat (by decide),
      or_and_eq_zero_iff.mpr ⟨h.dentry_not_mirrored, by decide⟩⟩
  | false =>
    have hcomp := checkFeatureFlagsCompat_iff.mpr (and_and_eq_zero
      (checkFeatureFlagsCompat_iff.mp h.dentry_compat) (~~~ DentryStoreData.inodeInline))
    have hmirr := and_and_eq_zero h.dentry_not_mirrored (~~~ DentryStoreData.inodeInline)
    simp only [if_true]
    split
    next htrue =>
      refine ⟨h.inodeDiskData.add (by decide) (by decide) fun hfalse => ?_, hcomp, hmirr⟩
      nomatch htrue.symm.trans hfalse
    next => exact ⟨h.inodeDiskData, hcomp, hmirr⟩

lemma setSettableFileAttribs (attribs : SettableFileAttribs) :
    (inode.setSettableFileAttribs attribs).Valid :=
  h.modify (h.inodeDiskData.of_eq rfl rfl rfl)

lemma setAttrData (validAttribs : BitVec 32) (attribs : SettableFileAttribs)
    (now : BitVec 64) (storeRes : Bool) :
    (inode.setAttrData validAttribs attribs now storeRes).Valid := by
  have htime : (inode.modify fun data =>
      { data with inodeStatData := { data.inodeStatData with
        attribChangeTimeSecs := now } }).Valid :=
    h.modify (h.inodeDiskData.of_eq rfl rfl rfl)
  have hupdate := htime.setSettableFileAttribs
    (inode.inodeDiskData.inodeStatData.settableFileAttribs.update validAttribs attribs)
  have huid : ∀ {p : Prop} [Decidable p] {inode : FileInode}, inode.Valid →
      (p → inode.inodeDiskData.origFeature = .true) →
      (if p then inode.modify (·.addInodeFeatureFlag FileInodeStoreData.hasOrigUID)
        else inode).Valid := by
    intro p _ inode h hp
    split
    next htrue =>
      refine h.modify (h.inodeDiskData.add (by decide) (by decide) fun hfalse => ?_)
      nomatch (hp htrue).symm.trans hfalse
    next => exact h
  unfold FileInode.setAttrData
  split
  · exact huid hupdate fun hp => hp.2.2
  · exact (huid hupdate fun hp => hp.2.2).setSettableFileAttribs _

lemma updateDynamicAttribs (dyn : DynamicAttribs) : (inode.updateDynamicAttribs dyn).Valid :=
  h.modify (h.inodeDiskData.of_eq rfl rfl rfl)

end Valid

end FileInode

/-! ## Inodes that were read -/

namespace StripePattern

lemma format_ensures_hasPoolId (hasPoolId : Bool) :
    (format hasPoolId).Ensures fun p => p.header.hasPoolId = hasPoolId := by
  refine Ensures.bind fun header => Ensures.ite ensures_fail
    (Ensures.ite ensures_fail (Ensures.bind fun content => ?_))
  refine ensures_pure ?_
  cases hasPoolId <;> rfl

end StripePattern

namespace DiskMetaData

open FileInodeStoreData

/-- What is known of the file state that was read: only its flag can have changed. -/
lemma readFileState_ensures (inode : FileInodeStoreData)
    (hcomp : checkFeatureFlagsCompat inode.inodeFeatureFlags
      getSupportedDentryV5FileInodeFeatureFlags = true) :
    (readFileState (m := Grammar Byte) inode.inodeFeatureFlags inode).Ensures fun inode' =>
      ∃ flags raw, inode' = { inode with inodeFeatureFlags := flags, rawFileState := raw } ∧
        checkFeatureFlagsCompat flags getSupportedDentryV5FileInodeFeatureFlags = true ∧
        ∀ f, hasStateFlags &&& f = 0 → flags &&& f = inode.inodeFeatureFlags &&& f := by
  refine Ensures.ite (Ensures.bind fun state => Ensures.bind fun _ =>
    ensures_pure ?_) (Ensures.bind fun _ => ensures_pure ?_)
  · unfold setFileState
    split
    · exact ⟨_, state, rfl, checkFeatureFlagsCompat_iff.mpr
        (and_and_eq_zero (checkFeatureFlagsCompat_iff.mp hcomp) _),
        fun f hf => and_not_and_of_disjoint hf⟩
    · exact ⟨_, state, rfl, compat_or hcomp (by decide), fun f hf => or_and_of_disjoint hf⟩
  · exact ⟨inode.inodeFeatureFlags, inode.rawFileState, rfl, hcomp, fun _ _ => rfl⟩

variable (data : DiskMetaData)

lemma readEntryID_ensures :
    (readEntryID (m := Grammar Byte) data).Ensures fun data' => ∃ entryID, data' =
      { dentryDiskData := { data.dentryDiskData with entryID }
        inodeData := { data.inodeData with entryID } } :=
  Ensures.bind fun entryID => ensures_pure ⟨entryID, rfl⟩

/-- The original user is read, or it is the current one. -/
lemma readOrigParent_ensures (flags : BitVec 32) (inode : FileInodeStoreData) :
    (readOrigParent (m := Grammar Byte) flags inode).Ensures fun inode' =>
      ∃ uid id, inode' = { inode with origParentUID := uid, origParentEntryID := id } ∧
        (flags &&& hasOrigUID ≠ 0 ∨ uid = inode.inodeStatData.settableFileAttribs.userID) ∧
        (id.length < 2 ^ 32 ∨ id = inode.origParentEntryID) := by
  have huid : (readOrigUID (m := Grammar Byte) flags inode).Ensures fun uid =>
      flags &&& hasOrigUID ≠ 0 ∨ uid = inode.inodeStatData.settableFileAttribs.userID := by
    unfold readOrigUID
    split
    next h => exact fun _ _ _ => .inl (bne_iff_ne.mp h)
    next => exact ensures_pure (.inr rfl)
  refine huid.bind_of fun uid huid => Ensures.ite ?_ (ensures_pure ?_)
  · exact Deserializer.string_ensures.bind_of fun id hid =>
      ensures_pure ⟨uid, id, rfl, huid, .inl hid⟩
  · exact ⟨uid, inode.origParentEntryID, rfl, huid, .inr rfl⟩

/-- The mirror node is thrown away with its flag. -/
lemma readInodeTail_ensures_eq (hasStoragePool : Bool) (flags : BitVec 32)
    (inode : FileInodeStoreData)
    (hmirr : inode.inodeFeatureFlags &&& mirrored = flags &&& mirrored) :
    (readInodeTail (m := Grammar Byte) hasStoragePool flags inode).Ensures fun inode' =>
      ∃ (p : StripePattern) (v v' : BitVec 32), p.getChunkSize ≠ 0 ∧
        p.header.hasPoolId = hasStoragePool ∧ inode' =
          { inode with
            inodeFeatureFlags := (inode.inodeFeatureFlags &&& ~~~ mirrored) ||| hasVersions
            stripePattern := some p
            fileVersion := v
            metaVersion := v' } := by
  have hmirror : (readInodeMirrorNode (m := Grammar Byte) flags inode).Ensures fun inode' =>
      inode' = inode.removeInodeFeatureFlag mirrored := by
    unfold readInodeMirrorNode
    split
    next => exact Ensures.bind fun _ => ensures_pure rfl
    next h =>
      have hzero : inode.inodeFeatureFlags &&& mirrored = 0 := by
        rw [hmirr]
        by_contra hne
        exact h (bne_iff_ne.mpr hne)
      refine ensures_pure ?_
      have hflags : inode.inodeFeatureFlags &&& ~~~ mirrored = inode.inodeFeatureFlags :=
        and_not_eq_self hzero
      rw [removeInodeFeatureFlag, hflags]
  have hpat : (pattern (m := Grammar Byte) hasStoragePool).Ensures fun pattern =>
      ∃ p, pattern = some p ∧ p.getChunkSize ≠ 0 ∧ p.header.hasPoolId = hasStoragePool :=
    ((format_ensures hasStoragePool).and
      (format_ensures_hasPoolId hasStoragePool)).bind_of fun p hp =>
        ensures_pure ⟨p, rfl, hp⟩
  refine hmirror.bind_of fun _ hinode => hpat.bind_of fun pattern hpat => ?_
  obtain ⟨p, rfl, hchunk, hpool⟩ := hpat
  rw [hinode]
  refine Ensures.ite (Ensures.bind fun v => Ensures.bind fun v' =>
    ensures_pure ⟨p, v, v', hchunk, hpool, rfl⟩) (ensures_pure ?_)
  exact ⟨p, inode.fileVersion, inode.metaVersion, hchunk, hpool, rfl⟩

/-- What is known of a file whose inode was read. -/
structure FileRead : Prop extends data.Valid where
  origUID : data.inodeData.origFeature = .true →
    data.inodeData.inodeFeatureFlags &&& hasOrigUID ≠ 0 ∨
      data.inodeData.origParentUID = data.inodeData.inodeStatData.settableFileAttribs.userID
  not_laterFlags : data.inodeData.origFeature = .false →
    data.inodeData.inodeFeatureFlags &&& laterFlags = 0
  length_origParentEntryID : data.inodeData.origParentEntryID.length < 2 ^ 32

/-- The part of an entry that is known before the format version is looked at. -/
structure HeaderRead : Prop where
  dentry_compat : checkFeatureFlagsCompat data.dentryDiskData.dentryFeatureFlags
    getSupportedDentryFeatureFlags = true
  dentry_not_mirrored : data.dentryDiskData.dentryFeatureFlags &&& DentryStoreData.mirrored = 0
  stripePattern_eq : data.inodeData.stripePattern = none
  length_origParentEntryID : data.inodeData.origParentEntryID.length < 2 ^ 32

lemma compat_remove_or {flags : BitVec 32}
    (h : checkFeatureFlagsCompat flags getSupportedDentryV5FileInodeFeatureFlags = true) :
    checkFeatureFlagsCompat ((flags &&& ~~~ mirrored) ||| hasVersions)
      getSupportedDentryV5FileInodeFeatureFlags = true :=
  compat_or (checkFeatureFlagsCompat_iff.mpr (and_and_eq_zero
    (checkFeatureFlagsCompat_iff.mp h) _)) (by decide)

lemma remove_or_not_mirrored (flags : BitVec 32) :
    ((flags &&& ~~~ mirrored) ||| hasVersions) &&& mirrored = 0 :=
  or_and_eq_zero_iff.mpr ⟨and_not_and_self _ _, by decide⟩

variable (owner : LocalOwner) {data : DiskMetaData}

lemma deserializeDentryV5V6_ensures_fileRead (hasStoragePool : Bool) (h : data.HeaderRead) :
    (deserializeDentryV5V6 (m := Grammar Byte) hasStoragePool data).Ensures fun data =>
      (data.setOwner owner .true).FileRead := by
  refine Ensures.bind fun inodeFeatureFlags => Ensures.unless fun hcomp => ?_
  refine (readFileState_ensures { data.inodeData with inodeFeatureFlags }
    hcomp).bind_of fun _ ⟨flags, raw, hinode, hflags, hagree⟩ => ?_
  rw [hinode]
  refine Ensures.bind fun stat => ?_
  refine (readOrigParent_ensures inodeFeatureFlags _).bind_of
    fun _ ⟨uid, id, hinode, huid, hid⟩ => ?_
  rw [hinode]
  have hid' : id.length < 2 ^ 32 := by
    rcases hid with hid | rfl
    · exact hid
    · exact h.length_origParentEntryID
  refine (readEntryID_ensures _).bind_of fun _ ⟨entryID, hdata⟩ => ?_
  rw [hdata]
  refine (readInodeTail_ensures_eq hasStoragePool _ _ (hagree mirrored (by decide))).bind_of
    fun _ ⟨p, v, v', hchunk, _, hinode⟩ => ensures_pure ?_
  rw [hinode]
  have huid' : (flags &&& ~~~ mirrored ||| hasVersions) &&& hasOrigUID =
      inodeFeatureFlags &&& hasOrigUID := by
    rw [or_and_of_disjoint (by decide), and_not_and_of_disjoint (by decide)]
    exact hagree hasOrigUID (by decide)
  refine ⟨⟨⟨⟨p, rfl, hchunk, nofun⟩, nofun, compat_remove_or hflags, remove_or_not_mirrored flags,
    nofun⟩, h.dentry_compat, h.dentry_not_mirrored⟩, fun _ => ?_, nofun, hid'⟩
  rcases huid with huid | huid
  · exact .inl (huid'.trans_ne huid)
  · exact .inr huid

lemma deserializeDentryV4_ensures_fileRead (h : data.HeaderRead) :
    (deserializeDentryV4 (m := Grammar Byte) data).Ensures fun data =>
      (data.setOwner owner .false).FileRead := by
  refine Ensures.bind fun flags => Ensures.unless fun hcomp => ?_
  refine Ensures.bind fun _ => Ensures.bind fun stat => ?_
  refine (readEntryID_ensures _).bind_of fun _ ⟨entryID, hdata⟩ => ?_
  rw [hdata]
  refine Ensures.bind_of (readInodeTail_ensures_eq false flags _ (by rfl)) fun _ htail => ?_
  obtain ⟨p, v, _, hchunk, hpool, hinode⟩ := htail
  rw [hinode]
  refine ensures_pure ?_
  -- the flags of format version 4 are none of those that were added later
  have hdisj : ∀ f, f &&& (getSupportedDentryV4FileInodeFeatureFlags ||| hasVersions) = 0 →
      (flags &&& ~~~ mirrored ||| hasVersions) &&& f = 0 := by
    intro f hf
    rw [BitVec.and_comm, or_and_eq_zero_iff] at hf
    rw [checkFeatureFlagsCompat_iff] at hcomp
    refine or_and_eq_zero_iff.mpr ⟨and_and_eq_zero (and_eq_zero_of_disjoint hcomp ?_) _, hf.2⟩
    rw [BitVec.and_comm]
    exact hf.1
  refine ⟨⟨⟨⟨p, rfl, hchunk, fun _ => hpool⟩, nofun, ?_, remove_or_not_mirrored flags,
    fun _ => hdisj origFlags (by decide)⟩, h.dentry_compat, h.dentry_not_mirrored⟩, nofun,
    fun _ => hdisj laterFlags (by decide), h.length_origParentEntryID⟩
  exact compat_remove_or (checkFeatureFlagsCompat_iff.mpr (and_eq_zero_of_disjoint
    (checkFeatureFlagsCompat_iff.mp hcomp) (by decide)))

/-- An entry that has a stripe pattern after it was read is one of a file. -/
lemma deserializeDentry_ensures_fileRead (hpat : data.inodeData.stripePattern = none)
    (hpar : data.inodeData.origParentEntryID.length < 2 ^ 32) :
    (deserializeDentry (m := Grammar Byte) owner data).Ensures fun data =>
      data.inodeData.stripePattern ≠ none → data.FileRead := by
  refine Ensures.bind fun _ => Ensures.bind fun formatVersion =>
    Ensures.bind fun flags => Ensures.unless fun hcomp => ?_
  refine Ensures.bind fun entryType => ?_
  have hpadd : (readDentryPadding (m := Grammar Byte)
      { data.dentryDiskData with dentryFeatureFlags := flags, entryType }).Ensures fun dentry =>
        ({ data with dentryDiskData := dentry } : DiskMetaData).HeaderRead := by
    unfold readDentryPadding
    split
    next =>
      refine Ensures.bind fun _ => Ensures.bind fun _ => ensures_pure ?_
      exact ⟨checkFeatureFlagsCompat_iff.mpr (and_and_eq_zero
        (checkFeatureFlagsCompat_iff.mp hcomp) _), and_not_and_self _ _, hpat, hpar⟩
    next h =>
      refine Ensures.bind fun _ => ensures_pure ⟨hcomp, ?_, hpat, hpar⟩
      by_contra hne
      exact h (bne_iff_ne.mpr hne)
  refine hpadd.bind_of fun dentry h => ?_
  refine Ensures.ite ?_ (Ensures.ite ?_ (Ensures.ite ?_ (Ensures.ite ?_ ensures_fail)))
  · refine (readEntryID_ensures _).bind_of fun _ ⟨entryID, hdata⟩ => ?_
    rw [hdata]
    refine Ensures.ite (Ensures.bind fun _ => ensures_pure ?_)
      (Ensures.bind fun _ => ensures_pure ?_)
    · exact fun hpat => absurd h.stripePattern_eq hpat
    · exact fun hpat => absurd h.stripePattern_eq hpat
  · exact (deserializeDentryV4_ensures_fileRead owner h).bind_of fun _ hread =>
      ensures_pure fun _ => hread
  · refine (deserializeDentryV5V6_ensures_fileRead owner false h).bind_of fun data hread => ?_
    obtain ⟨p, hp, hchunk, -⟩ := hread.inodeData.hasPattern
    refine deref_ensures ⟨p, hp, hchunk⟩ fun p hp _ => ?_
    exact ⟨⟨⟨⟨_, rfl, hp, nofun⟩, hread.inodeData.origFeature_ne_unset, hread.inodeData.compat,
      hread.inodeData.not_mirrored, hread.inodeData.not_origFlags⟩, hread.dentry_compat,
      hread.dentry_not_mirrored⟩, hread.origUID, hread.not_laterFlags,
      hread.length_origParentEntryID⟩
  · exact (deserializeDentryV5V6_ensures_fileRead owner true h).bind_of fun _ hread =>
      ensures_pure fun _ => hread

end DiskMetaData

namespace FileInode

open Decoder FileInodeStoreData

/-- A file whose entry was read, with its inode. -/
lemma fileRead_of_readMetaData {owner : LocalOwner} {undefined : FileInodeStoreData}
    {des : Deserializer} {data : DiskMetaData} (h : readMetaData owner undefined des = some data)
    (hpat : data.inodeData.stripePattern ≠ none) : data.FileRead := by
  unfold readMetaData at h
  split at h
  next data' des' hdes =>
    split at h
    next hgood =>
      obtain rfl := Option.some.inj h
      obtain ⟨w, hw, _⟩ := (DiskMetaData.reads_deserializeDentry owner _).sound hdes hgood
      exact DiskMetaData.deserializeDentry_ensures_fileRead owner rfl (by simp [freshData, fresh])
        data' w hw hpat
    next => nomatch h
  next => nomatch h

/-- The inode was loaded from a directory entry or from a file of its own. -/
inductive LoadedFrom (data : DiskMetaData) (inode : FileInode) : Prop
  | inodeFile (h : createFromInodeFile data = some inode)
  | inlinedInode (parentEntryID : EntryID)
    (h : createFromInlinedInode parentEntryID data = some inode)

/-- The inode was loaded, from whatever bytes. -/
def Loaded (inode : FileInode) : Prop :=
  ∃ owner undefined des data, readMetaData owner undefined des = some data ∧ inode.LoadedFrom data

variable {inode : FileInode} {data : DiskMetaData}

lemma createFromInodeFile_eq_some (h : createFromInodeFile data = some inode) :
    data.inodeData.stripePattern ≠ none ∧ inode = FileInode.setIsInlined
      { inodeDiskData := data.inodeData
        entryType := data.dentryDiskData.entryType
        featureFlags := data.dentryDiskData.dentryFeatureFlags
        isInlined := false } false := by
  unfold createFromInodeFile at h
  split at h
  next => nomatch h
  next pattern hpat =>
    rw [hpat]
    exact ⟨nofun, (Option.some.inj h).symm⟩

lemma createFromInlinedInode_eq_some {parentEntryID : EntryID}
    (h : createFromInlinedInode parentEntryID data = some inode) :
    data.dentryDiskData.dentryFeatureFlags &&& DentryStoreData.inodeInline ≠ 0 ∧
    data.inodeData.stripePattern ≠ none ∧ inode = FileInode.setIsInlined
      { inodeDiskData := FileInodeStoreData.setMetaVersion
          { data.inodeData.setDynamicOrigParentEntryID parentEntryID.val with
            entryID := data.dentryDiskData.entryID }
          (data.inodeData.setDynamicOrigParentEntryID parentEntryID.val).metaVersion
        entryType := data.dentryDiskData.entryType
        featureFlags := data.dentryDiskData.dentryFeatureFlags
        isInlined := true } true := by
  unfold createFromInlinedInode at h
  split at h
  next => nomatch h
  next hinl =>
    split at h
    next => nomatch h
    next pattern hpat =>
      rw [hpat]
      exact ⟨hinl, nofun, (Option.some.inj h).symm⟩

lemma LoadedFrom.hasPattern (h : inode.LoadedFrom data) : data.inodeData.stripePattern ≠ none := by
  cases h with
  | inodeFile h => exact (createFromInodeFile_eq_some h).1
  | inlinedInode parentEntryID h => exact (createFromInlinedInode_eq_some h).2.1

lemma LoadedFrom.valid (h : inode.LoadedFrom data) (hread : data.FileRead) : inode.Valid := by
  cases h with
  | inodeFile h =>
    rw [(createFromInodeFile_eq_some h).2]
    exact Valid.setIsInlined ⟨hread.inodeData, hread.dentry_compat, hread.dentry_not_mirrored⟩ _
  | inlinedInode parentEntryID h =>
    rw [(createFromInlinedInode_eq_some h).2.2]
    have hvalid := hread.inodeData.setDynamicOrigParentEntryID parentEntryID.val
    exact Valid.setIsInlined ⟨hvalid.of_eq rfl rfl rfl, hread.dentry_compat,
      hread.dentry_not_mirrored⟩ _

/-- Every inode that was loaded meets the invariant. -/
theorem Loaded.valid (h : inode.Loaded) : inode.Valid := by
  obtain ⟨_, _, _, _, hread, hload⟩ := h
  exact hload.valid (fileRead_of_readMetaData hread hload.hasPattern)

end FileInode

/-! ## A file of an older server -/

/-- An inode in format version 4, which is inlined into an entry of the directory `root`. -/
def oldFile : FileInode where
  inodeDiskData :=
    { inodeFeatureFlags := FileInodeStoreData.hasVersions
      inodeStatData :=
        { flags := 0
          fileSize := 70000
          creationTimeSecs := 1
          attribChangeTimeSecs := 4
          nlink := 1
          settableFileAttribs :=
            { mode := 0o100644
              userID := 1000
              groupID := 100
              modificationTimeSecs := 3
              lastAccessTimeSecs := 2 }
          metaVersion := 5
          chunkBlocksVec := [] }
      entryID := [65, 45, 49]
      stripePattern := some twoTargets
      origFeature := .false
      origParentUID := 0
      origParentEntryID := [114, 111, 111, 116]
      fileVersion := 7
      metaVersion := 5
      rawFileState := 0 }
  entryType := 2
  featureFlags := DentryStoreData.inodeInline
  isInlined := true

/-- The directory entry that the inode is inlined into. -/
def oldEntry : Deserializer :=
  let bs := (oldFile.diskMetaData .dentry).dentryBytes twoTargets .fileDentry 4
  Deserializer.ofMemory (store (fun _ => 0) 0 bs) (BitVec.ofNat 32 bs.length) 0

lemma load_oldEntry :
    (FileInode.readMetaData ⟨1, 2⟩ oldFile.inodeDiskData oldEntry).bind
      (FileInode.createFromInlinedInode ⟨[114, 111, 111, 116], by decide⟩) = some oldFile := by
  decide +kernel

lemma loaded_oldFile : oldFile.Loaded := by
  obtain ⟨data, hdata, hinode⟩ := Option.bind_eq_some_iff.mp load_oldEntry
  exact ⟨_, _, _, data, hdata, .inlinedInode _ hinode⟩

end Beegfs
