import Beegfs.Storage.DiskMetaDataFormat

/-!
# Decoding metadata from arbitrary bytes

When the decoders of stripe patterns, directory entries and inodes of directories are safe on a
buffer of arbitrary bytes: they return, and if the deserializer is still good then, a complete
record was read, with a stripe pattern where the format has one.
-/

namespace Beegfs

open Bytes Decoder MetaReader Cursor StripePattern Bool Grammar.Ensures

/-! ## Safety -/

/-- The decoder returns, and if the deserializer is good then, a complete word of the format was
read, and the result is as it should be. -/
def SafeAt {α : Type} (m : DesM α) (format : Grammar Byte α) (P : α → List Byte → Prop)
    (des : Deserializer) : Prop :=
  ∃ a des', m des = .ok (a, des') ∧ (des'.good = true →
    ∃ bs, format.accepts a bs ∧ P a bs ∧ des.Next bs ∧ des' = des.advance bs.length)

/-- A decoder that reads its format is safe where no hazard comes next. -/
lemma safeAt_iff {α : Type} {m : DesM α} {format : Grammar Byte α} {P : α → List Byte → Prop}
    (h : Reads m format) (hP : ∀ a bs, format.accepts a bs → P a bs) (des : Deserializer) :
    SafeAt m format P des ↔ ¬ Matches des format.hazards := by
  constructor
  · rintro ⟨a, _, hres, -⟩ hmat
    obtain ⟨e, he⟩ := h.fault.mpr hmat
    rw [hres] at he
    nomatch he
  · intro hmat
    cases hres : m des with
    | error e => exact absurd (h.fault.mp ⟨e, hres⟩) hmat
    | ok r =>
      refine ⟨r.1, r.2, hres, fun hgood => ?_⟩
      obtain ⟨bs, hbs, hnext, hdes'⟩ := h.sound hres hgood
      exact ⟨bs, hbs, hP _ _ hbs, hnext, hdes'⟩

/-- Safety, seen from where a first decoder has arrived. -/
lemma safeAt_bind_iff {α β : Type} {m : DesM α} {G : Grammar Byte α} {f : α → DesM β}
    {F : α → Grammar Byte β} {P : β → Prop} (hm : Reads m G) {des des1 : Deserializer} {a : α}
    (hres : m des = .ok (a, des1)) (hgood : des1.good = true) :
    SafeAt (m >>= f) (G >>= F) (fun b _ => P b) des ↔ SafeAt (f a) (F a) (fun b _ => P b) des1 := by
  unfold SafeAt
  rw [bind_of_eq_ok hres]
  refine exists_congr fun b => exists_congr fun des' => and_congr_right fun hf => ?_
  refine imp_congr_right fun hgood' => ?_
  have hiff : _ ↔ ∃ w, (F a).accepts b w ∧ Next des1 w ∧ des' = advance des1 w.length :=
    hm.exists_accepts_bind_iff hres hgood
  constructor
  · rintro ⟨bs, hbs, hPb, hnext⟩
    obtain ⟨bs', hbs', hnext'⟩ := hiff.mp ⟨bs, hbs, hnext⟩
    exact ⟨bs', hbs', hPb, hnext'⟩
  · rintro ⟨bs, hbs, hPb, hnext⟩
    obtain ⟨bs', hbs', hnext'⟩ := hiff.mpr ⟨bs, hbs, hnext⟩
    exact ⟨bs', hbs', hPb, hnext'⟩

/-! ## Inodes of directories -/

namespace DiskMetaData

variable (inode : DirInode)

lemma head_ensures :
    (deserializeDirInodeHead (m := Grammar Byte) inode).Ensures fun r => r.2 ≠ none := by
  refine bind fun _ => ite Grammar.ensures_fail ?_
  refine bind fun _ => bind fun _ =>
    ite Grammar.ensures_fail (Grammar.ensures_pure (Option.some_ne_none _))

lemma good_of_deserializeDirInodeHead_eq_some {inode inode' : DirInode} {formatVersion : BitVec 8}
    {des des' : Deserializer} (h : deserializeDirInodeHead (m := DesM) inode des =
      .ok ((inode', some formatVersion), des')) : des'.good = true := by
  obtain ⟨_, _, -, h⟩ := bind_eq_ok_iff.mp h
  rw [rejectIf_apply] at h
  split at h
  next => nomatch h
  next =>
    obtain ⟨_, _, -, h⟩ := bind_eq_ok_iff.mp h
    obtain ⟨_, _, -, h⟩ := bind_eq_ok_iff.mp h
    rw [returnIfBad_apply] at h
    split at h
    next => nomatch h
    next hgood =>
      split at h
      next => nomatch h
      next =>
        obtain ⟨-, rfl⟩ := Prod.mk.inj (Except.ok.inj h)
        rwa [not_eq_true', not_eq_false] at hgood

variable (des : Deserializer)

/-- The head is read completely, or the deserializer is bad and the decoder returns early. -/
lemma deserializeDirInodeHead_cases :
    (∃ inode' formatVersion des', deserializeDirInodeHead (m := DesM) inode des =
        .ok ((inode', some formatVersion), des') ∧ des'.good = true) ∨
      ∃ inode' des', deserializeDirInodeHead (m := DesM) inode des = .ok ((inode', none), des') ∧
        des'.good = false := by
  have hreads := reads_deserializeDirInodeHead inode
  cases hres : deserializeDirInodeHead (m := DesM) inode des with
  | error e =>
    obtain ⟨w, hw, -⟩ := hreads.fault.mp ⟨e, hres⟩
    exact absurd hw (head_harmless inode w)
  | ok r =>
    obtain ⟨⟨inode', formatVersion⟩, des'⟩ := r
    cases formatVersion with
    | some formatVersion =>
      exact .inl ⟨_, _, _, rfl, good_of_deserializeDirInodeHead_eq_some hres⟩
    | none =>
      refine .inr ⟨_, _, rfl, eq_false_iff.mpr fun hgood => ?_⟩
      obtain ⟨_, hbs, -⟩ := hreads.sound hres hgood
      exact head_ensures inode _ _ hbs rfl

/-- The head of an inode of a directory in the format version 1 or 2. -/
def OldFormat (bs : List Byte) : Prop :=
  ∃ inode' formatVersion,
    (deserializeDirInodeHead (m := Grammar Byte) inode).accepts (inode', some formatVersion) bs ∧
      (formatVersion = 1 ∨ formatVersion = 2)

lemma matches_oldFormat_iff {inode inode' : DirInode} {formatVersion : Option (BitVec 8)}
    {des des' : Deserializer}
    (hres : deserializeDirInodeHead (m := DesM) inode des = .ok ((inode', formatVersion), des')) :
    Matches des (OldFormat inode) ↔ formatVersion = some 1 ∨ formatVersion = some 2 := by
  have hreads := reads_deserializeDirInodeHead inode
  constructor
  · rintro ⟨bs, ⟨_, _, hbs, hold⟩, hnext⟩
    have hread := hreads.complete hbs hnext
    rw [hres, Except.ok.injEq, Prod.mk.injEq, Prod.mk.injEq] at hread
    rw [hread.1.2]
    exact hold.imp (congrArg some) (congrArg some)
  · intro hold
    have hgood : des'.good = true := by
      rcases hold with rfl | rfl
      · exact good_of_deserializeDirInodeHead_eq_some hres
      · exact good_of_deserializeDirInodeHead_eq_some hres
    obtain ⟨bs, hbs, hnext, -⟩ := hreads.sound hres hgood
    rcases hold with rfl | rfl
    · exact ⟨bs, ⟨inode', 1, hbs, .inl rfl⟩, hnext⟩
    · exact ⟨bs, ⟨inode', 2, hbs, .inr rfl⟩, hnext⟩

/-- The inode of a directory is safe to decode if it is complete, in the old formats, or if there is
no hazard, in the others. -/
def DirInodeCondition : Prop :=
  (Matches des (OldFormat inode) →
    ∃ inode', Matches des ((deserializeDirInode (m := Grammar Byte) inode).accepts inode')) ∧
  (¬ Matches des (OldFormat inode) →
    ¬ Matches des (deserializeDirInode (m := Grammar Byte) inode).hazards)

lemma safeAt_deserializeDirInode_iff :
    SafeAt (deserializeDirInode inode) (deserializeDirInode inode)
        (fun inode _ => HasPattern inode.stripePattern) des ↔ DirInodeCondition inode des := by
  have hreads := reads_deserializeDirInodeHead inode
  unfold DirInodeCondition
  rcases deserializeDirInodeHead_cases inode des with
    ⟨inode1, formatVersion, des1, hres, hgood⟩ | ⟨inode1, des1, hres, hbad⟩
  · refine (safeAt_bind_iff hreads hres hgood).trans ?_
    have hacc : ∀ inode',
        Matches des ((deserializeDirInode (m := Grammar Byte) inode).accepts inode') ↔ _ :=
      fun inode' => hreads.matches_accepts_bind_iff hres hgood
    have hhaz : Matches des (deserializeDirInode (m := Grammar Byte) inode).hazards ↔ _ :=
      hreads.matches_hazards_bind_iff (head_harmless inode) hres
    rw [matches_oldFormat_iff hres, Option.some.injEq, Option.some.injEq, hhaz]
    by_cases hold : formatVersion = 1 ∨ formatVersion = 2
    · -- in the old formats, the decoder returns exactly if the rest of the inode is complete
      have hdemands := demands_deserializeDirInodeData hold inode1
      simp only [hacc]
      refine ⟨?_, fun h => ?_⟩
      · rintro ⟨inode', _, hres', -⟩
        obtain ⟨bs, hbs, hnext, -⟩ := hdemands.sound hres'
        exact ⟨fun _ => ⟨inode', bs, hbs, hnext⟩, fun hnot => absurd hold hnot⟩
      · obtain ⟨inode', bs, hbs, hnext⟩ := h.1 hold
        refine ⟨inode', _, hdemands.complete hbs hnext, fun _ => ⟨bs, hbs, ?_, hnext, rfl⟩⟩
        exact deserializeDirInodeData_ensures formatVersion inode1 _ _ hbs
    · refine (safeAt_iff (reads_deserializeDirInodeData hold inode1) ?_ des1).trans ?_
      · exact deserializeDirInodeData_ensures formatVersion inode1
      · exact ⟨fun h => ⟨fun hold' => absurd hold' hold, fun _ hmat => h hmat.2⟩,
          fun h hmat => h.2 hold ⟨hgood, hmat⟩⟩
  · have hrest : deserializeDirInode (m := DesM) inode des = .ok (inode1, des1) :=
      bind_of_eq_ok hres
    have hbad' : des1.good ≠ true := eq_false_iff.mp hbad
    have hhaz : Matches des (deserializeDirInode (m := Grammar Byte) inode).hazards ↔ _ :=
      hreads.matches_hazards_bind_iff (head_harmless inode) hres
    refine iff_of_true ⟨inode1, des1, hrest, fun hgood => absurd hgood hbad'⟩ ⟨fun hold => ?_, ?_⟩
    · rw [matches_oldFormat_iff hres] at hold
      exact absurd hold (by simp)
    · intro _ hmat
      exact hbad' (hhaz.mp hmat).1

end DiskMetaData

/-! ## The decoders on arbitrary bytes -/

open DiskMetaData

/-- `StripePattern::deserialize` is safe: what is accepted is a pattern with a chunk size. -/
def SafePattern (hasPoolId : Bool) (des : Deserializer) : Prop :=
  SafeAt (deserialize hasPoolId)
    (format hasPoolId >>= fun pattern => pure (some pattern))
    (fun pattern _ => HasPattern pattern) des

/-- `DiskMetaData::deserializeDentry` is safe: what is accepted has a stripe pattern, if it has an
inode. -/
def SafeDentry (owner : LocalOwner) (data : DiskMetaData) (des : Deserializer) : Prop :=
  SafeAt (deserializeDentry owner data) (deserializeDentry owner data)
    (fun data bs => bs[1]? ≠ some 3 → HasPattern data.inodeData.stripePattern) des

/-- `DiskMetaData::deserializeDirInode` is safe: what is accepted has a stripe pattern. -/
def SafeDirInode (inode : DirInode) (des : Deserializer) : Prop :=
  SafeAt (deserializeDirInode inode) (deserializeDirInode inode)
    (fun inode _ => HasPattern inode.stripePattern) des

/-- Which bytes the decoders are safe on: those in which the type of the stripe pattern is known, no
string has the greatest length, and inodes of directories in the old formats are complete.  The
hazards of the formats are these types and lengths, and nothing else. -/
theorem decoders_safe_iff (hasPoolId : Bool) (owner : LocalOwner) (data : DiskMetaData)
    (inode : DirInode) (des : Deserializer) :
    (SafePattern hasPoolId des ↔ ¬ Matches des (StripePattern.UnknownType hasPoolId)) ∧
    (SafeDentry owner data des ↔
      ¬ Matches des (deserializeDentry (m := Grammar Byte) owner data).hazards) ∧
    (SafeDirInode inode des ↔ DirInodeCondition inode des) ∧
    UnsafeFieldsOnly (deserializeDentry (m := Grammar Byte) owner data) ∧
    UnsafeFieldsOnly (deserializeDirInode (m := Grammar Byte) inode) := by
  refine ⟨?_, ?_, safeAt_deserializeDirInode_iff inode des,
    (decodes_deserializeDentry owner data).hazards, unsafeFieldsOnly_deserializeDirInode inode⟩
  · have hensures := pattern_ensures hasPoolId
    refine (safeAt_iff (refines_deserialize hasPoolId) hensures des).trans ?_
    have hhaz := funext fun bs => propext (format_hazards_iff hasPoolId bs)
    rw [hhaz]
  · -- all formats but version 3 have a stripe pattern; the format version is the second byte
    refine safeAt_iff (reads_deserializeDentry owner data) (fun data' bs h hver => ?_) des
    obtain ⟨_, _, _, rfl, ⟨formatVersion, _, rest, rfl, hrest, rfl⟩, rfl⟩ := h
    have hne : formatVersion ≠ 3 := by
      rintro rfl
      exact hver rfl
    refine bind (P := fun data => HasPattern data.inodeData.stripePattern)
      (fun flags => ?_) data' rest hrest
    exact ite Grammar.ensures_fail (bind fun _ =>
      bind fun _ => deserializeDentryVersion_ensures owner hne _)

/-- A deserializer at the start of the given bytes. -/
def Deserializer.ofBytes (bytes : List Byte) (h : bytes.length < 2 ^ 32) : Deserializer where
  buffer := bytes
  bufferSize := BitVec.ofNat 32 bytes.length
  bufferOffset := 0
  size_eq _ := by rw [BitVec.toNat_ofNat, Nat.mod_eq_of_lt h]

/-- Stat data before anything was read. -/
def StatData.initial : StatData where
  flags := 0
  fileSize := 0
  creationTimeSecs := 0
  attribChangeTimeSecs := 0
  nlink := 0
  settableFileAttribs :=
    { mode := 0, userID := 0, groupID := 0, modificationTimeSecs := 0, lastAccessTimeSecs := 0 }
  metaVersion := 0
  chunkBlocksVec := []

/-- The objects that a directory entry is read into, before anything was read. -/
def DiskMetaData.initial : DiskMetaData where
  dentryDiskData := { entryID := [], entryType := 0, ownerNodeID := 0, dentryFeatureFlags := 0 }
  inodeData :=
    { inodeFeatureFlags := FileInodeStoreData.hasVersions
      inodeStatData := StatData.initial
      entryID := []
      stripePattern := none
      origFeature := .unset
      origParentUID := 0
      origParentEntryID := []
      fileVersion := 0
      metaVersion := 0
      rawFileState := 0 }

/-- The inode of a directory, before anything was read. -/
def DirInode.initial : DirInode where
  id := []
  ownerNodeID := 0
  stripePattern := none
  parentDirID := []
  parentNodeID := 0
  featureFlags := 0
  statData := StatData.initial
  numSubdirs := 0
  numFiles := 0

/-- A pattern of type 4 is used though it was not created; so is the pattern of a truncated inode of
a directory in the format version 2; and the terminator of a string is looked up behind the
buffer. -/
theorem decoders_fail :
    deserialize true
        (.ofBytes [0, 0, 0, 0, 4, 0, 0, 0, 0, 0, 8, 0, 1, 0] (by decide)) = .error .nullPattern ∧
    deserializeDirInode (m := DesM) DirInode.initial (.ofBytes [4, 2, 0, 0] (by decide)) =
      .error .nullPattern ∧
    deserializeDentry (m := DesM) { nodeID := 1, groupID := 1 } DiskMetaData.initial
        (.ofBytes [1, 3, 0, 0, 1, 0, 0, 0, 255, 255, 255, 255] (by decide)) = .error .outOfBounds :=
  ⟨rfl, rfl, rfl⟩

end Beegfs
