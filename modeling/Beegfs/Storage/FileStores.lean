import Mathlib

/-!
# References on file inodes

`MetaStore` keeps the inodes of files in memory in `InodeFileStore`s: a global one, and one in each
directory.  A reference on an inode in a directory's store comes in two variants.  One also holds a
reference on the directory and counts itself in the inode (`numParentRefs`); the other is for
callers that hold the directory anyway.  Each has its own release.

This file follows the references on one file through the calls of `MetaStore` that take references
of their own.  `RefCall.sameRefs_iff_givesBack` says when such a call leaves the counts as they
were: `checkAndRepairDupFileInode` and `reinlineFileInode` release the first variant as if it were
the second, the former has exits without a release, and `makeNewHardlink` moves the inode of an open
file to the global store.
-/

namespace Beegfs.FileStores

/-! ## The stores -/

/-- The references on a `FileInode` in a store.  The last release unloads it.  Both counters are of
type `int`, so this is about fewer than `2 ^ 31` references at a time. -/
structure Copy where
  refCount : ℕ
  numParentRefs : ℕ
  pos : 0 < refCount

/-- `InodeFileStore::referenceFileInode`; `loads` tells whether the inode may and can be loaded. -/
def acquire (loads : Bool) : Option Copy → Option Copy
  | some c => some { c with refCount := c.refCount + 1, pos := Nat.succ_pos _ }
  | none => if loads then some ⟨1, 0, Nat.one_pos⟩ else none

/-- `InodeFileStore::releaseFileInode`. -/
def release : Option Copy → Option Copy
  | some c =>
    if h : 1 < c.refCount then some { c with refCount := c.refCount - 1, pos := by omega } else none
  | none => none

/-- The parent directory and the inlined flag of an `EntryInfo`. -/
structure EntryInfo (Dir : Type) where
  parent : Dir
  isInlined : Bool

/-- What comes from disk when a call asks for it: the directory, and the inode for the global store
and for the directory's. -/
structure Loads where
  dir : Bool
  global : Bool
  perDir : Bool

end FileStores

open FileStores

/-- What `MetaStore` has in memory of one file, and the references on the directories. -/
structure FileStores (Dir : Type) where
  global : Option Copy
  perDir : Dir → Option Copy
  dirRefs : Dir → ℕ

namespace FileStores

variable {Dir : Type} [DecidableEq Dir] (s : FileStores Dir) (d : Dir) (info : EntryInfo Dir)
  (l : Loads)

def setPerDir (copy : Option Copy) : FileStores Dir :=
  { s with perDir := Function.update s.perDir d copy }

def referenceDir : FileStores Dir :=
  { s with dirRefs := Function.update s.dirRefs d (s.dirRefs d + 1) }

def releaseDir : FileStores Dir :=
  { s with dirRefs := Function.update s.dirRefs d (s.dirRefs d - 1) }

variable (keepsDir : Bool)

/-- The overloads of `referenceFileUnlocked`: `keepsDir` is the one without a directory.  The inode
is loaded into the global store if it is not inlined. -/
def referenceFile : Option (FileStores Dir) :=
  match acquire (!info.isInlined && l.global) s.global with
  | some c => some { s with global := some c }
  | none =>
    if keepsDir && !l.dir then none
    else (acquire l.perDir (s.perDir info.parent)).map fun c =>
      if keepsDir then
        (s.referenceDir info.parent).setPerDir info.parent
          (some { c with numParentRefs := c.numParentRefs + 1 })
      else s.setPerDir info.parent (some c)

/-- The overloads of `releaseFileUnlocked`. -/
def releaseFile : FileStores Dir :=
  if s.global.isSome then { s with global := release s.global }
  else if keepsDir then
    (s.setPerDir d (release ((s.perDir d).map fun c =>
      { c with numParentRefs := c.numParentRefs - 1 }))).releaseDir d
  else s.setPerDir d (release (s.perDir d))

/-- `moveReferenceToMetaFileStoreUnlocked`, where the global store does not have the inode. -/
def moveReferenceToMetaFileStore : FileStores Dir :=
  match s.perDir d with
  | none => s
  | some c =>
    { global := some { c with numParentRefs := 0 }
      perDir := Function.update s.perDir d none
      dirRefs := Function.update s.dirRefs d (s.dirRefs d - c.numParentRefs) }

/-! ## Calls that take references -/

/-- The inode is referenced in one variant, and every exit behind the reference releases it in one
variant. -/
def withReference (takes gives : Bool) : FileStores Dir :=
  match s.referenceFile info l takes with
  | none => s
  | some s' => s'.releaseFile info.parent gives

def deinlineFileInode : FileStores Dir := s.withReference info l false false

def reinlineFileInode : FileStores Dir := s.withReference info l true false

/-- `verifyAndMoveFileInodeUnlocked`; `dentry` is the inlined flag of the dentry if that is found
and is the one of the file. -/
def verifyAndMoveFileInode (deinline : Bool) (dentry : Option Bool) : FileStores Dir :=
  match deinline, dentry with
  | true, some true => s.deinlineFileInode info l
  | false, some false => s.reinlineFileInode info l
  | _, _ => s

/-- `checkAndRepairDupFileInode`; `parentLoads` is the result of `loadIfNotLoadedUnlocked`, and
`isInlined` the flag of the referenced inode.  For the second inode `createFromEntryInfo` tries the
inode file, and then the dentry again. -/
def checkAndRepairDupFileInode (parentLoads isInlined inodeFile inDentry : Bool) : FileStores Dir :=
  if !parentLoads then s
  else match s.referenceFile { info with isInlined := true } l true with
    | none => s
    | some s' =>
      if !isInlined then s'
      else if !(inodeFile || inDentry) then s'
      else s'.releaseFile info.parent false

/-- `makeNewHardlink`; `stored` is the inlined flag of the inode on disk, and `moved` the result of
the move out of the dentry. -/
def makeNewHardlink (stored dentry : Option Bool) (moved : Bool) : FileStores Dir :=
  match stored with
  | none => s
  | some isInlined =>
    if isInlined && !l.dir then s
    else
      let s' := if isInlined then
          ((s.referenceDir info.parent).verifyAndMoveFileInode info l true dentry).releaseDir
            info.parent
        else s
      if isInlined && !moved then s'
      else
        let s' := if s'.global.isSome then s' else s'.moveReferenceToMetaFileStore info.parent
        s'.withReference info l true true

def linkInSameDir : FileStores Dir := s.withReference info l false false

/-- `unlinkFileInode`: a loaded inode is referenced in the global store, here and again in
`unlinkInodeLater`. -/
def unlinkFileInode : FileStores Dir :=
  if s.global.isSome then
    { s with global := release (acquire false (release (acquire false s.global))) }
  else s.withReference info l true true

/-- `setFileState`; `locked` is the result of `GlobalInodeLockStore::insertFileInode`. -/
def setFileState (locked : Bool) : FileStores Dir :=
  if !locked || !l.dir then s
  else ((s.referenceDir info.parent).withReference info l false false).releaseDir info.parent

/-! ## Which calls give their references back -/

/-- All counts are the same.  The inode may have moved to the global store. -/
def SameRefs (s' : FileStores Dir) : Prop :=
  s' = s ∨ ∃ d, s.global = none ∧ s.perDir d ≠ none ∧
    s' = { s with global := s.perDir d, perDir := Function.update s.perDir d none }

/-- The inode is not in the global store and is not loaded into it, but it can be referenced in the
directory's store. -/
def UsesPerDir : Prop :=
  acquire (!info.isInlined && l.global) s.global = none ∧ l.dir = true ∧
    acquire l.perDir (s.perDir info.parent) ≠ none

variable {s d info l} {s' : FileStores Dir} {loads : Bool} {copy : Option Copy} {c : Copy}

lemma SameRefs.dirRefs_eq (h : s.SameRefs s') : s'.dirRefs = s.dirRefs := by
  rcases h with rfl | ⟨d, -, -, rfl⟩ <;> rfl

lemma SameRefs.global_eq (h : s.SameRefs s') (hperDir : s'.perDir = s.perDir) :
    s'.global = s.global := by
  rcases h with rfl | ⟨d, -, hd, rfl⟩
  · rfl
  · exact absurd (congrFun hperDir d).symm (by simpa using hd)

lemma release_acquire (h : acquire loads copy = some c) : release (some c) = copy := by
  cases copy with
  | none =>
    obtain ⟨-, hc⟩ := Option.ite_none_right_eq_some.mp h
    rw [← hc]
    rfl
  | some c0 =>
    obtain rfl := Option.some.inj h
    exact dif_pos (Nat.succ_lt_succ c0.pos)

lemma release_ne_some (c : Copy) : release (some c) ≠ some c := by
  intro h
  obtain ⟨_, hc⟩ := Option.dite_none_right_eq_some.mp h
  have hcount := congrArg Copy.refCount (Option.some.inj hc)
  dsimp only at hcount
  omega

/-- What a reference does. -/
lemma referenceFile_eq {keepsDir : Bool} (h : s.referenceFile info l keepsDir = some s') :
    (∃ c, release (some c) = s.global ∧ s' = { s with global := some c } ∧ ¬UsesPerDir s info l ∧
        (s.global = none → info.isInlined = false)) ∨
      s.global = none ∧ ∃ c, release (some c) = s.perDir info.parent ∧ if keepsDir then
          s' = (s.referenceDir info.parent).setPerDir info.parent
            (some { c with numParentRefs := c.numParentRefs + 1 }) ∧ UsesPerDir s info l
        else s' = s.setPerDir info.parent (some c) := by
  unfold referenceFile at h
  split at h
  · rename_i c hc
    refine .inl ⟨c, release_acquire hc, (Option.some.inj h).symm, fun huses => ?_, fun hg => ?_⟩
    · rw [huses.1] at hc
      cases hc
    · rw [hg] at hc
      obtain ⟨hloads, -⟩ := Option.ite_none_right_eq_some.mp hc
      simpa using (Bool.and_eq_true_iff.mp hloads).1
  · rename_i hnone
    split at h
    · cases h
    rename_i hdir
    obtain ⟨c, hc, rfl⟩ := Option.map_eq_some_iff.mp h
    refine .inr ⟨?_, c, release_acquire hc, ?_⟩
    · cases hg : s.global with
      | none => rfl
      | some c0 => rw [hg] at hnone; cases hnone
    · cases keepsDir with
      | false => rfl
      | true => exact ⟨rfl, hnone, by simpa using hdir, by simp [hc]⟩

/-- A reference that is not given back. -/
lemma not_sameRefs_of_referenceFile (h : s.referenceFile info l true = some s') :
    ¬s.SameRefs s' := by
  rcases referenceFile_eq h with ⟨c, hc, rfl, -⟩ | ⟨-, c, -, rfl, -⟩
  · intro hsame
    exact release_ne_some c (hc.trans (hsame.global_eq rfl).symm)
  · intro hsame
    have hrefs := congrFun hsame.dirRefs_eq info.parent
    simp [setPerDir, referenceDir] at hrefs

/-- A reference that keeps the directory, with the release that does not give that back. -/
lemma sameRefs_releaseFile_iff (h : s.referenceFile info l true = some s') :
    s.SameRefs (s'.releaseFile info.parent false) ↔ ¬UsesPerDir s info l := by
  rcases referenceFile_eq h with ⟨c, hc, rfl, huses, -⟩ | ⟨hg, c, -, rfl, huses⟩
  · refine iff_of_true (.inl ?_) huses
    simp [releaseFile, hc]
  · refine iff_of_false (fun hsame => ?_) (not_not_intro huses)
    have hrefs := congrFun hsame.dirRefs_eq info.parent
    simp [releaseFile, setPerDir, referenceDir, hg] at hrefs

lemma not_usesPerDir_of_none (h : s.referenceFile info l true = none) : ¬UsesPerDir s info l := by
  rintro ⟨hnone, hdir, hperDir⟩
  obtain ⟨c, hc⟩ := Option.ne_none_iff_exists'.mp hperDir
  simp [referenceFile, hnone, hdir, hc] at h

/-- A reference is given back by its own release. -/
@[simp] lemma withReference_self : s.withReference info l keepsDir keepsDir = s := by
  unfold withReference
  split
  next => rfl
  next h =>
    rcases referenceFile_eq h with ⟨c, hc, rfl, -⟩ | ⟨hg, c, hc, hs'⟩
    · simp [releaseFile, hc]
    · cases keepsDir with
      | false =>
        obtain rfl := hs'
        simp [releaseFile, setPerDir, hg, hc]
        rw [← hg]
      | true =>
        obtain ⟨rfl, -⟩ := hs'
        simp [releaseFile, setPerDir, referenceDir, releaseDir, hg, hc]
        rw [← hg]

lemma sameRefs_reinlineFileInode_iff :
    s.SameRefs (s.reinlineFileInode info l) ↔ ¬UsesPerDir s info l := by
  unfold reinlineFileInode withReference
  split
  · exact iff_of_true (.inl rfl) (not_usesPerDir_of_none ‹_›)
  · exact sameRefs_releaseFile_iff ‹_›

lemma sameRefs_moveReferenceToMetaFileStore_iff (hg : s.global = none) :
    s.SameRefs (s.moveReferenceToMetaFileStore d) ↔ ∀ c ∈ s.perDir d, c.numParentRefs = 0 := by
  unfold moveReferenceToMetaFileStore
  cases hp : s.perDir d with
  | none => simp [SameRefs]
  | some c =>
    refine ⟨?_, fun h => ?_⟩
    · rintro (h | ⟨d', -, hd', h⟩) _ hc'
      · exact absurd ((congrArg global h).trans hg) nofun
      obtain rfl : d' = d := by
        by_contra hne
        have hnone := congrFun (congrArg perDir h) d'
        simp [hne, hd'] at hnone
      have hcopy := (congrArg global h).trans hp
      obtain rfl := Option.some.inj hc'
      exact (congrArg Copy.numParentRefs (Option.some.inj hcopy)).symm
    · obtain ⟨_, _, _⟩ := c
      obtain rfl := h _ rfl
      exact .inr ⟨d, hg, by simp [hp], by simp [hp]⟩

lemma unlinkFileInode_eq : s.unlinkFileInode info l = s := by
  unfold unlinkFileInode
  cases hg : s.global with
  | some c =>
    have hback : release (acquire false (some c)) = some c := @release_acquire false (some c) _ rfl
    rw [Option.isSome_some, if_pos rfl, hback, hback, ← hg]
  | none => rw [Option.isSome_none, if_neg Bool.false_ne_true, withReference_self]

lemma setFileState_eq (locked : Bool) : s.setFileState info l locked = s := by
  unfold setFileState
  split
  · rfl
  · simp [referenceDir, releaseDir]

end FileStores

/-! ## The calls -/

/-- The calls of `MetaStore` that reference a file for themselves. -/
inductive RefCall where
  | checkAndRepairDupFileInode (parentLoads isInlined inodeFile inDentry : Bool)
  | verifyAndMoveFileInode (deinline : Bool) (dentry : Option Bool)
  | makeNewHardlink (stored dentry : Option Bool) (moved : Bool)
  | linkInSameDir
  | unlinkFileInode
  | setFileState (locked : Bool)

namespace RefCall

variable {Dir : Type} [DecidableEq Dir] (s : FileStores Dir) (info : EntryInfo Dir) (l : Loads)

/-- The state in which a call leaves the stores. -/
def run : RefCall → FileStores Dir
  | checkAndRepairDupFileInode parentLoads isInlined inodeFile inDentry =>
    s.checkAndRepairDupFileInode info l parentLoads isInlined inodeFile inDentry
  | verifyAndMoveFileInode deinline dentry => s.verifyAndMoveFileInode info l deinline dentry
  | makeNewHardlink stored dentry moved => s.makeNewHardlink info l stored dentry moved
  | linkInSameDir => s.linkInSameDir info l
  | unlinkFileInode => s.unlinkFileInode info l
  | setFileState locked => s.setFileState info l locked

/-- When a call leaves no reference behind. -/
def GivesBack : RefCall → Prop
  | checkAndRepairDupFileInode parentLoads isInlined inodeFile inDentry =>
    parentLoads → ¬UsesPerDir s { info with isInlined := true } l ∧
      (s.global ≠ none → isInlined ∧ (inodeFile ∨ inDentry))
  | verifyAndMoveFileInode deinline dentry =>
    deinline = false → dentry = some false → ¬UsesPerDir s info l
  | makeNewHardlink stored _ moved =>
    stored = some false ∨ stored = some true ∧ l.dir ∧ moved →
      s.global = none → ∀ c ∈ s.perDir info.parent, c.numParentRefs = 0
  | _ => True

variable {s info l}

/-- A call leaves the references on the inode and on the directories as they were if and only if it
gives its own back. -/
theorem sameRefs_iff_givesBack (call : RefCall) :
    s.SameRefs (call.run s info l) ↔ call.GivesBack s info l := by
  have hself : s.SameRefs s := .inl rfl
  cases call with
  | checkAndRepairDupFileInode parentLoads isInlined inodeFile inDentry =>
    rw [run, GivesBack, FileStores.checkAndRepairDupFileInode]
    cases parentLoads with
    | false => simp [SameRefs]
    | true =>
      rw [forall_prop_of_true rfl]
      cases href : s.referenceFile { info with isInlined := true } l true with
      | none =>
        refine iff_of_true (.inl rfl) ⟨not_usesPerDir_of_none href, fun hg => ?_⟩
        obtain ⟨c, hc⟩ := Option.ne_none_iff_exists'.mp hg
        simp [referenceFile, hc, acquire] at href
      | some s' =>
        have hload : ¬UsesPerDir s { info with isInlined := true } l → s.global ≠ none := by
          intro huses hg
          rcases referenceFile_eq href with ⟨c, -, -, -, hflag⟩ | ⟨-, c, -, -, h⟩
          · exact Bool.noConfusion (hflag hg)
          · exact huses h
        have hkept := not_sameRefs_of_referenceFile href
        have hrel := sameRefs_releaseFile_iff href
        rw [← Bool.or_eq_true]
        cases isInlined <;> cases inodeFile || inDentry <;> simp [hkept, hrel] <;> exact hload
  | verifyAndMoveFileInode deinline dentry =>
    unfold run GivesBack FileStores.verifyAndMoveFileInode
    rcases deinline with _ | _ <;> rcases dentry with _ | _ | _ <;>
      simp [deinlineFileInode, sameRefs_reinlineFileInode_iff, hself]
  | makeNewHardlink stored dentry moved =>
    -- the references on the directory are dropped if the inode is moved
    have hmove : ((s.referenceDir info.parent).verifyAndMoveFileInode info l true dentry).releaseDir
        info.parent = s := by
      rcases dentry with _ | _ | _ <;>
        simp [FileStores.verifyAndMoveFileInode, deinlineFileInode, referenceDir, releaseDir]
    have hmoved : s.SameRefs
          (if s.global.isSome then s else s.moveReferenceToMetaFileStore info.parent) ↔
        (s.global = none → ∀ c ∈ s.perDir info.parent, c.numParentRefs = 0) := by
      cases hg : s.global with
      | some c => simp [hself]
      | none => simp [sameRefs_moveReferenceToMetaFileStore_iff hg]
    unfold run GivesBack FileStores.makeNewHardlink
    rcases stored with _ | _ | _
    · simp [hself]
    · simp [hmoved]
    · cases l.dir <;> cases moved <;> simp [hself, hmove, hmoved]
  | linkInSameDir => exact iff_of_true (.inl (withReference_self false)) trivial
  | unlinkFileInode => exact iff_of_true (.inl unlinkFileInode_eq) trivial
  | setFileState locked => exact iff_of_true (.inl (setFileState_eq locked)) trivial

/-- The check of a file without an inode file keeps a reference on the file's directory. -/
theorem checkAndRepairDupFileInode_keeps_dir :
    ((checkAndRepairDupFileInode true true false true).run ⟨none, fun _ => none, fun _ => 0⟩
      ⟨(), true⟩ ⟨true, false, true⟩).dirRefs () = 1 := rfl

end RefCall

end Beegfs
