import Mathlib

/-!
# Renaming a hard link onto another one

`RenameV2MsgEx` renames a file within its directory, or has it inserted into another directory,
maybe of another server, and then removes the old name.  Two names of one file stay in the first
case only, and even then the time of the last change of the inode is set: in the second case the
server of the new name does nothing and answers with a success, after which the old name is removed
(`leavesAlone_iff`).  Disk and network operations succeed, and copies on a secondary are left out.
-/

namespace Beegfs

/-- A directory entry of a file, with the server that the inode is on. -/
structure FileDentry (ID Node : Type) where
  entryID : ID
  isInodeInlined : Bool
  ownerNodeID : Node

/-- The inode of a file.  `contents` is the rest of it, without the first directory, which is
recorded when an inlined inode is moved. -/
structure LinkedInode (Contents : Type) where
  numHardlinks : ℕ
  attribChangeTimeSecs : ℕ
  contents : Contents

/-- The directories and inodes of all metadata servers, and the files that are open or have
chunks. -/
structure FileNames (Dir Name ID Node Contents : Type) where
  owner : Dir → Node
  dentries : Dir → Name → Option (FileDentry ID Node)
  /-- The inodes that are inlined in a directory, and the others. -/
  inodes : Option Dir → ID → Option (LinkedInode Contents)
  inUse : ID → Bool
  hasChunks : ID → Bool

/-- What a rename returns. -/
inductive RenameResult
  | success
  | pathNotExists
  | inUse
deriving DecidableEq

namespace FileNames

variable {Dir Name ID Node Contents : Type} [DecidableEq Dir] [DecidableEq ID]
  (s : FileNames Dir Name ID Node Contents) (now : ℕ)

/-- Makes, replaces or removes an inode. -/
def setInode (place : Option Dir) (id : ID) (inode : Option (LinkedInode Contents)) :
    FileNames Dir Name ID Node Contents :=
  { s with inodes := Function.update s.inodes place (Function.update (s.inodes place) id inode) }

/-- Where the inode of an entry of a directory is. -/
def place (dir : Dir) (e : FileDentry ID Node) : Option Dir :=
  if e.isInodeInlined then some dir else none

/-- One name of the inode is gone, and the inode too if it was the last one, with its chunk files if
these are to be deleted.  The inode of an open file stays, for the disposal directory. -/
def unlinkInode (dir : Dir) (e : FileDentry ID Node) (chunks : Bool) :
    FileNames Dir Name ID Node Contents :=
  match s.inodes (place dir e) e.entryID with
  | none => s
  | some inode =>
    if 1 < inode.numHardlinks ∨ s.inUse e.entryID then
      s.setInode (place dir e) e.entryID (some { inode with
        numHardlinks := inode.numHardlinks - 1
        attribChangeTimeSecs := now })
    else
      { s.setInode (place dir e) e.entryID none with
        hasChunks := if chunks then Function.update s.hasChunks e.entryID false else s.hasChunks }

@[simp] lemma dentries_unlinkInode (dir : Dir) (e : FileDentry ID Node) (chunks : Bool) :
    (s.unlinkInode now dir e chunks).dentries = s.dentries := by
  unfold unlinkInode
  split
  · rfl
  · split_ifs <;> rfl

variable [DecidableEq Name]

/-- Makes, replaces or removes a directory entry. -/
def setDentry (dir : Dir) (name : Name) (e : Option (FileDentry ID Node)) :
    FileNames Dir Name ID Node Contents :=
  { s with dentries := Function.update s.dentries dir (Function.update (s.dentries dir) name e) }

/-- `MetaStore::moveRemoteFileInsert` on the server of the new directory, with the overwritten entry
that it answers with. -/
def moveRemoteFileInsert (fromDir toDir : Dir) (newName : Name) (e : FileDentry ID Node) :
    Option (FileDentry ID Node) × FileNames Dir Name ID Node Contents :=
  let inserted := (s.setDentry toDir newName (some e)).setInode (place toDir e) e.entryID
    (s.inodes (place fromDir e) e.entryID)
  match s.dentries toDir newName with
  | none => (none, inserted)
  | some o =>
    (some o, if e.entryID = o.entryID then s
      else if o.isInodeInlined then inserted.unlinkInode now toDir o true else inserted)

/-- `RenameV2MsgEx::renameFile` of an entry: what `remoteFileInsertAndUnlink` does with the answer,
and the removal of the old name.  An inlined inode is not moved while the file is open. -/
def renameFile (fromDir : Dir) (oldName : Name) (toDir : Dir) (newName : Name)
    (e : FileDentry ID Node) : RenameResult × FileNames Dir Name ID Node Contents :=
  if e.isInodeInlined ∧ s.inUse e.entryID then (.inUse, s)
  else
    let (overwritten, s) := s.moveRemoteFileInsert now fromDir toDir newName e
    let s := match overwritten with
      | some o => if o.isInodeInlined then s else s.unlinkInode now toDir o true
      | none => s
    let s := s.setDentry fromDir oldName none
    (.success, if e.isInodeInlined then s.unlinkInode now fromDir e false else s)

/-- The old name is gone after a rename into another directory, whatever was there. -/
lemma dentries_renameFile {fromDir toDir : Dir} {oldName newName : Name} {e : FileDentry ID Node}
    (h : (s.renameFile now fromDir oldName toDir newName e).1 = .success) :
    (s.renameFile now fromDir oldName toDir newName e).2.dentries fromDir oldName = none := by
  unfold renameFile at h ⊢
  split_ifs at h ⊢ <;> simp [setDentry]

variable [DecidableEq Node]

/-- The inode of an entry, if it is on the server of the directory. -/
def localInode (dir : Dir) (e : FileDentry ID Node) : Option (LinkedInode Contents) :=
  if e.isInodeInlined ∨ e.ownerNodeID = s.owner dir then s.inodes (place dir e) e.entryID else none

/-- `MetaStore::setAttrUnlocked` without attributes, whose result is ignored. -/
def setAttr (dir : Dir) (e : FileDentry ID Node) : FileNames Dir Name ID Node Contents :=
  match s.localInode dir e with
  | none => s
  | some inode =>
    s.setInode (place dir e) e.entryID (some { inode with attribChangeTimeSecs := now })

omit [DecidableEq Name] in
/-- Setting the time changes nothing exactly if the inode is elsewhere or has that time already. -/
lemma setAttr_eq_self_iff {dir : Dir} {e : FileDentry ID Node} : s.setAttr now dir e = s ↔
    ∀ inode, s.localInode dir e = some inode → inode.attribChangeTimeSecs = now := by
  unfold setAttr
  cases h : s.localInode dir e with
  | none => simp
  | some inode =>
    have hinode : s.inodes (place dir e) e.entryID = some inode := by
      unfold localInode at h
      split_ifs at h
      exact h
    constructor
    · rintro heq _ ⟨⟩
      have hset := congrArg (fun s => s.inodes (place dir e) e.entryID) heq
      simp only [setInode, Function.update_self, hinode, Option.some.injEq] at hset
      rw [← hset]
    · intro htime
      rw [← htime inode rfl]
      simp [setInode, ← hinode]

/-- `MetaStore::renameInSameDir` of an entry, and the end of an entry that it replaces.  A name of
the same inode stays, but the inode's time is set in any case. -/
def renameInSameDir (dir : Dir) (oldName newName : Name) (e : FileDentry ID Node) :
    FileNames Dir Name ID Node Contents :=
  let renamed := (s.setDentry dir oldName none).setDentry dir newName (some e)
  match s.dentries dir newName with
  | none => renamed.setAttr now dir e
  | some o =>
    if e.entryID = o.entryID then s.setAttr now dir o
    else (renamed.unlinkInode now dir o true).setAttr now dir e

/-- `RenameV2MsgEx::movingPerform` for a file. -/
def movingPerform (fromDir : Dir) (oldName : Name) (toDir : Dir) (newName : Name) :
    RenameResult × FileNames Dir Name ID Node Contents :=
  match s.dentries fromDir oldName with
  | none => (.pathNotExists, s)
  | some e =>
    if fromDir = toDir then (.success, s.renameInSameDir now fromDir oldName newName e)
    else s.renameFile now fromDir oldName toDir newName e

/-- Two names of one file are left alone, and so is the file, exactly if they are in one directory
and the inode is on another server or was changed at this time anyway. -/
theorem leavesAlone_iff {fromDir toDir : Dir} {oldName newName : Name} {e o : FileDentry ID Node}
    (hold : s.dentries fromDir oldName = some e) (hnew : s.dentries toDir newName = some o)
    (hsame : e.entryID = o.entryID) :
    s.movingPerform now fromDir oldName toDir newName = (.success, s) ↔ fromDir = toDir ∧
      ∀ inode, s.localInode toDir o = some inode → inode.attribChangeTimeSecs = now := by
  rw [movingPerform, hold]
  by_cases heq : fromDir = toDir
  · subst heq
    simp only [if_true, renameInSameDir, hnew, hsame, Prod.mk.injEq, true_and]
    exact s.setAttr_eq_self_iff now
  · simp only [if_neg heq]
    refine iff_of_false (fun h => ?_) fun h => heq h.1
    have hgone := s.dentries_renameFile now (congrArg Prod.fst h)
    rw [h, hold] at hgone
    cases hgone

/-- Two names in one directory, of an inode on another server. -/
theorem leavesAlone_iff_sameDir :
    let s : FileNames Unit Bool Unit Bool Unit := ⟨fun _ => false,
      fun _ _ => some ⟨(), false, true⟩, fun _ _ => some ⟨2, 0, ()⟩, fun _ => false, fun _ => true⟩
    s.movingPerform 9 () false () true = (.success, s) :=
  (leavesAlone_iff _ 9 rfl rfl rfl).mpr ⟨rfl, by simp [localInode]⟩

/-- A file has one name in each of two directories: the first name is gone and one link is left. -/
theorem not_leavesAlone :
    let s : FileNames Bool Unit Unit Unit Unit := ⟨fun _ => (), fun _ _ => some ⟨(), false, ()⟩,
      fun _ _ => some ⟨2, 0, ()⟩, fun _ => false, fun _ => true⟩
    let r := s.movingPerform 9 false () true ()
    (r.1, (r.2.dentries false ()).isSome, (r.2.inodes none ()).map (·.numHardlinks)) =
      (.success, false, some 1) := by
  decide

end FileNames

end Beegfs
