import Beegfs.Mirroring.LockSystem

/-!
# What mirrored messages change

While a message is executed, directories, names and file inodes of the server change, and each of
these has an entry lock.  `Msg.changes` lists the changes of `executeLocally` for the messages that
unlink or rename files, if all operations on the disk and all messages to other groups succeed; the
chunk files of a file may remain, which then gets a name in the disposal directory.  A message that
the worker sends to its own group is executed under the locks of the worker, so its changes are
listed here as well.
-/

namespace Beegfs.MetaLocks

open List

variable (ID Name : Type)

inductive Change where
  /-- Entries of a directory change. -/
  | dir (id : ID)
  /-- A name is added, replaced or removed. -/
  | name (parentID : ID) (name : Name)
  /-- The link count of a file inode changes, or the inode is removed. -/
  | inode (id : ID)
  /-- A file inode that is not inlined in a directory is removed. -/
  | removed (id : ID)
deriving DecidableEq

/-- The link count of a file inode, whether the file is open, and whether its chunk files can be
deleted. -/
structure InodeState where
  numHardlinks : ℕ
  inUse : Bool
  chunksDeletable : Bool

/-- What is found while a message is executed.  The last two fields are of a rename message, which
does not read them in `lock`. -/
structure Execution where
  answer : (q : Question ID Name) → q.Answer
  inode : ID → InodeState
  entryType : EntryType
  toDirOwner : ℕ

/-- The directory for files without a name that are open or have chunk files, and their names in
it. -/
structure DisposalDir where
  id : ID
  fileName : ID → Name

variable {ID Name : Type}

namespace Execution

variable (now : Execution ID Name)

def lookup (parentID : ID) (name : Name) : EntryInfo ID := now.answer (.lookup parentID name)

def dirExists (id : ID) : Bool := now.answer (.dirExists id)

def resyncRunning : Bool := now.answer .resyncRunning

end Execution

/-! ## The changes -/

section Changes

variable [LinearOrder ID] [OrderBot ID] (localGroup : ℕ) (disposal : DisposalDir ID Name)
  (now : Execution ID Name)

/-- A name in the disposal directory: `unlinkInodeLater`, `MetaStore::insertDisposableFile`. -/
def dispose (id : ID) : List (Change ID Name) :=
  [.dir disposal.id, .name disposal.id (disposal.fileName id)]

/-- `MsgHelperUnlink::unlinkChunkFiles` -/
def unlinkChunkFiles (id : ID) : List (Change ID Name) :=
  if (now.inode id).chunksDeletable then [] else dispose disposal id

/-- One name less for an inode: `MetaStore::unlinkFileInode`, and the part of
`MetaStore::unlinkFile` about the inode. -/
def unlinkFileInode (id : ID) (isInlined : Bool) : List (Change ID Name) :=
  .inode id ::
    if 1 < (now.inode id).numHardlinks then []
    else if (now.inode id).inUse then dispose disposal id
    else (if isInlined then [] else [.removed id]) ++ unlinkChunkFiles disposal now id

/-- `RenameV2MsgEx::unlinkRemoteFileInode`, a message to the owner of the inode. -/
def unlinkRemoteFileInode (info : EntryInfo ID) : List (Change ID Name) :=
  if info.owner = localGroup then unlinkFileInode disposal now info.entryID false else []

/-- The inode of an overwritten file. -/
def unlinkOverwritten (info : EntryInfo ID) : List (Change ID Name) :=
  if info.isInlined then unlinkFileInode disposal now info.entryID true
  else unlinkRemoteFileInode localGroup disposal now info

/-- `UnlinkFileMsgEx::executeLocally`, with the id of the file that `lock` has found. -/
def unlinkFileChanges (fileInfoID parentID : ID) (delFileName : Name) : List (Change ID Name) :=
  let dentry := now.lookup parentID delFileName
  if !now.dirExists parentID then []
  else if dentry.entryType ≠ .file then []
  else if dentry.entryID ≠ fileInfoID then []
  else [.dir parentID, .name parentID delFileName] ++
    if dentry.owner = localGroup then unlinkFileInode disposal now dentry.entryID dentry.isInlined
    else []

/-- `RenameV2MsgEx::renameInSameDir` -/
def renameInSameDir (dirID : ID) (fromName toName : Name) : List (Change ID Name) :=
  let fromEntry := now.lookup dirID fromName
  let overWriteEntry := now.lookup dirID toName
  if fromEntry.entryType = .invalid then []
  else if overWriteEntry.entryType = .invalid then
    [.dir dirID, .name dirID fromName, .name dirID toName]
  else if fromEntry.entryID = overWriteEntry.entryID then []
  else if overWriteEntry.entryType = .directory ∨ fromEntry.entryType = .directory then []
  else [.dir dirID, .name dirID fromName, .name dirID toName] ++
    unlinkOverwritten localGroup disposal now overWriteEntry

variable (fromDirID : ID) (oldName : Name)

/-- `RenameV2MsgEx::renameDir` -/
def renameDir (toDirID : ID) (newName : Name) : List (Change ID Name) :=
  let fromDirEntry := now.lookup fromDirID oldName
  if fromDirEntry.entryType ≠ .directory then []
  -- `MovingDirInsertMsgEx` fails, here or in the group of the directory.
  else if fromDirEntry.entryID = toDirID then []
  else if (now.lookup toDirID newName).entryType ≠ .invalid then []
  else if now.toDirOwner = localGroup then
    if !now.dirExists toDirID then []
    else [.dir toDirID, .name toDirID newName, .dir fromDirID, .name fromDirID oldName]
  else [.dir fromDirID, .name fromDirID oldName]

/-- `MovingFileInsertMsgEx::executeLocally`, if the directory is in this group, and what the sender
does with the overwritten file of the response. -/
def remoteFileInsertAndUnlink (fromFileInfo : EntryInfo ID) (toDirID : ID) (newName : Name) :
    List (Change ID Name) :=
  let overWriteInfo := now.lookup toDirID newName
  let isSameInode : Bool := overWriteInfo.entryType ≠ .invalid ∧
    fromFileInfo.entryID = overWriteInfo.entryID
  let isLocal : Bool := now.toDirOwner = localGroup
  (if isLocal && !isSameInode then [.dir toDirID, .name toDirID newName] else []) ++
    if overWriteInfo.entryType = .invalid then []
    else if overWriteInfo.isInlined then
      let id := overWriteInfo.entryID
      if isSameInode then []
      else if isLocal then unlinkFileInode disposal now id true
      -- The other group sends the inode if it has removed it.
      else if 1 < (now.inode id).numHardlinks || (now.inode id).inUse then []
      else unlinkChunkFiles disposal now id
    else unlinkRemoteFileInode localGroup disposal now overWriteInfo

/-- `RenameV2MsgEx::renameFile` -/
def renameFile (toDirID : ID) (newName : Name) : List (Change ID Name) :=
  let fromFileInfo := now.lookup fromDirID oldName
  if fromFileInfo.entryType ≠ .file then []
  -- `moveRemoteFileBegin` fails for an open file.
  else if fromFileInfo.isInlined && (now.inode fromFileInfo.entryID).inUse then []
  else if now.toDirOwner = localGroup ∧ !now.dirExists toDirID then []
  else if (now.lookup toDirID newName).entryType = .directory then []
  else remoteFileInsertAndUnlink localGroup disposal now fromFileInfo toDirID newName ++
    [.dir fromDirID, .name fromDirID oldName] ++
    if fromFileInfo.isInlined then [.inode fromFileInfo.entryID] else []

/-- `RenameV2MsgEx::executeLocally` and `movingPerform` -/
def renameV2Changes (toDirID : ID) (newName : Name) : List (Change ID Name) :=
  if !now.dirExists fromDirID then []
  else if now.entryType = .invalid then []
  else if fromDirID = toDirID then
    renameInSameDir localGroup disposal now fromDirID oldName newName
  else if now.entryType = .directory then
    renameDir localGroup now fromDirID oldName toDirID newName
  else renameFile localGroup disposal now fromDirID oldName toDirID newName

end Changes

/-- The answers that a worker got in `lock`, newest first. -/
abbrev Found (ID Name : Type) := List (Sigma (@Question.Answer ID Name))

section Msg

variable [LinearOrder ID] [OrderBot ID]

/-- The id in the field `fileInfo` of an unlink message: of the file that `lock` has found. -/
def fileInfoID : Found ID Name → ID
  | ⟨.lookup _ _, (info : EntryInfo ID)⟩ :: _ => if info.entryType = .file then info.entryID else ⊥
  | _ :: found => fileInfoID found
  | [] => ⊥

/-- The changes while a message is executed. -/
def Msg.changes (localGroup : ℕ) (disposal : DisposalDir ID Name) (found : Found ID Name)
    (now : Execution ID Name) : Msg ID Name → List (Change ID Name)
  | .unlinkFile parentID delFileName =>
    unlinkFileChanges localGroup disposal now (fileInfoID found) parentID delFileName
  | .unlinkLocalFileInode isLocallyGenerated entryID =>
    -- A message of the own group is executed under the locks of its sender.
    if isLocallyGenerated then [] else unlinkFileInode disposal now entryID false
  | .renameV2 fromDirID oldName toDirID newName =>
    renameV2Changes localGroup disposal now fromDirID oldName toDirID newName
  | _ => []

/-- The inode that loses a name, if there is one. -/
def Msg.unlinkedID (now : Execution ID Name) : Msg ID Name → ID
  | .unlinkFile parentID delFileName => (now.lookup parentID delFileName).entryID
  | .unlinkLocalFileInode _ entryID => entryID
  | .renameV2 _ _ toDirID newName => (now.lookup toDirID newName).entryID
  | _ => ⊥

end Msg

/-! ## The locks of the changes -/

/-- The lock of the change is held for writing.  The one of a hash directory is needed while a
resync runs only. -/
def Change.Covered (inodeHash : ID → ℕ × ℕ) (running : Bool)
    (held : List (EntryLock ID Name × Bool)) : Change ID Name → Prop
  | .dir id => (.fileID id, true) ∈ held
  | .name parentID entryName => (.parentName parentID entryName, true) ∈ held
  | .inode id => (.fileID id, true) ∈ held
  | .removed id => running = true → (.hashDir (inodeHash id), true) ∈ held

instance [DecidableEq ID] [DecidableEq Name] (inodeHash : ID → ℕ × ℕ) (running : Bool)
    (held : List (EntryLock ID Name × Bool)) :
    (c : Change ID Name) → Decidable (c.Covered inodeHash running held)
  | .dir _ => inferInstanceAs (Decidable (_ ∈ held))
  | .name _ _ => inferInstanceAs (Decidable (_ ∈ held))
  | .inode _ => inferInstanceAs (Decidable (_ ∈ held))
  | .removed _ => inferInstanceAs (Decidable (running = true → _ ∈ held))

/-- The change is in the disposal directory. -/
def Change.InDisposal (disposal : DisposalDir ID Name) : Change ID Name → Prop
  | .dir id => id = disposal.id
  | .name parentID _ => parentID = disposal.id
  | .inode _ => False
  | .removed _ => False

/-- The file has no other name, and is open or its chunk files remain, so that its inode goes to the
disposal directory. -/
def Execution.IsDisposed (now : Execution ID Name) (id : ID) : Prop :=
  (now.inode id).numHardlinks ≤ 1 ∧
    ((now.inode id).inUse = true ∨ (now.inode id).chunksDeletable = false)

/-- The lock of the change is held, except for an inode that goes to the disposal directory. -/
def Change.Safe (inodeHash : ID → ℕ × ℕ) (disposal : DisposalDir ID Name) (now : Execution ID Name)
    (held : List (EntryLock ID Name × Bool)) (id : ID) (c : Change ID Name) : Prop :=
  c.Covered inodeHash now.resyncRunning held ∨ (c.InDisposal disposal ∧ now.IsDisposed id)

section Safe

variable {inodeHash : ID → ℕ × ℕ} {disposal : DisposalDir ID Name} {now : Execution ID Name}
  {held : List (EntryLock ID Name × Bool)} {id : ID} {localGroup : ℕ}

lemma safe_dispose (h : now.IsDisposed id) :
    ∀ c ∈ dispose disposal id, c.Safe inodeHash disposal now held id := by
  intro c hc
  rcases mem_cons.mp hc with rfl | hc
  · exact .inr ⟨rfl, h⟩
  · obtain rfl := mem_singleton.mp hc
    exact .inr ⟨rfl, h⟩

lemma safe_unlinkChunkFiles (h : (now.inode id).numHardlinks ≤ 1) :
    ∀ c ∈ unlinkChunkFiles disposal now id, c.Safe inodeHash disposal now held id := by
  rw [unlinkChunkFiles]
  split_ifs with hdel
  · simp
  · exact safe_dispose ⟨h, .inr (Bool.eq_false_iff.mpr hdel)⟩

/-- The changes to an inode need its lock, and the one of the hash directory for a removal. -/
lemma safe_unlinkFileInode {isInlined : Bool} (hid : (.fileID id, true) ∈ held)
    (hhash : now.resyncRunning = true → isInlined = false → 1 < (now.inode id).numHardlinks ∨
      (now.inode id).inUse = true ∨ (.hashDir (inodeHash id), true) ∈ held) :
    ∀ c ∈ unlinkFileInode disposal now id isInlined, c.Safe inodeHash disposal now held id := by
  intro c hc
  rcases mem_cons.mp hc with rfl | hc
  · exact .inl hid
  by_cases hlinks : 1 < (now.inode id).numHardlinks
  · rw [if_pos hlinks] at hc
    cases hc
  rw [if_neg hlinks] at hc
  by_cases huse : (now.inode id).inUse = true
  · rw [if_pos huse] at hc
    exact safe_dispose ⟨not_lt.mp hlinks, .inl huse⟩ c hc
  rw [if_neg huse] at hc
  rcases mem_append.mp hc with hc | hc
  · split_ifs at hc with hinl
    · cases hc
    obtain rfl := mem_singleton.mp hc
    refine .inl fun hrun => ?_
    rcases hhash hrun (Bool.eq_false_iff.mpr hinl) with h | h | h
    · exact absurd h hlinks
    · exact absurd h huse
    · exact h
  · exact safe_unlinkChunkFiles (not_lt.mp hlinks) c hc

/-- A name and its directory are changed under their locks. -/
lemma safe_entry {parentID : ID} {name : Name} (hdir : (.fileID parentID, true) ∈ held)
    (hname : (.parentName parentID name, true) ∈ held) :
    ∀ c ∈ [Change.dir parentID, .name parentID name], c.Safe inodeHash disposal now held id := by
  intro c hc
  rcases mem_cons.mp hc with rfl | hc
  · exact .inl hdir
  · obtain rfl := mem_singleton.mp hc
    exact .inl hname

end Safe

end Beegfs.MetaLocks
