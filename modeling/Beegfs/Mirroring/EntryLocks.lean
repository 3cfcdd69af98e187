import Beegfs.Lib.LockProgram
import Beegfs.Lib.OrdMap

/-!
# Entry locks of mirrored messages

A metadata server that processes a message for a mirrored entry first takes locks, in the method
`lock` of the message: mutexes of inode hash directories and of names in directories, and read or
write locks of the ids of files and directories.  `Msg.lock` has these methods as programs.  What
they look up in the directories is a question to the server, since it is read while other messages
change the directories.

Ids and names are strings, of which only the order matters here; `⊥` is the empty string.
-/

namespace Beegfs.MetaLocks

/-- The type of an entry, as far as files and directories are told apart. -/
inductive EntryType where
  | invalid
  | directory
  | file
deriving DecidableEq

/-- An `EntryInfo`.  The owner is the mirror group that has the inode. -/
structure EntryInfo (ID : Type) where
  entryID : ID
  entryType : EntryType
  isInlined : Bool
  owner : ℕ
deriving DecidableEq

/-- The result of the lookup of a name that does not exist. -/
def EntryInfo.none {ID : Type} [LE ID] [OrderBot ID] : EntryInfo ID := ⟨⊥, .invalid, false, 0⟩

variable (ID Name : Type)

inductive EntryLock where
  | hashDir (hash : ℕ × ℕ)
  | fileID (id : ID)
  | parentName (parentID : ID) (name : Name)
deriving DecidableEq

/-- What a `lock` method finds out about the server. -/
inductive Question where
  /-- `resyncJob && resyncJob->isRunning()` -/
  | resyncRunning
  /-- `referenceDir` -/
  | dirExists (id : ID)
  /-- `getEntryInfo` and its variants -/
  | lookup (parentID : ID) (name : Name)

def Question.Answer {ID Name : Type} : Question ID Name → Type
  | .resyncRunning => Bool
  | .dirExists _ => Bool
  | .lookup _ _ => EntryInfo ID

/-- A `lock` method. -/
abbrev Program := LockProgram (EntryLock ID Name) (Question ID Name) Question.Answer

structure LookupIntentMsg where
  parentID : ID
  entryName : Name
  isCreate : Bool
  isOpen : Bool
  isRevalidate : Bool
  /-- What the client knows of the entry, sent with `isRevalidate` only. -/
  entryInfo : EntryInfo ID
  /-- The id for a new file, generated with `isCreate`. -/
  entryID : ID

/-- The messages that take entry locks, and the threads of a bulk resync. -/
inductive Msg where
  | lookupIntent (msg : LookupIntentMsg ID Name)
  | rmDir (parentID : ID) (delDirName : Name)
  | mkDir (parentID : ID) (newDirName : Name) (entryID : ID)
  | mkFile (parentID : ID) (newName : Name) (newEntryID : ID)
  | unlinkFile (parentID : ID) (delFileName : Name)
  | hardlink (fromDirID : ID) (fromName : Name) (fromInfo : EntryInfo ID) (toDirID : ID)
    (toName : Name)
  | renameV2 (fromDirID : ID) (oldName : Name) (toDirID : ID) (newName : Name)
  | setAttr (entryID : ID)
  | moveFileInode (parentID : ID) (fileName : Name) (entryID : ID)
  /-- The inode is the one in the message, if it can be decoded. -/
  | movingFileInsert (isLocallyGenerated : Bool) (toDirID : ID) (newName : Name)
    (newInodeID : Option ID)
  | mkLocalDir (isLocallyGenerated : Bool) (entryID : ID)
  | rmLocalDir (isLocallyGenerated : Bool) (entryID : ID)
  | unlinkLocalFileInode (isLocallyGenerated : Bool) (entryID : ID)
  /-- A resync thread with a hash directory of inodes, or of directory contents. -/
  | syncHashDir (hash : ℕ × ℕ) (entries : List ID)
  /-- A resync thread with the contents of a directory: its file inodes, then its names. -/
  | syncContentDir (dirInodeID : ID) (fsIDs : List ID) (names : List Name)

/-! ## The lock methods -/

open LockProgram

section Lock

variable {ID Name : Type} [LinearOrder ID] [OrderBot ID] [LinearOrder Name]

/-- The id and type that a lookup locks: those on disk, or else those that the client knows. -/
def LookupIntentMsg.entry (msg : LookupIntentMsg ID Name) (diskEntryInfo : EntryInfo ID) :
    ID × EntryType :=
  if diskEntryInfo.entryType ≠ .invalid then (diskEntryInfo.entryID, diskEntryInfo.entryType)
  else if msg.isRevalidate then (msg.entryInfo.entryID, msg.entryInfo.entryType)
  else (⊥, msg.entryInfo.entryType)

/-- `LookupIntentMsgEx::lock` -/
def LookupIntentMsg.lock (msg : LookupIntentMsg ID Name) : Program ID Name :=
  if msg.isCreate then
    acquire (.fileID msg.parentID) true <|
    acquire (.parentName msg.parentID msg.entryName) true <|
    acquire (.fileID msg.entryID) true done
  else
    acquire (.fileID msg.parentID) false <|
    ask (.lookup msg.parentID msg.entryName) fun diskEntryInfo =>
      let (entryID, entryType) := msg.entry diskEntryInfo
      if msg.isOpen then acquire (.fileID entryID) true done
      else if entryType = .directory ∧ entryID < msg.parentID then
        -- The lock of the parent is released because the one of the child has to be taken first.
        release (.fileID msg.parentID) <|
        acquire (.fileID entryID) false <|
        acquire (.fileID msg.parentID) false done
      else acquire (.fileID entryID) false done

variable (inodeHash : ID → ℕ × ℕ)

/-- `RmDirMsgEx::lock` -/
def rmDirLock (parentID : ID) (delDirName : Name) : Program ID Name :=
  ask (.dirExists parentID) fun parentDir => if !parentDir then done else
  ask (.lookup parentID delDirName) fun delEntryInfo =>
  ask .resyncRunning fun running =>
  acquireIf running (.hashDir (inodeHash delEntryInfo.entryID)) true <|
  (if delEntryInfo.entryID = ⊥ then acquire (.fileID parentID) true
    else acquirePair .fileID delEntryInfo.entryID parentID) <|
  acquire (.parentName parentID delDirName) true done

/-- `MkDirMsgEx::lock` -/
def mkDirLock (parentID : ID) (newDirName : Name) (entryID : ID) : Program ID Name :=
  ask .resyncRunning fun running =>
  acquireIf running (.hashDir (inodeHash entryID)) true <|
  acquire (.fileID parentID) true <|
  acquire (.parentName parentID newDirName) true done

/-- A directory, a name in it and a file: `MkFileMsgEx::lock` and `MoveFileInodeMsgEx::lock` -/
def dirNameFileLock (dirID : ID) (name : Name) (fileID : ID) : Program ID Name :=
  acquire (.fileID dirID) true <|
  acquire (.parentName dirID name) true <|
  acquire (.fileID fileID) true done

/-- `UnlinkFileMsgEx::lock` -/
def unlinkFileLock (parentID : ID) (delFileName : Name) : Program ID Name :=
  ask (.lookup parentID delFileName) fun dentry =>
  let dentryExists : Bool := dentry.entryType = .file
  ask .resyncRunning fun running =>
  acquireIf (dentryExists && running && !dentry.isInlined) (.hashDir (inodeHash dentry.entryID))
    true <|
  acquire (.fileID parentID) true <|
  acquire (.parentName parentID delFileName) true <|
  acquireIf dentryExists (.fileID dentry.entryID) true done

/-- Two names in the order of their locks. -/
def acquireNames (from' to' : ID × Name) : Program ID Name → Program ID Name :=
  acquirePair (fun name : ID ×ₗ Name => .parentName (ofLex name).1 (ofLex name).2) (toLex from')
    (toLex to')

variable (localGroup : ℕ)

/-- `HardlinkMsgEx::lock` -/
def hardlinkLock (fromDirID : ID) (fromName : Name) (fromInfo : EntryInfo ID)
    (toDirID : ID) (toName : Name) : Program ID Name :=
  acquire (.fileID toDirID) true <|
  acquireNames (fromDirID, fromName) (toDirID, toName) <|
  acquireIf (fromInfo.owner = localGroup) (.fileID fromInfo.entryID) true done

/-- The directories that a rename locks, in the order of their ids. -/
def lockOrder (ids : List ID) : List ID :=
  (ids.foldl (fun order id => order.set id ()) (.empty : OrdMap ID Unit)).entries.map Prod.fst

/-- The files that a rename locks. -/
def renameFiles (fromFileInfo toFileInfo : EntryInfo ID) : Program ID Name :=
  if fromFileInfo.entryType = .file then
    let isFromFileLocal : Bool := fromFileInfo.owner = localGroup
    let isToFileLocal : Bool := toFileInfo.entryType = .file ∧ toFileInfo.owner = localGroup
    match isFromFileLocal, isToFileLocal with
    | true, true => acquirePair .fileID fromFileInfo.entryID toFileInfo.entryID done
    | true, false => acquire (.fileID fromFileInfo.entryID) true done
    | false, true => acquire (.fileID toFileInfo.entryID) true done
    | false, false => done
  else done

/-- `RenameV2MsgEx::lock` -/
def renameV2Lock (fromDirID : ID) (oldName : Name)
    (toDirID : ID) (newName : Name) : Program ID Name :=
  ask (.dirExists fromDirID) fun fromDir => if !fromDir then done else
  ask (.dirExists toDirID) fun toDir => if !toDir then done else
  loop <|
  ask (.lookup fromDirID oldName) fun fromFileInfo =>
  ask (.lookup toDirID newName) fun toFileInfo =>
  ask .resyncRunning fun running =>
  acquireIf (toFileInfo.entryType = .file && running && !toFileInfo.isInlined)
    (.hashDir (inodeHash toFileInfo.entryID)) true <|
  acquireAll ((lockOrder ([fromDirID, toDirID] ++
    if fromFileInfo.entryType = .directory then [fromFileInfo.entryID] else [])).map .fileID) <|
  -- A directory may have been locked before the one that it is in, so it is looked up again.
  ask (.lookup fromDirID oldName) fun fromFileInfoCheck =>
  if fromFileInfo.entryID ≠ fromFileInfoCheck.entryID then restart else
  acquireNames (fromDirID, oldName) (toDirID, newName) <|
  renameFiles localGroup fromFileInfo toFileInfo

variable (isLocallyGenerated : Bool)

/-- `MovingFileInsertMsgEx::lock` -/
def movingFileInsertLock (toDirID : ID) (newName : Name)
    (newInodeID : Option ID) : Program ID Name :=
  if isLocallyGenerated then done else
  acquire (.fileID toDirID) true <|
  acquire (.parentName toDirID newName) true <|
  ask (.dirExists toDirID) fun dir => if !dir then done else
  match newInodeID with
  | none => done
  | some newInodeID =>
    ask (.lookup toDirID newName) fun unlinkedInfo =>
    let unlinkedID := if unlinkedInfo.entryType = .file then unlinkedInfo.entryID else newInodeID
    acquirePair .fileID newInodeID unlinkedID done

/-- `MkLocalDirMsgEx::lock` -/
def mkLocalDirLock (entryID : ID) : Program ID Name :=
  ask .resyncRunning fun running =>
  acquireIf (!isLocallyGenerated && running) (.hashDir (inodeHash entryID)) true done

/-- `RmLocalDirMsgEx::lock` -/
def rmLocalDirLock (entryID : ID) : Program ID Name :=
  ask .resyncRunning fun running =>
  acquireIf (!isLocallyGenerated && running) (.hashDir (inodeHash entryID)) true <|
  acquire (.fileID entryID) true done

/-- `UnlinkLocalFileInodeMsgEx::lock` -/
def unlinkLocalFileInodeLock (entryID : ID) : Program ID Name :=
  if isLocallyGenerated then done else
  ask .resyncRunning fun running =>
  -- The lock of the hash directory is a variable of the inner block, so it is released at once.
  visitAll (bif running then [.hashDir (inodeHash entryID)] else []) <|
  acquire (.fileID entryID) true done

/-- The method `lock` of a message on a server of the group, and the locks of a resync thread. -/
def Msg.lock : Msg ID Name → Program ID Name
  | .lookupIntent msg => msg.lock
  | .rmDir parentID delDirName => rmDirLock inodeHash parentID delDirName
  | .mkDir parentID newDirName entryID => mkDirLock inodeHash parentID newDirName entryID
  | .mkFile parentID newName newEntryID => dirNameFileLock parentID newName newEntryID
  | .unlinkFile parentID delFileName => unlinkFileLock inodeHash parentID delFileName
  | .hardlink fromDirID fromName fromInfo toDirID toName =>
    hardlinkLock localGroup fromDirID fromName fromInfo toDirID toName
  | .renameV2 fromDirID oldName toDirID newName =>
    renameV2Lock inodeHash localGroup fromDirID oldName toDirID newName
  | .setAttr entryID => acquire (.fileID entryID) true done
  | .moveFileInode parentID fileName entryID => dirNameFileLock parentID fileName entryID
  | .movingFileInsert isLocallyGenerated toDirID newName newInodeID =>
    movingFileInsertLock isLocallyGenerated toDirID newName newInodeID
  | .mkLocalDir isLocallyGenerated entryID => mkLocalDirLock inodeHash isLocallyGenerated entryID
  | .rmLocalDir isLocallyGenerated entryID => rmLocalDirLock inodeHash isLocallyGenerated entryID
  | .unlinkLocalFileInode isLocallyGenerated entryID =>
    unlinkLocalFileInodeLock inodeHash isLocallyGenerated entryID
  | .syncHashDir hash entries =>
    acquire (.hashDir hash) true <| visitAll (entries.map .fileID) done
  | .syncContentDir dirInodeID fsIDs names =>
    acquire (.fileID dirInodeID) false <|
    visitAll (fsIDs.map .fileID) <| visitAll (names.map (.parentName dirInodeID)) done

end Lock

end Beegfs.MetaLocks
