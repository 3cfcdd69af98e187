import Beegfs.Lib.Run

/-!
# Link counts and names of a file

How a metadata server keeps the link count of a file inode while names of the file come and go.
The inode is either inlined, in the dentry-by-ID file of its directory, whose hard links are the
names of the file in that directory, or it has an inode file of its own.  A file whose last name
goes away while it is open gets a dentry in the disposal directory and is removed later.

A dentry in the disposal directory is a hard link of the inode file.  Metadata in extended
attributes is stored in place, so that the dentry changes with the inode; metadata in file contents
is stored by `FileInode::storeUpdatedMetaDataBufAsContents` in a new file that is renamed over the
old one, and the dentry keeps what it had.  All disk operations succeed, and operations run one
after the other.
-/

namespace Beegfs.Links

/-! ## One file -/

variable (ID : Type*)

/-- The `InodeFileStore` that has an inode: the one of `MetaStore` or the one of a directory. -/
inductive InodeStore where
  | global
  | perDir (dir : ID)
  deriving DecidableEq

/-- A `FileInode` in memory; an inode that is loaded for one operation only has no reference. -/
structure MemInode where
  numHardlinks : ℕ
  isInlined : Bool
  refCount : ℕ
  store : InodeStore ID
  deriving DecidableEq

/-- What the server has of one file. -/
structure FileRecord where
  /-- The dentry-by-ID file with an inlined inode: its directory and the link count. -/
  idFile : Option (ID × ℕ)
  /-- The link count in the inode file. -/
  inodeFile : Option ℕ
  /-- The number of names on other servers. -/
  remoteNames : ℕ
  /-- The dentry in the disposal directory: whether it says that the inode is inlined. -/
  disposal : Option Bool
  /-- The inode in memory, while the file is open. -/
  mem : Option (MemInode ID)
  deriving DecidableEq

/-- The results of `MetaStore` that matter here. -/
inductive OpsErr where
  | success
  | inUse
  | pathNotExists
  | internal
  deriving DecidableEq

/-- What an unlink leaves: the file, the result, whether `outInode` is set, and whether the name is
gone. -/
structure Unlinked where
  file : FileRecord ID
  res : OpsErr
  outInode : Bool
  nameRemoved : Bool

/-- `StatData::incDecNumHardLinks` with `1`; the link count is a `uint32_t`. -/
def incLink (n : ℕ) : ℕ := (n + 1) % 2 ^ 32

/-- `StatData::incDecNumHardLinks` with `-1`. -/
def decLink (n : ℕ) : ℕ := (n + (2 ^ 32 - 1)) % 2 ^ 32

section File

variable {ID : Type*} [DecidableEq ID]

/-- A directory, or the disposal directory, in which an operation looks for the inode; the global
store is always asked. -/
def InodeStore.isAskedIn (subDir : Option ID) : InodeStore ID → Bool
  | global => true
  | perDir dir => decide (subDir = some dir)

namespace FileRecord

variable (useXAttrs : Bool) (f : FileRecord ID) (subDir : Option ID)

/-- The inode in memory, as `MetaStore::isFileUnlinkable` and `referenceLoadedFileUnlocked` find it:
in the global store or in the store of the directory. -/
def loaded? : Option (MemInode ID) := f.mem.filter fun inode => inode.store.isAskedIn subDir

/-- `FileInode::createFromEntryInfo`: the place that the inlined flag names is tried first. -/
def createFromEntryInfo (inlined : Bool) : Option (MemInode ID) :=
  let fromInlinedInode := (f.idFile.filter fun idFile => decide (subDir = some idFile.1)).map
    fun idFile => ⟨idFile.2, true, 0, .perDir idFile.1⟩
  let fromInodeFile := f.inodeFile.map fun n => ⟨n, false, 0, .global⟩
  if inlined then fromInlinedInode.or fromInodeFile else fromInodeFile.or fromInlinedInode

/-- `MetaStore::referenceFileUnlocked`. -/
def reference? (inlined : Bool) : Option (MemInode ID) :=
  (f.loaded? subDir).or (f.createFromEntryInfo subDir inlined)

/-- `FileInode::storeUpdatedInodeUnlocked`.  With extended attributes the dentry in the disposal
directory, a hard link of the inode file, changes too. -/
def storeUpdatedInode (isInlined : Bool) (n : ℕ) : FileRecord ID :=
  match isInlined, f.idFile with
  | true, some (dir, _) => { f with idFile := some (dir, n) }
  | _, _ =>
    { f with
      inodeFile := some n
      disposal := if useXAttrs then f.disposal.map fun _ => false else f.disposal }

/-- Store an inode with a new link count, in memory and on disk. -/
def setLinkCount (inode : MemInode ID) (n : ℕ) : FileRecord ID :=
  { f.storeUpdatedInode useXAttrs inode.isInlined n with
    mem := if inode.refCount = 0 then f.mem else some { inode with numHardlinks := n } }

/-- The directory has the dentry-by-ID file. -/
def hasIDFile : Bool := f.idFile.any fun idFile => decide (subDir = some idFile.1)

/-- `DirEntry::removeDirEntryID`. -/
def removeDirEntryID : FileRecord ID := if f.hasIDFile subDir then { f with idFile := none } else f

/-- `DirEntry::removeBusyFile` with `DirEntry_UNLINK_ID`: the dentry-by-ID file becomes the inode
file and gets a name in the disposal directory; it still says that the inode is inlined. -/
def moveIDFile : FileRecord ID :=
  match f.idFile.filter fun idFile => decide (subDir = some idFile.1) with
  | some (_, n) =>
    { f with idFile := none, inodeFile := some n, disposal := f.disposal.or (some true) }
  | none => f

/-- `MetaStore::unlinkDirEntryWithInlinedInodeUnlocked` with `DirEntry_UNLINK_ID`, and with
`DirEntry_UNLINK_FILENAME` if `unlinkName`. -/
def unlinkDirEntryWithInlinedInode (unlinkName : Bool) : Unlinked ID :=
  match f.loaded? subDir with
  | some inode =>
    let unlinkID := decide (¬1 < inode.numHardlinks)
    if unlinkID && !unlinkName && !f.hasIDFile subDir then ⟨f, .internal, false, false⟩
    else
      let removed := if unlinkID then f.moveIDFile subDir else f
      if inode.numHardlinks < 2 then
        ⟨removed.setLinkCount useXAttrs { inode with isInlined := false }
          (decLink inode.numHardlinks), .inUse, false, true⟩
      else
        ⟨removed.setLinkCount useXAttrs inode (decLink inode.numHardlinks), .success, false, true⟩
  | none =>
    match f.createFromEntryInfo subDir true with
    | none => ⟨f, .pathNotExists, false, false⟩
    | some inode =>
      if 1 < inode.numHardlinks then
        ⟨f.setLinkCount useXAttrs inode (decLink inode.numHardlinks), .success, false, true⟩
      else
        ⟨f.removeDirEntryID subDir,
          if unlinkName || f.hasIDFile subDir then .success else .pathNotExists, true, true⟩

/-- `InodeFileStore::unlinkFileInodeUnlocked` of an inode that is not referenced. -/
def unlinkStoredInode : Unlinked ID :=
  match f.createFromEntryInfo subDir false, f.inodeFile with
  | none, _ => ⟨f, .pathNotExists, false, true⟩
  | some _, none => ⟨f, .internal, false, true⟩
  | some _, some _ => ⟨{ f with inodeFile := none }, .success, true, true⟩

/-- `MetaStore::unlinkDentryAndInodeUnlocked`. -/
def unlinkDentryAndInode : Unlinked ID :=
  let removed := f.removeDirEntryID subDir
  match removed.loaded? subDir with
  | some inode =>
    -- the only decrement of a busy inode that looks at the count
    ⟨if 0 < inode.numHardlinks then
        removed.setLinkCount useXAttrs inode (decLink inode.numHardlinks)
      else removed, if 1 < inode.numHardlinks then .success else .inUse, false, true⟩
  | none =>
    match removed.createFromEntryInfo subDir false with
    | none => ⟨removed, .pathNotExists, false, true⟩
    | some inode =>
      if 1 < inode.numHardlinks then
        ⟨removed.setLinkCount useXAttrs inode (decLink inode.numHardlinks), .success, false, true⟩
      else removed.unlinkStoredInode subDir

/-- `MetaStore::moveReferenceToMetaFileStoreUnlocked`, unless the inode is in the global store. -/
def moveReferenceToMetaFileStore : FileRecord ID :=
  { f with
    mem := f.mem.map fun inode =>
      if inode.store.isAskedIn subDir then { inode with store := .global } else inode }

/-- `MetaStore::unlinkInodeLaterUnlocked`; without a result the inode is no longer in memory. -/
def unlinkInodeLater (wasInlined : Bool) : Option (FileRecord ID) :=
  let moved := f.moveReferenceToMetaFileStore subDir
  (moved.loaded? none).map fun inode =>
    if !wasInlined && inode.numHardlinks = 0 then
      -- a new hard link of the inode file
      { moved with disposal := moved.disposal.or (some false) }
    else moved

end FileRecord

/-- The end of `MetaStore::unlinkFile` and `MetaStore::unlinkFileInode`: an inode that is in use is
unlinked later. -/
def Unlinked.finish (r : Unlinked ID) (subDir : Option ID) (wasInlined : Bool) : Unlinked ID :=
  if r.res = .inUse then
    let res := if subDir.isSome then OpsErr.success else .inUse
    match r.file.unlinkInodeLater subDir wasInlined with
    | some file => { r with file := file, res := res }
    | none =>
      let again := r.file.unlinkStoredInode none
      { again with
        res := if again.res = .internal then .internal else res
        nameRemoved := r.nameRemoved }
  else r

namespace FileRecord

variable (useXAttrs : Bool) (f : FileRecord ID)

/-- The work of `MetaStore::unlinkFile` on the file, for a dentry in `subDir`. -/
def unlinkFile (subDir : Option ID) (dentryInlined : Bool) : Unlinked ID :=
  (if dentryInlined then f.unlinkDirEntryWithInlinedInode useXAttrs subDir true
    else f.unlinkDentryAndInode useXAttrs subDir).finish subDir dentryInlined

/-- `MetaStore::unlinkFileInode`, after a dentry in `subDir` was removed.  Only the global store is
asked whether the inode is in use. -/
def unlinkFileInode (subDir : Option ID) : Unlinked ID :=
  match f.loaded? none with
  | some inode =>
    Unlinked.finish ⟨f.setLinkCount useXAttrs inode (decLink inode.numHardlinks),
      if inode.numHardlinks < 2 then .inUse else .success, false, true⟩ subDir false
  | none =>
    match f.createFromEntryInfo subDir false with
    | none => ⟨f, .pathNotExists, false, true⟩
    | some inode =>
      if 1 < inode.numHardlinks then
        ⟨f.setLinkCount useXAttrs inode (decLink inode.numHardlinks), .success, false, true⟩
      else f.unlinkStoredInode subDir

variable (dir : ID)

/-- The work of `MetaStore::renameInSameDir` on an overwritten file, with the rest that
`RenameV2MsgEx::renameInSameDir` does for an inode that is not inlined. -/
def unlinkOverwritten (dentryInlined : Bool) : Unlinked ID :=
  if dentryInlined then
    let r := f.unlinkDirEntryWithInlinedInode useXAttrs (some dir) false
    if r.res = .inUse then
      match r.file.unlinkInodeLater (some dir) true with
      | some file => { r with file := file, res := .success }
      | none => r.file.unlinkDentryAndInode useXAttrs (some dir)
    else r
  else f.unlinkFileInode useXAttrs (some dir)

/-- `MetaStore::deinlineFileInode`. -/
def deinlineFileInode : FileRecord ID :=
  match f.reference? (some dir) true with
  | none => f
  | some inode =>
    (f.setLinkCount useXAttrs { inode with isInlined := false } inode.numHardlinks).removeDirEntryID
      (some dir)

/-- `MetaStore::makeNewHardlink` for a name in `dir`; `dentryFound` is the check that the name still
belongs to the file. -/
def makeNewHardlink (inlined dentryFound : Bool) : Option (FileRecord ID) :=
  match f.createFromEntryInfo (some dir) inlined with
  | none => none
  | some onDisk =>
    if onDisk.isInlined && !dentryFound then none
    else
      let separate := if onDisk.isInlined then f.deinlineFileInode useXAttrs dir else f
      let moved := separate.moveReferenceToMetaFileStore (some dir)
      match moved.reference? (some dir) inlined with
      | none => none
      | some inode =>
        if 1 ≤ inode.numHardlinks then
          some (moved.setLinkCount useXAttrs inode (incLink inode.numHardlinks))
        else none

/-- `MetaStore::incDecLinkCount` with `-1`, by which `HardlinkMsgEx` undoes a link whose dentry
could not be made. -/
def undoLink : FileRecord ID :=
  match f.reference? (some dir) false with
  | none => f
  | some inode => f.setLinkCount useXAttrs inode (decLink inode.numHardlinks)

/-- `MetaStore::linkInSameDir` up to the new dentry: the inode has to be inlined and in the
directory's store.  `nameFree` says that the dentry can be made. -/
def linkInSameDir (inlined nameFree : Bool) : Option (FileRecord ID) :=
  match f.reference? (some dir) inlined with
  | none => none
  | some inode =>
    if !inode.isInlined || (f.loaded? none).isSome then none
    else
      let linked := f.setLinkCount useXAttrs inode (incLink inode.numHardlinks)
      if nameFree then some linked
      else
        some (linked.setLinkCount useXAttrs
          { inode with numHardlinks := incLink inode.numHardlinks }
          (decLink (incLink inode.numHardlinks)))

/-- `MetaStore::openFile`: an inlined inode is loaded into the store of its directory, another one
into the global store. -/
def openFile : FileRecord ID :=
  match f.mem with
  | some inode => { f with mem := some { inode with refCount := inode.refCount + 1 } }
  | none =>
    let inode := match f.idFile with
      | some (dir, _) => f.createFromEntryInfo (some dir) true
      | none => f.createFromEntryInfo none false
    { f with mem := inode.map fun inode => { inode with refCount := 1 } }

/-- `MetaStore::closeFile`: the inode is stored and loses a reference. -/
def closeFile : FileRecord ID :=
  match f.mem with
  | none => f
  | some inode =>
    { f.setLinkCount useXAttrs inode inode.numHardlinks with
      mem := if inode.refCount ≤ 1 then none
        else some { inode with refCount := inode.refCount - 1 } }

/-- The link counts of the file's inode, on disk and in memory. -/
def linkCounts : List ℕ :=
  (f.idFile.map Prod.snd).toList ++ f.inodeFile.toList ++ (f.mem.map MemInode.numHardlinks).toList

end FileRecord

end File

/-! ## The server -/

variable (ID Name : Type*)

/-- A dentry by name; `inlined` is its flag `DENTRY_FEATURE_INODE_INLINE`. -/
structure Dentry where
  dir : ID
  name : Name
  id : ID
  inlined : Bool
  deriving DecidableEq

/-- The files and names of a metadata server, and the inodes that were handed out for chunk
deletion, the last one first. -/
structure Server where
  dentries : List (Dentry ID Name)
  files : ID → Option (FileRecord ID)
  handedOut : List ID

/-- The operations.  A name on another server is made after `makeNewHardlink` or removed before
`unlinkFileInode`. -/
inductive Op where
  | createFile (dir : ID) (name : Name) (id : ID)
  | openFile (id : ID)
  | closeFile (id : ID)
  | hardlink (dir : ID) (name : Name) (toDir : ID) (toName : Name)
  | hardlinkRemote (dir : ID) (name : Name)
  | linkInSameDir (dir : ID) (fromName toName : Name)
  | unlinkFile (dir : ID) (name : Name)
  | unlinkRemoteName (id dir : ID)
  | rename (dir : ID) (fromName toName : Name)
  | cleanUp (id : ID)

section Server

variable {ID Name : Type*} [DecidableEq ID] [DecidableEq Name]

/-- The dentry has this place. -/
def Dentry.isAt (dir : ID) (name : Name) (e : Dentry ID Name) : Bool :=
  decide (e.dir = dir) && decide (e.name = name)

/-- A write to a dentry-by-ID file shows in all its hard links, the names with the inlined flag. -/
def Dentry.unsetInodeInlined (id : ID) (e : Dentry ID Name) : Dentry ID Name :=
  if e.id = id then { e with inlined := false } else e

namespace Server

variable (useXAttrs : Bool) (s : Server ID Name)

/-- A server without files. -/
def start : Server ID Name := ⟨[], fun _ => none, []⟩

variable (dir : ID)

/-- The dentry with this place. -/
def dentry? (name : Name) : Option (Dentry ID Name) := s.dentries.find? (·.isAt dir name)

/-- The names of a file outside the disposal directory. -/
def numNames (id : ID) : ℕ :=
  s.dentries.countP (fun e => decide (e.id = id)) + ((s.files id).map FileRecord.remoteNames).getD 0

def setFile (id : ID) (f : FileRecord ID) : Server ID Name :=
  { s with files := Function.update s.files id (some f) }

/-- What an unlink changes: the file, the names, and the inodes that are handed out. -/
def applyUnlinked (id : ID) (r : Unlinked ID) (dentries : List (Dentry ID Name)) (handOut : Bool) :
    Server ID Name where
  dentries := dentries
  files := Function.update s.files id (some r.file)
  handedOut := if handOut then id :: s.handedOut else s.handedOut

/-- `MetaStore::unlinkFile`. -/
def unlinkFile (name : Name) : Server ID Name :=
  match s.dentry? dir name with
  | none => s
  | some e =>
    match s.files e.id with
    | none => s
    | some f =>
      let r := f.unlinkFile useXAttrs (some dir) e.inlined
      s.applyUnlinked e.id r
        (if r.nameRemoved then s.dentries.eraseP (·.isAt dir name) else s.dentries)
        (r.outInode && decide (r.res = .success))

/-- A dentry of the file was removed on another server; then `MetaStore::unlinkFileInode`. -/
def unlinkRemoteName (id dir : ID) : Server ID Name :=
  match s.files id with
  | none => s
  | some f =>
    if f.remoteNames = 0 then s
    else
      let r := { f with remoteNames := f.remoteNames - 1 }.unlinkFileInode useXAttrs (some dir)
      s.applyUnlinked id r s.dentries (r.outInode && decide (r.res = .success))

/-- `MetaStore::unlinkFile` in the disposal directory. -/
def cleanUp (id : ID) : Server ID Name :=
  match s.files id with
  | none => s
  | some f =>
    match f.disposal with
    | none => s
    | some inlined =>
      let r := { f with disposal := none }.unlinkFile useXAttrs none inlined
      if r.nameRemoved then
        s.applyUnlinked id r s.dentries (r.outInode && decide (r.res = .success))
      else s

/-- `RenameV2MsgEx::renameInSameDir`.  A name of the same inode is left alone. -/
def rename (fromName toName : Name) : Server ID Name :=
  match s.dentry? dir fromName with
  | none => s
  | some e =>
    match s.dentry? dir toName with
    | none =>
      { s with dentries := { e with name := toName } :: s.dentries.eraseP (·.isAt dir fromName) }
    | some o =>
      if e.id = o.id then s
      else
        let renamed := { e with name := toName } ::
          (s.dentries.eraseP (·.isAt dir toName)).eraseP (·.isAt dir fromName)
        match s.files o.id with
        | none => { s with dentries := renamed }
        | some f =>
          let r := f.unlinkOverwritten useXAttrs dir o.inlined
          s.applyUnlinked o.id r renamed r.outInode

/-- `MetaStore::makeNewHardlink`, and what `HardlinkMsgEx` does with the new dentry: `make` says
whether it can be made and what the server has then. -/
def makeNewHardlink (name : Name)
    (make : FileRecord ID → Dentry ID Name → Option (FileRecord ID × List (Dentry ID Name))) :
    Server ID Name :=
  match s.dentry? dir name with
  | none => s
  | some e =>
    match s.files e.id with
    | none => s
    | some f =>
      match f.makeNewHardlink useXAttrs dir e.inlined true with
      | none => s
      | some linked =>
        let dentries := s.dentries.map (Dentry.unsetInodeInlined e.id)
        match make linked ⟨dir, name, e.id, false⟩ with
        | some (made, new) => { s.setFile e.id made with dentries := new ++ dentries }
        | none => { s.setFile e.id (linked.undoLink useXAttrs dir) with dentries := dentries }

/-- `MetaStore::linkInSameDir`: the new name is a hard link of the old one. -/
def linkInSameDir (fromName toName : Name) : Server ID Name :=
  match s.dentry? dir fromName with
  | none => s
  | some e =>
    match s.files e.id with
    | none => s
    | some f =>
      let nameFree := (s.dentry? dir toName).isNone
      match f.linkInSameDir useXAttrs dir e.inlined nameFree with
      | none => s
      | some linked =>
        { s.setFile e.id linked with
          dentries := if nameFree then { e with name := toName } :: s.dentries else s.dentries }

/-- One operation. -/
def step : Op ID Name → Server ID Name
  | .createFile dir name id =>
    if (s.dentry? dir name).isSome || (s.files id).isSome then s
    else
      { s.setFile id ⟨some (dir, 1), none, 0, none, none⟩ with
        dentries := ⟨dir, name, id, true⟩ :: s.dentries }
  | .openFile id =>
    match s.files id with
    | none => s
    | some f => s.setFile id f.openFile
  | .closeFile id =>
    match s.files id with
    | none => s
    | some f => s.setFile id (f.closeFile useXAttrs)
  | .hardlink dir name toDir toName =>
    s.makeNewHardlink useXAttrs dir name fun linked e =>
      if (s.dentry? toDir toName).isSome then none
      else some (linked, [{ e with dir := toDir, name := toName }])
  | .hardlinkRemote dir name =>
    s.makeNewHardlink useXAttrs dir name fun linked _ =>
      some ({ linked with remoteNames := linked.remoteNames + 1 }, [])
  | .linkInSameDir dir fromName toName => s.linkInSameDir useXAttrs dir fromName toName
  | .unlinkFile dir name => s.unlinkFile useXAttrs dir name
  | .unlinkRemoteName id dir => s.unlinkRemoteName useXAttrs id dir
  | .rename dir fromName toName => s.rename useXAttrs dir fromName toName
  | .cleanUp id => s.cleanUp useXAttrs id

/-- The link count of every inode is the number of its names. -/
def LinkCountsMatch : Prop := ∀ id, ∀ f ∈ s.files id, ∀ n ∈ f.linkCounts, n = s.numNames id

/-- An inode that the operation hands out for chunk deletion was not handed out before, it has no
name left, and no session has it open. -/
def HandsOutOnce (op : Op ID Name) : Prop :=
  ∀ id, (s.step useXAttrs op).handedOut = id :: s.handedOut →
    id ∉ s.handedOut ∧ (s.step useXAttrs op).numNames id = 0 ∧
      ∀ f ∈ (s.step useXAttrs op).files id, f.mem = none

end Server

end Server

end Beegfs.Links
