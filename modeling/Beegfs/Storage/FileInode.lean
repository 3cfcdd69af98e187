import Beegfs.Serialization.RawStrings
import Beegfs.Storage.DiskMetaDataRoundTrip

/-!
# Inodes of files in memory

`FileInode` is the inode of a file while the file is in use: the data that are stored on disk, and
what has to be known about the directory entry in order to store them.  An inode is inlined into the
directory entry, or it is a file of its own.  Where the chunk files are is found from the user and
the parent directory that the file had when it was created.  These are stored only if they are not
the current ones.
-/

namespace Beegfs

open Bytes DentryStoreData

/-- Entry IDs reach the server in messages, with a length of 32 bits. -/
abbrev EntryID := { id : List Byte // id.length < 2 ^ 32 }

/-! ## Where the chunk files are -/

/-- `PATHINFO_FEATURE_ORIG` -/
def pathInfoFeatureOrig : BitVec 32 := 1

/-- `PATHINFO_FEATURE_ORIG_UNKNOWN` -/
def pathInfoFeatureOrigUnknown : BitVec 32 := 2

/-- `PathInfo`: what the path of a chunk file is built from. -/
structure PathInfo where
  origParentUID : BitVec 32
  origParentEntryID : List Byte
  flags : BitVec 32
  deriving DecidableEq, Repr

/-- The chunk files are found at the same place.  Without `PATHINFO_FEATURE_ORIG`, the original
parent is not used. -/
def PathInfo.SamePlace (info info' : PathInfo) : Prop :=
  info'.flags = info.flags ∧ (info.flags &&& pathInfoFeatureOrig ≠ 0 →
    info'.origParentUID = info.origParentUID ∧ info'.origParentEntryID = info.origParentEntryID)
  deriving Decidable

lemma PathInfo.SamePlace.trans {info info' info'' : PathInfo} (h : info.SamePlace info')
    (h' : info'.SamePlace info'') : info.SamePlace info'' := by
  refine ⟨h'.1.trans h.1, fun hflag => ?_⟩
  obtain ⟨huid, hid⟩ := h.2 hflag
  obtain ⟨huid', hid'⟩ := h'.2 (h.1 ▸ hflag)
  exact ⟨huid'.trans huid, hid'.trans hid⟩

/-! ## The data of an inode -/

namespace FileInodeStoreData

variable (inode : FileInodeStoreData)

def getPathInfo : PathInfo where
  origParentUID := inode.origParentUID
  origParentEntryID := inode.origParentEntryID
  flags := match inode.origFeature with
    | .true => pathInfoFeatureOrig
    | .false => 0
    | .unset => pathInfoFeatureOrigUnknown

/-- For inodes that were not moved. -/
def setDynamicOrigParentEntryID (origParentEntryID : List Byte) : FileInodeStoreData :=
  if inode.inodeFeatureFlags &&& hasOrigParentID = 0 then { inode with origParentEntryID }
  else inode

/-- For inodes that are moved to another directory. -/
def setPersistentOrigParentEntryID (origParentEntryID : List Byte) : FileInodeStoreData :=
  if inode.inodeFeatureFlags &&& hasOrigParentID = 0 ∧ inode.origFeature = .true then
    addInodeFeatureFlag { inode with origParentEntryID } hasOrigParentID
  else inode

def setBuddyMirrorFeatureFlag (mirrored : Bool) : FileInodeStoreData :=
  if mirrored then inode.addInodeFeatureFlag buddyMirrored
  else inode.removeInodeFeatureFlag buddyMirrored

def setIsRstAvailable (available : Bool) : FileInodeStoreData :=
  if available then inode.addInodeFeatureFlag hasRst else inode.removeInodeFeatureFlag hasRst

/-- The version is kept in the stat data as well. -/
def setMetaVersion (metaVersion : BitVec 32) : FileInodeStoreData :=
  { inode with metaVersion, inodeStatData := { inode.inodeStatData with metaVersion } }

/-- The constructor of an object to read into.  Some members are not initialized. -/
def fresh (undefined : FileInodeStoreData) : FileInodeStoreData :=
  { undefined with
    inodeFeatureFlags := hasVersions
    inodeStatData := { undefined.inodeStatData with flags := 0, chunkBlocksVec := [] }
    entryID := []
    stripePattern := none
    origFeature := .unset
    origParentEntryID := []
    fileVersion := 0
    metaVersion := 0
    rawFileState := 0 }

/-- The constructor for a new file. -/
def create (entryID : List Byte) (statData : StatData) (pattern : StripePattern)
    (featureFlags origParentUID : BitVec 32) (origParentEntryID : List Byte)
    (origFeature : FileInodeOrigFeature) : FileInodeStoreData where
  inodeFeatureFlags :=
    if statData.settableFileAttribs.userID ≠ origParentUID ∧ origFeature = .true then
      featureFlags ||| hasOrigUID
    else featureFlags
  inodeStatData := statData
  entryID := entryID
  stripePattern := some pattern
  origFeature := origFeature
  origParentUID := origParentUID
  origParentEntryID := origParentEntryID
  fileVersion := 0
  metaVersion := 0
  rawFileState := 0

end FileInodeStoreData

/-- `FileInode`, without the locks, the sessions and the lengths of the chunk files. -/
structure FileInode where
  inodeDiskData : FileInodeStoreData
  /-- `dentryCompatData.entryType` -/
  entryType : BitVec 8
  /-- `dentryCompatData.featureFlags` -/
  featureFlags : BitVec 16
  isInlined : Bool
  deriving DecidableEq

/-- What `updateDynamicFileAttribs` sets, from the chunk files. -/
structure DynamicAttribs where
  flags : BitVec 32
  fileSize : BitVec 64
  attribChangeTimeSecs : BitVec 64
  modificationTimeSecs : BitVec 64
  lastAccessTimeSecs : BitVec 64
  chunkBlocksVec : List (BitVec 64)

/-- `SETATTR_CHANGE_MODE` -/
def setAttrChangeMode : BitVec 32 := 1

/-- `SETATTR_CHANGE_USERID` -/
def setAttrChangeUserID : BitVec 32 := 2

/-- `SETATTR_CHANGE_GROUPID` -/
def setAttrChangeGroupID : BitVec 32 := 4

/-- `SETATTR_CHANGE_MODIFICATIONTIME` -/
def setAttrChangeModificationTime : BitVec 32 := 8

/-- `SETATTR_CHANGE_LASTACCESSTIME` -/
def setAttrChangeLastAccessTime : BitVec 32 := 16

/-- The attributes that `validAttribs` names are taken from `attribs`. -/
def SettableFileAttribs.update (old : SettableFileAttribs) (validAttribs : BitVec 32)
    (attribs : SettableFileAttribs) : SettableFileAttribs where
  mode := if validAttribs &&& setAttrChangeMode ≠ 0 then attribs.mode else old.mode
  userID := if validAttribs &&& setAttrChangeUserID ≠ 0 then attribs.userID else old.userID
  groupID := if validAttribs &&& setAttrChangeGroupID ≠ 0 then attribs.groupID else old.groupID
  modificationTimeSecs :=
    if validAttribs &&& setAttrChangeModificationTime ≠ 0 then attribs.modificationTimeSecs
    else old.modificationTimeSecs
  lastAccessTimeSecs :=
    if validAttribs &&& setAttrChangeLastAccessTime ≠ 0 then attribs.lastAccessTimeSecs
    else old.lastAccessTimeSecs

namespace FileInode

variable (inode : FileInode)

/-- Changes the data that are stored on disk. -/
def modify (f : FileInodeStoreData → FileInodeStoreData) : FileInode :=
  { inode with inodeDiskData := f inode.inodeDiskData }

/-! ## Changing an inode -/

def setIsInlined (value : Bool) : FileInode :=
  let inode := { inode with isInlined := value }
  if value = false then
    let inode := if inode.inodeDiskData.origFeature = .true then
      inode.modify (·.addInodeFeatureFlag FileInodeStoreData.hasOrigParentID) else inode
    { inode with featureFlags := inode.featureFlags &&& ~~~ inodeInline }
  else
    { inode with featureFlags := inode.featureFlags ||| inodeInline }

def setSettableFileAttribs (attribs : SettableFileAttribs) : FileInode :=
  inode.modify fun data =>
    { data with inodeStatData := { data.inodeStatData with settableFileAttribs := attribs } }

/-- `setAttrData` at the time `now`.  If the inode could not be stored, the attributes are
restored. -/
def setAttrData (validAttribs : BitVec 32) (attribs : SettableFileAttribs) (now : BitVec 64)
    (storeRes : Bool) : FileInode :=
  let oldAttribs := inode.inodeDiskData.inodeStatData.settableFileAttribs
  let inode := inode.modify fun data =>
    { data with inodeStatData := { data.inodeStatData with attribChangeTimeSecs := now } }
  let inode := inode.setSettableFileAttribs (oldAttribs.update validAttribs attribs)
  -- the original user has to be stored from now on
  let inode := if validAttribs &&& setAttrChangeUserID ≠ 0 ∧
      attribs.userID ≠ inode.inodeDiskData.origParentUID ∧
      inode.inodeDiskData.origFeature = .true then
    inode.modify (·.addInodeFeatureFlag FileInodeStoreData.hasOrigUID) else inode
  if storeRes then inode else inode.setSettableFileAttribs oldAttribs

def updateDynamicAttribs (dyn : DynamicAttribs) : FileInode :=
  inode.modify fun data =>
    { data with inodeStatData :=
        { data.inodeStatData with
          flags := dyn.flags
          fileSize := dyn.fileSize
          attribChangeTimeSecs := dyn.attribChangeTimeSecs
          chunkBlocksVec := dyn.chunkBlocksVec
          settableFileAttribs :=
            { data.inodeStatData.settableFileAttribs with
              modificationTimeSecs := dyn.modificationTimeSecs
              lastAccessTimeSecs := dyn.lastAccessTimeSecs } } }

def getPathInfo : PathInfo := inode.inodeDiskData.getPathInfo

/-! ## Storing and loading -/

/-- What is handed to the function that writes the inode.  An inlined inode is copied into its
directory entry first. -/
def diskMetaData (writer : FileWriter) : DiskMetaData where
  dentryDiskData :=
    { entryID := inode.inodeDiskData.entryID
      entryType := inode.entryType
      ownerNodeID := 0
      dentryFeatureFlags := inode.featureFlags }
  inodeData := match writer with
    | .dentry => inode.inodeDiskData.setMetaVersion inode.inodeDiskData.metaVersion
    | .fileInode => inode.inodeDiskData

/-- The objects that are read into. -/
def freshData (undefined : FileInodeStoreData) : DiskMetaData where
  dentryDiskData :=
    { entryID := []
      entryType := DirEntryType.invalid
      ownerNodeID := 0
      dentryFeatureFlags := 0 }
  inodeData := .fresh undefined

/-- What is read from a deserializer, if all of it could be read. -/
def readMetaData (owner : LocalOwner) (undefined : FileInodeStoreData) (des : Deserializer) :
    Option DiskMetaData :=
  match DiskMetaData.deserializeDentry (m := DesM) owner (freshData undefined) des with
  | .ok (data, des) => if des.good then some data else none
  | .error _ => none

/-- `createFromInodeFile`, after the file was read.  Without a pattern, there is no inode. -/
def createFromInodeFile (data : DiskMetaData) : Option FileInode :=
  match data.inodeData.stripePattern with
  | none => none
  | some _ =>
    let inode : FileInode :=
      { inodeDiskData := data.inodeData
        entryType := data.dentryDiskData.entryType
        featureFlags := data.dentryDiskData.dentryFeatureFlags
        isInlined := false }
    some (inode.setIsInlined false)

/-- `createFromInlinedInode`, after the directory entry in `parentEntryID` was read. -/
def createFromInlinedInode (parentEntryID : EntryID) (data : DiskMetaData) : Option FileInode :=
  if data.dentryDiskData.dentryFeatureFlags &&& inodeInline = 0 then none
  else
    match data.inodeData.stripePattern with
    | none => none
    | some _ =>
      let inodeData := data.inodeData.setDynamicOrigParentEntryID parentEntryID.val
      let inode : FileInode :=
        { inodeDiskData := FileInodeStoreData.setMetaVersion
            { inodeData with entryID := data.dentryDiskData.entryID } inodeData.metaVersion
          entryType := data.dentryDiskData.entryType
          featureFlags := data.dentryDiskData.dentryFeatureFlags
          isInlined := true }
      some (inode.setIsInlined true)

/-- The inode of a file that was created in `parentEntryID`. -/
def create (parentEntryID : EntryID) (entryID : List Byte) (entryType : BitVec 8)
    (statData : StatData) (pattern : StripePattern) (isBuddyMirrored : Bool)
    (origParentUID : BitVec 32) : FileInode where
  inodeDiskData := .create entryID statData pattern
    (if isBuddyMirrored then FileInodeStoreData.buddyMirrored else 0) origParentUID
    parentEntryID.val .true
  entryType := entryType
  featureFlags := (if isBuddyMirrored then buddyMirrored else 0) |||
    (inodeInline ||| isFileInode)
  isInlined := true

end FileInode

end Beegfs
