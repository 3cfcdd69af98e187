import Beegfs.Storage.MetaReader

/-!
# Metadata on disk

`DiskMetaData` reads directory entries and inodes of directories.  Directory entries of files have
the inode of the file inside since format version 4; version 5 added the original parent, version 6
the storage pool in the stripe pattern.  Of the two objects that are read into, the fields that the
decoders use are modelled.
-/

namespace Beegfs

open Bytes

/-! ## Data -/

/-- `FileInodeOrigFeature`. -/
inductive FileInodeOrigFeature
  | unset
  | true
  | false
  deriving DecidableEq, Repr

/-- `FileInodeStoreData`: the inode of a file. -/
structure FileInodeStoreData where
  inodeFeatureFlags : BitVec 32
  inodeStatData : StatData
  entryID : List Byte
  stripePattern : Option StripePattern
  /-- indirectly determined via the version of the directory entry -/
  origFeature : FileInodeOrigFeature
  origParentUID : BitVec 32
  origParentEntryID : List Byte
  fileVersion : BitVec 32
  metaVersion : BitVec 32
  /-- access flags and data state -/
  rawFileState : BitVec 8
  deriving DecidableEq

namespace FileInodeStoreData

/-- `FILEINODE_FEATURE_MIRRORED` -/
def mirrored : BitVec 32 := 1

/-- `FILEINODE_FEATURE_BUDDYMIRRORED` -/
def buddyMirrored : BitVec 32 := 8

/-- `FILEINODE_FEATURE_HAS_ORIG_PARENTID` -/
def hasOrigParentID : BitVec 32 := 16

/-- `FILEINODE_FEATURE_HAS_ORIG_UID` -/
def hasOrigUID : BitVec 32 := 32

/-- `FILEINODE_FEATURE_HAS_VERSIONS` -/
def hasVersions : BitVec 32 := 128

/-- `FILEINODE_FEATURE_HAS_RST` -/
def hasRst : BitVec 32 := 256

/-- `FILEINODE_FEATURE_HAS_STATE_FLAGS` -/
def hasStateFlags : BitVec 32 := 512

variable (inode : FileInodeStoreData)

def addInodeFeatureFlag (flag : BitVec 32) : FileInodeStoreData :=
  { inode with inodeFeatureFlags := inode.inodeFeatureFlags ||| flag }

def removeInodeFeatureFlag (flag : BitVec 32) : FileInodeStoreData :=
  { inode with inodeFeatureFlags := inode.inodeFeatureFlags &&& ~~~ flag }

def getIsBuddyMirrored : Bool := inode.inodeFeatureFlags &&& buddyMirrored != 0

def setFileState (value : BitVec 8) : FileInodeStoreData :=
  let inode := { inode with rawFileState := value }
  if value = 0 then inode.removeInodeFeatureFlag hasStateFlags
  else inode.addInodeFeatureFlag hasStateFlags

end FileInodeStoreData

/-- `DentryStoreData`: the directory entry itself. -/
structure DentryStoreData where
  entryID : List Byte
  entryType : BitVec 8
  /-- 0 means undefined -/
  ownerNodeID : BitVec 32
  dentryFeatureFlags : BitVec 16
  deriving DecidableEq, Repr

namespace DentryStoreData

/-- `DENTRY_FEATURE_INODE_INLINE` -/
def inodeInline : BitVec 16 := 1

/-- `DENTRY_FEATURE_IS_FILEINODE` -/
def isFileInode : BitVec 16 := 2

/-- `DENTRY_FEATURE_MIRRORED` -/
def mirrored : BitVec 16 := 4

/-- `DENTRY_FEATURE_BUDDYMIRRORED` -/
def buddyMirrored : BitVec 16 := 8

/-- `DENTRY_FEATURE_32BITIDS` -/
def has32BitIDs : BitVec 16 := 16

end DentryStoreData

/-- `DiskMetaData`: what a directory entry is read into. -/
structure DiskMetaData where
  dentryDiskData : DentryStoreData
  inodeData : FileInodeStoreData
  deriving DecidableEq

/-- `DirInode`: the inode of a directory. -/
structure DirInode where
  id : List Byte
  ownerNodeID : BitVec 32
  /-- the default for new files and subdirectories -/
  stripePattern : Option StripePattern
  parentDirID : List Byte
  parentNodeID : BitVec 32
  featureFlags : BitVec 16
  statData : StatData
  numSubdirs : BitVec 32
  numFiles : BitVec 32
  deriving DecidableEq

namespace DirInode

/-- `DIRINODE_FEATURE_EARLY_SUBDIRS` -/
def earlySubdirs : BitVec 16 := 2

/-- `DIRINODE_FEATURE_MIRRORED` -/
def mirrored : BitVec 16 := 4

/-- `DIRINODE_FEATURE_STATFLAGS` -/
def statFlags : BitVec 16 := 8

/-- `DIRINODE_FEATURE_BUDDYMIRRORED` -/
def buddyMirrored : BitVec 16 := 16

/-- `DIRINODE_FEATURE_HAS_RST` -/
def hasRst : BitVec 16 := 32

end DirInode

/-- `StripePattern::setStoragePoolId`. -/
def StripePattern.setStoragePoolId (pattern : StripePattern) (storagePoolId : BitVec 16) :
    StripePattern :=
  { pattern with header := { pattern.header with storagePoolId, hasPoolId := true } }

/-- The local node and its buddy group, which own the inlined inodes. -/
structure LocalOwner where
  nodeID : BitVec 32
  groupID : BitVec 32

namespace DiskMetaData

open MetaReader

/-! ## Feature flags -/

/-- Whether only supported flags are used. -/
def checkFeatureFlagsCompat {w : ℕ} (used supported : BitVec w) : Bool :=
  used &&& ~~~ supported == 0

lemma checkFeatureFlagsCompat_iff {w : ℕ} {used supported : BitVec w} :
    checkFeatureFlagsCompat used supported = true ↔ used &&& ~~~ supported = 0 := beq_iff_eq

lemma compat_or {w : ℕ} {used flag supported : BitVec w}
    (h : checkFeatureFlagsCompat used supported = true)
    (hflag : checkFeatureFlagsCompat flag supported = true) :
    checkFeatureFlagsCompat (used ||| flag) supported = true :=
  checkFeatureFlagsCompat_iff.mpr (Word.or_and_eq_zero_iff.mpr
    ⟨checkFeatureFlagsCompat_iff.mp h, checkFeatureFlagsCompat_iff.mp hflag⟩)

def getSupportedDentryFeatureFlags : BitVec 16 :=
  DentryStoreData.inodeInline ||| DentryStoreData.isFileInode ||| DentryStoreData.mirrored |||
    DentryStoreData.buddyMirrored ||| DentryStoreData.has32BitIDs

open FileInodeStoreData

def getSupportedDentryV4FileInodeFeatureFlags : BitVec 32 :=
  mirrored ||| buddyMirrored |||
    hasVersions

def getSupportedDentryV5FileInodeFeatureFlags : BitVec 32 :=
  mirrored ||| buddyMirrored |||
    hasOrigParentID ||| hasOrigUID |||
    hasVersions ||| hasRst |||
    hasStateFlags

def getSupportedDirInodeFeatureFlags : BitVec 16 :=
  DirInode.earlySubdirs ||| DirInode.mirrored ||| DirInode.statFlags ||| DirInode.buddyMirrored |||
    DirInode.hasRst

/-! ## Directory entries -/

variable {m : Type → Type} [MetaReader m]

/-- The entry ID, which is kept in the directory entry and in the inode. -/
def readEntryID (data : DiskMetaData) : m DiskMetaData := do
  let entryID ← string
  let dentryDiskData := { data.dentryDiskData with entryID }
  let inodeData := { data.inodeData with entryID }
  return { dentryDiskData, inodeData }

def deserializeDentryV3 (data : DiskMetaData) : m DiskMetaData := do
  let data ← readEntryID data
  if data.dentryDiskData.dentryFeatureFlags &&& DentryStoreData.has32BitIDs != 0 then do
    let ownerNodeID ← integral 32
    return { data with dentryDiskData := { data.dentryDiskData with ownerNodeID } }
  else do
    let ownerNodeID ← integral 16
    let ownerNodeID := ownerNodeID.setWidth 32
    return { data with dentryDiskData := { data.dentryDiskData with ownerNodeID } }

variable (inodeFeatureFlags : BitVec 32) (inode : FileInodeStoreData)

/-- The mirror node of old mirrored inodes, which is thrown away. -/
def readInodeMirrorNode : m FileInodeStoreData :=
  if inodeFeatureFlags &&& mirrored != 0 then do
    let _mirrorNodeID ← integral 16
    return inode.removeInodeFeatureFlag mirrored
  else
    return inode

variable (hasStoragePool : Bool)

/-- What `deserializeDentryV4` and `deserializeDentryV5V6` end with: the mirror node, the stripe
pattern and the versions. -/
def readInodeTail (inodeFeatureFlags : BitVec 32)
    (inode : FileInodeStoreData) : m FileInodeStoreData := do
  let inode ← readInodeMirrorNode inodeFeatureFlags inode
  let stripePattern ← pattern hasStoragePool
  let inode := { inode with stripePattern }
  if inodeFeatureFlags &&& hasVersions != 0 then do
    let fileVersion ← integral 32
    let metaVersion ← integral 32
    let inode := { inode with fileVersion, metaVersion }
    return inode.addInodeFeatureFlag hasVersions
  else
    return inode.addInodeFeatureFlag hasVersions

def deserializeDentryV4 (data : DiskMetaData) : m DiskMetaData := do
  let inodeFeatureFlags ← integral 32
  returnIfBad data <|
    if !checkFeatureFlagsCompat inodeFeatureFlags getSupportedDentryV4FileInodeFeatureFlags then
      reject data
    else do
      -- unused, was the hash of the chunks
      skip 4
      let inodeStatData ← data.inodeData.inodeStatData.serializeFmt .dentryV4
      let data ← readEntryID
        { data with inodeData := { data.inodeData with inodeFeatureFlags, inodeStatData } }
      let inodeData ← readInodeTail false inodeFeatureFlags data.inodeData
      return { data with inodeData }

/-- The state of the file, or padding in its place. -/
def readFileState : m FileInodeStoreData :=
  if inodeFeatureFlags &&& hasStateFlags != 0 then do
    let state ← integral 8
    skip 3
    return inode.setFileState state
  else do
    skip 4
    return inode

/-- The original user, if it is not the one in the stat data. -/
def readOrigUID : m (BitVec 32) :=
  if inodeFeatureFlags &&& hasOrigUID != 0 then
    integral 32
  else
    return inode.inodeStatData.settableFileAttribs.userID

/-- The original user and the original parent. -/
def readOrigParent : m FileInodeStoreData := do
  let origParentUID ← readOrigUID inodeFeatureFlags inode
  let inode := { inode with origParentUID }
  if inodeFeatureFlags &&& hasOrigParentID != 0 then do
    let origParentEntryID ← string
    return { inode with origParentEntryID }
  else
    return inode

def deserializeDentryV5V6 (data : DiskMetaData) : m DiskMetaData := do
  let inodeFeatureFlags ← integral 32
  returnIfBad data <|
    if !checkFeatureFlagsCompat inodeFeatureFlags getSupportedDentryV5FileInodeFeatureFlags then
      reject data
    else do
      let inodeData ← readFileState inodeFeatureFlags { data.inodeData with inodeFeatureFlags }
      let inodeStatData ← inodeData.inodeStatData.serializeFmt .fileInode
      let inodeData ← readOrigParent inodeFeatureFlags { inodeData with inodeStatData }
      let data ← readEntryID { data with inodeData }
      let inodeData ← readInodeTail hasStoragePool inodeFeatureFlags data.inodeData
      return { data with inodeData }

/-- The mirror node of old mirrored entries, which is thrown away, and padding up to eight bytes. -/
def readDentryPadding (dentry : DentryStoreData) : m DentryStoreData :=
  if dentry.dentryFeatureFlags &&& DentryStoreData.mirrored != 0 then do
    let _mirrorNodeID ← integral 16
    skip 1
    let dentryFeatureFlags := dentry.dentryFeatureFlags &&& ~~~ DentryStoreData.mirrored
    return { dentry with dentryFeatureFlags }
  else do
    skip 3
    return dentry

variable (owner : LocalOwner)

/-- What is set after an inlined inode was read: the owner, which is this node or its buddy group,
and whether the inode has information about the original parent. -/
def setOwner (origFeature : FileInodeOrigFeature) (data : DiskMetaData) : DiskMetaData :=
  let ownerNodeID := if data.inodeData.getIsBuddyMirrored then owner.groupID else owner.nodeID
  { dentryDiskData := { data.dentryDiskData with ownerNodeID }
    inodeData := { data.inodeData with origFeature } }

variable (formatVersion : BitVec 8)

/-- The part of `deserializeDentry` that depends on the format version. -/
def deserializeDentryVersion (data : DiskMetaData) : m DiskMetaData :=
  if formatVersion = 3 then
    deserializeDentryV3 data
  else if formatVersion = 4 then do
    let data ← deserializeDentryV4 data
    returnIfBad data <| return data.setOwner owner .false
  else if formatVersion = 5 then do
    let data ← deserializeDentryV5V6 false data
    returnIfBad data do
      let data := data.setOwner owner .true
      -- version 6 has a storage pool
      let pattern ← deref data.inodeData.stripePattern
      let stripePattern := some (pattern.setStoragePoolId defaultPoolId)
      return { data with inodeData := { data.inodeData with stripePattern } }
  else if formatVersion = 6 then do
    let data ← deserializeDentryV5V6 true data
    returnIfBad data <| return data.setOwner owner .true
  else
    reject data

def deserializeDentry (data : DiskMetaData) : m DiskMetaData := do
  let _metaDataType ← integral 8
  let formatVersion ← integral 8
  let dentryFeatureFlags ← integral 16
  returnIfBad data <|
    if !checkFeatureFlagsCompat dentryFeatureFlags getSupportedDentryFeatureFlags then
      reject data
    else do
      let entryType ← integral 8
      let dentry := { data.dentryDiskData with dentryFeatureFlags, entryType }
      let dentryDiskData ← readDentryPadding dentry
      deserializeDentryVersion owner formatVersion { data with dentryDiskData }

/-! ## Inodes of directories -/

/-- The number of subdirectories, which has one of two places. -/
def readNumSubdirs (here : Bool) (numSubdirs : BitVec 32) : m (BitVec 32) :=
  if here then integral 32 else return numSubdirs

variable (inode : DirInode)

def serializeDirInodeCommonData : m DirInode := do
  let early := inode.featureFlags &&& DirInode.earlySubdirs != 0
  let numSubdirs ← readNumSubdirs early inode.numSubdirs
  let statData ← inode.statData.serializeFmt
    (if inode.featureFlags &&& DirInode.statFlags != 0 then .dirInode else .dirInodeNoFlags)
  let numSubdirs ← readNumSubdirs (!early) numSubdirs
  let numFiles ← integral 32
  let id ← string
  let parentDirID ← string
  return { inode with numSubdirs, statData, numFiles, id, parentDirID }

/-- The mirror node of old mirrored directories, which is thrown away. -/
def readDirInodeMirrorNode : m DirInode :=
  if inode.featureFlags &&& DirInode.mirrored != 0 then do
    let _mirrorNodeID ← integral 16
    return { inode with featureFlags := inode.featureFlags &&& ~~~ DirInode.mirrored }
  else
    return inode

/-- The end of `deserializeDirInode`: the mirror node and the stripe pattern.  The members of the
pattern are used without asking whether there is one. -/
def readDirInodeTail (inode : DirInode) : m DirInode := do
  let inode ← readDirInodeMirrorNode inode
  let stripePattern ← pattern hasStoragePool
  if !hasStoragePool then do
    let pattern ← deref stripePattern
    return { inode with stripePattern := some (pattern.setStoragePoolId defaultPoolId) }
  else
    return { inode with stripePattern }

/-- The part of `deserializeDirInode` that depends on the format version. -/
def deserializeDirInodeVersion (inode : DirInode) : m DirInode :=
  if formatVersion = 1 then do
    let ownerNode ← integral 16
    let parentNode ← integral 16
    let ownerNodeID := ownerNode.setWidth 32
    let parentNodeID := parentNode.setWidth 32
    readDirInodeTail false { inode with ownerNodeID, parentNodeID }
  else if formatVersion = 2 then do
    let ownerNodeID ← integral 32
    let parentNodeID ← integral 32
    readDirInodeTail false { inode with ownerNodeID, parentNodeID }
  else if formatVersion = 3 then do
    let ownerNodeID ← integral 32
    let parentNodeID ← integral 32
    readDirInodeTail true { inode with ownerNodeID, parentNodeID }
  else
    reject inode

/-- The end of `deserializeDirInode`, when the feature flags were checked. -/
def deserializeDirInodeData (inode : DirInode) : m DirInode := do
  let inode ← serializeDirInodeCommonData inode
  deserializeDirInodeVersion formatVersion inode

/-- `DiskMetaDataType_DIRINODE` -/
def dirInodeType : BitVec 8 := 4

/-- The first fields of `deserializeDirInode`.  The format version is returned, unless the function
returns early. -/
def deserializeDirInodeHead : m (DirInode × Option (BitVec 8)) := do
  let metaDataType ← integral 8
  rejectIf (metaDataType != dirInodeType) (inode, none) do
    let formatVersion ← integral 8
    let featureFlags ← integral 16
    let inode := { inode with featureFlags }
    returnIfBad (inode, none) <|
      if !checkFeatureFlagsCompat featureFlags getSupportedDirInodeFeatureFlags then
        reject (inode, none)
      else
        return (inode, some formatVersion)

/-- `deserializeDirInode` after the head. -/
def deserializeDirInodeRest : DirInode × Option (BitVec 8) → m DirInode
  | (inode, some formatVersion) => deserializeDirInodeData formatVersion inode
  | (inode, none) => return inode

def deserializeDirInode : m DirInode := do
  let head ← deserializeDirInodeHead inode
  deserializeDirInodeRest head

end DiskMetaData

end Beegfs
