import Beegfs.Storage.DiskMetaData

/-!
# Writing metadata of files

`DiskMetaData` writes directory entries, and the inodes of files in the format of directory entries.
The format version is chosen from the type of the entry, from where the inode is stored, and from
whether it has information about the original parent.  Newly written entries always have long node
IDs.
-/

namespace Beegfs

open Bytes Serializer FileInodeStoreData DentryStoreData Appends DiskMetaData

/-! ## Stat data -/

namespace StatData

variable (format : StatDataFormat) (obj : StatData)

/-- `StatData::BLOCK_SIZE`. -/
def blockSize : BitVec 64 := 512

def getNumBlocks : BitVec 64 :=
  if obj.getIsSparseFile then obj.chunkBlocksVec.sum
  else (obj.fileSize + blockSize - 1).sshiftRight blockShift

variable (ser : Serializer)

/-- The first fields of `serializeFmt`. -/
def writeFlags : Serializer :=
  if format.hasFlags || format.isNet then
    let ser := (ser.putIntegral obj.flags).putIntegral obj.settableFileAttribs.mode
    if format.isNet then ser.putIntegral obj.getNumBlocks
    else if obj.getIsSparseFile then ser.putCollection obj.chunkBlocksVec
    else ser
  else ser

/-- The times of `serializeFmt`. -/
def writeTimes : Serializer :=
  (((ser.putIntegral obj.creationTimeSecs).putIntegral
    obj.settableFileAttribs.lastAccessTimeSecs).putIntegral
    obj.settableFileAttribs.modificationTimeSecs).putIntegral obj.attribChangeTimeSecs

/-- The fields of `serializeFmt` that inodes of directories do not have. -/
def writeFileFields : Serializer :=
  if !format.diskDirInode then
    ((ser.putIntegral obj.fileSize).putIntegral obj.nlink).putIntegral obj.metaVersion
  else ser

/-- The last fields of `serializeFmt`. -/
def writeOwner : Serializer :=
  let ser := (ser.putIntegral obj.settableFileAttribs.userID).putIntegral
    obj.settableFileAttribs.groupID
  if !format.hasFlags then ser.putIntegral obj.settableFileAttribs.mode else ser

/-- `serializeFmt`, for writing. -/
def serializeFmtTo : Serializer :=
  obj.writeOwner format (obj.writeFileFields format (obj.writeTimes (obj.writeFlags format ser)))

/-- The bytes of the first fields. -/
def flagsBytes : List Byte :=
  if format.hasFlags || format.isNet then
    wordBytes obj.flags ++ (wordBytes obj.settableFileAttribs.mode ++
      if format.isNet then wordBytes obj.getNumBlocks
      else if obj.getIsSparseFile then collectionBytes obj.chunkBlocksVec
      else [])
  else []

/-- The bytes of the times. -/
def timesBytes : List Byte :=
  wordBytes obj.creationTimeSecs ++ (wordBytes obj.settableFileAttribs.lastAccessTimeSecs ++
    (wordBytes obj.settableFileAttribs.modificationTimeSecs ++ wordBytes obj.attribChangeTimeSecs))

/-- The bytes of the fields that inodes of directories do not have. -/
def fileFieldsBytes : List Byte :=
  if !format.diskDirInode then
    wordBytes obj.fileSize ++ (wordBytes obj.nlink ++ wordBytes obj.metaVersion)
  else []

/-- The bytes of the last fields. -/
def ownerBytes : List Byte :=
  wordBytes obj.settableFileAttribs.userID ++ (wordBytes obj.settableFileAttribs.groupID ++
    if !format.hasFlags then wordBytes obj.settableFileAttribs.mode else [])

/-- The bytes of stat data in a format. -/
def bytes : List Byte :=
  obj.flagsBytes format ++ (obj.timesBytes ++ (obj.fileFieldsBytes format ++ obj.ownerBytes format))

lemma appends_serializeFmtTo : Appends (obj.serializeFmtTo format) (obj.bytes format) := by
  have hflags : Appends (obj.writeFlags format) (obj.flagsBytes format) :=
    ite (fun _ => (appends_putIntegral _).comp ((appends_putIntegral _).comp
      (ite (fun _ => appends_putIntegral _) fun _ =>
        ite (fun _ => appends_putCollection _) fun _ => nil))) fun _ => nil
  have htimes : Appends obj.writeTimes obj.timesBytes :=
    (appends_putIntegral _).comp ((appends_putIntegral _).comp
      ((appends_putIntegral _).comp (appends_putIntegral _)))
  have hfields : Appends (obj.writeFileFields format) (obj.fileFieldsBytes format) :=
    ite (fun _ => (appends_putIntegral _).comp
      ((appends_putIntegral _).comp (appends_putIntegral _))) fun _ => nil
  have howner : Appends (obj.writeOwner format) (obj.ownerBytes format) :=
    (appends_putIntegral _).comp ((appends_putIntegral _).comp
      (ite (fun _ => appends_putIntegral _) fun _ => nil))
  exact hflags.comp (htimes.comp (hfields.comp howner))

end StatData

/-! ## Types -/

namespace DirEntryType

/-- `DirEntryType_INVALID` -/
def invalid : BitVec 8 := 0

/-- `DirEntryType_DIRECTORY` -/
def directory : BitVec 8 := 1

/-- `MetadataTk::posixFileTypeToDirEntryType`: the file type is in the upper bits of the mode. -/
def ofPosixFileType (posixFileMode : BitVec 32) : BitVec 8 :=
  let type := posixFileMode &&& 0o170000
  if type = 0o040000 then directory
  -- regular file
  else if type = 0o100000 then 2
  -- symlink
  else if type = 0o120000 then 3
  -- block and character device
  else if type = 0o060000 then 4
  else if type = 0o020000 then 5
  -- fifo
  else if type = 0o010000 then 6
  -- socket
  else if type = 0o140000 then 7
  else invalid

end DirEntryType

/-- `DiskMetaDataType`, of the entries that are written here. -/
inductive DiskMetaDataType
  /-- `DiskMetaDataType_FILEDENTRY` -/
  | fileDentry
  /-- `DiskMetaDataType_DIRDENTRY` -/
  | dirDentry
  /-- `DiskMetaDataType_FILEINODE` -/
  | fileInode
  deriving DecidableEq, Repr

/-- The number of the type. -/
def DiskMetaDataType.toWord : DiskMetaDataType → BitVec 8
  | fileDentry => 1
  | dirDentry => 2
  | fileInode => 3

/-- `getFileState`; the default is an unlocked file that is available. -/
def FileInodeStoreData.getFileState (inode : FileInodeStoreData) : BitVec 8 :=
  if inode.inodeFeatureFlags &&& hasStateFlags = 0 then 0 else inode.rawFileState

namespace DiskMetaData

variable (data : DiskMetaData) (pattern : StripePattern)

/-! ## Writing -/

def serializeDentryV3 (ser : Serializer) : Serializer :=
  (ser.putString data.dentryDiskData.entryID).putIntegral data.dentryDiskData.ownerNodeID

/-- The versions, which `serializeDentryV4` and `serializeDentryV6` end with. -/
def writeVersions (ser : Serializer) : Serializer :=
  if data.inodeData.inodeFeatureFlags &&& hasVersions != 0 then
    (ser.putIntegral data.inodeData.fileVersion).putIntegral data.inodeData.metaVersion
  else ser

/-- `serializeDentryV4`, where the inode points to `pattern`. -/
def serializeDentryV4 (ser : Serializer) : Serializer :=
  let ser := ser.putIntegral data.inodeData.inodeFeatureFlags
  -- unused, was the hash of the chunks
  let ser := ser.skip 4
  let ser := data.inodeData.inodeStatData.serializeFmtTo .dentryV4 ser
  let ser := ser.putString data.dentryDiskData.entryID
  let ser := pattern.serialize ser
  data.writeVersions ser

/-- The state of the file, or padding in its place. -/
def writeFileState (ser : Serializer) : Serializer :=
  if data.inodeData.inodeFeatureFlags &&& FileInodeStoreData.hasStateFlags != 0 then
    (ser.putIntegral data.inodeData.getFileState).skip 3
  else ser.skip 4

/-- The original user, if it is not the one in the stat data. -/
def writeOrigUID (ser : Serializer) : Serializer :=
  if data.inodeData.inodeFeatureFlags &&& hasOrigUID != 0 then
    ser.putIntegral data.inodeData.origParentUID
  else ser

/-- The original parent, if it is not the current one. -/
def writeOrigParentEntryID (ser : Serializer) : Serializer :=
  if data.inodeData.inodeFeatureFlags &&& hasOrigParentID != 0 then
    ser.putString data.inodeData.origParentEntryID
  else ser

/-- `serializeDentryV6`, where the inode points to `pattern`. -/
def serializeDentryV6 (ser : Serializer) : Serializer :=
  let ser := ser.putIntegral data.inodeData.inodeFeatureFlags
  let ser := data.writeFileState ser
  let ser := data.inodeData.inodeStatData.serializeFmtTo .fileInode ser
  let ser := data.writeOrigUID ser
  let ser := data.writeOrigParentEntryID ser
  let ser := ser.putString data.dentryDiskData.entryID
  let ser := pattern.serialize ser
  data.writeVersions ser

variable (metaDataType : DiskMetaDataType)

/-- The format version that `serializeInDentryFormat` chooses.  It is never version 5. -/
def dentryFormatVersion : BitVec 8 :=
  if data.dentryDiskData.entryType = DirEntryType.directory then 3
  else if metaDataType = .fileInode then 6
  else if data.dentryDiskData.dentryFeatureFlags &&& inodeInline = 0 then 3
  else if data.inodeData.origFeature = .true then 6
  else 4

variable (formatVersion : BitVec 8)

/-- The `switch` over the format version.  There is no result if the pattern of an inode is a null
pointer. -/
def serializeDentryVersion (ser : Serializer) : Option Serializer :=
  if formatVersion = 3 then
    some (data.serializeDentryV3 ser)
  else do
    let pattern ← data.inodeData.stripePattern
    if formatVersion = 4 then
      return data.serializeDentryV4 pattern ser
    else
      return data.serializeDentryV6 pattern ser

/-- The first eight bytes of an entry. -/
def writeDentryHeader (ser : Serializer) : Serializer :=
  let ser := ser.putIntegral metaDataType.toWord
  let ser := ser.putIntegral formatVersion
  let ser := ser.putIntegral data.dentryDiskData.dentryFeatureFlags
  let ser := ser.putIntegral data.dentryDiskData.entryType
  ser.skip 3

def addDentryFeatureFlag (flag : BitVec 16) : DiskMetaData :=
  { data with dentryDiskData :=
      { data.dentryDiskData with
        dentryFeatureFlags := data.dentryDiskData.dentryFeatureFlags ||| flag } }

/-- The flags of the entry are changed as well. -/
def serializeInDentryFormat (ser : Serializer) : Option (DiskMetaData × Serializer) := do
  let formatVersion := data.dentryFormatVersion metaDataType
  let data := data.addDentryFeatureFlag has32BitIDs
  let ser := data.writeDentryHeader metaDataType formatVersion ser
  let ser ← data.serializeDentryVersion formatVersion ser
  return (data, ser)

/-- The type of the entry, which is found in the mode if it was not set. -/
def setDirEntryType : DiskMetaData :=
  if data.dentryDiskData.entryType = DirEntryType.invalid then
    let mode := data.inodeData.inodeStatData.settableFileAttribs.mode
    { data with dentryDiskData :=
        { data.dentryDiskData with entryType := DirEntryType.ofPosixFileType mode } }
  else data

/-- Inodes which are inlined have another type. -/
def fileInodeType : DiskMetaDataType :=
  if data.dentryDiskData.dentryFeatureFlags &&& inodeInline != 0 then .fileDentry
  else .fileInode

def serializeFileInode (ser : Serializer) : Option (DiskMetaData × Serializer) :=
  data.setDirEntryType.serializeInDentryFormat data.setDirEntryType.fileInodeType ser

/-- The type of an entry is the one of a directory or a file. -/
def dentryType : DiskMetaDataType :=
  if data.dentryDiskData.entryType = DirEntryType.directory then .dirDentry else .fileDentry

def serializeDentry (ser : Serializer) : Option (DiskMetaData × Serializer) :=
  data.serializeInDentryFormat data.dentryType ser

/-! ## What is written -/

/-- The strings as they are written. -/
def shorten : DiskMetaData where
  dentryDiskData := { data.dentryDiskData with entryID := shortened data.dentryDiskData.entryID }
  inodeData :=
    { data.inodeData with origParentEntryID := shortened data.inodeData.origParentEntryID }

def bytesV3 : List Byte :=
  stringBytes 4 data.dentryDiskData.entryID ++ wordBytes data.dentryDiskData.ownerNodeID

def versionsBytes : List Byte :=
  if data.inodeData.inodeFeatureFlags &&& hasVersions != 0 then
    wordBytes data.inodeData.fileVersion ++ wordBytes data.inodeData.metaVersion
  else []

/-- The bytes of the entry ID, the pattern and the versions. -/
def tailBytes : List Byte :=
  stringBytes 4 data.dentryDiskData.entryID ++
    (pattern.bytes (BitVec.ofNat 32 (pattern.bytes 0).length) ++ data.versionsBytes)

def bytesV4 : List Byte :=
  wordBytes data.inodeData.inodeFeatureFlags ++ (List.replicate 4 0 ++
    (data.inodeData.inodeStatData.bytes .dentryV4 ++ data.tailBytes pattern))

def fileStateBytes : List Byte :=
  if data.inodeData.inodeFeatureFlags &&& FileInodeStoreData.hasStateFlags != 0 then
    wordBytes data.inodeData.getFileState ++ List.replicate 3 0
  else List.replicate 4 0

def origUIDBytes : List Byte :=
  if data.inodeData.inodeFeatureFlags &&& hasOrigUID != 0 then
    wordBytes data.inodeData.origParentUID
  else []

def origParentEntryIDBytes : List Byte :=
  if data.inodeData.inodeFeatureFlags &&& hasOrigParentID != 0 then
    stringBytes 4 data.inodeData.origParentEntryID
  else []

def bytesV6 : List Byte :=
  wordBytes data.inodeData.inodeFeatureFlags ++ (data.fileStateBytes ++
    (data.inodeData.inodeStatData.bytes .fileInode ++ (data.origUIDBytes ++
      (data.origParentEntryIDBytes ++ data.tailBytes pattern))))

/-- The bytes after the first eight ones. -/
def versionBytes : List Byte :=
  if formatVersion = 3 then data.bytesV3
  else if formatVersion = 4 then data.bytesV4 pattern
  else data.bytesV6 pattern

def headerBytes : List Byte :=
  wordBytes metaDataType.toWord ++ (wordBytes formatVersion ++
    (wordBytes data.dentryDiskData.dentryFeatureFlags ++
      (wordBytes data.dentryDiskData.entryType ++ List.replicate 3 0)))

/-- The bytes of an entry, whose inode points to `pattern`. -/
def dentryBytes : List Byte :=
  data.headerBytes metaDataType formatVersion ++ data.versionBytes pattern formatVersion

lemma appends_writeVersions : Appends data.writeVersions data.versionsBytes :=
  ite (fun _ => (appends_putIntegral _).comp (appends_putIntegral _)) fun _ => nil

lemma appends_serializeDentryV3 : Appends data.serializeDentryV3 data.shorten.bytesV3 :=
  (appends_putString _).comp (appends_putIntegral _)

lemma appends_serializeDentryV4 :
    Appends (data.serializeDentryV4 pattern) (data.shorten.bytesV4 pattern) :=
  (appends_putIntegral _).comp ((appends_skip 4).comp
    ((data.inodeData.inodeStatData.appends_serializeFmtTo .dentryV4).comp
      ((appends_putString _).comp (pattern.appends_serialize.comp data.appends_writeVersions))))

lemma appends_serializeDentryV6 :
    Appends (data.serializeDentryV6 pattern) (data.shorten.bytesV6 pattern) := by
  have hstate : Appends data.writeFileState data.shorten.fileStateBytes :=
    ite (fun _ => (appends_putIntegral _).comp (appends_skip 3)) fun _ => appends_skip 4
  have huid : Appends data.writeOrigUID data.shorten.origUIDBytes :=
    ite (fun _ => appends_putIntegral _) fun _ => nil
  have hpar : Appends data.writeOrigParentEntryID data.shorten.origParentEntryIDBytes :=
    ite (fun _ => appends_putString _) fun _ => nil
  have htail := (appends_putString data.dentryDiskData.entryID).comp
    (pattern.appends_serialize.comp data.appends_writeVersions)
  exact (appends_putIntegral _).comp (hstate.comp
    ((data.inodeData.inodeStatData.appends_serializeFmtTo .fileInode).comp
      (huid.comp (hpar.comp htail))))

lemma appends_writeDentryHeader : Appends (data.writeDentryHeader metaDataType formatVersion)
      (data.headerBytes metaDataType formatVersion) :=
  (appends_putIntegral _).comp ((appends_putIntegral _).comp ((appends_putIntegral _).comp
    ((appends_putIntegral _).comp (appends_skip 3))))

variable {data pattern}

lemma exists_serializeDentryVersion (h : data.inodeData.stripePattern = some pattern)
    (formatVersion : BitVec 8) :
    ∃ put, (∀ ser, data.serializeDentryVersion formatVersion ser = some (put ser)) ∧
      Appends put (data.shorten.versionBytes pattern formatVersion) := by
  unfold serializeDentryVersion versionBytes
  rw [h]
  by_cases h3 : formatVersion = 3
  · simp only [if_pos h3]
    exact ⟨_, fun _ => rfl, data.appends_serializeDentryV3⟩
  by_cases h4 : formatVersion = 4
  · simp only [if_neg h3, if_pos h4]
    exact ⟨_, fun _ => rfl, data.appends_serializeDentryV4 pattern⟩
  · simp only [if_neg h3, if_neg h4]
    exact ⟨_, fun _ => rfl, data.appends_serializeDentryV6 pattern⟩

end DiskMetaData

/-! ## The two functions that write inodes of files -/

/-- Which function writes an inode. -/
inductive FileWriter
  /-- `serializeDentry` -/
  | dentry
  /-- `serializeFileInode` -/
  | fileInode
  deriving DecidableEq, Repr

namespace FileWriter

variable (writer : FileWriter) (data : DiskMetaData)

def serialize (ser : Serializer) : Option (DiskMetaData × Serializer) :=
  match writer with
  | dentry => data.serializeDentry ser
  | fileInode => data.serializeFileInode ser

/-- The entry as it is after its type was found. -/
def prepare : DiskMetaData :=
  match writer with
  | dentry => data
  | fileInode => data.setDirEntryType

def metaDataType : DiskMetaDataType :=
  match writer with
  | dentry => data.dentryType
  | fileInode => data.setDirEntryType.fileInodeType

/-- The format version that is written. -/
def formatVersion : BitVec 8 := (writer.prepare data).dentryFormatVersion (writer.metaDataType data)

/-- The entry after it was written. -/
def written : DiskMetaData := (writer.prepare data).addDentryFeatureFlag has32BitIDs

/-- The bytes of an entry, whose inode points to `pattern`. -/
def bytes (pattern : StripePattern) : List Byte :=
  (writer.written data).dentryBytes pattern (writer.metaDataType data) (writer.formatVersion data)

/-- Only the type of the entry is set. -/
lemma prepare_eq : ∃ entryType, writer.prepare data =
    { data with dentryDiskData := { data.dentryDiskData with entryType } } := by
  cases writer with
  | dentry => exact ⟨data.dentryDiskData.entryType, rfl⟩
  | fileInode =>
    unfold prepare setDirEntryType
    dsimp only
    split
    · exact ⟨_, rfl⟩
    · exact ⟨data.dentryDiskData.entryType, rfl⟩

lemma inodeData_prepare : (writer.prepare data).inodeData = data.inodeData := by
  obtain ⟨_, h⟩ := writer.prepare_eq data
  rw [h]

lemma dentryFeatureFlags_prepare : (writer.prepare data).dentryDiskData.dentryFeatureFlags =
    data.dentryDiskData.dentryFeatureFlags := by
  obtain ⟨_, h⟩ := writer.prepare_eq data
  rw [h]

lemma inodeData_written : (writer.written data).inodeData = data.inodeData :=
  writer.inodeData_prepare data

lemma dentryFeatureFlags_written : (writer.written data).dentryDiskData.dentryFeatureFlags =
    data.dentryDiskData.dentryFeatureFlags ||| has32BitIDs := by
  rw [← writer.dentryFeatureFlags_prepare data]
  rfl

/-- How the format version depends on the type of the entry, on where the inode is stored, and on
the information about the original parent. -/
lemma formatVersion_eq :
    writer.formatVersion data =
      if (writer.prepare data).dentryDiskData.entryType = DirEntryType.directory then 3
      else if data.dentryDiskData.dentryFeatureFlags &&& inodeInline = 0 then
        (if writer = dentry then 3 else 6)
      else if data.inodeData.origFeature = .true then 6
      else 4 := by
  rw [formatVersion, dentryFormatVersion, writer.inodeData_prepare,
    writer.dentryFeatureFlags_prepare]
  refine ite_congr rfl (fun _ => rfl) fun htype => ?_
  cases writer with
  | dentry =>
    have htype' : (dentry).metaDataType data = .fileDentry := if_neg htype
    rw [htype']
    rfl
  | fileInode =>
    have hflags := fileInode.dentryFeatureFlags_prepare data
    change data.setDirEntryType.dentryDiskData.dentryFeatureFlags = _ at hflags
    by_cases hinl : data.dentryDiskData.dentryFeatureFlags &&& inodeInline = 0
    · have htype' : (fileInode).metaDataType data = .fileInode := by
        unfold metaDataType fileInodeType
        rw [hflags, hinl]
        rfl
      rw [htype', if_pos rfl, if_pos hinl, if_neg nofun]
    · have htype' : (fileInode).metaDataType data = .fileDentry := by
        unfold metaDataType fileInodeType
        rw [hflags]
        exact if_pos (bne_iff_ne.mpr hinl)
      rw [htype', if_neg nofun, if_neg hinl, if_neg hinl]

variable {data} {pattern : StripePattern}

/-- An entry whose inode has a pattern is written, up to the length of its strings. -/
lemma exists_serialize (h : data.inodeData.stripePattern = some pattern) :
    ∃ put, (∀ ser, writer.serialize data ser = some (writer.written data, put ser)) ∧
      Appends put ((writer.written data).shorten.dentryBytes pattern (writer.metaDataType data)
        (writer.formatVersion data)) := by
  have hwrit : (writer.written data).inodeData.stripePattern = some pattern := by
    rw [writer.inodeData_written, h]
  obtain ⟨put, hput, hbytes⟩ := exists_serializeDentryVersion hwrit (writer.formatVersion data)
  refine ⟨fun ser => put ((writer.written data).writeDentryHeader (writer.metaDataType data) _ ser),
    fun ser => ?_, ((writer.written data).appends_writeDentryHeader _ _).comp hbytes⟩
  have hserialize : writer.serialize data ser =
      (writer.prepare data).serializeInDentryFormat (writer.metaDataType data) ser := by
    cases writer <;> rfl
  rw [written] at hput
  rw [hserialize, serializeInDentryFormat]
  rw [← formatVersion, hput]
  rfl

end FileWriter

end Beegfs
