import Beegfs.Storage.DiskMetaDataFormat
import Beegfs.Storage.DiskMetaDataWriter
import Beegfs.Striping.PatternRoundTrip

/-!
# Metadata of files survives being stored

What is written for a file in the current format is in the format that the decoder reads, so that
everything is read back: the flags and the state of the file, its stat data, the original user and
the original parent, the stripe pattern and the versions.
-/

namespace Beegfs

open Bytes Decoder MetaReader Serializer Grammar FileInodeStoreData DentryStoreData Deserializer
  List

/-! ## Stat data -/

namespace StatData

variable (format : StatDataFormat) (obj initial : StatData)

/-- What is read from the bytes of `obj` where `initial` was before. -/
def received : StatData where
  flags := if format.hasFlags then obj.flags else initial.flags
  fileSize := if format.diskDirInode then initial.fileSize else obj.fileSize
  creationTimeSecs := obj.creationTimeSecs
  attribChangeTimeSecs := obj.attribChangeTimeSecs
  nlink := if format.diskDirInode then initial.nlink else obj.nlink
  settableFileAttribs := obj.settableFileAttribs
  metaVersion := if format.diskDirInode then initial.metaVersion else obj.metaVersion
  chunkBlocksVec :=
    if format.hasFlags && !format.isNet && obj.getIsSparseFile then obj.chunkBlocksVec
    else initial.chunkBlocksVec

lemma readFlags_accepts : (readFlags (m := Grammar Byte) format initial).accepts
      { initial with
        flags := if format.hasFlags then obj.flags else initial.flags
        settableFileAttribs :=
          { initial.settableFileAttribs with
            mode := if format.hasFlags then obj.settableFileAttribs.mode
              else initial.settableFileAttribs.mode }
        chunkBlocksVec :=
          if format.hasFlags && !format.isNet && obj.getIsSparseFile then obj.chunkBlocksVec
          else initial.chunkBlocksVec }
      (obj.flagsBytes format) := by
  cases format with
  | net =>
    exact accepts_bind rfl (accepts_bind rfl (accepts_map (G := word 64) _ rfl))
  | fileInode | dirInode =>
    refine accepts_bind rfl (accepts_bind rfl (accepts_ite nofun fun _ =>
      accepts_ite (p := obj.getIsSparseFile = true) (fun hspar => ?_) fun hspar => ?_))
    · rw [hspar]
      exact accepts_map (G := collection 64) _ rfl
    · rw [Bool.not_eq_true] at hspar
      rw [hspar]
      exact ⟨rfl, rfl⟩
  | dentryV4 | dirInodeNoFlags => exact ⟨rfl, rfl⟩

lemma serializeFmt_accepts :
    (serializeFmt (m := Grammar Byte) format initial).accepts (obj.received format initial)
      (obj.bytes format) := by
  refine accepts_bind (readFlags_accepts format obj initial) (accepts_bind
    (accepts_bind rfl (accepts_bind rfl (accepts_bind rfl
      (accepts_map (G := word 64) _ rfl)))) ?_)
  cases format with
  | net | fileInode =>
    exact accepts_bind (accepts_bind rfl (accepts_bind rfl
      (accepts_map (G := word 32) _ rfl))) (accepts_bind rfl (accepts_bind rfl ⟨rfl, rfl⟩))
  | dentryV4 =>
    exact accepts_bind (accepts_bind rfl (accepts_bind rfl
      (accepts_map (G := word 32) _ rfl)))
      (accepts_bind rfl (accepts_bind rfl (accepts_map (G := word 32) _ rfl)))
  | dirInode => exact accepts_bind ⟨rfl, rfl⟩ (accepts_bind rfl (accepts_bind rfl ⟨rfl, rfl⟩))
  | dirInodeNoFlags =>
    exact accepts_bind ⟨rfl, rfl⟩
      (accepts_bind rfl (accepts_bind rfl (accepts_map (G := word 32) _ rfl)))

end StatData

/-! ## Directory entries -/

namespace DiskMetaData

variable {data : DiskMetaData} {pattern decoded : StripePattern}

/-- The state of the file, as it is read where `initial` was before. -/
def receivedState (data : DiskMetaData) (initial : FileInodeStoreData) : FileInodeStoreData :=
  let inode := { initial with inodeFeatureFlags := data.inodeData.inodeFeatureFlags }
  if data.inodeData.inodeFeatureFlags &&& hasStateFlags != 0 then
    inode.setFileState data.inodeData.getFileState
  else inode

/-- The original user, as it is read. -/
def receivedOrigUID (data : DiskMetaData) : BitVec 32 :=
  if data.inodeData.inodeFeatureFlags &&& FileInodeStoreData.hasOrigUID != 0 then
    data.inodeData.origParentUID
  else data.inodeData.inodeStatData.settableFileAttribs.userID

/-- The original parent, as it is read where `initial` was before. -/
def receivedOrigParentEntryID (data : DiskMetaData) (initial : List Byte) : List Byte :=
  if data.inodeData.inodeFeatureFlags &&& hasOrigParentID != 0 then
    data.inodeData.origParentEntryID
  else initial

/-- A version, as it is read where `initial` was before. -/
def receivedVersion (data : DiskMetaData) (version initial : BitVec 32) : BitVec 32 :=
  if data.inodeData.inodeFeatureFlags &&& FileInodeStoreData.hasVersions != 0 then version
  else initial

/-- The inode that is read from the bytes of `data` where `initial` was before. -/
def receivedInode (data : DiskMetaData) (decoded : StripePattern) (initial : FileInodeStoreData) :
    FileInodeStoreData :=
  let inode := data.receivedState initial
  let inode :=
    { inode with
      inodeStatData := data.inodeData.inodeStatData.received .fileInode inode.inodeStatData
      origParentUID := data.receivedOrigUID
      origParentEntryID := data.receivedOrigParentEntryID inode.origParentEntryID
      entryID := data.dentryDiskData.entryID
      stripePattern := some decoded
      fileVersion := data.receivedVersion data.inodeData.fileVersion inode.fileVersion
      metaVersion := data.receivedVersion data.inodeData.metaVersion inode.metaVersion }
  inode.addInodeFeatureFlag FileInodeStoreData.hasVersions

lemma readFileState_accepts (data : DiskMetaData) (initial : FileInodeStoreData) :
    (readFileState (m := Grammar Byte) data.inodeData.inodeFeatureFlags
      { initial with inodeFeatureFlags := data.inodeData.inodeFeatureFlags }).accepts
      (data.receivedState initial) data.fileStateBytes := by
  refine accepts_ite (fun h => ?_) fun h => ?_
  · rw [receivedState, if_pos h]
    exact accepts_bind rfl (accepts_map (G := skipped 3) (a := ()) _ rfl)
  · rw [receivedState, if_neg h]
    exact accepts_map (G := skipped 4) (a := ()) _ rfl

lemma readOrigParent_accepts {initial : FileInodeStoreData}
    (huid : initial.inodeStatData.settableFileAttribs.userID =
      data.inodeData.inodeStatData.settableFileAttribs.userID)
    (hpar : data.inodeData.inodeFeatureFlags &&& hasOrigParentID != 0 →
      data.inodeData.origParentEntryID.length + 1 < 2 ^ 32) :
    (readOrigParent (m := Grammar Byte) data.inodeData.inodeFeatureFlags initial).accepts
      { initial with
        origParentUID := data.receivedOrigUID
        origParentEntryID := data.receivedOrigParentEntryID initial.origParentEntryID }
      (data.origUIDBytes ++ data.origParentEntryIDBytes) := by
  have horig : (readOrigUID (m := Grammar Byte) data.inodeData.inodeFeatureFlags initial).accepts
      data.receivedOrigUID data.origUIDBytes := by
    refine accepts_ite (fun h => ?_) fun h => ?_
    · rw [receivedOrigUID, if_pos h]
      rfl
    · rw [receivedOrigUID, if_neg h]
      exact ⟨huid.symm, rfl⟩
  refine accepts_bind horig (accepts_ite (fun h => ?_) fun h => ?_)
  · rw [receivedOrigParentEntryID, if_pos h]
    exact accepts_map (G := string) _ (string_accepts (hpar h))
  · rw [receivedOrigParentEntryID, if_neg h]
    exact ⟨rfl, rfl⟩

variable (initial : DiskMetaData)

lemma readEntryID_accepts {entryID : List Byte} (h : entryID.length + 1 < 2 ^ 32) :
    (readEntryID (m := Grammar Byte) initial).accepts
      { dentryDiskData := { initial.dentryDiskData with entryID }
        inodeData := { initial.inodeData with entryID } } (stringBytes 4 entryID) :=
  accepts_map (G := string) _ (string_accepts h)

/-- The bytes of the pattern of an inode. -/
abbrev patternBytes (pattern : StripePattern) : List Byte :=
  pattern.bytes (BitVec.ofNat 32 (pattern.bytes 0).length)

open StripePattern

lemma readInodeTail_accepts {hasStoragePool : Bool} (initial : FileInodeStoreData)
    (hmirr : data.inodeData.inodeFeatureFlags &&& FileInodeStoreData.mirrored = 0)
    (hpat : (format hasStoragePool).accepts decoded (patternBytes pattern)) :
    (readInodeTail (m := Grammar Byte) hasStoragePool data.inodeData.inodeFeatureFlags
      initial).accepts
      (addInodeFeatureFlag
        { initial with
          stripePattern := some decoded
          fileVersion := data.receivedVersion data.inodeData.fileVersion initial.fileVersion
          metaVersion := data.receivedVersion data.inodeData.metaVersion initial.metaVersion }
        FileInodeStoreData.hasVersions)
      (patternBytes pattern ++ data.versionsBytes) := by
  have hmirror : (readInodeMirrorNode (m := Grammar Byte) data.inodeData.inodeFeatureFlags
      initial).accepts initial [] := by
    rw [readInodeMirrorNode, hmirr]
    exact ⟨rfl, rfl⟩
  rw [← nil_append (patternBytes pattern ++ _)]
  refine accepts_bind hmirror (accepts_bind (accepts_map some hpat)
    (accepts_ite (fun h => ?_) fun h => ?_))
  · rw [receivedVersion, receivedVersion, if_pos h, if_pos h]
    exact accepts_bind rfl (accepts_map (G := word 32) _ rfl)
  · rw [receivedVersion, receivedVersion, if_neg h, if_neg h]
    exact ⟨rfl, rfl⟩

/-- What the bytes of an inode need in order to be read. -/
structure Readable (data : DiskMetaData) : Prop where
  not_mirrored : data.inodeData.inodeFeatureFlags &&& FileInodeStoreData.mirrored = 0
  dentry_not_mirrored : data.dentryDiskData.dentryFeatureFlags &&& DentryStoreData.mirrored = 0
  dentry_compat : checkFeatureFlagsCompat data.dentryDiskData.dentryFeatureFlags
    getSupportedDentryFeatureFlags = true
  length_entryID : data.dentryDiskData.entryID.length + 1 < 2 ^ 32
  length_origParentEntryID :
    data.inodeData.inodeFeatureFlags &&& hasOrigParentID != 0 →
      data.inodeData.origParentEntryID.length + 1 < 2 ^ 32

/-- The inode that is read from the bytes of `data` in the format version 4. -/
def receivedInodeV4 (data : DiskMetaData) (decoded : StripePattern)
    (initial : FileInodeStoreData) : FileInodeStoreData :=
  addInodeFeatureFlag
    { initial with
      inodeFeatureFlags := data.inodeData.inodeFeatureFlags
      inodeStatData := data.inodeData.inodeStatData.received .dentryV4 initial.inodeStatData
      entryID := data.dentryDiskData.entryID
      stripePattern := some decoded
      fileVersion := data.receivedVersion data.inodeData.fileVersion initial.fileVersion
      metaVersion := data.receivedVersion data.inodeData.metaVersion initial.metaVersion }
    FileInodeStoreData.hasVersions

/-- What the decoder has read of the first bytes where `initial` was before. -/
def receivedHeader (data initial : DiskMetaData) : DiskMetaData :=
  { initial with dentryDiskData :=
      { initial.dentryDiskData with
        dentryFeatureFlags := data.dentryDiskData.dentryFeatureFlags
        entryType := data.dentryDiskData.entryType } }

lemma readDentryPadding_accepts (dentry : DentryStoreData)
    (hmirr : dentry.dentryFeatureFlags &&& DentryStoreData.mirrored = 0) :
    (readDentryPadding (m := Grammar Byte) dentry).accepts dentry (List.replicate 3 0) := by
  rw [readDentryPadding, hmirr]
  exact accepts_map (G := skipped 3) (a := ()) _ rfl

/-- The first bytes are read, and what follows is left to the format version. -/
lemma deserializeDentry_accepts {owner : LocalOwner} {initial received : DiskMetaData}
    {formatVersion : BitVec 8}
    (hcomp : checkFeatureFlagsCompat data.dentryDiskData.dentryFeatureFlags
      getSupportedDentryFeatureFlags = true)
    (hmirr : data.dentryDiskData.dentryFeatureFlags &&& DentryStoreData.mirrored = 0)
    (metaDataType : DiskMetaDataType)
    (hver : (deserializeDentryVersion (m := Grammar Byte) owner formatVersion
      (data.receivedHeader initial)).accepts received (data.versionBytes pattern formatVersion)) :
    (deserializeDentry (m := Grammar Byte) owner initial).accepts received
      (data.dentryBytes pattern metaDataType formatVersion) := by
  rw [dentryBytes, headerBytes]
  simp only [append_assoc]
  refine accepts_bind rfl (accepts_bind rfl (accepts_bind rfl (accepts_unless hcomp ?_)))
  exact accepts_bind rfl (accepts_bind
    (readDentryPadding_accepts (data.receivedHeader initial).dentryDiskData hmirr) hver)

/-! ## The current format -/

/-- What is read of a file in the current format. -/
def receivedV6 (data : DiskMetaData) (decoded : StripePattern) (owner : LocalOwner)
    (initial : DiskMetaData) : DiskMetaData :=
  setOwner owner .true
    { dentryDiskData :=
        { (data.receivedHeader initial).dentryDiskData with entryID := data.dentryDiskData.entryID }
      inodeData := data.receivedInode decoded initial.inodeData }

lemma deserializeDentry_accepts_V6 (owner : LocalOwner) (initial : DiskMetaData)
    (metaDataType : DiskMetaDataType) (h : data.Readable)
    (hcomp : checkFeatureFlagsCompat data.inodeData.inodeFeatureFlags
      getSupportedDentryV5FileInodeFeatureFlags = true)
    (hchunk : pattern.getChunkSize ≠ 0) :
    (deserializeDentry (m := Grammar Byte) owner initial).accepts
      (data.receivedV6 pattern.received owner initial)
      (data.dentryBytes pattern metaDataType 6) := by
  refine deserializeDentry_accepts h.dentry_compat h.dentry_not_mirrored metaDataType ?_
  have hstat := StatData.serializeFmt_accepts .fileInode data.inodeData.inodeStatData
    (data.receivedState initial.inodeData).inodeStatData
  refine accepts_map _ (accepts_bind rfl (accepts_unless hcomp ?_))
  refine accepts_bind (data.readFileState_accepts initial.inodeData) (accepts_bind hstat ?_)
  rw [← append_assoc]
  refine accepts_bind (readOrigParent_accepts rfl h.length_origParentEntryID)
    (accepts_bind (readEntryID_accepts _ h.length_entryID) ?_)
  exact accepts_map _ (readInodeTail_accepts _ h.not_mirrored (format_accepts hchunk _))

lemma received_of_hasPoolId (hpool : pattern.header.hasPoolId = true)
    (hchunk : pattern.getChunkSize ≠ 0) : pattern.received = pattern := by
  obtain ⟨⟨type, chunkSize, _, hasPoolId⟩, content, htype⟩ := pattern
  obtain rfl : type = content.type := htype
  obtain rfl : hasPoolId = true := hpool
  have hchk' : (if chunkSize = 0 then stripePatternDefaultChunkSize else chunkSize) = chunkSize :=
    if_neg hchunk
  rw [StripePattern.mk.injEq, StripePatternHeader.mk.injEq]
  exact ⟨⟨rfl, hchk', rfl, rfl⟩, rfl⟩

/-- A file whose inode is stored in the current format, where `pattern` is the stripe pattern of
the inode. -/
structure CurrentFormat (data : DiskMetaData) (pattern : StripePattern) : Prop where
  origFeature_eq : data.inodeData.origFeature = .true
  compat : checkFeatureFlagsCompat data.inodeData.inodeFeatureFlags
    getSupportedDentryV5FileInodeFeatureFlags = true
  not_mirrored : data.inodeData.inodeFeatureFlags &&& FileInodeStoreData.mirrored = 0
  hasVersions : data.inodeData.inodeFeatureFlags &&& FileInodeStoreData.hasVersions ≠ 0
  hasStateFlags_iff : data.inodeData.inodeFeatureFlags &&& hasStateFlags ≠ 0 ↔
    data.inodeData.rawFileState ≠ 0
  hasOrigUID : data.inodeData.origParentUID ≠
      data.inodeData.inodeStatData.settableFileAttribs.userID →
    data.inodeData.inodeFeatureFlags &&& FileInodeStoreData.hasOrigUID ≠ 0
  stripePattern_eq : data.inodeData.stripePattern = some pattern
  hasPoolId : pattern.header.hasPoolId = true
  /-- The constructor of a pattern replaces a chunk size of zero. -/
  chunkSize_ne : pattern.getChunkSize ≠ 0
  dentry_compat : checkFeatureFlagsCompat data.dentryDiskData.dentryFeatureFlags
    getSupportedDentryFeatureFlags = true
  dentry_not_mirrored : data.dentryDiskData.dentryFeatureFlags &&& DentryStoreData.mirrored = 0

/-- The same file was read.  The numbers of blocks are stored for sparse files only, the original
parent is stored only if the flag says so. -/
structure SameFile (data decoded : DiskMetaData) : Prop where
  inodeFeatureFlags_eq : decoded.inodeData.inodeFeatureFlags = data.inodeData.inodeFeatureFlags
  fileState_eq : decoded.inodeData.getFileState = data.inodeData.getFileState
  statData_eq : decoded.inodeData.inodeStatData =
    { data.inodeData.inodeStatData with
      chunkBlocksVec := decoded.inodeData.inodeStatData.chunkBlocksVec }
  chunkBlocksVec_eq : data.inodeData.inodeStatData.getIsSparseFile = true →
    decoded.inodeData.inodeStatData.chunkBlocksVec = data.inodeData.inodeStatData.chunkBlocksVec
  origFeature_eq : decoded.inodeData.origFeature = data.inodeData.origFeature
  origParentUID_eq : decoded.inodeData.origParentUID = data.inodeData.origParentUID
  origParentEntryID_eq :
    data.inodeData.inodeFeatureFlags &&& hasOrigParentID ≠ 0 →
      decoded.inodeData.origParentEntryID = data.inodeData.origParentEntryID
  entryID_eq : decoded.dentryDiskData.entryID = data.dentryDiskData.entryID
  inode_entryID_eq : decoded.inodeData.entryID = data.dentryDiskData.entryID
  stripePattern_eq : decoded.inodeData.stripePattern = data.inodeData.stripePattern
  fileVersion_eq : decoded.inodeData.fileVersion = data.inodeData.fileVersion
  metaVersion_eq : decoded.inodeData.metaVersion = data.inodeData.metaVersion
  entryType_eq : decoded.dentryDiskData.entryType = data.dentryDiskData.entryType
  dentryFeatureFlags_eq : decoded.dentryDiskData.dentryFeatureFlags =
    data.dentryDiskData.dentryFeatureFlags

variable {initial : DiskMetaData}

/-- A file state that is not the default is read back with its flag. -/
lemma receivedState_eq (h : data.CurrentFormat pattern) (initial : FileInodeStoreData) :
    ∃ rawFileState, data.receivedState initial =
        { initial with inodeFeatureFlags := data.inodeData.inodeFeatureFlags, rawFileState } ∧
      (data.inodeData.inodeFeatureFlags &&& hasStateFlags ≠ 0 →
        rawFileState = data.inodeData.rawFileState) := by
  unfold receivedState
  by_cases hstate : data.inodeData.inodeFeatureFlags &&& hasStateFlags = 0
  · rw [if_neg (by rw [hstate]; decide)]
    exact ⟨initial.rawFileState, rfl, fun hne => absurd hstate hne⟩
  · have hraw : data.inodeData.rawFileState ≠ 0 := h.hasStateFlags_iff.mp hstate
    have hflags : data.inodeData.inodeFeatureFlags ||| hasStateFlags =
        data.inodeData.inodeFeatureFlags := Word.or_twoPow_eq_self (k := 9) hstate
    refine ⟨data.inodeData.rawFileState, ?_, fun _ => rfl⟩
    rw [if_pos (bne_iff_ne.mpr hstate), getFileState, if_neg hstate,
      FileInodeStoreData.setFileState, if_neg hraw, addInodeFeatureFlag]
    rw [hflags]

lemma sameFile_receivedV6 (h : data.CurrentFormat pattern) (owner : LocalOwner)
    (initial : DiskMetaData) : SameFile data (data.receivedV6 pattern owner initial) := by
  obtain ⟨rawFileState, hstate, hraw⟩ := receivedState_eq h initial.inodeData
  have hflags : data.inodeData.inodeFeatureFlags ||| FileInodeStoreData.hasVersions =
      data.inodeData.inodeFeatureFlags := Word.or_twoPow_eq_self (k := 7) h.hasVersions
  have hver : ∀ version initial, data.receivedVersion version initial = version := by
    intro version initial
    rw [receivedVersion, if_pos (bne_iff_ne.mpr h.hasVersions)]
  have hinode : (data.receivedV6 pattern owner initial).inodeData.inodeFeatureFlags =
      data.inodeData.inodeFeatureFlags := by
    rw [← hflags]
    show (data.receivedState initial.inodeData).inodeFeatureFlags ||| _ = _
    rw [hstate]
  refine ⟨hinode, ?_, ?_, ?_, h.origFeature_eq.symm, ?_, ?_, rfl, rfl, h.stripePattern_eq.symm,
    hver _ _, hver _ _, rfl, rfl⟩
  · unfold getFileState
    rw [hinode]
    split
    · rfl
    next hne =>
      rw [← hraw hne]
      show (data.receivedState initial.inodeData).rawFileState = _
      rw [hstate]
  · rfl
  · intro hspar
    show (if (true && data.inodeData.inodeStatData.getIsSparseFile) = true then _ else _) = _
    rw [hspar]
    rfl
  · show data.receivedOrigUID = _
    rw [receivedOrigUID]
    split
    · rfl
    next hflag =>
      by_contra hne
      exact hflag (bne_iff_ne.mpr (h.hasOrigUID (Ne.symm hne)))
  · intro hflag
    show data.receivedOrigParentEntryID _ = _
    rw [receivedOrigParentEntryID, if_pos (bne_iff_ne.mpr hflag)]

lemma length_entryID_lt (data : DiskMetaData) (pattern : StripePattern) :
    data.dentryDiskData.entryID.length + 1 < (data.bytesV6 pattern).length := by
  have h := length_lt_length_stringBytes 4 data.dentryDiskData.entryID
  simp only [bytesV6, tailBytes, length_append]
  omega

lemma length_origParentEntryID_lt (pattern : StripePattern)
    (h : data.inodeData.inodeFeatureFlags &&& hasOrigParentID != 0) :
    data.inodeData.origParentEntryID.length + 1 < (data.bytesV6 pattern).length := by
  have hlen := length_lt_length_stringBytes 4 data.inodeData.origParentEntryID
  have hbytes : data.origParentEntryIDBytes = stringBytes 4 data.inodeData.origParentEntryID :=
    if_pos h
  simp only [bytesV6, hbytes, length_append]
  omega

/-- In a buffer with room for the strings, they are written completely. -/
lemma dentryBytes_shorten {metaDataType : DiskMetaDataType}
    (h : (data.dentryBytes pattern metaDataType 6).length < 2 ^ 32) :
    data.shorten.dentryBytes pattern metaDataType 6 = data.dentryBytes pattern metaDataType 6 := by
  have hle : (data.bytesV6 pattern).length ≤ (data.dentryBytes pattern metaDataType 6).length := by
    rw [dentryBytes, length_append]
    exact Nat.le_add_left _ _
  have hid : data.dentryDiskData.entryID.length < 2 ^ 32 := by
    have := data.length_entryID_lt pattern
    omega
  have htail : data.shorten.tailBytes pattern = data.tailBytes pattern := by
    show stringBytes 4 (shortened data.dentryDiskData.entryID) ++ _ = _
    rw [shortened_of_lt hid]
    rfl
  have horig : data.shorten.origParentEntryIDBytes = data.origParentEntryIDBytes := by
    refine ite_congr rfl (fun hflag => congrArg (stringBytes 4) (shortened_of_lt ?_)) fun _ => rfl
    have := length_origParentEntryID_lt pattern hflag
    omega
  show data.headerBytes metaDataType 6 ++ data.shorten.bytesV6 pattern = _
  rw [bytesV6, htail, horig]
  rfl

lemma CurrentFormat.readable (h : data.CurrentFormat pattern)
    (hlen : (data.bytesV6 pattern).length < 2 ^ 32) : data.Readable where
  not_mirrored := h.not_mirrored
  dentry_not_mirrored := h.dentry_not_mirrored
  dentry_compat := h.dentry_compat
  length_entryID := lt_trans (data.length_entryID_lt pattern) hlen
  length_origParentEntryID hflag := lt_trans (length_origParentEntryID_lt pattern hflag) hlen

lemma CurrentFormat.written (h : data.CurrentFormat pattern) (writer : FileWriter) :
    (writer.written data).CurrentFormat pattern := by
  have hinode := writer.inodeData_written data
  have hflags := writer.dentryFeatureFlags_written data
  generalize writer.written data = written at hinode hflags ⊢
  obtain ⟨_, inode⟩ := written
  obtain rfl : inode = data.inodeData := hinode
  refine { h with dentry_compat := ?_, dentry_not_mirrored := ?_ }
  · rw [hflags]
    exact compat_or h.dentry_compat (by decide)
  · rw [hflags, Word.or_and_of_disjoint (by decide)]
    exact h.dentry_not_mirrored

lemma dentryBytes_ne_nil (data : DiskMetaData) (pattern : StripePattern)
    (metaDataType : DiskMetaDataType) (formatVersion : BitVec 8) :
    data.dentryBytes pattern metaDataType formatVersion ≠ [] := by
  rw [dentryBytes, headerBytes]
  simp

/-- The file is written to the buffer at an offset, what was written is read as the same file, and
exactly the bytes that were written are read. -/
def RoundTrip (writer : FileWriter) (data : DiskMetaData) (mem : ℕ → Byte)
    (size offset : BitVec 32) (owner : LocalOwner) (initial : DiskMetaData) : Prop :=
  ∃ ser mem', writer.serialize data ⟨some mem, size, offset⟩ = some (writer.written data, ser) ∧
    ser.good = true ∧ ser.buffer = some mem' ∧ ∀ n, ser.bufferOffset ≤ n → ∃ decoded,
      deserializeDentry (m := DesM) owner initial (ofMemory mem' n offset) =
        .ok (decoded, ofMemory mem' n ser.bufferOffset) ∧ SameFile (writer.written data) decoded

/-- A file in the current format that is written, by `serializeDentry` with its inode inlined or by
`serializeFileInode`, is read back, if there is room for its bytes in the buffer. -/
theorem roundTrip_of_currentFormat (writer : FileWriter) (data : DiskMetaData)
    (pattern : StripePattern) (h : data.CurrentFormat pattern) (hinline : writer = .dentry →
      data.dentryDiskData.dentryFeatureFlags &&& inodeInline ≠ 0)
    (htype : (writer.prepare data).dentryDiskData.entryType ≠ DirEntryType.directory)
    (mem : ℕ → Byte) (size offset : BitVec 32)
    (hfits : Fits ⟨some mem, size, offset⟩ (writer.bytes data pattern).length)
    (owner : LocalOwner) (initial : DiskMetaData) :
    RoundTrip writer data mem size offset owner initial := by
  have hcur := h.written writer
  -- a file with information about the original parent is written in the current format
  have hver : writer.formatVersion data = 6 := by
    rw [writer.formatVersion_eq, if_neg htype, if_pos h.origFeature_eq]
    split
    next hzero => exact if_neg fun hdentry => hinline hdentry hzero
    next => rfl
  obtain ⟨put, hput, hbytes⟩ := writer.exists_serialize h.stripePattern_eq
  rw [FileWriter.bytes, hver] at hfits
  rw [hver] at hbytes
  unfold RoundTrip
  generalize writer.written data = written at *
  generalize writer.metaDataType data = metaDataType at *
  have hlt : (written.dentryBytes pattern metaDataType 6).length < 2 ^ 32 :=
    lt_of_le_of_lt (le_trans (Nat.le_add_left _ _) hfits.2) size.isLt
  rw [dentryBytes_shorten hlt] at hbytes
  have hlt' : (written.bytesV6 pattern).length < 2 ^ 32 := by
    rw [dentryBytes, length_append] at hlt
    exact lt_of_le_of_lt (Nat.le_add_left _ _) hlt
  have hreadable := hcur.readable hlt'
  have hacc := deserializeDentry_accepts_V6 owner initial metaDataType hreadable
    hcur.compat h.chunkSize_ne
  rw [received_of_hasPoolId h.hasPoolId h.chunkSize_ne] at hacc
  have hne := written.dentryBytes_ne_nil pattern metaDataType 6
  have hser := hbytes.eq_append _ mem rfl hfits
  have hgood : (put ⟨some mem, size, offset⟩).good = true := by
    rw [hser, Serializer.good_iff, fits_append_iff hfits]
    exact hfits
  have hbuf := congrArg Serializer.buffer hser
  refine ⟨_, _, hput _, hgood, hbuf, fun n hn => ⟨_, ?_, sameFile_receivedV6 hcur owner initial⟩⟩
  obtain ⟨_, hmem', hread⟩ := hbytes.read (reads_deserializeDentry owner initial) hacc hne hgood hn
  obtain rfl := Option.some.inj (hbuf.symm.trans hmem')
  exact hread

/-- A sparse file that was moved to another directory, given to another user and locked. -/
def movedFile : DiskMetaData where
  dentryDiskData :=
    { entryID := [65, 45, 49]
      entryType := 2
      ownerNodeID := 3
      dentryFeatureFlags := inodeInline }
  inodeData :=
    { inodeFeatureFlags :=
        hasOrigParentID ||| FileInodeStoreData.hasOrigUID |||
          FileInodeStoreData.hasVersions ||| hasStateFlags
      inodeStatData :=
        { flags := statDataFeatureSparseFile
          fileSize := 70000
          creationTimeSecs := 1
          attribChangeTimeSecs := 4
          nlink := 1
          settableFileAttribs :=
            { mode := 0o100644
              userID := 1000
              groupID := 100
              modificationTimeSecs := 3
              lastAccessTimeSecs := 2 }
          metaVersion := 5
          chunkBlocksVec := [8, 0, 16] }
      entryID := [65, 45, 49]
      stripePattern := some threeGroups
      origFeature := .true
      origParentUID := 0
      origParentEntryID := [114, 111, 111, 116]
      fileVersion := 7
      metaVersion := 5
      rawFileState := 2 }

theorem roundTrip_movedFile : RoundTrip .dentry movedFile (fun _ => 0) 4096 0 ⟨1, 2⟩ movedFile :=
  roundTrip_of_currentFormat .dentry movedFile threeGroups
    ⟨rfl, by decide, by decide, by decide, by decide, by decide, rfl, rfl, by decide, by decide,
      by decide⟩
    (fun _ => by decide) (by decide) (fun _ => 0) 4096 0 ⟨by decide, by decide +kernel⟩
    ⟨1, 2⟩ movedFile

end DiskMetaData

end Beegfs
