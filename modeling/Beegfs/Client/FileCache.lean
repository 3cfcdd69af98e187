import Beegfs.Lib.Bytes
import Beegfs.Lib.FileContents

/-!
# The file cache of the client

The client keeps at most one cache buffer per inode.  The buffer holds either data that was read
ahead, or data of writes that were not sent to the servers yet; the latter starts at an offset of
the file or is to be appended.  `writeCached` and `readCached` use and switch this buffer,
`flushCacheUnlocked` sends it away.  The servers are a `RemoteStore`, whose operations may fail; the
error paths of the cache are kept.  Offsets (`loff_t`) are integers, with `-1` for appending; sizes
(`size_t`) are natural numbers.
-/

namespace Beegfs

/-- Error codes of the client; those that the cache returns by itself have a name. -/
inductive FhgfsOpsErr
  /-- `FhgfsOpsErr_NOSPACE` -/
  | noSpace
  /-- `FhgfsOpsErr_ADDRESSFAULT` -/
  | addressFault
  /-- Any other error, as a server or the kernel returned it. -/
  | other (code : ℕ)
  deriving DecidableEq, Repr

/-- The operations on the servers that the cache uses.  An `ssize_t` result is an error or a number
of bytes. -/
structure RemoteStore (σ : Type*) where
  /-- `FhgfsOpsHelper_getAppendLock`. -/
  getAppendLock : σ → Except FhgfsOpsErr Unit
  /-- The file size of `FhgfsOpsRemoting_statDirect`. -/
  statDirect : σ → Except FhgfsOpsErr ℕ
  /-- `FhgfsOpsRemoting_writefileVec` and `FhgfsOpsRemoting_writefile_kernel`. -/
  writefile : σ → ℕ → List Byte → Except FhgfsOpsErr ℕ × σ
  /-- `FhgfsOpsRemoting_readfileVec` and `FhgfsOpsRemoting_readfile_kernel`: the bytes read for a
  size and an offset. -/
  readfile : σ → ℕ → ℕ → Except FhgfsOpsErr (List Byte)
  /-- `FhgfsInode_referenceHandle`. -/
  referenceHandle : σ → Except FhgfsOpsErr Unit
  /-- `FhgfsInode_releaseHandle`. -/
  releaseHandle : σ → Except FhgfsOpsErr Unit

/-! ## State -/

/-- `FileBufferType`. -/
inductive FileBufferType
  | none
  | read
  | write
  deriving DecidableEq, Repr

/-- `CacheBuffer`.  While no buffer is attached, only `buf` and `bufType` have been initialized. -/
structure CacheBuffer where
  /-- The attached buffer, with all of its bytes. -/
  buf : Option (List Byte)
  /-- How much of the buffer is used up. -/
  bufUsageLen : ℕ
  /-- How much of the buffer may be used. -/
  bufUsageMaxLen : ℕ
  /-- The file offset where the buffer starts, `-1` for append. -/
  fileOffset : ℤ
  bufType : FileBufferType
  deriving DecidableEq, Repr

/-- The parts of `FhgfsInode` that the cache uses, and the file on the servers. -/
structure FhgfsInode (σ : Type*) where
  remote : σ
  fileCacheBuffer : CacheBuffer
  /-- `beegfs_hasMappings`: the file is mapped into memory. -/
  hasMappings : Bool

/-- The parts of `FsFileInfo`, the information about an open file, that the cache uses. -/
structure FsFileInfo where
  cacheHits : ℤ
  allowCaching : Bool
  lastReadOffset : ℤ
  lastWriteOffset : ℤ
  deriving DecidableEq, Repr

namespace FsFileInfo

/-- `FSFILEINFO_CACHE_HITS_THRESHOLD`. -/
def cacheHitsThreshold : ℤ := 5

/-- `FSFILEINFO_CACHE_MISS_THRESHOLD`. -/
def cacheMissThreshold : ℤ := -5

/-- `FSFILEINFO_CACHE_SLOWSTART_READLEN`. -/
def cacheSlowstartReadLen : ℕ := 64 * 1024

def incCacheHits (fileInfo : FsFileInfo) : FsFileInfo :=
  if fileInfo.cacheHits < cacheHitsThreshold then
    { fileInfo with cacheHits := fileInfo.cacheHits + 1 }
  else fileInfo

def decCacheHits (fileInfo : FsFileInfo) : FsFileInfo :=
  if fileInfo.cacheHits > cacheMissThreshold then
    { fileInfo with cacheHits := fileInfo.cacheHits - 1 }
  else fileInfo

end FsFileInfo

/-- The configuration of the client. -/
structure App where
  tuneCoherentBuffers : Bool
  /-- `NoAllocBufferStore_getBufSize` of the store of cache buffers. -/
  bufSize : ℕ

/-- What a call finds around it besides the inode. -/
structure CallEnv (app : App) where
  /-- The chunk size of the stripe pattern of the file. -/
  chunkSize : ℕ
  /-- `FhgfsInode_getIsFileOpenByMultipleReaders`. -/
  isFileOpenByMultipleReaders : Bool
  /-- The result of `NoAllocBufferStore_instantBuf`: a buffer with any old contents, if one is
  available. -/
  instantBuf : Option {buf : List Byte // buf.length = app.bufSize}

/-- `StripePattern_getChunkEnd` of the client. -/
def getChunkEnd (chunkSize pos : ℕ) : ℕ := pos - (pos &&& (chunkSize - 1)) + chunkSize - 1

/-- The length of the rest of the chunk that an offset lies in. -/
def currentChunkSize (chunkSize offset : ℕ) : ℕ := getChunkEnd chunkSize offset - offset + 1

/-- The destination of a read: the bytes that were stored, and the room that is left. -/
structure ReadIter where
  room : ℕ
  out : List Byte
  deriving DecidableEq, Repr

namespace ReadIter

/-- Store bytes at the destination and advance it. -/
def push (iter : ReadIter) (bytes : List Byte) : ReadIter :=
  ⟨iter.room - bytes.length, iter.out ++ bytes⟩

/-- `copy_to_iter`: the number of copied bytes, and the advanced destination. -/
def copyToIter (iter : ReadIter) (src : List Byte) (size : ℕ) : ℕ × ReadIter :=
  (min size iter.room, iter.push (src.take (min size iter.room)))

end ReadIter

section Ops

variable {σ : Type*} (store : RemoteStore σ) {app : App}

/-! ## Direct access -/

/-- `FhgfsOpsHelper_appendfileVecOffset` with offset 0 from the end: write at the size that the
servers report, under the append lock. -/
def appendfileVecOffset (iter : List Byte) (remote : σ) : Except FhgfsOpsErr ℕ × σ :=
  match store.getAppendLock remote with
  | .error lockRes => (.error lockRes, remote)
  | .ok _ =>
    match store.statDirect remote with
    | .error statRes => (.error statRes, remote)
    | .ok size => store.writefile remote size iter

/-- `FhgfsOpsHelper_writefileEx` and `FhgfsOpsHelper_writefileEx_kernel`. -/
def writefileEx (iter : List Byte) (offset : ℤ) (remote : σ) : Except FhgfsOpsErr ℕ × σ :=
  if offset = -1 then appendfileVecOffset store iter remote
  else store.writefile remote offset.toNat iter

/-- `FhgfsOpsHelper_writeStatelessInode`. -/
def writeStatelessInode (bytes : List Byte) (offset : ℤ) (remote : σ) : Except FhgfsOpsErr ℕ × σ :=
  match store.referenceHandle remote with
  | .error referenceRes => (.error referenceRes, remote)
  | .ok _ =>
    match writefileEx store bytes offset remote with
    | (.error writeRes, remote) => (.error writeRes, remote)
    | (.ok writeRes, remote) =>
      match store.releaseHandle remote with
      | .error releaseRes => (.error releaseRes, remote)
      | .ok _ => (.ok writeRes, remote)

/-- `FhgfsOpsRemoting_readfileVec`: the number of bytes read, and the advanced destination. -/
def readfileVec (iter : ReadIter) (size offset : ℕ) (remote : σ) :
    Except FhgfsOpsErr ℕ × ReadIter :=
  match store.readfile remote (min size iter.room) offset with
  | .error readRes => (.error readRes, iter)
  | .ok bytes => (.ok bytes.length, iter.push bytes)

/-! ## Releasing the buffer -/

variable (inode : FhgfsInode σ)

/-- `__FhgfsOpsHelper_discardCache`: return the buffer to the store. -/
def discardCache : FhgfsInode σ :=
  { inode with fileCacheBuffer := { inode.fileCacheBuffer with buf := .none, bufType := .none } }

/-- `__FhgfsOpsHelper_flushCacheUnlocked`.  A remote write of no byte at all is reported as success,
with the buffer still attached. -/
def flushCacheUnlocked (discardCacheOnError : Bool) : Except FhgfsOpsErr Unit × FhgfsInode σ :=
  let cacheBuffer := inode.fileCacheBuffer
  match cacheBuffer.bufType with
  | .none => (.ok (), inode)
  | .read => (.ok (), discardCache inode)
  | .write =>
    let bytes := (cacheBuffer.buf.getD []).take cacheBuffer.bufUsageLen
    match writeStatelessInode store bytes cacheBuffer.fileOffset inode.remote with
    | (.error writeRes, remote) =>
      let inode := { inode with remote := remote }
      (.error writeRes, if discardCacheOnError then discardCache inode else inode)
    | (.ok writeRes, remote) =>
      let inode := { inode with remote := remote }
      if writeRes < cacheBuffer.bufUsageLen then
        (if writeRes > 0 then .error .noSpace else .ok (),
          if discardCacheOnError then discardCache inode else inode)
      else (.ok (), discardCache inode)

/-- `FhgfsOpsHelper_flushCache`, which takes the cache lock around the flush. -/
def flushCache (discardCacheOnError : Bool) : Except FhgfsOpsErr Unit × FhgfsInode σ :=
  flushCacheUnlocked store inode discardCacheOnError

/-! ## Writing -/

/-- A write to the servers, past the cache. -/
def writeThrough (iter : List Byte) (offset : ℤ) (inode : FhgfsInode σ) :
    Except FhgfsOpsErr ℕ × FhgfsInode σ :=
  let res := writefileEx store iter offset inode.remote
  (res.1, { inode with remote := res.2 })

variable (env : CallEnv app)

/-- `__FhgfsOpsHelper_writeCacheFlushed`: cache the data in a new buffer, or write through. -/
def writeCacheFlushed (iter : List Byte) (size : ℕ) (offset : ℤ)
    (fileInfo : FsFileInfo) (inode : FhgfsInode σ) : Except FhgfsOpsErr ℕ × FhgfsInode σ :=
  if !fileInfo.allowCaching || (offset ≠ -1 ∧ fileInfo.cacheHits ≤ 0) then
    writeThrough store iter offset inode
  else
    let maxCacheLen :=
      if offset = -1 then app.bufSize
      else min (currentChunkSize env.chunkSize offset.toNat) app.bufSize
    if size ≥ maxCacheLen then writeThrough store iter offset inode
    else
      match env.instantBuf with
      | .none =>
        writeThrough store iter offset
          { inode with fileCacheBuffer := { inode.fileCacheBuffer with buf := .none } }
      | .some ⟨buf, _⟩ =>
        let copied := iter.take size
        if copied.length ≠ size then
          -- the buffer goes back to the store at once
          (.error .addressFault, discardCache inode)
        else
          (.ok size,
            { inode with fileCacheBuffer :=
                ⟨.some (copied ++ buf.drop size), size, maxCacheLen, offset, .write⟩ })

/-- The guess of `writeCached` whether a write would have hit a buffer, when there is none. -/
def guessWriteHit (app : App) (offset : ℤ) (fileInfo : FsFileInfo) : FsFileInfo :=
  if offset = -1 then fileInfo.incCacheHits
  else
    let virtualCacheStart := fileInfo.lastWriteOffset
    let virtualCacheEnd := virtualCacheStart + app.bufSize - 1
    if offset ≥ virtualCacheStart ∧ offset ≤ virtualCacheEnd then fileInfo.incCacheHits
    else fileInfo.decCacheHits

/-- `writeCached` of an inode with a write buffer that the data fits behind. -/
def extendWriteCache (iter : List Byte) (size : ℕ) (inode : FhgfsInode σ) :
    Except FhgfsOpsErr ℕ × FhgfsInode σ :=
  let cacheBuffer := inode.fileCacheBuffer
  let buf := cacheBuffer.buf.getD []
  let copied := iter.take size
  let newBuf := buf.take cacheBuffer.bufUsageLen ++ copied ++
    buf.drop (cacheBuffer.bufUsageLen + copied.length)
  let inode := { inode with fileCacheBuffer := { cacheBuffer with buf := .some newBuf } }
  if copied.length ≠ size then (.error .addressFault, inode)
  else
    let inode := { inode with fileCacheBuffer :=
      { inode.fileCacheBuffer with bufUsageLen := cacheBuffer.bufUsageLen + size } }
    if cacheBuffer.bufUsageMaxLen - (cacheBuffer.bufUsageLen + size) = 0 then
      -- the buffer is used up
      match flushCacheUnlocked store inode false with
      | (.error flushRes, inode) => (.error flushRes, inode)
      | (.ok _, inode) => (.ok size, inode)
    else (.ok size, inode)

/-- `FhgfsOpsHelper_writeCached`; the offset is `-1` for an append.  The result is the number of
written bytes, the file information with the updated hit counter, and the inode. -/
def writeCached (iter : List Byte) (size : ℕ) (offset : ℤ)
    (fileInfo : FsFileInfo) (inode : FhgfsInode σ) :
    Except FhgfsOpsErr ℕ × FsFileInfo × FhgfsInode σ :=
  if app.tuneCoherentBuffers && inode.hasMappings then
    let (res, inode) := writeThrough store iter offset inode
    (res, fileInfo.decCacheHits, inode)
  else
    let cacheBuffer := inode.fileCacheBuffer
    match cacheBuffer.bufType with
    | .none =>
      let fileInfo := guessWriteHit app offset fileInfo
      let (res, inode) := writeCacheFlushed store env iter size offset fileInfo inode
      (res, fileInfo, inode)
    | .read =>
      let fileInfo := fileInfo.decCacheHits
      let (res, inode) :=
        writeCacheFlushed store env iter size offset fileInfo (discardCache inode)
      (res, fileInfo, inode)
    | .write =>
      let currentCacheEndOffset := cacheBuffer.fileOffset + cacheBuffer.bufUsageLen
      let bufLenLeft := cacheBuffer.bufUsageMaxLen - cacheBuffer.bufUsageLen
      if ¬(offset = -1 ↔ cacheBuffer.fileOffset = -1) ∨
          (offset ≠ -1 ∧ offset ≠ currentCacheEndOffset) ∨ size > bufLenLeft then
        let fileInfo := fileInfo.decCacheHits
        match flushCacheUnlocked store inode false with
        | (.error flushRes, inode) => (.error flushRes, fileInfo, inode)
        | (.ok _, inode) =>
          let (res, inode) := writeCacheFlushed store env iter size offset fileInfo inode
          (res, fileInfo, inode)
      else
        let (res, inode) := extendWriteCache store iter size inode
        (res, fileInfo.incCacheHits, inode)

/-! ## Reading -/

/-- `__FhgfsOpsHelper_readCacheFlushed` with a new buffer: read as much as possible into the buffer,
and copy from there. -/
def readAhead (buf : List Byte) (maxCacheLen : ℕ) (iter : ReadIter) (size offset : ℕ)
    (inode : FhgfsInode σ) : Except FhgfsOpsErr ℕ × ReadIter × FhgfsInode σ :=
  match store.readfile inode.remote maxCacheLen offset with
  | .error readRes => (.error readRes, iter, discardCache inode)
  | .ok bytes =>
    if bytes.length = 0 then (.ok 0, iter, discardCache inode)
    else
      let newBuf := bytes ++ buf.drop bytes.length
      let numIterCopy := min size bytes.length
      let (numCopied, iter) := iter.copyToIter newBuf numIterCopy
      if numCopied ≠ numIterCopy then (.error .addressFault, iter, discardCache inode)
      else
        (.ok numIterCopy, iter,
          { inode with fileCacheBuffer :=
              ⟨.some newBuf, bytes.length, maxCacheLen, offset, .read⟩ })

/-- `__FhgfsOpsHelper_readCacheFlushed`: read ahead into a new buffer, or read directly. -/
def readCacheFlushed (iter : ReadIter) (size offset : ℕ)
    (fileInfo : FsFileInfo) (inode : FhgfsInode σ) :
    Except FhgfsOpsErr ℕ × ReadIter × FhgfsInode σ :=
  let readDirect (inode : FhgfsInode σ) :=
    let (res, iter) := readfileVec store iter size offset inode.remote
    (res, iter, inode)
  if !fileInfo.allowCaching || fileInfo.cacheHits ≤ 0 || env.isFileOpenByMultipleReaders then
    readDirect inode
  else
    let maxCacheLen := min (currentChunkSize env.chunkSize offset) app.bufSize
    if size ≥ maxCacheLen then readDirect inode
    else
      match env.instantBuf with
      | .none => readDirect { inode with fileCacheBuffer :=
          { inode.fileCacheBuffer with buf := .none } }
      | .some ⟨buf, _⟩ =>
        -- less read-ahead for small reads at the start of the file
        let maxCacheLen :=
          if offset = 0 ∧ size < FsFileInfo.cacheSlowstartReadLen then
            FsFileInfo.cacheSlowstartReadLen
          else maxCacheLen
        readAhead store buf maxCacheLen iter size offset inode

/-- The guess of `readCached` whether a read would have hit a buffer, when there is none. -/
def guessReadHit (app : App) (size offset : ℕ) (fileInfo : FsFileInfo) : FsFileInfo :=
  let readEndOffset : ℤ := offset + size - 1
  let virtualCacheStart := fileInfo.lastReadOffset
  let virtualCacheEnd := virtualCacheStart + app.bufSize - 1
  if virtualCacheEnd ≥ offset ∧ virtualCacheStart ≤ readEndOffset then fileInfo.incCacheHits
  else fileInfo.decCacheHits

/-- `readCached` of an inode with a read buffer, from where the buffer overlaps the range that is
read: copy from the buffer, and read what lies behind it.  `remoteReadSize` bytes from before the
buffer are at the destination already. -/
def copyFromReadCache (iter : ReadIter) (size offset remoteReadSize : ℕ)
    (fileInfo : FsFileInfo) (inode : FhgfsInode σ) :
    Except FhgfsOpsErr ℕ × ReadIter × FhgfsInode σ :=
  let cacheBuffer := inode.fileCacheBuffer
  let readEndOffset : ℤ := offset + size - 1
  let cacheEndOffset : ℤ := cacheBuffer.fileOffset + cacheBuffer.bufUsageLen - 1
  let cacheCopyOffset : ℤ :=
    if offset ≤ cacheBuffer.fileOffset then 0 else offset - cacheBuffer.fileOffset
  let cacheCopySize : ℤ :=
    min (cacheBuffer.fileOffset + cacheBuffer.bufUsageLen) (offset + size) -
      (cacheBuffer.fileOffset + cacheCopyOffset)
  let (numCopied, iter) := iter.copyToIter
    ((cacheBuffer.buf.getD []).drop cacheCopyOffset.toNat) cacheCopySize.toNat
  if numCopied ≠ cacheCopySize.toNat then (.error .addressFault, iter, inode)
  else if readEndOffset > cacheEndOffset then
    -- there is a remainder behind the buffer, which is given up to allow new caching
    let remainderFileOffset := cacheEndOffset + 1
    let remainderSize := readEndOffset - cacheEndOffset
    match readCacheFlushed store env iter remainderSize.toNat remainderFileOffset.toNat fileInfo
      (discardCache inode) with
    | (.error remainderRes, iter, inode) => (.error remainderRes, iter, inode)
    | (.ok remainderRes, iter, inode) =>
      (.ok (remoteReadSize + cacheCopySize.toNat + remainderRes), iter, inode)
  else (.ok size, iter, inode)

/-- `readCached` of an inode with a read buffer that overlaps the range that is read. -/
def readOverlapping (iter : ReadIter) (size offset : ℕ)
    (fileInfo : FsFileInfo) (inode : FhgfsInode σ) :
    Except FhgfsOpsErr ℕ × ReadIter × FhgfsInode σ :=
  if offset < inode.fileCacheBuffer.fileOffset then
    -- the range begins before the buffer
    let remoteReadSize := (inode.fileCacheBuffer.fileOffset - offset).toNat
    match readfileVec store iter remoteReadSize offset inode.remote with
    | (.error readRes, iter) => (.error readRes, iter, discardCache inode)
    | (.ok readRes, iter) =>
      if readRes < remoteReadSize then (.ok readRes, iter, discardCache inode)
      else copyFromReadCache store env iter size offset remoteReadSize fileInfo inode
  else copyFromReadCache store env iter size offset 0 fileInfo inode

/-- `FhgfsOpsHelper_readCached`.  The result is the number of bytes read, the file information with
the updated hit counter, the advanced destination, and the inode. -/
def readCached (iter : ReadIter) (size offset : ℕ) (fileInfo : FsFileInfo)
    (inode : FhgfsInode σ) : Except FhgfsOpsErr ℕ × FsFileInfo × ReadIter × FhgfsInode σ :=
  let cacheBuffer := inode.fileCacheBuffer
  if app.tuneCoherentBuffers && inode.hasMappings then
    let (res, iter) := readfileVec store iter size offset inode.remote
    (res, fileInfo.decCacheHits, iter, inode)
  else if (env.isFileOpenByMultipleReaders || !fileInfo.allowCaching) &&
      cacheBuffer.bufType = .none then
    let (res, iter) := readfileVec store iter size offset inode.remote
    (res, fileInfo, iter, inode)
  else
    match cacheBuffer.bufType with
    | .none =>
      let fileInfo := guessReadHit app size offset fileInfo
      let (res, iter, inode) := readCacheFlushed store env iter size offset fileInfo inode
      (res, fileInfo, iter, inode)
    | .write =>
      let fileInfo := fileInfo.decCacheHits
      match flushCacheUnlocked store inode false with
      | (.error flushRes, inode) => (.error flushRes, fileInfo, iter, inode)
      | (.ok _, inode) =>
        let (res, iter, inode) := readCacheFlushed store env iter size offset fileInfo inode
        (res, fileInfo, iter, inode)
    | .read =>
      let readEndOffset : ℤ := offset + size - 1
      let cacheEndOffset : ℤ := cacheBuffer.fileOffset + cacheBuffer.bufUsageLen - 1
      if cacheEndOffset < offset ∨ cacheBuffer.fileOffset > readEndOffset then
        let fileInfo := fileInfo.decCacheHits
        match flushCacheUnlocked store inode false with
        | (.error flushRes, inode) => (.error flushRes, fileInfo, iter, inode)
        | (.ok _, inode) =>
          let (res, iter, inode) := readCacheFlushed store env iter size offset fileInfo inode
          (res, fileInfo, iter, inode)
      else
        let fileInfo := fileInfo.incCacheHits
        let (res, iter, inode) := readOverlapping store env iter size offset fileInfo inode
        (res, fileInfo, iter, inode)

end Ops

/-! ## Read-ahead and the size of the cache buffer

`__FhgfsOpsHelper_readCacheFlushed` bounds the length that it reads ahead by the cache buffer and by
the end of the chunk, and then replaces it by a constant for small reads at the start of the file.
The constant is not compared with the size of the buffer, which is configured without a check. -/

open FsFileInfo

variable {σ : Type*} (store : RemoteStore σ) {app : App} (env : CallEnv app) (size offset : ℕ)
  (fileInfo : FsFileInfo)

/-- `readCacheFlushed` reads into a cache buffer. -/
def ReadsAhead : Prop :=
  fileInfo.allowCaching = true ∧ 0 < fileInfo.cacheHits ∧ env.isFileOpenByMultipleReaders = false ∧
    size < min (currentChunkSize env.chunkSize offset) app.bufSize ∧ env.instantBuf.isSome

/-- The length that is read into the buffer. -/
def readAheadLen : ℕ :=
  if offset = 0 ∧ size < cacheSlowstartReadLen then cacheSlowstartReadLen
  else min (currentChunkSize env.chunkSize offset) app.bufSize

variable {env size offset fileInfo}

lemma le_getChunkEnd {chunkSize : ℕ} (h : 0 < chunkSize) (pos : ℕ) :
    pos ≤ getChunkEnd chunkSize pos := by
  have hle : pos &&& (chunkSize - 1) ≤ chunkSize - 1 := Nat.and_le_right
  rw [getChunkEnd]
  omega

variable (env size offset fileInfo)

/-- A buffer of 4 KiB for a file with chunks of 512 KiB. -/
def smallBufEnv : CallEnv ⟨false, 4096⟩ :=
  ⟨524288, false, some ⟨List.replicate 4096 0, List.length_replicate⟩⟩

end Beegfs
