import Beegfs.Client.FileCache
import Beegfs.Lib.Run

/-!
# The file cache is transparent

`completeStore` is a store that performs every read and write completely.  Over it, an inode with
its cache buffer represents a file: the one on the servers if there is no buffer or a buffer that
was read ahead, and the file after the pending write if there is a write buffer.  Every call does to
the represented file what the direct call does to a file, and returns the same.
-/

namespace Beegfs

open FileContents ReadIter List Option

/-! ## A complete store and direct access to it -/

/-- A store that performs every read and write completely; its state is the file. -/
def completeStore : RemoteStore (List Byte) where
  getAppendLock _ := .ok ()
  statDirect file := .ok file.length
  writefile file offset bytes := (.ok bytes.length, writeAt 0 file offset bytes)
  readfile file size offset := .ok (readAt file offset size)
  referenceHandle _ := .ok ()
  releaseHandle _ := .ok ()

/-- The file after a direct write at an offset, or at the end for the offset `-1`. -/
def directWrite (file : List Byte) (offset : ℤ) (bytes : List Byte) : List Byte :=
  if offset = -1 then writeAt 0 file file.length bytes else writeAt 0 file offset.toNat bytes

lemma writefileEx_completeStore (bytes : List Byte) (offset : ℤ) (file : List Byte) :
    writefileEx completeStore bytes offset file =
      (.ok bytes.length, directWrite file offset bytes) := by
  unfold writefileEx directWrite
  split_ifs <;> rfl

/-- The end of a file after a write behind its old end. -/
lemma length_writeAt_length (file bytes : List Byte) :
    (writeAt 0 file file.length bytes).length = file.length + bytes.length := by
  unfold writeAt
  split_ifs with h
  · simp [h]
  · simp

variable {bytes : List Byte} {offset : ℤ}

/-! ## The destination of a read -/

namespace ReadIter

variable (iter : ReadIter)

lemma push_nil : iter.push [] = iter := by
  simp [push]

lemma push_push (a b : List Byte) : (iter.push a).push b = iter.push (a ++ b) := by
  simp [push, Nat.sub_sub]

lemma copyToIter_of_le {src : List Byte} {size : ℕ} (h : size ≤ iter.room) :
    iter.copyToIter src size = (size, iter.push (src.take size)) := by
  rw [copyToIter, Nat.min_eq_left h]

end ReadIter

lemma readfileVec_completeStore {iter : ReadIter} {size : ℕ} (h : size ≤ iter.room) (offset : ℕ)
    (file : List Byte) :
    readfileVec completeStore iter size offset file =
      (.ok (readAt file offset size).length, iter.push (readAt file offset size)) := by
  simp [readfileVec, completeStore, Nat.min_eq_left h]

/-! ## The file that an inode represents -/

/-- The buffer is one of the store's, `bytes` is the used part of it, and no more is used than may
be. -/
structure Attached (app : App) (cacheBuffer : CacheBuffer) (bytes : List Byte) : Prop where
  buf_eq : ∃ rest, cacheBuffer.buf = some (bytes ++ rest) ∧ (bytes ++ rest).length = app.bufSize
  bufUsageLen_eq : cacheBuffer.bufUsageLen = bytes.length
  le_max : bytes.length ≤ cacheBuffer.bufUsageMaxLen
  max_le : cacheBuffer.bufUsageMaxLen ≤ app.bufSize

/-- The inode represents the file `file`.  A buffer is attached only while the file is not mapped
into memory, or while mappings are not taken care of. -/
inductive Represents (app : App) (inode : FhgfsInode (List Byte)) (file : List Byte) : Prop
  | noBuffer (htype : inode.fileCacheBuffer.bufType = .none) (hremote : inode.remote = file)
  | readBuffer (htype : inode.fileCacheBuffer.bufType = .read) (hremote : inode.remote = file)
      (hmap : (app.tuneCoherentBuffers && inode.hasMappings) = false) (bytes : List Byte)
      (hattached : Attached app inode.fileCacheBuffer bytes) (offset : ℕ)
      (hoffset : inode.fileCacheBuffer.fileOffset = offset)
      (hbytes : readAt file offset bytes.length = bytes)
  | writeBuffer (htype : inode.fileCacheBuffer.bufType = .write)
      (hmap : (app.tuneCoherentBuffers && inode.hasMappings) = false) (bytes : List Byte)
      (hattached : Attached app inode.fileCacheBuffer bytes)
      (hoffset : 0 ≤ inode.fileCacheBuffer.fileOffset ∨ inode.fileCacheBuffer.fileOffset = -1)
      (hfile : directWrite inode.remote inode.fileCacheBuffer.fileOffset bytes = file)

variable {app : App} {inode : FhgfsInode (List Byte)} {file : List Byte}

/-- `getD` and `take` get the used part out of the buffer. -/
lemma Attached.take_buf {cacheBuffer : CacheBuffer} (h : Attached app cacheBuffer bytes) :
    (cacheBuffer.buf.getD []).take cacheBuffer.bufUsageLen = bytes := by
  obtain ⟨_, hbuf, -⟩ := h.buf_eq
  rw [hbuf, h.bufUsageLen_eq, getD_some, take_left]

/-! ## Flushing -/

/-- The inode without a buffer, over the file `file`. -/
structure Flushed (inode inode' : FhgfsInode (List Byte)) (file : List Byte) : Prop where
  bufType_eq : inode'.fileCacheBuffer.bufType = .none
  remote_eq : inode'.remote = file
  hasMappings_eq : inode'.hasMappings = inode.hasMappings

/-- No buffer is attached to a mapped file. -/
lemma Represents.flushed_of_mapped (h : Represents app inode file)
    (hmapped : (app.tuneCoherentBuffers && inode.hasMappings) = true) :
    Flushed inode inode file := by
  cases h with
  | noBuffer htype hremote => exact ⟨htype, hremote, rfl⟩
  | readBuffer _ _ hmap => nomatch hmap.symm.trans hmapped
  | writeBuffer _ hmap => nomatch hmap.symm.trans hmapped

/-- A flush sends the pending write and gives the buffer back. -/
lemma Represents.flush (h : Represents app inode file) (discardCacheOnError : Bool) :
    ∃ inode', flushCacheUnlocked completeStore inode discardCacheOnError = (.ok (), inode') ∧
      Flushed inode inode' file := by
  cases h with
  | noBuffer htype hremote =>
    exact ⟨inode, by simp only [flushCacheUnlocked, htype], htype, hremote, rfl⟩
  | readBuffer htype hremote =>
    exact ⟨discardCache inode, by simp only [flushCacheUnlocked, htype], rfl, hremote, rfl⟩
  | writeBuffer htype hmap bytes hattached hoffset hfile =>
    refine ⟨discardCache { inode with remote := file }, ?_, rfl, rfl, rfl⟩
    simp only [flushCacheUnlocked, htype, hattached.take_buf, writeStatelessInode,
      writefileEx_completeStore]
    rw [hattached.bufUsageLen_eq, hfile]
    exact if_neg (lt_irrefl _)

/-! ## Writing -/

/-- What a write must do to an inode that represents `file`: return the number of bytes, and leave
an inode that represents the file after the direct write. -/
def WritesTo (app : App) (res : Except FhgfsOpsErr ℕ × FhgfsInode (List Byte)) (file : List Byte)
    (offset : ℤ) (iter : List Byte) : Prop :=
  res.1 = .ok iter.length ∧ Represents app res.2 (directWrite file offset iter)

variable {inode' : FhgfsInode (List Byte)} {iter : List Byte}

/-- A write through, when there is no buffer. -/
lemma writesTo_writeThrough (h : Flushed inode inode' file) :
    WritesTo app (writeThrough completeStore iter offset inode') file offset iter := by
  rw [writeThrough, writefileEx_completeStore, h.remote_eq]
  exact ⟨rfl, .noBuffer h.bufType_eq rfl⟩

/-- A new write buffer holds the data of the write, or the data is written through. -/
lemma writesTo_writeCacheFlushed {env : CallEnv app} {fileInfo : FsFileInfo}
    (h : Flushed inode inode' file) (hoffset : 0 ≤ offset ∨ offset = -1)
    (hmap : (app.tuneCoherentBuffers && inode.hasMappings) = false) :
    WritesTo app (writeCacheFlushed completeStore env iter iter.length offset fileInfo inode')
      file offset iter := by
  have hmax : (if offset = -1 then app.bufSize
      else min (currentChunkSize env.chunkSize offset.toNat) app.bufSize) ≤ app.bufSize := by
    split_ifs
    · exact le_rfl
    · exact Nat.min_le_right _ _
  unfold writeCacheFlushed
  dsimp only
  generalize (if offset = -1 then app.bufSize
    else min (currentChunkSize env.chunkSize offset.toNat) app.bufSize) = maxCacheLen at hmax ⊢
  split
  · exact writesTo_writeThrough h
  split
  · exact writesTo_writeThrough h
  next hsize =>
    cases env.instantBuf with
    | none => exact writesTo_writeThrough ⟨h.bufType_eq, h.remote_eq, rfl⟩
    | some buf =>
      obtain ⟨buf, -⟩ := buf
      dsimp only
      rw [take_length, if_neg (not_not_intro rfl)]
      rw [← h.hasMappings_eq] at hmap
      refine ⟨rfl, .writeBuffer rfl hmap iter ⟨⟨buf.drop iter.length, rfl, ?_⟩, rfl, ?_, hmax⟩
        hoffset (congrArg (directWrite · offset iter) h.remote_eq)⟩
      · rw [length_append, length_drop]
        omega
      · exact (lt_of_not_ge hsize).le

/-- A write that continues the pending one is added to the buffer, which is flushed when it is
full. -/
lemma writesTo_extendWriteCache (htype : inode.fileCacheBuffer.bufType = .write)
    (hmap : (app.tuneCoherentBuffers && inode.hasMappings) = false)
    (hattached : Attached app inode.fileCacheBuffer bytes)
    (hoffset : 0 ≤ inode.fileCacheBuffer.fileOffset ∨ inode.fileCacheBuffer.fileOffset = -1)
    (hfile : directWrite inode.remote inode.fileCacheBuffer.fileOffset bytes = file)
    (hiff : offset = -1 ↔ inode.fileCacheBuffer.fileOffset = -1)
    (hnext : offset ≠ -1 → offset = inode.fileCacheBuffer.fileOffset + bytes.length)
    (hsize : iter.length ≤ inode.fileCacheBuffer.bufUsageMaxLen - bytes.length) :
    WritesTo app (extendWriteCache completeStore iter iter.length inode) file offset iter := by
  obtain ⟨⟨rest, hbuf, hlen⟩, huse, _, hmax⟩ := hattached
  rw [length_append] at hlen
  have hnew : ((bytes ++ rest).take bytes.length ++ iter ++
      (bytes ++ rest).drop (bytes.length + iter.length)) =
      (bytes ++ iter) ++ rest.drop iter.length := by
    rw [take_left, drop_append, drop_eq_nil_of_le (Nat.le_add_right _ _),
      nil_append, Nat.add_sub_cancel_left]
  have hrep : Represents app
      { inode with fileCacheBuffer :=
        { inode.fileCacheBuffer with
          buf := some ((bytes ++ iter) ++ rest.drop iter.length)
          bufUsageLen := bytes.length + iter.length } }
      (directWrite file offset iter) := by
    refine .writeBuffer htype hmap (bytes ++ iter) ⟨⟨rest.drop iter.length, rfl, ?_⟩, ?_, ?_, hmax⟩
      hoffset ?_
    · simp only [length_append, length_drop]
      omega
    · rw [length_append]
    · change (bytes ++ iter).length ≤ inode.fileCacheBuffer.bufUsageMaxLen
      rw [length_append]
      omega
    · -- a write that continues a pending write extends it
      rw [← hfile]
      unfold directWrite
      by_cases happ : inode.fileCacheBuffer.fileOffset = -1
      · rw [if_pos happ, if_pos (hiff.mpr happ), if_pos happ, length_writeAt_length,
          writeAt_writeAt]
      · have hne : offset ≠ -1 := fun h => happ (hiff.mp h)
        have hnat : offset.toNat = inode.fileCacheBuffer.fileOffset.toNat + bytes.length := by
          omega
        rw [if_neg happ, if_neg hne, if_neg happ, hnat, writeAt_writeAt]
  obtain ⟨_, hflush, hflu⟩ := hrep.flush false
  unfold extendWriteCache
  dsimp only
  rw [take_length, if_neg (not_not_intro rfl), hbuf, getD_some, huse, hnew]
  split
  · rw [hflush]
    exact ⟨rfl, .noBuffer hflu.bufType_eq hflu.remote_eq⟩
  · exact ⟨rfl, hrep⟩

/-- The call as a whole. -/
lemma Represents.writeCached (h : Represents app inode file) (env : CallEnv app)
    (fileInfo : FsFileInfo) (iter : List Byte) (hoffset : 0 ≤ offset ∨ offset = -1) :
    WritesTo app
      ((writeCached completeStore env iter iter.length offset fileInfo inode).1,
        (writeCached completeStore env iter iter.length offset fileInfo inode).2.2)
      file offset iter := by
  unfold Beegfs.writeCached
  cases hmapped : app.tuneCoherentBuffers && inode.hasMappings with
  | true =>
    exact writesTo_writeThrough (h.flushed_of_mapped hmapped)
  | false =>
    obtain ⟨_, hflush, hflu⟩ := h.flush false
    rw [if_neg Bool.false_ne_true]
    cases h with
    | noBuffer htype hremote =>
      simp only [htype]
      exact writesTo_writeCacheFlushed ⟨htype, hremote, rfl⟩ hoffset hmapped
    | readBuffer htype hremote =>
      simp only [htype]
      exact writesTo_writeCacheFlushed ⟨rfl, hremote, rfl⟩ hoffset hmapped
    | writeBuffer htype hmap bytes hattached hoff' hfile =>
      simp only [htype]
      split
      · rw [hflush]
        exact writesTo_writeCacheFlushed hflu hoffset hmapped
      next hfits =>
        push Not at hfits
        obtain ⟨hiff, hnext, hsize⟩ := hfits
        rw [hattached.bufUsageLen_eq] at hnext hsize
        exact writesTo_extendWriteCache htype hmap hattached hoff' hfile hiff hnext hsize

/-! ## Reading -/

/-- What a read must do with an inode that represents `file`: return the bytes of the file and
their number, and leave an inode that represents the same file. -/
def ReadsFrom (app : App) (res : Except FhgfsOpsErr ℕ × ReadIter × FhgfsInode (List Byte))
    (file : List Byte) (iter : ReadIter) (size offset : ℕ) : Prop :=
  res.1 = .ok (readAt file offset size).length ∧ res.2.1 = iter.push (readAt file offset size) ∧
    Represents app res.2.2 file

variable {env : CallEnv app} {fileInfo : FsFileInfo} {iter : ReadIter} {size offset : ℕ}

/-- A read whose first `m` bytes are at the destination already, and whose rest is read from
there. -/
lemma ReadsFrom.append {res : Except FhgfsOpsErr ℕ} {iter' : ReadIter}
    {inode' : FhgfsInode (List Byte)} {m : ℕ}
    (h : ReadsFrom app (res, iter', inode') file (iter.push (readAt file offset m)) (size - m)
      (offset + m)) (hm : m ≤ size) (hfront : (readAt file offset m).length = m) :
    ∃ n, res = .ok n ∧ ReadsFrom app (.ok (m + n), iter', inode') file iter size offset := by
  obtain ⟨hres, hiter, hrep⟩ := h
  have hsplit := readAt_add file offset m (size - m)
  rw [Nat.add_sub_cancel' hm] at hsplit
  refine ⟨_, hres, ?_, ?_, hrep⟩
  · rw [hsplit, length_append, hfront]
  · rw [hsplit, ← push_push]
    exact hiter

/-- A direct read, when there is no buffer. -/
lemma readsFrom_readfileVec (h : Flushed inode inode' file) (hroom : size ≤ iter.room) :
    ReadsFrom app ((readfileVec completeStore iter size offset inode'.remote).1,
      (readfileVec completeStore iter size offset inode'.remote).2, inode') file iter size
      offset := by
  rw [readfileVec_completeStore hroom, h.remote_eq]
  exact ⟨rfl, rfl, .noBuffer h.bufType_eq h.remote_eq⟩

/-- A new read buffer holds what lies behind the offset. -/
lemma readsFrom_readAhead {buf : List Byte} {maxCacheLen : ℕ} (hbuf : buf.length = app.bufSize)
    (hmax : maxCacheLen ≤ app.bufSize) (hsize : size ≤ maxCacheLen)
    (hremote : inode.remote = file)
    (hmap : (app.tuneCoherentBuffers && inode.hasMappings) = false) (hroom : size ≤ iter.room) :
    ReadsFrom app (readAhead completeStore buf maxCacheLen iter size offset inode)
      file iter size offset := by
  -- its first bytes are what the read itself would have returned
  have htake := take_drop_readAt file offset maxCacheLen 0 size (by omega)
  rw [drop_zero] at htake
  have hlen : (readAt file offset maxCacheLen).length ≤ maxCacheLen := by
    rw [length_readAt]
    exact Nat.min_le_left _ _
  have hcount : (readAt file offset size).length =
      min size (readAt file offset maxCacheLen).length := by
    simp only [length_readAt]
    omega
  simp only [readAhead, completeStore, hremote]
  split
  next hzero =>
    -- the offset is behind the end of the file
    have hnil : readAt file offset size = [] := by
      rw [← length_eq_zero_iff, hcount, hzero, Nat.min_zero]
    unfold ReadsFrom
    rw [hnil, push_nil]
    exact ⟨rfl, rfl, .noBuffer rfl hremote⟩
  next =>
    rw [iter.copyToIter_of_le ((Nat.min_le_left _ _).trans hroom), if_neg (not_not_intro rfl),
      take_append_of_le_length (Nat.min_le_right _ _), ← take_take, take_length, htake,
      ← hcount]
    refine ⟨rfl, rfl, .readBuffer rfl rfl hmap (readAt file offset maxCacheLen)
      ⟨⟨_, rfl, ?_⟩, rfl, hlen, hmax⟩ offset rfl (readAt_length_readAt file offset maxCacheLen)⟩
    rw [length_append, length_drop]
    omega

variable {start : ℕ}

/-- What the buffer has from `s` on is what the file has there. -/
lemma Attached.take_drop_buf {cacheBuffer : CacheBuffer} {s n : ℕ}
    (h : Attached app cacheBuffer bytes) (hbytes : readAt file start bytes.length = bytes)
    (hs : start ≤ s) (hn : s + n ≤ start + bytes.length) :
    ((cacheBuffer.buf.getD []).drop (s - start)).take n = readAt file s n ∧
      (readAt file s n).length = n := by
  obtain ⟨_, hbuf, -⟩ := h.buf_eq
  have hpart := take_drop_readAt file start bytes.length (s - start) n (by omega)
  rw [hbytes, Nat.add_sub_cancel' hs] at hpart
  have hlen : bytes.length - (s - start) ≥ n := by omega
  rw [hbuf, getD_some, drop_append_of_le_length (by omega),
    take_append_of_le_length (by rw [length_drop]; exact hlen), hpart]
  refine ⟨rfl, ?_⟩
  rw [← hpart, length_take, length_drop]
  exact Nat.min_eq_left hlen

variable (hbuf : FsFileInfo.cacheSlowstartReadLen ≤ app.bufSize)

include hbuf

/-- The read is a direct one, or a new read buffer is filled. -/
lemma readsFrom_readCacheFlushed (h : Flushed inode inode' file)
    (hmap : (app.tuneCoherentBuffers && inode.hasMappings) = false) (hroom : size ≤ iter.room) :
    ReadsFrom app (readCacheFlushed completeStore env iter size offset fileInfo inode')
      file iter size offset := by
  unfold readCacheFlushed
  dsimp only
  split
  · exact readsFrom_readfileVec h hroom
  split
  · exact readsFrom_readfileVec h hroom
  next hsize =>
    cases env.instantBuf with
    | none =>
      rw [readfileVec_completeStore hroom, h.remote_eq]
      exact ⟨rfl, rfl, .noBuffer h.bufType_eq rfl⟩
    | some buf =>
      rw [← h.hasMappings_eq] at hmap
      dsimp only
      split
      next hslow => exact readsFrom_readAhead buf.property hbuf hslow.2.le h.remote_eq hmap hroom
      next =>
        exact readsFrom_readAhead buf.property (Nat.min_le_right _ _) (lt_of_not_ge hsize).le
          h.remote_eq hmap hroom

/-- What is known of an inode with a read buffer that begins at `start`. -/
structure ReadBuffered (app : App) (inode : FhgfsInode (List Byte)) (file bytes : List Byte)
    (start : ℕ) : Prop where
  htype : inode.fileCacheBuffer.bufType = .read
  hremote : inode.remote = file
  hmap : (app.tuneCoherentBuffers && inode.hasMappings) = false
  hattached : Attached app inode.fileCacheBuffer bytes
  hstart : inode.fileCacheBuffer.fileOffset = start
  hbytes : readAt file start bytes.length = bytes

/-- The part of a read from the place `s` on where the range that is read and the buffer begin to
overlap; what lies before it is at the destination. -/
lemma readsFrom_copyFromReadCache {s : ℕ} (h : ReadBuffered app inode file bytes start)
    (hs : s = max offset start) (hbeh : offset ≤ start + bytes.length)
    (hbef : start ≤ offset + size) (hroom : size ≤ iter.room)
    (hremRead : (readAt file offset (s - offset)).length = s - offset) :
    ReadsFrom app
      (copyFromReadCache completeStore env (iter.push (readAt file offset (s - offset))) size offset
        (s - offset) fileInfo inode) file iter size offset := by
  obtain ⟨htype, hremote, hmap, hattached, hstart, hbytes⟩ := h
  -- what is copied ends at `e`
  obtain ⟨e, _⟩ : ∃ e, e = min (start + bytes.length) (offset + size) := ⟨_, rfl⟩
  have hcopyOff : (if (offset : ℤ) ≤ start then (0 : ℤ) else offset - start).toNat =
      s - start := by
    split_ifs <;> omega
  have hcopySize : (min ((start : ℤ) + bytes.length) (offset + size) -
      (start + if (offset : ℤ) ≤ start then (0 : ℤ) else offset - start)).toNat = e - s := by
    split_ifs <;> omega
  obtain ⟨hcop, hcopLen⟩ := hattached.take_drop_buf (s := s) (n := e - s) hbytes (by omega)
    (by omega)
  have hend : s - offset + (e - s) = e - offset := by omega
  have hfront : readAt file offset (s - offset) ++ readAt file s (e - s) =
      readAt file offset (e - offset) := by
    have hadd := readAt_add file offset (s - offset) (e - s)
    rw [Nat.add_sub_cancel' (show offset ≤ s by omega), hend] at hadd
    exact hadd.symm
  have hlen : (readAt file offset (e - offset)).length = e - offset := by
    rw [← hfront, length_append, hremRead, hcopLen, hend]
  have hroom' : e - s ≤ (iter.push (readAt file offset (s - offset))).room := by
    rw [push]
    dsimp only
    omega
  unfold copyFromReadCache
  dsimp only
  rw [hattached.bufUsageLen_eq, hstart, hcopyOff, hcopySize,
    copyToIter_of_le _ hroom', hcop, push_push, if_neg (not_not_intro rfl), hfront]
  split
  next hmore =>
    -- a remainder behind the buffer is read as if there had never been a buffer
    have hsize' : ((offset : ℤ) + size - 1 - (start + bytes.length - 1)).toNat =
        size - (e - offset) := by omega
    have hoff' : ((start : ℤ) + bytes.length - 1 + 1).toNat = offset + (e - offset) := by omega
    have hroom'' : size - (e - offset) ≤ (iter.push (readAt file offset (e - offset))).room := by
      rw [push, hlen]
      exact Nat.sub_le_sub_right hroom _
    rw [hsize', hoff', hend]
    have hrest : ReadsFrom app (readCacheFlushed completeStore env
        (iter.push (readAt file offset (e - offset))) (size - (e - offset)) (offset + (e - offset))
        fileInfo (discardCache inode)) file _ _ _ :=
      readsFrom_readCacheFlushed hbuf ⟨rfl, hremote, rfl⟩ hmap hroom''
    generalize readCacheFlushed completeStore env _ _ _ fileInfo (discardCache inode) = res
      at hrest ⊢
    obtain ⟨res, _, _⟩ := res
    obtain ⟨n, rfl, happend⟩ := hrest.append (by omega) hlen
    exact happend
  next hless =>
    have hall : e - offset = size := by omega
    rw [hall] at hlen ⊢
    exact ⟨congrArg _ hlen.symm, rfl, .readBuffer htype hremote hmap bytes hattached start hstart
      hbytes⟩

/-- A read of a range that overlaps the read buffer. -/
lemma readsFrom_readOverlapping (h : ReadBuffered app inode file bytes start)
    (hbeh : offset ≤ start + bytes.length) (hbef : start ≤ offset + size)
    (hroom : size ≤ iter.room) :
    ReadsFrom app (readOverlapping completeStore env iter size offset fileInfo inode)
      file iter size offset := by
  have hcopy : ∀ s, s = max offset start → (readAt file offset (s - offset)).length = s - offset →
      ReadsFrom app (copyFromReadCache completeStore env (iter.push (readAt file offset
        (s - offset))) size offset (s - offset) fileInfo inode) file iter size offset :=
    fun s hs hread => readsFrom_copyFromReadCache hbuf h hs hbeh hbef hroom hread
  unfold readOverlapping
  rw [h.hstart]
  split
  next hlt =>
    have hsize : ((start : ℤ) - offset).toNat = start - offset := by omega
    have hfront : start - offset ≤ iter.room := by omega
    dsimp only
    rw [hsize, readfileVec_completeStore hfront, h.hremote]
    dsimp only
    split
    next hshort =>
      -- the end of the file lies before the buffer
      have hnil := readAt_of_length_lt hshort (offset + size - start)
      rw [Nat.add_sub_cancel' (by omega)] at hnil
      have hsplit := readAt_split file (show offset ≤ start by omega) hbef
      rw [hnil, append_nil] at hsplit
      unfold ReadsFrom
      rw [hsplit]
      exact ⟨rfl, rfl, .noBuffer rfl h.hremote⟩
    next hfull =>
      refine hcopy start (by omega) ?_
      have := length_readAt file offset (start - offset)
      omega
  next hge =>
    have hall := hcopy offset (by omega) (by simp)
    rwa [Nat.sub_self, readAt_zero, push_nil] at hall

/-- The call as a whole. -/
lemma Represents.readCached (h : Represents app inode file) (env : CallEnv app)
    (fileInfo : FsFileInfo) (offset : ℕ) (hroom : size ≤ iter.room) :
    ReadsFrom app
      ((readCached completeStore env iter size offset fileInfo inode).1,
        (readCached completeStore env iter size offset fileInfo inode).2.2)
      file iter size offset := by
  obtain ⟨_, hflush, hflu⟩ := h.flush false
  unfold Beegfs.readCached
  cases hmapped : app.tuneCoherentBuffers && inode.hasMappings with
  | true =>
    exact readsFrom_readfileVec (h.flushed_of_mapped hmapped) hroom
  | false =>
    rw [if_neg Bool.false_ne_true]
    cases h with
    | noBuffer htype hremote =>
      split
      · exact readsFrom_readfileVec ⟨htype, hremote, rfl⟩ hroom
      · simp only [htype]
        exact readsFrom_readCacheFlushed hbuf ⟨htype, hremote, rfl⟩ hmapped hroom
    | readBuffer htype hremote hmap bytes hattached start hstart hbytes =>
      simp only [htype, reduceCtorEq, decide_false, Bool.and_false, Bool.false_eq_true, if_false]
      split
      · rw [hflush]
        exact readsFrom_readCacheFlushed hbuf hflu hmapped hroom
      next hoverlap =>
        push Not at hoverlap
        rw [hattached.bufUsageLen_eq] at hoverlap
        exact readsFrom_readOverlapping hbuf ⟨htype, hremote, hmap, hattached, hstart, hbytes⟩
          (by omega) (by omega) hroom
    | writeBuffer htype hmap =>
      simp only [htype, reduceCtorEq, decide_false, Bool.and_false, Bool.false_eq_true, if_false]
      rw [hflush]
      exact readsFrom_readCacheFlushed hbuf hflu hmapped hroom

omit hbuf

/-! ## Sequences of calls -/

/-- A call, with what it finds around it: the file information of the handle that it is made
through, and the environment. -/
inductive CacheOp (app : App)
  /-- `FhgfsOpsHelper_writeCached` of data at an offset, or as append. -/
  | write (env : CallEnv app) (fileInfo : FsFileInfo) (data : List Byte) (offset : Option ℕ)
  /-- `FhgfsOpsHelper_readCached`. -/
  | read (env : CallEnv app) (fileInfo : FsFileInfo) (size offset : ℕ)
  /-- `FhgfsOpsHelper_flushCache`. -/
  | flush (discardCacheOnError : Bool)

/-- The offset argument of a write, `-1` for append. -/
def writeOffset : Option ℕ → ℤ
  | none => -1
  | some offset => offset

/-- What a call returns: the result, and for a read the bytes at the destination. -/
structure CallResult where
  res : Except FhgfsOpsErr ℕ
  bytes : List Byte

section Steps

variable {σ : Type*} (store : RemoteStore σ)

/-- A call through the cache. -/
def cachedStep (inode : FhgfsInode σ) : CacheOp app → CallResult × FhgfsInode σ
  | .write env fileInfo data offset =>
    let (res, _, inode) :=
      writeCached store env data data.length (writeOffset offset) fileInfo inode
    (⟨res, []⟩, inode)
  | .read env fileInfo size offset =>
    let (res, _, iter, inode) := readCached store env ⟨size, []⟩ size offset fileInfo inode
    (⟨res, iter.out⟩, inode)
  | .flush discardCacheOnError =>
    let (res, inode) := flushCache store inode discardCacheOnError
    (⟨res.map fun _ => 0, []⟩, inode)

/-- The same call without a cache, where there is nothing to flush. -/
def directStep (remote : σ) : CacheOp app → CallResult × σ
  | .write _ _ data offset =>
    let (res, remote) := writefileEx store data (writeOffset offset) remote
    (⟨res, []⟩, remote)
  | .read _ _ size offset =>
    let (res, iter) := readfileVec store ⟨size, []⟩ size offset remote
    (⟨res, iter.out⟩, remote)
  | .flush _ => (⟨.ok 0, []⟩, remote)

end Steps

/-- An attached buffer has the size of the store's buffers, and no more of it is used than may
be. -/
def BufferInBounds (app : App) (inode : FhgfsInode (List Byte)) : Prop :=
  inode.fileCacheBuffer.bufType ≠ .none →
    inode.fileCacheBuffer.bufUsageLen ≤ inode.fileCacheBuffer.bufUsageMaxLen ∧
      inode.fileCacheBuffer.bufUsageLen ≤ app.bufSize ∧
      ∃ buf, inode.fileCacheBuffer.buf = some buf ∧ buf.length = app.bufSize

lemma Attached.inBounds (h : Attached app inode.fileCacheBuffer bytes) :
    BufferInBounds app inode := by
  obtain ⟨_, hbuf, hlen⟩ := h.buf_eq
  intro _
  rw [h.bufUsageLen_eq]
  exact ⟨h.le_max, h.le_max.trans h.max_le, _, hbuf, hlen⟩

lemma Represents.inBounds (h : Represents app inode file) : BufferInBounds app inode := by
  cases h with
  | noBuffer htype => exact fun hne => absurd htype hne
  | readBuffer _ _ _ _ hattached => exact hattached.inBounds
  | writeBuffer _ _ _ hattached => exact hattached.inBounds

/-- One call through the cache returns what the direct call returns, and leaves an inode that
represents what the direct call leaves. -/
lemma Represents.step (hbuf : FsFileInfo.cacheSlowstartReadLen ≤ app.bufSize)
    (h : Represents app inode file) (op : CacheOp app) :
    (cachedStep completeStore inode op).1 = (directStep completeStore file op).1 ∧
      Represents app (cachedStep completeStore inode op).2
        (directStep completeStore file op).2 := by
  cases op with
  | write env fileInfo data offset =>
    have hoffset : 0 ≤ writeOffset offset ∨ writeOffset offset = -1 := by
      cases offset with
      | none => exact .inr rfl
      | some offset => exact .inl (Int.natCast_nonneg offset)
    obtain ⟨hres, hrep⟩ := h.writeCached env fileInfo data hoffset
    simp only [cachedStep, directStep, writefileEx_completeStore]
    exact ⟨congrArg (CallResult.mk · []) hres, hrep⟩
  | read env fileInfo size offset =>
    have hroom : size ≤ (⟨size, []⟩ : ReadIter).room := le_rfl
    obtain ⟨hres, hout, hrep⟩ := h.readCached hbuf env fileInfo offset hroom
    simp only [cachedStep, directStep, readfileVec_completeStore hroom]
    exact ⟨congrArg₂ CallResult.mk hres (congrArg out hout), hrep⟩
  | flush discardCacheOnError =>
    obtain ⟨_, hflush, hf⟩ := h.flush discardCacheOnError
    simp only [cachedStep, directStep, flushCache, hflush]
    exact ⟨rfl, .noBuffer hf.bufType_eq hf.remote_eq⟩

/-- Over a complete store, every sequence of calls through the cache returns what the same sequence
of direct calls returns; a flush at its end leaves the file of the direct calls on the servers; and
the buffer stays within its bounds. -/
theorem fileCache_transparent (app : App)
    (hbuf : FsFileInfo.cacheSlowstartReadLen ≤ app.bufSize) (inode : FhgfsInode (List Byte))
    (hnone : inode.fileCacheBuffer.bufType = .none) (ops : List (CacheOp app)) :
    outputs (cachedStep completeStore) inode ops =
        outputs (directStep completeStore) inode.remote ops ∧ (∀ discardCacheOnError,
        (cachedStep completeStore
          (runFrom (fun inode op => (cachedStep completeStore inode op).2) inode ops)
          (.flush discardCacheOnError : CacheOp app)).2.remote =
        runFrom (fun file op => (directStep completeStore file op).2) inode.remote ops) ∧
      BufferInBounds app
        (runFrom (fun inode op => (cachedStep completeStore inode op).2) inode ops) := by
  have hinit : Represents app inode inode.remote := .noBuffer hnone rfl
  obtain ⟨houts, hlast⟩ := outputs_eq_of_simulation
    (fun inode file op (h : Represents app inode file) => h.step hbuf op) hinit ops
  refine ⟨houts, fun discardCacheOnError => ?_, hlast.inBounds⟩
  obtain ⟨_, hflush, hf⟩ := hlast.flush discardCacheOnError
  exact (congrArg (·.2.remote) hflush).trans hf.remote_eq

/-- An append that is kept in a buffer, and a read ahead over the end of the file. -/
theorem fileCache_transparent_append_read :
    let app : App := ⟨true, 65536⟩
    let env : CallEnv app := ⟨65536, false, some ⟨List.replicate 65536 0, length_replicate⟩⟩
    let fileInfo : FsFileInfo := ⟨3, true, 0, 0⟩
    let inode : FhgfsInode (List Byte) := ⟨[1, 2, 3], ⟨none, 0, 0, 0, .none⟩, false⟩
    outputs (cachedStep completeStore) inode
        [.write env fileInfo [4] none, .read env fileInfo 10 1, .flush false] =
      [⟨.ok 1, []⟩, ⟨.ok 3, [2, 3, 4]⟩, ⟨.ok 0, []⟩] :=
  (fileCache_transparent ⟨true, 65536⟩ (by decide) ⟨[1, 2, 3], ⟨none, 0, 0, 0, .none⟩, false⟩ rfl
    _).1.trans rfl

end Beegfs
