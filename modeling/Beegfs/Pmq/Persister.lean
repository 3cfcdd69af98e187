import Beegfs.Pmq.Queue

/-!
# The persister of the message queue

The functions that move messages from the ring of slots to the disk.  They return `false` when a
file operation fails, and they stop where they are when the machine crashes or an assertion is
violated.

How the file operations of a call end is part of its input: `io` lists their outcomes, the next one
first, and operations beyond the list succeed.  The statistics and log messages are left out.
-/

namespace Beegfs

open Pmq in
/-- What the persister works on: its cursors, those that it has published, and the three files.
`commits` and `walRanges` are not in memory: they record all that was written to `state.dat`, and
the ranges of slots that were to be written to `wal.dat`, the latest first. -/
structure Pmq.Persister where
  persistCursors : PersistCursors
  pubPersistCursors : PersistCursors
  chunkFile : DurableFile ℕ Page
  slotsFile : DurableFile ℕ Slot
  stateFile : DurableFile Unit CommitRecord
  commits : List CommitRecord
  walRanges : List (Sn × Sn)

/-- How a file operation ends.  One that fails may have written some part of its data. -/
inductive Pmq.IoOutcome
  | ok
  | fail (written : ℕ)
  | crash
deriving DecidableEq

/-- Why a call does not return: the machine crashed, an assertion was violated, something was
written behind the memory of the chunks, or a loop does not end. -/
inductive Pmq.Halt
  | crash
  | assertion
  | fault
  | diverges
deriving DecidableEq

open Pmq in
/-- The queue. -/
structure Pmq where
  chunkStore : ChunkStore
  slotsfileSizeBytes : BitVec 64
  slots : ℕ → Slot
  inQueueCursors : InQueueCursors
  pubInQueueCursors : InQueueCursors
  chunkQueue : ChunkQueue
  persister : Persister
  io : List IoOutcome

namespace Pmq

open Bytes

/-- A program on the queue. -/
abbrev PmqM := EStateM Halt Pmq

def pmqAssert (condition : Bool) : PmqM Unit := if condition then pure () else throw .assertion

/-! ## File operations -/

/-- The outcome of the next file operation. -/
def nextOutcome : PmqM IoOutcome := modifyGet fun q => (q.io.headD .ok, { q with io := q.io.tail })

/-- A file operation: what it does when it succeeds, and when it fails. -/
def fileOp (done : Persister → Persister) (failed : ℕ → Persister → Persister) : PmqM Bool := do
  match ← nextOutcome with
  | .ok =>
    modify fun q => { q with persister := done q.persister }
    return true
  | .fail written =>
    modify fun q => { q with persister := failed written q.persister }
    return false
  | .crash => throw .crash

def Persister.writeChunk (index : ℕ) (page : Page) (per : Persister) : Persister :=
  { per with chunkFile := per.chunkFile.write (· = index) fun _ => page }

/-- `pwrite` of a chunk; one that fails may have written its first bytes. -/
def pwriteChunk (index : ℕ) (page : Page) : PmqM Bool :=
  fileOp (Persister.writeChunk index page) fun written per =>
    per.writeChunk index fun i => if i < written then page i else per.chunkFile.contents index i

def Persister.writeSlots (slots : ℕ → Slot) (start count : ℕ) (per : Persister) : Persister :=
  { per with slotsFile := per.slotsFile.write (fun i => start ≤ i ∧ i < start + count) slots }

/-- `pwrite` of slots from memory to the same place in `wal.dat`.  Nothing is done for no slots, and
one that fails may have written the first slots. -/
def pwriteSlots (start count : ℕ) : PmqM Bool := do
  let slots := (← get).slots
  if count = 0 then
    return true
  else
    fileOp (Persister.writeSlots slots start count) fun written =>
      Persister.writeSlots slots start (min written count)

def Persister.writeState (record : CommitRecord) (per : Persister) : Persister :=
  { per with
    stateFile := per.stateFile.write (fun _ => True) fun _ => record
    commits := record :: per.commits }

/-- `pwrite` of the commit record, which is written as a whole or not at all. -/
def pwriteState (record : CommitRecord) : PmqM Bool :=
  fileOp (Persister.writeState record) fun written per =>
    if written = 0 then per else per.writeState record

def fsyncChunkFile : PmqM Bool :=
  fileOp (fun per => { per with chunkFile := per.chunkFile.fsync }) fun _ per => per

def fsyncSlotsFile : PmqM Bool :=
  fileOp (fun per => { per with slotsFile := per.slotsFile.fsync }) fun _ per => per

def fsyncStateFile : PmqM Bool :=
  fileOp (fun per => { per with stateFile := per.stateFile.fsync }) fun _ per => per

/-! ## Committing -/

def computeNextDiscardCsn (q : Pmq) : Sn :=
  let pc := q.persister.persistCursors
  if (pc.cksCsn - pc.cksDiscardCsn).toNat < q.chunkStore.chunksHighWatermark then
    pc.cksDiscardCsn
  else
    pc.cksCsn - BitVec.ofNat 64 q.chunkStore.chunksLowWatermark

/-- The record that a commit writes. -/
def commitRecord (q : Pmq) : CommitRecord :=
  let pc := q.persister.persistCursors
  { inqueueSlotcount := BitVec.ofNat 64 slotCount
    slotsfileSizeBytes := q.slotsfileSizeBytes
    walSsn := pc.walSsn
    walMsn := pc.walMsn
    chunkfileSizeBytes := q.chunkStore.capacityBytes
    cksCsn := pc.cksCsn
    cksMsn := pc.cksMsn
    cksSsn := pc.cksSsn
    cksDiscardCsn := computeNextDiscardCsn q }

/-- The discarded chunks may be reused, and the cursors are published. -/
def publish (cksDiscardCsn : Sn) (q : Pmq) : Pmq :=
  let pc := { q.persister.persistCursors with cksDiscardCsn }
  { q with persister.persistCursors := pc, persister.pubPersistCursors := pc }

def commit : PmqM Bool := do
  if !(← fsyncChunkFile) then
    return false
  let record := commitRecord (← get)
  if !(← pwriteState record) then
    return false
  if !(← fsyncStateFile) then
    return false
  modify (publish record.cksDiscardCsn)
  return true

/-! ## Finished chunks -/

/-- When all chunks of the store are filled, some are discarded by a commit. -/
def discardIfFull (csn : Sn) : PmqM Bool := do
  let q ← get
  if (csn - q.persister.persistCursors.cksDiscardCsn).toNat = q.chunkStore.chunkCount then
    commit
  else
    return true

open SeqNum

/-- The cursors after the chunk `csn` was written. -/
def advanceChunkStore (csn : Sn) (q : Pmq) : Pmq :=
  let cb := q.chunkQueue.chunks (slotFor numChunkBuffers csn)
  { q with
    persister.persistCursors.cksCsn := csn + 1
    persister.persistCursors.cksSsn := cb.lastSsn
    persister.persistCursors.cksMsn := cb.lastMsn }

/-- One turn of the loop of `pmq_persist_finished_chunk_buffers`, which writes the chunk `csn`. -/
def persistChunk (csn : Sn) : PmqM Bool := do
  let q ← get
  pmqAssert ((csn - q.persister.persistCursors.cksDiscardCsn).toNat ≤ q.chunkStore.chunkCount)
  if !(← discardIfFull csn) then
    return false
  let q ← get
  pmqAssert ((csn - q.persister.persistCursors.cksDiscardCsn).toNat < q.chunkStore.chunkCount)
  let page := q.chunkQueue.page (slotFor numChunkBuffers csn)
  if !(← pwriteChunk (slotFor q.chunkStore.chunkCount csn) page) then
    return false
  modify (advanceChunkStore csn)
  return true

/-- The loop, which begins with the chunk `csn`. -/
def persistFinishedLoop : ℕ → Sn → PmqM Bool
  | 0, _ => return true
  | turns + 1, csn => do
    if !(← persistChunk csn) then
      return false
    persistFinishedLoop turns (csn + 1)

/-- Writes all chunks before the one that is being filled. -/
def persistFinishedChunkBuffers : PmqM Bool := do
  let q ← get
  let cksCsn := q.persister.persistCursors.cksCsn
  pmqAssert ((q.chunkQueue.cqCsn - cksCsn).toNat ≤ numChunkBuffers)
  persistFinishedLoop (q.chunkQueue.cqCsn - cksCsn).toNat cksCsn

/-! ## Building chunks -/

variable (cq : ChunkQueue)

/-- The chunk that is filled next is empty. -/
def resetChunkBuffer : ChunkQueue :=
  let index := slotFor numChunkBuffers cq.cqCsn
  { cq with
    chunks := Function.update cq.chunks index ⟨cq.cqMsn, cq.cqSsn, 0, 0⟩
    ckBuffer := index
    msgCount := 0
    offsets := Function.update cq.offsets 0 16 }

/-- When both chunks in memory are in use, they are written first. -/
def makeChunkBufferFree : PmqM Bool := do
  let q ← get
  if (q.chunkQueue.cqCsn - q.persister.persistCursors.cksCsn).toNat = numChunkBuffers then
    persistFinishedChunkBuffers
  else
    return true

def beginCurrentChunkBuffer : PmqM Bool := do
  if !(← makeChunkBufferFree) then
    return false
  modify fun q => { q with chunkQueue := resetChunkBuffer q.chunkQueue }
  return true

/-- The array of message offsets as it is in memory. -/
def offsetsBytes (offsets : ℕ → ℕ) : ℕ → Byte := fun i =>
  (wordBytes (BitVec.ofNat 16 (offsets (i / 2)))).getD (i % 2) 0

/-- The bytes of a finished chunk at address `data`: the header, the messages, a gap that is zeroed,
and the array of `msgCount + 1` offsets. -/
def finishPage (memory : ℕ → Byte) (data : ℕ) (msn : Sn) (msgCount : ℕ) (offsets : ℕ → ℕ) :
    ℕ → Byte :=
  let msgoffsetsOff := chunkSize - 2 * (msgCount + 1)
  let memory := store memory data (wordBytes msn)
  let memory := store memory (data + 8) (wordBytes (BitVec.ofNat 16 msgCount))
  let memory := store memory (data + 10) (wordBytes (BitVec.ofNat 16 msgoffsetsOff))
  let memory := copy memory (data + offsets msgCount) (fun _ => 0) 0
    (msgoffsetsOff - offsets msgCount)
  copy memory (data + msgoffsetsOff) (offsetsBytes offsets) 0 (2 * (msgCount + 1))

/-- The chunk queue when the current chunk is finished. -/
def finishChunkBuffer : ChunkQueue :=
  let cb := cq.chunks cq.ckBuffer
  { cq with
    chunks := Function.update cq.chunks cq.ckBuffer
      { cb with lastMsn := cq.cqMsn, lastSsn := cq.cqSsn }
    memory := finishPage cq.memory (bufferData cq.ckBuffer) cb.msn cq.msgCount cq.offsets }

def finalizeCurrentChunkBuffer : PmqM Unit := do
  let cq := (← get).chunkQueue
  pmqAssert (cq.cqMsn == (cq.chunks cq.ckBuffer).msn + BitVec.ofNat 64 cq.msgCount)
  modify fun q => { q with chunkQueue := finishChunkBuffer q.chunkQueue }

/-- Finishes the current chunk and begins the next one. -/
def switchToNextChunkBuffer : PmqM Bool := do
  finalizeCurrentChunkBuffer
  modify fun q => { q with chunkQueue.cqCsn := q.chunkQueue.cqCsn + 1 }
  if !(← beginCurrentChunkBuffer) then
    return false
  let cq := (← get).chunkQueue
  pmqAssert ((cq.chunks cq.ckBuffer).msn == cq.cqMsn)
  return true

/-- The message fits into the current chunk, together with its offset and the final one. -/
def ChunkQueue.msgFits (msgsize : ℕ) : Bool :=
  cq.offsets cq.msgCount + msgsize ≤ chunkSize - (cq.msgCount + 2) * 2

def makeRoomForMsg (msgsize : ℕ) : PmqM Bool := do
  if (← get).chunkQueue.msgFits msgsize then
    return true
  else
    switchToNextChunkBuffer

/-- The loop that copies a message: its turn `i` copies `n` bytes of the slot `ssn + i`. -/
def copySlots (slots : ℕ → Slot) (ssn : Sn) (memory : ℕ → Byte) (dst n : ℕ) : ℕ → ℕ → Byte
  | 0 => memory
  | i + 1 =>
    let slot := slots (slotFor slotCount (ssn + BitVec.ofNat 64 i))
    copy (copySlots slots ssn memory dst n i) (dst + n * i) slot.payload 0 n

/-- The bytes that are copied from each slot of a message: `remain` is never made smaller, so the
last slot of a message of more than one is copied as a whole. -/
def copiedPerSlot (msgsize : ℕ) : ℕ := if msgsize < slotSpace then msgsize else slotSpace

/-- The bytes that are written for a message: all of its slots, when it has more than one. -/
def bytesCopied (msgsize : ℕ) : ℕ := copiedPerSlot msgsize * nslotsReq msgsize

/-- The message is copied past the end of the last chunk in memory. -/
def ChunkQueue.overruns (msgsize : ℕ) : Bool :=
  bufferData numChunkBuffers < bufferData cq.ckBuffer + cq.offsets cq.msgCount + bytesCopied msgsize

/-- The chunk queue after one more message. -/
def appendMsg (slots : ℕ → Slot) (msgsize : ℕ) (cq : ChunkQueue) : ChunkQueue :=
  let dstOffset := cq.offsets cq.msgCount
  { cq with
    memory := copySlots slots cq.cqSsn cq.memory (bufferData cq.ckBuffer + dstOffset)
      (copiedPerSlot msgsize) (nslotsReq msgsize)
    cqSsn := cq.cqSsn + BitVec.ofNat 64 (nslotsReq msgsize)
    cqMsn := cq.cqMsn + 1
    offsets := Function.update cq.offsets (cq.msgCount + 1) ((dstOffset + msgsize) % 2 ^ 16)
    msgCount := cq.msgCount + 1 }

/-- The loop of `pmq_compact`. -/
def compactLoop (maxSsn : Sn) : ℕ → PmqM Bool
  | 0 => throw .diverges
  | fuel + 1 => do
    let q ← get
    if ge q.chunkQueue.cqSsn maxSsn then
      return true
    let slot := q.slots (slotFor slotCount q.chunkQueue.cqSsn)
    if !slot.isLeader then
      return false
    let msgsize := slot.msgsize.toNat
    if !(← makeRoomForMsg msgsize) then
      return false
    if nslotsReq msgsize > (maxSsn - (← get).chunkQueue.cqSsn).toNat then
      return false
    if (← get).chunkQueue.overruns msgsize then
      throw .fault
    modify fun q => { q with chunkQueue := appendMsg q.slots msgsize q.chunkQueue }
    compactLoop maxSsn fuel

/-- Packs the messages before `maxSsn` into chunks. -/
def compact (maxSsn : Sn) : PmqM Bool := do
  compactLoop maxSsn ((maxSsn - (← get).chunkQueue.cqSsn).toNat + 1)

/-! ## Slots that do not make a chunk -/

/-- The two parts of a range of slots that wraps around, or the range itself. -/
def persistSlots (ssnLo ssnHi : Sn) : PmqM Bool := do
  let iLo := slotFor slotCount ssnLo
  let iHi := slotFor slotCount ssnHi
  if iLo ≤ iHi then
    pwriteSlots iLo (iHi - iLo)
  else
    if !(← pwriteSlots iLo (slotCount - iLo)) then
      return false
    pwriteSlots 0 iHi

/-- The number of leaders among the `n` slots from `ssn` on. -/
def countLeaders (slots : ℕ → Slot) (ssn : Sn) : ℕ → ℕ
  | 0 => 0
  | n + 1 =>
    let slot := slots (slotFor slotCount (ssn + BitVec.ofNat 64 n))
    countLeaders slots ssn n + if slot.isLeader then 1 else 0

/-- When the chunk store has more recent data than `wal.dat`, the latter is empty. -/
def clearWal (pc : PersistCursors) : PersistCursors :=
  if lt pc.walSsn pc.cksSsn then
    { pc with walSsn := pc.cksSsn, walMsn := pc.cksMsn }
  else
    pc

/-- The slots before `ssnHi` are in `wal.dat`. -/
def advanceWal (ssnHi : Sn) (q : Pmq) : Pmq :=
  let pc := q.persister.persistCursors
  { q with
    persister.persistCursors.walSsn := ssnHi
    persister.persistCursors.walMsn := pc.walMsn +
      BitVec.ofNat 64 (countLeaders q.slots pc.walSsn (ssnHi - pc.walSsn).toNat) }

/-- Writes the slots from the end of `wal.dat` to `persistSsn`. -/
def extendWal (persistSsn : Sn) : PmqM Bool := do
  let ssnLo := (← get).persister.persistCursors.walSsn
  modify fun q => { q with persister.walRanges := (ssnLo, persistSsn) :: q.persister.walRanges }
  if !(← persistSlots ssnLo persistSsn) then
    return false
  if !(← fsyncSlotsFile) then
    return false
  modify (advanceWal persistSsn)
  return true

/-- Has the slots before `persistSsn` that are in no chunk in `wal.dat`. -/
def persistUnpersistedSlots (persistSsn : Sn) : PmqM Bool := do
  modify fun q =>
    { q with persister.persistCursors := clearWal q.persister.persistCursors }
  if ge (← get).persister.persistCursors.walSsn persistSsn then
    return true
  else
    extendWal persistSsn

/-! ## Persisting -/

/-- Packs all messages before `maxSsn`, and has those before `ssn` on the disk when it returns
`true`. -/
def persist (ssn maxSsn : Sn) : PmqM Bool := do
  if !(← compact maxSsn) then
    return false
  if !(← persistFinishedChunkBuffers) then
    return false
  if !(← persistUnpersistedSlots ssn) then
    return false
  commit

/-- `pmq_sync`, without the time that it waits for more messages. -/
def sync : PmqM Bool := do
  let ic := (← get).pubInQueueCursors
  pmqAssert (le ic.ssnDisk ic.ssnMem)
  persist ic.ssnMem ic.ssnMem

end Pmq

end Beegfs
