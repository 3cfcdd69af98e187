import Beegfs.Pmq.Persister

/-!
# The enqueuer of the message queue, and how a queue is opened

A message is written to the ring of slots, after the persister has made room for it when the ring is
full.  A queue is created empty, or loaded from the three files that an earlier one has left.
-/

namespace Beegfs.Pmq

open Bytes

/-! ## Enqueuing -/

/-- There is room for the slots before `nextSsnMem`. -/
def hasRoom (q : Pmq) (nextSsnMem : Sn) : Bool :=
  (nextSsnMem - q.inQueueCursors.ssnDisk).toNat ≤ slotCount

/-- The enqueuer learns from `pc` which messages are in the chunk store. -/
def refreshDiskCursors (pc : PersistCursors) (q : Pmq) : Pmq :=
  { q with inQueueCursors.msnDisk := pc.cksMsn, inQueueCursors.ssnDisk := pc.cksSsn }

/-- The ring is full even with the cursors that the persister has published. -/
def flushInputSlots (nextSsnMem : Sn) : PmqM Bool := do
  let ssnMem := (← get).inQueueCursors.ssnMem
  if !(← persist (nextSsnMem - BitVec.ofNat 64 slotCount) ssnMem) then
    return false
  modify fun q => refreshDiskCursors q.persister.persistCursors q
  pmqAssert (hasRoom (← get) nextSsnMem)
  return true

/-- Makes room for `nslots` slots. -/
def prepareInputSlots (nslots : ℕ) : PmqM Bool := do
  let q ← get
  let nextSsnMem := q.inQueueCursors.ssnMem + BitVec.ofNat 64 nslots
  pmqAssert (hasRoom q q.inQueueCursors.ssnMem)
  if hasRoom q nextSsnMem then
    return true
  modify fun q => refreshDiskCursors q.persister.pubPersistCursors q
  if hasRoom (← get) nextSsnMem then
    return true
  flushInputSlots nextSsnMem

/-- One slot of a message: `n` bytes of `data` from `i` on. -/
def writeSlot (slots : ℕ → Slot) (ssn : Sn) (flags : BitVec 32) (msgsize : ℕ) (data : ℕ → Byte)
    (i n : ℕ) : ℕ → Slot :=
  let index := SeqNum.slotFor slotCount ssn
  Function.update slots index
    ⟨flags, BitVec.ofNat 32 msgsize, copy (slots index).payload 0 data i n⟩

/-- Only the first slot of a message is a leader. -/
def slotFlags (turn : ℕ) : BitVec 32 := if turn = 0 then slotLeaderMask else 0

/-- The loop that writes the full slots of a message. -/
def writeFullSlots (slots : ℕ → Slot) (ssn : Sn) (data : ℕ → Byte) (size : ℕ) : ℕ → ℕ → Slot
  | 0 => slots
  | turn + 1 =>
    let i := slotSpace * turn
    writeSlot (writeFullSlots slots ssn data size turn) (ssn + BitVec.ofNat 64 turn)
      (slotFlags turn) (size - i) data i slotSpace

/-- The slots after a message was written to them from `ssn` on. -/
def writeMsg (slots : ℕ → Slot) (ssn : Sn) (data : ℕ → Byte) (size : ℕ) : ℕ → Slot :=
  let full := size / slotSpace
  let i := slotSpace * full
  let slots := writeFullSlots slots ssn data size full
  if i < size then
    writeSlot slots (ssn + BitVec.ofNat 64 full) (slotFlags full) (size - i) data i (size - i)
  else
    slots

/-- The number of slots that `writeMsg` writes. -/
def slotsWritten (size : ℕ) : ℕ :=
  size / slotSpace + if slotSpace * (size / slotSpace) < size then 1 else 0

/-- Writes the message to the ring and publishes the cursors. -/
def serializeMsg (data : ℕ → Byte) (size : ℕ) : PmqM Unit := do
  modify fun q =>
    let ic := q.inQueueCursors
    let ic' := { ic with
      msn := ic.msn + 1
      ssnMem := ic.ssnMem + BitVec.ofNat 64 (slotsWritten size) }
    { q with
      slots := writeMsg q.slots ic.ssnMem data size
      inQueueCursors := ic'
      pubInQueueCursors := ic' }
  let q ← get
  pmqAssert (hasRoom q q.inQueueCursors.ssnMem)

def enqueueMsg (data : ℕ → Byte) (size : ℕ) : PmqM Bool := do
  pmqAssert (0 < size)
  if !(← prepareInputSlots (nslotsReq size)) then
    return false
  serializeMsg data size
  return true

/-! ## Creating a queue -/

/-- A queue whose files are not written yet: all of them are zeroes, and so are the cursors. -/
def blank (chunkStore : ChunkStore) : Pmq where
  chunkStore := chunkStore
  slotsfileSizeBytes := BitVec.ofNat 64 (slotCount * slotSize)
  slots := fun _ => .zero
  inQueueCursors := ⟨0, 0, 0, 0⟩
  pubInQueueCursors := ⟨0, 0, 0, 0⟩
  chunkQueue :=
    { memory := fun _ => 0, chunks := fun _ => ⟨0, 0, 0, 0⟩, cqMsn := 0, cqCsn := 0, cqSsn := 0
      ckBuffer := 0, msgCount := 0, offsets := fun _ => 0 }
  persister :=
    { persistCursors := ⟨0, 0, 0, 0, 0, 0⟩
      pubPersistCursors := ⟨0, 0, 0, 0, 0, 0⟩
      chunkFile := .ofImage fun _ _ => 0
      slotsFile := .ofImage fun _ => .zero
      stateFile := .ofImage fun _ => ⟨0, 0, 0, 0, 0, 0, 0, 0, 0⟩
      commits := []
      walRanges := [] }
  io := []

/-- The chunk queue begins with the chunk after those in the store. -/
def initChunkQueue : PmqM Bool := do
  modify fun q =>
    let pc := q.persister.persistCursors
    { q with
      chunkQueue.cqCsn := pc.cksCsn
      chunkQueue.cqSsn := pc.cksSsn
      chunkQueue.cqMsn := pc.cksMsn
      chunkQueue.msgCount := 0 }
  beginCurrentChunkBuffer

/-- The first commit writes `state.dat`. -/
def initCreatenew : PmqM Bool := do
  if !(← commit) then
    return false
  initChunkQueue

/-- The state that a program leaves. -/
def stateAfter {α : Type} (program : PmqM α) (q : Pmq) : Pmq :=
  match program q with
  | .ok _ q' => q'
  | .error _ q' => q'

/-- A queue that was just created. -/
def create (chunkStore : ChunkStore) : Pmq := stateAfter initCreatenew (blank chunkStore)

/-! ## Loading a queue -/

/-- The files of a queue as they are found. -/
structure DiskImage where
  chunks : ℕ → Page
  chunksSize : ℕ
  slots : ℕ → Slot
  slotsSize : ℕ
  state : CommitRecord

/-- The checks of `pmq_init_loadexisting` on the commit record. -/
def CommitRecord.isLoadable (record : CommitRecord) : Bool :=
  SeqNum.le record.cksDiscardCsn record.cksCsn &&
  SeqNum.le record.cksSsn record.walSsn &&
  SeqNum.le record.cksMsn record.walMsn &&
  record.chunkfileSizeBytes.toNat % chunkSize == 0 &&
  decide ((record.cksCsn - record.cksDiscardCsn).toNat ≤
    record.chunkfileSizeBytes.toNat / chunkSize) &&
  record.slotsfileSizeBytes.toNat % slotSize == 0 &&
  decide ((record.walSsn - record.cksSsn).toNat ≤ record.slotsfileSizeBytes.toNat / slotSize)

/-- The queue that `pmq_init_loadexisting` and `pmq_init` make of the files before the chunk queue
is set up. -/
def loadedCursors (img : DiskImage) (chunkStore : ChunkStore) : Pmq :=
  let record := img.state
  let ic : InQueueCursors := ⟨record.walMsn, record.walSsn, record.cksMsn, record.cksSsn⟩
  let pc : PersistCursors :=
    ⟨record.walSsn, record.walMsn, record.cksCsn, record.cksMsn, record.cksSsn,
      record.cksDiscardCsn⟩
  { blank chunkStore with
    slotsfileSizeBytes := record.slotsfileSizeBytes
    slots := img.slots
    inQueueCursors := ic
    pubInQueueCursors := ic
    persister :=
      { persistCursors := pc
        pubPersistCursors := pc
        chunkFile := .ofImage img.chunks
        slotsFile := .ofImage img.slots
        stateFile := .ofImage fun _ => record
        commits := []
        walRanges := [] } }

/-- Opens the queue in the files, if they pass the checks. -/
def initLoadexisting (img : DiskImage) : Option Pmq := do
  let record := img.state
  guard (record.isLoadable)
  guard (img.slotsSize = record.slotsfileSizeBytes.toNat)
  let chunkStore ← initChunkStoreSize record.chunkfileSizeBytes
  guard (img.chunksSize = chunkStore.capacityBytes.toNat)
  return stateAfter initChunkQueue (loadedCursors img chunkStore)

end Beegfs.Pmq
