import Beegfs.Lib.Bytes
import Beegfs.Lib.DurableFile
import Beegfs.Lib.SeqNum
import Beegfs.Lib.Wp

/-!
# The persistent message queue: data

Messages are enqueued to a ring of slots in memory.  The persister packs them into chunks, which go
to a ring of chunks on the disk (`chunks.dat`); the messages that do not make a whole chunk yet are
written to a copy of the slots on the disk (`wal.dat`), and a commit record (`state.dat`) says what
of both is valid.

Messages, slots and chunks are counted by sequence numbers of 64 bits that wrap around: `msn`, `ssn`
and `csn`.
-/

namespace Beegfs.Pmq

open Bytes BitVec

/-! ## Sizes -/

/-- The bytes of a slot, of which the last ones are for the message. -/
def slotSize : ℕ := 128

def slotSpace : ℕ := 112

def slotLeaderMask : BitVec 32 := 1

/-- The number of slots of the ring in memory, and of those in `wal.dat`. -/
def slotCount : ℕ := 512 * 1024

def chunkSize : ℕ := 65536

/-- The number of chunks that are in memory at a time. -/
def numChunkBuffers : ℕ := 2

/-- The number of slots that a message needs. -/
def nslotsReq (size : ℕ) : ℕ := (size + slotSpace - 1) / slotSpace

/-! ## Slots, chunks and cursors -/

/-- A sequence number: an `MSN`, `SSN` or `CSN`. -/
abbrev Sn := BitVec 64

/-- A slot; the first one of a message is its leader, and `msgsize` is the number of bytes of the
message from this slot on. -/
structure Slot where
  flags : BitVec 32
  msgsize : BitVec 32
  payload : ℕ → Byte

def Slot.zero : Slot := ⟨0, 0, fun _ => 0⟩

def Slot.isLeader (slot : Slot) : Bool := slot.flags &&& slotLeaderMask != 0

/-- A chunk as it is on the disk: only the first `chunkSize` bytes are there. -/
abbrev Page := ℕ → Byte

/-- The cursors of the enqueuer.  The messages from `msnDisk` on are in the ring; those before may
be overwritten. -/
structure InQueueCursors where
  msn : Sn
  ssnMem : Sn
  msnDisk : Sn
  ssnDisk : Sn
deriving DecidableEq

/-- What is known of a chunk in memory beside its bytes: its first message, and the one after its
last when it is finished. -/
structure ChunkBuffer where
  msn : Sn
  ssn : Sn
  lastMsn : Sn
  lastSsn : Sn
deriving DecidableEq

/-- The chunks in memory.  The bytes of all of them are one block of `memory`, which ends with the
last of them, and `ckBuffer` is the index of the chunk that is being filled.  `offsets` has the
place of each of its `msgCount` messages, and that of the next one. -/
structure ChunkQueue where
  memory : ℕ → Byte
  chunks : ℕ → ChunkBuffer
  cqMsn : Sn
  cqCsn : Sn
  cqSsn : Sn
  ckBuffer : ℕ
  msgCount : ℕ
  offsets : ℕ → ℕ

/-- The address of the bytes of a chunk in memory. -/
def bufferData (index : ℕ) : ℕ := index * chunkSize

/-- The bytes of a chunk in memory. -/
def ChunkQueue.page (cq : ChunkQueue) (index : ℕ) : Page :=
  fun i => cq.memory (bufferData index + i)

/-- The cursors of the persister: the messages before `cksMsn` are in the chunks before `cksCsn`,
those from there to `walMsn` are in the slots on the disk, and the chunks before `cksDiscardCsn` are
given up. -/
structure PersistCursors where
  walSsn : Sn
  walMsn : Sn
  cksCsn : Sn
  cksMsn : Sn
  cksSsn : Sn
  cksDiscardCsn : Sn
deriving DecidableEq

/-- The contents of `state.dat`. -/
structure CommitRecord where
  inqueueSlotcount : BitVec 64
  slotsfileSizeBytes : BitVec 64
  walSsn : Sn
  walMsn : Sn
  chunkfileSizeBytes : BitVec 64
  cksCsn : Sn
  cksMsn : Sn
  cksSsn : Sn
  cksDiscardCsn : Sn
deriving DecidableEq

/-! ## The size of the chunk store -/

def isPowerOf2 (value : BitVec 64) : Bool := value &&& (value - 1) == 0

/-- The size of `chunks.dat`, which is kept for good: a power of two, and at least 64 MiB. -/
structure ChunkStore where
  capacityBytes : BitVec 64
  isPowerOf2 : isPowerOf2 capacityBytes = true
  atLeast : 64 * 1024 * 1024 ≤ capacityBytes.toNat

namespace ChunkStore

variable (cks : ChunkStore)

def chunkCount : ℕ := cks.capacityBytes.toNat / chunkSize

def chunksLowWatermark : ℕ := cks.chunkCount - 512

def chunksHighWatermark : ℕ := cks.chunkCount - 256

/-- The size is a power of two. -/
lemma exists_capacityBytes : ∃ e, cks.capacityBytes.toNat = 2 ^ e ∧ 26 ≤ e ∧ e < 64 := by
  have hle := cks.atLeast
  have hpow := cks.isPowerOf2
  have hone : (1 : BitVec 64).toNat = 1 := rfl
  rw [Pmq.isPowerOf2, beq_iff_eq, ← toNat_inj, toNat_and,
    toNat_sub_of_le (by rw [le_def, hone]; omega)] at hpow
  obtain ⟨e, he⟩ := (Nat.and_sub_one_eq_zero_iff_isPowerOfTwo (by omega)).mp hpow
  refine ⟨e, he, ?_, ?_⟩
  · by_contra h
    have := Nat.pow_le_pow_right (by decide : 0 < 2) (by omega : e ≤ 25)
    omega
  · by_contra h
    have := Nat.pow_le_pow_right (by decide : 0 < 2) (by omega : 64 ≤ e)
    omega

/-- The store has a whole number of chunks. -/
lemma dvd_capacityBytes : chunkSize ∣ cks.capacityBytes.toNat := by
  obtain ⟨e, he, _, _⟩ := cks.exists_capacityBytes
  rw [he]
  exact Nat.pow_dvd_pow 2 (by omega : 16 ≤ e)

/-- The number of chunks is a power of two, of at least 1024 chunks. -/
lemma exists_chunkCount : ∃ e, cks.chunkCount = 2 ^ e ∧ 10 ≤ e ∧ e ≤ 47 := by
  obtain ⟨e, he, _, _⟩ := cks.exists_capacityBytes
  refine ⟨e - 16, ?_, by omega, by omega⟩
  rw [chunkCount, Nat.div_eq_iff_eq_mul_left (by decide) cks.dvd_capacityBytes, he]
  exact (Nat.pow_sub_mul_pow 2 (by omega : 16 ≤ e)).symm

lemma le_chunkCount : 1024 ≤ cks.chunkCount := by
  obtain ⟨e, he, hle, _⟩ := cks.exists_chunkCount
  rw [he]
  exact Nat.pow_le_pow_right Nat.two_pos hle

lemma chunkCount_le : cks.chunkCount ≤ 2 ^ 47 := by
  obtain ⟨e, he, _, hle⟩ := cks.exists_chunkCount
  rw [he]
  exact Nat.pow_le_pow_right Nat.two_pos hle

/-- The smallest chunk store. -/
def smallest : ChunkStore := ⟨64 * 1024 * 1024, by decide, by decide⟩

end ChunkStore

/-- What `pmq_init_chunk_store_size` makes of a size; the other sizes fail its assertions. -/
def initChunkStoreSize (capacityBytes : BitVec 64) : Option ChunkStore :=
  if h : isPowerOf2 capacityBytes = true ∧ 64 * 1024 * 1024 ≤ capacityBytes.toNat then
    some ⟨capacityBytes, h.1, h.2⟩
  else
    none

end Beegfs.Pmq
