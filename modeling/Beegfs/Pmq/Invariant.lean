import Beegfs.Pmq.ChunkPage

/-!
# The invariant of the message queue

All cursors of the queue are positions in one sequence of messages `msg`.  `Marks` are the
persister's positions: how many chunks are stored, how many messages are in `wal.dat` or a chunk,
and how many chunks are discarded.  `Building` and `Finished` are about the chunks in memory, `Disk`
is about the persister and its files, and `Inv` is about the whole queue between two calls.

Packing a message may write past the end of its chunk (`bytesCopied`), into the other chunk or
behind the memory of both.  `Inside` is that this does not happen to any of the `n` messages
enqueued so far.
-/

namespace Beegfs.Pmq

section Invariant

variable (msg : ℕ → Message)

/-! ## Chunks in memory -/

/-- Of the first `n` messages, none is copied past the end of the chunk that it is packed into. -/
def Inside (n : ℕ) : Prop :=
  ∀ j i, chunkStart msg j ≤ i → i < chunkStart msg (j + 1) → i < n →
    offsetIn msg (chunkStart msg j) i + bytesCopied (msg i).size ≤ chunkSize

lemma Inside.mono {msg : ℕ → Message} {n n' : ℕ} (h : Inside msg n) (hle : n' ≤ n) :
    Inside msg n' :=
  fun j i hji hij hi => h j i hji hij (hi.trans_le hle)

/-- The page holds chunk `j`. -/
def HoldsChunk (j : ℕ) (page : Page) : Prop :=
  PageHolds msg (chunkStart msg j) (chunkStart msg (j + 1)) page

/-- The first `c` messages are packed, the last of them into chunk `K`, which is being filled. -/
structure Building (c K : ℕ) (cq : ChunkQueue) : Prop where
  cqMsn : cq.cqMsn = BitVec.ofNat 64 c
  cqCsn : cq.cqCsn = BitVec.ofNat 64 K
  cqSsn : cq.cqSsn = BitVec.ofNat 64 (slotPos msg c)
  start_le : chunkStart msg K ≤ c
  le_end : c ≤ chunkStart msg (K + 1)
  ckBuffer : cq.ckBuffer = K % 2
  msn : (cq.chunks (K % 2)).msn = BitVec.ofNat 64 (chunkStart msg K)
  msgCount : cq.msgCount = c - chunkStart msg K
  offsets : ∀ i, i ≤ c - chunkStart msg K →
    cq.offsets i = offsetIn msg (chunkStart msg K) (chunkStart msg K + i)
  packed : Packed msg (chunkStart msg K) c cq.memory (bufferData (K % 2))

/-- Chunk `j` is finished and ready to be written. -/
structure Finished (j : ℕ) (cq : ChunkQueue) : Prop where
  lastMsn : (cq.chunks (j % 2)).lastMsn = BitVec.ofNat 64 (chunkStart msg (j + 1))
  lastSsn : (cq.chunks (j % 2)).lastSsn = BitVec.ofNat 64 (slotPos msg (chunkStart msg (j + 1)))
  page : HoldsChunk msg j (cq.page (j % 2))

/-! ## Files -/

/-- The positions of the persister: the number of chunks that are stored, of messages that are in a
chunk or in `wal.dat`, and of chunks that are discarded. -/
structure Marks where
  stored : ℕ
  walled : ℕ
  discarded : ℕ

/-- The cursors at the given positions. -/
def Marks.cursors (p : Marks) : PersistCursors where
  walSsn := BitVec.ofNat 64 (slotPos msg p.walled)
  walMsn := BitVec.ofNat 64 p.walled
  cksCsn := BitVec.ofNat 64 p.stored
  cksMsn := BitVec.ofNat 64 (chunkStart msg p.stored)
  cksSsn := BitVec.ofNat 64 (slotPos msg (chunkStart msg p.stored))
  cksDiscardCsn := BitVec.ofNat 64 p.discarded

variable (cks : ChunkStore)

/-- The commit record with the given positions. -/
def Marks.record (p : Marks) : CommitRecord where
  inqueueSlotcount := BitVec.ofNat 64 slotCount
  slotsfileSizeBytes := BitVec.ofNat 64 (slotCount * slotSize)
  walSsn := BitVec.ofNat 64 (slotPos msg p.walled)
  walMsn := BitVec.ofNat 64 p.walled
  chunkfileSizeBytes := cks.capacityBytes
  cksCsn := BitVec.ofNat 64 p.stored
  cksMsn := BitVec.ofNat 64 (chunkStart msg p.stored)
  cksSsn := BitVec.ofNat 64 (slotPos msg (chunkStart msg p.stored))
  cksDiscardCsn := BitVec.ofNat 64 p.discarded

/-- The messages from `a` to `b` are in `wal.dat` and survive a crash. -/
def WalHolds (file : DurableFile ℕ Slot) (a b : ℕ) : Prop :=
  ∀ i, a ≤ i → i < b → ∀ t, t < (msg i).nslots →
    file.Always ((slotPos msg i + t) % slotCount) ((msg i).SlotHolds t)

/-- What a commit record with the positions `r` promises: a crash leaves its chunks and slots. -/
structure Promised (r : Marks) (per : Persister) : Prop where
  chunks : ∀ j, r.discarded ≤ j → j < r.stored →
    per.chunkFile.Always (j % cks.chunkCount) (HoldsChunk msg j)
  wal : WalHolds msg per.slotsFile (chunkStart msg r.stored) r.walled

/-- The positions `r` are between what was committed last and what the persister has done. -/
structure Marks.Between (pub r p : Marks) : Prop where
  pub_stored : pub.stored ≤ r.stored
  stored : r.stored ≤ p.stored
  pub_walled : pub.walled ≤ r.walled
  walled : r.walled ≤ p.walled
  discarded : p.discarded ≤ r.discarded
  discarded_le : r.discarded ≤ r.stored

/-- The persister is at the positions `p`, and has committed and published `pub`, when `n` messages
are enqueued. -/
structure Disk (n : ℕ) (p pub : Marks) (per : Persister) : Prop where
  cursors : per.persistCursors = p.cursors msg
  pubCursors : per.pubPersistCursors = pub.cursors msg
  pub_discarded : pub.discarded = p.discarded
  pub_stored : pub.stored ≤ p.stored
  pub_walled : pub.walled ≤ p.walled
  discarded_le : p.discarded ≤ p.stored
  stored_le : p.stored ≤ p.discarded + cks.chunkCount
  stored_msgs_le : chunkStart msg p.stored ≤ n
  walled_le : p.walled ≤ n
  ring : slotPos msg n ≤ slotPos msg (chunkStart msg pub.stored) + slotCount
  chunks : ∀ j, p.discarded ≤ j → j < p.stored →
    HoldsChunk msg j (per.chunkFile.contents (j % cks.chunkCount))
  wal : WalHolds msg per.slotsFile (chunkStart msg p.stored) p.walled
  walRanges : ∀ range ∈ per.walRanges, (range.2 - range.1).toNat < slotCount
  durable : per.stateFile.synced () = pub.record msg cks
  records : ∀ record, per.stateFile.MaySurvive () record →
    ∃ r : Marks, record = r.record msg cks ∧ pub.Between r p ∧ Promised msg cks r per

/-! ## The queue -/

/-- The sizes of the files, which no call changes. -/
structure Sized (q : Pmq) : Prop where
  chunkStore : q.chunkStore = cks
  slotsfileSizeBytes : q.slotsfileSizeBytes = BitVec.ofNat 64 (slotCount * slotSize)

/-- The persister is at the positions `p`, and has packed `c` of the `n` messages, the last of them
into chunk `K`. -/
structure Working (n c K : ℕ) (p pub : Marks) (q : Pmq) : Prop where
  sized : Sized cks q
  c_le : c ≤ n
  inside : Inside msg n
  building : Building msg c K q.chunkQueue
  finished : ∀ j, p.stored ≤ j → j < K → Finished msg j q.chunkQueue
  stored_le : p.stored ≤ K
  le_stored : K ≤ p.stored + 1
  disk : Disk msg cks n p pub q.persister

/-- The cursors of the enqueuer when `n` messages are enqueued, and those before `nd` may be
overwritten. -/
def inQueueAt (n nd : ℕ) : InQueueCursors where
  msn := BitVec.ofNat 64 n
  ssnMem := BitVec.ofNat 64 (slotPos msg n)
  msnDisk := BitVec.ofNat 64 nd
  ssnDisk := BitVec.ofNat 64 (slotPos msg nd)

/-- The positions of a queue: `n` messages are enqueued, of which the ring has those from `nd` on,
and `c` are packed, the last into chunk `K`. -/
structure Positions where
  n : ℕ
  nd : ℕ
  c : ℕ
  K : ℕ
  p : Marks
  pub : Marks

/-- The queue is at the positions `v` between two calls. -/
structure Inv (v : Positions) (q : Pmq) : Prop where
  working : Working msg cks v.n v.c v.K v.p v.pub q
  started : v.K = 0 ∨ chunkStart msg v.K < v.c
  walled : chunkStart msg v.p.stored ≤ v.p.walled
  cursors : q.inQueueCursors = inQueueAt msg v.n v.nd
  pubCursors : ∃ nd, nd ≤ v.nd ∧ q.pubInQueueCursors = inQueueAt msg v.n nd ∧
    slotPos msg v.n ≤ slotPos msg nd + slotCount
  nd_le : v.nd ≤ chunkStart msg v.pub.stored
  ring : RingHolds msg q.slots v.nd v.n

end Invariant

end Beegfs.Pmq
