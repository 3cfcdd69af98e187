import Beegfs.Pmq.Session

/-!
# Cursors and the ring of slots

The queue has four pairs of a slot number and a message number, which its parts advance on their
own.  As long as no file operation fails and no message is copied past the end of its chunk, all of
them are at the beginning of a message in every state that calls reach, and the ring keeps every
message until it is in the chunk store.  A message that is copied past the end of the last chunk in
memory is a fault.
-/

namespace Beegfs.Pmq

open SeqNum

variable (enqueued : List MessageData)

/-- The cursors are at message `i` of the list, or after its last message. -/
structure AtMessage (i : ℕ) (ssn msn : Sn) : Prop where
  le_length : i ≤ enqueued.length
  msn : msn = BitVec.ofNat 64 i
  ssn : ssn = BitVec.ofNat 64 (slotsBefore enqueued i)

/-- The cursors of the queue are at these messages: the one that the persister packs next, the first
one that is not in the chunk store, and the one after those in `wal.dat`. -/
structure CursorsAt (packed stored walled : ℕ) (q : Pmq) : Prop where
  inQueue : AtMessage enqueued enqueued.length q.inQueueCursors.ssnMem q.inQueueCursors.msn
  chunkQueue : AtMessage enqueued packed q.chunkQueue.cqSsn q.chunkQueue.cqMsn
  chunkStore : AtMessage enqueued stored q.persister.persistCursors.cksSsn
    q.persister.persistCursors.cksMsn
  wal : AtMessage enqueued walled q.persister.persistCursors.walSsn
    q.persister.persistCursors.walMsn

/-- The ring has all slots of the messages from `i` on. -/
def RingKeeps (i : ℕ) (slots : ℕ → Slot) : Prop :=
  ∀ k m, i ≤ k → enqueued[k]? = some m → ∀ t, t < m.nslots →
    m.SlotHolds t (slots (slotFor slotCount (BitVec.ofNat 64 (slotsBefore enqueued k + t))))

/-- Making room for the message succeeds, and the slots up to its end are not more than the ring
has. -/
def MakesRoom (q : Pmq) (m : MessageData) (io : List IoOutcome) : Prop :=
  ∃ q', prepareInputSlots m.nslots { q with io := io } = .ok true q' ∧
    (q'.inQueueCursors.ssnMem + BitVec.ofNat 64 m.nslots -
      q'.persister.persistCursors.cksSsn).toNat ≤ slotCount

/-- What holds of the cursors and the ring in every state. -/
structure Session.CursorsSound (s : Session) : Prop where
  running : s.halted = none
  cursors : ∃ packed stored walled, CursorsAt s.enqueued packed stored walled s.pmq ∧
    stored ≤ packed ∧ RingKeeps s.enqueued stored s.pmq.slots
  cks_le : le s.pmq.persister.persistCursors.cksSsn s.pmq.chunkQueue.cqSsn = true
  cq_le : le s.pmq.chunkQueue.cqSsn s.pmq.inQueueCursors.ssnMem = true
  makesRoom : ∀ m : MessageData, m.Valid → ∀ io, AllOk io → MakesRoom s.pmq m io
  walRanges : ∀ range ∈ s.pmq.persister.walRanges, (range.2 - range.1).toNat ≠ slotCount

section Cursors

variable {msg : ℕ → Message} {cks : ChunkStore} {v : Positions} {q : Pmq} {s : Session}

lemma atMessage_firstMessages {n i : ℕ} (hi : i ≤ n) :
    AtMessage (firstMessages msg n) i (BitVec.ofNat 64 (slotPos msg i)) (BitVec.ofNat 64 i) where
  le_length := by rwa [length_firstMessages]
  msn := rfl
  ssn := by rw [slotsBefore_firstMessages msg hi]

/-- The positions of the invariant are those of the cursors. -/
lemma Inv.cursorsAt (h : Inv msg cks v q) :
    CursorsAt (firstMessages msg v.n) v.c (chunkStart msg v.p.stored) v.p.walled q where
  inQueue := by
    rw [h.cursors, length_firstMessages]
    exact atMessage_firstMessages le_rfl
  chunkQueue := by
    rw [h.working.building.cqSsn, h.working.building.cqMsn]
    exact atMessage_firstMessages h.working.c_le
  chunkStore := by
    rw [h.working.disk.cursors]
    exact atMessage_firstMessages h.working.disk.stored_msgs_le
  wal := by
    rw [h.working.disk.cursors]
    exact atMessage_firstMessages h.working.disk.walled_le

lemma RingHolds.ringKeeps {slots : ℕ → Slot} {a n : ℕ} (h : RingHolds msg slots a n) :
    RingKeeps (firstMessages msg n) a slots := by
  intro k m hk hm t ht
  have hkn : k < n := by
    obtain ⟨hlt, _⟩ := List.getElem?_eq_some_iff.mp hm
    rwa [length_firstMessages] at hlt
  rw [getElem?_firstMessages msg hkn, Option.some_inj] at hm
  rw [← hm] at ht ⊢
  rw [slotsBefore_firstMessages msg hkn.le, slotFor_slotCount]
  exact h k hk hkn t ht

/-- The slots from the chunk store to the enqueuer are never more than the ring has. -/
lemma Inv.packed_order (h : Inv msg cks v q) :
    le q.persister.persistCursors.cksSsn q.chunkQueue.cqSsn = true ∧
      le q.chunkQueue.cqSsn q.inQueueCursors.ssnMem = true := by
  have hsto := slotPos_le msg (chunkStart_le msg h.working.disk.pub_stored)
  have hpack := slotPos_le msg
    (le_trans (chunkStart_le msg h.working.stored_le) h.working.building.start_le)
  have hle := slotPos_le msg h.working.c_le
  have hring := h.working.disk.ring
  unfold slotCount at hring
  rw [h.working.disk.cursors, h.working.building.cqSsn, h.cursors]
  simp only [Marks.cursors, inQueueAt]
  rw [le_ofNat ⟨by omega, by omega⟩, le_ofNat ⟨by omega, by omega⟩]
  exact ⟨decide_eq_true hpack, decide_eq_true hle⟩

/-- There is always room for a message, after some chunks were written. -/
lemma Inv.makesRoom (h : Inv msg cks v q) {m : MessageData} (hm : m.Valid) {io : List IoOutcome}
    (hio : AllOk io) : MakesRoom q m io := by
  let m' : Message := ⟨m, hm.1, hm.2⟩
  have hwp := prepareInputSlots_spec (h.setIo io) m'.nslots_le (.inr (.inl hio.noFail))
  unfold Runs Wp at hwp
  unfold MakesRoom
  cases hres : prepareInputSlots m.nslots { q with io := io } with
  | error halt q' =>
    rw [hres] at hwp
    exact absurd hwp.2.1 hio.not_crash
  | ok result q' =>
    rw [hres] at hwp
    cases result with
    | false => exact absurd hio.noFail hwp.1
    | true =>
      obtain ⟨-, v', ⟨hinv, -⟩, hn, hroom⟩ := hwp
      refine ⟨q', rfl, ?_⟩
      have hnd := slotPos_le msg (le_trans hinv.nd_le
        (chunkStart_le msg hinv.working.disk.pub_stored))
      have hle := slotPos_le msg hinv.working.disk.stored_msgs_le
      rw [← hn] at hroom
      rw [hinv.working.disk.cursors, hinv.cursors]
      simp only [Marks.cursors, inQueueAt]
      change slotPos msg v'.n + m.nslots ≤ _ at hroom
      unfold slotCount at hroom
      rw [← BitVec.ofNat_add, toNat_sub (by omega) (by omega), slotCount]
      omega

open Session

lemma Session.Healthy.cursorsSound (hs : s.Healthy cks) : s.CursorsSound := by
  obtain ⟨msg, hmsg⟩ := exists_firstMessages hs.sound.valid
  obtain ⟨v, hinv, hn, _⟩ := hs.sound.running hs.running msg hmsg
  rw [← hn] at hmsg
  have hsto := chunkStart_le msg hinv.working.disk.pub_stored
  refine ⟨hs.running, ⟨v.c, chunkStart msg v.p.stored, v.p.walled, ?_, ?_, ?_⟩, hinv.packed_order.1,
    hinv.packed_order.2, fun m hm io hio => hinv.makesRoom hm hio, fun range hrange => ?_⟩
  · rw [hmsg]
    exact hinv.cursorsAt
  · exact le_trans (chunkStart_le msg hinv.working.stored_le) hinv.working.building.start_le
  · rw [hmsg]
    exact (hinv.ring_pub.mono hsto le_rfl).ringKeeps
  · exact Nat.ne_of_lt (hinv.working.disk.walRanges range hrange)

/-- In every state that calls without errors reach, the cursors are at the beginning of messages,
and the ring has all messages that are not in the chunk store, as long as no message is copied past
the end of its chunk. -/
theorem cursors_at_messages (cks : ChunkStore) (calls : List Call)
    (hio : ∀ call ∈ calls, AllOk call.io)
    (hinside : EveryStep step Session.CopiesInside (start cks) calls) :
    EveryState step Session.CursorsSound (start cks) calls :=
  everyState_of_everyStep (I := Session.Healthy cks) (fun _ _ hcall hs => hs.step hcall.1 hcall.2)
    (fun _ hs => hs.cursorsSound) (healthy_start cks) (hinside.and (everyStep_of_forall hio))

/-- A queue of 64 MiB to which one message is written. -/
theorem cursors_at_messages_one :
    let calls : List Call := [⟨.enqueue ⟨1000, fun _ => 7⟩, []⟩, ⟨.sync, []⟩]
    (∀ call ∈ calls, AllOk call.io) ∧ EveryStep step Session.CopiesInside (start .smallest) calls ∧
      EveryState step Session.CursorsSound (start .smallest) calls := by
  intro calls
  have hio : ∀ call ∈ calls, AllOk call.io := by
    simp [calls, AllOk]
  have hinside : EveryStep step Session.CopiesInside (start .smallest) calls :=
    ⟨⟨by decide, by decide⟩, trivial, trivial⟩
  exact ⟨hio, hinside, cursors_at_messages .smallest calls hio hinside⟩

/-- The third message ends 10 bytes before the end of the second chunk, but its two slots are copied
as a whole, 14 bytes past the end of the memory of both chunks. -/
theorem cursors_at_messages_fails :
    let s := runFrom step (start .smallest)
      [⟨.enqueue ⟨65516, fun _ => 1⟩, []⟩, ⟨.enqueue ⟨65310, fun _ => 2⟩, []⟩,
        ⟨.enqueue ⟨200, fun _ => 3⟩, []⟩, ⟨.sync, []⟩]
    s.halted = some .fault ∧ ¬s.CursorsSound := by
  intro s
  have hfault : s.halted = some .fault := by decide +kernel
  exact ⟨hfault, fun h => by cases hfault.symm.trans h.running⟩

end Cursors

end Beegfs.Pmq
