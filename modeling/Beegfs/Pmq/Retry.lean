import Beegfs.Pmq.Cursors
import Beegfs.Pmq.Recovery

/-!
# Failed calls

When a file operation fails, the call returns `false`, and a later call tries again.  What was
packed into chunks in memory stays there, so nothing is lost as long as there is memory for all
chunks that are not written.  When a third chunk is to be begun and the first one cannot be written,
the number of the current chunk has been advanced already, and the next call advances it once more.
-/

namespace Beegfs.Pmq

/-- The files hold all messages up to message `w` that are not discarded, in order and each of them
once, and the ring has those that are not in a chunk. -/
structure Session.Holds (s : Session) (d w stored : ℕ) : Prop where
  cksDiscardCsn : s.pmq.persister.persistCursors.cksDiscardCsn = BitVec.ofNat 64 d
  d_le : d ≤ (packing s.enqueued).chunk + 1
  wal : AtMessage s.enqueued w s.pmq.persister.persistCursors.walSsn
    s.pmq.persister.persistCursors.walMsn
  chunkStore : AtMessage s.enqueued stored s.pmq.persister.persistCursors.cksSsn
    s.pmq.persister.persistCursors.cksMsn
  messages : diskMessages s.pmq.chunkStore.chunkCount s.pmq.persister.persistCursors
    s.pmq.persister.chunkFile.contents s.pmq.persister.slotsFile.contents =
      numbered s.enqueued (messagesBefore s.enqueued d) w
  ring : RingKeeps s.enqueued stored s.pmq.slots
  synced : s.synced ≤ w

/-- No assertion was violated, and no message is lost or duplicated. -/
def Session.NothingLost (s : Session) : Prop := s.halted = none ∧ ∃ d w stored, s.Holds d w stored

/-- A message that is enqueued is copied inside its chunk, and file operations fail only when there
is memory for all chunks that are not written. -/
def Session.MayFail (s : Session) (call : Call) : Prop := s.CopiesInside call ∧ s.Safe call

section Retry

variable {msg : ℕ → Message} {cks : ChunkStore} {v : Positions} {s : Session} {call : Call}

/-- The files hold the messages that the persister's positions tell of. -/
lemma Inv.holds (h : Inv msg cks v s.pmq) (hs : s.enqueued = firstMessages msg v.n)
    (hsyn : s.synced ≤ v.pub.walled) :
    s.Holds v.p.discarded v.p.walled (chunkStart msg v.p.stored) := by
  have hcurs := h.cursorsAt
  have hsto := h.working.disk.stored_msgs_le
  have hdisc := chunkStart_le msg h.working.disk.discarded_le
  have hpub := chunkStart_le msg h.working.disk.pub_stored
  have hring := h.working.disk.ring
  have hpos := slotPos_le msg hpub
  have hpos' := slotPos_le msg h.working.disk.walled_le
  rw [← hs] at hcurs
  refine ⟨?_, ?_, hcurs.wal, hcurs.chunkStore, ?_, ?_, ?_⟩
  · rw [h.working.disk.cursors]
    rfl
  · have hle := hdisc.trans (hsto.trans (packing_at msg v.n).le_end)
    rw [hs]
    exact chunkStart_strictMono.le_iff_le.mp hle
  · rw [h.working.sized.chunkStore, h.working.disk.cursors, hs,
      numbered_firstMessages h.working.disk.walled_le, messagesBefore_firstMessages (by omega)]
    refine diskMessages_eq h.working.disk.chunks
      (fun i hi hiw t ht => (h.working.disk.wal i hi hiw t ht).contents) h.working.disk.discarded_le
      h.working.disk.stored_le h.walled (by omega)
  · rw [hs]
    exact (h.ring_pub.mono hpub le_rfl).ringKeeps
  · exact hsyn.trans h.working.disk.pub_walled

lemma Session.Sound.nothingLost (h : s.Sound cks) (hrun : s.halted = none) : s.NothingLost := by
  obtain ⟨msg, hmsg⟩ := exists_firstMessages h.valid
  obtain ⟨v, hinv, hn, hsyn⟩ := h.running hrun msg hmsg
  rw [← hn] at hmsg
  exact ⟨hrun, _, _, _, hinv.holds hmsg hsyn⟩

open Session

/-- In every state of a run in which file operations may fail, no assertion was violated, and the
files and the ring hold all messages, as long as each call in which an operation fails has memory
for all chunks that are not written. -/
theorem nothing_lost_after_failures (cks : ChunkStore) (calls : List Call)
    (hio : ∀ call ∈ calls, IoOutcome.crash ∉ call.io)
    (hcalls : EveryStep step Session.MayFail (start cks) calls) :
    EveryState step Session.NothingLost (start cks) calls := by
  refine everyState_of_everyStep (I := fun s : Session => s.Sound cks ∧ s.halted = none)
    ?_ (fun s hs => hs.1.nothingLost hs.2) ⟨sound_start cks, rfl⟩
    ((everyStep_of_forall hio).and hcalls)
  rintro s call ⟨hcrash, hcall⟩ ⟨hsound, hrun⟩
  refine ⟨hsound.step hcall.1 hcall.2, ?_⟩
  exact (hsound.halted_step hrun hcall.1 hcall.2).resolve_right fun h => hcrash h.1

/-- A call that fails to write anything, and one that succeeds. -/
theorem nothing_lost_after_failures_one :
    let calls : List Call :=
      [⟨.enqueue ⟨1000, fun _ => 7⟩, []⟩, ⟨.sync, [.fail 0]⟩, ⟨.sync, []⟩]
    (∀ call ∈ calls, IoOutcome.crash ∉ call.io) ∧
      EveryStep step Session.MayFail (start .smallest) calls ∧
      EveryState step Session.NothingLost (start .smallest) calls := by
  intro calls
  have hio : ∀ call ∈ calls, IoOutcome.crash ∉ call.io := by
    simp [calls]
  have hnofail : NoFail [] := nofun
  have hcalls : EveryStep step Session.MayFail (start .smallest) calls := by
    refine ⟨⟨⟨by decide, by decide⟩, .inl hnofail⟩, ⟨trivial, .inr (.inr ?_)⟩,
      ⟨trivial, .inl hnofail⟩, trivial⟩
    decide +kernel
  exact ⟨hio, hcalls, nothing_lost_after_failures .smallest calls hio hcalls⟩

/-- Three messages with a chunk each: when the first chunk cannot be written, the next call violates
an assertion, because three chunks are not written then. -/
theorem nothing_lost_after_failures_fails :
    ¬(runFrom step (start .smallest)
      [⟨.enqueue ⟨40000, fun _ => 1⟩, []⟩, ⟨.enqueue ⟨40000, fun _ => 2⟩, []⟩,
        ⟨.enqueue ⟨40000, fun _ => 3⟩, []⟩, ⟨.sync, [.fail 0]⟩, ⟨.sync, []⟩]).NothingLost := by
  intro h
  exact absurd h.1 (by decide +kernel)

end Retry

end Beegfs.Pmq
