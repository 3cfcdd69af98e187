import Beegfs.Locking.EntryLockRetry
import Beegfs.Locking.RangeLockRetry

/-!
# Guarantees of the lock protocol

What a client of either lock kind may rely on, after any sequence of calls: no request that could be
granted stays queued, and a request may be sent again.
-/

namespace Beegfs

open LockDetails RangeLocks EntryLockQueuesContainer

/-- The state of the entry locks after the calls. -/
def entryLocksAfter (calls : List (LockOp EntryLockDetails)) : EntryLockQueuesContainer :=
  runFrom step empty calls

/-- The state of the range locks after the calls. -/
def rangeLocksAfter (calls : List (LockOp RangeLockDetails)) : RangeLocks :=
  runFrom step empty calls

/-- The request overlaps a lock or request of another handle in the list. -/
def OverlapsOther (d : RangeLockDetails) (ls : List RangeLockDetails) : Prop :=
  ∃ l ∈ ls, l.handle ≠ d.handle ∧ d.Overlaps l
  deriving Decidable

lemma RangeLocks.overlapsOther_of_blocked {s : RangeLocks} {w : RangeLockDetails}
    {ws : List RangeLockDetails} (h : s.Blocked w ws) :
    OverlapsOther w s.exclRangeFLocks.locks.elems ∨
      (isExclusive w = true ∧ OverlapsOther w s.sharedRangeFLocks.locks.elems) ∨
      OverlapsOther w ws := by
  rcases h with ⟨k, hne, x, hx, ⟨l, hl, rfl, hxl⟩ | ⟨hm, l, hl, rfl, hxl⟩⟩ | hwait
  · exact .inl ⟨l, hl, hne, RangeLockDetails.overlaps_of_mem hx hxl⟩
  · exact .inr (.inl ⟨hm, l, hl, hne, RangeLockDetails.overlaps_of_mem hx hxl⟩)
  · exact .inr (.inr hwait)

/-- No lost wake-up.  Entry locks: while there is no exclusive lock, readers wait only behind a
waiting writer, and writers only for a reader.  Range locks: a waiting writer overlaps a granted
lock or an earlier waiting writer of another handle, a waiting reader an exclusive lock or a waiting
writer of another handle. -/
theorem no_lost_wakeup (entryCalls : List (LockOp EntryLockDetails))
    (hentry : ∀ op ∈ entryCalls, op.Valid EntryLockQueuesContainer.EntryRequest)
    (rangeCalls : List (LockOp RangeLockDetails))
    (hrange : ∀ op ∈ rangeCalls, op.Valid RangeLocks.RangeRequest) :
    (isSet (entryLocksAfter entryCalls).exclLock = false →
      ((entryLocksAfter entryCalls).queues.waitersSharedLock = [] ∨
        (entryLocksAfter entryCalls).queues.waitersExclLock ≠ []) ∧
      ((entryLocksAfter entryCalls).queues.waitersExclLock = [] ∨
        ∃ l, l ∈ (entryLocksAfter entryCalls).sharedLocks)) ∧
    (∀ i w, (rangeLocksAfter rangeCalls).queues.waitersExclLock[i]? = some w →
      OverlapsOther w (rangeLocksAfter rangeCalls).exclRangeFLocks.locks.elems ∨
      OverlapsOther w (rangeLocksAfter rangeCalls).sharedRangeFLocks.locks.elems ∨
      OverlapsOther w ((rangeLocksAfter rangeCalls).queues.waitersExclLock.take i)) ∧
    (∀ w ∈ (rangeLocksAfter rangeCalls).queues.waitersSharedLock,
      OverlapsOther w (rangeLocksAfter rangeCalls).exclRangeFLocks.locks.elems ∨
      OverlapsOther w (rangeLocksAfter rangeCalls).queues.waitersExclLock) := by
  obtain ⟨-, hentry'⟩ := inv_and_noGrantableWaiter_run hentry
  obtain ⟨hinv, hrange'⟩ := inv_and_noGrantableWaiter_run hrange
  refine ⟨fun hunset => ?_, fun i w hi => ?_, fun w hw => ?_⟩
  · obtain ⟨hsh, hex⟩ := hentry' hunset
    exact ⟨or_iff_not_imp_left.mpr hsh, or_iff_not_imp_left.mpr hex⟩
  · obtain ⟨_, hget⟩ := List.getElem?_eq_some_iff.mp hi
    have hsplit : (rangeLocksAfter rangeCalls).queues.waitersExclLock =
        (rangeLocksAfter rangeCalls).queues.waitersExclLock.take i ++
          w :: (rangeLocksAfter rangeCalls).queues.waitersExclLock.drop (i + 1) := by
      rw [← hget, List.getElem_cons_drop, List.take_append_drop]
    exact (overlapsOther_of_blocked (hrange'.excl _ w _ hsplit)).imp_right
      fun h => h.imp_left And.right
  · have hm := hinv.sharedWaiters w hw
    refine (overlapsOther_of_blocked (hrange'.shared w hw)).imp_right fun h => ?_
    exact h.resolve_left fun hex => Bool.false_ne_true (hm.symm.trans hex.1)

/-- A writer that waits for a reader, and a queue of range requests behind a writer. -/
theorem no_lost_wakeup_queues :
    let rangeCalls : List (LockOp RangeLockDetails) :=
      [.request ⟨1, 7, "a", entryLockTypeExclusive, 0, 9⟩,
       .request ⟨2, 7, "b", entryLockTypeExclusive, 5, 14⟩,
       .request ⟨3, 7, "c", entryLockTypeShared, 10, 19⟩]
    (rangeLocksAfter rangeCalls).queues.waitersSharedLock =
        [⟨3, 7, "c", entryLockTypeShared, 10, 19⟩] ∧
      ∀ w ∈ (rangeLocksAfter rangeCalls).queues.waitersSharedLock,
        OverlapsOther w (rangeLocksAfter rangeCalls).exclRangeFLocks.locks.elems ∨
        OverlapsOther w (rangeLocksAfter rangeCalls).queues.waitersExclLock :=
  ⟨by decide, (no_lost_wakeup
    [.request ⟨1, 10, 0, "r", entryLockTypeShared⟩,
      .request ⟨2, 10, 0, "w", entryLockTypeExclusive⟩] (by decide) _ (by decide)).2.2⟩

/-- The IDs of the queued requests, in the ID set and without repetition. -/
def IdsInStep {δ : Type} [LockDetails δ] (q : WaiterQueues δ) : Prop :=
  q.waitersLockIDs = (q.waiters.map lockAckID).toFinset ∧ (q.waiters.map lockAckID).Nodup

/-- Requests may be sent again.  After any calls the ID set is in step with the queues; and a lock
request that is processed twice in a row changes nothing the second time, wakes nobody, and, if its
ID was not in use, is answered according to whether the lock is held. -/
theorem retransmission_safe :
    (∀ calls : List (LockOp EntryLockDetails),
      (∀ op ∈ calls, op.Valid EntryLockQueuesContainer.EntryRequest) →
      IdsInStep (entryLocksAfter calls).queues ∧
      ∀ d, EntryLockQueuesContainer.EntryRequest d → isLock d = true →
        let first := ((entryLocksAfter calls).flockEntryUnlocked d).1
        (first.flockEntryUnlocked d).1 = first ∧ (first.flockEntryUnlocked d).2.2 = [] ∧
        (d.lockAckID ∉ (entryLocksAfter calls).queues.waitersLockIDs →
          ((first.flockEntryUnlocked d).2.1 = true ↔ first.Holds d))) ∧
    (∀ calls : List (LockOp RangeLockDetails), (∀ op ∈ calls, op.Valid RangeLocks.RangeRequest) →
      IdsInStep (rangeLocksAfter calls).queues ∧ ∀ d, RangeLocks.RangeRequest d → isLock d = true →
        let first := ((rangeLocksAfter calls).flockRangeUnlocked d).1
        (first.flockRangeUnlocked d).1 = first ∧ (first.flockRangeUnlocked d).2.2 = [] ∧
        (d.lockAckID ∉ (rangeLocksAfter calls).queues.waitersLockIDs →
          ((first.flockRangeUnlocked d).2.1 = true ↔ first.Holds d))) := by
  refine ⟨fun calls hcalls => ?_, fun calls hcalls => ?_⟩
  · obtain ⟨hinv, -⟩ := inv_and_noGrantableWaiter_run hcalls
    refine ⟨⟨hinv.consistent.ids_eq, hinv.consistent.nodup⟩, fun d hd hl => ?_⟩
    by_cases hid : d.lockAckID ∈ (entryLocksAfter calls).queues.waitersLockIDs
    · have hwait : (entryLocksAfter calls).flockEntryUnlocked d =
          (entryLocksAfter calls, false, []) := LockOps.request_of_waiting hl hid
      simp only [hwait, true_and]
      exact fun hnot => absurd hid hnot
    · have htwice := hinv.flockEntryUnlocked_twice hid hd hl
      simp only [htwice, true_and]
      intro _
      exact flockEntryIsGranted_iff hd.isSet (hd.validFlags hl)
  · obtain ⟨hinv, hn⟩ := inv_and_noGrantableWaiter_run hcalls
    refine ⟨⟨hinv.consistent.ids_eq, hinv.consistent.nodup⟩, fun d hd hl => ?_⟩
    change RangeLocks.Inv (rangeLocksAfter calls) at hinv
    by_cases hid : d.lockAckID ∈ (rangeLocksAfter calls).queues.waitersLockIDs
    · have hwait : (rangeLocksAfter calls).flockRangeUnlocked d =
          (rangeLocksAfter calls, false, []) := LockOps.request_of_waiting hl hid
      simp only [hwait, true_and]
      exact fun hnot => absurd hid hnot
    · have htwice := hn.flockRangeUnlocked_twice hinv hd hl hid
      simp only [htwice, true_and]
      intro _
      have hstep : ((rangeLocksAfter calls).step (.request d)).Inv := hinv.step hd
      exact hstep.flockRangeIsGranted_iff (hd.wf_of_isLock hl) (hd.validFlags hl)

/-- A reader that is granted at once, and one that has to wait for a writer of the range, ask
again. -/
theorem retransmission_safe_readers :
    let first := ((entryLocksAfter []).flockEntryUnlocked ⟨1, 10, 0, "r", entryLockTypeShared⟩).1
    let d : RangeLockDetails := ⟨2, 7, "b", entryLockTypeShared, 5, 14⟩
    let calls : List (LockOp RangeLockDetails) :=
      [.request ⟨1, 7, "a", entryLockTypeExclusive, 0, 9⟩]
    let queued := ((rangeLocksAfter calls).flockRangeUnlocked d).1
    (first.flockEntryUnlocked ⟨1, 10, 0, "r", entryLockTypeShared⟩).1 = first ∧
      first.HoldsShared ⟨1, 10⟩ ∧
      (queued.flockRangeUnlocked d).1 = queued ∧ d ∈ queued.queues.waitersSharedLock :=
  ⟨((retransmission_safe.1 [] (by decide)).2 ⟨1, 10, 0, "r", entryLockTypeShared⟩ (by decide)
    (by decide)).1, by decide,
    ((retransmission_safe.2 [.request ⟨1, 7, "a", entryLockTypeExclusive, 0, 9⟩] (by decide)).2
      ⟨2, 7, "b", entryLockTypeShared, 5, 14⟩ (by decide) (by decide)).1, by decide⟩

end Beegfs
