import Beegfs.Locking.EntryLockInvariant

/-!
# Mutual exclusion of entry locks

The purpose of the locks: while a handle holds the exclusive lock, no other handle holds a shared
one.  All ways of granting a request keep this but one.  `flockEntryTryNextWaiters` grants the first
waiting writer as soon as there is no exclusive lock.  It is called when one reader gives up its
lock and does not look whether other readers still hold theirs.

`OverlooksReader` says when a call meets this: there is no exclusive lock, the call removes a shared
lock or a waiting request, a writer waits (or is queued by the call) and a reader that the call does
not concern keeps its lock.  The runs in which mutual exclusion holds throughout are exactly those
without such a call.
-/

namespace Beegfs.EntryLockQueuesContainer

open LockDetails WaiterQueues EntryLockQueuesContainer List

variable {s : EntryLockQueuesContainer} {d : EntryLockDetails}

/-- While a handle holds the exclusive lock, no other handle holds a shared lock. -/
def MutualExclusion (s : EntryLockQueuesContainer) : Prop :=
  isSet s.exclLock = true → ∀ l ∈ s.sharedLocks, l.handle = s.exclLock.handle
  deriving Decidable

/-- The removal of what belongs to the owners satisfying `p` removes something, and leaves a reader
and a waiting writer. -/
def CancelOverlooksReader (s : EntryLockQueuesContainer) (p : EntryLockDetails → Bool) : Prop :=
  isSet s.exclLock = false ∧
  ((∃ l ∈ s.sharedLocks.elems, p l = true) ∨ ∃ w ∈ s.queues.waiters, p w = true) ∧
  (∃ l ∈ s.sharedLocks.elems, p l = false) ∧ ∃ w ∈ s.queues.waitersExclLock, p w = false
  deriving Decidable

/-- The owner of the request has a shared lock, and so has another handle. -/
def SharesWithOther (s : EntryLockQueuesContainer) (d : EntryLockDetails) : Prop :=
  isSet s.exclLock = false ∧ s.HoldsShared d.handle ∧ ∃ l ∈ s.sharedLocks.elems, l.handle ≠ d.handle
  deriving Decidable

/-- The call lets `flockEntryTryNextWaiters` grant a writer while a reader holds its lock. -/
def OverlooksReader (s : EntryLockQueuesContainer) : LockOp EntryLockDetails → Prop
  | .request d =>
    if isCancel d then s.CancelOverlooksReader d.equalsHandle
    else if isUnlock d then s.SharesWithOther d ∧ s.queues.waitersExclLock ≠ []
    -- an upgrade that has to wait gives up the shared lock, and the queue is not empty
    else s.SharesWithOther d ∧ isExclusive d = true ∧ allowsWaiting d = true ∧
      d.lockAckID ∉ s.queues.waitersLockIDs
  | .cancelByClientID client => s.CancelOverlooksReader fun w => w.clientNumID == client
  | .cancelAllWaiters => False

instance (s : EntryLockQueuesContainer) : DecidablePred s.OverlooksReader
  | .request d =>
    inferInstanceAs (Decidable (if isCancel d then _ else if isUnlock d then _ else _))
  | .cancelByClientID _ => inferInstanceAs (Decidable (s.CancelOverlooksReader _))
  | .cancelAllWaiters => isFalse id

/-! ## One call -/

/-- The exclusive lock and shared locks do not coexist, not even for one handle. -/
def NoSharedUnderExclusive (s : EntryLockQueuesContainer) : Prop :=
  isSet s.exclLock = true → ∀ l, ¬ l ∈ s.sharedLocks

lemma Inv.mutualExclusion_iff (hs : s.Inv) : s.MutualExclusion ↔ s.NoSharedUnderExclusive := by
  refine forall_congr' fun hset => ⟨fun h l hl => ?_, fun h l hl => absurd hl (h l)⟩
  exact hs.writer_not_reader hset ⟨l, hl, h l hl⟩

/-- The state in which trying the waiters goes wrong. -/
def ReaderAndWaitingWriter (s : EntryLockQueuesContainer) : Prop :=
  isSet s.exclLock = false ∧ s.queues.waitersExclLock ≠ [] ∧ ∃ l, l ∈ s.sharedLocks

/-- Trying the waiters keeps mutual exclusion unless a writer waits while a reader has its lock. -/
lemma Inv.noSharedUnderExclusive_flockEntryTryNextWaiters (hs : s.Inv)
    (hx : s.NoSharedUnderExclusive) :
    s.flockEntryTryNextWaiters.1.NoSharedUnderExclusive ↔ ¬ s.ReaderAndWaitingWriter := by
  rcases flockEntryTryNextWaiters_cases s with
    ⟨hset, heq⟩ | ⟨hset, hwe, heq⟩ | ⟨hset, w, ws, hw, heq⟩
  · rw [heq]
    refine iff_of_true hx fun h => ?_
    nomatch hset.symm.trans h.1
  · obtain ⟨hex, -, -⟩ := grantSharedWaiters_spec s _ rfl
    rw [heq]
    refine iff_of_true (fun h => ?_) fun h => h.2.1 hwe
    rw [hex, hset] at h
    nomatch h
  · have hwset : isSet w = true := hs.waiters_isSet w (mem_waiters.mpr (.inl (hw ▸ mem_cons_self)))
    rw [heq]
    constructor
    · rintro hno ⟨-, -, l, hl⟩
      exact hno hwset l hl
    · intro hno _ l hl
      exact hno ⟨hset, hw ▸ cons_ne_nil w ws, l, hl⟩

section

variable (hx : s.NoSharedUnderExclusive)

include hx

lemma NoSharedUnderExclusive.of_removed {r : EntryLockQueuesContainer} (h : Removed s r) :
    r.NoSharedUnderExclusive :=
  fun hset l hl => hx (h.exclLock_eq hset ▸ hset) l (h.shared l hl)

/-- After the removal for the owners satisfying `p`, the waiters are tried and a reader and a
waiting writer are left, exactly under the condition on the state before. -/
lemma cancelOverlooksReader_iff (p : EntryLockDetails → Bool) :
    ((s.flockEntryCancelIf p).2 = true ∧ (s.flockEntryCancelIf p).1.ReaderAndWaitingWriter) ↔
      s.CancelOverlooksReader p := by
  have hwe : (s.flockEntryCancelIf p).1.queues.waitersExclLock ≠ [] ↔
      ∃ w ∈ s.queues.waitersExclLock, p w = false := by
    simp [flockEntryCancelIf, removeIf]
  have hsh : (∃ l, l ∈ (s.flockEntryCancelIf p).1.sharedLocks) ↔
      ∃ l ∈ s.sharedLocks.elems, p l = false :=
    exists_congr fun l => OrdSet.mem_eraseIf
  have hrem : isSet s.exclLock = false → ((s.flockEntryCancelIf p).2 = true ↔
      (∃ l ∈ s.sharedLocks.elems, p l = true) ∨ ∃ w ∈ s.queues.waiters, p w = true) := by
    intro hunset
    simp only [flockEntryCancelIf, hunset, Bool.false_and, Bool.false_or,
      Bool.or_eq_true, any_eq_true, mem_waiters, or_and_right, exists_or, or_assoc]
  have hex : isSet s.exclLock = false → isSet (s.flockEntryCancelIf p).1.exclLock = false := by
    intro hunset
    simp only [flockEntryCancelIf, hunset, Bool.false_and, Bool.false_eq_true, if_false]
  unfold ReaderAndWaitingWriter CancelOverlooksReader
  rw [hwe, hsh]
  constructor
  · rintro ⟨hr, -, hw, l, hl⟩
    -- with an exclusive lock there would be no shared one
    have hunset : isSet s.exclLock = false := by
      rw [← Bool.not_eq_true]
      exact fun hset => hx hset l hl.1
    exact ⟨hunset, (hrem hunset).mp hr, ⟨l, hl⟩, hw⟩
  · rintro ⟨hunset, hr, hl, hw⟩
    exact ⟨(hrem hunset).mpr hr, hex hunset, hw, hl⟩

/-- An unlock leaves a reader and a waiting writer exactly if a reader gives up its lock, another
keeps its own, and a writer waits. -/
lemma unlockOverlooksReader_iff (hd : isSet d = true) :
    ((s.flockEntryUnlock d).2 = true ∧ isSet (s.flockEntryUnlock d).1.exclLock = false ∧
      ∃ l, l ∈ (s.flockEntryUnlock d).1.sharedLocks) ↔ s.SharesWithOther d := by
  rcases flockEntryUnlock_cases s hd with ⟨hex, heq⟩ | ⟨-, hsh, heq⟩ | ⟨-, hsh, heq⟩
  · rw [heq]
    refine iff_of_false (fun h => ?_) fun h => ?_
    · obtain ⟨-, -, l, hl⟩ := h
      exact hx hex.1 l hl
    · nomatch h.1.symm.trans hex.1
  · rw [heq]
    have hne : ∀ l, l ∈ s.sharedLocks.erase d ↔ l ∈ s.sharedLocks.elems ∧ l.handle ≠ d.handle := by
      intro l
      rw [OrdSet.mem_erase, ← Bool.not_eq_true, EntryLockDetails.compEquiv_mapComparator, ne_comm,
        OrdSet.mem_def]
    simp only [hne, SharesWithOther, hsh, true_and]
  · rw [heq]
    exact iff_of_false (fun h => nomatch h.1) fun h => hsh h.2.1

end

/-- An immediate grant keeps mutual exclusion. -/
lemma Inv.noSharedUnderExclusive_grant (hs : s.Inv) (hd : EntryRequest d) (hl : isLock d = true)
    (hc : s.flockEntryCheckConflicts d = false) :
    (ops.grant (s.flockEntryUnlock d).1 d).NoSharedUnderExclusive := by
  obtain ⟨hnex, hnsh⟩ := hs.not_holds_flockEntryUnlock hd.isSet
  rw [← Bool.not_eq_true, flockEntryCheckConflicts_iff, not_or, not_or] at hc
  obtain ⟨hcex, hcsh, -⟩ := hc
  have hremoved := removed_flockEntryUnlock (s := s) hd.isSet
  rw [grant_eq (hd.validFlags hl)]
  split_ifs with hm
  · intro _ l hmem
    -- the shared locks of others are conflicts, the own one has been given up
    by_cases hown : l.handle = d.handle
    · exact hnsh ⟨l, hmem, hown⟩
    · exact hcsh ⟨hm, l, hremoved.shared l hmem, hown⟩
  · intro hset
    -- the exclusive lock of another is a conflict, the own one has been given up
    have heq := hremoved.exclLock_eq hset
    exact absurd ⟨heq ▸ hset, fun h => hnex ⟨hset, heq ▸ h⟩⟩ hcex

variable {op : LockOp EntryLockDetails}

/-- Before the waiters are tried, mutual exclusion holds still. -/
lemma NoSharedUnderExclusive.beforeWakeup (hx : s.NoSharedUnderExclusive) (hs : s.Inv)
    (hop : op.Valid EntryRequest) :
    (ops.beforeWakeup s op).1.NoSharedUnderExclusive := by
  have hunl : ∀ d, EntryRequest d → (s.flockEntryUnlock d).1.NoSharedUnderExclusive :=
    fun _ hd => hx.of_removed (removed_flockEntryUnlock hd.isSet)
  exact LockOps.beforeWakeup_cases (P := fun r => NoSharedUnderExclusive r.1) hx
    (fun p => hx.of_removed (removed_flockEntryCancelIf p)) (fun d hd _ => hunl d hd)
    (fun _ hd hl hc => hs.noSharedUnderExclusive_grant hd hl hc)
    (fun d hd _ _ _ => hunl d hd) hx hop

/-- A lock request that is queued overlooks a reader exactly if it is an upgrade of one of several
shared locks. -/
lemma enqueueOverlooksReader_iff (hx : s.NoSharedUnderExclusive) (hd : EntryRequest d)
    (hl : isLock d = true) (hg : s.flockEntryIsGranted d = false) :
    ((s.flockEntryUnlock d).2 = true ∧
      (ops.enqueue (s.flockEntryUnlock d).1 d).ReaderAndWaitingWriter) ↔
      s.SharesWithOther d ∧ isExclusive d = true := by
  have hmode := hd.validFlags hl
  rw [← unlockOverlooksReader_iff hx hd.isSet]
  cases hm : isExclusive d with
  | true =>
    have hne : ((s.flockEntryUnlock d).1.queues.push d).waitersExclLock ≠ [] := by
      rw [push, hmode, hm, Bool.not_true]
      exact append_ne_nil_of_right_ne_nil _ (by simp)
    constructor
    · rintro ⟨hr, hunset, -, hl⟩
      exact ⟨⟨hr, hunset, hl⟩, rfl⟩
    · rintro ⟨⟨hr, hunset, hl⟩, -⟩
      exact ⟨hr, hunset, hne, hl⟩
  | false =>
    refine iff_of_false (fun h => ?_) fun h => by cases h.2
    -- a shared request gives up an exclusive lock only, next to which there is no shared one
    rw [← Bool.not_eq_true, flockEntryIsGranted_iff hd.isSet hmode, hm] at hg
    exact hg ((unlockOverlooksReader_iff hx hd.isSet).mp ⟨h.1, h.2.1, h.2.2.2⟩).2.1

/-- After an immediate grant no writer waits next to a reader. -/
lemma not_readerAndWaitingWriter_grant (hd : EntryRequest d) (hl : isLock d = true)
    (hc : s.flockEntryCheckConflicts d = false) :
    ¬ (ops.grant (s.flockEntryUnlock d).1 d).ReaderAndWaitingWriter := by
  rintro ⟨hunset, hne, -⟩
  rw [grant_eq (hd.validFlags hl)] at hunset
  rw [queues_grant, flockEntryUnlock_queues] at hne
  split_ifs at hunset with hm
  · nomatch hunset.symm.trans hd.isSet
  · rw [← Bool.not_eq_true, flockEntryCheckConflicts_iff] at hc
    exact hc (.inr (.inr ⟨Bool.eq_false_iff.mpr hm, hne⟩))

lemma overlooksReader_of_isLock (hl : isLock d = true) :
    s.OverlooksReader (.request d) ↔ s.SharesWithOther d ∧ isExclusive d = true ∧
      allowsWaiting d = true ∧ d.lockAckID ∉ s.queues.waitersLockIDs := by
  simp only [isLock, Bool.and_eq_true, Bool.not_eq_true'] at hl
  simp only [OverlooksReader, hl.1, hl.2, Bool.false_eq_true, if_false]

/-- The waiters are tried in a state with a reader and a waiting writer, exactly under the condition
on the state before the call. -/
lemma overlooksReader_iff (hx : s.NoSharedUnderExclusive) (hop : op.Valid EntryRequest) :
    ((ops.beforeWakeup s op).2 = true ∧ (ops.beforeWakeup s op).1.ReaderAndWaitingWriter) ↔
      s.OverlooksReader op := by
  cases op with
  | cancelByClientID c => exact cancelOverlooksReader_iff hx _
  | cancelAllWaiters => exact iff_of_false (fun h => nomatch h.1) id
  | request d =>
    have hd : EntryRequest d := hop
    have hp := ops.processed_process s d
    change ((ops.process s d).tryNextWaiters = true ∧
      (ops.process s d).state.ReaderAndWaitingWriter) ↔ s.OverlooksReader (.request d)
    generalize ops.process s d = out at hp ⊢
    cases hp with
    | cancel h =>
      simp only [OverlooksReader, h, if_true]
      exact cancelOverlooksReader_iff hx _
    | unlock hc h =>
      simp only [OverlooksReader, hc, h, Bool.false_eq_true, if_false, if_true]
      rw [← unlockOverlooksReader_iff hx hd.isSet, ← flockEntryUnlock_queues s d]
      constructor
      · rintro ⟨hr, hunset, hne, hl⟩
        exact ⟨⟨hr, hunset, hl⟩, hne⟩
      · rintro ⟨⟨hr, hunset, hl⟩, hne⟩
        exact ⟨hr, hunset, hne, hl⟩
    | waiting hl hw =>
      rw [overlooksReader_of_isLock hl]
      exact iff_of_false (fun h => nomatch h.1) fun h => h.2.2.2 hw
    | granted hl hw hg =>
      rw [overlooksReader_of_isLock hl]
      refine iff_of_false (fun h => nomatch h.1) fun h => ?_
      have hex := (flockEntryIsGranted_iff hd.isSet (hd.validFlags hl)).mp hg
      rw [if_pos h.2.1] at hex
      nomatch h.1.1.symm.trans hex.1
    | immediate hl hw hg hcf =>
      rw [overlooksReader_of_isLock hl]
      refine iff_of_false (fun h => not_readerAndWaitingWriter_grant hd hl hcf h.2) fun h => ?_
      obtain ⟨⟨-, -, hother⟩, hm, -⟩ := h
      have hconf := flockEntryCheckConflicts_iff.mpr (.inr (.inl ⟨hm, hother⟩))
      nomatch hcf.symm.trans hconf
    | enqueued hl hw hg hcf ha =>
      rw [overlooksReader_of_isLock hl]
      refine (enqueueOverlooksReader_iff hx hd hl hg).trans ?_
      exact ⟨fun h => ⟨h.1, h.2, ha, hw⟩, fun h => ⟨h.1, h.2.1⟩⟩
    | refused hl hw hg hcf ha =>
      rw [overlooksReader_of_isLock hl]
      refine iff_of_false (fun h => nomatch h.1) fun h => ?_
      nomatch ha.symm.trans h.2.2.1

/-- One call keeps mutual exclusion exactly if it overlooks no reader. -/
lemma mutualExclusion_step_iff (hs : s.Inv) (hx : s.MutualExclusion) (hop : op.Valid EntryRequest) :
    (s.step op).MutualExclusion ↔ ¬ s.OverlooksReader op := by
  have hx' : s.NoSharedUnderExclusive := hs.mutualExclusion_iff.mp hx
  have hb := hs.beforeWakeup hop
  have hbx := hx'.beforeWakeup hs hop
  rw [(hs.step hop).mutualExclusion_iff, ← overlooksReader_iff hx' hop, step_eq,
    LockOps.step_eq_wakeup, LockOps.wakeup]
  cases (ops.beforeWakeup s op).2 with
  | false =>
    exact iff_of_true hbx fun h => nomatch h.1
  | true =>
    refine (hb.noSharedUnderExclusive_flockEntryTryNextWaiters hbx).trans ?_
    rw [eq_self_iff_true, true_and]

/-! ## Runs -/

/-- Mutual exclusion holds in every state of a run if and only if no call of the run makes
`flockEntryTryNextWaiters` overlook a reader. -/
theorem mutualExclusion_run_iff (calls : List (LockOp EntryLockDetails))
    (hcalls : ∀ op ∈ calls, op.Valid EntryRequest) :
    EveryState step MutualExclusion empty calls ↔
      EveryStep step (fun s op => ¬ OverlooksReader s op) empty calls :=
  everyState_iff_everyStep (I := Inv) (V := LockOp.Valid EntryRequest)
    (fun _ _ hop hs => hs.step hop) (fun _ _ hop hs hx => mutualExclusion_step_iff hs hx hop)
    inv_empty (nofun) hcalls

/-- A reader, a writer that has to wait, and the unlock that lets it in. -/
theorem mutualExclusion_run_reader_writer :
    EveryState step MutualExclusion empty
      [.request ⟨1, 10, 0, "r", entryLockTypeShared⟩,
       .request ⟨2, 10, 0, "w", entryLockTypeExclusive⟩,
       .request ⟨1, 10, 0, "u", entryLockTypeUnlock⟩] :=
  (mutualExclusion_run_iff _ (by decide)).mpr (by decide)

/-- Two readers and a waiting writer: when the first reader unlocks, the writer is granted the
exclusive lock although the second reader holds its shared lock. -/
theorem unlock_grants_writer_over_reader :
    let calls : List (LockOp EntryLockDetails) :=
      [.request ⟨1, 10, 0, "r1", entryLockTypeShared⟩,
       .request ⟨2, 10, 0, "r2", entryLockTypeShared⟩,
       .request ⟨3, 10, 0, "w", entryLockTypeExclusive⟩,
       .request ⟨1, 10, 0, "u", entryLockTypeUnlock⟩]
    (∀ op ∈ calls, op.Valid EntryRequest) ∧ (runFrom step empty calls).HoldsExclusive ⟨3, 10⟩ ∧
      (runFrom step empty calls).HoldsShared ⟨2, 10⟩ ∧
      ¬ (runFrom step empty calls).MutualExclusion := by
  decide

end Beegfs.EntryLockQueuesContainer
