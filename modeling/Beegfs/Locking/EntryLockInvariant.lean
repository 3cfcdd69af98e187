import Beegfs.Lib.Run
import Beegfs.Locking.EntryLock

/-!
# Invariants of the entry locks

What holds of a container of entry locks after any calls: no handle that waits for or holds the
exclusive lock holds a shared one, the ID set is in step with the queues (`Inv`), and no request
waits that could be granted (`NoGrantableWaiter`).

The second fact is about the state between calls only.  It rests on the first, on the booleans by
which the removal routines tell that they removed something, and on a single round of
`flockEntryTryNextWaiters` being enough.
-/

namespace Beegfs.EntryLockQueuesContainer

open LockDetails WaiterQueues LockOps List

variable {s : EntryLockQueuesContainer} {d : EntryLockDetails}

/-- The requests that clients send. -/
structure EntryRequest (d : EntryLockDetails) : Prop where
  isSet : LockDetails.isSet d = true
  validFlags : ValidFlags d

instance : DecidablePred EntryRequest := fun d =>
  decidable_of_iff (LockDetails.isSet d = true ∧ ValidFlags d)
    ⟨fun h => ⟨h.1, h.2⟩, fun h => ⟨h.1, h.2⟩⟩

/-- The invariant of all states, also of those in which the waiters are about to be tried. -/
structure Inv (s : EntryLockQueuesContainer) : Prop where
  waiters_isSet : ∀ w ∈ s.queues.waiters, isSet w = true
  /-- Who waits for the exclusive lock has given up its shared lock. -/
  waiter_not_reader : ∀ w ∈ s.queues.waitersExclLock, ¬ s.HoldsShared w.handle
  /-- Who holds the exclusive lock has given up its shared lock. -/
  writer_not_reader : isSet s.exclLock = true → ¬ s.HoldsShared s.exclLock.handle
  consistent : s.queues.Consistent

lemma inv_empty : empty.Inv where
  waiters_isSet w hw := nomatch hw
  waiter_not_reader w hw := nomatch hw
  writer_not_reader h := absurd h (by decide)
  consistent := consistent_empty

variable {r : EntryLockQueuesContainer}

/-- Locks and waiters are removed. -/
structure Removed (s r : EntryLockQueuesContainer) : Prop where
  excl : r.exclLock = s.exclLock ∨ r.exclLock = .unset
  shared : ∀ l ∈ r.sharedLocks, l ∈ s.sharedLocks
  queues : r.queues.Within s.queues

lemma Removed.exclLock_eq (h : Removed s r) (hset : isSet r.exclLock = true) :
    r.exclLock = s.exclLock := by
  rcases h.excl with he | he
  · exact he
  · rw [he] at hset
    nomatch hset

/-- The invariant survives when locks and waiters are removed. -/
lemma Inv.of_removed (hs : s.Inv) (h : Removed s r) (hcons : r.queues.Consistent) : r.Inv := by
  have hholds : ∀ k, r.HoldsShared k → s.HoldsShared k := fun k ⟨l, hl, hlk⟩ =>
    ⟨l, h.shared l hl, hlk⟩
  refine ⟨fun w hw => ?_, fun w hw hr => ?_, fun hset hr => ?_, hcons⟩
  · exact hs.waiters_isSet w (h.queues.waiters hw)
  · exact hs.waiter_not_reader w (h.queues.excl w hw) (hholds _ hr)
  · have heq := h.exclLock_eq hset
    rw [heq] at hset hr
    exact hs.writer_not_reader hset (hholds _ hr)

lemma removed_flockEntryCancelIf (p : EntryLockDetails → Bool) :
    Removed s (s.flockEntryCancelIf p).1 := by
  refine ⟨?_, fun l hl => (OrdSet.mem_eraseIf.mp hl).1, removeIf_within p⟩
  unfold flockEntryCancelIf
  cases isSet s.exclLock && p s.exclLock <;> simp

lemma Inv.flockEntryGenericCancelAllWaiters (hs : s.Inv) :
    s.flockEntryGenericCancelAllWaiters.Inv :=
  hs.of_removed ⟨.inl rfl, fun _ hl => hl, nofun, nofun⟩ consistent_empty

lemma flockEntryUnlock_queues (s : EntryLockQueuesContainer) (d : EntryLockDetails) :
    (s.flockEntryUnlock d).1.queues = s.queues := by
  unfold flockEntryUnlock
  split_ifs <;> rfl

lemma removed_flockEntryUnlock (hd : isSet d = true) : Removed s (s.flockEntryUnlock d).1 := by
  rcases flockEntryUnlock_cases s hd with ⟨-, heq⟩ | ⟨-, -, heq⟩ | ⟨-, -, heq⟩
  · rw [heq]
    exact ⟨.inr rfl, fun _ hl => hl, within_of_eq rfl⟩
  · rw [heq]
    exact ⟨.inl rfl, fun _ hl => (OrdSet.mem_erase.mp hl).1, within_of_eq rfl⟩
  · rw [heq]
    exact ⟨.inl rfl, fun _ hl => hl, within_of_eq rfl⟩

lemma Inv.flockEntryUnlock (hs : s.Inv) (hd : isSet d = true) : (s.flockEntryUnlock d).1.Inv := by
  refine hs.of_removed (removed_flockEntryUnlock hd) ?_
  rw [flockEntryUnlock_queues]
  exact hs.consistent

/-- After an unlock the owner has no lock left. -/
lemma Inv.not_holds_flockEntryUnlock (hs : s.Inv) (hd : isSet d = true) :
    ¬ (s.flockEntryUnlock d).1.HoldsExclusive d.handle ∧
      ¬ (s.flockEntryUnlock d).1.HoldsShared d.handle := by
  rcases flockEntryUnlock_cases s hd with ⟨hex, heq⟩ | ⟨hex, -, heq⟩ | ⟨hex, hsh, heq⟩
  · rw [heq]
    refine ⟨fun h => Bool.false_ne_true h.1, fun h => ?_⟩
    exact hs.writer_not_reader hex.1 (hex.2 ▸ h)
  · rw [heq]
    refine ⟨hex, fun ⟨l, hl, hown⟩ => ?_⟩
    exact Bool.eq_false_iff.mp (OrdSet.mem_erase.mp hl).2
      (EntryLockDetails.compEquiv_mapComparator.mpr hown.symm)
  · rw [heq]
    exact ⟨hex, hsh⟩

lemma grant_eq (hmode : isShared d = !isExclusive d) : ops.grant s d =
    if isExclusive d then s.flockEntryExclusive d else s.flockEntryShared d := by
  rw [grant, hmode]
  cases isExclusive d <;> rfl

lemma queues_grant : (ops.grant s d).queues = s.queues := by
  unfold grant
  split <;> rfl

/-- A request without conflict is granted. -/
lemma Inv.grant (hs : s.Inv) (hd : EntryRequest d) (hl : isLock d = true)
    (hc : s.flockEntryCheckConflicts d = false) : (ops.grant (s.flockEntryUnlock d).1 d).Inv := by
  have hu := hs.flockEntryUnlock hd.isSet
  obtain ⟨hnex, hnsh⟩ := hs.not_holds_flockEntryUnlock hd.isSet
  rw [← Bool.not_eq_true, flockEntryCheckConflicts_iff, not_or, not_or] at hc
  obtain ⟨-, -, hcw⟩ := hc
  rw [grant_eq (hd.validFlags hl)]
  split_ifs with hm
  · exact ⟨hu.waiters_isSet, hu.waiter_not_reader, fun _ => hnsh, hu.consistent⟩
  · have hwe : s.queues.waitersExclLock = [] := by
      by_contra hne
      exact hcw ⟨Bool.eq_false_iff.mpr hm, hne⟩
    refine ⟨hu.waiters_isSet, fun w hw => ?_, fun hset hr => ?_, hu.consistent⟩
    · change w ∈ (s.flockEntryUnlock d).1.queues.waitersExclLock at hw
      rw [flockEntryUnlock_queues, hwe] at hw
      nomatch hw
    -- without conflict, an exclusive lock that is left would be the owner's
    · rcases holdsShared_flockEntryShared.mp hr with hr | hr
      · exact hu.writer_not_reader hset hr
      · exact hnex ⟨hset, hr⟩

/-- A request with conflicts is queued. -/
lemma Inv.enqueue (hs : s.Inv) (hd : EntryRequest d)
    (hid : d.lockAckID ∉ s.queues.waitersLockIDs) :
    (ops.enqueue (s.flockEntryUnlock d).1 d).Inv := by
  have hu := hs.flockEntryUnlock hd.isSet
  obtain ⟨-, hnsh⟩ := hs.not_holds_flockEntryUnlock hd.isSet
  refine ⟨fun w hw => ?_, fun w hw => ?_, hu.writer_not_reader, ?_⟩
  · rcases mem_waiters_push.mp hw with rfl | hw
    · exact hd.isSet
    · exact hu.waiters_isSet w hw
  · rcases mem_waitersExclLock_push.mp hw with hw | ⟨-, rfl⟩
    · exact hu.waiter_not_reader w hw
    · exact hnsh
  · exact hu.consistent.push (by rwa [flockEntryUnlock_queues])

lemma Inv.flockEntryTryNextWaiters (hs : s.Inv) : s.flockEntryTryNextWaiters.1.Inv := by
  rcases flockEntryTryNextWaiters_cases s with ⟨-, heq⟩ | ⟨hset, hwe, heq⟩ | ⟨-, w, ws, hw, heq⟩
  · rw [heq]
    exact hs
  · obtain ⟨hex, hq, -⟩ := grantSharedWaiters_spec s _ rfl
    rw [heq]
    refine ⟨fun w hw => ?_, fun w hw => ?_, fun h => ?_, ?_⟩
    · rw [hq, hwe] at hw
      nomatch hw
    · rw [hq, hwe] at hw
      nomatch hw
    · rw [hex, hset] at h
      nomatch h
    · rw [hq]
      refine hs.consistent.of_perm s.queues.waitersSharedLock ?_ rfl
      simp [waiters, hwe]
  · rw [heq]
    have hmem : w ∈ s.queues.waitersExclLock := hw ▸ mem_cons_self
    refine ⟨fun v hv => ?_, fun v hv => ?_, fun _ => hs.waiter_not_reader w hmem, ?_⟩
    · refine hs.waiters_isSet v ?_
      rw [mem_waiters] at hv ⊢
      exact hv.imp_left fun hv => hw ▸ mem_cons_of_mem w hv
    · exact hs.waiter_not_reader v (hw ▸ mem_cons_of_mem w hv)
    · refine hs.consistent.of_perm [w] ?_ rfl
      simp [waiters, hw]

variable {op : LockOp EntryLockDetails}

/-- The state in which the waiters are tried satisfies the invariant. -/
lemma Inv.beforeWakeup (hs : s.Inv) (hop : op.Valid EntryRequest) : (ops.beforeWakeup s op).1.Inv :=
  beforeWakeup_cases (P := fun r => Inv r.1) hs
    (fun p => hs.of_removed (removed_flockEntryCancelIf p) (hs.consistent.removeIf p))
    (fun _ hd _ => hs.flockEntryUnlock hd.isSet) (fun _ hd hl hc => hs.grant hd hl hc)
    (fun _ hd _ hid _ => hs.enqueue hd hid) hs.flockEntryGenericCancelAllWaiters hop

/-- Every call keeps the invariant. -/
lemma Inv.step (hs : s.Inv) (hop : op.Valid EntryRequest) : (s.step op).Inv := by
  rw [step_eq]
  exact step_of_beforeWakeup (fun _ h => h.flockEntryTryNextWaiters) s op
    (hs.beforeWakeup hop) fun _ => hs.beforeWakeup hop

/-! ## No lost wake-up -/

/-- While there is no exclusive lock, readers wait only behind a waiting writer, and writers wait
only for a reader that holds its lock. -/
def NoGrantableWaiter (s : EntryLockQueuesContainer) : Prop :=
  isSet s.exclLock = false → (s.queues.waitersSharedLock ≠ [] → s.queues.waitersExclLock ≠ []) ∧
    (s.queues.waitersExclLock ≠ [] → ∃ l, l ∈ s.sharedLocks)

/-- One round of trying the waiters is enough, whatever the state was before. -/
lemma Inv.noGrantableWaiter_flockEntryTryNextWaiters (hs : s.Inv) :
    s.flockEntryTryNextWaiters.1.NoGrantableWaiter := by
  rcases flockEntryTryNextWaiters_cases s with
    ⟨hset, heq⟩ | ⟨-, hwe, heq⟩ | ⟨-, w, ws, hw, heq⟩
  · intro hunset
    rw [heq, hset] at hunset
    nomatch hunset
  · obtain ⟨-, hq, -⟩ := grantSharedWaiters_spec s _ rfl
    intro _
    rw [heq]
    simp only [hq, hwe, ne_eq, not_true_eq_false, false_implies, and_self]
  · intro hunset
    have hw' : isSet w = true := hs.waiters_isSet w (mem_waiters.mpr (.inl (hw ▸ mem_cons_self)))
    rw [heq] at hunset
    nomatch hw'.symm.trans hunset

/-- A removal routine that reports no removal has changed nothing. -/
lemma flockEntryCancelIf_of_false {p : EntryLockDetails → Bool}
    (h : (s.flockEntryCancelIf p).2 = false) : (s.flockEntryCancelIf p).1 = s := by
  simp only [EntryLockQueuesContainer.flockEntryCancelIf, Bool.or_eq_false_iff, any_eq_false] at h
  obtain ⟨⟨⟨hex, hsh⟩, hwe⟩, hws⟩ := h
  have hq : s.queues.removeIf p = s.queues := removeIf_of_forall hwe hws
  have hsl : s.sharedLocks.eraseIf p = s.sharedLocks := OrdSet.eraseIf_of_forall hsh
  simp only [EntryLockQueuesContainer.flockEntryCancelIf, hex, hq, hsl, Bool.false_eq_true,
    if_false]

lemma flockEntryUnlock_of_false (hd : isSet d = true) (h : (s.flockEntryUnlock d).2 = false) :
    (s.flockEntryUnlock d).1 = s := by
  rcases flockEntryUnlock_cases s hd with ⟨-, heq⟩ | ⟨-, -, heq⟩ | ⟨-, -, heq⟩
  · rw [heq] at h
    nomatch h
  · rw [heq] at h
    nomatch h
  · rw [heq]

/-- A request granted without an unlock leaves no grantable waiter. -/
lemma NoGrantableWaiter.grant (hn : s.NoGrantableWaiter) (hd : EntryRequest d)
    (hl : isLock d = true) (hc : s.flockEntryCheckConflicts d = false) :
    (ops.grant s d).NoGrantableWaiter := by
  rw [← Bool.not_eq_true, flockEntryCheckConflicts_iff, not_or, not_or] at hc
  obtain ⟨-, -, hcw⟩ := hc
  rw [grant_eq (hd.validFlags hl)]
  split_ifs with hm
  · intro hunset
    nomatch hd.isSet.symm.trans hunset
  · have hwe : s.queues.waitersExclLock = [] := by
      by_contra hne
      exact hcw ⟨Bool.eq_false_iff.mpr hm, hne⟩
    intro hunset
    obtain ⟨hsh, -⟩ := hn hunset
    exact ⟨hsh, fun hne => absurd hwe hne⟩

/-- A request queued without an unlock cannot be granted yet. -/
lemma NoGrantableWaiter.enqueue (hn : s.NoGrantableWaiter) (hd : EntryRequest d)
    (hl : isLock d = true)
    (hc : s.flockEntryCheckConflicts d = true) : (ops.enqueue s d).NoGrantableWaiter := by
  intro hunset
  obtain ⟨-, hwe⟩ := hn hunset
  change ((s.queues.push d).waitersSharedLock ≠ [] → (s.queues.push d).waitersExclLock ≠ []) ∧
    ((s.queues.push d).waitersExclLock ≠ [] → ∃ l, l ∈ s.sharedLocks)
  rcases flockEntryCheckConflicts_iff.mp hc with ⟨hset, -⟩ | ⟨hm, l, hmem, -⟩ | ⟨hm, hne⟩
  · nomatch hset.symm.trans hunset
  · have hshar : isShared d = false := by rw [hd.validFlags hl, hm, Bool.not_true]
    rw [WaiterQueues.push, hshar]
    exact ⟨fun _ => append_ne_nil_of_right_ne_nil _ (cons_ne_nil d []), fun _ => ⟨l, hmem⟩⟩
  · have hshar : isShared d = true := by rw [hd.validFlags hl, hm, Bool.not_false]
    rw [WaiterQueues.push, hshar]
    exact ⟨fun _ => hne, hwe⟩

/-- After every call no request waits that could be granted. -/
lemma NoGrantableWaiter.step (hn : s.NoGrantableWaiter) (hs : s.Inv) (hop : op.Valid EntryRequest) :
    (s.step op).NoGrantableWaiter := by
  rw [step_eq]
  exact step_of_beforeWakeup (I := Inv)
    (fun _ h => h.noGrantableWaiter_flockEntryTryNextWaiters) s op (hs.beforeWakeup hop)
    (beforeWakeup_of_false (N := NoGrantableWaiter) (fun _ => flockEntryCancelIf_of_false)
      (fun _ hd _ => flockEntryUnlock_of_false hd.isSet) (fun _ => hn.grant) (fun _ => hn.enqueue)
      (fun _ => ⟨fun h => absurd rfl h, fun h => absurd rfl h⟩) hop hn)

/-- Both facts hold after any calls. -/
lemma inv_and_noGrantableWaiter_run {calls : List (LockOp EntryLockDetails)}
    (hcalls : ∀ op ∈ calls, op.Valid EntryRequest) :
    (runFrom step empty calls).Inv ∧ (runFrom step empty calls).NoGrantableWaiter := by
  refine runFrom_induction (I := fun s => Inv s ∧ NoGrantableWaiter s)
    (V := LockOp.Valid EntryRequest) (fun s op hop hs => ⟨hs.1.step hop, hs.2.step hs.1 hop⟩)
    ⟨inv_empty, fun _ => ?_⟩ hcalls
  exact ⟨fun h => absurd rfl h, fun h => absurd rfl h⟩

end Beegfs.EntryLockQueuesContainer
