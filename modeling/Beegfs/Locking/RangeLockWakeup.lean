import Beegfs.Locking.RangeLockInvariant

/-!
# Waking up the waiters for range locks

`flockRangeTryNextWaiters` goes through both queues once and grants what has no conflict any more.
Rules for the two loops carry a fact along the part of a queue that has been visited.  With them the
invariant of the range locks is shown for all calls, which includes mutual exclusion, and that no
request stays queued that could be granted.
-/

namespace Beegfs.RangeLocks

open LockDetails List

variable {s r : RangeLocks} {w : RangeLockDetails}

/-! ## One waiter -/

/-- A queued request that nobody blocks is granted and leaves its queue.  A writer is blocked by
granted locks and by the writers before it, a reader by granted locks and by all waiting writers. -/
inductive Wakes (s : RangeLocks) (w : RangeLockDetails) : RangeLocks → Prop
  | excl {before after : List RangeLockDetails}
    (hq : s.queues.waitersExclLock = before ++ w :: after) (hfree : ¬ s.Blocked w before) :
    Wakes s w (s.grantExclWaiter before w after).1
  | shared {before after : List RangeLockDetails}
    (hq : s.queues.waitersSharedLock = before ++ w :: after)
    (hfree : ¬ s.Blocked w s.queues.waitersExclLock) :
    Wakes s w (s.grantSharedWaiter before w after).1

section

variable (h : Wakes s w r)

include h

lemma Wakes.free : s.Free w := by
  cases h with
  | excl _ hfree => exact free_of_not_blocked hfree
  | shared _ hfree => exact free_of_not_blocked hfree

/-- The request leaves the queues. -/
lemma Wakes.perm : (w :: r.queues.waiters).Perm s.queues.waiters := by
  cases h with
  | @excl before after hq _ =>
    change (w :: ((before ++ after) ++ s.queues.waitersSharedLock)).Perm
      (s.queues.waitersExclLock ++ s.queues.waitersSharedLock)
    rw [hq]
    exact List.Perm.append_right _ perm_middle.symm
  | @shared before after hq _ =>
    change (w :: (s.queues.waitersExclLock ++ (before ++ after))).Perm
      (s.queues.waitersExclLock ++ s.queues.waitersSharedLock)
    rw [hq]
    exact perm_middle.symm.trans (List.Perm.append_left _ perm_middle.symm)

/-- What is in a queue after the wake-up was there before. -/
lemma Wakes.within : r.queues.Within s.queues := by
  cases h with
  | excl hq _ =>
    refine ⟨fun v hv => ?_, fun _ hv => hv⟩
    rw [hq]
    exact perm_middle.mem_iff.mpr (mem_cons_of_mem w hv)
  | shared hq _ =>
    refine ⟨fun _ hv => hv, fun v hv => ?_⟩
    rw [hq]
    exact perm_middle.mem_iff.mpr (mem_cons_of_mem w hv)

lemma Wakes.granted (hs : s.Inv) : Granted s w r := by
  have hwf : w.WF := hs.waiters_wf w (h.perm.mem_iff.mp mem_cons_self)
  have hfree := h.free
  cases h with
  | excl hq _ =>
    have hw := hs.exclWaiters w (hq ▸ mem_append_right _ mem_cons_self)
    obtain ⟨hn, hex, hsh⟩ := hs.flockRangeExclusive hwf hw hfree
    exact ⟨⟨hn.excl, hn.shared⟩, hex, hsh⟩
  | shared hq _ =>
    have hw := hs.sharedWaiters w (hq ▸ mem_append_right _ mem_cons_self)
    obtain ⟨hn, hex, hsh⟩ := hs.flockRangeShared hwf hw
    exact ⟨⟨hn.excl, hn.shared⟩, hex, hsh⟩

lemma Wakes.inv (hs : s.Inv) : r.Inv := by
  have hg := h.granted hs
  refine hs.of_waiters hg.normal (hg.exclusion hs h.free) h.within
    (hs.consistent.of_perm [w] h.perm ?_)
  cases h with
  | excl => rfl
  | shared => rfl

end

/-! ## The loops -/

variable {I : RangeLocks → List RangeLockDetails → Prop}

/-- The rule for the loop over the waiting writers.  `I s before` is what is known when the writers
`before` have been kept waiting; the state satisfies the invariant throughout. -/
lemma tryExclWaiters_induction
    (hskip : ∀ s before w, s.Blocked w before → I s before → I s (before ++ [w]))
    (hwake : ∀ s before w r, s.Inv → Wakes s w r → I s before → I r before)
    (s : RangeLocks) (before ws : List RangeLockDetails) (hs : s.Inv)
    (hq : s.queues.waitersExclLock = before ++ ws) (h : I s before) :
    (s.tryExclWaiters before ws).1.Inv ∧
      I (s.tryExclWaiters before ws).1 (s.tryExclWaiters before ws).1.queues.waitersExclLock := by
  induction ws generalizing s before with
  | nil =>
    rw [append_nil] at hq
    rw [tryExclWaiters, hq]
    exact ⟨hs, h⟩
  | cons w ws ih =>
    have hw : w.WF := hs.waiters_wf w (WaiterQueues.mem_waiters.mpr
      (.inl (hq ▸ mem_append_right before mem_cons_self)))
    have hiff : s.flockRangeCheckConflictsEx w before.length = true ↔ s.Blocked w before :=
      hs.checkConflictsEx_iff hw (by rw [waiterConflictLoop_natCast, hq, take_left])
    rw [tryExclWaiters]
    split_ifs with hc
    · refine ih s (before ++ [w]) hs ?_ (hskip s before w (hiff.mp hc) h)
      rw [hq, append_assoc, singleton_append]
    · have hwakes := Wakes.excl hq (mt hiff.mpr hc)
      exact ih _ before (hwakes.inv hs) rfl (hwake s before w _ hs hwakes h)

/-- The rule for the loop over the waiting readers. -/
lemma trySharedWaiters_induction
    (hskip : ∀ s before w, s.Blocked w s.queues.waitersExclLock → I s before → I s (before ++ [w]))
    (hwake : ∀ s before w r, s.Inv → r.queues.waitersExclLock = s.queues.waitersExclLock →
      Wakes s w r → I s before → I r before)
    (s : RangeLocks) (before ws : List RangeLockDetails) (hs : s.Inv)
    (hq : s.queues.waitersSharedLock = before ++ ws) (h : I s before) :
    (s.trySharedWaiters before ws).1.Inv ∧ I (s.trySharedWaiters before ws).1
        (s.trySharedWaiters before ws).1.queues.waitersSharedLock := by
  induction ws generalizing s before with
  | nil =>
    rw [append_nil] at hq
    rw [trySharedWaiters, hq]
    exact ⟨hs, h⟩
  | cons w ws ih =>
    have hw : w.WF := hs.waiters_wf w (WaiterQueues.mem_waiters.mpr
      (.inr (hq ▸ mem_append_right before mem_cons_self)))
    have hiff := hs.checkConflicts_iff hw
    rw [trySharedWaiters]
    split_ifs with hc
    · refine ih s (before ++ [w]) hs ?_ (hskip s before w (hiff.mp hc) h)
      rw [hq, append_assoc, singleton_append]
    · have hwakes := Wakes.shared hq (mt hiff.mpr hc)
      exact ih _ before (hwakes.inv hs) rfl (hwake s before w _ hs rfl hwakes h)

lemma Inv.tryExclWaiters (hs : s.Inv) : (s.tryExclWaiters [] s.queues.waitersExclLock).1.Inv :=
  (tryExclWaiters_induction (I := fun _ _ => True) (fun _ _ _ _ _ => trivial)
    (fun _ _ _ _ _ _ _ => trivial) s [] _ hs rfl trivial).1

/-- What one wake-up preserves is preserved by trying the waiters. -/
lemma flockRangeTryNextWaiters_induction {I : RangeLocks → Prop}
    (hwake : ∀ s w r, s.Inv → Wakes s w r → I s → I r) (hs : s.Inv) (h : I s) :
    s.flockRangeTryNextWaiters.1.Inv ∧ I s.flockRangeTryNextWaiters.1 :=
  trySharedWaiters_induction (I := fun s _ => I s) (fun _ _ _ _ hI => hI)
    (fun s _ w r hs _ => hwake s w r hs) _ [] _ hs.tryExclWaiters rfl
    (tryExclWaiters_induction (I := fun s _ => I s) (fun _ _ _ _ hI => hI)
      (fun s _ w r => hwake s w r) s [] _ hs rfl h).2

/-! ## The invariant after every call -/

lemma Inv.flockRangeTryNextWaiters (hs : s.Inv) : s.flockRangeTryNextWaiters.1.Inv :=
  (flockRangeTryNextWaiters_induction (I := Inv) (fun _ _ _ hs hw _ => hw.inv hs) hs hs).1

variable {op : LockOp RangeLockDetails}

/-- The state in which the waiters are tried satisfies the invariant. -/
lemma Inv.beforeWakeup (hs : s.Inv) (hop : op.Valid RangeRequest) : (ops.beforeWakeup s op).1.Inv :=
  LockOps.beforeWakeup_cases (P := fun r => Inv r.1) hs hs.flockRangeCancelIf
    (fun _ hd hc => hs.flockRangeUnlock (hd.wf hc))
    (fun _ hd hl hc => (hs.flockRangeUnlock (hd.wf_of_isLock hl)).grant hd hl
      (hs.free_flockRangeUnlock (hd.wf_of_isLock hl) hc))
    (fun _ hd hl hid _ => (hs.flockRangeUnlock (hd.wf_of_isLock hl)).enqueue hd hl
      (by rw [(hs.unlockSpec (hd.wf_of_isLock hl)).queues]; exact hid))
    hs.flockRangeCancelAllWaiters hop

/-- Every call keeps the invariant. -/
lemma Inv.step (hs : s.Inv) (hop : op.Valid RangeRequest) : (s.step op).Inv := by
  rw [step_eq]
  exact LockOps.step_of_beforeWakeup (I := Inv) (fun _ h => h.flockRangeTryNextWaiters) s op
    (hs.beforeWakeup hop) fun _ => hs.beforeWakeup hop

/-- Mutual exclusion: after any calls, a lock that is not shared has no byte in common with a lock
of another handle, and every granted lock has found its place in the ordered set. -/
theorem rangeLocks_mutual_exclusion (calls : List (LockOp RangeLockDetails))
    (hcalls : ∀ op ∈ calls, op.Valid RangeRequest) :
    (∀ a ∈ (runFrom step empty calls).exclRangeFLocks.locks, ∀ b,
      b ∈ (runFrom step empty calls).exclRangeFLocks.locks ∨
        b ∈ (runFrom step empty calls).sharedRangeFLocks.locks →
      a.handle ≠ b.handle → ∀ x, ¬ (x ∈ a.bytes ∧ x ∈ b.bytes)) ∧
    (runFrom step empty calls).exclRangeFLocks.dropped = [] ∧
    (runFrom step empty calls).sharedRangeFLocks.dropped = [] := by
  have hs : (runFrom step empty calls).Inv :=
    runFrom_induction (V := LockOp.Valid RangeRequest) (fun _ _ hop hs => hs.step hop) inv_empty
      hcalls
  refine ⟨?_, hs.excl.nothing_dropped, hs.shared.nothing_dropped⟩
  rintro a ha b hb hne x ⟨hxa, hxb⟩
  have hheld : (runFrom step empty calls).HeldExcl a.handle x := ⟨a, ha, rfl, hxa⟩
  rcases hb with hb | hb
  · exact hne (hs.heldExcl_unique hheld ⟨b, hb, rfl, hxb⟩)
  · exact hne (hs.exclusion a.handle b.handle x hheld ⟨b, hb, rfl, hxb⟩)

/-- A writer gives up the first half of its range, which a waiting reader then gets. -/
theorem rangeLocks_mutual_exclusion_handover :
    let calls : List (LockOp RangeLockDetails) :=
      [.request ⟨1, 7, "w", entryLockTypeExclusive, 0, 19⟩,
       .request ⟨2, 7, "r", entryLockTypeShared, 5, 9⟩,
       .request ⟨1, 7, "u", entryLockTypeUnlock, 0, 9⟩]
    ⟨1, 7, "w", entryLockTypeExclusive, 10, 19⟩ ∈
        (runFrom step empty calls).exclRangeFLocks.locks.elems ∧
      ⟨2, 7, "r", entryLockTypeShared, 5, 9⟩ ∈
        (runFrom step empty calls).sharedRangeFLocks.locks.elems ∧
      (∀ a ∈ (runFrom step empty calls).exclRangeFLocks.locks, ∀ b,
        b ∈ (runFrom step empty calls).exclRangeFLocks.locks ∨
          b ∈ (runFrom step empty calls).sharedRangeFLocks.locks →
        a.handle ≠ b.handle → ∀ x, ¬ (x ∈ a.bytes ∧ x ∈ b.bytes)) ∧
      (runFrom step empty calls).exclRangeFLocks.dropped = [] :=
  ⟨by decide, by decide, (rangeLocks_mutual_exclusion _ (by decide)).1,
    (rangeLocks_mutual_exclusion _ (by decide)).2.1⟩

/-! ## No lost wake-up -/

/-- Every waiting writer is blocked by a granted lock or by a writer before it, every waiting reader
by a granted lock or by a waiting writer. -/
structure NoGrantableWaiter (s : RangeLocks) : Prop where
  excl : ∀ before w after, s.queues.waitersExclLock = before ++ w :: after → s.Blocked w before
  shared : ∀ w ∈ s.queues.waitersSharedLock, s.Blocked w s.queues.waitersExclLock

/-- All waiting requests of the handle are blocked. -/
structure HandleBlocked (s : RangeLocks) (h : RangeHandle) : Prop where
  excl : ∀ before w after, s.queues.waitersExclLock = before ++ w :: after → w.handle = h →
    s.Blocked w before
  shared : ∀ w ∈ s.queues.waitersSharedLock, w.handle = h → s.Blocked w s.queues.waitersExclLock

lemma noGrantableWaiter_iff : s.NoGrantableWaiter ↔ ∀ h, s.HandleBlocked h :=
  ⟨fun hn _ => ⟨fun before w after hq _ => hn.excl before w after hq, fun w hw _ => hn.shared w hw⟩,
    fun hb => ⟨fun before w after hq => (hb _).excl before w after hq rfl,
      fun w hw => (hb _).shared w hw rfl⟩⟩

/-- Trying the waiters takes no byte away from anybody. -/
lemma Inv.held_flockRangeTryNextWaiters (hs : s.Inv) (h : RangeHandle) (x : ℕ) :
    (s.HeldExcl h x → s.flockRangeTryNextWaiters.1.HeldExcl h x) ∧
      (s.HeldShared h x → s.flockRangeTryNextWaiters.1.HeldShared h x) := by
  refine (flockRangeTryNextWaiters_induction
    (I := fun r => (s.HeldExcl h x → r.HeldExcl h x) ∧ (s.HeldShared h x → r.HeldShared h x))
    (fun r w r' hr hw hI => ?_) hs ⟨id, id⟩).2
  have hg := hw.granted hr
  exact ⟨fun hx => (hg.heldExcl h x).mpr (.inl (hI.1 hx)),
    fun hx => (hg.heldShared h x).mpr (.inl (hI.2 hx))⟩

/-- Appending to a list of which every element has its property relative to those before it. -/
lemma forall_split_concat {α : Type*} {R : α → List α → Prop} {l : List α} {a : α}
    (hl : ∀ before w after, l = before ++ w :: after → R w before) (ha : R a l) :
    ∀ before w after, l ++ [a] = before ++ w :: after → R w before := by
  intro before w after heq
  rcases eq_nil_or_concat after with rfl | ⟨after', b, rfl⟩
  · obtain ⟨rfl, hw⟩ := append_inj' heq rfl
    rw [List.cons.injEq] at hw
    exact hw.1 ▸ ha
  · have hsplit : l ++ [a] = (before ++ w :: after') ++ [b] := by
      rw [heq, append_assoc, cons_append, concat_eq_append]
    exact hl before w after' (append_inj' hsplit rfl).1

variable {d : RangeLockDetails}

/-- Whoever is blocked stays so when another request is granted. -/
lemma Granted.blocked {v : RangeLockDetails} {ws : List RangeLockDetails} (hg : Granted s d r)
    (hb : s.Blocked v ws) : r.Blocked v ws :=
  hb.mono (fun k x hx => (hg.heldExcl k x).mpr (.inl hx))
    (fun k x hx => (hg.heldShared k x).mpr (.inl hx)) fun _ hu => hu

/-- One round of trying the waiters is enough, whatever the state was before: a request is kept
waiting for a reason that later grants do not remove. -/
lemma Inv.noGrantableWaiter_flockRangeTryNextWaiters (hs : s.Inv) :
    s.flockRangeTryNextWaiters.1.NoGrantableWaiter := by
  have hex := (tryExclWaiters_induction
    (I := fun r kept => ∀ before w after, kept = before ++ w :: after → r.Blocked w before)
    (fun _ _ _ hb hI => forall_split_concat hI hb)
    (fun _ _ _ _ hr hw hI pre v post heq => (hw.granted hr).blocked (hI pre v post heq))
    s [] _ hs rfl fun before w after heq => absurd heq.symm (by simp)).2
  obtain ⟨-, hexcl, hshar⟩ := trySharedWaiters_induction
    (I := fun r kept =>
      (∀ before w after, r.queues.waitersExclLock = before ++ w :: after → r.Blocked w before) ∧
        ∀ w ∈ kept, r.Blocked w r.queues.waitersExclLock)
    (fun r before w hb hI => ⟨hI.1, fun v hv => by
      rcases mem_append.mp hv with hv | hv
      · exact hI.2 v hv
      · exact mem_singleton.mp hv ▸ hb⟩)
    (fun r before w r' hr hq hw hI => by
      rw [hq]
      exact ⟨fun pre v post heq => (hw.granted hr).blocked (hI.1 pre v post heq),
        fun v hv => (hw.granted hr).blocked (hI.2 v hv)⟩)
    _ [] _ hs.tryExclWaiters rfl ⟨hex, nofun⟩
  exact ⟨hexcl, hshar⟩

/-- A removal routine that reports no removal has changed nothing. -/
lemma flockRangeCancelIf_of_false {p : RangeLockDetails → Bool}
    (h : (s.flockRangeCancelIf p).2 = false) : (s.flockRangeCancelIf p).1 = s := by
  simp only [flockRangeCancelIf, Bool.or_eq_false_iff, any_eq_false] at h
  obtain ⟨⟨⟨hex, hsh⟩, hwe⟩, hws⟩ := h
  have hq : s.queues.removeIf p = s.queues := WaiterQueues.removeIf_of_forall hwe hws
  have hel : s.exclRangeFLocks.locks.eraseIf p = s.exclRangeFLocks.locks :=
    OrdSet.eraseIf_of_forall hex
  have hsl : s.sharedRangeFLocks.locks.eraseIf p = s.sharedRangeFLocks.locks :=
    OrdSet.eraseIf_of_forall hsh
  simp only [flockRangeCancelIf, RangeLockSet.eraseIf, hq, hel, hsl]

lemma NoGrantableWaiter.grant (hn : s.NoGrantableWaiter) (hs : s.Inv)
    (hd : RangeRequest d) (hl : isLock d = true) (hc : s.flockRangeCheckConflicts d = false) :
    (ops.grant s d).NoGrantableWaiter := by
  have hwf := hd.wf_of_isLock hl
  rw [← Bool.not_eq_true, hs.checkConflicts_iff hwf] at hc
  have hg := hs.granted hwf (hd.validFlags hl) (free_of_not_blocked hc)
  refine ⟨fun before w after heq => ?_, fun w hw => ?_⟩
  · rw [queues_grant] at heq
    exact hg.blocked (hn.excl before w after heq)
  · rw [queues_grant] at hw ⊢
    exact hg.blocked (hn.shared w hw)

/-- A blocked request is queued. -/
lemma HandleBlocked.enqueue {h : RangeHandle} (hb : s.HandleBlocked h)
    (hd : d.handle = h → s.Blocked d s.queues.waitersExclLock) :
    (ops.enqueue s d).HandleBlocked h := by
  have hstate : ∀ v ws, s.Blocked v ws → (ops.enqueue s d).Blocked v ws := fun _ _ hv => hv
  cases hm : isShared d with
  | true =>
    have hq : (ops.enqueue s d).queues = { s.queues with
        waitersSharedLock := s.queues.waitersSharedLock ++ [d]
        waitersLockIDs := Insert.insert d.lockAckID s.queues.waitersLockIDs } := if_pos hm
    refine ⟨fun before w after heq hw => ?_, fun w hmem hw => ?_⟩
    · rw [hq] at heq
      exact hstate _ _ (hb.excl before w after heq hw)
    · rw [hq] at hmem ⊢
      rcases mem_append.mp hmem with hmem | hmem
      · exact hstate _ _ (hb.shared w hmem hw)
      · obtain rfl := mem_singleton.mp hmem
        exact hd hw
  | false =>
    have hq : (ops.enqueue s d).queues = { s.queues with
        waitersExclLock := s.queues.waitersExclLock ++ [d]
        waitersLockIDs := Insert.insert d.lockAckID s.queues.waitersLockIDs } :=
      if_neg (Bool.eq_false_iff.mp hm)
    refine ⟨fun before w after heq => ?_, fun w hmem hw => ?_⟩
    · rw [hq] at heq
      exact forall_split_concat (R := fun w before => w.handle = h → s.Blocked w before)
        hb.excl hd before w after heq
    · rw [hq] at hmem ⊢
      exact (hb.shared w hmem hw).mono (fun _ _ hx => hx) (fun _ _ hx => hx)
        fun v hv => mem_append_left _ hv

lemma NoGrantableWaiter.enqueue (hn : s.NoGrantableWaiter) (hs : s.Inv)
    (hd : RangeRequest d) (hl : isLock d = true) (hc : s.flockRangeCheckConflicts d = true) :
    (ops.enqueue s d).NoGrantableWaiter := by
  rw [hs.checkConflicts_iff (hd.wf_of_isLock hl)] at hc
  exact noGrantableWaiter_iff.mpr fun h => (noGrantableWaiter_iff.mp hn h).enqueue fun _ => hc

/-- Empty queues hold no grantable request. -/
lemma noGrantableWaiter_of_empty (hq : s.queues = WaiterQueues.empty) : s.NoGrantableWaiter where
  excl before w after heq := by
    rw [hq] at heq
    exact absurd heq.symm (append_ne_nil_of_right_ne_nil before (cons_ne_nil w after))
  shared w hw := by
    rw [hq] at hw
    nomatch hw

/-- After every call no request waits that could be granted. -/
lemma NoGrantableWaiter.step (hn : s.NoGrantableWaiter) (hs : s.Inv)
    (hop : op.Valid RangeRequest) : (s.step op).NoGrantableWaiter := by
  rw [step_eq]
  refine LockOps.step_of_beforeWakeup (I := Inv)
    (fun _ h => h.noGrantableWaiter_flockRangeTryNextWaiters) s op (hs.beforeWakeup hop)
    (LockOps.beforeWakeup_of_false (N := NoGrantableWaiter) (fun _ => flockRangeCancelIf_of_false)
      (fun _ hd hc => (hs.unlockSpec (hd.wf hc)).unchanged) (fun _ => hn.grant hs)
      (fun _ => hn.enqueue hs) (noGrantableWaiter_of_empty rfl) hop hn)

lemma inv_and_noGrantableWaiter_run {calls : List (LockOp RangeLockDetails)}
    (hcalls : ∀ op ∈ calls, op.Valid RangeRequest) :
    (runFrom step empty calls).Inv ∧ (runFrom step empty calls).NoGrantableWaiter :=
  runFrom_induction (I := fun s => Inv s ∧ NoGrantableWaiter s)
    (V := LockOp.Valid RangeRequest) (fun _ _ hop hs => ⟨hs.1.step hop, hs.2.step hs.1 hop⟩)
    ⟨inv_empty, noGrantableWaiter_of_empty rfl⟩ hcalls

end Beegfs.RangeLocks
