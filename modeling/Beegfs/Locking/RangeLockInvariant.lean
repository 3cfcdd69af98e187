import Beegfs.Locking.RangeLock

/-!
# Invariants of the range locks

The granted sets are kept in normal form, and a byte that one handle holds exclusively is held by no
other handle in any mode (`Inv`).  All proofs are about the bytes that handles hold; what an
operation does to them is stated once per operation.

Mutual exclusion does not depend on the locks of one handle being consistent across the modes, which
the wake-up path does not guarantee.
-/

namespace Beegfs.RangeLocks

open LockDetails RangeLockDetails WaiterQueues RangeLockSet

variable {s : RangeLocks} {d : RangeLockDetails}

/-- The requests that clients send.  A cancel names no particular range. -/
structure RangeRequest (d : RangeLockDetails) : Prop where
  validFlags : ValidFlags d
  wf : isCancel d = false → d.WF

instance : DecidablePred RangeRequest := fun d =>
  decidable_of_iff (ValidFlags d ∧ (isCancel d = false → d.WF))
    ⟨fun h => ⟨h.1, h.2⟩, fun h => ⟨h.1, h.2⟩⟩

lemma RangeRequest.wf_of_isLock (hd : RangeRequest d) (hl : isLock d = true) : d.WF := by
  refine hd.wf ?_
  rw [isLock, Bool.and_eq_true, Bool.not_eq_true'] at hl
  exact hl.1

/-- Both sets are in normal form. -/
structure Normal (s : RangeLocks) : Prop where
  excl : s.exclRangeFLocks.NormalForm
  shared : s.sharedRangeFLocks.NormalForm

/-- The granted ranges of each handle are disjoint and not adjacent, in each mode. -/
structure SeparateRanges (s : RangeLocks) : Prop where
  excl : ∀ a ∈ s.exclRangeFLocks.locks, ∀ b ∈ s.exclRangeFLocks.locks,
    a ≠ b → a.handle = b.handle → a.endPos + 1 < b.start ∨ b.endPos + 1 < a.start
  shared : ∀ a ∈ s.sharedRangeFLocks.locks, ∀ b ∈ s.sharedRangeFLocks.locks,
    a ≠ b → a.handle = b.handle → a.endPos + 1 < b.start ∨ b.endPos + 1 < a.start

lemma not_touches_of_lt {a b : RangeLockDetails}
    (h : a.endPos + 1 < b.start ∨ b.endPos + 1 < a.start) : ¬ a.Touches b := by
  rw [RangeLockDetails.touches_def]
  omega

/-- The invariant of all states. -/
structure Inv (s : RangeLocks) : Prop extends Normal s where
  /-- A byte held exclusively is not shared by another handle. -/
  exclusion : ∀ h k x, s.HeldExcl h x → s.HeldShared k x → h = k
  waiters_wf : ∀ w ∈ s.queues.waiters, w.WF
  exclWaiters : ∀ w ∈ s.queues.waitersExclLock, isExclusive w = true
  sharedWaiters : ∀ w ∈ s.queues.waitersSharedLock, isExclusive w = false
  consistent : s.queues.Consistent

lemma inv_empty : empty.Inv where
  excl := normalForm_empty
  shared := normalForm_empty
  exclusion _ _ _ := fun ⟨l, hl, _⟩ => absurd hl (OrdSet.not_mem_empty l)
  waiters_wf := nofun
  exclWaiters := nofun
  sharedWaiters := nofun
  consistent := consistent_empty

variable {h : RangeHandle} {x : ℕ}

/-- A byte is held exclusively by one handle only. -/
lemma Normal.heldExcl_unique (hs : s.Normal) {k : RangeHandle} (hh : s.HeldExcl h x)
    (hk : s.HeldExcl k x) : h = k := by
  obtain ⟨l, hl, rfl, hxl⟩ := hh
  obtain ⟨m, hm, rfl, hxm⟩ := hk
  by_contra hne
  have hlm : l ≠ m := fun heq => hne (congrArg RangeLockDetails.handle heq)
  exact hs.excl.apart l hl m hm hlm trivial (overlaps_of_mem hxl hxm)

/-! ## Conflicts -/

/-- The request has to wait: another handle holds one of its bytes in a conflicting mode, or one of
the writers `ws` of another handle wants one. -/
def Blocked (s : RangeLocks) (d : RangeLockDetails) (ws : List RangeLockDetails) : Prop :=
  (∃ k, k ≠ d.handle ∧ ∃ x ∈ d.bytes, s.HeldExcl k x ∨ (isExclusive d = true ∧ s.HeldShared k x)) ∨
  ∃ w ∈ ws, w.handle ≠ d.handle ∧ d.Overlaps w

lemma waiterConflictLoop_of_neg (ws : List RangeLockDetails) {n : ℤ} (hn : n < 0) :
    waiterConflictLoop d ws n = true ↔ ∃ w ∈ ws, w.handle ≠ d.handle ∧ d.Overlaps w := by
  induction ws generalizing n with
  | nil => simp [waiterConflictLoop]
  | cons w ws ih =>
    rw [waiterConflictLoop, if_neg hn.ne, List.exists_mem_cons_iff,
      ← conflict_eq_true_iff, ← ih (n := n - 1) (by omega)]
    cases d.overlaps w && !d.equalsHandle w <;> simp

lemma waiterConflictLoop_natCast (ws : List RangeLockDetails) (n : ℕ) :
    waiterConflictLoop d ws n = true ↔ ∃ w ∈ ws.take n, w.handle ≠ d.handle ∧ d.Overlaps w := by
  induction ws generalizing n with
  | nil => simp [waiterConflictLoop]
  | cons w ws ih =>
    cases n with
    | zero => simp [waiterConflictLoop]
    | succ n =>
      have hpred : ((n + 1 : ℕ) : ℤ) - 1 = n := by omega
      rw [waiterConflictLoop, if_neg (by omega), List.take_succ_cons,
        List.exists_mem_cons_iff, ← conflict_eq_true_iff, ← ih n]
      cases d.overlaps w && !d.equalsHandle w <;> simp

/-- Another handle holds a byte of the request in a set exactly if one of its locks there overlaps
the request. -/
lemma exists_held_iff {lt : RangeLockDetails → RangeLockDetails → Bool} [RangeComparator lt]
    {S : RangeLockSet lt} (hS : S.NormalForm) (hd : d.WF) :
    (∃ l ∈ S.locks.elems, l.handle ≠ d.handle ∧ d.Overlaps l) ↔
      ∃ k, k ≠ d.handle ∧ ∃ x ∈ d.bytes, S.Held k x := by
  constructor
  · rintro ⟨l, hl, hne, hov⟩
    obtain ⟨x, hxd, hxl⟩ := (overlaps_iff_exists hd (hS.wf l hl)).mp hov
    exact ⟨l.handle, hne, x, hxd, l, hl, rfl, hxl⟩
  · rintro ⟨k, hne, x, hxd, l, hl, rfl, hxl⟩
    exact ⟨l, hl, hne, overlaps_of_mem hxd hxl⟩

variable {ws : List RangeLockDetails}

/-- The conflict check for a request before which the writers `ws` are respected. -/
lemma Normal.checkConflictsEx_iff (hs : s.Normal) (hd : d.WF) {n : ℤ}
    (hws : waiterConflictLoop d s.queues.waitersExclLock n = true ↔
      ∃ w ∈ ws, w.handle ≠ d.handle ∧ d.Overlaps w) :
    s.flockRangeCheckConflictsEx d n = true ↔ s.Blocked d ws := by
  unfold flockRangeCheckConflictsEx Blocked HeldExcl HeldShared
  rw [← hws]
  have hex := (conflictLoop_iff (d := d) s.exclRangeFLocks.locks.sorted).trans
    (exists_held_iff hs.excl hd)
  have hsh := (conflictLoop_iff (d := d) s.sharedRangeFLocks.locks.sorted).trans
    (exists_held_iff hs.shared hd)
  have hsplit : (∃ k, k ≠ d.handle ∧ ∃ x ∈ d.bytes, s.exclRangeFLocks.Held k x ∨
      (isExclusive d = true ∧ s.sharedRangeFLocks.Held k x)) ↔
      (∃ k, k ≠ d.handle ∧ ∃ x ∈ d.bytes, s.exclRangeFLocks.Held k x) ∨
      (isExclusive d = true ∧ ∃ k, k ≠ d.handle ∧ ∃ x ∈ d.bytes, s.sharedRangeFLocks.Held k x) := by
    constructor
    · rintro ⟨k, hne, x, hx, hheld | ⟨hm, hheld⟩⟩
      · exact .inl ⟨k, hne, x, hx, hheld⟩
      · exact .inr ⟨hm, k, hne, x, hx, hheld⟩
    · rintro (⟨k, hne, x, hx, hheld⟩ | ⟨hm, k, hne, x, hx, hheld⟩)
      · exact ⟨k, hne, x, hx, .inl hheld⟩
      · exact ⟨k, hne, x, hx, .inr ⟨hm, hheld⟩⟩
  rw [hsplit, ← hex, ← hsh, ← Bool.and_eq_true, or_assoc]
  split_ifs with h1 h2
  · exact iff_of_true rfl (.inl h1)
  · exact iff_of_true rfl (.inr (.inl h2))
  · exact ⟨fun h => .inr (.inr h), fun h => (h.resolve_left h1).resolve_left h2⟩

lemma Normal.checkConflicts_iff (hs : s.Normal) (hd : d.WF) :
    s.flockRangeCheckConflicts d = true ↔ s.Blocked d s.queues.waitersExclLock :=
  hs.checkConflictsEx_iff hd (waiterConflictLoop_of_neg _ (by omega))

variable {r : RangeLocks}

/-- More held bytes and more writers block more. -/
lemma Blocked.mono {vs : List RangeLockDetails} (h : s.Blocked d ws)
    (hex : ∀ k x, s.HeldExcl k x → r.HeldExcl k x)
    (hsh : ∀ k x, s.HeldShared k x → r.HeldShared k x) (hws : ∀ w ∈ ws, w ∈ vs) :
    r.Blocked d vs := by
  rcases h with ⟨k, hne, x, hx, hheld⟩ | ⟨w, hw, hne, hov⟩
  · exact .inl ⟨k, hne, x, hx, hheld.imp (hex k x) fun hm => ⟨hm.1, hsh k x hm.2⟩⟩
  · exact .inr ⟨w, hws w hw, hne, hov⟩

/-! ## Removals -/

/-- The invariant for locks that exclude each other and for waiters that waited before. -/
lemma Inv.of_waiters (hs : s.Inv) (hn : r.Normal)
    (hexclusion : ∀ h k x, r.HeldExcl h x → r.HeldShared k x → h = k)
    (hwaiters : r.queues.Within s.queues) (hcons : r.queues.Consistent) : r.Inv where
  toNormal := hn
  exclusion := hexclusion
  waiters_wf w hw := hs.waiters_wf w (hwaiters.waiters hw)
  exclWaiters w hw := hs.exclWaiters w (hwaiters.excl w hw)
  sharedWaiters w hw := hs.sharedWaiters w (hwaiters.shared w hw)
  consistent := hcons

lemma held_eraseIf {lt : RangeLockDetails → RangeLockDetails → Bool} [RangeComparator lt]
    {S : RangeLockSet lt} {p : RangeLockDetails → Bool} (hx : (S.eraseIf p).Held h x) :
    S.Held h x := by
  obtain ⟨l, hl, hlh, hxl⟩ := hx
  exact ⟨l, (OrdSet.mem_eraseIf.mp hl).1, hlh, hxl⟩

lemma Inv.flockRangeCancelIf (hs : s.Inv) (p : RangeLockDetails → Bool) :
    (s.flockRangeCancelIf p).1.Inv :=
  hs.of_waiters ⟨hs.excl.eraseIf p, hs.shared.eraseIf p⟩
    (fun h k x hh hk => hs.exclusion h k x (held_eraseIf hh) (held_eraseIf hk))
    (removeIf_within p) (hs.consistent.removeIf p)

lemma Inv.flockRangeCancelAllWaiters (hs : s.Inv) : s.flockRangeCancelAllWaiters.Inv :=
  hs.of_waiters ⟨hs.excl, hs.shared⟩ hs.exclusion ⟨nofun, nofun⟩ consistent_empty

/-- What an unlock does to the bytes that handles hold.  The last two facts leave open what happens
to shared bytes when an exclusive lock covers the whole range. -/
structure UnlockSpec (s : RangeLocks) (d : RangeLockDetails) (res : RangeLocks × Bool) : Prop where
  excl : res.1.exclRangeFLocks.NormalForm
  shared : res.1.sharedRangeFLocks.NormalForm
  queues : res.1.queues = s.queues
  heldExcl : ∀ h x, res.1.HeldExcl h x ↔ s.HeldExcl h x ∧ ¬ (h = d.handle ∧ x ∈ d.bytes)
  heldShared : ∀ h x, (res.1.HeldShared h x → s.HeldShared h x) ∧
    (s.HeldShared h x → ¬ (h = d.handle ∧ x ∈ d.bytes) → res.1.HeldShared h x)
  releasesShared : (∃ x ∈ d.bytes, ¬ s.HeldExcl d.handle x) →
    ∀ x ∈ d.bytes, ¬ res.1.HeldShared d.handle x
  removed : res.2 = true ↔ ∃ x ∈ d.bytes, s.HeldExcl d.handle x ∨ s.HeldShared d.handle x
  unchanged : res.2 = false → res.1 = s

lemma Normal.unlockSpec (hs : s.Normal) (hd : d.WF) : UnlockSpec s d (s.flockRangeUnlock d) := by
  have hE := hs.excl.unlockedAll hd false
  unfold flockRangeUnlock
  generalize s.exclRangeFLocks.unlockLoop d false s.exclRangeFLocks.locks.elems = E at hE
  have hstart : d.start ∈ d.bytes := ⟨le_rfl, hd.1⟩
  cases hret : E.returned with
  | true =>
    -- the quick path: the shared locks are not visited
    have hall := hE.covers hret
    simp only [hret, if_true]
    refine ⟨hE.normalForm, hs.shared, rfl, hE.held, fun h x => ⟨id, fun hx _ => hx⟩, ?_, ?_, ?_⟩
    · rintro ⟨x, hx, hnot⟩
      exact absurd (hall x hx) hnot
    · exact iff_of_true rfl ⟨d.start, hstart, .inl (hall _ hstart)⟩
    · exact fun h => absurd h.symm Bool.false_ne_true
  | false =>
    have hSh := hs.shared.unlockedAll hd E.lockRemoved
    simp only [hret, Bool.false_eq_true, if_false]
    generalize s.sharedRangeFLocks.unlockLoop d E.lockRemoved
      s.sharedRangeFLocks.locks.elems = U at hSh ⊢
    have hrem : U.lockRemoved = true ↔
        ∃ x ∈ d.bytes, s.HeldExcl d.handle x ∨ s.HeldShared d.handle x := by
      rw [hSh.lockRemoved, hE.lockRemoved]
      constructor
      · rintro ((h | ⟨x, hx, hheld⟩) | ⟨x, hx, hheld⟩)
        · cases h
        · exact ⟨x, hx, .inl hheld⟩
        · exact ⟨x, hx, .inr hheld⟩
      · rintro ⟨x, hx, hheld | hheld⟩
        · exact .inl (.inr ⟨x, hx, hheld⟩)
        · exact .inr ⟨x, hx, hheld⟩
    refine ⟨hE.normalForm, hSh.normalForm, rfl, hE.held, fun h x => ?_, fun _ x hx hheld => ?_,
      hrem, fun hno => ?_⟩
    · exact ⟨fun hx => ((hSh.held h x).mp hx).1, fun hx hnot => (hSh.held h x).mpr ⟨hx, hnot⟩⟩
    · exact ((hSh.held _ x).mp hheld).2 ⟨rfl, hx⟩
    · rw [← Bool.not_eq_true, hrem] at hno
      have hEset := hE.unchanged (by rintro ⟨x, hx, hheld⟩; exact hno ⟨x, hx, .inl hheld⟩)
      have hUset := hSh.unchanged (by rintro ⟨x, hx, hheld⟩; exact hno ⟨x, hx, .inr hheld⟩)
      rw [hEset, hUset]

lemma Inv.flockRangeUnlock (hs : s.Inv) (hd : d.WF) : (s.flockRangeUnlock d).1.Inv := by
  have hu := hs.unlockSpec hd
  refine hs.of_waiters ⟨hu.excl, hu.shared⟩ (fun h k x hh hk => ?_) (within_of_eq hu.queues) ?_
  · exact hs.exclusion h k x ((hu.heldExcl h x).mp hh).1 ((hu.heldShared k x).1 hk)
  · rw [hu.queues]
    exact hs.consistent

/-! ## Grants -/

/-- No other handle holds a byte of the range in a conflicting mode. -/
def Free (s : RangeLocks) (d : RangeLockDetails) : Prop :=
  ∀ k, k ≠ d.handle → ∀ x ∈ d.bytes, ¬ s.HeldExcl k x ∧ (isExclusive d = true → ¬ s.HeldShared k x)

lemma free_of_not_blocked (h : ¬ s.Blocked d ws) : s.Free d :=
  fun k hne x hx => ⟨fun hheld => h (.inl ⟨k, hne, x, hx, .inl hheld⟩),
    fun hm hheld => h (.inl ⟨k, hne, x, hx, .inr ⟨hm, hheld⟩⟩)⟩

/-- What a grant does to the bytes that handles hold: those of the request are added to the owner's
in its mode. -/
structure Granted (s : RangeLocks) (d : RangeLockDetails) (r : RangeLocks) : Prop where
  normal : r.Normal
  heldExcl : ∀ h x, r.HeldExcl h x ↔
    s.HeldExcl h x ∨ (isExclusive d = true ∧ h = d.handle ∧ x ∈ d.bytes)
  heldShared : ∀ h x, r.HeldShared h x ↔
    s.HeldShared h x ∨ (isExclusive d = false ∧ h = d.handle ∧ x ∈ d.bytes)

lemma Normal.flockRangeShared (hs : s.Normal) (hd : d.WF) (hm : isExclusive d = false) :
    Granted s d (s.flockRangeShared d).1 := by
  obtain ⟨hnf, hheld⟩ := hs.shared.grant hd fun l _ hcomp hne => absurd hcomp.symm hne
  refine ⟨⟨hs.excl, hnf⟩, fun h x => ?_, fun h x => ?_⟩
  · simp only [hm, Bool.false_eq_true, false_and, or_false]
    rfl
  · simp only [hm, true_and]
    exact hheld h x

lemma Normal.flockRangeExclusive (hs : s.Normal) (hd : d.WF) (hm : isExclusive d = true)
    (hfree : s.Free d) : Granted s d (s.flockRangeExclusive d).1 := by
  have hother : ∀ l ∈ s.exclRangeFLocks.locks, RangeComparator.competes
      mapComparatorExcl d.handle l.handle → l.handle ≠ d.handle → ¬ d.Overlaps l := by
    intro l hl _ hne hov
    obtain ⟨x, hxd, hxl⟩ := (overlaps_iff_exists hd (hs.excl.wf l hl)).mp hov
    exact (hfree l.handle hne x hxd).1 ⟨l, hl, rfl, hxl⟩
  obtain ⟨hnf, hheld⟩ := hs.excl.grant hd hother
  refine ⟨⟨hnf, hs.shared⟩, fun h x => ?_, fun h x => ?_⟩
  · simp only [hm, true_and]
    exact hheld h x
  · simp only [hm, Bool.true_eq_false, false_and, or_false]
    rfl

/-- A request whose range is free is granted in its mode. -/
lemma Normal.granted (hs : s.Normal) (hd : d.WF) (hmode : isShared d = !isExclusive d)
    (hfree : s.Free d) : Granted s d (ops.grant s d) := by
  unfold LockOps.grant
  cases hm : isExclusive d with
  | true =>
    rw [hmode, hm, Bool.not_true]
    exact hs.flockRangeExclusive hd hm hfree
  | false =>
    rw [hmode, hm, Bool.not_false]
    exact hs.flockRangeShared hd hm

lemma queues_grant : (ops.grant s d).queues = s.queues := by
  unfold LockOps.grant
  split <;> rfl

/-- The owner holds the bytes, and the others keep theirs. -/
lemma Granted.exclusion (hg : Granted s d r) (hs : s.Inv) (hfree : s.Free d) :
    ∀ h k x, r.HeldExcl h x → r.HeldShared k x → h = k := by
  intro h k x hh hk
  by_contra hne
  rcases (hg.heldExcl h x).mp hh with hh | ⟨hm, rfl, hx⟩
  · rcases (hg.heldShared k x).mp hk with hk | ⟨-, rfl, hx⟩
    · exact hne (hs.exclusion h k x hh hk)
    · exact (hfree h hne x hx).1 hh
  · rcases (hg.heldShared k x).mp hk with hk | ⟨hm', -⟩
    · exact (hfree k (Ne.symm hne) x hx).2 hm hk
    · cases hm'.symm.trans hm

lemma Inv.grant (hs : s.Inv) (hd : RangeRequest d) (hl : isLock d = true) (hfree : s.Free d) :
    (ops.grant s d).Inv := by
  have hg := hs.granted (hd.wf_of_isLock hl) (hd.validFlags hl) hfree
  refine hs.of_waiters hg.normal (hg.exclusion hs hfree) (within_of_eq queues_grant) ?_
  rw [queues_grant]
  exact hs.consistent

/-- Without conflict the range is free, also after the owner's unlock. -/
lemma Normal.free_flockRangeUnlock (hs : s.Normal) (hwf : d.WF)
    (hc : s.flockRangeCheckConflicts d = false) : (s.flockRangeUnlock d).1.Free d := by
  have hu := hs.unlockSpec hwf
  rw [← Bool.not_eq_true, hs.checkConflicts_iff hwf] at hc
  have hfree := free_of_not_blocked hc
  intro k hne x hx
  exact ⟨fun h => (hfree k hne x hx).1 ((hu.heldExcl k x).mp h).1,
    fun hm h => (hfree k hne x hx).2 hm ((hu.heldShared k x).1 h)⟩

lemma Inv.enqueue (hs : s.Inv) (hd : RangeRequest d) (hl : isLock d = true)
    (hid : d.lockAckID ∉ s.queues.waitersLockIDs) : (ops.enqueue s d).Inv := by
  have hwf := hd.wf_of_isLock hl
  have hmode := hd.validFlags hl
  refine ⟨⟨hs.excl, hs.shared⟩, hs.exclusion, fun w hw => ?_, fun w hw => ?_, fun w hw => ?_,
    hs.consistent.push hid⟩
  · rcases mem_waiters_push.mp hw with rfl | hw
    · exact hwf
    · exact hs.waiters_wf w hw
  · rcases mem_waitersExclLock_push.mp hw with hw | ⟨hns, rfl⟩
    · exact hs.exclWaiters w hw
    · rwa [hmode, Bool.not_eq_false'] at hns
  · rcases mem_waitersSharedLock_push.mp hw with hw | ⟨hsd, rfl⟩
    · exact hs.sharedWaiters w hw
    · rwa [hmode, Bool.not_eq_true'] at hsd

end Beegfs.RangeLocks
