import Beegfs.Locking.RangeLockWakeup

/-!
# Retransmitted range lock requests

A range lock request that is processed a second time right after the first is answered from the ID
set or from the granted locks, and changes nothing.

The case that needs an argument is a request that has to wait after it released what its owner held.
The release may let waiters of others in, but none of the owner: these were blocked by others
(`NoGrantableWaiter`), who still hold their locks or wait before them, and if one of those writers
is granted now, its lock blocks instead.
-/

namespace Beegfs.RangeLocks

open LockDetails LockOps Bool List

variable {s : RangeLocks} {d : RangeLockDetails} {h : RangeHandle}

/-- The owner of the request holds all its bytes in the mode of the request. -/
def Holds (s : RangeLocks) (d : RangeLockDetails) : Prop :=
  ∀ x ∈ d.bytes, if isExclusive d then s.HeldExcl d.handle x else s.HeldShared d.handle x

lemma Normal.flockRangeIsGranted_iff (hs : s.Normal) (hd : d.WF)
    (hmode : isShared d = !isExclusive d) : s.flockRangeIsGranted d = true ↔ s.Holds d := by
  unfold flockRangeIsGranted Holds
  cases hm : isExclusive d with
  | true =>
    exact RangeLockSet.isGrantedLoop_iff hs.excl.separate hd
  | false =>
    rw [hm] at hmode
    simp only [hmode, false_eq_true, if_false]
    exact RangeLockSet.isGrantedLoop_iff hs.shared.separate hd

/-- The first range of the owner that overlaps the request decides, and decides rightly: the range
is granted if and only if the owner holds each of its bytes in the mode of the request. -/
theorem flockRangeIsGranted_iff_holds (s : RangeLocks) (hs : s.SeparateRanges)
    (d : RangeLockDetails) (hd : d.WF) (hmode : isExclusive d = true ∨ isShared d = true) :
    s.flockRangeIsGranted d = true ↔ s.Holds d := by
  unfold flockRangeIsGranted Holds
  split_ifs with hm hsh
  · exact RangeLockSet.isGrantedLoop_iff
      (fun a ha b hb hne heq => not_touches_of_lt (hs.excl a ha b hb hne heq)) hd
  · exact RangeLockSet.isGrantedLoop_iff
      (fun a ha b hb hne heq => not_touches_of_lt (hs.shared a ha b hb hne heq)) hd
  · exact absurd hmode (not_or.mpr ⟨hm, hsh⟩)

/-- Another process holds a range between the two of the owner. -/
theorem flockRangeIsGranted_iff_holds_three :
    let s : RangeLocks :=
      { exclRangeFLocks := ⟨⟨[⟨1, 7, "a", entryLockTypeExclusive, 0, 9⟩,
          ⟨2, 7, "b", entryLockTypeExclusive, 10, 19⟩,
          ⟨1, 7, "c", entryLockTypeExclusive, 20, 29⟩], by decide⟩, []⟩
        sharedRangeFLocks := RangeLockSet.empty
        queues := WaiterQueues.empty }
    let d : RangeLockDetails := ⟨1, 7, "d", entryLockTypeExclusive, 22, 25⟩
    s.flockRangeIsGranted d = true ∧ s.Holds d := by
  intro s d
  have hex : ∀ a ∈ s.exclRangeFLocks.locks.elems, ∀ b ∈ s.exclRangeFLocks.locks.elems,
      a ≠ b → a.handle = b.handle → a.endPos + 1 < b.start ∨ b.endPos + 1 < a.start := by
    decide
  have hs : s.SeparateRanges := ⟨hex, fun a ha => absurd ha (OrdSet.not_mem_empty a)⟩
  have hgranted : s.flockRangeIsGranted d = true := by decide
  exact ⟨hgranted, (flockRangeIsGranted_iff_holds s hs d (by decide) (by decide)).mp hgranted⟩

variable {r : RangeLocks} {v : RangeLockDetails}

/-- When a writer of another handle is granted, its lock blocks whom it blocked in the queue. -/
lemma Blocked.of_granted {w : RangeLockDetails} {ws vs : List RangeLockDetails}
    (hb : s.Blocked w ws) (hw : w.WF) (hv : v.WF) (hg : Granted s v r)
    (hws : ∀ u ∈ ws, (u = v ∧ isExclusive v = true) ∨ u ∈ vs) : r.Blocked w vs := by
  rcases hb with ⟨k, hne, x, hx, hheld⟩ | ⟨u, hu, hne, hov⟩
  · refine .inl ⟨k, hne, x, hx, hheld.imp (fun hh => ?_) fun hk => ⟨hk.1, ?_⟩⟩
    · exact (hg.heldExcl k x).mpr (.inl hh)
    · exact (hg.heldShared k x).mpr (.inl hk.2)
  · rcases hws u hu with ⟨rfl, hm⟩ | hu
    · obtain ⟨x, hxw, hxv⟩ := (RangeLockDetails.overlaps_iff_exists hw hv).mp hov
      exact .inl ⟨u.handle, hne, x, hxw, .inl ((hg.heldExcl _ x).mpr (.inr ⟨hm, rfl, hxv⟩))⟩
    · exact .inr ⟨u, hu, hne, hov⟩

/-- The waiting writers before a wake-up: besides those that stay, the woken one. -/
lemma Wakes.waitersExclLock (hw : Wakes s v r) (hs : s.Inv) :
    (∀ u ∈ s.queues.waitersExclLock, (u = v ∧ isExclusive v = true) ∨
      u ∈ r.queues.waitersExclLock) ∧
    ∀ pre w post, r.queues.waitersExclLock = pre ++ w :: post → ∃ pre0 post0,
      s.queues.waitersExclLock = pre0 ++ w :: post0 ∧
        ∀ u ∈ pre0, (u = v ∧ isExclusive v = true) ∨ u ∈ pre := by
  cases hw with
  | @excl before after hq _ =>
    have hv := hs.exclWaiters v (hq ▸ mem_append_right _ mem_cons_self)
    refine ⟨fun u hu => ?_, fun pre w post heq => ?_⟩
    · rw [hq, perm_middle.mem_iff, mem_cons] at hu
      exact hu.imp_left fun heq => ⟨heq, hv⟩
    · rw [hq]
      rcases append_eq_append_iff.mp heq with ⟨t, rfl, rfl⟩ | ⟨t, rfl, ht⟩
      · refine ⟨before ++ v :: t, post, by simp, fun u hu => ?_⟩
        rcases mem_append.mp hu with hu | hu
        · exact .inr (mem_append_left _ hu)
        · exact (mem_cons.mp hu).imp (⟨·, hv⟩) (mem_append_right _)
      · cases t with
        | nil =>
          refine ⟨pre ++ [v], post, ?_, fun u hu => ?_⟩
          · simp [ht]
          · exact (mem_append.mp hu).symm.imp_left fun hu => ⟨mem_singleton.mp hu, hv⟩
        | cons a t =>
          rw [cons_append, List.cons.injEq] at ht
          refine ⟨pre, t ++ v :: after, ?_, fun u hu => .inr hu⟩
          simp [ht.1]
  | shared => exact ⟨fun u hu => .inr hu, fun pre w post heq => ⟨pre, post, heq, fun u => .inr⟩⟩

/-- What trying the waiters does to a handle all of whose requests are blocked: it gets no byte, and
its requests stay queued. -/
structure NotWoken (s : RangeLocks) (h : RangeHandle) (r : RangeLocks) : Prop where
  excl : ∀ x, r.HeldExcl h x ↔ s.HeldExcl h x
  shared : ∀ x, r.HeldShared h x ↔ s.HeldShared h x
  waiters : ∀ w ∈ s.queues.waiters, w.handle = h → w ∈ r.queues.waiters

lemma NotWoken.refl : NotWoken s h s := ⟨fun _ => Iff.rfl, fun _ => Iff.rfl, fun _ hw _ => hw⟩

/-- A request of a blocked handle is not woken. -/
lemma HandleBlocked.ne_of_wakes (hb : s.HandleBlocked h) (hw : Wakes s v r) : v.handle ≠ h := by
  intro heq
  cases hw with
  | excl hq hfree => exact hfree (hb.excl _ v _ hq heq)
  | shared hq hfree =>
    exact hfree (hb.shared v (hq ▸ mem_append_right _ mem_cons_self) heq)

/-- The handle stays blocked when another request is woken. -/
lemma HandleBlocked.wakes (hb : s.HandleBlocked h)
    (hs : s.Inv) (hw : Wakes s v r) : r.HandleBlocked h := by
  have hg := hw.granted hs
  have hv : v.WF := hs.waiters_wf v (hw.perm.mem_iff.mp mem_cons_self)
  have hwf : ∀ u ∈ r.queues.waiters, u.WF := (hw.inv hs).waiters_wf
  obtain ⟨hmem, hsplit⟩ := hw.waitersExclLock hs
  refine ⟨fun pre u post heq hu => ?_, fun u hu huh => ?_⟩
  · obtain ⟨pre0, post0, heq0, hsub⟩ := hsplit pre u post heq
    refine (hb.excl pre0 u post0 heq0 hu).of_granted (hwf u ?_) hv hg hsub
    exact WaiterQueues.mem_waiters.mpr (.inl (heq ▸ mem_append_right _ mem_cons_self))
  · exact (hb.shared u (hw.within.shared u hu) huh).of_granted
      (hwf u (WaiterQueues.mem_waiters.mpr (.inr hu))) hv hg hmem

lemma Inv.notWoken_flockRangeTryNextWaiters (hs : s.Inv) (hb : s.HandleBlocked h) :
    NotWoken s h s.flockRangeTryNextWaiters.1 := by
  refine (flockRangeTryNextWaiters_induction (I := fun r => HandleBlocked r h ∧ NotWoken s h r)
    (fun r v r' hr hw hI => ?_) hs ⟨hb, NotWoken.refl⟩).2.2
  obtain ⟨hrb, hn⟩ := hI
  have hg := hw.granted hr
  have hother := hrb.ne_of_wakes hw
  refine ⟨hrb.wakes hr hw, fun x => ?_, fun x => ?_, fun w hmem hwh => ?_⟩
  · rw [← hn.excl x]
    exact (hg.heldExcl h x).trans (or_iff_left fun hm => hother hm.2.1.symm)
  · rw [← hn.shared x]
    exact (hg.heldShared h x).trans (or_iff_left fun hm => hother hm.2.1.symm)
  · refine (mem_cons.mp (hw.perm.mem_iff.mpr (hn.waiters w hmem hwh))).resolve_left ?_
    rintro rfl
    exact hother hwh

/-! ## The request that has to wait -/

/-- What blocks a request of the owner is not the owner's, so an unlock does not remove it. -/
lemma Inv.blocked_flockRangeUnlock (hs : s.Inv) (hd : d.WF) {w : RangeLockDetails}
    {ws : List RangeLockDetails} (hw : w.handle = d.handle) (hb : s.Blocked w ws) :
    (s.flockRangeUnlock d).1.Blocked w ws := by
  have hu := hs.unlockSpec hd
  rcases hb with ⟨k, hne, x, hx, hheld⟩ | hwait
  · have hk : ¬ (k = d.handle ∧ x ∈ d.bytes) := fun hm => hne (hm.1.trans hw.symm)
    refine .inl ⟨k, hne, x, hx, hheld.imp (fun hh => (hu.heldExcl k x).mpr ⟨hh, hk⟩) fun hm => ?_⟩
    exact ⟨hm.1, (hu.heldShared k x).2 hm.2 hk⟩
  · exact .inr hwait

lemma NoGrantableWaiter.handleBlocked_flockRangeUnlock (hn : s.NoGrantableWaiter) (hs : s.Inv)
    (hd : d.WF) : (s.flockRangeUnlock d).1.HandleBlocked d.handle := by
  have hq := (hs.unlockSpec hd).queues
  refine ⟨fun before w after heq hw => ?_, fun w hmem hw => ?_⟩
  · rw [hq] at heq
    exact hs.blocked_flockRangeUnlock hd hw (hn.excl before w after heq)
  · rw [hq] at hmem ⊢
    exact hs.blocked_flockRangeUnlock hd hw (hn.shared w hmem)

/-! ## The request that is granted at once -/

/-- Trying the waiters queues nobody. -/
lemma Inv.waitersLockIDs_flockRangeTryNextWaiters (hs : s.Inv) {a : String}
    (ha : a ∈ s.flockRangeTryNextWaiters.1.queues.waitersLockIDs) :
    a ∈ s.queues.waitersLockIDs := by
  obtain ⟨hinv, hsub⟩ := flockRangeTryNextWaiters_induction
    (I := fun r => ∀ w ∈ r.queues.waiters, w ∈ s.queues.waiters)
    (fun _ _ _ _ hv hI w hw => hI w (hv.perm.mem_iff.mp (mem_cons_of_mem _ hw))) hs
    fun _ hw => hw
  obtain ⟨w, hw, hwid⟩ := hinv.consistent.mem_ids_iff.mp ha
  exact hs.consistent.mem_ids_iff.mpr ⟨w, hsub w hw, hwid⟩

/-- Trying the waiters leaves the owner what it holds. -/
lemma Inv.holds_flockRangeTryNextWaiters (hs : s.Inv) (hd : s.Holds d) :
    s.flockRangeTryNextWaiters.1.Holds d := by
  intro x hx
  have hheld := hd x hx
  split_ifs at hheld ⊢
  · exact (hs.held_flockRangeTryNextWaiters d.handle x).1 hheld
  · exact (hs.held_flockRangeTryNextWaiters d.handle x).2 hheld

lemma Granted.holds (hg : Granted s d r) : r.Holds d := by
  intro x hx
  split_ifs with hm
  · exact (hg.heldExcl _ x).mpr (.inr ⟨hm, rfl, hx⟩)
  · exact (hg.heldShared _ x).mpr (.inr ⟨eq_false_iff.mpr hm, rfl, hx⟩)

variable (hs : s.Inv) (hd : RangeRequest d) (hl : isLock d = true)
  (hid : d.lockAckID ∉ s.queues.waitersLockIDs)

include hs hd hl hid

/-- The second processing of a request.  One that was granted at once is still granted after the
waiters were tried, and one that has to wait is queued and not granted. -/
lemma NoGrantableWaiter.flockRangeUnlocked_twice (hn : s.NoGrantableWaiter) :
    (s.flockRangeUnlocked d).1.flockRangeUnlocked d =
      ((s.flockRangeUnlocked d).1, (s.flockRangeUnlocked d).1.flockRangeIsGranted d, []) := by
  have hwf := hd.wf_of_isLock hl
  have hmode := hd.validFlags hl
  have hspec := hs.unlockSpec hwf
  have hu := hs.flockRangeUnlock hwf
  refine request_request hl hid (fun hc r hr => ?_) fun hg hc r hr => .inl ?_
  · change d.lockAckID ∉ r.queues.waitersLockIDs ∧ r.flockRangeIsGranted d = true
    have hfree := hs.free_flockRangeUnlock hwf hc
    have hgrant : (ops.grant (s.flockRangeUnlock d).1 d).Inv := hu.grant hd hl hfree
    have hinv : r.Inv := hr ▸ wakeup_of (P := Inv) hgrant hgrant.flockRangeTryNextWaiters _
    have hqueues : (ops.grant (s.flockRangeUnlock d).1 d).queues = s.queues :=
      queues_grant.trans hspec.queues
    have hholds := (hu.granted hwf hmode hfree).holds
    rw [← hqueues] at hid
    rw [hinv.flockRangeIsGranted_iff hwf hmode, hr]
    refine wakeup_of (P := fun r => d.lockAckID ∉ (queues r).waitersLockIDs ∧ Holds r d)
      ⟨hid, hholds⟩ ?_ _
    exact ⟨mt hgrant.waitersLockIDs_flockRangeTryNextWaiters hid,
      hgrant.holds_flockRangeTryNextWaiters hholds⟩
  · change d.lockAckID ∈ r.queues.waitersLockIDs ∧ r.flockRangeIsGranted d = false
    -- nothing of the owner is woken, if the waiters are tried at all
    have hblocked : (ops.enqueue (s.flockRangeUnlock d).1 d).HandleBlocked d.handle := by
      refine (hn.handleBlocked_flockRangeUnlock hs hwf).enqueue fun _ => ?_
      rw [hspec.queues]
      exact hs.blocked_flockRangeUnlock hwf rfl ((hs.checkConflicts_iff hwf).mp hc)
    have hqueued : (ops.enqueue (s.flockRangeUnlock d).1 d).Inv :=
      hu.enqueue hd hl (by rw [hspec.queues]; exact hid)
    have hinv : r.Inv := hr ▸ wakeup_of (P := Inv) hqueued hqueued.flockRangeTryNextWaiters _
    have hnot : NotWoken (ops.enqueue (s.flockRangeUnlock d).1 d) d.handle r :=
      hr ▸ wakeup_of (P := NotWoken _ d.handle) NotWoken.refl
        (hqueued.notWoken_flockRangeTryNextWaiters hblocked) _
    refine ⟨?_, ?_⟩
    · refine hinv.consistent.mem_ids_iff.mpr ⟨d, hnot.waiters d ?_ rfl, rfl⟩
      exact WaiterQueues.mem_waiters_push.mpr (.inl rfl)
    · change s.flockRangeIsGranted d = false at hg
      rw [← not_eq_true, hs.flockRangeIsGranted_iff hwf hmode] at hg
      rw [← not_eq_true, hinv.flockRangeIsGranted_iff hwf hmode]
      refine fun hholds => hg fun x hx => ?_
      have hheld := hholds x hx
      split_ifs at hheld ⊢
      · exact ((hspec.heldExcl _ x).mp ((hnot.excl x).mp hheld)).1
      · exact (hspec.heldShared _ x).1 ((hnot.shared x).mp hheld)

end Beegfs.RangeLocks
