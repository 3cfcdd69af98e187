import Beegfs.Locking.RangeLockWakeup

/-!
# The range locks of one handle

The granted ranges of a handle should form a map from bytes to modes: separate ranges in each set,
and no byte in both.  The first part always holds.  The second is kept by an immediate grant, which
releases the range in both modes first, but the wake-up path grants a queued request without such a
release.  If another thread of the process has meanwhile been granted, or is queued for, an
overlapping range in the other mode, the process ends up with bytes in both sets.

`MixesModes` is the call that prepares this: a lock request takes effect while an overlapping
request of the same process for the other mode is queued.  In runs without such calls every handle
is consistent in every state.
-/

namespace Beegfs.RangeLocks

open LockDetails WaiterQueues

variable {s : RangeLocks} {d w : RangeLockDetails}

/-- The granted ranges of each handle are separate in each mode, and no byte is held in both. -/
structure HandleConsistent (s : RangeLocks) : Prop extends SeparateRanges s where
  modes : ∀ h x, ¬ (s.HeldExcl h x ∧ s.HeldShared h x)

/-- The queued requests for the mode other than the one of `d`. -/
def otherModeWaiters (s : RangeLocks) (d : RangeLockDetails) : List RangeLockDetails :=
  if isExclusive d then s.queues.waitersSharedLock else s.queues.waitersExclLock

/-- The call is a lock request that is granted or queued, while an overlapping request of the same
handle for the other mode is queued. -/
def MixesModes (s : RangeLocks) : LockOp RangeLockDetails → Prop
  | .request d => isLock d = true ∧ d.lockAckID ∉ s.queues.waitersLockIDs ∧
      s.flockRangeIsGranted d = false ∧
      (s.flockRangeCheckConflicts d = false ∨ allowsWaiting d = true) ∧
      ∃ w ∈ s.otherModeWaiters d, w.handle = d.handle ∧ d.Overlaps w
  | _ => False

instance (s : RangeLocks) : DecidablePred s.MixesModes
  | .request _ => inferInstanceAs (Decidable (_ ∧ _ ∧ _ ∧ _ ∧ _))
  | .cancelByClientID _ => isFalse id
  | .cancelAllWaiters => isFalse id

/-! ## The invariant of runs that do not mix modes -/

/-- No handle holds a byte in both modes, or waits for a byte in one mode while it holds it, or
waits for it, in the other. -/
structure Unmixed (s : RangeLocks) : Prop where
  held : ∀ h x, s.HeldExcl h x → ¬ s.HeldShared h x
  excl : ∀ w ∈ s.queues.waitersExclLock, ∀ x ∈ w.bytes, ¬ s.HeldShared w.handle x
  shared : ∀ w ∈ s.queues.waitersSharedLock, ∀ x ∈ w.bytes, ¬ s.HeldExcl w.handle x
  waiters : ∀ v ∈ s.queues.waitersExclLock, ∀ w ∈ s.queues.waitersSharedLock,
    v.handle = w.handle → ∀ x ∈ v.bytes, x ∉ w.bytes

lemma unmixed_empty : empty.Unmixed where
  held _ _ := fun ⟨l, hl, _⟩ => absurd hl (OrdSet.not_mem_empty l)
  excl := nofun
  shared := nofun
  waiters := nofun

lemma Normal.handleConsistent (hs : s.Normal)
    (hmodes : ∀ h x, s.HeldExcl h x → ¬ s.HeldShared h x) : s.HandleConsistent where
  excl _ ha _ hb hne heq := hs.excl.lt_or_lt ha hb hne heq
  shared _ ha _ hb hne heq := hs.shared.lt_or_lt ha hb hne heq
  modes h x := fun hboth => hmodes h x hboth.1 hboth.2

/-- Removing locks and waiters mixes nothing. -/
lemma Unmixed.of_removed (hx : s.Unmixed) {r : RangeLocks}
    (hex : ∀ h x, r.HeldExcl h x → s.HeldExcl h x)
    (hsh : ∀ h x, r.HeldShared h x → s.HeldShared h x) (hq : r.queues.Within s.queues) :
    r.Unmixed where
  held h x hh hk := hx.held h x (hex h x hh) (hsh h x hk)
  excl w hw x hxw hk := hx.excl w (hq.excl w hw) x hxw (hsh _ x hk)
  shared w hw x hxw hh := hx.shared w (hq.shared w hw) x hxw (hex _ x hh)
  waiters v hv w hw := hx.waiters v (hq.excl v hv) w (hq.shared w hw)

/-- With no byte held in both modes, an unlock releases the range in both. -/
lemma Normal.not_held_flockRangeUnlock (hs : s.Normal)
    (hmodes : ∀ h x, s.HeldExcl h x → ¬ s.HeldShared h x) (hd : d.WF) :
    ∀ x ∈ d.bytes, ¬ (s.flockRangeUnlock d).1.HeldExcl d.handle x ∧
      ¬ (s.flockRangeUnlock d).1.HeldShared d.handle x := by
  have hu := hs.unlockSpec hd
  intro x hxd
  refine ⟨fun hh => ((hu.heldExcl _ x).mp hh).2 ⟨rfl, hxd⟩, fun hk => ?_⟩
  by_cases hall : ∃ y ∈ d.bytes, ¬ s.HeldExcl d.handle y
  · exact hu.releasesShared hall x hxd hk
  · -- the quick path: the whole range was exclusive, so none of it was shared
    have hheld : s.HeldExcl d.handle x := by
      by_contra hnot
      exact hall ⟨x, hxd, hnot⟩
    exact hmodes _ x hheld ((hu.heldShared _ x).1 hk)

/-- The requests of the owner that wait for the other mode are apart from the request. -/
def ApartFromOtherMode (s : RangeLocks) (d : RangeLockDetails) : Prop :=
  ∀ w ∈ s.otherModeWaiters d, w.handle = d.handle → ∀ x ∈ d.bytes, x ∉ w.bytes

/-- Granting a range of which the owner holds nothing in the other mode and waits for nothing. -/
lemma Unmixed.granted (hx : s.Unmixed) {r : RangeLocks} (hg : Granted s d r)
    (hown : ∀ x ∈ d.bytes, if isExclusive d then ¬ s.HeldShared d.handle x
      else ¬ s.HeldExcl d.handle x)
    (hother : s.ApartFromOtherMode d) (hq : r.queues.Within s.queues) : r.Unmixed := by
  unfold ApartFromOtherMode otherModeWaiters at hother
  refine ⟨fun h x hh hk => ?_, fun w hw x hxw hk => ?_, fun w hw x hxw hh => ?_,
    fun v hv w hw => hx.waiters v (hq.excl v hv) w (hq.shared w hw)⟩
  · rcases (hg.heldExcl h x).mp hh with hh | ⟨hm, rfl, hxd⟩
    · rcases (hg.heldShared h x).mp hk with hk | ⟨hm, rfl, hxd⟩
      · exact hx.held h x hh hk
      · have hnot := hown x hxd
        rw [hm] at hnot
        exact hnot hh
    · rcases (hg.heldShared _ x).mp hk with hk | ⟨hm', -⟩
      · have hnot := hown x hxd
        rw [hm] at hnot
        exact hnot hk
      · cases hm'.symm.trans hm
  · rcases (hg.heldShared _ x).mp hk with hk | ⟨hm, heq, hxd⟩
    · exact hx.excl w (hq.excl w hw) x hxw hk
    · rw [hm] at hother
      exact hother w (hq.excl w hw) heq x hxd hxw
  · rcases (hg.heldExcl _ x).mp hh with hh | ⟨hm, heq, hxd⟩
    · exact hx.shared w (hq.shared w hw) x hxw hh
    · rw [hm] at hother
      exact hother w (hq.shared w hw) heq x hxd hxw

/-- An immediate grant. -/
lemma Unmixed.grant (hx : s.Unmixed) (hs : s.Inv) (hd : RangeRequest d) (hl : isLock d = true)
    (hfree : s.Free d) (hnot : ∀ x ∈ d.bytes, ¬ s.HeldExcl d.handle x ∧ ¬ s.HeldShared d.handle x)
    (hother : s.ApartFromOtherMode d) : (ops.grant s d).Unmixed := by
  refine hx.granted (hs.granted (hd.wf_of_isLock hl) (hd.validFlags hl) hfree) (fun x hxd => ?_)
    hother (within_of_eq queues_grant)
  split_ifs
  · exact (hnot x hxd).2
  · exact (hnot x hxd).1

/-- A request is queued. -/
lemma Unmixed.enqueue (hx : s.Unmixed) (hd : RangeRequest d) (hl : isLock d = true)
    (hnot : ∀ x ∈ d.bytes, ¬ s.HeldExcl d.handle x ∧ ¬ s.HeldShared d.handle x)
    (hother : s.ApartFromOtherMode d) : (ops.enqueue s d).Unmixed := by
  unfold ApartFromOtherMode otherModeWaiters at hother
  have hmode := hd.validFlags hl
  refine ⟨hx.held, fun w hw => ?_, fun w hw => ?_, fun v hv w hw heq => ?_⟩
  · rcases mem_waitersExclLock_push.mp hw with hw | ⟨-, rfl⟩
    · exact hx.excl w hw
    · exact fun x hxd => (hnot x hxd).2
  · rcases mem_waitersSharedLock_push.mp hw with hw | ⟨-, rfl⟩
    · exact hx.shared w hw
    · exact fun x hxd => (hnot x hxd).1
  · rcases mem_waitersExclLock_push.mp hv with hv1 | ⟨hns, rfl⟩
    · rcases mem_waitersSharedLock_push.mp hw with hw | ⟨hsd, rfl⟩
      · exact hx.waiters v hv1 w hw heq
      · rw [hmode, Bool.not_eq_true'] at hsd
        rw [hsd] at hother
        exact fun x hxv hxd => hother v hv1 heq x hxd hxv
    · rcases mem_waitersSharedLock_push.mp hw with hw | ⟨hsd, -⟩
      · rw [hmode, Bool.not_eq_false'] at hns
        rw [hns] at hother
        exact hother w hw heq.symm
      · cases hns.symm.trans hsd

/-- Trying the waiters: they are apart from what their owners hold or wait for in the other mode. -/
lemma Unmixed.flockRangeTryNextWaiters (hx : s.Unmixed) (hs : s.Inv) :
    s.flockRangeTryNextWaiters.1.Unmixed := by
  refine (flockRangeTryNextWaiters_induction (I := Unmixed) (fun r w r' hr hw hI => ?_) hs hx).2
  rcases mem_waiters.mp (hw.perm.mem_iff.mp List.mem_cons_self) with hmem | hmem
  · have hm := hr.exclWaiters w hmem
    refine hI.granted (hw.granted hr) (fun x hxw => ?_) (fun v hv heq x hxw => ?_) hw.within
    · rw [hm]
      exact hI.excl w hmem x hxw
    · rw [otherModeWaiters, hm] at hv
      exact hI.waiters w hmem v hv heq.symm x hxw
  · have hm := hr.sharedWaiters w hmem
    refine hI.granted (hw.granted hr) (fun x hxw => ?_) (fun v hv heq x hxw hxv => ?_) hw.within
    · rw [hm]
      exact hI.shared w hmem x hxw
    · rw [otherModeWaiters, hm] at hv
      exact hI.waiters v hv w hmem heq x hxv hxw

variable {op : LockOp RangeLockDetails}

/-- Before the waiters are tried, nothing is mixed by a call that does not mix modes. -/
lemma Unmixed.beforeWakeup (hx : s.Unmixed) (hs : s.Inv)
    (hop : op.Valid RangeRequest) (hmix : ¬ s.MixesModes op) :
    (ops.beforeWakeup s op).1.Unmixed := by
  have hcanc : ∀ p, (s.flockRangeCancelIf p).1.Unmixed := fun p =>
    hx.of_removed (fun _ _ => held_eraseIf) (fun _ _ => held_eraseIf) (removeIf_within p)
  have hunl : ∀ d : RangeLockDetails, d.WF → (s.flockRangeUnlock d).1.Unmixed := by
    intro d hd
    have hu := hs.unlockSpec hd
    exact hx.of_removed (fun h x hh => ((hu.heldExcl h x).mp hh).1)
      (fun h x => (hu.heldShared h x).1) (within_of_eq hu.queues)
  cases op with
  | cancelByClientID c => exact hcanc _
  | cancelAllWaiters =>
    exact hx.of_removed (fun _ _ h => h) (fun _ _ h => h) ⟨nofun, nofun⟩
  | request d =>
    have hd : RangeRequest d := hop
    have hp := ops.processed_process s d
    change (ops.process s d).state.Unmixed
    generalize ops.process s d = out at hp ⊢
    -- after the owner's unlock, nothing of the range is held and the queues are as before
    have hafter : isLock d = true → d.lockAckID ∉ s.queues.waitersLockIDs →
        s.flockRangeIsGranted d = false →
        (s.flockRangeCheckConflicts d = false ∨ allowsWaiting d = true) →
        (s.flockRangeUnlock d).1.ApartFromOtherMode d := by
      intro hl hid hg heff
      have hu := hs.unlockSpec (hd.wf_of_isLock hl)
      unfold ApartFromOtherMode
      rw [otherModeWaiters, hu.queues]
      exact fun w hw heq x hxd hxw =>
        hmix ⟨hl, hid, hg, heff, w, hw, heq, RangeLockDetails.overlaps_of_mem hxd hxw⟩
    cases hp with
    | cancel h => exact hcanc _
    | unlock hc h => exact hunl d (hd.wf hc)
    | waiting hl h => exact hx
    | granted hl hw h => exact hx
    | immediate hl hw hg h =>
      have hwf := hd.wf_of_isLock hl
      exact (hunl d hwf).grant (hs.flockRangeUnlock hwf) hd hl (hs.free_flockRangeUnlock hwf h)
        (hs.not_held_flockRangeUnlock hx.held hwf) (hafter hl hw hg (.inl h))
    | enqueued hl hw hg h ha =>
      have hwf := hd.wf_of_isLock hl
      exact (hunl d hwf).enqueue hd hl (hs.not_held_flockRangeUnlock hx.held hwf)
        (hafter hl hw hg (.inr ha))
    | refused hl hw hg h ha => exact hx

lemma Unmixed.step (hx : s.Unmixed) (hs : s.Inv)
    (hop : op.Valid RangeRequest) (hmix : ¬ s.MixesModes op) : (s.step op).Unmixed := by
  rw [step_eq]
  exact LockOps.step_of_beforeWakeup (I := fun r => Inv r ∧ Unmixed r)
    (fun _ h => h.2.flockRangeTryNextWaiters h.1) s op
    ⟨hs.beforeWakeup hop, hx.beforeWakeup hs hop hmix⟩ fun _ => hx.beforeWakeup hs hop hmix

/-! ## Runs -/

/-- In every state of a run in which no process asks for a range while it waits for an overlapping
one in the other mode, the locks of every handle are consistent. -/
theorem handleConsistent_of_not_mixesModes (calls : List (LockOp RangeLockDetails))
    (hcalls : ∀ op ∈ calls, op.Valid RangeRequest)
    (hmix : EveryStep step (fun s op => ¬ MixesModes s op) empty calls) :
    EveryState step HandleConsistent empty calls :=
  everyState_of_everyStep (I := fun s => Inv s ∧ Unmixed s)
    (fun _ _ hC hI => ⟨hI.1.step hC.1, hI.2.step hI.1 hC.1 hC.2⟩)
    (fun _ hI => hI.1.handleConsistent hI.2.held) ⟨inv_empty, unmixed_empty⟩
    ((everyStep_of_forall hcalls).and hmix)

/-- A downgrade of a part of an exclusive range, and a merge. -/
theorem handleConsistent_downgrade :
    EveryState step HandleConsistent empty
      [.request ⟨1, 7, "a", entryLockTypeExclusive, 0, 19⟩,
       .request ⟨1, 7, "b", entryLockTypeShared, 5, 9⟩,
       .request ⟨1, 7, "c", entryLockTypeShared, 10, 14⟩] :=
  handleConsistent_of_not_mixesModes _ (by decide) (by decide)

/-- Two threads of process 2 wait, one for a shared and one for an exclusive range, until process 1
unlocks.  Both are granted, and process 2 holds byte 5 in both modes. -/
theorem wakeup_grants_both_modes :
    let calls : List (LockOp RangeLockDetails) :=
      [.request ⟨1, 7, "a", entryLockTypeExclusive, 0, 19⟩,
       .request ⟨2, 7, "b", entryLockTypeShared, 0, 9⟩,
       .request ⟨2, 7, "c", entryLockTypeExclusive, 5, 14⟩,
       .request ⟨1, 7, "d", entryLockTypeUnlock, 0, 19⟩]
    (∀ op ∈ calls, op.Valid RangeRequest) ∧ (runFrom step empty calls).HeldExcl ⟨2, 7⟩ 5 ∧
      (runFrom step empty calls).HeldShared ⟨2, 7⟩ 5 ∧
      ¬ (runFrom step empty calls).HandleConsistent := by
  refine ⟨by decide, ?_, ?_, fun h => h.modes ⟨2, 7⟩ 5 ⟨?_, ?_⟩⟩ <;> decide

end Beegfs.RangeLocks
