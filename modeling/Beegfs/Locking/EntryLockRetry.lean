import Beegfs.Locking.EntryLockInvariant

/-!
# Retransmitted entry lock requests

Clients repeat a request when the answer does not arrive.  A request that is processed a second time
right after the first is answered from the ID set or from the granted locks, and changes nothing.
-/

namespace Beegfs.EntryLockQueuesContainer

open LockDetails WaiterQueues Bool Finset List

variable {s : EntryLockQueuesContainer} {d : EntryLockDetails}

/-- The owner of the request holds a lock in the mode of the request. -/
def Holds (s : EntryLockQueuesContainer) (d : EntryLockDetails) : Prop :=
  if isExclusive d then s.HoldsExclusive d.handle else s.HoldsShared d.handle

/-- Trying the waiters leaves the owner its lock. -/
lemma holds_flockEntryTryNextWaiters (hh : s.Holds d) : s.flockEntryTryNextWaiters.1.Holds d := by
  unfold Holds at hh ⊢
  rcases flockEntryTryNextWaiters_cases s with ⟨-, heq⟩ | ⟨hset, -, heq⟩ | ⟨hset, w, ws, -, heq⟩
  · rw [heq]
    exact hh
  · rw [heq]
    split_ifs at hh ⊢
    · nomatch hset.symm.trans hh.1
    · exact ((grantSharedWaiters_spec s _ rfl).2.2 _).mpr (.inl hh)
  · rw [heq]
    split_ifs at hh ⊢
    · nomatch hset.symm.trans hh.1
    · exact hh

/-- The owner holds what is granted. -/
lemma holds_grant (hd : EntryRequest d) (hl : isLock d = true) : (ops.grant s d).Holds d := by
  rw [grant_eq (hd.validFlags hl), Holds]
  split_ifs
  · exact ⟨hd.isSet, rfl⟩
  · exact holdsShared_flockEntryShared.mpr (.inr rfl)

/-- Trying the waiters queues nobody. -/
lemma waitersLockIDs_flockEntryTryNextWaiters {a : String}
    (ha : a ∈ s.flockEntryTryNextWaiters.1.queues.waitersLockIDs) :
    a ∈ s.queues.waitersLockIDs := by
  rcases flockEntryTryNextWaiters_cases s with ⟨-, heq⟩ | ⟨-, -, heq⟩ | ⟨-, w, ws, -, heq⟩
  · rwa [heq] at ha
  · rw [heq, (grantSharedWaiters_spec s _ rfl).2.1] at ha
    exact (mem_eraseIDs.mp ha).1
  · rw [heq] at ha
    exact mem_of_mem_erase ha

variable {r : EntryLockQueuesContainer} (hid : d.lockAckID ∉ s.queues.waitersLockIDs)

include hid

/-- A reader that gives up its exclusive lock to wait for a shared one stays queued. -/
lemma Inv.waiting_after_downgrade (hs : s.Inv) (hm : isShared d = true)
    (hne : s.queues.waitersExclLock ≠ []) (hr : r = ops.enqueue { s with exclLock := .unset } d) :
    d.lockAckID ∈ r.flockEntryTryNextWaiters.1.queues.waitersLockIDs ∧
      (r.flockEntryTryNextWaiters.1.HoldsShared d.handle → s.HoldsShared d.handle) := by
  have hq : r.queues = { s.queues with
      waitersSharedLock := s.queues.waitersSharedLock ++ [d]
      waitersLockIDs := Insert.insert d.lockAckID s.queues.waitersLockIDs } := by
    rw [hr]
    exact if_pos hm
  rcases flockEntryTryNextWaiters_cases r with ⟨hset, -⟩ | ⟨-, hnil, -⟩ | ⟨-, w, ws, hw, heq⟩
  · rw [hr] at hset
    nomatch hset
  · rw [hq] at hnil
    exact absurd hnil hne
  · rw [hq] at hw
    have hwmem : w ∈ s.queues.waiters := mem_waiters.mpr (.inl (hw ▸ mem_cons_self))
    rw [heq, hq]
    refine ⟨mem_erase.mpr ⟨fun h => ?_, mem_insert_self _ _⟩, fun h => ?_⟩
    · exact hid (hs.consistent.mem_ids_iff.mpr ⟨w, hwmem, h.symm⟩)
    · rw [hr] at h
      exact h

/-- A reader that gives up its shared lock to wait for the exclusive one is either the first writer
in the queue and granted, or stays queued. -/
lemma Inv.waiting_or_granted_upgrade (hs : s.Inv) (hd : EntryRequest d) (hm : isShared d = false)
    (hsh : s.HoldsShared d.handle) (hex : ¬ s.HoldsExclusive d.handle)
    (hr : r = ops.enqueue { s with sharedLocks := s.sharedLocks.erase d } d) :
    (d.lockAckID ∈ r.flockEntryTryNextWaiters.1.queues.waitersLockIDs ∧
        ¬ r.flockEntryTryNextWaiters.1.HoldsExclusive d.handle) ∨
      (d.lockAckID ∉ r.flockEntryTryNextWaiters.1.queues.waitersLockIDs ∧
        r.flockEntryTryNextWaiters.1.HoldsExclusive d.handle) := by
  have hq : r.queues = { s.queues with
      waitersExclLock := s.queues.waitersExclLock ++ [d]
      waitersLockIDs := Insert.insert d.lockAckID s.queues.waitersLockIDs } := by
    rw [hr]
    exact if_neg (eq_false_iff.mp hm)
  rcases flockEntryTryNextWaiters_cases r with ⟨-, heq⟩ | ⟨-, hnil, -⟩ | ⟨-, w, ws, hw, heq⟩
  · rw [heq, hq]
    refine .inl ⟨mem_insert_self _ _, fun h => hex ?_⟩
    rw [hr] at h
    exact h
  · rw [hq] at hnil
    exact absurd hnil (append_ne_nil_of_right_ne_nil _ (cons_ne_nil d []))
  · rw [hq] at hw
    rw [heq, hq]
    cases hqueue : s.queues.waitersExclLock with
    | nil =>
      rw [hqueue, nil_append, List.cons.injEq] at hw
      rw [← hw.1]
      exact .inr ⟨notMem_erase _ _, hd.isSet, rfl⟩
    | cons v vs =>
      rw [hqueue, cons_append, List.cons.injEq] at hw
      rw [← hw.1]
      have hv : v ∈ s.queues.waitersExclLock := hqueue ▸ mem_cons_self
      refine .inl ⟨mem_erase.mpr ⟨fun h => ?_, mem_insert_self _ _⟩, fun h => ?_⟩
      · exact hid (hs.consistent.mem_ids_iff.mpr ⟨v, mem_waiters.mpr (.inl hv), h.symm⟩)
      · exact hs.waiter_not_reader v hv (h.2 ▸ hsh)

/-- A request that is queued is, after the waiters were tried, either still queued and not granted,
or has left the queue and is granted. -/
lemma Inv.waiting_or_granted (hs : s.Inv) (hd : EntryRequest d) (hl : isLock d = true)
    (hg : s.flockEntryIsGranted d = false) (hc : s.flockEntryCheckConflicts d = true)
    (hr : r = (ops.wakeup (ops.enqueue (s.flockEntryUnlock d).1 d) (s.flockEntryUnlock d).2).1) :
    (d.lockAckID ∈ r.queues.waitersLockIDs ∧ r.flockEntryIsGranted d = false) ∨
      (d.lockAckID ∉ r.queues.waitersLockIDs ∧ r.flockEntryIsGranted d = true) := by
  have hmode := hd.validFlags hl
  rw [← not_eq_true, flockEntryIsGranted_iff hd.isSet hmode] at hg
  rw [← not_eq_true, flockEntryIsGranted_iff hd.isSet hmode, hr]
  rcases flockEntryUnlock_cases s hd.isSet with ⟨hex, heq⟩ | ⟨hex, hsh, heq⟩ | ⟨-, -, heq⟩
  · -- a downgrade: the mode is shared, and a waiting writer is the conflict
    rw [heq]
    have hm : isExclusive d = false := by
      by_contra hm
      rw [not_eq_false] at hm
      exact hg (by rwa [if_pos hm])
    have hne : s.queues.waitersExclLock ≠ [] := by
      rcases flockEntryCheckConflicts_iff.mp hc with ⟨-, hne⟩ | ⟨hm', -⟩ | ⟨-, hne⟩
      · exact absurd hex.2 hne
      · nomatch hm.symm.trans hm'
      · exact hne
    obtain ⟨hmem, hholds⟩ :=
      hs.waiting_after_downgrade hid (by rw [hmode, hm, Bool.not_false]) hne rfl
    rw [hm] at hg ⊢
    exact .inl ⟨hmem, fun h => hg (hholds h)⟩
  · -- an upgrade: the mode is exclusive
    rw [heq]
    have hm : isExclusive d = true := by
      by_contra hm
      exact hg (by rwa [if_neg hm])
    rw [if_pos hm]
    exact hs.waiting_or_granted_upgrade hid hd (by rw [hmode, hm, Bool.not_true]) hsh hex rfl
  · -- nothing was released, and the waiters are not tried
    rw [heq]
    refine .inl ⟨?_, hg⟩
    change d.lockAckID ∈ (s.queues.push d).waitersLockIDs
    rw [waitersLockIDs_push]
    exact mem_insert_self _ _

/-- The second processing of a request.  One that was granted at once is still granted after the
waiters were tried. -/
lemma Inv.flockEntryUnlocked_twice (hs : s.Inv) (hd : EntryRequest d) (hl : isLock d = true) :
    (s.flockEntryUnlocked d).1.flockEntryUnlocked d =
      ((s.flockEntryUnlocked d).1, (s.flockEntryUnlocked d).1.flockEntryIsGranted d, []) := by
  refine LockOps.request_request hl hid (fun _ r hr => ?_) fun hg hc _ =>
    hs.waiting_or_granted hid hd hl hg hc
  change d.lockAckID ∉ r.queues.waitersLockIDs ∧ r.flockEntryIsGranted d = true
  have hqueues : (ops.grant (s.flockEntryUnlock d).1 d).queues = s.queues :=
    queues_grant.trans (flockEntryUnlock_queues s d)
  have hholds : (ops.grant (s.flockEntryUnlock d).1 d).Holds d := holds_grant hd hl
  rw [← hqueues] at hid
  rw [flockEntryIsGranted_iff hd.isSet (hd.validFlags hl), hr]
  refine LockOps.wakeup_of (P := fun r => d.lockAckID ∉ (queues r).waitersLockIDs ∧ Holds r d)
    ⟨hid, hholds⟩ ?_ _
  exact ⟨mt waitersLockIDs_flockEntryTryNextWaiters hid, holds_flockEntryTryNextWaiters hholds⟩

end Beegfs.EntryLockQueuesContainer
