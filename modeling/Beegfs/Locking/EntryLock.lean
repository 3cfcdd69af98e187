import Beegfs.Locking.LockProtocol

/-!
# Entry locks

`FileInode::flockEntry...`: the locks of `flock` and of append mode, which cover a whole file.  At
most one handle holds the exclusive lock; any number of handles hold a shared one.  Writers are
preferred: no new reader is let in while an exclusive request waits.

Append locks and `flock` locks use the same functions on different containers, so the model is about
one container, `EntryLockQueuesContainer`.
-/

namespace Beegfs

open LockDetails EntryLockDetails

/-- The granted entry locks of an inode and the requests waiting for one. -/
structure EntryLockQueuesContainer where
  /-- The current exclusive lock, not set if there is none. -/
  exclLock : EntryLockDetails
  sharedLocks : OrdSet mapComparator
  queues : WaiterQueues EntryLockDetails
deriving DecidableEq

namespace EntryLockQueuesContainer

open OrdSet

/-- An inode without entry locks. -/
def empty : EntryLockQueuesContainer := ⟨.unset, OrdSet.empty, WaiterQueues.empty⟩

variable (s : EntryLockQueuesContainer)

/-- The body shared by `flockEntryGenericCancelByClientID` and `flockEntryCancelByHandle`, which
differ in the condition on the owner of a lock.  It returns `tryNextWaiters`. -/
def flockEntryCancelIf (p : EntryLockDetails → Bool) : EntryLockQueuesContainer × Bool :=
  let clearExcl := isSet s.exclLock && p s.exclLock
  ({ exclLock := if clearExcl then .unset else s.exclLock
     sharedLocks := s.sharedLocks.eraseIf p
     queues := s.queues.removeIf p },
    clearExcl || s.sharedLocks.elems.any p || s.queues.waitersExclLock.any p
      || s.queues.waitersSharedLock.any p)

variable (d : EntryLockDetails)

/-- Own locks are no conflict.  Waiting writers are a conflict for a new reader. -/
def flockEntryCheckConflicts : Bool :=
  if isSet s.exclLock && !s.exclLock.equalsHandle d then true
  else if isExclusive d then s.sharedLocks.elems.any fun l => !l.equalsHandle d
  else !s.queues.waitersExclLock.isEmpty

/-- Whether the owner holds a lock in the mode of the request. -/
def flockEntryIsGranted : Bool :=
  if isExclusive d then s.exclLock.equalsHandle d
  else if isShared d then s.sharedLocks.contains d
  else false

/-- Releases the lock of the owner. -/
def flockEntryUnlock : EntryLockQueuesContainer × Bool :=
  if s.exclLock.equalsHandle d then ({ s with exclLock := .unset }, true)
  else if s.sharedLocks.contains d then ({ s with sharedLocks := s.sharedLocks.erase d }, true)
  else (s, false)

def flockEntryShared : EntryLockQueuesContainer := { s with sharedLocks := s.sharedLocks.insert d }

def flockEntryExclusive : EntryLockQueuesContainer := { s with exclLock := d }

/-- The loop that grants all queued shared requests, here `ws`. -/
def grantSharedWaiters (s : EntryLockQueuesContainer) :
    List EntryLockDetails → EntryLockQueuesContainer
  | [] => s
  | w :: ws =>
    let granted := flockEntryShared s w
    grantSharedWaiters
      { granted with queues :=
        { granted.queues with
          waitersLockIDs := granted.queues.waitersLockIDs.erase w.lockAckID
          waitersSharedLock := ws } } ws

/-- Grants all waiting readers if no writer waits, and else the first waiting writer. -/
def flockEntryTryNextWaiters : EntryLockQueuesContainer × List EntryLockDetails :=
  if isSet s.exclLock then (s, [])
  else match s.queues.waitersExclLock, s.queues.waitersSharedLock with
  | [], ws => (grantSharedWaiters s ws, ws)
  | w :: ws, _ =>
    let granted := flockEntryExclusive s w
    ({ granted with queues :=
        { granted.queues with
          waitersLockIDs := granted.queues.waitersLockIDs.erase w.lockAckID
          waitersExclLock := ws } }, [w])

/-- The operations of the entry locks, for the common request handling. -/
def ops : LockOps EntryLockQueuesContainer EntryLockDetails where
  queues := queues
  setQueues s q := { s with queues := q }
  cancelIf := flockEntryCancelIf
  unlock := flockEntryUnlock
  isGranted := flockEntryIsGranted
  checkConflicts := flockEntryCheckConflicts
  grantShared := flockEntryShared
  grantExclusive := flockEntryExclusive
  tryNextWaiters := flockEntryTryNextWaiters

/-- A lock, unlock or cancel request: the new state, whether it succeeded immediately, and the
waiters to be notified. -/
def flockEntryUnlocked : EntryLockQueuesContainer × Bool × List EntryLockDetails := ops.request s d

/-- Unlocks all locks and wait entries of a client. -/
def flockEntryGenericCancelByClientID (client : ℕ) :
    EntryLockQueuesContainer × List EntryLockDetails :=
  ops.cancelByClientID s client

/-- Removes all waiters from the queues. -/
def flockEntryGenericCancelAllWaiters : EntryLockQueuesContainer := ops.cancelAllWaiters s

/-- One call. -/
def step : LockOp EntryLockDetails → EntryLockQueuesContainer
  | .request d => (flockEntryUnlocked s d).1
  | .cancelByClientID client => (flockEntryGenericCancelByClientID s client).1
  | .cancelAllWaiters => flockEntryGenericCancelAllWaiters s

/-- A handle holds the exclusive lock. -/
def HoldsExclusive (h : EntryHandle) : Prop :=
  isSet s.exclLock = true ∧ s.exclLock.handle = h
  deriving Decidable

/-- A handle holds a shared lock. -/
def HoldsShared (h : EntryHandle) : Prop :=
  ∃ l ∈ s.sharedLocks, l.handle = h
  deriving Decidable

lemma step_eq (op : LockOp EntryLockDetails) : s.step op = ops.step s op := by
  cases op <;> rfl

/-! ## What each operation does to the granted locks -/

variable {s : EntryLockQueuesContainer} {d : EntryLockDetails} {h : EntryHandle}

/-- A description of a request is never taken for the unset exclusive lock. -/
lemma exclLock_handle_eq_iff (hd : isSet d = true) :
    s.exclLock.handle = d.handle ↔ s.HoldsExclusive d.handle := by
  refine ⟨fun heq => ⟨?_, heq⟩, And.right⟩
  have hid : s.exclLock.clientNumID = d.clientNumID := congrArg EntryHandle.clientNumID heq
  simp only [isSet, LockDetails.clientNumID] at hd ⊢
  rw [hid]
  exact hd

lemma contains_sharedLocks_iff : s.sharedLocks.contains d = true ↔ s.HoldsShared d.handle := by
  rw [contains_iff]
  refine exists_congr fun l => and_congr_right fun _ => ?_
  rw [compEquiv_mapComparator, eq_comm]

/-- What the owner of a request has to have for `flockEntryUnlock` to find it. -/
lemma flockEntryUnlock_cases (s : EntryLockQueuesContainer) (hd : isSet d = true) :
    (s.HoldsExclusive d.handle ∧ s.flockEntryUnlock d = ({ s with exclLock := .unset }, true)) ∨
    (¬ s.HoldsExclusive d.handle ∧ s.HoldsShared d.handle ∧
      s.flockEntryUnlock d = ({ s with sharedLocks := s.sharedLocks.erase d }, true)) ∨
    (¬ s.HoldsExclusive d.handle ∧ ¬ s.HoldsShared d.handle ∧
      s.flockEntryUnlock d = (s, false)) := by
  have hex : s.exclLock.equalsHandle d = true ↔ s.HoldsExclusive d.handle :=
    equalsHandle_iff.trans (exclLock_handle_eq_iff hd)
  unfold flockEntryUnlock
  by_cases he : s.HoldsExclusive d.handle
  · exact .inl ⟨he, if_pos (hex.mpr he)⟩
  rw [if_neg (mt hex.mp he)]
  by_cases hs : s.HoldsShared d.handle
  · exact .inr (.inl ⟨he, hs, if_pos (contains_sharedLocks_iff.mpr hs)⟩)
  · exact .inr (.inr ⟨he, hs, if_neg (mt contains_sharedLocks_iff.mp hs)⟩)

/-- An insert gives the owner a shared lock, also when the owner has one already. -/
lemma holdsShared_flockEntryShared :
    (s.flockEntryShared d).HoldsShared h ↔ s.HoldsShared h ∨ h = d.handle := by
  constructor
  · rintro ⟨l, hl, rfl⟩
    rcases mem_of_mem_insert hl with rfl | hl
    · exact .inr rfl
    · exact .inl ⟨l, hl, rfl⟩
  · rintro (⟨l, hl, rfl⟩ | rfl)
    · exact ⟨l, mem_insert_of_mem hl, rfl⟩
    · cases hc : s.sharedLocks.contains d with
      | false => exact ⟨d, mem_insert_self hc, rfl⟩
      | true =>
        obtain ⟨l, hl, hlh⟩ := contains_sharedLocks_iff.mp hc
        exact ⟨l, mem_insert_of_mem hl, hlh⟩

lemma flockEntryCheckConflicts_iff :
    s.flockEntryCheckConflicts d = true ↔
      (isSet s.exclLock = true ∧ s.exclLock.handle ≠ d.handle) ∨
      (isExclusive d = true ∧ ∃ l ∈ s.sharedLocks, l.handle ≠ d.handle) ∨
      (isExclusive d = false ∧ s.queues.waitersExclLock ≠ []) := by
  unfold flockEntryCheckConflicts
  have hex : (isSet s.exclLock && !s.exclLock.equalsHandle d) = true ↔
      isSet s.exclLock = true ∧ s.exclLock.handle ≠ d.handle := by
    rw [Bool.and_eq_true, Bool.not_eq_true', equalsHandle_eq_false_iff]
  by_cases hc : isSet s.exclLock = true ∧ s.exclLock.handle ≠ d.handle
  · rw [if_pos (hex.mpr hc)]
    exact iff_of_true rfl (.inl hc)
  rw [if_neg (mt hex.mp hc)]
  cases hm : isExclusive d with
  | true => simp [hc, mem_def, equalsHandle_eq_false_iff]
  | false => simp [hc]

/-- `flockEntryIsGranted` is about the mode of the request. -/
lemma flockEntryIsGranted_iff (hd : isSet d = true) (hmode : isShared d = !isExclusive d) :
    s.flockEntryIsGranted d = true ↔
      if isExclusive d then s.HoldsExclusive d.handle else s.HoldsShared d.handle := by
  unfold flockEntryIsGranted
  cases hm : isExclusive d with
  | true =>
    exact equalsHandle_iff.trans (exclLock_handle_eq_iff hd)
  | false =>
    rw [hm] at hmode
    simp only [hmode, Bool.false_eq_true, if_false]
    exact contains_sharedLocks_iff

/-! ## Trying the waiters -/

/-- The loop over the shared queue grants every request in it and touches nothing else. -/
lemma grantSharedWaiters_spec (s : EntryLockQueuesContainer) (ws : List EntryLockDetails)
    (hws : s.queues.waitersSharedLock = ws) :
    (s.grantSharedWaiters ws).exclLock = s.exclLock ∧
    (s.grantSharedWaiters ws).queues = ⟨s.queues.waitersExclLock, [],
      WaiterQueues.eraseIDs s.queues.waitersLockIDs ws⟩ ∧
    ∀ h, (s.grantSharedWaiters ws).HoldsShared h ↔ s.HoldsShared h ∨ ∃ w ∈ ws, w.handle = h := by
  induction ws generalizing s with
  | nil =>
    obtain ⟨_, _, _, _, _⟩ := s
    subst hws
    simp [grantSharedWaiters, WaiterQueues.eraseIDs]
  | cons w ws ih =>
    obtain ⟨hex, hq, hsh⟩ := ih
      { s.flockEntryShared w with queues :=
        { s.queues with
          waitersLockIDs := s.queues.waitersLockIDs.erase w.lockAckID
          waitersSharedLock := ws } } rfl
    refine ⟨hex, hq, fun h => ?_⟩
    refine (hsh h).trans ?_
    have hins : ({ s.flockEntryShared w with queues :=
        { s.queues with
          waitersLockIDs := s.queues.waitersLockIDs.erase w.lockAckID
          waitersSharedLock := ws } } : EntryLockQueuesContainer).HoldsShared h ↔
        s.HoldsShared h ∨ h = w.handle := holdsShared_flockEntryShared
    rw [hins, List.exists_mem_cons_iff, eq_comm (a := h), or_assoc]

/-- All that `flockEntryTryNextWaiters` can do. -/
lemma flockEntryTryNextWaiters_cases (s : EntryLockQueuesContainer) :
    (isSet s.exclLock = true ∧ s.flockEntryTryNextWaiters = (s, [])) ∨
    (isSet s.exclLock = false ∧ s.queues.waitersExclLock = [] ∧
      s.flockEntryTryNextWaiters =
        (s.grantSharedWaiters s.queues.waitersSharedLock, s.queues.waitersSharedLock)) ∨
    (isSet s.exclLock = false ∧ ∃ w ws, s.queues.waitersExclLock = w :: ws ∧
      s.flockEntryTryNextWaiters =
        ({ exclLock := w, sharedLocks := s.sharedLocks,
           queues := ⟨ws, s.queues.waitersSharedLock,
            s.queues.waitersLockIDs.erase w.lockAckID⟩ }, [w])) := by
  unfold flockEntryTryNextWaiters
  cases hset : isSet s.exclLock with
  | true => exact .inl ⟨rfl, rfl⟩
  | false =>
    cases hq : s.queues.waitersExclLock with
    | nil => exact .inr (.inl ⟨rfl, rfl, rfl⟩)
    | cons w ws => exact .inr (.inr ⟨rfl, w, ws, rfl, rfl⟩)

end EntryLockQueuesContainer

end Beegfs
