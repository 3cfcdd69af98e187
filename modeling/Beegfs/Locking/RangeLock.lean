import Beegfs.Lib.Run
import Beegfs.Locking.LockProtocol
import Beegfs.Locking.RangeLockLoops

/-!
# Range locks

`FileInode::flockRange...`: the locks of `fcntl` on byte ranges.  They belong to processes.  A
process never conflicts with itself: a request first releases what the process holds in the range
(for up- and downgrades) and is merged with the neighbouring ranges of the process when it is
granted.  Waiting exclusive requests are preferred, and are respected in the order of their arrival.
-/

namespace Beegfs

open LockDetails RangeLockDetails

/-- The range locks of an inode: the granted ones and the requests waiting for one. -/
structure RangeLocks where
  exclRangeFLocks : RangeLockSet mapComparatorExcl
  sharedRangeFLocks : RangeLockSet mapComparatorShared
  /-- `waitersExclRangeFLock`, `waitersSharedRangeFLock` and `waitersLockIDsRangeFLock`. -/
  queues : WaiterQueues RangeLockDetails
deriving DecidableEq

namespace RangeLocks

/-- An inode without range locks. -/
def empty : RangeLocks := ⟨RangeLockSet.empty, RangeLockSet.empty, WaiterQueues.empty⟩

variable (s : RangeLocks)

/-- The body shared by `flockRangeCancelByClientID` and `flockRangeCancelByHandle`, which differ in
the condition on the owner of a lock.  It returns `tryNextWaiters`. -/
def flockRangeCancelIf (p : RangeLockDetails → Bool) : RangeLocks × Bool :=
  ({ exclRangeFLocks := s.exclRangeFLocks.eraseIf p
     sharedRangeFLocks := s.sharedRangeFLocks.eraseIf p
     queues := s.queues.removeIf p },
    s.exclRangeFLocks.locks.elems.any p || s.sharedRangeFLocks.locks.elems.any p
      || s.queues.waitersExclLock.any p || s.queues.waitersSharedLock.any p)

/-- The loop of `flockRangeCheckConflictsEx` over the waiting writers; the number `-1` stands for
the whole queue. -/
def waiterConflictLoop (d : RangeLockDetails) : List RangeLockDetails → ℤ → Bool
  | [], _ => false
  | w :: ws, maxExclWaitersCheckNum =>
    if maxExclWaitersCheckNum = 0 then false
    else if d.overlaps w && !d.equalsHandle w then true
    else waiterConflictLoop d ws (maxExclWaitersCheckNum - 1)

variable (d : RangeLockDetails)

/-- Own locks and own waiting requests are no conflict.  `maxExclWaitersCheckNum` is the number of
queued writers that are respected. -/
def flockRangeCheckConflictsEx (maxExclWaitersCheckNum : ℤ) : Bool :=
  if RangeLockSet.conflictLoop mapComparatorExcl d
      s.exclRangeFLocks.locks.elems then true
  else if isExclusive d && RangeLockSet.conflictLoop mapComparatorShared d
      s.sharedRangeFLocks.locks.elems then true
  else waiterConflictLoop d s.queues.waitersExclLock maxExclWaitersCheckNum

/-- All queued writers are respected. -/
def flockRangeCheckConflicts : Bool := s.flockRangeCheckConflictsEx d (-1)

/-- The new state, and the request with the ranges merged into it. -/
def flockRangeShared : RangeLocks × RangeLockDetails :=
  let granted := s.sharedRangeFLocks.grant d
  ({ s with sharedRangeFLocks := granted.1 }, granted.2)

/-- The new state, and the request with the ranges merged into it. -/
def flockRangeExclusive : RangeLocks × RangeLockDetails :=
  let granted := s.exclRangeFLocks.grant d
  ({ s with exclRangeFLocks := granted.1 }, granted.2)

/-- Whether the owner holds the range in the mode of the request. -/
def flockRangeIsGranted : Bool :=
  if isExclusive d then
    RangeLockSet.isGrantedLoop mapComparatorExcl d s.exclRangeFLocks.locks.elems
  else if isShared d then
    RangeLockSet.isGrantedLoop mapComparatorShared d
      s.sharedRangeFLocks.locks.elems
  else false

/-- Releases what the owner holds in the range.  The shared locks are not looked at if an exclusive
lock covers the whole range. -/
def flockRangeUnlock : RangeLocks × Bool :=
  let excl := s.exclRangeFLocks.unlockLoop d false s.exclRangeFLocks.locks.elems
  if excl.returned then ({ s with exclRangeFLocks := excl.set }, true)
  else
    let shared := s.sharedRangeFLocks.unlockLoop d excl.lockRemoved s.sharedRangeFLocks.locks.elems
    ({ s with exclRangeFLocks := excl.set, sharedRangeFLocks := shared.set }, shared.lockRemoved)

/-- A queued exclusive request is granted and leaves the queue, of which `before` and `after`
remain.  The second component is the request as the notification names it. -/
def grantExclWaiter (before : List RangeLockDetails) (w : RangeLockDetails)
    (after : List RangeLockDetails) : RangeLocks × RangeLockDetails :=
  let granted := s.flockRangeExclusive w
  ({ granted.1 with queues :=
      { granted.1.queues with
        waitersLockIDs := granted.1.queues.waitersLockIDs.erase w.lockAckID
        waitersExclLock := before ++ after } }, granted.2)

/-- A queued shared request is granted and leaves the queue. -/
def grantSharedWaiter (before : List RangeLockDetails) (w : RangeLockDetails)
    (after : List RangeLockDetails) : RangeLocks × RangeLockDetails :=
  let granted := s.flockRangeShared w
  ({ granted.1 with queues :=
      { granted.1.queues with
        waitersLockIDs := granted.1.queues.waitersLockIDs.erase w.lockAckID
        waitersSharedLock := before ++ after } }, granted.2)

/-- The loop over the waiting exclusive requests; `before` are those that were kept waiting.  Only
these are respected when the next one is checked. -/
def tryExclWaiters (s : RangeLocks) (before : List RangeLockDetails) :
    List RangeLockDetails → RangeLocks × List RangeLockDetails
  | [] => (s, [])
  | w :: ws =>
    if s.flockRangeCheckConflictsEx w before.length then s.tryExclWaiters (before ++ [w]) ws
    else
      let granted := s.grantExclWaiter before w ws
      let rest := granted.1.tryExclWaiters before ws
      (rest.1, granted.2 :: rest.2)

/-- The loop over the waiting shared requests. -/
def trySharedWaiters (s : RangeLocks) (before : List RangeLockDetails) :
    List RangeLockDetails → RangeLocks × List RangeLockDetails
  | [] => (s, [])
  | w :: ws =>
    if s.flockRangeCheckConflicts w then s.trySharedWaiters (before ++ [w]) ws
    else
      let granted := s.grantSharedWaiter before w ws
      let rest := granted.1.trySharedWaiters before ws
      (rest.1, granted.2 :: rest.2)

/-- Grants the waiting requests that have no conflict any more. -/
def flockRangeTryNextWaiters : RangeLocks × List RangeLockDetails :=
  let excl := s.tryExclWaiters [] s.queues.waitersExclLock
  let shared := excl.1.trySharedWaiters [] excl.1.queues.waitersSharedLock
  (shared.1, excl.2 ++ shared.2)

/-- The operations of the range locks, for the common request handling. -/
def ops : LockOps RangeLocks RangeLockDetails where
  queues := queues
  setQueues s q := { s with queues := q }
  cancelIf := flockRangeCancelIf
  unlock := flockRangeUnlock
  isGranted := flockRangeIsGranted
  checkConflicts := flockRangeCheckConflicts
  grantShared s d := (s.flockRangeShared d).1
  grantExclusive s d := (s.flockRangeExclusive d).1
  tryNextWaiters := flockRangeTryNextWaiters

/-- A lock, unlock or cancel request: the new state, whether it succeeded immediately, and the
waiters to be notified. -/
def flockRangeUnlocked : RangeLocks × Bool × List RangeLockDetails := ops.request s d

/-- Unlocks all locks and wait entries of a client. -/
def flockRangeCancelByClientID (client : ℕ) : RangeLocks × List RangeLockDetails :=
  ops.cancelByClientID s client

/-- Removes all waiters from the queues. -/
def flockRangeCancelAllWaiters : RangeLocks := ops.cancelAllWaiters s

/-- One call. -/
def step : LockOp RangeLockDetails → RangeLocks
  | .request d => (flockRangeUnlocked s d).1
  | .cancelByClientID client => (flockRangeCancelByClientID s client).1
  | .cancelAllWaiters => flockRangeCancelAllWaiters s

lemma step_eq (op : LockOp RangeLockDetails) : s.step op = ops.step s op := by
  cases op <;> rfl

/-- The handle holds the byte in the exclusive mode. -/
def HeldExcl (h : RangeHandle) (x : ℕ) : Prop := s.exclRangeFLocks.Held h x
  deriving Decidable

/-- The handle holds the byte in the shared mode. -/
def HeldShared (h : RangeHandle) (x : ℕ) : Prop := s.sharedRangeFLocks.Held h x
  deriving Decidable

end RangeLocks

end Beegfs
