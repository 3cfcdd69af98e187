import Beegfs.Locking.LockDetails

/-!
# The lock request protocol

`FileInode::flockEntryUnlocked` and `FileInode::flockRangeUnlocked` are the same procedure over
different sets of granted locks: a cancel or unlock removes locks; a lock request is first checked
against the queued requests (it may be a retransmission) and against the granted locks, is then
granted, queued or refused, and whenever a lock or a queued request was removed the waiters are
tried.  The clean-up after a lost client (`...CancelByClientID`) and the one before an inode is
given up (`...CancelAllWaiters`) follow the same scheme.

The procedure is written once, over the operations `LockOps` that differ between the lock kinds.
The part before the waiters are tried is `LockOps.process`; `Processed` lists all it can do.
-/

namespace Beegfs

open LockDetails Bool List

variable {σ δ : Type} [LockDetails δ]

/-! ## Queues of waiting requests -/

/-- The requests that wait for a lock, in the order of their arrival, and the set of their IDs. -/
structure WaiterQueues (δ : Type) where
  waitersExclLock : List δ
  waitersSharedLock : List δ
  /-- Currently queued lock IDs, for the duplicate check. -/
  waitersLockIDs : Finset String
  deriving DecidableEq

namespace WaiterQueues

/-- No request waits. -/
def empty : WaiterQueues δ := ⟨[], [], ∅⟩

variable (q : WaiterQueues δ)

/-- All waiting requests. -/
def waiters : List δ := q.waitersExclLock ++ q.waitersSharedLock

/-- `push_back` to the queue for the mode of the request, with its ID. -/
def push (d : δ) : WaiterQueues δ :=
  if isShared d then
    { q with
      waitersSharedLock := q.waitersSharedLock ++ [d]
      waitersLockIDs := insert (lockAckID d) q.waitersLockIDs }
  else
    { q with
      waitersExclLock := q.waitersExclLock ++ [d]
      waitersLockIDs := insert (lockAckID d) q.waitersLockIDs }

/-- Removes the IDs of the requests `ws` from the set of queued IDs. -/
def eraseIDs (ids : Finset String) (ws : List δ) : Finset String :=
  ws.foldl (fun ids w => ids.erase (lockAckID w)) ids

/-- The loops that remove the waiting requests satisfying `p`, with their IDs. -/
def removeIf (p : δ → Bool) : WaiterQueues δ where
  waitersExclLock := q.waitersExclLock.filter fun w => !p w
  waitersSharedLock := q.waitersSharedLock.filter fun w => !p w
  waitersLockIDs := eraseIDs (eraseIDs q.waitersLockIDs (q.waitersExclLock.filter p))
    (q.waitersSharedLock.filter p)

/-- The ID set is in step with the queues, and no ID is queued twice. -/
structure Consistent : Prop where
  ids_eq : q.waitersLockIDs = (q.waiters.map lockAckID).toFinset
  nodup : (q.waiters.map lockAckID).Nodup

lemma consistent_empty : (empty : WaiterQueues δ).Consistent := ⟨rfl, nodup_nil⟩

lemma mem_eraseIDs {ids : Finset String} {ws : List δ} {a : String} :
    a ∈ eraseIDs ids ws ↔ a ∈ ids ∧ ∀ w ∈ ws, lockAckID w ≠ a := by
  induction ws generalizing ids with
  | nil => simp [eraseIDs]
  | cons w ws ih =>
    have hcons : eraseIDs ids (w :: ws) = eraseIDs (ids.erase (lockAckID w)) ws := rfl
    rw [hcons, ih, Finset.mem_erase, forall_mem_cons]
    constructor
    · rintro ⟨⟨hne, ha⟩, hws⟩
      exact ⟨ha, fun h => hne h.symm, hws⟩
    · rintro ⟨ha, hne, hws⟩
      exact ⟨⟨fun h => hne h.symm, ha⟩, hws⟩

variable {q : WaiterQueues δ} {w : δ}

section

omit [LockDetails δ]

lemma mem_waiters : w ∈ q.waiters ↔ w ∈ q.waitersExclLock ∨ w ∈ q.waitersSharedLock := by
  simp [waiters]

/-- What waits in `r` waits in `q`, for the same mode. -/
structure Within (r q : WaiterQueues δ) : Prop where
  excl : ∀ w ∈ r.waitersExclLock, w ∈ q.waitersExclLock
  shared : ∀ w ∈ r.waitersSharedLock, w ∈ q.waitersSharedLock

variable {r : WaiterQueues δ}

lemma within_of_eq (h : r = q) : r.Within q := ⟨fun _ hw => h ▸ hw, fun _ hw => h ▸ hw⟩

lemma Within.waiters (h : r.Within q) (hw : w ∈ r.waiters) : w ∈ q.waiters :=
  mem_waiters.mpr ((mem_waiters.mp hw).imp (h.excl w) (h.shared w))

end

lemma removeIf_within (p : δ → Bool) : (q.removeIf p).Within q :=
  ⟨fun _ => mem_of_mem_filter, fun _ => mem_of_mem_filter⟩

variable {d : δ}

lemma mem_waiters_push : w ∈ (q.push d).waiters ↔ w = d ∨ w ∈ q.waiters := by
  unfold push
  split <;> simp only [waiters, mem_append, mem_singleton] <;> tauto

lemma mem_waitersExclLock_push :
    w ∈ (q.push d).waitersExclLock ↔ w ∈ q.waitersExclLock ∨ (isShared d = false ∧ w = d) := by
  unfold push
  split_ifs with hd <;> simp [hd]

lemma mem_waitersSharedLock_push :
    w ∈ (q.push d).waitersSharedLock ↔ w ∈ q.waitersSharedLock ∨ (isShared d = true ∧ w = d) := by
  unfold push
  split_ifs with hd <;> simp [hd]

lemma waitersLockIDs_push : (q.push d).waitersLockIDs = insert (lockAckID d) q.waitersLockIDs := by
  unfold push
  split <;> rfl

/-- Queues of which no request satisfies `p` are left alone. -/
lemma removeIf_of_forall {p : δ → Bool} (hex : ∀ w ∈ q.waitersExclLock, ¬p w = true)
    (hsh : ∀ w ∈ q.waitersSharedLock, ¬p w = true) : q.removeIf p = q := by
  have hnil : ∀ l : List δ, (∀ w ∈ l, ¬p w = true) → l.filter p = [] := fun l hl =>
    filter_eq_nil_iff.mpr hl
  have hself : ∀ l : List δ, (∀ w ∈ l, ¬p w = true) → l.filter (fun w => !p w) = l := fun l hl =>
    filter_eq_self.mpr fun w hw => by simp [hl w hw]
  obtain ⟨ex, sh, _⟩ := q
  simp only [removeIf, hnil ex hex, hnil sh hsh, hself ex hex, hself sh hsh, eraseIDs, foldl_nil]

/-- A queued ID belongs to a waiting request. -/
lemma Consistent.mem_ids_iff (hq : q.Consistent) {a : String} :
    a ∈ q.waitersLockIDs ↔ ∃ w ∈ q.waiters, lockAckID w = a := by
  rw [hq.ids_eq, mem_toFinset, mem_map]

/-- A request with a new ID is queued consistently. -/
lemma Consistent.push (hq : q.Consistent)
    (hd : lockAckID d ∉ q.waitersLockIDs) : (q.push d).Consistent := by
  have hnew : lockAckID d ∉ q.waiters.map lockAckID := by
    rwa [hq.ids_eq, mem_toFinset] at hd
  have hperm : ((q.push d).waiters.map lockAckID).Perm
    (lockAckID d :: q.waiters.map lockAckID) := by
    rw [← map_cons]
    refine List.Perm.map _ ?_
    unfold WaiterQueues.push
    split
    · simp only [waiters, ← append_assoc]
      exact perm_append_singleton d _
    · simp only [waiters, append_assoc, singleton_append]
      exact perm_middle
  refine ⟨?_, ?_⟩
  · rw [waitersLockIDs_push, hq.ids_eq, toFinset_eq_of_perm _ _ hperm, toFinset_cons]
  · exact hperm.nodup_iff.mpr (nodup_cons.mpr ⟨hnew, hq.nodup⟩)

/-- The rule by which removals keep the queues consistent: the requests `ws` leave the queues and
their IDs leave the ID set. -/
lemma Consistent.of_perm {r : WaiterQueues δ} (hq : q.Consistent) (ws : List δ)
    (hperm : (ws ++ r.waiters).Perm q.waiters)
    (hids : r.waitersLockIDs = eraseIDs q.waitersLockIDs ws) : r.Consistent := by
  have hnodup : ((ws ++ r.waiters).map lockAckID).Nodup := (hperm.map _).nodup_iff.mpr hq.nodup
  rw [map_append, nodup_append'] at hnodup
  obtain ⟨-, hr, hdisj⟩ := hnodup
  refine ⟨?_, hr⟩
  ext a
  rw [hids, mem_eraseIDs, hq.mem_ids_iff, mem_toFinset, mem_map]
  constructor
  · rintro ⟨⟨w, hw, rfl⟩, hne⟩
    rcases mem_append.mp (hperm.mem_iff.mpr hw) with hws | hwr
    · exact absurd rfl (hne w hws)
    · exact ⟨w, hwr, rfl⟩
  · rintro ⟨w, hw, rfl⟩
    refine ⟨⟨w, hperm.subset (mem_append_right ws hw), rfl⟩, fun v hv heq => ?_⟩
    exact hdisj (mem_map_of_mem hv) (heq ▸ mem_map_of_mem hw)

/-- The removal loops keep the queues consistent. -/
lemma Consistent.removeIf (hq : q.Consistent) (p : δ → Bool) : (q.removeIf p).Consistent := by
  refine hq.of_perm (q.waitersExclLock.filter p ++ q.waitersSharedLock.filter p) ?_
    foldl_append.symm
  simp only [WaiterQueues.removeIf, waiters, ← filter_append]
  exact filter_append_perm p _

end WaiterQueues

/-! ## The protocol -/

/-- The operations in which the lock kinds differ. -/
structure LockOps (σ δ : Type) where
  /-- The queues of waiting requests. -/
  queues : σ → WaiterQueues δ
  setQueues : σ → WaiterQueues δ → σ
  /-- Removes the granted locks and the waiting requests that satisfy a condition on the owner, and
  tells whether there were any. -/
  cancelIf : σ → (δ → Bool) → σ × Bool
  /-- Releases what the owner of the request holds, and tells whether there was anything. -/
  unlock : σ → δ → σ × Bool
  isGranted : σ → δ → Bool
  checkConflicts : σ → δ → Bool
  grantShared : σ → δ → σ
  grantExclusive : σ → δ → σ
  /-- Grants waiting requests; the result lists the clients to be notified. -/
  tryNextWaiters : σ → σ × List δ

/-- What a request leads to before the waiters are tried. -/
structure Outcome (σ : Type) where
  state : σ
  /-- A lock or a waiting request was removed, so waiters may be grantable. -/
  tryNextWaiters : Bool
  /-- The return value. -/
  immediatelyGranted : Bool

/-- The calls that change the locks of an inode. -/
inductive LockOp (δ : Type)
  | request (d : δ)
  | cancelByClientID (clientNumID : ℕ)
  | cancelAllWaiters

/-- The condition `V` on requests, as a condition on calls. -/
def LockOp.Valid (V : δ → Prop) : LockOp δ → Prop
  | .request d => V d
  | _ => True

instance (V : δ → Prop) [DecidablePred V] : DecidablePred (LockOp.Valid V)
  | .request d => inferInstanceAs (Decidable (V d))
  | .cancelByClientID _ => isTrue trivial
  | .cancelAllWaiters => isTrue trivial

namespace LockOps

variable (ops : LockOps σ δ) (s : σ)

/-- Grant in the mode of the request. -/
def grant (d : δ) : σ := if isShared d then ops.grantShared s d else ops.grantExclusive s d

/-- The request is appended to the queue for its mode. -/
def enqueue (d : δ) : σ := ops.setQueues s ((ops.queues s).push d)

/-- The handling of a request up to the point where the waiters are tried. -/
def process (d : δ) : Outcome σ :=
  if isCancel d then
    let res := ops.cancelIf s (equalsHandle d)
    ⟨res.1, res.2, true⟩
  else if isUnlock d then
    let res := ops.unlock s d
    ⟨res.1, res.2, true⟩
  -- a re-request of a waiter that is still in the queue keeps on waiting
  else if lockAckID d ∈ (ops.queues s).waitersLockIDs then ⟨s, false, false⟩
  else if ops.isGranted s d then ⟨s, false, true⟩
  else
    let hasConflicts := ops.checkConflicts s d
    -- unlock for up- and downgrades
    let res := if !hasConflicts || allowsWaiting d then ops.unlock s d else (s, false)
    if !hasConflicts then ⟨ops.grant res.1 d, res.2, true⟩
    else if allowsWaiting d then ⟨ops.enqueue res.1 d, res.2, false⟩
    else ⟨res.1, res.2, false⟩

/-- Tries the waiters if something was removed. -/
def wakeup (tryNext : Bool) : σ × List δ := if tryNext then ops.tryNextWaiters s else (s, [])

/-- A lock, unlock or cancel request: the new state, whether the request was granted at once, and
the requests granted to waiters. -/
def request (d : δ) : σ × Bool × List δ :=
  let out := ops.process s d
  let woken := ops.wakeup out.state out.tryNextWaiters
  (woken.1, out.immediatelyGranted, woken.2)

/-- Unlocks all locks and waiting requests of a client. -/
def cancelByClientID (client : ℕ) : σ × List δ :=
  let res := ops.cancelIf s fun w => clientNumID w == client
  ops.wakeup res.1 res.2

/-- Removes all waiters from the queues. -/
def cancelAllWaiters : σ := ops.setQueues s WaiterQueues.empty

/-- One call. -/
def step : LockOp δ → σ
  | .request d => (ops.request s d).1
  | .cancelByClientID c => (ops.cancelByClientID s c).1
  | .cancelAllWaiters => ops.cancelAllWaiters s

/-- The state in which the waiters are tried, if they are, and else the state after the call. -/
def beforeWakeup : LockOp δ → σ × Bool
  | .request d => ((ops.process s d).state, (ops.process s d).tryNextWaiters)
  | .cancelByClientID c => ops.cancelIf s fun w => clientNumID w == c
  | .cancelAllWaiters => (ops.cancelAllWaiters s, false)

/-- Every call is its own effect followed by trying the waiters. -/
lemma step_eq_wakeup (op : LockOp δ) :
    ops.step s op = (ops.wakeup (ops.beforeWakeup s op).1 (ops.beforeWakeup s op).2).1 := by
  cases op <;> rfl

/-- All that a request can do before the waiters are tried. -/
inductive Processed (s : σ) (d : δ) : Outcome σ → Prop
  | cancel (h : isCancel d = true) :
    Processed s d ⟨(ops.cancelIf s (equalsHandle d)).1, (ops.cancelIf s (equalsHandle d)).2, true⟩
  | unlock (hc : isCancel d = false) (h : isUnlock d = true) :
    Processed s d ⟨(ops.unlock s d).1, (ops.unlock s d).2, true⟩
  | waiting (hl : isLock d = true) (h : lockAckID d ∈ (ops.queues s).waitersLockIDs) :
    Processed s d ⟨s, false, false⟩
  | granted (hl : isLock d = true) (hw : lockAckID d ∉ (ops.queues s).waitersLockIDs)
      (h : ops.isGranted s d = true) :
    Processed s d ⟨s, false, true⟩
  | immediate (hl : isLock d = true) (hw : lockAckID d ∉ (ops.queues s).waitersLockIDs)
      (hg : ops.isGranted s d = false) (h : ops.checkConflicts s d = false) :
    Processed s d ⟨ops.grant (ops.unlock s d).1 d, (ops.unlock s d).2, true⟩
  | enqueued (hl : isLock d = true) (hw : lockAckID d ∉ (ops.queues s).waitersLockIDs)
      (hg : ops.isGranted s d = false) (h : ops.checkConflicts s d = true)
      (ha : allowsWaiting d = true) :
    Processed s d ⟨ops.enqueue (ops.unlock s d).1 d, (ops.unlock s d).2, false⟩
  | refused (hl : isLock d = true) (hw : lockAckID d ∉ (ops.queues s).waitersLockIDs)
      (hg : ops.isGranted s d = false) (h : ops.checkConflicts s d = true)
      (ha : allowsWaiting d = false) :
    Processed s d ⟨s, false, false⟩

lemma processed_process (s : σ) (d : δ) : ops.Processed s d (ops.process s d) := by
  unfold process
  by_cases hc : isCancel d = true
  · rw [if_pos hc]
    exact .cancel hc
  rw [if_neg hc]
  rw [not_eq_true] at hc
  by_cases hu : isUnlock d = true
  · rw [if_pos hu]
    exact .unlock hc hu
  rw [if_neg hu]
  have hl : isLock d = true := by simp [isLock, hc, hu]
  by_cases hw : lockAckID d ∈ (ops.queues s).waitersLockIDs
  · rw [if_pos hw]
    exact .waiting hl hw
  rw [if_neg hw]
  by_cases hg : ops.isGranted s d = true
  · rw [if_pos hg]
    exact .granted hl hw hg
  rw [if_neg hg]
  rw [not_eq_true] at hg
  cases h : ops.checkConflicts s d with
  | false => exact .immediate hl hw hg h
  | true =>
    cases ha : allowsWaiting d with
    | true => exact .enqueued hl hw hg h ha
    | false => exact .refused hl hw hg h ha

/-! ## Invariants of the protocol -/

variable {ops} {I : σ → Prop} {V : δ → Prop}

/-- The rule for the part of a call before the waiters are tried. -/
lemma beforeWakeup_cases {P : σ × Bool → Prop} {s : σ} (hsame : P (s, false))
    (hcanc : ∀ p, P (ops.cancelIf s p))
    (hunl : ∀ d, V d → isCancel d = false → P (ops.unlock s d))
    (hgrant : ∀ d, V d → isLock d = true → ops.checkConflicts s d = false →
      P (ops.grant (ops.unlock s d).1 d, (ops.unlock s d).2))
    (henq : ∀ d, V d → isLock d = true → lockAckID d ∉ (ops.queues s).waitersLockIDs →
      ops.checkConflicts s d = true → P (ops.enqueue (ops.unlock s d).1 d, (ops.unlock s d).2))
    (hall : P (ops.cancelAllWaiters s, false)) {op : LockOp δ} (hop : op.Valid V) :
    P (ops.beforeWakeup s op) := by
  cases op with
  | cancelByClientID c => exact hcanc _
  | cancelAllWaiters => exact hall
  | request d =>
    have hp := ops.processed_process s d
    change P ((ops.process s d).state, (ops.process s d).tryNextWaiters)
    generalize ops.process s d = out at hp ⊢
    cases hp with
    | cancel h => exact hcanc _
    | unlock hc h => exact hunl d hop hc
    | waiting hl h => exact hsame
    | granted hl hw h => exact hsame
    | immediate hl hw hg h => exact hgrant d hop hl h
    | enqueued hl hw hg h ha => exact henq d hop hl hw h
    | refused hl hw hg h ha => exact hsame

/-- The rule for a property `N` that a removal may destroy: it is kept by a call that reports no
removal. -/
lemma beforeWakeup_of_false {N : σ → Prop} {s : σ}
    (hcanc : ∀ p, (ops.cancelIf s p).2 = false → (ops.cancelIf s p).1 = s)
    (hunl : ∀ d, V d → isCancel d = false → (ops.unlock s d).2 = false → (ops.unlock s d).1 = s)
    (hgrant : ∀ d, V d → isLock d = true → ops.checkConflicts s d = false → N (ops.grant s d))
    (henq : ∀ d, V d → isLock d = true → ops.checkConflicts s d = true → N (ops.enqueue s d))
    (hall : N (ops.cancelAllWaiters s)) {op : LockOp δ} (hop : op.Valid V) (hN : N s) :
    (ops.beforeWakeup s op).2 = false → N (ops.beforeWakeup s op).1 := by
  have hlock : ∀ d : δ, isLock d = true → isCancel d = false := by
    intro d hl
    rw [isLock, and_eq_true, not_eq_true'] at hl
    exact hl.1
  refine beforeWakeup_cases (P := fun r => r.2 = false → N r.1) (fun _ => hN) (fun p hno => ?_)
    (fun d hd hc hno => ?_) (fun d hd hl hc hno => ?_) (fun d hd hl _ hc hno => ?_)
    (fun _ => hall) hop
  · rw [hcanc p hno]
    exact hN
  · rw [hunl d hd hc hno]
    exact hN
  · rw [hunl d hd (hlock d hl) hno]
    exact hgrant d hd hl hc
  · rw [hunl d hd (hlock d hl) hno]
    exact henq d hd hl hc

omit [LockDetails δ] in
/-- What holds and is kept by trying the waiters. -/
lemma wakeup_of {P : σ → Prop} {s : σ} (h : P s) (htry : P (ops.tryNextWaiters s).1)
    (tryNext : Bool) : P (ops.wakeup s tryNext).1 := by
  cases tryNext with
  | false => exact h
  | true => exact htry

/-- What holds before the waiters are tried and is kept by trying them holds after the call. -/
lemma step_of_beforeWakeup {J : σ → Prop} (htry : ∀ s, I s → J (ops.tryNextWaiters s).1)
    (s : σ) (op : LockOp δ) (hI : I (ops.beforeWakeup s op).1)
    (hJ : (ops.beforeWakeup s op).2 = false → J (ops.beforeWakeup s op).1) : J (ops.step s op) := by
  rw [step_eq_wakeup]
  cases h : (ops.beforeWakeup s op).2 with
  | false => exact hJ h
  | true => exact htry _ hI

/-! ## Repeated requests -/

variable {s : σ} {d : δ} (hl : isLock d = true)

include hl

lemma process_of_isLock :
    ops.process s d = if lockAckID d ∈ (ops.queues s).waitersLockIDs then ⟨s, false, false⟩
      else if ops.isGranted s d then ⟨s, false, true⟩
      else if ops.checkConflicts s d = false then
        ⟨ops.grant (ops.unlock s d).1 d, (ops.unlock s d).2, true⟩
      else if allowsWaiting d then ⟨ops.enqueue (ops.unlock s d).1 d, (ops.unlock s d).2, false⟩
      else ⟨s, false, false⟩ := by
  rw [isLock, and_eq_true, not_eq_true', not_eq_true'] at hl
  rw [process, hl.1, hl.2, if_neg Bool.false_ne_true]
  cases ops.checkConflicts s d <;> cases allowsWaiting d <;> rfl

/-- A request that is still queued keeps on waiting. -/
lemma request_of_waiting
    (hw : lockAckID d ∈ (ops.queues s).waitersLockIDs) : ops.request s d = (s, false, []) := by
  unfold request
  rw [process_of_isLock hl, if_pos hw]
  rfl

/-- A request that was granted is acknowledged again. -/
lemma request_of_granted
    (hw : lockAckID d ∉ (ops.queues s).waitersLockIDs) (hg : ops.isGranted s d = true) :
    ops.request s d = (s, true, []) := by
  unfold request
  rw [process_of_isLock hl, if_neg hw, if_pos hg]
  rfl

/-- Processing a lock request right after it was processed: the second time changes nothing, wakes
nobody and tells whether the lock is granted.  To be shown is that a request granted at once stays
granted, and that a queued one is either still queued or granted after the waiters were tried. -/
lemma request_request (hid : lockAckID d ∉ (ops.queues s).waitersLockIDs)
    (himmediate : ops.checkConflicts s d = false → ∀ r,
      r = (ops.wakeup (ops.grant (ops.unlock s d).1 d) (ops.unlock s d).2).1 →
      lockAckID d ∉ (ops.queues r).waitersLockIDs ∧ ops.isGranted r d = true)
    (henqueued : ops.isGranted s d = false → ops.checkConflicts s d = true → ∀ r,
      r = (ops.wakeup (ops.enqueue (ops.unlock s d).1 d) (ops.unlock s d).2).1 →
      (lockAckID d ∈ (ops.queues r).waitersLockIDs ∧ ops.isGranted r d = false) ∨
        (lockAckID d ∉ (ops.queues r).waitersLockIDs ∧ ops.isGranted r d = true)) :
    ops.request (ops.request s d).1 d =
      ((ops.request s d).1, ops.isGranted (ops.request s d).1 d, []) := by
  by_cases hg : ops.isGranted s d = true
  · rw [request_of_granted hl hid hg, hg, request_of_granted hl hid hg]
  rw [not_eq_true] at hg
  have hproc : ops.process s d = _ := process_of_isLock hl
  rw [if_neg hid, if_neg (eq_false_iff.mp hg)] at hproc
  cases hc : ops.checkConflicts s d with
  | false =>
    rw [if_pos hc] at hproc
    obtain ⟨hid', hg'⟩ := himmediate hc (ops.request s d).1 (by rw [request, hproc])
    rw [request_of_granted hl hid' hg', hg']
  | true =>
    rw [hc, if_neg (fun h => nomatch h.symm)] at hproc
    cases ha : allowsWaiting d with
    | true =>
      rw [if_pos ha] at hproc
      rcases henqueued hg hc (ops.request s d).1 (by rw [request, hproc]) with
        ⟨hid', hg'⟩ | ⟨hid', hg'⟩
      · rw [request_of_waiting hl hid', hg']
      · rw [request_of_granted hl hid' hg', hg']
    | false =>
      -- refused both times
      have hrefu : ops.request s d = (s, false, []) := by
        rw [request, hproc, ha]
        rfl
      rw [hrefu, hrefu, hg]

end LockOps

end Beegfs
