import Beegfs.Lib.Run

/-!
# Registration of operations with a resync job

A mirrored message that is executed while a resync job is running registers with the job, and
collects what it changes in a change set of its thread.  It takes the registration back when the
operation is finished, but only if the change set is still there, and from the job that there is
then.  `ResyncSystem.balanced_of_meetsContract` says what the operations have to do such that every
job is registered with and taken back from the same number of times.
-/

namespace Beegfs

open Bool List

/-- What `executeLocally` of a message does with the change set, apart from filling it.  The flags
say whether the response changes the observable state. -/
inductive MessageAction where
  | buddyResyncNotify (stateChanged : Bool)
  | earlyComplete (changesState : Bool)
deriving DecidableEq

/-- What `executeLocally` does, and whether it returns a response, with the flag of that. -/
structure LocalExecution where
  actions : List MessageAction
  response : Option Bool
deriving DecidableEq

/-- `CloseFileMsgEx::closeFilePrimary` -/
def closeFilePrimary (isBuddyMirrored earlyResponse closeSucceeded : Bool) : LocalExecution :=
  if !isBuddyMirrored && earlyResponse then ⟨[.earlyComplete closeSucceeded], none⟩
  else ⟨[.buddyResyncNotify closeSucceeded], some closeSucceeded⟩

/-- `UnlinkFileMsgEx::executePrimary` -/
def unlinkFilePrimary (isMirrored tuneEarlyUnlinkResponse unlinkSucceeded : Bool) :
    LocalExecution :=
  if tuneEarlyUnlinkResponse && !isMirrored then ⟨[.earlyComplete unlinkSucceeded], none⟩
  else ⟨[], some unlinkSucceeded⟩

/-- `SetAttrMsgEx::executeLocally` for a change of the owner that is sent to the storage servers. -/
def setAttrQuota (quotaEarlyChownResponse setAttrSucceeded : Bool) : LocalExecution :=
  if quotaEarlyChownResponse then ⟨[.earlyComplete setAttrSucceeded], none⟩
  else ⟨[], some setAttrSucceeded⟩

/-- A worker in `processIncoming`: the job that the message knows, whether its thread has a change
set, and on which jobs it called `registerOps` and `unregisterOps`. -/
structure MessageWorker where
  executing : Bool
  resyncJob : Option ℕ
  changeSet : Bool
  registered : List ℕ
  unregistered : List ℕ
deriving DecidableEq

/-- The resyncer of a server with its jobs, the workers that process messages, and those that
returned. -/
structure ResyncSystem where
  job : Option ℕ
  resyncInProgress : Bool
  running : ℕ → Bool
  threadCount : ℕ → ℕ
  workers : List MessageWorker
  returned : List MessageWorker

/-- What happens on a server.  Workers are named by their places among those that process
messages. -/
inductive ResyncEvent where
  | setJob (job : Option ℕ)
  | setResyncInProgress (resyncInProgress : Bool)
  | setRunning (job : ℕ) (running : Bool)
  | arrive (isMirrored isSecond : Bool)
  | answer (worker : ℕ)
  | execute (worker : ℕ)
  | act (worker : ℕ) (action : MessageAction)
  | leave (worker : ℕ) (response : Option Bool)
deriving DecidableEq

namespace ResyncSystem

/-- The counter of a job is an unsigned number of 32 bits. -/
def addThread (count : ℕ) : ℕ := (count + 1) % 2 ^ 32

def removeThread (count : ℕ) : ℕ := (count + 2 ^ 32 - 1) % 2 ^ 32

variable (s : ResyncSystem)

/-- The first part of `processIncoming`, up to the locks. -/
def arrive (isMirrored isSecond : Bool) : MessageWorker where
  executing := false
  resyncJob := if isMirrored && !isSecond && s.resyncInProgress then s.job else none
  changeSet := false
  registered := []
  unregistered := []

variable (w : MessageWorker)

/-- `processIncoming` before `executeLocally` -/
def register : MessageWorker × (ℕ → ℕ) :=
  match w.resyncJob with
  | none => ({ w with executing := true }, s.threadCount)
  | some job =>
    if s.running job then
      ({ w with executing := true, changeSet := true, registered := job :: w.registered },
        Function.update s.threadCount job (addThread (s.threadCount job)))
    else ({ w with executing := true }, s.threadCount)

/-- `finishOperation`.  Whether the change set is committed or abandoned makes no difference here:
it is gone in both cases.  Without a job a null pointer would be followed. -/
def finishOperation : MessageWorker × (ℕ → ℕ) :=
  if w.changeSet then
    match s.job with
    | none => ({ w with changeSet := false, resyncJob := none }, s.threadCount)
    | some job =>
      ({ w with changeSet := false, resyncJob := some job, unregistered := job :: w.unregistered },
        Function.update s.threadCount job (removeThread (s.threadCount job)))
  else (w, s.threadCount)

/-- What an action does.  `buddyResyncNotify` commits or abandons the change set. -/
def act : MessageAction → MessageWorker × (ℕ → ℕ)
  | .buddyResyncNotify _ => ({ w with changeSet := false }, s.threadCount)
  | .earlyComplete _ => s.finishOperation w

/-- `executeLocally` returns.  The change set is abandoned when `processIncoming` is left. -/
def leave (response : Option Bool) : MessageWorker × (ℕ → ℕ) :=
  let (w, threadCount) := if response.isSome then s.finishOperation w else (w, s.threadCount)
  ({ w with changeSet := false }, threadCount)

/-- The worker at a place goes on, if it is at that point of its message. -/
def onWorker (i : ℕ) (executing : Bool) (f : MessageWorker → ResyncSystem) : ResyncSystem :=
  match s.workers[i]? with
  | none => s
  | some w => if w.executing = executing then f w else s

/-- The system after an event. -/
def step : ResyncEvent → ResyncSystem
  | .setJob job => { s with job }
  | .setResyncInProgress resyncInProgress => { s with resyncInProgress }
  | .setRunning job running => { s with running := Function.update s.running job running }
  | .arrive isMirrored isSecond => { s with workers := s.workers ++ [s.arrive isMirrored isSecond] }
  | .answer i => s.onWorker i false fun w =>
    { s with workers := s.workers.eraseIdx i, returned := w :: s.returned }
  | .execute i => s.onWorker i false fun w =>
    let (w, threadCount) := s.register w
    { s with workers := s.workers.set i w, threadCount }
  | .act i action => s.onWorker i true fun w =>
    let (w, threadCount) := s.act w action
    { s with workers := s.workers.set i w, threadCount }
  | .leave i response => s.onWorker i true fun w =>
    let (w, threadCount) := s.leave w response
    { s with workers := s.workers.eraseIdx i, returned := w :: s.returned, threadCount }

/-- A server on which no message is processed. -/
def idle (job : Option ℕ) (resyncInProgress : Bool) (running : ℕ → Bool) : ResyncSystem :=
  { job, resyncInProgress, running, threadCount := fun _ => 0, workers := [], returned := [] }

/-- The events of a message whose `executeLocally` is given, for the worker at a place. -/
def messageEvents (i : ℕ) (e : LocalExecution) : List ResyncEvent :=
  [.arrive true false, .execute i] ++ e.actions.map (.act i) ++ [.leave i e.response]

/-- A worker with a change set neither calls `buddyResyncNotify` nor returns without a response, and
its operation is finished while the resyncer has the job that it registered with. -/
def MeetsContract : ResyncEvent → Prop
  | .act i (.buddyResyncNotify _) => ∀ w ∈ s.workers[i]?, w.changeSet = false
  | .act i (.earlyComplete _) => ∀ w ∈ s.workers[i]?, w.changeSet = true → s.job = w.resyncJob
  | .leave i response => ∀ w ∈ s.workers[i]?, w.changeSet = true →
    response.isSome ∧ s.job = w.resyncJob
  | _ => True

instance (s : ResyncSystem) : (event : ResyncEvent) → Decidable (s.MeetsContract event)
  | .act i (.buddyResyncNotify _) =>
    inferInstanceAs (Decidable (∀ w ∈ s.workers[i]?, w.changeSet = false))
  | .act i (.earlyComplete _) =>
    inferInstanceAs (Decidable (∀ w ∈ s.workers[i]?, w.changeSet = true → s.job = w.resyncJob))
  | .leave i response => inferInstanceAs (Decidable (∀ w ∈ s.workers[i]?, w.changeSet = true →
      response.isSome ∧ s.job = w.resyncJob))
  | .setJob _ | .setResyncInProgress _ | .setRunning _ _ | .arrive _ _ | .answer _ | .execute _ =>
    isTrue trivial

/-- Every message that returned took its registrations back, and jobs have no threads when no
message is processed. -/
structure Balanced : Prop where
  returned : ∀ w ∈ s.returned, w.registered.length ≤ 1 ∧ w.unregistered = w.registered
  idle : s.workers = [] → ∀ job, s.threadCount job = 0

/-! ## One worker -/

/-- The registration of the worker with the job was not taken back yet. -/
def pendingOn (job : ℕ) (w : MessageWorker) : Bool := w.changeSet && w.resyncJob = some job

/-- A worker has a change set exactly as long as it is registered. -/
structure Sound : Prop where
  pending : w.changeSet = true → w.executing = true ∧ ∃ job, w.resyncJob = some job ∧
    w.registered = [job] ∧ w.unregistered = []
  settled : w.changeSet = false → w.registered.length ≤ 1 ∧ w.unregistered = w.registered
  waiting : w.executing = false → w.registered = []

/-- What is done to the counters is what the worker changes of its registration. -/
structure Moves (r : MessageWorker × (ℕ → ℕ)) : Prop where
  sound : Sound r.1
  counts : ∀ job others, s.threadCount job = (others + (pendingOn job w).toNat) % 2 ^ 32 →
    r.2 job = (others + (pendingOn job r.1).toNat) % 2 ^ 32

variable {s : ResyncSystem} {w : MessageWorker}

lemma pendingOn_of_not {job : ℕ} (h : w.changeSet = false) : pendingOn job w = false := by
  rw [pendingOn, h, Bool.false_and]

lemma Sound.moves_self (h : Sound w) : Moves s w (w, s.threadCount) := ⟨h, fun _ _ hcount => hcount⟩

/-- A worker that does not execute its message yet. -/
lemma Sound.eq_of_waiting (h : Sound w) (hwait : w.executing = false) :
    w = ⟨false, w.resyncJob, false, [], []⟩ := by
  have hchg : w.changeSet = false := by
    by_contra hset
    rw [not_eq_false] at hset
    nomatch (h.pending hset).1.symm.trans hwait
  have hreg := h.waiting hwait
  have hunreg := (h.settled hchg).2.trans hreg
  obtain ⟨executing, resyncJob, changeSet, _, _⟩ := w
  dsimp only at hwait hchg hreg hunreg
  rw [hwait, hchg, hreg, hunreg]

/-- A worker whose registration is not taken back yet. -/
lemma Sound.eq_of_pending (h : Sound w) (hset : w.changeSet = true) :
    ∃ job, w = ⟨true, some job, true, [job], []⟩ := by
  obtain ⟨hexec, job, hjob, hreg, hunreg⟩ := h.pending hset
  refine ⟨job, ?_⟩
  obtain ⟨_, _, changeSet, _, _⟩ := w
  dsimp only at hset hexec hjob hreg hunreg
  rw [hset, hexec, hjob, hreg, hunreg]

lemma sound_settled (resyncJob : Option ℕ) {jobs : List ℕ} (hjobs : jobs.length ≤ 1) :
    Sound ⟨true, resyncJob, false, jobs, jobs⟩ :=
  ⟨nofun, fun _ => ⟨hjobs, rfl⟩, nofun⟩

lemma Sound.register (h : Sound w) (hwait : w.executing = false) : Moves s w (s.register w) := by
  rw [h.eq_of_waiting hwait]
  rcases w.resyncJob with _ | job
  · exact ⟨sound_settled none (Nat.zero_le 1), fun _ _ hcount => hcount⟩
  · by_cases hrun : s.running job = true
    · have hregister : s.register ⟨false, some job, false, [], []⟩ =
          (⟨true, some job, true, [job], []⟩,
            Function.update s.threadCount job (addThread (s.threadCount job))) := if_pos hrun
      rw [hregister]
      refine ⟨⟨fun _ => ⟨rfl, job, rfl, rfl, rfl⟩, nofun, nofun⟩, fun other others hcount => ?_⟩
      by_cases heq : other = job
      · rw [heq] at hcount ⊢
        simp [pendingOn, addThread, hcount]
      · simp [pendingOn, heq, Ne.symm heq, hcount]
    · have hregister : s.register ⟨false, some job, false, [], []⟩ =
          (⟨true, some job, false, [], []⟩, s.threadCount) := if_neg hrun
      rw [hregister]
      exact ⟨sound_settled (some job) (Nat.zero_le 1), fun _ _ hcount => hcount⟩

open ResyncSystem

/-- An operation is finished while its job is there. -/
lemma Sound.finishOperation (h : Sound w) (hjob : w.changeSet = true → s.job = w.resyncJob) :
    Moves s w (s.finishOperation w) ∧ (s.finishOperation w).1.changeSet = false := by
  by_cases hset : w.changeSet = true
  · obtain ⟨job, rfl⟩ := h.eq_of_pending hset
    have hfinish : s.finishOperation ⟨true, some job, true, [job], []⟩ =
        (⟨true, some job, false, [job], [job]⟩,
          Function.update s.threadCount job (removeThread (s.threadCount job))) := by
      rw [finishOperation, if_pos hset, hjob hset]
    rw [hfinish]
    refine ⟨⟨sound_settled (some job) le_rfl, fun other others hcount => ?_⟩, rfl⟩
    by_cases heq : other = job
    · rw [heq] at hcount ⊢
      simp only [pendingOn, decide_true, Bool.and_self, toNat_true] at hcount
      simp only [pendingOn, Bool.false_and, toNat_false, Function.update_self, removeThread]
      omega
    · simpa [pendingOn, heq, Ne.symm heq] using hcount
  · rw [ResyncSystem.finishOperation, if_neg hset]
    exact ⟨h.moves_self, not_eq_true _ ▸ hset⟩

lemma changeSet_eq_self (h : w.changeSet = false) : { w with changeSet := false } = w := by
  rw [← h]

/-- An action that meets the contract. -/
lemma Sound.act (h : Sound w) {action : MessageAction} (hcontract : match action with
      | .buddyResyncNotify _ => w.changeSet = false
      | .earlyComplete _ => w.changeSet = true → s.job = w.resyncJob) :
    Moves s w (s.act w action) := by
  cases action with
  | buddyResyncNotify stateChanged =>
    rw [ResyncSystem.act, changeSet_eq_self hcontract]
    exact h.moves_self
  | earlyComplete changesState => exact (h.finishOperation hcontract).1

/-- A message that meets the contract returns with its registration taken back. -/
lemma Sound.leave (h : Sound w) {response : Option Bool}
    (hcontract : w.changeSet = true → response.isSome ∧ s.job = w.resyncJob) :
    Moves s w (s.leave w response) ∧ (s.leave w response).1.changeSet = false := by
  refine ⟨?_, rfl⟩
  cases response with
  | none =>
    have hsett : w.changeSet = false := by
      by_contra hset
      rw [not_eq_false] at hset
      exact absurd (hcontract hset).1 (by decide)
    have hleave : s.leave w none = ({ w with changeSet := false }, s.threadCount) := rfl
    rw [hleave, changeSet_eq_self hsett]
    exact h.moves_self
  | some changes =>
    obtain ⟨hmoves, hsett⟩ := h.finishOperation fun hset => (hcontract hset).2
    have hleave : s.leave w (some changes) =
        ({ (s.finishOperation w).1 with changeSet := false }, (s.finishOperation w).2) := rfl
    rw [hleave, changeSet_eq_self hsett]
    exact hmoves

/-! ## Runs -/

/-- All workers are sound, the counters of the jobs are the numbers of workers that are registered
with them, and the messages that returned are balanced. -/
structure Inv (s : ResyncSystem) : Prop where
  sound : ∀ w ∈ s.workers, Sound w
  counts : ∀ job, s.threadCount job = s.workers.countP (pendingOn job) % 2 ^ 32
  returned : ∀ w ∈ s.returned, w.registered.length ≤ 1 ∧ w.unregistered = w.registered

lemma Inv.balanced (h : s.Inv) : s.Balanced := by
  refine ⟨h.returned, fun hworkers job => ?_⟩
  rw [h.counts job, hworkers]
  rfl

lemma countP_of_perm {workers others : List MessageWorker} (h : workers.Perm (w :: others))
    (job : ℕ) :
    workers.countP (pendingOn job) = others.countP (pendingOn job) + (pendingOn job w).toNat := by
  rw [h.countP_eq, countP_cons]
  cases pendingOn job w <;> rfl

section Worker

variable {i : ℕ} {r : MessageWorker × (ℕ → ℕ)}

/-- A worker goes on with its message. -/
lemma Inv.set_worker (h : s.Inv) (hw : s.workers[i]? = some w) (hmoves : Moves s w r) :
    { s with workers := s.workers.set i r.1, threadCount := r.2 }.Inv := by
  obtain ⟨hi, rfl⟩ := List.getElem?_eq_some_iff.mp hw
  have hset := set_perm_cons_eraseIdx hi r.1
  refine ⟨fun w' hw' => ?_, fun job => ?_, h.returned⟩
  · rcases mem_cons.mp (hset.mem_iff.mp hw') with rfl | hother
    · exact hmoves.sound
    · exact h.sound w' (mem_of_mem_eraseIdx hother)
  · have hcount := h.counts job
    rw [countP_of_perm (getElem_cons_eraseIdx_perm hi).symm] at hcount
    rw [countP_of_perm hset]
    exact hmoves.counts job _ hcount

/-- A worker returns from its message. -/
lemma Inv.erase_worker (h : s.Inv) (hw : s.workers[i]? = some w) (hmoves : Moves s w r)
    (hsett : r.1.changeSet = false) :
    Inv { s with
      workers := s.workers.eraseIdx i, returned := r.1 :: s.returned, threadCount := r.2 } := by
  obtain ⟨hi, rfl⟩ := List.getElem?_eq_some_iff.mp hw
  refine ⟨fun w' hw' => h.sound w' (mem_of_mem_eraseIdx hw'), fun job => ?_, ?_⟩
  · have hcount := h.counts job
    rw [countP_of_perm (getElem_cons_eraseIdx_perm hi).symm] at hcount
    have hmoved := hmoves.counts job _ hcount
    rwa [pendingOn_of_not hsett, toNat_false, Nat.add_zero] at hmoved
  · rintro w' (_ | ⟨_, hw'⟩)
    · exact hmoves.sound.settled hsett
    · exact h.returned w' hw'

end Worker

/-- What a worker does keeps the invariant if it does so for a sound worker. -/
lemma Inv.onWorker (h : s.Inv) {i : ℕ} {executing : Bool} {f : MessageWorker → ResyncSystem}
    (hf : ∀ w, s.workers[i]? = some w → w.executing = executing → Sound w → (f w).Inv) :
    (s.onWorker i executing f).Inv := by
  unfold ResyncSystem.onWorker
  split
  · exact h
  · next w hw =>
    split_ifs with hexec
    · exact hf w hw hexec (h.sound w (mem_of_getElem? hw))
    · exact h

/-- An event that meets the contract keeps the invariant. -/
lemma Inv.step (h : s.Inv) {event : ResyncEvent} (hcontract : s.MeetsContract event) :
    (s.step event).Inv := by
  cases event with
  | setJob job => exact ⟨h.sound, h.counts, h.returned⟩
  | setResyncInProgress resyncInProgress => exact ⟨h.sound, h.counts, h.returned⟩
  | setRunning job running => exact ⟨h.sound, h.counts, h.returned⟩
  | arrive isMirrored isSecond =>
    refine ⟨fun w hw => ?_, fun job => ?_, h.returned⟩
    · rcases mem_append.mp hw with hw | hw
      · exact h.sound w hw
      · rw [mem_singleton.mp hw]
        exact ⟨nofun, fun _ => ⟨Nat.zero_le 1, rfl⟩, fun _ => rfl⟩
    · have hnew : pendingOn job (s.arrive isMirrored isSecond) = false := rfl
      change s.threadCount job = (s.workers ++ [s.arrive isMirrored isSecond]).countP _ % 2 ^ 32
      rw [countP_of_perm (perm_append_singleton ..)]
      exact h.counts job
  | answer i =>
    refine h.onWorker fun w hw hwait hsound => h.erase_worker hw hsound.moves_self ?_
    rw [hsound.eq_of_waiting hwait]
  | execute i =>
    exact h.onWorker fun w hw hwait hsound => h.set_worker hw (hsound.register hwait)
  | act i action =>
    refine h.onWorker fun w hw _ hsound => h.set_worker hw (hsound.act ?_)
    cases action <;> exact hcontract w hw
  | leave i response =>
    refine h.onWorker fun w hw _ hsound => ?_
    obtain ⟨hmoves, hsett⟩ := hsound.leave (hcontract w hw)
    exact h.erase_worker hw hmoves hsett

/-- In every run of messages that meet the contract, whatever happens to the jobs otherwise, every
message takes its registration back from the job that it registered with, and no job has threads
when no message is processed. -/
theorem balanced_of_meetsContract (job : Option ℕ) (resyncInProgress : Bool) (running : ℕ → Bool)
    {events : List ResyncEvent}
    (hcontract : EveryStep step MeetsContract (idle job resyncInProgress running) events) :
    EveryState step Balanced (idle job resyncInProgress running) events :=
  everyState_of_everyStep (I := Inv) (fun _ _ hevent h => Inv.step h hevent)
    (fun _ h => h.balanced) ⟨nofun, fun _ => rfl, nofun⟩ hcontract

/-- Files are unlinked and attributes set while a job is running. -/
theorem balanced_unlink_setAttr :
    EveryState step Balanced (idle (some 1) true fun _ => true)
      (messageEvents 0 (unlinkFilePrimary true true true) ++
        messageEvents 0 (setAttrQuota true true)) :=
  balanced_of_meetsContract (some 1) true (fun _ => true) (by decide +kernel)

/-- A file of a mirrored directory is closed while a job is running: the message returns without
taking back its registration, and the job has a thread forever. -/
theorem closeFile_unbalanced :
    let s := runFrom step (idle (some 1) true fun _ => true)
      (messageEvents 0 (closeFilePrimary true false true))
    s.workers = [] ∧ s.threadCount 1 = 1 ∧
      ∀ w ∈ s.returned, w.registered = [1] ∧ w.unregistered = [] := by
  decide +kernel

end ResyncSystem

end Beegfs
