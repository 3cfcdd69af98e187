import Beegfs.Mirroring.ChangeLocks

/-!
# Entry locks cover the changes

Workers take their locks and execute their messages in any interleaving, as in `LockSystem`; what
each of them has found in `lock` is kept beside it.  `ExecSystem.covers_of_current` says that a
worker that executes an unlink or a rename holds the locks of everything it changes, in any run in
which what `lock` has found still holds then, renames stay in the group, and no inode is removed for
another group while a resync runs.
-/

namespace Beegfs.MetaLocks

open LockProgram Function List

variable {ID Name : Type}

/-- The workers of all groups, with the answers that each one got in `lock`. -/
structure ExecSystem (ID Name : Type) where
  locks : LockSystem ID Name
  found : ℕ → Found ID Name

inductive ExecAction (ID Name : Type) where
  /-- A step that concerns the locks. -/
  | lock (action : LockAction ID Name)
  /-- A worker makes changes in `executeLocally`, with what it finds there. -/
  | execute (worker : ℕ) (now : Execution ID Name)

/-- The worker is in `executeLocally`. -/
def Phase.isExecuting : Phase ID Name → Bool
  | .running => true
  | .waiting _ _ => true
  | _ => false

/-- The answers after the next step of `lock`.  The variables of a loop are new in each round. -/
def Worker.note (answer : (q : Question ID Name) → q.Answer) (w : Worker ID Name)
    (found : Found ID Name) : Found ID Name :=
  match w.phase with
  | .locking _ (.ask q _) => ⟨q, answer q⟩ :: found
  | .locking _ (.loop _) => []
  | .locking _ .restart => []
  | _ => found

namespace ExecSystem

variable [LinearOrder ID] [OrderBot ID] [LinearOrder Name]

/-- No workers. -/
def init : ExecSystem ID Name := ⟨.init, fun _ => []⟩

variable (inodeHash : ID → ℕ × ℕ) (s : ExecSystem ID Name)

/-- One step of the system. -/
def step : ExecAction ID Name → ExecSystem ID Name
  | .lock action =>
    { locks := s.locks.step inodeHash action
      found :=
        match action with
        | .proceed i answer =>
          match s.locks.workers[i]? with
          | none => s.found
          | some w => Function.update s.found i (w.note answer (s.found i))
        | .finish _ => s.found
        | _ => Function.update s.found s.locks.workers.length [] }
  | .execute _ _ => s

/-- What a worker finds fits its server. -/
def Consistent : ExecAction ID Name → Prop
  | .execute i now => ∀ w ∈ s.locks.workers[i]?, now.Consistent w.group
  | .lock _ => True

/-- What a worker has found in `lock` still holds when it makes changes. -/
def Current : ExecAction ID Name → Prop
  | .execute i now => ∀ w ∈ s.locks.workers[i]?, w.phase.isExecuting = true →
    w.msg.Current w.group (s.found i) now
  | .lock _ => True

/-- The worker holds the locks of everything that it changes. -/
def Covers (disposal : DisposalDir ID Name) (s : ExecSystem ID Name) : ExecAction ID Name → Prop
  | .execute i now => ∀ w ∈ s.locks.workers[i]?, w.phase.isExecuting = true →
    ∀ c ∈ w.msg.changes w.group disposal (s.found i) now,
      c.Covered inodeHash now.resyncRunning w.held
  | .lock _ => True

instance (inodeHash : ID → ℕ × ℕ) (disposal : DisposalDir ID Name) (s : ExecSystem ID Name) :
    (action : ExecAction ID Name) → Decidable (s.Covers inodeHash disposal action)
  | .execute i now => inferInstanceAs (Decidable (∀ w ∈ s.locks.workers[i]?,
      w.phase.isExecuting = true → ∀ c ∈ w.msg.changes w.group disposal (s.found i) now,
        c.Covered inodeHash now.resyncRunning w.held))
  | .lock _ => isTrue trivial

/-- The same for all changes but those to the disposal directory. -/
def CoversOutside (disposal : DisposalDir ID Name) (s : ExecSystem ID Name) :
    ExecAction ID Name → Prop
  | .execute i now => ∀ w ∈ s.locks.workers[i]?, w.phase.isExecuting = true →
    ∀ c ∈ w.msg.changes w.group disposal (s.found i) now, ¬ c.InDisposal disposal →
      c.Covered inodeHash now.resyncRunning w.held
  | .lock _ => True

/-- The inode that loses a name does not go to the disposal directory. -/
def NotDisposed : ExecAction ID Name → Prop
  | .execute i now => ∀ w ∈ s.locks.workers[i]?, ¬ now.IsDisposed (w.msg.unlinkedID now)
  | .lock _ => True

/-! ## Every worker runs its `lock` -/

/-- What is known of a worker: whatever `lock` ends with holds at its end. -/
def WorkerRuns (w : Worker ID Name) (found : Found ID Name) : Prop :=
  ∀ post, Ends post [] [] (w.msg.lock inodeHash w.group) → match w.phase with
    | .locking start prog => Ends post w.held found prog ∧ Ends post [] [] start
    | .finished => True
    | _ => post w.held found

section Runs

variable {inodeHash : ID → ℕ × ℕ} {w : Worker ID Name} {found : Found ID Name}

lemma WorkerRuns.begin (group : ℕ) (msg : Msg ID Name) :
    WorkerRuns inodeHash (.begin inodeHash group msg) [] :=
  fun _ hends => ⟨hends, hends⟩

/-- A step of `lock` and the answer that it gets. -/
lemma WorkerRuns.proceed (h : WorkerRuns inodeHash w found)
    (isFree : EntryLock ID Name → Bool → Bool) (answer : (q : Question ID Name) → q.Answer) :
    WorkerRuns inodeHash (w.proceed isFree answer) (w.note answer found) := by
  obtain ⟨_, _, _, phase⟩ := w
  cases phase with
  | locking start prog =>
    cases prog with
    | done => exact fun post hends => (h post hends).1
    | acquire lock write rest =>
      dsimp only [Worker.proceed]
      split_ifs
      · exact fun post hends => h post hends
      · exact h
    | release lock rest => exact fun post hends => h post hends
    | ask q next => exact fun post hends => ⟨(h post hends).1 (answer q), (h post hends).2⟩
    | loop body =>
      intro post hends
      obtain ⟨⟨rfl, hbody⟩, -⟩ := h post hends
      exact ⟨hbody, hbody⟩
    | restart => exact fun post hends => ⟨(h post hends).2, (h post hends).2⟩
  | running => exact h
  | waiting child dest => exact h
  | finished => exact h

lemma WorkerRuns.answered (h : WorkerRuns inodeHash w found) (child : ℕ) :
    WorkerRuns inodeHash (w.answered child) found := by
  obtain ⟨_, _, _, phase⟩ := w
  cases phase with
  | waiting c dest =>
    dsimp only [Worker.answered]
    split_ifs
    · exact h
    · exact h
  | locking start prog => exact h
  | running => exact h
  | finished => exact h

/-- All workers run their `lock`. -/
def AllRun (inodeHash : ID → ℕ × ℕ) (workers : List (Worker ID Name)) (found : ℕ → Found ID Name) :
    Prop :=
  ∀ (i : ℕ) (w : Worker ID Name), workers[i]? = some w → WorkerRuns inodeHash w (found i)

variable {workers : List (Worker ID Name)} {founds : ℕ → Found ID Name}

section

variable (h : AllRun inodeHash workers founds)

include h

/-- A worker is replaced, with its answers. -/
lemma AllRun.set (i : ℕ) (hw : WorkerRuns inodeHash w found) :
    AllRun inodeHash (workers.set i w) (Function.update founds i found) := by
  intro j v hv
  by_cases hij : i = j
  · subst hij
    obtain ⟨_, hv⟩ := List.getElem?_eq_some_iff.mp hv
    rw [getElem_set_self] at hv
    rw [update_self, ← hv]
    exact hw
  · rw [update_of_ne (Ne.symm hij)]
    exact h j v (by simpa [hij] using hv)

/-- A worker is replaced by one with the same answers. -/
lemma AllRun.set_same {i : ℕ}
    (hw : WorkerRuns inodeHash w (founds i)) : AllRun inodeHash (workers.set i w) founds := by
  have hset := h.set i hw
  rwa [update_eq_self] at hset

/-- A worker begins. -/
lemma AllRun.append (hw : WorkerRuns inodeHash w []) :
    AllRun inodeHash (workers ++ [w]) (Function.update founds workers.length []) := by
  intro j v hv
  by_cases hj : j < workers.length
  · rw [update_of_ne hj.ne]
    exact h j v (by rwa [List.getElem?_append_left hj] at hv)
  · rw [List.getElem?_append_right (not_lt.mp hj)] at hv
    obtain rfl := mem_singleton.mp (mem_of_getElem? hv)
    have hlen : j = workers.length := by
      have hlt := (List.getElem?_eq_some_iff.mp hv).1
      rw [length_singleton] at hlt
      omega
    rw [hlen, update_self]
    exact hw

/-- The place for the next worker does not matter. -/
lemma AllRun.update_length :
    AllRun inodeHash workers (Function.update founds workers.length found) := by
  intro j v hv
  have hj : j < workers.length := (List.getElem?_eq_some_iff.mp hv).1
  rw [update_of_ne hj.ne]
  exact h j v hv

end

lemma step_allRun {s : ExecSystem ID Name} (h : AllRun inodeHash s.locks.workers s.found)
    (action : ExecAction ID Name) :
    AllRun inodeHash (s.step inodeHash action).locks.workers (s.step inodeHash action).found := by
  cases action with
  | execute i now => exact h
  | lock action =>
    cases action with
    | receive group msg => exact h.append (.begin group msg)
    | proceed i answer =>
      dsimp only [step, LockSystem.step]
      cases hw : s.locks.workers[i]? with
      | none => exact h
      | some w => exact h.set i ((h i w hw).proceed _ answer)
    | send i dest msg =>
      dsimp only [step, LockSystem.step]
      split
      · exact h.update_length
      · rename_i w hw
        split_ifs with hsends
        · have hwait : WorkerRuns inodeHash
              { w with phase := .waiting s.locks.workers.length dest } (s.found i) := by
            intro post hends
            have hpost := h i w hw post hends
            cases hphase : w.phase with
            | running => rwa [hphase] at hpost
            | _ => simp [hphase, Phase.isRunning] at hsends
          have happ := (h.set_same hwait).append (.begin dest msg)
          rwa [length_set] at happ
        · exact h.update_length
    | finish i =>
      dsimp only [step, LockSystem.step]
      split
      · exact h
      · rename_i w hw
        split_ifs with hrun
        · intro j v hv
          have hset : AllRun inodeHash
            (s.locks.workers.set i { w with held := [], phase := .finished })
            s.found := h.set_same fun _ _ => trivial
          rw [List.getElem?_map, Option.map_eq_some_iff] at hv
          obtain ⟨u, hu, rfl⟩ := hv
          exact (hset j u hu).answered i
        · exact h

end Runs

/-- In a run in which what `lock` has found still holds when the messages are executed, the workers
hold the locks of all their changes outside of the disposal directory, and of all of them if no
inode goes there. -/
theorem covers_of_current (inodeHash : ID → ℕ × ℕ) (disposal : DisposalDir ID Name)
    {actions : List (ExecAction ID Name)}
    (hsteps : EveryStep (step inodeHash) (fun s action => s.Consistent action ∧ s.Current action)
      init actions) :
    EveryStep (step inodeHash) (fun s action => s.CoversOutside inodeHash disposal action ∧
      (s.NotDisposed action → s.Covers inodeHash disposal action)) init actions := by
  refine EveryStep.imp_of_invariant (I := fun s => AllRun inodeHash s.locks.workers s.found)
    ?_ ?_ ?_ hsteps
  · intro s action _ h
    exact step_allRun h action
  · rintro s action ⟨hcons, hcur⟩ h
    cases action with
    | lock action => exact ⟨trivial, fun _ => trivial⟩
    | execute i now =>
      have hsafe : ∀ w, s.locks.workers[i]? = some w → w.phase.isExecuting = true →
          ∀ c ∈ w.msg.changes w.group disposal (s.found i) now,
            c.Safe inodeHash disposal now w.held (w.msg.unlinkedID now) := by
        intro w hw hexec
        refine Msg.changes_safe (fun post hends => ?_) (hcons w hw) (hcur w hw hexec)
        have hpost := h i w hw post hends
        cases hphase : w.phase with
        | running => rwa [hphase] at hpost
        | waiting child dest => rwa [hphase] at hpost
        | _ => simp [hphase, Phase.isExecuting] at hexec
      refine ⟨fun w hw hexec c hc hinsd => ?_, fun hdisposed w hw hexec c hc => ?_⟩
      · exact (hsafe w hw hexec c hc).resolve_right fun h => hinsd h.1
      · exact (hsafe w hw hexec c hc).resolve_right fun h => hdisposed w hw h.2
  · exact fun i w hw => nomatch hw

/-- What is found on a server with these directories and entries. -/
def answersOf (running : Bool) (dirs : List ℕ) (entries : ℕ → ℕ → EntryInfo ℕ) :
    (q : Question ℕ ℕ) → q.Answer
  | .resyncRunning => running
  | .dirExists id => decide (id ∈ dirs)
  | .lookup parentID name => entries parentID name

/-- The inode of file 7, which is open, loses one of its two names in another group during a
resync. -/
theorem covers_unlinkLocalFileInode :
    let answers := answersOf true [] fun _ _ => .none
    EveryStep (step fun _ => (0, 0)) (fun s action =>
        s.CoversOutside (fun _ => (0, 0)) ⟨100, id⟩ action ∧
          (s.NotDisposed action → s.Covers (fun _ => (0, 0)) ⟨100, id⟩ action)) init
      [.lock (.receive 1 (.unlinkLocalFileInode false 7)), .lock (.proceed 0 answers),
        .lock (.proceed 0 answers), .lock (.proceed 0 answers), .lock (.proceed 0 answers),
        .lock (.proceed 0 answers),
        .execute 0 ⟨answers, fun _ => ⟨2, true, true⟩, .invalid, 0⟩] := by
  intro answers
  refine covers_of_current _ _ ⟨⟨trivial, trivial⟩, ⟨trivial, trivial⟩, ⟨trivial, trivial⟩,
    ⟨trivial, trivial⟩, ⟨trivial, trivial⟩, ⟨trivial, trivial⟩, ⟨?_, ?_⟩, trivial⟩
  · rintro w ⟨⟩
    exact ⟨nofun, nofun⟩
  · rintro w ⟨⟩ - -
    exact .inl (by decide)

/-- Three messages that change what they have not locked.  The inode of file 7 is removed for
another group during a resync, without the lock of the hash directory.  File 7 is moved to a
directory of another group, without any lock.  File 7 is renamed to a name that was free in `lock`
and has file 8 when it is overwritten, without the lock of file 8. -/
theorem changes_without_locks :
    let free := answersOf false [5] fun parentID name =>
      if parentID = 5 ∧ name = 1 then ⟨7, .file, true, 1⟩ else .none
    let taken := answersOf false [5] fun parentID name =>
      if parentID = 5 ∧ name = 1 then ⟨7, .file, true, 1⟩
      else if parentID = 5 ∧ name = 2 then ⟨8, .file, true, 1⟩ else .none
    let resync := answersOf true [] fun _ _ => .none
    let unlinked := runFrom (step fun _ => (0, 0)) init
      (.lock (.receive 1 (.unlinkLocalFileInode false 7)) ::
        List.replicate 5 (.lock (.proceed 0 resync)))
    let moved := runFrom (step fun _ => (0, 0)) init
      (.lock (.receive 1 (.renameV2 5 1 9 1)) :: List.replicate 3 (.lock (.proceed 0 free)))
    let renamed := runFrom (step fun _ => (0, 0)) init
      (.lock (.receive 1 (.renameV2 5 1 5 2)) :: List.replicate 12 (.lock (.proceed 0 free)))
    ¬ unlinked.Covers (fun _ => (0, 0)) ⟨100, id⟩
        (.execute 0 ⟨resync, fun _ => ⟨1, false, true⟩, .invalid, 0⟩) ∧
      ¬ moved.Covers (fun _ => (0, 0)) ⟨100, id⟩
        (.execute 0 ⟨free, fun _ => ⟨1, false, true⟩, .file, 2⟩) ∧
      ¬ renamed.Covers (fun _ => (0, 0)) ⟨100, id⟩
        (.execute 0 ⟨taken, fun _ => ⟨1, false, true⟩, .file, 1⟩) := by
  decide +kernel

end ExecSystem

end Beegfs.MetaLocks
