import Beegfs.Lib.Run
import Beegfs.Mirroring.LockOrder

/-!
# Mirrored messages that are processed at the same time

Workers process messages on the primary servers of mirror groups.  A worker runs the method `lock`
of its message step by step, then executes the message while it holds the locks, and may send
messages to other groups meanwhile, whose answers it waits for.

`LockSystem.noDeadlock_of_inOrder` says that workers do not wait for each other's locks in a circle
in any run in which no message breaks the order of the locks.
-/

namespace Beegfs.MetaLocks

open LockProgram List

variable (ID Name : Type)

/-- How far a worker is with its message. -/
inductive Phase where
  /-- In `lock`, with the program of the loop that it is in. -/
  | locking (start prog : Program ID Name)
  | running
  /-- The worker waits for the answer of a message that another worker processes. -/
  | waiting (child dest : ℕ)
  | finished

structure Worker where
  group : ℕ
  msg : Msg ID Name
  held : List (EntryLock ID Name × Bool)
  phase : Phase ID Name

/-- The workers of all groups. -/
structure LockSystem where
  workers : List (Worker ID Name)

inductive LockAction where
  /-- A server receives a message. -/
  | receive (group : ℕ) (msg : Msg ID Name)
  /-- A worker makes the next step of `lock`, if it can. -/
  | proceed (worker : ℕ) (answer : (q : Question ID Name) → q.Answer)
  /-- A worker sends a message to another group. -/
  | send (worker dest : ℕ) (msg : Msg ID Name)
  /-- A worker is done and releases its locks. -/
  | finish (worker : ℕ)

/-- The messages that are sent to other groups while a message is executed. -/
def Msg.sends {ID Name : Type} : Msg ID Name → Msg ID Name → Bool
  | .hardlink .., .moveFileInode .. => true
  | .mkDir .., .mkLocalDir .. => true
  | .mkDir .., .rmLocalDir .. => true
  | .rmDir .., .rmLocalDir .. => true
  | .unlinkFile .., .unlinkLocalFileInode .. => true
  | .renameV2 .., .movingFileInsert .. => true
  | .renameV2 .., .unlinkLocalFileInode .. => true
  | _, _ => false

variable {ID Name : Type}

def Phase.isRunning : Phase ID Name → Bool
  | .running => true
  | _ => false

/-- The worker goes on if it waits for this one. -/
def Worker.answered (child : ℕ) (w : Worker ID Name) : Worker ID Name :=
  match w.phase with
  | .waiting c _ => if c = child then { w with phase := .running } else w
  | _ => w

variable [LinearOrder ID] [OrderBot ID] [LinearOrder Name]

/-- The next step of `lock`. -/
def Worker.proceed (isFree : EntryLock ID Name → Bool → Bool)
    (answer : (q : Question ID Name) → q.Answer) (w : Worker ID Name) : Worker ID Name :=
  match w.phase with
  | .locking start prog =>
    match prog with
    | .done => { w with phase := .running }
    | .acquire lock write rest =>
      if isFree lock write
      then { w with held := (lock, write) :: w.held, phase := .locking start rest }
      else w
    | .release lock rest =>
      { w with held := unlock lock w.held, phase := .locking start rest }
    | .ask q next => { w with phase := .locking start (next (answer q)) }
    | .loop body => { w with phase := .locking body body }
    | .restart => { w with held := [], phase := .locking start start }
  | _ => w

/-- A worker that begins with a message. -/
def Worker.begin (inodeHash : ID → ℕ × ℕ) (group : ℕ) (msg : Msg ID Name) : Worker ID Name :=
  ⟨group, msg, [], .locking (msg.lock inodeHash group) (msg.lock inodeHash group)⟩

namespace LockSystem

/-- No workers. -/
def init : LockSystem ID Name := ⟨[]⟩

variable (s : LockSystem ID Name)

/-- Nobody in the group holds the lock in a way that excludes this one. -/
def isFree (group : ℕ) (lock : EntryLock ID Name) (write : Bool) : Bool :=
  s.workers.all fun w =>
    w.group ≠ group ∨ ∀ h ∈ w.held, h.1 = lock → ¬ Excludes write h.2

/-- One step of the system. -/
def step (inodeHash : ID → ℕ × ℕ) (s : LockSystem ID Name) : LockAction ID Name → LockSystem ID Name
  | .receive group msg => ⟨s.workers ++ [.begin inodeHash group msg]⟩
  | .proceed i answer =>
    match s.workers[i]? with
    | none => s
    | some w => ⟨s.workers.set i (w.proceed (s.isFree w.group) answer)⟩
  | .send i dest msg =>
    match s.workers[i]? with
    | none => s
    | some w =>
      if w.phase.isRunning ∧ w.msg.sends msg ∧ dest ≠ w.group then
        ⟨s.workers.set i { w with phase := .waiting s.workers.length dest } ++
          [.begin inodeHash dest msg]⟩
      else s
  | .finish i =>
    match s.workers[i]? with
    | none => s
    | some w =>
      if w.phase.isRunning then
        ⟨(s.workers.set i { w with held := [], phase := .finished }).map (Worker.answered i)⟩
      else s

/-! ## Deadlocks -/

/-- The lock that a worker asks for, with its group. -/
def wants (i : ℕ) : Option ((ℕ × EntryLock ID Name) × Bool) :=
  match s.workers[i]? with
  | some ⟨group, _, _, .locking _ (.acquire lock write _)⟩ => some ((group, lock), write)
  | _ => none

/-- The locks that a worker holds, with its group. -/
def heldBy (i : ℕ) : List ((ℕ × EntryLock ID Name) × Bool) :=
  match s.workers[i]? with
  | some w => w.held.map fun h => ((w.group, h.1), h.2)
  | none => []

/-- No workers wait for each other's locks in a circle, and none asks for a lock for writing that it
holds. -/
def NoDeadlock : Prop :=
  (∀ i, ¬ Relation.TransGen (WaitsFor s.wants s.heldBy) i i) ∧
    ∀ i lock, s.wants i = some (lock, true) → ∀ h ∈ s.heldBy i, h.1 ≠ lock

/-- Messages and answers fit the types of the ids. -/
def Consistent (isDir : ID → Bool) : LockAction ID Name → Prop
  | .receive _ msg => msg.Valid isDir
  | .proceed _ answer => ∀ q, AnswerOk isDir q (answer q)
  | .send _ _ msg => msg.Valid isDir
  | .finish _ => True

/-- The answer that a worker gets does not make its message take locks out of order. -/
def LocksInOrder : LockAction ID Name → Prop
  | .proceed i answer => ∀ w start q next, s.workers[i]? = some w →
      w.phase = .locking start (.ask q next) → InOrder w.msg q (answer q)
  | _ => True

/-- What is known of a worker: it asks for locks in order. -/
def WorkerOk (isDir : ID → Bool) (w : Worker ID Name) : Prop :=
  match w.phase with
  | .locking start prog =>
    Ordered (rank isDir) (fun q a => AnswerOk isDir q a ∧ InOrder w.msg q a) w.held prog ∧
      Ordered (rank isDir) (fun q a => AnswerOk isDir q a ∧ InOrder w.msg q a) [] start
  | _ => True

section Steps

variable {isDir : ID → Bool} {s : LockSystem ID Name}

/-- A step of `lock` keeps the order. -/
lemma WorkerOk.proceed {w : Worker ID Name} (h : WorkerOk isDir w)
    (isFree : EntryLock ID Name → Bool → Bool) {answer : (q : Question ID Name) → q.Answer}
    (hanswer : ∀ q, AnswerOk isDir q (answer q))
    (hinOrder : ∀ start q next, w.phase = .locking start (.ask q next) →
      InOrder w.msg q (answer q)) :
    WorkerOk isDir (w.proceed isFree answer) := by
  obtain ⟨_, msg, _, phase⟩ := w
  cases phase with
  | locking start prog =>
    obtain ⟨hprog, hstart⟩ := h
    cases prog with
    | done => trivial
    | acquire lock write rest =>
      dsimp only [Worker.proceed]
      split_ifs
      · exact ⟨hprog.2, hstart⟩
      · exact ⟨hprog, hstart⟩
    | release lock rest => exact ⟨hprog, hstart⟩
    | ask q next => exact ⟨hprog _ ⟨hanswer q, hinOrder start q next rfl⟩, hstart⟩
    | loop body =>
      obtain ⟨rfl, hbody⟩ := hprog
      exact ⟨hbody, hbody⟩
    | restart => exact ⟨hstart, hstart⟩
  | running => trivial
  | waiting child dest => trivial
  | finished => trivial

lemma WorkerOk.begin (inodeHash : ID → ℕ × ℕ) (group : ℕ) (hbot : isDir ⊥ = false)
    {msg : Msg ID Name} (hmsg : msg.Valid isDir) : WorkerOk isDir (.begin inodeHash group msg) :=
  ⟨lock_ordered inodeHash group hbot hmsg, lock_ordered inodeHash group hbot hmsg⟩

lemma WorkerOk.answered {w : Worker ID Name} (h : WorkerOk isDir w) (child : ℕ) :
    WorkerOk isDir (w.answered child) := by
  obtain ⟨_, _, _, phase⟩ := w
  cases phase with
  | waiting c dest =>
    dsimp only [Worker.answered]
    split_ifs
    · trivial
    · exact h
  | locking start prog => exact h
  | running => exact h
  | finished => exact h

/-- All workers ask for locks in order. -/
def AllOk (isDir : ID → Bool) (s : LockSystem ID Name) : Prop := ∀ w ∈ s.workers, WorkerOk isDir w

lemma step_allOk (inodeHash : ID → ℕ × ℕ) (hbot : isDir ⊥ = false) {action : LockAction ID Name}
    (h : AllOk isDir s) (hconsistent : Consistent isDir action) (hinOrder : s.LocksInOrder action) :
    AllOk isDir (s.step inodeHash action) := by
  have hset : ∀ (i : ℕ) (w : Worker ID Name), WorkerOk isDir w →
      ∀ v ∈ s.workers.set i w, WorkerOk isDir v := by
    intro i w hw v hv
    rcases mem_or_eq_of_mem_set hv with hv | rfl
    · exact h v hv
    · exact hw
  cases action with
  | receive group msg =>
    intro v hv
    rcases mem_append.mp hv with hv | hv
    · exact h v hv
    · exact mem_singleton.mp hv ▸ WorkerOk.begin inodeHash group hbot hconsistent
  | proceed i answer =>
    rw [step]
    split
    · exact h
    · rename_i w hw
      refine hset i _ ((h w (mem_of_getElem? hw)).proceed _ hconsistent ?_)
      intro start q next hphase
      exact hinOrder w start q next hw hphase
  | send i dest msg =>
    rw [step]
    split
    · exact h
    · split_ifs
      · intro v hv
        rcases mem_append.mp hv with hv | hv
        · refine hset i _ ?_ v hv
          trivial
        · exact mem_singleton.mp hv ▸ WorkerOk.begin inodeHash dest hbot hconsistent
      · exact h
  | finish i =>
    rw [step]
    split
    · exact h
    · split_ifs
      · intro v hv
        obtain ⟨u, hu, rfl⟩ := mem_map.mp hv
        refine (hset i _ ?_ u hu).answered i
        trivial
      · exact h

/-- A worker wants a lock after all those that it holds. -/
lemma AllOk.wants_after (h : AllOk isDir s) (i : ℕ) (a : (ℕ × EntryLock ID Name) × Bool)
    (hwants : s.wants i = some a) : ∀ b ∈ s.heldBy i, rank isDir b.1.2 < rank isDir a.1.2 := by
  rw [wants] at hwants
  split at hwants
  · rename_i group msg held start lock write rest hw
    cases hwants
    intro b hb
    rw [heldBy, hw] at hb
    obtain ⟨c, hc, rfl⟩ := mem_map.mp hb
    exact (h _ (mem_of_getElem? hw)).1.1 c hc
  · nomatch hwants

lemma AllOk.noDeadlock (h : AllOk isDir s) : s.NoDeadlock := by
  constructor
  · exact not_transGen_waitsFor (fun lock => rank isDir lock.2) h.wants_after
  · rintro i lock hwants b hb rfl
    exact lt_irrefl _ (h.wants_after i _ hwants b hb)

end Steps

/-- In a run in which no message breaks the order of the locks, no workers wait for each other's
locks in a circle. -/
theorem noDeadlock_of_inOrder (inodeHash : ID → ℕ × ℕ) (isDir : ID → Bool) (hbot : isDir ⊥ = false)
    {actions : List (LockAction ID Name)}
    (hconsistent : ∀ action ∈ actions, Consistent isDir action)
    (hinOrder : EveryStep (step inodeHash) LocksInOrder init actions) :
    EveryState (step inodeHash) NoDeadlock init actions := by
  refine everyState_of_everyStep (I := AllOk isDir) ?_ ?_ ?_
    ((everyStep_of_forall hconsistent).and hinOrder)
  · intro s action hC h
    exact step_allOk inodeHash hbot h hC.1 hC.2
  · intro s h
    exact h.noDeadlock
  · exact nofun

/-- The answers of a server without a resync, which has this entry in directory 5. -/
def answers (info : EntryInfo ℕ) : (q : Question ℕ ℕ) → q.Answer
  | .resyncRunning => false
  | .dirExists _ => true
  | .lookup parentID _ => if parentID = 5 then info else .none

/-- A lookup with open of the directory 7 in the directory 5, while that is removed. -/
theorem noDeadlock_lookup_rmDir :
    EveryState (step fun _ => (0, 0)) NoDeadlock init
      [.receive 1 (.lookupIntent ⟨5, 1, false, true, false, .none, 0⟩), .receive 1 (.rmDir 5 1),
        .proceed 0 (answers ⟨7, .directory, false, 1⟩), .proceed 1
          (answers ⟨7, .directory, false, 1⟩),
        .proceed 0 (answers ⟨7, .directory, false, 1⟩), .proceed 1
          (answers ⟨7, .directory, false, 1⟩), .proceed 0 (answers ⟨7, .directory, false, 1⟩)] := by
  refine noDeadlock_of_inOrder _ (fun id => decide (id = 5 ∨ id = 7)) (by decide) ?_ ?_
  · have hans : ∀ q : Question ℕ ℕ, AnswerOk (fun id => decide (id = 5 ∨ id = 7)) q
        (answers ⟨7, .directory, false, 1⟩ q) := by
      rintro (_ | _ | ⟨parentID, -⟩)
      · trivial
      · trivial
      · change InfoOk (fun id => decide (id = 5 ∨ id = 7)) parentID
          (if parentID = 5 then (⟨7, .directory, false, 1⟩ : EntryInfo ℕ) else .none)
        by_cases hpar : parentID = 5
        · rw [hpar]
          exact ⟨rfl, nofun⟩
        · rw [if_neg hpar]
          exact rfl
    simp only [forall_mem_cons, Consistent]
    exact ⟨⟨rfl, nofun, rfl, fun _ => rfl⟩, rfl, hans, hans, hans, hans, hans, by simp⟩
  · refine ⟨trivial, trivial, ?_, ?_, ?_, ?_, ?_, trivial⟩
    · rintro w start q next ⟨⟩ ⟨⟩
    · rintro w start q next ⟨⟩ ⟨⟩
      trivial
    · rintro w start q next ⟨⟩ ⟨⟩
      exact fun _ _ _ => by decide
    · rintro w start q next ⟨⟩ ⟨⟩
      exact (by decide : EntryType.directory ≠ .file)
    · rintro w start q next ⟨⟩ ⟨⟩

/-- Directory 3 is in directory 5 under the name 1: a lookup with open of the name has locked the
parent and waits for the directory, and its removal has locked the directory and waits for the
parent. If the entry is a file instead, then its unlinking and a removal of the name as a directory
wait for each other. -/
theorem lookup_rmDir_deadlock :
    let dir := runFrom (step fun _ => (0, 0)) init
      [.receive 1 (.lookupIntent ⟨5, 1, false, true, false, .none, 0⟩), .receive 1 (.rmDir 5 1),
        .proceed 1 (answers ⟨3, .directory, false, 1⟩), .proceed 1
          (answers ⟨3, .directory, false, 1⟩),
        .proceed 1 (answers ⟨3, .directory, false, 1⟩), .proceed 1
          (answers ⟨3, .directory, false, 1⟩),
        .proceed 0 (answers ⟨3, .directory, false, 1⟩), .proceed 0
          (answers ⟨3, .directory, false, 1⟩)]
    let file := runFrom (step fun _ => (0, 0)) init
      [.receive 1 (.unlinkFile 5 1), .receive 1 (.rmDir 5 1),
        .proceed 1 (answers ⟨3, .file, true, 1⟩), .proceed 1 (answers ⟨3, .file, true, 1⟩),
        .proceed 1 (answers ⟨3, .file, true, 1⟩), .proceed 1 (answers ⟨3, .file, true, 1⟩),
        .proceed 0 (answers ⟨3, .file, true, 1⟩), .proceed 0 (answers ⟨3, .file, true, 1⟩),
        .proceed 0 (answers ⟨3, .file, true, 1⟩), .proceed 0 (answers ⟨3, .file, true, 1⟩)]
    ¬ dir.NoDeadlock ∧ ¬ file.NoDeadlock := by
  intro dir file
  constructor
  · intro h
    have h0 : WaitsFor dir.wants dir.heldBy 0 1 := ⟨(1, .fileID 3), true, true, by decide⟩
    have h1 : WaitsFor dir.wants dir.heldBy 1 0 := ⟨(1, .fileID 5), true, false, by decide⟩
    exact h.1 0 (.tail (.single h0) h1)
  · intro h
    have h0 : WaitsFor file.wants file.heldBy 0 1 := ⟨(1, .fileID 3), true, true, by decide⟩
    have h1 : WaitsFor file.wants file.heldBy 1 0 := ⟨(1, .fileID 5), true, true, by decide⟩
    exact h.1 0 (.tail (.single h0) h1)

end LockSystem

end Beegfs.MetaLocks
