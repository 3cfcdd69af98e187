import Beegfs.Mirroring.LockSystem

/-!
# Waiting for other mirror groups

A worker keeps its entry locks while it waits for the answer of a message to another group, where
that message takes locks as well.  The order of the locks of one server says nothing about such
waits. `LockSystem.noCycle_of_sendsForward` says that no workers wait for each other in a circle, in
any run in which no worker sends a message to a group that waits itself, directly or through further
groups, for an answer from the sender's group.
-/

namespace Beegfs.MetaLocks

open LockProgram List

variable {ID Name : Type}

namespace LockSystem

variable (s : LockSystem ID Name)

/-- A worker waits for the answer of a message that the other one processes. -/
def AwaitsAnswer (i j : ℕ) : Prop := ∃ w dest, s.workers[i]? = some w ∧ w.phase = .waiting j dest

/-- No workers wait in a circle for each other's locks or answers. -/
def NoCycle : Prop :=
  ∀ i, ¬ Relation.TransGen (fun i j => WaitsFor s.wants s.heldBy i j ∨ s.AwaitsAnswer i j) i i

/-- A worker of the first group waits for an answer from the second one. -/
def GroupAwaits (g g' : ℕ) : Prop :=
  ∃ w ∈ s.workers, w.group = g ∧ ∃ child, w.phase = .waiting child g'

/-- The group that a message is sent to does not wait for the sender's group, also not through other
groups. -/
def SendsForward : LockAction ID Name → Prop
  | .send i dest _ => ∀ w, s.workers[i]? = some w →
    ¬ Relation.ReflTransGen s.GroupAwaits dest w.group
  | _ => True

/-! ## Groups that wait -/

/-- What is known of the waiting workers: the workers that they wait for are in the group that they
sent the message to, and the groups do not wait for each other in a circle. -/
structure WaitsOk : Prop where
  child : ∀ (i : ℕ) (w : Worker ID Name) (c dest : ℕ), s.workers[i]? = some w →
    w.phase = .waiting c dest → ∃ v : Worker ID Name, s.workers[c]? = some v ∧ v.group = dest
  acyclic : ∀ g, ¬ Relation.TransGen s.GroupAwaits g g

/-- Workers stay in their groups, and none begins to wait. -/
structure Continues (s s' : LockSystem ID Name) : Prop where
  group : ∀ {i : ℕ} {v : Worker ID Name}, s.workers[i]? = some v →
    ∃ v' : Worker ID Name, s'.workers[i]? = some v' ∧ v'.group = v.group
  waiting : ∀ {i : ℕ} {v' : Worker ID Name} {c dest : ℕ}, s'.workers[i]? = some v' →
    v'.phase = .waiting c dest →
    ∃ v : Worker ID Name, s.workers[i]? = some v ∧ v.group = v'.group ∧ v.phase = .waiting c dest

variable {s : LockSystem ID Name}

lemma Continues.trans {s' s'' : LockSystem ID Name} (h : Continues s s') (h' : Continues s' s'') :
    Continues s s'' where
  group hi := by
    obtain ⟨v, hv, hgroup⟩ := h.group hi
    obtain ⟨v', hv', hgrp'⟩ := h'.group hv
    exact ⟨v', hv', hgrp'.trans hgroup⟩
  waiting hi hphase := by
    obtain ⟨v, hv, hgroup, hphase⟩ := h'.waiting hi hphase
    obtain ⟨v', hv', hgrp', hphase⟩ := h.waiting hv hphase
    exact ⟨v', hv', hgrp'.trans hgroup, hphase⟩

lemma WaitsOk.continues {s' : LockSystem ID Name} (h : s.WaitsOk) (hcont : Continues s s') :
    s'.WaitsOk where
  child i w c dest hw hphase := by
    obtain ⟨v, hv, -, hphase⟩ := hcont.waiting hw hphase
    obtain ⟨u, hu, hdest⟩ := h.child i v c dest hv hphase
    obtain ⟨u', hu', hgroup⟩ := hcont.group hu
    exact ⟨u', hu', hgroup.trans hdest⟩
  acyclic g hcycle := by
    refine h.acyclic g (Relation.TransGen.mono ?_ _ _ hcycle)
    rintro g _ ⟨w, hw, hgroup, child, hphase⟩
    obtain ⟨i, hi⟩ := List.getElem?_of_mem hw
    obtain ⟨v, hv, hsame, hphase⟩ := hcont.waiting hi hphase
    exact ⟨v, mem_of_getElem? hv, hsame.trans hgroup, child, hphase⟩

variable {i : ℕ} {w : Worker ID Name}

/-- A worker is replaced by one of the same group that does not begin to wait. -/
lemma continues_set {w' : Worker ID Name}
    (hw : s.workers[i]? = some w) (hgroup : w'.group = w.group)
    (hphase : ∀ c dest, w'.phase = .waiting c dest → w.phase = .waiting c dest) :
    Continues s ⟨s.workers.set i w'⟩ := by
  have hi : i < s.workers.length := (List.getElem?_eq_some_iff.mp hw).1
  constructor
  · intro j v hv
    by_cases hij : i = j
    · obtain rfl : w = v := Option.some.inj (hw.symm.trans (hij ▸ hv))
      exact ⟨w', by simp [← hij, hi], hgroup⟩
    · exact ⟨v, by simp [hij, hv], rfl⟩
  · intro j v' c dest hv' hwait
    by_cases hij : i = j
    · have hv : w' = v' := by simpa [← hij, hi] using hv'
      rw [← hv] at hwait ⊢
      exact ⟨w, hij ▸ hw, hgroup.symm, hphase c dest hwait⟩
    · exact ⟨v', by simpa [hij] using hv', rfl, hwait⟩

/-- A worker that does not wait is added. -/
lemma continues_append
    (hphase : ∀ c dest, w.phase ≠ .waiting c dest) : Continues s ⟨s.workers ++ [w]⟩ := by
  constructor
  · intro i v hv
    have hi : i < s.workers.length := (List.getElem?_eq_some_iff.mp hv).1
    exact ⟨v, by rw [List.getElem?_append_left hi, hv], rfl⟩
  · intro i v' c dest hv' hwait
    by_cases hi : i < s.workers.length
    · rw [List.getElem?_append_left hi] at hv'
      exact ⟨v', hv', rfl, hwait⟩
    · rw [List.getElem?_append_right (not_lt.mp hi)] at hv'
      obtain rfl := mem_singleton.mp (mem_of_getElem? hv')
      exact absurd hwait (hphase c dest)

/-- Workers get their answer. -/
lemma continues_answered (s : LockSystem ID Name) (child : ℕ) :
    Continues s ⟨s.workers.map (Worker.answered child)⟩ := by
  have hgroup : ∀ w : Worker ID Name, (w.answered child).group = w.group := by
    intro w
    rw [Worker.answered]
    split
    · split_ifs <;> rfl
    · rfl
  have hphase : ∀ (w : Worker ID Name) c dest, (w.answered child).phase = .waiting c dest →
      w.phase = .waiting c dest := by
    intro w c dest h
    rw [Worker.answered] at h
    split at h
    · split_ifs at h
      exact h
    · exact h
  constructor
  · intro i v hv
    exact ⟨v.answered child, by rw [List.getElem?_map, hv, Option.map_some], hgroup v⟩
  · intro i v' c dest hv' hwait
    rw [List.getElem?_map, Option.map_eq_some_iff] at hv'
    obtain ⟨v, hv, rfl⟩ := hv'
    exact ⟨v, hv, (hgroup v).symm, hphase v c dest hwait⟩

/-- A worker begins to wait for another group. -/
lemma WaitsOk.send (h : s.WaitsOk) {dest : ℕ} (hw : s.workers[i]? = some w)
    (hforw : ¬ Relation.ReflTransGen s.GroupAwaits dest w.group) {child : Worker ID Name}
    (hchild : child.group = dest) (hphase : ∀ c d, child.phase ≠ .waiting c d) :
    WaitsOk ⟨s.workers.set i { w with phase := .waiting s.workers.length dest } ++ [child]⟩ := by
  have hi : i < s.workers.length := (List.getElem?_eq_some_iff.mp hw).1
  have hwait : ∀ {j : ℕ} {v : Worker ID Name} {c d : ℕ},
      (s.workers.set i { w with phase := .waiting s.workers.length dest } ++ [child])[j]? = some v →
      v.phase = .waiting c d → s.workers[j]? = some v ∨
        (v.group = w.group ∧ c = s.workers.length ∧ d = dest) := by
    intro j v c d hv hph'
    by_cases hj : j < s.workers.length
    · rw [List.getElem?_append_left (by simpa using hj)] at hv
      by_cases hij : i = j
      · obtain rfl : { w with phase := .waiting s.workers.length dest } = v := by
          simpa [← hij, hi] using hv
        injection hph' with hc hd
        exact .inr ⟨rfl, hc.symm, hd.symm⟩
      · exact .inl (by simpa [hij] using hv)
    · rw [List.getElem?_append_right (by simpa using hj)] at hv
      obtain rfl := mem_singleton.mp (mem_of_getElem? hv)
      exact absurd hph' (hphase c d)
  have hgroup : ∀ {j : ℕ} {v : Worker ID Name}, s.workers[j]? = some v → ∃ v' : Worker ID Name,
      (s.workers.set i { w with phase := .waiting s.workers.length dest } ++ [child])[j]? =
      some v' ∧ v'.group = v.group := by
    intro j v hv
    have hj : j < s.workers.length := (List.getElem?_eq_some_iff.mp hv).1
    rw [List.getElem?_append_left (by simpa using hj)]
    by_cases hij : i = j
    · obtain rfl : w = v := Option.some.inj (hw.symm.trans (hij ▸ hv))
      exact ⟨{ w with phase := .waiting s.workers.length dest }, by simp [← hij, hi], rfl⟩
    · exact ⟨v, by simp [hij, hv], rfl⟩
  constructor
  · intro j v c d hv hph'
    rcases hwait hv hph' with hold | ⟨-, rfl, rfl⟩
    · obtain ⟨u, hu, hd⟩ := h.child j v c d hold hph'
      obtain ⟨u', hu', hsame⟩ := hgroup hu
      exact ⟨u', hu', hsame.trans hd⟩
    · exact ⟨child, by simp, hchild⟩
  · intro g hcycle
    refine not_transGen_insert h.acyclic hforw g (Relation.TransGen.mono ?_ _ _ hcycle)
    rintro a b ⟨v, hv, hgroup, c, hph'⟩
    obtain ⟨j, hj⟩ := List.getElem?_of_mem hv
    rcases hwait hj hph' with hold | ⟨hsame, -, hd⟩
    · exact .inl ⟨v, mem_of_getElem? hold, hgroup, c, hph'⟩
    · exact .inr ⟨hgroup.symm.trans hsame, hd⟩

/-- The group of a worker. -/
def groupOf (s : LockSystem ID Name) (i : ℕ) : ℕ :=
  match s.workers[i]? with
  | some w => w.group
  | none => 0

variable {a : (ℕ × EntryLock ID Name) × Bool}

/-- The locks are those of the worker's own group. -/
lemma groupOf_of_wants (h : s.wants i = some a) : s.groupOf i = a.1.1 := by
  rw [wants] at h
  split at h
  · rename_i hw
    cases h
    rw [groupOf, hw]
  · cases h

lemma groupOf_of_mem_heldBy (h : a ∈ s.heldBy i) : s.groupOf i = a.1.1 := by
  rw [heldBy] at h
  split at h
  · rename_i w hw
    obtain ⟨b, -, rfl⟩ := mem_map.mp h
    rw [groupOf, hw]
  · cases h

variable [LinearOrder ID] [LinearOrder Name] {s : LockSystem ID Name}

/-- The steps of `lock` are made in the group of the worker and do not begin to wait. -/
lemma proceed_continues (isFree : EntryLock ID Name → Bool → Bool)
    (answer : (q : Question ID Name) → q.Answer) : (w.proceed isFree answer).group = w.group ∧
      ∀ c dest, (w.proceed isFree answer).phase = .waiting c dest → w.phase = .waiting c dest := by
  obtain ⟨group, -, -, phase⟩ := w
  cases phase with
  | locking start prog =>
    cases prog with
    | acquire lock write rest =>
      dsimp only [Worker.proceed]
      split_ifs
      · exact ⟨rfl, nofun⟩
      · exact ⟨rfl, nofun⟩
    | done => exact ⟨rfl, nofun⟩
    | release lock rest => exact ⟨rfl, nofun⟩
    | ask q next => exact ⟨rfl, nofun⟩
    | loop body => exact ⟨rfl, nofun⟩
    | restart => exact ⟨rfl, nofun⟩
  | running => exact ⟨rfl, nofun⟩
  | waiting child dest => exact ⟨rfl, fun c d h => h⟩
  | finished => exact ⟨rfl, nofun⟩

lemma step_waitsOk [OrderBot ID] (inodeHash : ID → ℕ × ℕ) {action : LockAction ID Name}
    (h : s.WaitsOk) (hforw : s.SendsForward action) : (s.step inodeHash action).WaitsOk := by
  cases action with
  | receive group msg => exact h.continues (continues_append (by rintro _ _ ⟨⟩))
  | proceed i answer =>
    rw [step]
    split
    · exact h
    · rename_i w hw
      obtain ⟨hgroup, hphase⟩ := proceed_continues (w := w) (s.isFree w.group) answer
      exact h.continues (continues_set hw hgroup hphase)
  | send i dest msg =>
    rw [step]
    split
    · exact h
    · rename_i w hw
      split_ifs
      · exact h.send hw (hforw w hw) rfl (by rintro _ _ ⟨⟩)
      · exact h
  | finish i =>
    rw [step]
    split
    · exact h
    · rename_i w hw
      split_ifs
      · have hset : Continues s ⟨s.workers.set i { w with held := [], phase := .finished }⟩ :=
          continues_set hw rfl (by simp)
        exact h.continues (hset.trans (continues_answered _ i))
      · exact h

/-! ## No circles -/

/-- In a run in which no message breaks the order of the locks of its server, and none is sent to a
group that waits for the sender's, no workers wait in a circle. -/
theorem noCycle_of_sendsForward [OrderBot ID] (inodeHash : ID → ℕ × ℕ) (isDir : ID → Bool)
    (hbot : isDir ⊥ = false) {actions : List (LockAction ID Name)}
    (hconsistent : ∀ action ∈ actions, Consistent isDir action) (hsteps : EveryStep (step inodeHash)
      (fun s action => s.LocksInOrder action ∧ s.SendsForward action)
      init actions) : EveryState (step inodeHash) NoCycle init actions := by
  refine everyState_of_everyStep
    (I := fun s => AllOk isDir s ∧ s.WaitsOk) ?_ ?_ ?_
    ((everyStep_of_forall hconsistent).and hsteps)
  · rintro s action ⟨hconsistent, hinOrder, hforw⟩ ⟨hlocks, hwaits⟩
    exact ⟨step_allOk inodeHash hbot hlocks hconsistent hinOrder,
      step_waitsOk inodeHash hwaits hforw⟩
  · -- within a group the order of the locks excludes circles, and the groups do not wait for each
    -- other in a circle
    rintro s ⟨hlocks, hwaits⟩ i
    refine not_transGen_of_layers (WantsBefore (fun lock => rank isDir lock.2) s.wants) s.groupOf
      (W := WaitsFor s.wants s.heldBy) (A := s.AwaitsAnswer) (E := s.GroupAwaits) ?_ ?_ ?_ ?_ ?_
      hwaits.acyclic i
    · rintro i j ⟨lock, _, _, hi, hj, -⟩
      rw [groupOf_of_wants hi, groupOf_of_mem_heldBy hj]
    · exact fun i j k hij hjk => hij.wantsBefore hlocks.wants_after hjk
    · exact fun i j k hij hjk => hij.trans hjk
    · exact fun i => WantsBefore.irrefl
    · rintro i j ⟨w, dest, hw, hphase⟩
      obtain ⟨v, hv, hgroup⟩ := hwaits.child i w j dest hw hphase
      have hi : s.groupOf i = w.group := by rw [groupOf, hw]
      have hj : s.groupOf j = dest := by rw [groupOf, hv, ← hgroup]
      rw [hi, hj]
      exact ⟨w, mem_of_getElem? hw, rfl, j, hphase⟩
  · refine ⟨nofun, nofun, ?_⟩
    intro g hcycle
    obtain ⟨_, ⟨w, hw, -⟩, -⟩ := Relation.TransGen.head'_iff.mp hcycle
    nomatch hw

/-- A hardlink in directory 10 of group 1 to a file in directory 20 of group 2, while an attribute
of that directory is set: the hardlink waits for group 2, where the message waits for the
directory. -/
theorem noCycle_hardlink :
    EveryState (step fun _ => (0, 0)) NoCycle init
      [.receive 1 (.hardlink 20 1 ⟨21, .file, true, 2⟩ 10 1), .receive 2 (.setAttr 20),
        .proceed 0 (answers .none), .proceed 0 (answers .none), .proceed 0 (answers .none),
        .proceed 0 (answers .none), .proceed 1 (answers .none),
        .send 0 2 (.moveFileInode 20 1 21), .proceed 2 (answers .none)] := by
  have hans : ∀ q : Question ℕ ℕ,
      AnswerOk (fun id => decide (id = 10 ∨ id = 20)) q (answers .none q) := by
    rintro (_ | _ | ⟨parentID, -⟩)
    · trivial
    · trivial
    · change InfoOk (fun id => decide (id = 10 ∨ id = 20)) parentID
        (if parentID = 5 then (.none : EntryInfo ℕ) else .none)
      rw [ite_self]
      exact rfl
  refine noCycle_of_sendsForward _ (fun id => decide (id = 10 ∨ id = 20)) (by decide) ?_ ?_
  · simp only [forall_mem_cons, Consistent]
    refine ⟨?_, ?_, hans, hans, hans, hans, hans, ?_, hans, by simp⟩
    · exact ⟨rfl, rfl⟩
    · trivial
    · exact ⟨rfl, rfl⟩
  · refine ⟨⟨trivial, trivial⟩, ⟨trivial, trivial⟩, ⟨?_, trivial⟩, ⟨?_, trivial⟩, ⟨?_, trivial⟩,
      ⟨?_, trivial⟩, ⟨?_, trivial⟩, ⟨trivial, ?_⟩, ⟨?_, trivial⟩, trivial⟩
    · rintro w start q next ⟨⟩ ⟨⟩
    · rintro w start q next ⟨⟩ ⟨⟩
    · rintro w start q next ⟨⟩ ⟨⟩
    · rintro w start q next ⟨⟩ ⟨⟩
    · rintro w start q next ⟨⟩ ⟨⟩
    · rintro w ⟨⟩ hback
      rcases Relation.ReflTransGen.cases_head hback with heq | ⟨g, ⟨v, hv, hgroup, c, hphase⟩, -⟩
      · cases heq
      · rcases mem_cons.mp hv with rfl | hv
        · cases hphase
        · obtain rfl := mem_singleton.mp hv
          cases hphase
    · rintro w start q next ⟨⟩ ⟨⟩

/-- Each of two groups makes a hardlink to a file of the other one: both hardlinks have locked their
directories and wait for the other group, where the messages that they have sent wait for these. -/
theorem crossing_hardlinks_deadlock :
    let s := runFrom (step fun _ => (0, 0)) init
      [.receive 1 (.hardlink 20 1 ⟨21, .file, true, 2⟩ 10 1),
        .receive 2 (.hardlink 10 2 ⟨11, .file, true, 1⟩ 20 2),
        .proceed 0 (answers .none), .proceed 0 (answers .none), .proceed 0 (answers .none),
        .proceed 0 (answers .none), .proceed 1 (answers .none), .proceed 1 (answers .none),
        .proceed 1 (answers .none), .proceed 1 (answers .none),
        .send 0 2 (.moveFileInode 20 1 21), .send 1 1 (.moveFileInode 10 2 11)]
    ¬ s.NoCycle := by
  intro s h
  have h02 : s.AwaitsAnswer 0 2 := ⟨_, _, rfl, rfl⟩
  have h21 : WaitsFor s.wants s.heldBy 2 1 := ⟨(2, .fileID 20), true, true, by decide⟩
  have h13 : s.AwaitsAnswer 1 3 := ⟨_, _, rfl, rfl⟩
  have h30 : WaitsFor s.wants s.heldBy 3 0 := ⟨(1, .fileID 10), true, true, by decide⟩
  exact h 0 (.tail (.tail (.tail (.single (.inr h02)) (.inl h21)) (.inr h13)) (.inl h30))

end LockSystem

end Beegfs.MetaLocks
