import Beegfs.Lib.Run

/-!
# Chunk balancing of a file

Slave threads take candidates, each of which moves the chunks of a file from a target to another
one. A thread locks the file, checks that the stripe pattern has the source and not the destination,
and starts a copy.  When the copy has ended, an `UpdateStripePattern` message replaces the source by
the destination.  Several candidates of a file are handled at the same time, since the lock store
counts references.

The checks of a thread do not see the copies that are under way.  `Balancer.distinct_of_exclusive`
says that the stripe targets stay distinct in all runs that start no copy to a target while another
one to this target is under way.
-/

namespace Beegfs.Striping

/-- How far a slave thread is with its candidate. -/
inductive SlavePhase where
  /-- The file is locked. -/
  | inserted
  /-- The source is in the pattern. -/
  | sourceFound
  /-- The copy is started, its result is not known yet. -/
  | waiting
  | finished
deriving DecidableEq

/-- How far the copy of a candidate is. -/
inductive CopyPhase where
  | notStarted
  | started
  /-- `UpdateStripePattern` was executed up to the release of the lock. -/
  | updated
  | done
deriving DecidableEq

/-- A candidate and what has become of it. -/
structure Task where
  source : ℕ
  dest : ℕ
  phase : SlavePhase
  copy : CopyPhase
deriving DecidableEq

/-- The entry of the file in the `GlobalInodeLockStore`, with the pattern of its inode. -/
structure LockEntry where
  stripeTargetIDs : List ℕ
  refCount : ℕ
deriving DecidableEq

/-- A file that is balanced: its pattern on disk, its entry in the lock store and the candidates. -/
structure Balancer where
  disk : List ℕ
  entry : Option LockEntry
  tasks : List Task

/-- The result of a copy, in the message. -/
inductive ResyncResult where
  | success
  | pathNotExists
  | failed
deriving DecidableEq

inductive BalanceAction where
  /-- A thread fetches a candidate and locks the file, if it can be accessed. -/
  | fetch (source dest : ℕ) (accessible : Bool)
  | findSource (task : ℕ)
  | findDestination (task : ℕ)
  /-- The thread learns whether the copy was started. -/
  | result (task : ℕ) (success : Bool)
  /-- `UpdateStripePattern` for the copy of the candidate: with what `checkChunkOnStorageTarget`
  finds, and whether the inode can be saved. -/
  | update (task : ℕ) (resyncResult : ResyncResult) (inactive saved : Bool)
  /-- `UpdateStripePattern` releases the lock. -/
  | release (task : ℕ)
  /-- The lock is too old. -/
  | timeout

/-- `std::replace` -/
def replaceTarget (stripeTargetIDs : List ℕ) (old new : ℕ) : List ℕ :=
  stripeTargetIDs.map fun id => if id = old then new else id

/-- `FileInode::modifyStripePattern` -/
def modifyStripePattern (stripeTargetIDs : List ℕ) (localTargetID destinationID : ℕ) :
    Option (List ℕ) :=
  if stripeTargetIDs.isEmpty ∨ localTargetID ∉ stripeTargetIDs then none
  else some (replaceTarget stripeTargetIDs localTargetID destinationID)

/-- The pattern is to be updated after a copy with this result. -/
def shouldUpdate (resyncResult : ResyncResult) (inactive : Bool) : Bool :=
  match resyncResult with
  | .success => true
  | .pathNotExists => inactive
  | .failed => false

section Replace

variable {stripeTargetIDs : List ℕ} {old new : ℕ}

/-- A target that is listed once is replaced at its position. -/
lemma replaceTarget_eq_set (hnodup : stripeTargetIDs.Nodup) {k : ℕ}
    (hk : stripeTargetIDs[k]? = some old) :
    replaceTarget stripeTargetIDs old new = stripeTargetIDs.set k new := by
  refine List.ext_getElem? fun j => ?_
  rw [replaceTarget, List.getElem?_map, List.getElem?_set]
  have hlt : k < stripeTargetIDs.length := (List.getElem?_eq_some_iff.mp hk).1
  by_cases hkj : k = j
  · rw [if_pos hlt, ← hkj, hk]
    simp
  · rw [if_neg hkj]
    cases hj : stripeTargetIDs[j]? with
    | none => rfl
    | some id =>
      have hne : id ≠ old := by
        rintro rfl
        exact hkj ((List.getElem?_inj hlt hnodup).mp (hk.trans hj.symm))
      simp [hne]

lemma nodup_replaceTarget (hnodup : stripeTargetIDs.Nodup) (hnew : new ∉ stripeTargetIDs) :
    (replaceTarget stripeTargetIDs old new).Nodup := by
  refine hnodup.map_on fun x hx y hy hxy => ?_
  split_ifs at hxy with hxold hyold hyold
  · exact hxold.trans hyold.symm
  · exact absurd (hxy ▸ hy) hnew
  · exact absurd (hxy ▸ hx) hnew
  · exact hxy

lemma modifyStripePattern_eq_some (hold : old ∈ stripeTargetIDs) :
    modifyStripePattern stripeTargetIDs old new = some (replaceTarget stripeTargetIDs old new) := by
  have hne : stripeTargetIDs.isEmpty = false := by
    cases stripeTargetIDs with
    | nil => nomatch hold
    | cons _ _ => rfl
  rw [modifyStripePattern, if_neg (by simp [hne, hold])]

end Replace

namespace Balancer

/-- A file with these stripe targets that is not locked. -/
def init (stripeTargetIDs : List ℕ) : Balancer := ⟨stripeTargetIDs, none, []⟩

variable (s : Balancer)

/-- `GlobalInodeLockStore::insertFileInode` -/
def insertFileInode : LockEntry :=
  match s.entry with
  | some e => { e with refCount := e.refCount + 1 }
  | none => ⟨s.disk, 1⟩

/-- `GlobalInodeLockStore::releaseFileInode` -/
def releaseFileInode : Balancer :=
  match s.entry with
  | some e => { s with entry := if e.refCount - 1 = 0 then none
                                else some { e with refCount := e.refCount - 1 } }
  | none => s

def setTask (i : ℕ) (t : Task) : Balancer := { s with tasks := s.tasks.set i t }

/-- `UpdateStripePatternMsgEx::executeLocally` up to the release of the lock. -/
def updateStripePattern (i : ℕ) (t : Task) (resyncResult : ResyncResult)
    (inactive saved : Bool) : Balancer :=
  match s.entry with
  | none => s.setTask i { t with copy := .done }
  | some e =>
    let s := s.setTask i { t with copy := .updated }
    if !shouldUpdate resyncResult inactive then s
    else
      match modifyStripePattern e.stripeTargetIDs t.source t.dest with
      | none => s
      | some stripeTargetIDs =>
        { s with
          entry := some { e with stripeTargetIDs }
          disk := if saved then stripeTargetIDs else s.disk }

/-- One step: of `ChunkBalancerMetaSlave::syncLoop`, of an update message, or of the timer. -/
def step : BalanceAction → Balancer
  | .fetch source dest accessible =>
    if source = 0 ∨ accessible = false then s
    else { s with
      entry := some s.insertFileInode
      tasks := s.tasks ++ [⟨source, dest, .inserted, .notStarted⟩] }
  | .findSource i =>
    match s.tasks[i]? with
    | none => s
    | some t =>
      if t.phase ≠ .inserted then s
      else
        match s.entry with
        | none => s.setTask i { t with phase := .finished }
        | some e =>
          if t.source ∉ e.stripeTargetIDs
          then (s.setTask i { t with phase := .finished }).releaseFileInode
          else s.setTask i { t with phase := .sourceFound }
  | .findDestination i =>
    match s.tasks[i]? with
    | none => s
    | some t =>
      if t.phase ≠ .sourceFound then s
      else
        match s.entry with
        | none => s.setTask i { t with phase := .finished }
        | some e =>
          if t.dest ∈ e.stripeTargetIDs
          then (s.setTask i { t with phase := .finished }).releaseFileInode
          else s.setTask i { t with phase := .waiting, copy := .started }
  | .result i success =>
    match s.tasks[i]? with
    | none => s
    | some t =>
      if t.phase ≠ .waiting then s
      else
        let s := s.setTask i { t with phase := .finished }
        if success then s else s.releaseFileInode
  | .update i resyncResult inactive saved =>
    match s.tasks[i]? with
    | none => s
    | some t =>
      if t.copy ≠ .started then s else s.updateStripePattern i t resyncResult inactive saved
  | .release i =>
    match s.tasks[i]? with
    | none => s
    | some t =>
      if t.copy ≠ .updated then s
      else (s.setTask i { t with copy := .done }).releaseFileInode
  | .timeout => s.releaseFileInode

/-! ## Distinct targets -/

/-- The pattern has no target twice, on disk and in memory. -/
def Distinct : Prop := s.disk.Nodup ∧ ∀ e ∈ s.entry, e.stripeTargetIDs.Nodup
  deriving Decidable

/-- An update that succeeds replaces its source by its destination at exactly one position. -/
def ReplacesOne : BalanceAction → Prop
  | .update i resyncResult inactive saved => ∀ t ∈ s.tasks[i]?, t.copy = .started → ∀ e ∈ s.entry,
    shouldUpdate resyncResult inactive = true → t.source ∈ e.stripeTargetIDs → saved = true →
    ∃! k, e.stripeTargetIDs[k]? = some t.source ∧
      (s.step (.update i resyncResult inactive saved)).disk = e.stripeTargetIDs.set k t.dest
  | _ => True

/-- A copy is only started if no other one to the same target is under way, and inodes are saved. -/
def Exclusive : BalanceAction → Prop
  | .findDestination i => ∀ t ∈ s.tasks[i]?, ∀ t' ∈ s.tasks, t'.copy = .started → t'.dest ≠ t.dest
  | .update _ _ _ saved => saved = true
  | _ => True

/-- The targets that copies are under way to. -/
def reserved (tasks : List Task) : List ℕ :=
  (tasks.filter fun t => decide (t.copy = .started)).map Task.dest

/-- The pattern in memory is the one on disk, and its targets and those of the copies are all
different. -/
structure Reserved : Prop where
  saved : ∀ e ∈ s.entry, e.stripeTargetIDs = s.disk
  nodup : (s.disk ++ reserved s.tasks).Nodup

variable {s : Balancer} {i : ℕ} {t t' : Task}

lemma Reserved.distinct (h : s.Reserved) : s.Distinct :=
  have hnodup := (List.nodup_append.mp h.nodup).1
  ⟨hnodup, fun e he => h.saved e he ▸ hnodup⟩

lemma Reserved.releaseFileInode (h : s.Reserved) : s.releaseFileInode.Reserved := by
  rw [Balancer.releaseFileInode]
  split
  · rename_i e he
    refine ⟨fun e' he' => ?_, h.nodup⟩
    split_ifs at he'
    · cases he'
    · obtain rfl := Option.some.inj he'
      exact h.saved e he
  · exact h

/-- The reserved targets before and behind that of a task, whatever the task is set to. -/
lemma exists_reserved (ht : s.tasks[i]? = some t) : ∃ pre post,
    (∀ t', reserved (s.tasks.set i t') =
      pre ++ ((if t'.copy = .started then [t'.dest] else []) ++ post)) ∧
    reserved s.tasks = pre ++ ((if t.copy = .started then [t.dest] else []) ++ post) := by
  obtain ⟨hlt, rfl⟩ := List.getElem?_eq_some_iff.mp ht
  have hset : ∀ t', reserved (s.tasks.set i t') = reserved (s.tasks.take i) ++
      ((if t'.copy = .started then [t'.dest] else []) ++ reserved (s.tasks.drop (i + 1))) := by
    intro t'
    rw [List.set_eq_take_append_cons_drop, if_pos hlt, reserved, List.filter_append,
      List.filter_cons]
    split_ifs <;> simp_all [reserved]
  refine ⟨_, _, hset, ?_⟩
  rw [← hset, List.set_getElem_self]

/-- A task that does not begin a copy is changed. -/
lemma Reserved.setTask (h : s.Reserved) (ht : s.tasks[i]? = some t)
    (hcopy : t'.copy = .started → t.copy = .started ∧ t'.dest = t.dest) :
    (s.setTask i t').Reserved := by
  obtain ⟨pre, post, hset, hself⟩ := exists_reserved ht
  refine ⟨h.saved, List.Nodup.sublist ?_ h.nodup⟩
  rw [hself, Balancer.setTask, hset]
  refine (List.Sublist.refl _).append ((List.Sublist.refl _).append
    (.append ?_ (List.Sublist.refl _)))
  by_cases hstarted : t'.copy = .started
  · simp [hstarted, hcopy hstarted]
  · simp [hstarted]

/-- A copy begins, to a target outside of the pattern that no other copy goes to. -/
lemma Reserved.start (h : s.Reserved) (ht : s.tasks[i]? = some t) (habsent : t.dest ∉ s.disk)
    (hother : ∀ t' ∈ s.tasks, t'.copy = .started → t'.dest ≠ t.dest) :
    (s.setTask i { t with phase := .waiting, copy := .started }).Reserved := by
  obtain ⟨pre, post, hset, hself⟩ := exists_reserved ht
  have hnot : t.dest ∉ reserved s.tasks := by
    intro hmem
    obtain ⟨u, hu, hdest⟩ := List.mem_map.mp hmem
    obtain ⟨hmem, hstarted⟩ := List.mem_filter.mp hu
    exact hother u hmem (of_decide_eq_true hstarted) hdest
  have hnodup := h.nodup
  refine ⟨h.saved, ?_⟩
  rw [Balancer.setTask, hset]
  rw [hself] at hnot hnodup
  grind

/-- An update replaces a target by the one of its own copy. -/
lemma Reserved.update (h : s.Reserved) (ht : s.tasks[i]? = some t) (hcopy : t.copy = .started)
    {ids : List ℕ} (hids : modifyStripePattern s.disk t.source t.dest = some ids) (refCount : ℕ) :
    Reserved { s.setTask i { t with copy := .updated } with
      entry := some ⟨ids, refCount⟩
      disk := ids } := by
  obtain ⟨pre, post, hset, hself⟩ := exists_reserved ht
  obtain rfl := Option.some.inj (Option.ite_none_left_eq_some.mp hids).2
  have hnodup := h.nodup
  refine ⟨fun e he => by rw [← Option.some.inj he], ?_⟩
  rw [Balancer.setTask, hset]
  rw [hself, if_pos hcopy] at hnodup
  have hdest : t.dest ∉ s.disk := by grind
  have hreplaced : (replaceTarget s.disk t.source t.dest).Nodup :=
    nodup_replaceTarget (List.nodup_append.mp hnodup).1 hdest
  have hmem : ∀ x ∈ replaceTarget s.disk t.source t.dest, x = t.dest ∨ x ∈ s.disk := by
    grind [replaceTarget]
  grind

/-- What one step preserves. -/
lemma Reserved.step (h : s.Reserved) {action : BalanceAction} (hexclusive : s.Exclusive action) :
    (s.step action).Reserved := by
  cases action with
  | fetch source dest accessible =>
    rw [Balancer.step]
    split_ifs
    · exact h
    · refine ⟨fun e he => ?_, by simpa [reserved] using h.nodup⟩
      obtain rfl := Option.some.inj he
      rw [insertFileInode]
      split
      · rename_i e he
        exact h.saved e he
      · rfl
  | findSource i | result i success | release i =>
    rw [Balancer.step]
    repeat' split
    all_goals first
      | exact h
      | exact h.setTask ‹_› (by simp)
      | exact (h.setTask ‹_› (by simp)).releaseFileInode
  | findDestination i =>
    rw [Balancer.step]
    split
    · exact h
    · rename_i t ht
      split_ifs
      · exact h
      split
      · exact h.setTask ht (by simp)
      · rename_i e he
        split_ifs with hdest
        · exact (h.setTask ht (by simp)).releaseFileInode
        · exact h.start ht (h.saved e he ▸ hdest) (hexclusive t ht)
  | update i resyncResult inactive saved =>
    obtain rfl : saved = true := hexclusive
    rw [Balancer.step]
    split
    · exact h
    · rename_i t ht
      split_ifs with hcopy
      · exact h
      rw [updateStripePattern]
      split
      · exact h.setTask ht (by simp)
      · rename_i e he
        dsimp only
        split
        · exact h.setTask ht (by simp)
        split
        · exact h.setTask ht (by simp)
        · exact h.update ht (not_not.mp hcopy) (h.saved e he ▸ ‹_›) e.refCount
  | timeout => exact h.releaseFileInode

/-- An update of a pattern without repeated targets replaces one position. -/
lemma Distinct.replacesOne (h : s.Distinct) (action : BalanceAction) : s.ReplacesOne action := by
  cases action with
  | update i resyncResult inactive saved =>
    intro t ht hcopy e he hshld hsrc hsaved
    rw [Option.mem_def] at ht he
    have hnodup := h.2 e he
    obtain ⟨k, hk⟩ := List.getElem?_of_mem hsrc
    refine ⟨k, ⟨hk, ?_⟩, fun j hj => ?_⟩
    · simp [Balancer.step, updateStripePattern, ht, he, hcopy, hshld, hsaved,
        modifyStripePattern_eq_some hsrc, replaceTarget_eq_set hnodup hk]
    · have hlt := (List.getElem?_eq_some_iff.mp hj.1).1
      exact (List.getElem?_inj hlt hnodup).mp (hj.1.trans hk.symm)
  | _ => trivial

/-- The targets stay distinct, and updates replace one position, in all runs in which copies to one
target follow each other. -/
theorem distinct_of_exclusive {stripeTargetIDs : List ℕ} (hnodup : stripeTargetIDs.Nodup)
    {actions : List BalanceAction} (h : EveryStep step Exclusive (init stripeTargetIDs) actions) :
    EveryStep step (fun s action => (s.step action).Distinct ∧ s.ReplacesOne action)
      (init stripeTargetIDs) actions := by
  refine h.imp_of_invariant (I := Reserved) (fun _ _ hexclusive h => h.step hexclusive)
    (fun _ action hexclusive h => ⟨(h.step hexclusive).distinct, h.distinct.replacesOne action⟩)
    ⟨by rintro e ⟨⟩, ?_⟩
  rw [init, reserved, List.filter_nil, List.map_nil, List.append_nil]
  exact hnodup

instance (s : Balancer) : DecidablePred s.Exclusive
  | .findDestination i => inferInstanceAs (Decidable (∀ t ∈ s.tasks[i]?, ∀ t' ∈ s.tasks,
      t'.copy = .started → t'.dest ≠ t.dest))
  | .update _ _ _ saved => inferInstanceAs (Decidable (saved = true))
  | .fetch .. | .findSource .. | .result .. | .release .. | .timeout => isTrue trivial

/-- Two stripes are moved to two targets at the same time. -/
theorem distinct_two_copies :
    [1, 2].Nodup ∧ EveryStep step (fun s action => (s.step action).Distinct ∧ s.ReplacesOne action)
      (init [1, 2]) [.fetch 1 3 true, .fetch 2 4 true, .findSource 0, .findSource 1,
        .findDestination 0, .findDestination 1, .result 0 true, .update 1 .success false true,
        .result 1 true, .update 0 .success false true, .release 1, .release 0] :=
  ⟨by decide, distinct_of_exclusive (by decide) (by decide)⟩

/-- Two stripes are moved to target 3 at the same time: both checks pass before the first update. -/
theorem merges_two_stripes :
    ¬ EveryStep step (fun s action => (s.step action).Distinct ∧ s.ReplacesOne action)
      (init [1, 2]) [.fetch 1 3 true, .fetch 2 3 true, .findSource 0, .findSource 1,
        .findDestination 0, .findDestination 1, .result 0 true, .result 1 true,
        .update 0 .success false true, .release 0, .update 1 .success false true] := by
  intro h
  have hlast : Distinct (runFrom step (init [1, 2]) [.fetch 1 3 true, .fetch 2 3 true,
      .findSource 0, .findSource 1, .findDestination 0, .findDestination 1, .result 0 true,
      .result 1 true, .update 0 .success false true, .release 0, .update 1 .success false true]) :=
    h.2.2.2.2.2.2.2.2.2.2.1.1
  nomatch hlast

end Balancer

end Beegfs.Striping
