import Beegfs.Lib.Run
import Beegfs.Nodes.MirrorBuddyGroupMapper

/-!
# Concurrent changes of mirror groups

Any number of threads call `mapMirrorBuddyGroup` and `unmapMirrorBuddyGroup` of one mapper.  A call
looks up the groups of its two targets before it takes the write lock, so that other calls can store
groups in between.  `GroupSystem.valid_of_storesUnchecked` says that a target is in one group only,
in every state of every run, if no call stores a target that another one has looked up and not yet
stored.
-/

namespace Beegfs.Nodes

open Function

/-- What a thread does: nothing, a call of `mapMirrorBuddyGroup` at some stage, or nothing after the
call returned. -/
inductive GroupThread where
  | idle
  | inCall (call : MapCall) (stage : MapStage)
  | returned (call : MapCall) (result : MapResult)
deriving DecidableEq

/-- A mapper and the threads that use it. -/
structure GroupSystem where
  mapper : MirrorBuddyGroupMapper
  threads : ℕ → GroupThread

inductive GroupAction where
  /-- A thread that is in no call begins one. -/
  | start (thread : ℕ) (call : MapCall)
  /-- A thread runs the next section of its call. -/
  | runSection (thread : ℕ) (known : ℕ → Bool)
  /-- A thread calls `unmapMirrorBuddyGroup`, which is one section. -/
  | unmap (buddyGroupID localNodeID : ℕ)

namespace GroupSystem

/-- No groups, and no calls. -/
def init : GroupSystem := ⟨.empty, fun _ => .idle⟩

/-- The thread after a section of its call. -/
def afterSection (call : MapCall) : SectionEnd → GroupThread
  | .next stage => .inCall call stage
  | .returns result => .returned call result

/-- One step of the system. -/
def step (check : TargetCheck) (s : GroupSystem) : GroupAction → GroupSystem
  | .start thread call =>
    match s.threads thread with
    | .inCall _ _ => s
    | _ => { s with threads := Function.update s.threads thread (.inCall call .checkID) }
  | .runSection thread known =>
    match s.threads thread with
    | .inCall call stage =>
      let (sectionEnd, mapper) := call.runSection check known s.mapper stage
      ⟨mapper, Function.update s.threads thread (afterSection call sectionEnd)⟩
    | _ => s
  | .unmap buddyGroupID localNodeID =>
    { s with mapper := (s.mapper.unmapMirrorBuddyGroup buddyGroupID localNodeID).2 }

/-! ## Properties of runs -/

variable (s : GroupSystem)

/-- No target is in two groups, the targets of a group differ, and no group has the id 0. -/
def Valid : Prop := GroupsValid s.mapper.mirrorBuddyGroups

/-- A call for a new group that returns success has stored it under a free id. -/
def StoresUnderFreeID (check : TargetCheck) (s : GroupSystem) : GroupAction → Prop
  | .runSection thread known => ∀ call stage, s.threads thread = .inCall call stage →
      call.buddyGroupID = 0 →
      (s.step check (.runSection thread known)).threads thread = .returned call .success →
      ∃ id, (∀ g, (id, g) ∉ s.mapper.mirrorBuddyGroups) ∧
        (s.step check (.runSection thread known)).mapper.mirrorBuddyGroups =
          s.mapper.mirrorBuddyGroups.set id call.group
  | _ => True

/-- Arguments of calls are 16-bit numbers. -/
def ArgsValid : GroupAction → Prop
  | .start _ call => call.buddyGroupID < 65536 ∧ ∀ t, call.group.Has t → t < 65536
  | _ => True

/-- At the stage, the call has looked up the group of the target. -/
def HasChecked (call : MapCall) (targetID : ℕ) : MapStage → Prop
  | .secondaryGroup => call.primaryTargetID = targetID
  | .store => call.group.Has targetID
  | _ => False

/-- A call does not store targets that another one has looked up, to store them later. -/
def StoresUnchecked : GroupAction → Prop
  | .runSection thread _ => ∀ call, s.threads thread = .inCall call .store →
      ∀ other ≠ thread, ∀ call' stage t, s.threads other = .inCall call' stage →
        HasChecked call' t stage → ¬ call.group.Has t
  | _ => True

/-! ## Invariant -/

/-- What is known of a call at a stage: the targets that it has looked up are in no other group. -/
structure CallInvariant (groups : OrdMap ℕ MirrorBuddyGroup) (call : MapCall) (stage : MapStage) :
    Prop where
  id_lt : call.buddyGroupID < 65536
  target_lt : ∀ t, call.group.Has t → t < 65536
  differ : stage ≠ .checkID → call.primaryTargetID ≠ call.secondaryTargetID
  free : ∀ t, HasChecked call t stage → ∀ i g, (i, g) ∈ groups → g.Has t → i = call.buddyGroupID

structure Invariant : Prop where
  valid : GroupsValid s.mapper.mirrorBuddyGroups
  bounded : GroupsBounded s.mapper.mirrorBuddyGroups
  calls : ∀ thread call stage, s.threads thread = .inCall call stage →
    CallInvariant s.mapper.mirrorBuddyGroups call stage

variable {stage : MapStage}

lemma CallInvariant.mono {groups groups' : OrdMap ℕ MirrorBuddyGroup} {call : MapCall}
    (h : CallInvariant groups call stage)
    (hsub : ∀ t, HasChecked call t stage → ∀ i g, (i, g) ∈ groups' → g.Has t → (i, g) ∈ groups) :
    CallInvariant groups' call stage where
  id_lt := h.id_lt
  target_lt := h.target_lt
  differ := h.differ
  free t ht i g hmem hhas := h.free t ht i g (hsub t ht i g hmem hhas) hhas

open MirrorBuddyGroupMapper

open MapCall

/-- Until it stores its group, a call changes nothing, and it goes on only if what it has looked up
is in no other group. -/
lemma runSection_of_ne_store {call : MapCall} (hstage : stage ≠ .store)
    (check : TargetCheck) (known : ℕ → Bool) {m : MirrorBuddyGroupMapper}
    (hvalid : GroupsValid m.mirrorBuddyGroups)
    (hcall : CallInvariant m.mirrorBuddyGroups call stage) :
    (call.runSection check known m stage).2 = m ∧
      (call.runSection check known m stage).1 ≠ .returns .success ∧
      ∀ stage', (call.runSection check known m stage).1 = .next stage' →
        CallInvariant m.mirrorBuddyGroups call stage' := by
  have herror : ∀ known, check.error known ≠ some .success := by
    intro known
    cases check <;> cases known <;> decide
  cases stage with
  | checkID =>
    rw [runSection]
    split_ifs with hexists hsame
    · exact ⟨rfl, by simp, by simp⟩
    · exact ⟨rfl, by simp, by simp⟩
    · refine ⟨rfl, by simp, ?_⟩
      rintro stage' ⟨⟩
      exact ⟨hcall.id_lt, hcall.target_lt, fun _ => hsame, by rintro _ ⟨⟩⟩
  | primaryExists | secondaryExists =>
    rw [runSection]
    split
    · rename_i error hsome
      refine ⟨rfl, ?_, by simp⟩
      rintro ⟨⟩
      exact herror _ hsome
    · refine ⟨rfl, by simp, ?_⟩
      rintro stage' ⟨⟩
      exact ⟨hcall.id_lt, hcall.target_lt, fun _ => hcall.differ (by simp), by rintro _ ⟨⟩⟩
  | primaryGroup =>
    rw [runSection]
    split_ifs with hinUse
    · exact ⟨rfl, by simp, by simp⟩
    · refine ⟨rfl, by simp, ?_⟩
      rintro stage' ⟨⟩
      refine ⟨hcall.id_lt, hcall.target_lt, fun _ => hcall.differ (by simp), ?_⟩
      rintro t rfl
      exact (isInUse_eq_false_iff hvalid).mp (eq_false_of_ne_true hinUse)
  | secondaryGroup =>
    rw [runSection]
    split_ifs with hinUse
    · exact ⟨rfl, by simp, by simp⟩
    · refine ⟨rfl, by simp, ?_⟩
      rintro stage' ⟨⟩
      refine ⟨hcall.id_lt, hcall.target_lt, fun _ => hcall.differ (by simp), ?_⟩
      rintro t (rfl | rfl)
      · exact hcall.free _ rfl
      · exact (isInUse_eq_false_iff hvalid).mp (eq_false_of_ne_true hinUse)
  | store => exact absurd rfl hstage

section Steps

variable {check : TargetCheck} {s : GroupSystem} {thread : ℕ}

/-- What has to be shown of the calls after one thread has moved. -/
lemma calls_update {groups : OrdMap ℕ MirrorBuddyGroup} {threads : ℕ → GroupThread}
    {after : GroupThread}
    (hafter : ∀ call stage, after = .inCall call stage → CallInvariant groups call stage)
    (hoth : ∀ other ≠ thread, ∀ call stage, threads other = .inCall call stage →
      CallInvariant groups call stage)
    (other : ℕ) (call : MapCall) (stage : MapStage)
    (hother : Function.update threads thread after other = .inCall call stage) :
    CallInvariant groups call stage := by
  by_cases heq : other = thread
  · rw [heq, update_self] at hother
    exact hafter call stage hother
  · rw [update_of_ne heq] at hother
    exact hoth other heq call stage hother

variable {call : MapCall}

lemma step_of_inCall (hcall : s.threads thread = .inCall call stage) (known : ℕ → Bool) :
    s.step check (.runSection thread known) =
      ⟨(call.runSection check known s.mapper stage).2, Function.update s.threads thread
        (afterSection call (call.runSection check known s.mapper stage).1)⟩ := by
  rw [step, hcall]

variable {known : ℕ → Bool} (h : s.Invariant)

include h

lemma step_start
    (hargs : ArgsValid (.start thread call)) : (s.step check (.start thread call)).Invariant := by
  rw [step]
  split
  · exact h
  · refine ⟨h.valid, h.bounded, calls_update ?_ fun other _ => h.calls other⟩
    rintro _ _ ⟨⟩
    exact ⟨hargs.1, hargs.2, fun hne => absurd rfl hne, nofun⟩

lemma step_unmap {buddyGroupID localNodeID : ℕ} :
    (s.step check (.unmap buddyGroupID localNodeID)).Invariant := by
  have hsub : ∀ i g, (i, g) ∈ (s.mapper.unmapMirrorBuddyGroup buddyGroupID
      localNodeID).2.mirrorBuddyGroups → (i, g) ∈ s.mapper.mirrorBuddyGroups :=
    fun i g hmem => (mem_unmapMirrorBuddyGroup.mp hmem).2
  refine ⟨h.valid.mono hsub, h.bounded.mono hsub, fun thread call stage hcall => ?_⟩
  exact (h.calls thread call stage hcall).mono fun _ _ i g hmem _ => hsub i g hmem

lemma step_runSection (hunchecked : s.StoresUnchecked (.runSection thread known)) :
    (s.step check (.runSection thread known)).Invariant := by
  rcases hthr : s.threads thread with _ | ⟨call, stage⟩ | _
  · rw [step, hthr]
    exact h
  · by_cases hstage : stage = .store
    · rw [hstage] at hthr
      have hinv := h.calls thread call .store hthr
      rw [step_of_inCall hthr]
      refine ⟨?_, ?_, calls_update nofun fun other hne call' stage hother => ?_⟩
      · refine store_valid h.valid h.bounded (hinv.differ nofun) ?_
        intro i g t hmem hhas ht
        exact hinv.free t ht i g hmem hhas
      · exact store_bounded h.bounded hinv.id_lt hinv.target_lt
      · refine (h.calls other call' stage hother).mono fun t ht i g hmem hhas => ?_
        rcases OrdMap.mem_set.mp hmem with ⟨-, rfl⟩ | ⟨-, hmem⟩
        · exact absurd hhas (hunchecked call hthr other hne call' stage t hother ht)
        · exact hmem
    · obtain ⟨hmapper, -, hnext⟩ := runSection_of_ne_store hstage check known h.valid
        (h.calls thread call stage hthr)
      rw [step_of_inCall hthr, hmapper]
      refine ⟨h.valid, h.bounded, calls_update ?_ fun other _ => h.calls other⟩
      intro call' stage' hafter
      rcases hend : (call.runSection check known s.mapper stage).1 with next | result
      · rw [hend] at hafter
        cases hafter
        exact hnext _ hend
      · rw [hend] at hafter
        nomatch hafter
  · rw [step, hthr]
    exact h

lemma step_invariant {action : GroupAction} (hargs : ArgsValid action)
    (hunchecked : s.StoresUnchecked action) : (s.step check action).Invariant := by
  cases action with
  | start thread call => exact step_start h hargs
  | runSection thread known => exact step_runSection h hunchecked
  | unmap buddyGroupID localNodeID => exact step_unmap h

/-- A free id is found for a new group. -/
lemma storesUnderFreeID (action : GroupAction) : s.StoresUnderFreeID check action := by
  cases action with
  | start thread call => trivial
  | unmap buddyGroupID localNodeID => trivial
  | runSection thread known =>
    intro call stage hthr hzero hret
    -- A thread whose section returns success has stored its group.
    have hstore : stage = .store := by
      by_contra hne
      obtain ⟨-, hnot, -⟩ := runSection_of_ne_store hne check known h.valid
        (h.calls thread call stage hthr)
      rw [step_of_inCall hthr] at hret
      dsimp only at hret
      rw [update_self] at hret
      rcases hend : (call.runSection check known s.mapper stage).1 with next | result
      · rw [hend] at hret
        nomatch hret
      · rw [hend] at hret hnot
        cases hret
        exact hnot rfl
    rw [hstore] at hthr
    rw [step_of_inCall hthr]
    refine ⟨s.mapper.generateID, ?_, ?_⟩
    · rcases generateID_cases h.bounded.id_lt with hfree | hnone
      · exact hfree.2.2
      · exact absurd hnone.1 (generateID_ne_zero h.valid h.bounded)
    · simp [runSection, store, storeID, hzero]

end Steps

lemma init_invariant : init.Invariant where
  valid := groupsValid_empty
  bounded := groupsBounded_empty
  calls _ _ _ := nofun

/-- In a run in which no call stores a target that another one has looked up and not yet stored, no
target is ever in two groups, and every new group gets a free id. -/
theorem valid_of_storesUnchecked (check : TargetCheck) {actions : List GroupAction}
    (hargs : ∀ action ∈ actions, ArgsValid action)
    (hunchecked : EveryStep (step check) StoresUnchecked init actions) :
    EveryState (step check) Valid init actions ∧
      EveryStep (step check) (StoresUnderFreeID check) init actions := by
  have hboth := (everyStep_of_forall hargs).and hunchecked
  constructor
  · refine everyState_of_everyStep (I := Invariant) ?_ ?_ init_invariant hboth
    · intro s action hC h
      exact step_invariant h hC.1 hC.2
    · intro s h
      exact h.valid
  · refine hboth.imp_of_invariant (I := Invariant) ?_ ?_ init_invariant
    · intro s action hC h
      exact step_invariant h hC.1 hC.2
    · intro s action _ h
      exact storesUnderFreeID h action

/-- Two calls with different targets at the same time. -/
theorem valid_two_groups :
    let actions : List GroupAction := [.start 0 ⟨0, 1, 2, 1, true⟩, .start 1 ⟨0, 3, 4, 1, true⟩,
      .runSection 0 fun _ => true, .runSection 1 fun _ => true, .runSection 0 fun _ => true,
      .runSection 1 fun _ => true, .runSection 0 fun _ => true, .runSection 1 fun _ => true,
      .runSection 0 fun _ => true, .runSection 1 fun _ => true, .runSection 0 fun _ => true,
      .runSection 1 fun _ => true, .runSection 0 fun _ => true, .runSection 1 fun _ => true]
    (runFrom (step .usableNodes) init actions).mapper.mirrorBuddyGroups.entries =
        [(1, ⟨1, 2⟩), (2, ⟨3, 4⟩)] ∧ EveryState (step .usableNodes) Valid init actions ∧
      EveryStep (step .usableNodes) (StoresUnderFreeID .usableNodes) init actions := by
  refine ⟨by decide, valid_of_storesUnchecked .usableNodes ?_ ?_⟩
  · simp [ArgsValid, group, MirrorBuddyGroup.Has, or_imp, forall_and]
  · refine ⟨trivial, trivial, fun _ => nofun, fun _ => nofun, fun _ => nofun, fun _ => nofun,
      fun _ => nofun, fun _ => nofun, fun _ => nofun, fun _ => nofun, fun _ => nofun,
        fun _ => nofun, ?_, ?_, trivial⟩
    · rintro call ⟨⟩ (_ | _ | other) hother call' stage t ⟨⟩
      · exact absurd rfl hother
      · rintro (rfl | rfl) <;> decide
    · rintro call ⟨⟩ (_ | _ | other) hother call' stage t ⟨⟩
      exact absurd rfl hother

/-- Two calls that look up a target before either of them stores it. -/
theorem target_in_two_groups :
    let s := runFrom (step .usableNodes) init [.start 0 ⟨0, 1, 2, 1, true⟩,
      .start 1 ⟨0, 1, 3, 1, true⟩, .runSection 0 fun _ => true, .runSection 0 fun _ => true,
      .runSection 0 fun _ => true, .runSection 0 fun _ => true, .runSection 0 fun _ => true,
      .runSection 1 fun _ => true, .runSection 1 fun _ => true, .runSection 1 fun _ => true,
      .runSection 1 fun _ => true, .runSection 1 fun _ => true, .runSection 0 fun _ => true,
      .runSection 1 fun _ => true]
    s.mapper.mirrorBuddyGroups.entries = [(1, ⟨1, 2⟩), (2, ⟨1, 3⟩)] ∧
      s.threads 0 = .returned ⟨0, 1, 2, 1, true⟩ .success ∧
      s.threads 1 = .returned ⟨0, 1, 3, 1, true⟩ .success ∧ ¬ s.Valid := by
  intro s
  have hents : s.mapper.mirrorBuddyGroups.entries = [(1, ⟨1, 2⟩), (2, ⟨1, 3⟩)] := by decide
  refine ⟨hents, by decide, by decide, fun hvalid => ?_⟩
  have hfirst : (1, ⟨1, 2⟩) ∈ s.mapper.mirrorBuddyGroups := by
    rw [OrdMap.mem_def]
    decide
  have hsnd : (2, ⟨1, 3⟩) ∈ s.mapper.mirrorBuddyGroups := by
    rw [OrdMap.mem_def]
    decide
  nomatch hvalid.one hfirst hsnd (.inl rfl) (.inl rfl)

end GroupSystem

end Beegfs.Nodes
