import Beegfs.Lib.OrdMap

/-!
# Groups of mirrored targets

`MirrorBuddyGroupMapper` maps the ids of mirror groups to pairs of targets, or of nodes if the
targets are those of metadata servers.  Target and group ids are 16-bit numbers and no group has the
id 0, which stands for no group.  The sanity checks of `mapMirrorBuddyGroup` each take the lock for
themselves, so that a call is a sequence of sections, `MapCall.runSection`.  `generateID_ne_zero`
says that a free id is always found: two groups have no target in common, and there are not enough
targets to use up all ids.
-/

namespace Beegfs.Nodes

open OrdMap List

structure MirrorBuddyGroup where
  firstTargetID : ℕ := 0
  secondTargetID : ℕ := 0
deriving DecidableEq, Inhabited

/-- The target is one of the two of the group. -/
def MirrorBuddyGroup.Has (group : MirrorBuddyGroup) (targetID : ℕ) : Prop :=
  group.firstTargetID = targetID ∨ group.secondTargetID = targetID
  deriving Decidable

/-- What `mapMirrorBuddyGroup` returns, an `FhgfsOpsErr`. -/
inductive MapResult where
  | success
  | exists
  | inval
  | unknownTarget
  | unknownNode
  | inUse
deriving DecidableEq

/-- Where a mapper looks up the targets of a new group: in the map of storage targets, in the store
of metadata nodes, or nowhere. -/
inductive TargetCheck where
  | targetMapper
  | usableNodes
  | nowhere
deriving DecidableEq

/-- The error for a target, if there is one. -/
def TargetCheck.error (check : TargetCheck) (known : Bool) : Option MapResult :=
  match check with
  | .targetMapper => if known then none else some .unknownTarget
  | .usableNodes => if known then none else some .unknownNode
  | .nowhere => none

structure MirrorBuddyGroupMapper where
  mirrorBuddyGroups : OrdMap ℕ MirrorBuddyGroup
  /-- The group of the local node, 0 if it is in none. -/
  localGroupID : ℕ

/-- The arguments of `mapMirrorBuddyGroup`. -/
structure MapCall where
  buddyGroupID : ℕ
  primaryTargetID : ℕ
  secondaryTargetID : ℕ
  localNodeID : ℕ
  allowUpdate : Bool
deriving DecidableEq

/-- The group that the call stores. -/
def MapCall.group (call : MapCall) : MirrorBuddyGroup :=
  ⟨call.primaryTargetID, call.secondaryTargetID⟩

namespace MirrorBuddyGroupMapper

/-! ## Operations -/

/-- A mapper without groups. -/
def empty : MirrorBuddyGroupMapper := ⟨.empty, 0⟩

/-- The search of `generateID` among the ids of the groups: after the last one, before the first
one, and in the gaps. -/
def generateFrom (ids : List ℕ) : ℕ :=
  match ids.head?, ids.getLast? with
  | some first, some last =>
    if last < 65535 then last + 1
    else if 1 < first then 1
    else
      match adjacentFind (fun a b => a + 1 < b) ids with
      | some id => id + 1
      | none => 0
  | _, _ => 1

variable (m : MirrorBuddyGroupMapper)

/-- `generateID` -/
def generateID : ℕ := generateFrom (m.mirrorBuddyGroups.entries.map Prod.fst)

/-- `getBuddyGroupID` -/
def getBuddyGroupID (targetID : ℕ) : ℕ :=
  match m.mirrorBuddyGroups.entries.find? fun e => e.2.Has targetID with
  | some e => e.1
  | none => 0

/-- The target is in another group than the one of the call. -/
def isInUse (targetID buddyGroupID : ℕ) : Bool :=
  let inGroup := m.getBuddyGroupID targetID
  0 < inGroup ∧ inGroup ≠ buddyGroupID

/-- The id under which a call stores its group. -/
def storeID (call : MapCall) : ℕ :=
  if call.buddyGroupID = 0 then m.generateID else call.buddyGroupID

/-- What `mapMirrorBuddyGroup` does under the write lock. -/
def store (call : MapCall) : MirrorBuddyGroupMapper where
  mirrorBuddyGroups := m.mirrorBuddyGroups.set (m.storeID call) call.group
  localGroupID :=
    if call.group.Has call.localNodeID then m.storeID call else m.localGroupID

/-- `unmapMirrorBuddyGroup` -/
def unmapMirrorBuddyGroup (buddyGroupID localNodeID : ℕ) : Bool × MirrorBuddyGroupMapper :=
  -- With a local group, the group of the id is read with `[]`, which stores a default one if there
  -- is none.
  let group := (m.mirrorBuddyGroups.find buddyGroupID).getD {}
  let groups := if m.localGroupID ≠ 0 then m.mirrorBuddyGroups.set buddyGroupID group
    else m.mirrorBuddyGroups
  let localGroupID := if m.localGroupID ≠ 0 ∧ group.Has localNodeID then 0 else m.localGroupID
  let numErased := (groups.find buddyGroupID).isSome
  (numErased, ⟨groups.erase buddyGroupID, localGroupID⟩)

/-- The new map of `syncGroupsFromLists`, and the group of the local node in it, 0 if there is
none. -/
def newGroups (localNodeID : ℕ) (entries : List (ℕ × MirrorBuddyGroup)) :
    OrdMap ℕ MirrorBuddyGroup × ℕ :=
  entries.foldl (fun new e =>
    (new.1.set e.1 e.2, if e.2.Has localNodeID then e.1 else new.2)) (.empty, 0)

/-- `syncGroupsFromLists` -/
def syncGroupsFromLists (buddyGroupIDs : List ℕ) (buddyGroups : List MirrorBuddyGroup)
    (localNodeID : ℕ) : MirrorBuddyGroupMapper :=
  let new := newGroups localNodeID (buddyGroupIDs.zip buddyGroups)
  ⟨new.1, if new.2 ≠ 0 then new.2 else m.localGroupID⟩

end MirrorBuddyGroupMapper

/-! ## Sections of a call -/

/-- The section that a call of `mapMirrorBuddyGroup` is to run next. -/
inductive MapStage where
  | checkID
  | primaryExists
  | secondaryExists
  | primaryGroup
  | secondaryGroup
  | store
deriving DecidableEq

/-- What a section ends with: the next one, or the result of the call. -/
inductive SectionEnd where
  | next (stage : MapStage)
  | returns (result : MapResult)
deriving DecidableEq

/-- One section of `mapMirrorBuddyGroup`.  `known` has the targets, or nodes, that exist. -/
def MapCall.runSection (call : MapCall) (check : TargetCheck) (known : ℕ → Bool)
    (m : MirrorBuddyGroupMapper) : MapStage → SectionEnd × MirrorBuddyGroupMapper
  | .checkID =>
    -- The map is read without the lock.
    if call.buddyGroupID ≠ 0 ∧ ¬ call.allowUpdate ∧
      (m.mirrorBuddyGroups.find call.buddyGroupID).isSome
    then (.returns .exists, m)
    else if call.primaryTargetID = call.secondaryTargetID then (.returns .inval, m)
    else (.next .primaryExists, m)
  | .primaryExists =>
    match check.error (known call.primaryTargetID) with
    | some error => (.returns error, m)
    | none => (.next .secondaryExists, m)
  | .secondaryExists =>
    match check.error (known call.secondaryTargetID) with
    | some error => (.returns error, m)
    | none => (.next .primaryGroup, m)
  | .primaryGroup =>
    if m.isInUse call.primaryTargetID call.buddyGroupID then (.returns .inUse, m)
    else (.next .secondaryGroup, m)
  | .secondaryGroup =>
    if m.isInUse call.secondaryTargetID call.buddyGroupID then (.returns .inUse, m)
    else (.next .store, m)
  | .store => (.returns .success, m.store call)

namespace MirrorBuddyGroupMapper

variable (m : MirrorBuddyGroupMapper)

/-- The error of the sanity checks of `mapMirrorBuddyGroup`, if there is one. -/
def refusal (check : TargetCheck) (known : ℕ → Bool) (call : MapCall) : Option MapResult :=
  if call.buddyGroupID ≠ 0 ∧ ¬ call.allowUpdate ∧
    (m.mirrorBuddyGroups.find call.buddyGroupID).isSome
  then some .exists
  else if call.primaryTargetID = call.secondaryTargetID then some .inval
  else
    match check.error (known call.primaryTargetID), check.error (known call.secondaryTargetID) with
    | some error, _ => some error
    | none, some error => some error
    | none, none =>
      if m.isInUse call.primaryTargetID call.buddyGroupID then some .inUse
      else if m.isInUse call.secondaryTargetID call.buddyGroupID then some .inUse
      else none

/-- `mapMirrorBuddyGroup`, with nothing between its sections -/
def mapMirrorBuddyGroup (check : TargetCheck) (known : ℕ → Bool) (call : MapCall) :
    MapResult × MirrorBuddyGroupMapper :=
  match m.refusal check known call with
  | some error => (error, m)
  | none => (.success, m.store call)

end MirrorBuddyGroupMapper

/-- At most `n` sections of a call that run one after the other, until one returns. -/
def MapCall.runSections (call : MapCall) (check : TargetCheck) (known : ℕ → Bool) :
    ℕ → MapStage → MirrorBuddyGroupMapper → Option (MapResult × MirrorBuddyGroupMapper)
  | 0, _, _ => none
  | n + 1, stage, m =>
    match call.runSection check known m stage with
    | (.returns result, m) => some (result, m)
    | (.next stage, m) => runSections call check known n stage m

/-- A call that nothing interrupts is the composition of its sections. -/
lemma MapCall.runSections_eq (call : MapCall) (check : TargetCheck) (known : ℕ → Bool)
    (m : MirrorBuddyGroupMapper) :
    call.runSections check known 6 .checkID m = some (m.mapMirrorBuddyGroup check known call) := by
  unfold MirrorBuddyGroupMapper.mapMirrorBuddyGroup MirrorBuddyGroupMapper.refusal
  by_cases hid : call.buddyGroupID ≠ 0 ∧ ¬ call.allowUpdate ∧
      (m.mirrorBuddyGroups.find call.buddyGroupID).isSome
  · simp only [runSections, runSection, if_pos hid]
  by_cases hsame : call.primaryTargetID = call.secondaryTargetID
  · simp only [runSections, runSection, if_neg hid, if_pos hsame]
  simp only [runSections, runSection, if_neg hid, if_neg hsame]
  cases check.error (known call.primaryTargetID) with
  | some error => rfl
  | none =>
    cases check.error (known call.secondaryTargetID) with
    | some error => rfl
    | none =>
      simp only
      split_ifs with hprim hsec
      · rfl
      · simp only [if_pos hsec]
      · simp only [if_neg hsec]

/-! ## Groups and their targets -/

/-- No target is in two groups, the targets of a group differ, and no group has the id 0. -/
structure GroupsValid (groups : OrdMap ℕ MirrorBuddyGroup) : Prop where
  one : ∀ {i j g h t}, (i, g) ∈ groups → (j, h) ∈ groups → g.Has t → h.Has t → i = j
  differ : ∀ {i g}, (i, g) ∈ groups → g.firstTargetID ≠ g.secondTargetID
  notZero : ∀ {i g}, (i, g) ∈ groups → i ≠ 0

/-- All ids are 16-bit numbers. -/
structure GroupsBounded (groups : OrdMap ℕ MirrorBuddyGroup) : Prop where
  id_lt : ∀ {i g}, (i, g) ∈ groups → i < 65536
  target_lt : ∀ {i g t}, (i, g) ∈ groups → g.Has t → t < 65536

/-- Two targets for each key, all of them different, are twice as many. -/
lemma two_mul_card_le {keys : Finset ℕ} (first second : ℕ → ℕ) {n : ℕ}
    (hfirst : Set.InjOn first keys) (hsnd : Set.InjOn second keys)
    (hne : ∀ i ∈ keys, ∀ j ∈ keys, first i ≠ second j)
    (hlt : ∀ i ∈ keys, first i < n ∧ second i < n) : 2 * keys.card ≤ n := by
  have hdisj : Disjoint (keys.image first) (keys.image second) := by
    rw [Finset.disjoint_left]
    intro t ht ht'
    obtain ⟨i, hi, rfl⟩ := Finset.mem_image.mp ht
    obtain ⟨j, hj, heq⟩ := Finset.mem_image.mp ht'
    exact hne i hi j hj heq.symm
  have hsub : keys.image first ∪ keys.image second ⊆ Finset.range n := by
    intro t ht
    rw [Finset.mem_range]
    rcases Finset.mem_union.mp ht with ht | ht
    · obtain ⟨i, hi, rfl⟩ := Finset.mem_image.mp ht
      exact (hlt i hi).1
    · obtain ⟨i, hi, rfl⟩ := Finset.mem_image.mp ht
      exact (hlt i hi).2
  have hcard := Finset.card_le_card hsub
  rw [Finset.card_union_of_disjoint hdisj, Finset.card_image_of_injOn hfirst,
    Finset.card_image_of_injOn hsnd, Finset.card_range] at hcard
  omega

namespace MirrorBuddyGroupMapper

variable {m : MirrorBuddyGroupMapper}

/-! ## Generated ids -/

/-- The id that is found is free, or all ids are used. -/
lemma generateFrom_cases {ids : List ℕ} (hsort : ids.Pairwise (· < ·))
    (hlt : ∀ i ∈ ids, i < 65536) :
    (generateFrom ids ≠ 0 ∧ generateFrom ids < 65536 ∧ generateFrom ids ∉ ids) ∨
      (generateFrom ids = 0 ∧ ∀ n, 1 ≤ n → n ≤ 65535 → n ∈ ids) := by
  rw [generateFrom]
  rcases hfirst : ids.head? with _ | first
  · obtain rfl := List.head?_eq_none_iff.mp hfirst
    left
    simp
  rcases hlast : ids.getLast? with _ | last
  · obtain rfl := List.getLast?_eq_none_iff.mp hlast
    nomatch hfirst
  dsimp only
  by_cases hmax : last < 65535
  · -- The id after the last one is larger than all.
    rw [if_pos hmax]
    obtain ⟨before, rfl⟩ := List.getLast?_eq_some_iff.mp hlast
    refine .inl ⟨by omega, by omega, fun hmem => ?_⟩
    rcases mem_append.mp hmem with hbef | hself
    · have := (pairwise_append.mp hsort).2.2 _ hbef last (mem_singleton_self last)
      omega
    · exact absurd (mem_singleton.mp hself) (by omega)
  rw [if_neg hmax]
  by_cases hone : 1 < first
  · rw [if_pos hone]
    obtain ⟨after, rfl⟩ := List.head?_eq_some_iff.mp hfirst
    refine .inl ⟨by omega, by omega, fun hmem => ?_⟩
    rcases mem_cons.mp hmem with hself | hafter
    · omega
    · have := (pairwise_cons.mp hsort).1 1 hafter
      omega
  rw [if_neg hone]
  rcases hgap : adjacentFind (fun a b => decide (a + 1 < b)) ids with _ | id
  · -- Without gaps the ids are all numbers between the first and the last one.
    refine .inr ⟨rfl, fun n hn hn' => ?_⟩
    have hchain : ids.IsChain fun a b => b ≤ a + 1 :=
      (isChain_of_adjacentFind_eq_none hgap).imp fun a b hab => by
        simpa using hab
    exact mem_of_isChain_le_succ hchain hfirst hlast (by omega) (by omega)
  · obtain ⟨before, b, after, rfl, hb⟩ := adjacentFind_eq_some hgap
    have hlt' := hlt b (by simp)
    rw [decide_eq_true_eq] at hb
    obtain ⟨-, hpair, hcross⟩ := pairwise_append.mp hsort
    obtain ⟨-, hpair⟩ := pairwise_cons.mp hpair
    obtain ⟨hafter, -⟩ := pairwise_cons.mp hpair
    dsimp only
    refine .inl ⟨by omega, by omega, fun hmem => ?_⟩
    rcases mem_append.mp hmem with h | h
    · have := hcross _ h id mem_cons_self
      omega
    · rcases mem_cons.mp h with h | h
      · omega
      · rcases mem_cons.mp h with h | h
        · omega
        · have := hafter _ h
          omega

/-- The id of `generateID` is free, or all ids are used. -/
lemma generateID_cases (hlt : ∀ {i g}, (i, g) ∈ m.mirrorBuddyGroups → i < 65536) :
    (m.generateID ≠ 0 ∧ m.generateID < 65536 ∧ ∀ g, (m.generateID, g) ∉ m.mirrorBuddyGroups) ∨
      (m.generateID = 0 ∧ ∀ n, 1 ≤ n → n ≤ 65535 → ∃ g, (n, g) ∈ m.mirrorBuddyGroups) := by
  have hids : ∀ id, id ∈ m.mirrorBuddyGroups.entries.map Prod.fst ↔
      ∃ g, (id, g) ∈ m.mirrorBuddyGroups := by
    simp [mem_def]
  simp only [← not_exists, ← hids]
  refine generateFrom_cases (pairwise_map.mpr m.mirrorBuddyGroups.ascending) fun i hi => ?_
  obtain ⟨g, hg⟩ := (hids i).mp hi
  exact hlt hg

/-- There is always a free id, since groups with different targets cannot use up all of them. -/
lemma generateID_ne_zero (hvalid : GroupsValid m.mirrorBuddyGroups)
    (hbdd : GroupsBounded m.mirrorBuddyGroups) : m.generateID ≠ 0 := by
  intro hzero
  rcases generateID_cases hbdd.id_lt with h | ⟨-, hall⟩
  · exact h.1 hzero
  · choose! group hgroup using hall
    have hmem : ∀ i ∈ Finset.Icc 1 65535, (i, group i) ∈ m.mirrorBuddyGroups := by
      intro i hi
      exact hgroup i (Finset.mem_Icc.mp hi).1 (Finset.mem_Icc.mp hi).2
    have hcard : 2 * (Finset.Icc 1 65535).card ≤ 65536 := by
      refine two_mul_card_le (fun i => (group i).firstTargetID)
        (fun i => (group i).secondTargetID) ?_ ?_ ?_ ?_
      · intro i hi j hj heq
        exact hvalid.one (hmem i hi) (hmem j hj) (.inl rfl) (.inl heq.symm)
      · intro i hi j hj heq
        exact hvalid.one (hmem i hi) (hmem j hj) (.inr rfl) (.inr heq.symm)
      · intro i hi j hj heq
        obtain rfl := hvalid.one (hmem i hi) (hmem j hj) (.inl heq) (.inr rfl)
        exact hvalid.differ (hmem i hi) heq
      · intro i hi
        exact ⟨hbdd.target_lt (hmem i hi) (.inl rfl), hbdd.target_lt (hmem i hi) (.inr rfl)⟩
    rw [Nat.card_Icc] at hcard
    omega

/-! ## Groups of targets -/

lemma getBuddyGroupID_eq_zero {t : ℕ} (hnone : ∀ {i g}, (i, g) ∈ m.mirrorBuddyGroups → ¬ g.Has t) :
    m.getBuddyGroupID t = 0 := by
  have hfind : (m.mirrorBuddyGroups.entries.find? fun e => e.2.Has t) = none := by
    rw [List.find?_eq_none]
    intro e he
    simpa using hnone (i := e.1) (g := e.2) he
  rw [getBuddyGroupID, hfind]

section

variable (hvalid : GroupsValid m.mirrorBuddyGroups)

include hvalid

lemma getBuddyGroupID_eq {t i : ℕ} {g : MirrorBuddyGroup}
    (hmem : (i, g) ∈ m.mirrorBuddyGroups) (hhas : g.Has t) : m.getBuddyGroupID t = i := by
  rw [getBuddyGroupID]
  rcases hfind : m.mirrorBuddyGroups.entries.find? fun e => e.2.Has t with _ | e
  · exact absurd (decide_eq_true hhas) (List.find?_eq_none.mp hfind _ hmem)
  · have hfound := List.find?_some hfind
    rw [hfind]
    exact hvalid.one (mem_of_find?_eq_some hfind) hmem (of_decide_eq_true hfound) hhas

/-- A target that is not in use is in no other group than the one of the call. -/
lemma isInUse_eq_false_iff {t id : ℕ} :
    m.isInUse t id = false ↔ ∀ i g, (i, g) ∈ m.mirrorBuddyGroups → g.Has t → i = id := by
  rw [isInUse, decide_eq_false_iff_not]
  constructor
  · intro hnot i g hmem hhas
    rw [getBuddyGroupID_eq hvalid hmem hhas] at hnot
    have := hvalid.notZero hmem
    by_contra hne
    exact hnot ⟨by omega, hne⟩
  · rintro hall ⟨hpos, hne⟩
    by_cases hnone : ∃ i g, (i, g) ∈ m.mirrorBuddyGroups ∧ g.Has t
    · obtain ⟨i, g, hmem, hhas⟩ := hnone
      rw [getBuddyGroupID_eq hvalid hmem hhas] at hne
      exact hne (hall i g hmem hhas)
    · rw [getBuddyGroupID_eq_zero fun hmem hhas => hnone ⟨_, _, hmem, hhas⟩] at hpos
      exact absurd hpos (lt_irrefl 0)

/-! ## Changes of the groups -/

/-- A group whose targets are in no other group can be stored. -/
lemma store_valid (hbdd : GroupsBounded m.mirrorBuddyGroups) {call : MapCall}
    (hdiffer : call.primaryTargetID ≠ call.secondaryTargetID)
    (hfree : ∀ i g t, (i, g) ∈ m.mirrorBuddyGroups → g.Has t → call.group.Has t →
      i = call.buddyGroupID) : GroupsValid (m.store call).mirrorBuddyGroups := by
  have hfree' : ∀ {i g t}, (i, g) ∈ m.mirrorBuddyGroups → g.Has t → call.group.Has t →
      i = m.storeID call := by
    intro i g t hmem hhas hcall
    have hi := hfree i g t hmem hhas hcall
    rw [storeID, if_neg (hi ▸ hvalid.notZero hmem)]
    exact hi
  constructor
  · intro i j g h t hi hj hg hh
    rcases mem_set.mp hi with ⟨rfl, rfl⟩ | ⟨-, hi⟩ <;>
      rcases mem_set.mp hj with ⟨rfl, rfl⟩ | ⟨-, hj⟩
    · rfl
    · exact (hfree' hj hh hg).symm
    · exact hfree' hi hg hh
    · exact hvalid.one hi hj hg hh
  · intro i g hi
    rcases mem_set.mp hi with ⟨-, rfl⟩ | ⟨-, hi⟩
    · exact hdiffer
    · exact hvalid.differ hi
  · intro i g hi
    rcases mem_set.mp hi with ⟨rfl, -⟩ | ⟨-, hi⟩
    · rw [storeID]
      split_ifs with hzero
      · exact generateID_ne_zero hvalid hbdd
      · exact hzero
    · exact hvalid.notZero hi

end

lemma store_bounded (hbdd : GroupsBounded m.mirrorBuddyGroups) {call : MapCall}
    (hid : call.buddyGroupID < 65536) (htgt : ∀ t, call.group.Has t → t < 65536) :
    GroupsBounded (m.store call).mirrorBuddyGroups := by
  constructor
  · intro i g hi
    rcases mem_set.mp hi with ⟨rfl, -⟩ | ⟨-, hi⟩
    · rw [storeID]
      split_ifs
      · rcases generateID_cases hbdd.id_lt with h | h
        · exact h.2.1
        · omega
      · exact hid
    · exact hbdd.id_lt hi
  · intro i g t hi hhas
    rcases mem_set.mp hi with ⟨-, rfl⟩ | ⟨-, hi⟩
    · exact htgt t hhas
    · exact hbdd.target_lt hi hhas

/-- An unmapped group is removed, and no other. -/
lemma mem_unmapMirrorBuddyGroup {id localNodeID i : ℕ} {g : MirrorBuddyGroup} :
    (i, g) ∈ (m.unmapMirrorBuddyGroup id localNodeID).2.mirrorBuddyGroups ↔
      i ≠ id ∧ (i, g) ∈ m.mirrorBuddyGroups := by
  rw [unmapMirrorBuddyGroup]
  rw [mem_erase]
  refine and_congr_right fun hne => ?_
  split_ifs
  · simp [hne]
  · exact Iff.rfl

end MirrorBuddyGroupMapper

lemma groupsValid_empty : GroupsValid .empty where
  one hi := absurd hi (not_mem_empty _)
  differ hi := absurd hi (not_mem_empty _)
  notZero hi := absurd hi (not_mem_empty _)

lemma groupsBounded_empty : GroupsBounded .empty where
  id_lt hi := absurd hi (not_mem_empty _)
  target_lt hi := absurd hi (not_mem_empty _)

variable {groups groups' : OrdMap ℕ MirrorBuddyGroup}

lemma GroupsValid.mono (h : GroupsValid groups)
    (hsub : ∀ i g, (i, g) ∈ groups' → (i, g) ∈ groups) : GroupsValid groups' where
  one hi hj := h.one (hsub _ _ hi) (hsub _ _ hj)
  differ hi := h.differ (hsub _ _ hi)
  notZero hi := h.notZero (hsub _ _ hi)

lemma GroupsBounded.mono (h : GroupsBounded groups)
    (hsub : ∀ i g, (i, g) ∈ groups' → (i, g) ∈ groups) : GroupsBounded groups' where
  id_lt hi := h.id_lt (hsub _ _ hi)
  target_lt hi := h.target_lt (hsub _ _ hi)

end Beegfs.Nodes
