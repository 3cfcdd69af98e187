import Beegfs.Lib.Run

/-!
# Capacity pools of targets

`TargetCapacityPools` has three pools of targets by their free space.  The targets of each pool are
also grouped by the nodes that they are on, for which it keeps its own map from targets to nodes.
`TargetCapacityPools.consistent_iff_keepsNode` says that the groups agree with the pools and the map
over every run of calls if and only if no call changes the node of a target that stays in its pool.
-/

namespace Beegfs

open Function List

inductive CapacityPoolType where
  | normal
  | low
  | emergency
deriving DecidableEq

namespace CapacityPoolType

/-- The pool types in the order of their numbers. -/
def all : List CapacityPoolType := [.normal, .low, .emergency]

lemma mem_all (p : CapacityPoolType) : p ∈ all := by
  cases p <;> decide

end CapacityPoolType

/-- The targets of the nodes in one pool.  A node without an entry is different from one with an
empty set. -/
structure GroupedTargets where
  entry : ℕ → Option (Finset ℕ)

namespace GroupedTargets

def empty : GroupedTargets := ⟨fun _ => none⟩

variable (groups : GroupedTargets)

/-- `groups[nodeID]` as it is read -/
def targets (nodeID : ℕ) : Finset ℕ := (groups.entry nodeID).getD ∅

/-- `groups[nodeID].insert(targetID)` -/
def insert (nodeID targetID : ℕ) : GroupedTargets :=
  ⟨Function.update groups.entry nodeID (some (Insert.insert targetID (groups.targets nodeID)))⟩

/-- The target is removed from the node, and the node if that was its last target. -/
def erase (nodeID targetID : ℕ) : GroupedTargets :=
  let rest := (groups.targets nodeID).erase targetID
  ⟨Function.update groups.entry nodeID (if rest = ∅ then none else some rest)⟩

/-- No node has an empty set. -/
def NoEmpty : Prop := ∀ nodeID, groups.entry nodeID ≠ some ∅

variable {groups : GroupedTargets} {nodeID targetID : ℕ}

@[simp] lemma entry_insert_self : (groups.insert nodeID targetID).entry nodeID =
    some (Insert.insert targetID (groups.targets nodeID)) := update_self _ _ _

@[simp] lemma entry_insert_of_ne {n : ℕ} (hn : n ≠ nodeID) :
    (groups.insert nodeID targetID).entry n = groups.entry n := update_of_ne hn _ _

@[simp] lemma entry_erase_self : (groups.erase nodeID targetID).entry nodeID =
    if (groups.targets nodeID).erase targetID = ∅ then none
    else some ((groups.targets nodeID).erase targetID) := update_self _ _ _

@[simp] lemma entry_erase_of_ne {n : ℕ} (hn : n ≠ nodeID) :
    (groups.erase nodeID targetID).entry n = groups.entry n := update_of_ne hn _ _

lemma mem_insert {n t : ℕ} : t ∈ (groups.insert nodeID targetID).targets n ↔
    (n = nodeID ∧ t = targetID) ∨ t ∈ groups.targets n := by
  by_cases hn : n = nodeID
  · rw [hn]
    simp [targets]
  · simp [targets, hn]

lemma mem_erase {n t : ℕ} : t ∈ (groups.erase nodeID targetID).targets n ↔
    ¬(n = nodeID ∧ t = targetID) ∧ t ∈ groups.targets n := by
  by_cases hn : n = nodeID
  · rw [hn]
    have htgts : (groups.erase nodeID targetID).targets nodeID =
        (groups.targets nodeID).erase targetID := by
      rw [targets, entry_erase_self]
      split_ifs with hrest
      · exact hrest.symm
      · rfl
    rw [htgts]
    simp
  · simp [targets, hn]

lemma NoEmpty.insert (h : groups.NoEmpty) : (groups.insert nodeID targetID).NoEmpty := by
  intro n
  by_cases hn : n = nodeID
  · rw [hn, entry_insert_self]
    intro hempty
    exact Finset.insert_ne_empty _ _ (Option.some.inj hempty)
  · rw [entry_insert_of_ne hn]
    exact h n

lemma NoEmpty.erase (h : groups.NoEmpty) : (groups.erase nodeID targetID).NoEmpty := by
  intro n
  by_cases hn : n = nodeID
  · rw [hn, entry_erase_self]
    split_ifs with hrest
    · exact nofun
    · intro hempty
      exact hrest (Option.some.inj hempty)
  · rw [entry_erase_of_ne hn]
    exact h n

end GroupedTargets

structure TargetCapacityPools where
  pools : CapacityPoolType → Finset ℕ
  groupedTargetPools : CapacityPoolType → GroupedTargets
  targetMap : ℕ → Option ℕ

namespace TargetCapacityPools

/-! ## Operations -/

/-- An object without targets. -/
def empty : TargetCapacityPools := ⟨fun _ => ∅, fun _ => .empty, fun _ => none⟩

variable (targetID : ℕ)

/-- `getNodeIDFromTargetID` -/
def getNodeIDFromTargetID (targetMap : ℕ → Option ℕ) : ℕ := (targetMap targetID).getD 0

variable (s : TargetCapacityPools)

/-- The target is removed from the pool, and there from the node. -/
def eraseFrom (p : CapacityPoolType) (targetID nodeID : ℕ) : TargetCapacityPools :=
  { s with
    pools := Function.update s.pools p ((s.pools p).erase targetID)
    groupedTargetPools := if nodeID = 0 then s.groupedTargetPools
      else Function.update s.groupedTargetPools p ((s.groupedTargetPools p).erase nodeID targetID) }

open CapacityPoolType

/-- `removeFromOthersUnlocked` -/
def removeFromOthersUnlocked (targetID previousNodeID : ℕ) (keepPool : CapacityPoolType) :
    TargetCapacityPools :=
  match all.find? fun p => p ≠ keepPool ∧ targetID ∈ s.pools p with
  | none => s
  | some p => s.eraseFrom p targetID previousNodeID

/-- The target is added to a pool and there to a node. -/
def addTo (p : CapacityPoolType) (targetID nodeID : ℕ) : TargetCapacityPools :=
  { s with
    pools := Function.update s.pools p (insert targetID (s.pools p))
    groupedTargetPools :=
      Function.update s.groupedTargetPools p ((s.groupedTargetPools p).insert nodeID targetID) }

/-- `addOrUpdateUnlocked`, and `addOrUpdate` -/
def addOrUpdate (targetID nodeID : ℕ) (poolType : CapacityPoolType) : Bool × TargetCapacityPools :=
  let isNewInsertion : Bool := targetID ∉ s.pools poolType ∨
    targetID ∉ (s.groupedTargetPools poolType).targets nodeID
  let t := s.addTo poolType targetID nodeID
  let t := if isNewInsertion then
      t.removeFromOthersUnlocked targetID (getNodeIDFromTargetID targetID t.targetMap) poolType
    else t
  (isNewInsertion, { t with targetMap := Function.update t.targetMap targetID (some nodeID) })

/-- The first pool that has the target. -/
def findPool : Option CapacityPoolType := all.find? fun p => targetID ∈ s.pools p

/-- `addIfNotExists` -/
def addIfNotExists (targetID nodeID : ℕ) (poolType : CapacityPoolType) :
    Bool × TargetCapacityPools :=
  -- The check with the read lock is made again with the write lock.
  match s.findPool targetID with
  | none => (true, (s.addOrUpdate targetID nodeID poolType).2)
  | some p =>
    if nodeID = getNodeIDFromTargetID targetID s.targetMap then (false, s)
    else (true, (s.addOrUpdate targetID nodeID p).2)

/-- `remove` -/
def remove : TargetCapacityPools :=
  match s.findPool targetID with
  | none => s
  | some p =>
    let t := { s with pools := Function.update s.pools p ((s.pools p).erase targetID) }
    let nodeID := getNodeIDFromTargetID targetID s.targetMap
    if nodeID = 0 then t
    else if targetID ∈ (s.groupedTargetPools p).targets nodeID then
      { t with groupedTargetPools :=
        Function.update s.groupedTargetPools p ((s.groupedTargetPools p).erase nodeID targetID) }
    else t

/-- `groupTargetsByNode` for one pool -/
def groupTargetsByNode (targets : List ℕ) (targetMap : ℕ → Option ℕ) : GroupedTargets :=
  targets.foldl (fun groups targetID =>
    let nodeID := getNodeIDFromTargetID targetID targetMap
    if nodeID = 0 then groups else groups.insert nodeID targetID) .empty

/-- `syncPoolsFromLists` -/
def syncPoolsFromLists (lists : CapacityPoolType → List ℕ) (newTargetMap : ℕ → Option ℕ) :
    TargetCapacityPools where
  pools p := (lists p).toFinset
  groupedTargetPools p := groupTargetsByNode (lists p) newTargetMap
  targetMap := newTargetMap

/-! ## Consistency -/

variable (s : TargetCapacityPools)

/-- Every target is in at most one pool, and in each pool the node of a target has it in its
group. -/
structure Consistent : Prop where
  one : ∀ p q targetID, targetID ∈ s.pools p → targetID ∈ s.pools q → p = q
  grouped : ∀ p nodeID targetID, targetID ∈ (s.groupedTargetPools p).targets nodeID ↔
    targetID ∈ s.pools p ∧ s.targetMap targetID = some nodeID
  noEmpty : ∀ p, (s.groupedTargetPools p).NoEmpty

/-- No target is mapped to node 0. -/
def NodesValid : Prop := ∀ targetID, s.targetMap targetID ≠ some 0

variable {s} {targetID nodeID : ℕ} {p : CapacityPoolType}

lemma getNodeIDFromTargetID_eq_zero (hvalid : s.NodesValid) :
    getNodeIDFromTargetID targetID s.targetMap = 0 ↔ s.targetMap targetID = none := by
  rw [getNodeIDFromTargetID]
  rcases hnode : s.targetMap targetID with _ | n
  · simp
  · have hne : n ≠ 0 := fun h0 => hvalid targetID (h0 ▸ hnode)
    simp [hne]

/-- The nodes of the target in the pool are at most the one that the map has. -/
def GroupedAt (p : CapacityPoolType) (targetID : ℕ) : Prop :=
  ∀ n, targetID ∈ (s.groupedTargetPools p).targets n → s.targetMap targetID = some n

/-- The targets of a pool, or those of a node in it. -/
def has (q : CapacityPoolType) : Option ℕ → Finset ℕ
  | none => s.pools q
  | some n => (s.groupedTargetPools q).targets n

section Membership

variable {q : CapacityPoolType} {t : ℕ} {g : Option ℕ}

lemma mem_addTo : t ∈ (s.addTo p targetID nodeID).has q g ↔
    (q = p ∧ (∀ n ∈ g, n = nodeID) ∧ t = targetID) ∨ t ∈ s.has q g := by
  by_cases hq : q = p
  · rw [hq]
    cases g with
    | none => simp [has, addTo]
    | some n => simp [has, addTo, GroupedTargets.mem_insert]
  · cases g <;> simp [has, addTo, hq]

/-- A target is removed from the pool and from its group, if that is the one of its node. -/
lemma mem_eraseFrom (hvalid : s.NodesValid) (hgrp : s.GroupedAt p targetID) :
    t ∈ (s.eraseFrom p targetID (getNodeIDFromTargetID targetID s.targetMap)).has q g ↔
      ¬(q = p ∧ t = targetID) ∧ t ∈ s.has q g := by
  by_cases hq : q = p
  · cases g with
    | none => simp [has, eraseFrom, hq]
    | some n =>
      rw [hq]
      rcases hnode : s.targetMap targetID with _ | m
      · have hzero : getNodeIDFromTargetID targetID s.targetMap = 0 :=
          (getNodeIDFromTargetID_eq_zero hvalid).mpr hnode
        rw [hzero]
        refine (and_iff_right_of_imp ?_).symm
        rintro hmem ⟨-, rfl⟩
        nomatch hnode.symm.trans (hgrp n hmem)
      · have hm : getNodeIDFromTargetID targetID s.targetMap = m := by
          rw [getNodeIDFromTargetID, hnode, Option.getD_some]
        have hne : m ≠ 0 := fun h0 => hvalid targetID (h0 ▸ hnode)
        simp only [has, eraseFrom, hm, if_neg hne, update_self, GroupedTargets.mem_erase, true_and]
        refine and_congr_left fun hmem => not_congr (and_iff_right_of_imp ?_)
        rintro rfl
        exact Option.some.inj ((hgrp n hmem).symm.trans hnode)
  · cases g with
    | none => simp [has, eraseFrom, hq]
    | some n =>
      simp only [has, eraseFrom, hq, false_and, not_false_eq_true, true_and]
      split_ifs
      · rfl
      · rw [update_of_ne hq]

/-- A target stays in one pool only. -/
lemma removeFromOthersUnlocked_spec (hvalid : s.NodesValid)
    (hone : ∀ q r, q ≠ p → r ≠ p → targetID ∈ s.pools q → targetID ∈ s.pools r → q = r)
    (hgrp : ∀ q ≠ p, s.GroupedAt q targetID)
    (hhas : ∀ q ≠ p, ∀ g, targetID ∈ s.has q g → targetID ∈ s.pools q) :
    t ∈ (s.removeFromOthersUnlocked targetID (getNodeIDFromTargetID targetID s.targetMap) p).has
        q g ↔ ¬(q ≠ p ∧ t = targetID) ∧ t ∈ s.has q g := by
  rw [removeFromOthersUnlocked]
  rcases hfind : all.find? fun q => q ≠ p ∧ targetID ∈ s.pools q with _ | r
  · refine (and_iff_right_of_imp ?_).symm
    rintro hmem ⟨hq, rfl⟩
    have hno := List.find?_eq_none.mp hfind q (mem_all q)
    exact hno (decide_eq_true ⟨hq, hhas q hq g hmem⟩)
  · have hsome := List.find?_some hfind
    obtain ⟨hr, hmemr⟩ := of_decide_eq_true hsome
    rw [mem_eraseFrom hvalid (hgrp r hr)]
    refine and_congr_left fun hmem => not_congr (and_congr_left fun heq => ?_)
    exact ⟨fun h => h ▸ hr, fun hq => hone q r hq hr (hhas q hq g (heq ▸ hmem)) hmemr⟩

/-- After a target was added to a pool, it is removed from all others, or it was in no other. -/
lemma addOrUpdate_others (h : s.Consistent) (hvalid : s.NodesValid) :
    t ∈ (s.addOrUpdate targetID nodeID p).2.has q g ↔
      ¬(q ≠ p ∧ t = targetID) ∧ t ∈ (s.addTo p targetID nodeID).has q g := by
  have hold : ∀ q ≠ p, ∀ g, targetID ∈ (s.addTo p targetID nodeID).has q g →
      targetID ∈ s.pools q ∧ ∀ n ∈ g, s.targetMap targetID = some n := by
    intro q hq g hmem
    have hmem := (mem_addTo.mp hmem).resolve_left fun hpq => hq hpq.1
    cases g with
    | none => exact ⟨hmem, nofun⟩
    | some n =>
      obtain ⟨hin, hnode⟩ := (h.grouped q n targetID).mp hmem
      exact ⟨hin, fun m hm => hnode.trans hm⟩
  by_cases hnew : targetID ∉ s.pools p ∨ targetID ∉ (s.groupedTargetPools p).targets nodeID
  · have hadd : (s.addOrUpdate targetID nodeID p).2 =
        { (s.addTo p targetID nodeID).removeFromOthersUnlocked targetID
            (getNodeIDFromTargetID targetID (s.addTo p targetID nodeID).targetMap) p with
          targetMap := (s.addOrUpdate targetID nodeID p).2.targetMap } := by
      simp only [addOrUpdate, decide_eq_true hnew, if_true]
    rw [hadd]
    refine removeFromOthersUnlocked_spec (s := s.addTo p targetID nodeID) hvalid
      (fun q r hq hr hmemq hmemr => ?_) (fun q hq n hmem => ?_) fun q hq g hmem => ?_
    · exact h.one q r targetID (hold q hq none hmemq).1 (hold r hr none hmemr).1
    · exact (hold q hq (some n) hmem).2 n rfl
    · exact mem_addTo (g := none).mpr (.inr (hold q hq g hmem).1)
  · have hadd : (s.addOrUpdate targetID nodeID p).2 = { s.addTo p targetID nodeID with
        targetMap := (s.addOrUpdate targetID nodeID p).2.targetMap } := by
      simp only [addOrUpdate, decide_eq_false hnew, Bool.false_eq_true, if_false]
    have hin : targetID ∈ s.pools p := by
      by_contra hnot
      exact hnew (.inl hnot)
    rw [hadd]
    refine (and_iff_right_of_imp ?_).symm
    rintro hmem ⟨hq, rfl⟩
    exact hq (h.one q p t (hold q hq g hmem).1 hin)

/-- What is in the pools and groups after a target was added or updated. -/
lemma addOrUpdate_spec (h : s.Consistent) (hvalid : s.NodesValid) :
    t ∈ (s.addOrUpdate targetID nodeID p).2.has q g ↔
      if t = targetID then q = p ∧ ((∀ n ∈ g, n = nodeID) ∨ t ∈ s.has p g)
      else t ∈ s.has q g := by
  rw [addOrUpdate_others h hvalid, mem_addTo]
  by_cases ht : t = targetID
  · simp only [ht, and_true, if_true, not_not]
    by_cases hq : q = p
    · simp [hq]
    · simp [hq]
  · simp [ht]

end Membership

section NoEmpty

lemma noEmpty_update (h : ∀ q, (s.groupedTargetPools q).NoEmpty) {groups : GroupedTargets}
    (hgrps : groups.NoEmpty) (q : CapacityPoolType) :
    (Function.update s.groupedTargetPools p groups q).NoEmpty := by
  by_cases hq : q = p
  · rw [hq, update_self]
    exact hgrps
  · rw [update_of_ne hq]
    exact h q

lemma eraseFrom_noEmpty (h : ∀ q, (s.groupedTargetPools q).NoEmpty) (q : CapacityPoolType) :
    ((s.eraseFrom p targetID nodeID).groupedTargetPools q).NoEmpty := by
  rw [eraseFrom]
  split_ifs
  · exact h q
  · exact noEmpty_update h (h p).erase q

lemma addOrUpdate_noEmpty (h : ∀ q, (s.groupedTargetPools q).NoEmpty) (q : CapacityPoolType) :
    ((s.addOrUpdate targetID nodeID p).2.groupedTargetPools q).NoEmpty := by
  have hadd : ∀ q, ((s.addTo p targetID nodeID).groupedTargetPools q).NoEmpty :=
    noEmpty_update h (h p).insert
  rw [addOrUpdate]
  split_ifs
  · rw [removeFromOthersUnlocked]
    split
    · exact hadd q
    · exact eraseFrom_noEmpty hadd q
  · exact hadd q

end NoEmpty

lemma targetMap_addOrUpdate : (s.addOrUpdate targetID nodeID p).2.targetMap =
    Function.update s.targetMap targetID (some nodeID) := by
  have hoth : ∀ (s : TargetCapacityPools) (previousNodeID : ℕ),
      (s.removeFromOthersUnlocked targetID previousNodeID p).targetMap = s.targetMap := by
    intro s previousNodeID
    rw [removeFromOthersUnlocked]
    split <;> rfl
  rw [addOrUpdate]
  split_ifs
  · rw [hoth]
    rfl
  · rfl

/-- An update keeps the groups consistent exactly if it does not change the node of a target that
stays in its pool. -/
lemma addOrUpdate_consistent_iff (h : s.Consistent) (hvalid : s.NodesValid) :
    (s.addOrUpdate targetID nodeID p).2.Consistent ↔
      (targetID ∈ s.pools p → ∀ n ∈ s.targetMap targetID, n = nodeID) := by
  have hpools : ∀ {q t}, t ∈ (s.addOrUpdate targetID nodeID p).2.pools q ↔
      if t = targetID then q = p else t ∈ s.pools q :=
    fun {q t} => (addOrUpdate_spec (q := q) (g := none) h hvalid).trans (by simp [has])
  have htgts : ∀ {q t n},
      t ∈ ((s.addOrUpdate targetID nodeID p).2.groupedTargetPools q).targets n ↔
        if t = targetID then q = p ∧ (n = nodeID ∨ t ∈ (s.groupedTargetPools p).targets n)
        else t ∈ (s.groupedTargetPools q).targets n :=
    fun {q t n} => (addOrUpdate_spec (q := q) (g := some n) h hvalid).trans (by simp [has])
  constructor
  · intro hafter hin n hn
    -- The target is still in the group of its node.
    have hold : targetID ∈ (s.groupedTargetPools p).targets n :=
      (h.grouped p n targetID).mpr ⟨hin, hn⟩
    have hstill :
        targetID ∈ ((s.addOrUpdate targetID nodeID p).2.groupedTargetPools p).targets n := by
      rw [htgts, if_pos rfl]
      exact ⟨rfl, .inr hold⟩
    have hmap := ((hafter.grouped p n targetID).mp hstill).2
    rw [targetMap_addOrUpdate, update_self] at hmap
    exact (Option.some.inj hmap).symm
  · intro hkeeps
    refine ⟨fun q r t hq hr => ?_, fun q n t => ?_, addOrUpdate_noEmpty h.noEmpty⟩
    · rw [hpools] at hq hr
      split_ifs at hq hr
      · exact hq.trans hr.symm
      · exact h.one q r t hq hr
    · rw [htgts, hpools, targetMap_addOrUpdate]
      by_cases ht : t = targetID
      · rw [ht, if_pos rfl, if_pos rfl, update_self, Option.some.injEq]
        refine and_congr_right fun _ => ⟨?_, fun hn => .inl hn.symm⟩
        rintro (hn | hmem)
        · exact hn.symm
        · obtain ⟨hin, hn⟩ := (h.grouped p n targetID).mp hmem
          exact (hkeeps hin n hn).symm
      · rw [if_neg ht, if_neg ht, update_of_ne ht]
        exact h.grouped q n t

lemma addOrUpdate_nodesValid (hvalid : s.NodesValid) (hnode : nodeID ≠ 0) :
    (s.addOrUpdate targetID nodeID p).2.NodesValid := by
  intro t
  rw [targetMap_addOrUpdate]
  by_cases ht : t = targetID
  · rw [ht, update_self]
    exact fun hzero => hnode (Option.some.inj hzero)
  · rw [update_of_ne ht]
    exact hvalid t

/-! ## The other calls -/

lemma findPool_eq_none_iff : s.findPool targetID = none ↔ ∀ p, targetID ∉ s.pools p := by
  rw [findPool]
  simp [mem_all]

lemma mem_of_findPool (hfind : s.findPool targetID = some p) : targetID ∈ s.pools p := by
  have hsome := List.find?_some hfind
  exact of_decide_eq_true hsome

lemma remove_consistent (h : s.Consistent) (hvalid : s.NodesValid) :
    (s.remove targetID).Consistent := by
  rcases hfind : s.findPool targetID with _ | p
  · rw [remove, hfind]
    exact h
  · have hgrp : s.GroupedAt p targetID := fun n hmem => ((h.grouped p n targetID).mp hmem).2
    -- A target with a node is in the group of that node, so that it is removed from there.
    have herase : s.remove targetID =
        s.eraseFrom p targetID (getNodeIDFromTargetID targetID s.targetMap) := by
      rw [remove, hfind]
      dsimp only
      rw [eraseFrom]
      split_ifs with hzero hmem
      · rfl
      · rfl
      · rcases hnode : s.targetMap targetID with _ | n
        · rw [getNodeIDFromTargetID, hnode] at hzero
          exact absurd rfl hzero
        · rw [getNodeIDFromTargetID, hnode] at hmem
          exact absurd ((h.grouped p n targetID).mpr ⟨mem_of_findPool hfind, hnode⟩) hmem
    rw [herase]
    refine ⟨fun q r t hq hr => ?_, fun q n t => ?_, eraseFrom_noEmpty h.noEmpty⟩
    · exact h.one q r t ((mem_eraseFrom (g := none) hvalid hgrp).mp hq).2
        ((mem_eraseFrom (g := none) hvalid hgrp).mp hr).2
    · refine (mem_eraseFrom (g := some n) hvalid hgrp).trans ?_
      refine Iff.trans ?_ (and_congr_left' (mem_eraseFrom (g := none) hvalid hgrp).symm)
      rw [and_assoc]
      exact and_congr_right' (h.grouped q n t)

lemma targetMap_remove : (s.remove targetID).targetMap = s.targetMap := by
  rw [remove]
  split
  · rfl
  · dsimp only
    split_ifs <;> rfl

/-- The groups have the targets of the list that are on a node. -/
lemma groupTargetsByNode_spec (targets : List ℕ) {targetMap : ℕ → Option ℕ}
    (hvalid : ∀ t, targetMap t ≠ some 0) :
    (∀ {n t}, t ∈ (groupTargetsByNode targets targetMap).targets n ↔
      t ∈ targets ∧ targetMap t = some n) ∧ (groupTargetsByNode targets targetMap).NoEmpty := by
  -- The induction is on the targets that are grouped already.
  induction targets using List.reverseRecOn with
  | nil =>
    refine ⟨?_, nofun⟩
    intro n t
    exact iff_of_false (Finset.notMem_empty t) fun hmem => absurd hmem.1 not_mem_nil
  | append_singleton targets targetID ih =>
    obtain ⟨hmem, hnoEmpty⟩ := ih
    rw [groupTargetsByNode, foldl_append, foldl_cons, foldl_nil, ← groupTargetsByNode]
    rcases hnode : targetMap targetID with _ | m
    · rw [getNodeIDFromTargetID, hnode, Option.getD_none, if_pos rfl]
      refine ⟨?_, hnoEmpty⟩
      intro n t
      rw [hmem, mem_append, mem_singleton]
      refine and_congr_left fun hn => (or_iff_left ?_).symm
      rintro rfl
      nomatch hnode.symm.trans hn
    · have hne : m ≠ 0 := fun h0 => hvalid targetID (h0 ▸ hnode)
      rw [getNodeIDFromTargetID, hnode, Option.getD_some, if_neg hne]
      refine ⟨?_, hnoEmpty.insert⟩
      intro n t
      rw [GroupedTargets.mem_insert, hmem, mem_append, mem_singleton, or_and_right, or_comm]
      refine or_congr_right ?_
      constructor
      · rintro ⟨rfl, rfl⟩
        exact ⟨rfl, hnode⟩
      · rintro ⟨rfl, hn⟩
        exact ⟨Option.some.inj (hn.symm.trans hnode), rfl⟩

/-! ## Runs -/

inductive Call where
  | addOrUpdate (targetID nodeID : ℕ) (poolType : CapacityPoolType)
  | addIfNotExists (targetID nodeID : ℕ) (poolType : CapacityPoolType)
  | remove (targetID : ℕ)
  | syncPoolsFromLists (lists : CapacityPoolType → List ℕ) (newTargetMap : ℕ → Option ℕ)

/-- The state after a call. -/
def step (s : TargetCapacityPools) : Call → TargetCapacityPools
  | .addOrUpdate targetID nodeID poolType => (s.addOrUpdate targetID nodeID poolType).2
  | .addIfNotExists targetID nodeID poolType => (s.addIfNotExists targetID nodeID poolType).2
  | .remove targetID => s.remove targetID
  | .syncPoolsFromLists lists newTargetMap => syncPoolsFromLists lists newTargetMap

/-- Nodes are not 0, and a list of targets for all pools has none in two of them. -/
def Call.Valid : Call → Prop
  | .addOrUpdate _ nodeID _ => nodeID ≠ 0
  | .addIfNotExists _ nodeID _ => nodeID ≠ 0
  | .remove _ => True
  | .syncPoolsFromLists lists newTargetMap =>
    (∀ p q, p ≠ q → (lists p).Disjoint (lists q)) ∧ ∀ t, newTargetMap t ≠ some 0

/-- The call gives no other node to a target that it leaves in its pool. -/
def KeepsNode (s : TargetCapacityPools) : Call → Prop
  | .addOrUpdate targetID nodeID poolType =>
    targetID ∈ s.pools poolType → ∀ n ∈ s.targetMap targetID, n = nodeID
  | .addIfNotExists targetID nodeID _ =>
    (∃ p, targetID ∈ s.pools p) → ∀ n ∈ s.targetMap targetID, n = nodeID
  | .remove _ => True
  | .syncPoolsFromLists _ _ => True

lemma step_consistent_iff (h : s.Consistent) (hvalid : s.NodesValid) {call : Call}
    (hcall : call.Valid) : (s.step call).Consistent ↔ s.KeepsNode call := by
  cases call with
  | addOrUpdate targetID nodeID poolType => exact addOrUpdate_consistent_iff h hvalid
  | addIfNotExists targetID nodeID poolType =>
    -- a new target is added, and one that is in a pool may not change its node
    rw [step, TargetCapacityPools.addIfNotExists]
    rcases hfind : s.findPool targetID with _ | q
    · have hnone := findPool_eq_none_iff.mp hfind
      rw [addOrUpdate_consistent_iff h hvalid]
      exact ⟨fun _ ⟨q, hq⟩ => absurd hq (hnone q), fun _ hin => absurd hin (hnone poolType)⟩
    · have hin := mem_of_findPool hfind
      split_ifs with hsame
      · refine iff_of_true h fun _ n hn => ?_
        rw [hsame, getNodeIDFromTargetID, hn, Option.getD_some]
      · rw [addOrUpdate_consistent_iff h hvalid]
        exact ⟨fun hkeeps _ => hkeeps hin, fun hkeeps _ => hkeeps ⟨q, hin⟩⟩
  | remove targetID => exact iff_of_true (remove_consistent h hvalid) trivial
  | syncPoolsFromLists lists newTargetMap =>
    obtain ⟨hdisj, hnodes⟩ := hcall
    refine iff_of_true ⟨fun p q t hp hq => ?_, fun p n t => ?_,
      fun p => (groupTargetsByNode_spec _ hnodes).2⟩ trivial
    · by_contra hpq
      exact hdisj p q hpq (mem_toFinset.mp hp) (mem_toFinset.mp hq)
    · rw [step, TargetCapacityPools.syncPoolsFromLists]
      rw [(groupTargetsByNode_spec _ hnodes).1, mem_toFinset]

lemma step_nodesValid (hvalid : s.NodesValid) {call : Call} (hcall : call.Valid) :
    (s.step call).NodesValid := by
  cases call with
  | addOrUpdate targetID nodeID poolType => exact addOrUpdate_nodesValid hvalid hcall
  | addIfNotExists targetID nodeID poolType =>
    rw [step, TargetCapacityPools.addIfNotExists]
    split
    · exact addOrUpdate_nodesValid hvalid hcall
    · split_ifs
      · exact hvalid
      · exact addOrUpdate_nodesValid hvalid hcall
  | remove targetID =>
    intro t
    rw [step, targetMap_remove]
    exact hvalid t
  | syncPoolsFromLists lists newTargetMap => exact hcall.2

lemma empty_consistent : empty.Consistent where
  one _ _ t hp := absurd hp (Finset.notMem_empty t)
  grouped _ _ t := iff_of_false (Finset.notMem_empty t) fun h => Finset.notMem_empty t h.1
  noEmpty _ _ := nofun

/-- The pools, the groups and the map agree after every call of a run if and only if no call of it
gives another node to a target that stays in its pool. -/
theorem consistent_iff_keepsNode {calls : List Call} (hcalls : ∀ call ∈ calls, call.Valid) :
    EveryState step Consistent empty calls ↔ EveryStep step KeepsNode empty calls := by
  refine everyState_iff_everyStep (I := NodesValid) ?_ ?_ ?_ empty_consistent hcalls
  · intro s call hcall hvalid
    exact step_nodesValid hvalid hcall
  · intro s call hcall hvalid h
    exact step_consistent_iff h hvalid hcall
  · intro targetID
    exact nofun

/-- A target may change its pool and its node at once, and its node while it is in no pool. -/
theorem consistent_moved : EveryState step Consistent empty
    [.addOrUpdate 1 1 .normal, .addOrUpdate 1 2 .low, .remove 1, .addIfNotExists 1 3 .low] := by
  refine (consistent_iff_keepsNode ?_).mpr ⟨?_, ?_, trivial, ?_, trivial⟩
  · simp [Call.Valid]
  · exact fun hin => absurd hin (by decide)
  · exact fun hin => absurd hin (by decide)
  · rintro ⟨p, hin⟩
    cases p <;> nomatch hin

/-- A target that changes its node in its pool stays in the group of the old one. -/
theorem stays_with_old_node :
    let s := runFrom step empty [.addOrUpdate 1 1 .normal, .addOrUpdate 1 2 .normal]
    s.targetMap 1 = some 2 ∧ 1 ∈ (s.groupedTargetPools .normal).targets 1 ∧ ¬ s.Consistent := by
  have hmem : 1 ∈ ((runFrom step empty [.addOrUpdate 1 1 .normal,
      .addOrUpdate 1 2 .normal]).groupedTargetPools .normal).targets 1 := by decide
  refine ⟨by decide, hmem, fun h => ?_⟩
  exact absurd ((h.grouped .normal 1 1).mp hmem).2 (by decide)

end TargetCapacityPools

end Beegfs
