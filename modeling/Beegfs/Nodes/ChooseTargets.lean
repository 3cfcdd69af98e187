import Beegfs.Lib.RoundRobin
import Beegfs.Nodes.TargetCapacityPools

/-!
# Choosing targets in turn

The targets of a pool are chosen in the order of their numbers, and after the last one again from
the first one.  Each call goes on after the last target of the call before.
`TargetCapacityPools.roundRobin_fair` says that over every run of calls all targets of the pool are
chosen equally often, up to one time.
-/

namespace Beegfs

open List Nat

/-! ## The ring of a set -/

/-- `*iter`, for an iterator that goes around the set, as the number of its steps from the first
element -/
def ringElem (s : Finset ℕ) (iter : ℕ) : ℕ := (s.sort (· ≤ ·)).getD (iter % s.card) 0

section Ring

variable {s : Finset ℕ} (hs : s.Nonempty) (x y : ℕ)

include hs

lemma ringElem_eq : ∃ h, ringElem s x = (s.sort (· ≤ ·)).get ⟨x % s.card, h⟩ := by
  have hlt : x % s.card < (s.sort (· ≤ ·)).length := by
    rw [Finset.length_sort]
    exact mod_lt x hs.card_pos
  refine ⟨hlt, ?_⟩
  rw [ringElem, getD_eq_getElem?_getD, List.getElem?_eq_getElem hlt]
  rfl

lemma ringElem_mem : ringElem s x ∈ s := by
  obtain ⟨h, heq⟩ := ringElem_eq hs x
  rw [heq, ← Finset.mem_sort (· ≤ ·)]
  exact get_mem _ _

/-- The lower bound of an element is the element. -/
lemma findIdx_ringElem : (s.sort (· ≤ ·)).findIdx (ringElem s x ≤ ·) = x % s.card := by
  obtain ⟨hlt, heq⟩ := ringElem_eq hs x
  refine (findIdx_eq hlt).mpr ⟨decide_eq_true heq.le, fun j hj => ?_⟩
  refine decide_eq_false (not_le.mpr ?_)
  rw [heq]
  exact pairwise_iff_getElem.mp s.sortedLT_sort.pairwise _ _ (hj.trans hlt) hlt hj

variable {x y}

lemma ringElem_inj : ringElem s x = ringElem s y ↔ x % s.card = y % s.card := by
  refine ⟨fun h => ?_, fun h => ?_⟩
  · rw [← findIdx_ringElem hs, h, findIdx_ringElem hs]
  · rw [ringElem, h, ringElem]

lemma exists_ringElem (hx : x ∈ s) : ∃ i < s.card, ringElem s i = x := by
  obtain ⟨i, hi, rfl⟩ := getElem_of_mem ((Finset.mem_sort (· ≤ ·)).mpr hx)
  rw [Finset.length_sort] at hi
  obtain ⟨_, heq⟩ := ringElem_eq hs i
  refine ⟨i, hi, ?_⟩
  rw [heq]
  congr
  exact mod_eq_of_lt hi

/-- A part of the walk that is not longer than the ring has no element twice. -/
lemma nodup_map_ringElem {k : ℕ} (hk : k ≤ s.card) :
    ((List.range' x k).map (ringElem s)).Nodup := by
  refine List.Nodup.map_on (fun y hy z hz heq => ?_) nodup_range'
  rw [mem_range'_1] at hy hz
  exact mod_injOn_Ico x s.card (Finset.mem_Ico.mpr (by omega)) (Finset.mem_Ico.mpr (by omega))
    ((ringElem_inj hs).mp heq)

end Ring

namespace TargetCapacityPools

/-! ## Round robin -/

/-- `chooseStorageNodesNoPrefRoundRobin` of both classes: the targets that are added and the new
`lastRoundRobinTarget` -/
def chooseStorageNodesNoPrefRoundRobin (activeTargets : Finset ℕ) (numTargets last : ℕ) :
    List ℕ × ℕ :=
  if activeTargets = ∅ then ([], last)
  else
    let numTargets := min numTargets activeTargets.card
    -- `lower_bound`; in the ring, the end is the first element
    let iter := (activeTargets.sort (· ≤ ·)).findIdx (last ≤ ·)
    ((List.range' (iter + 1) numTargets).map (ringElem activeTargets),
      ringElem activeTargets (iter + numTargets))

/-- The first pool that has targets. -/
def activePool (pools : CapacityPoolType → Finset ℕ) : Finset ℕ :=
  if pools .normal ≠ ∅ then pools .normal
  else if pools .low ≠ ∅ then pools .low
  else pools .emergency

/-- `chooseStorageTargetsRoundRobin` -/
def chooseStorageTargetsRoundRobin (pools : CapacityPoolType → Finset ℕ) (numTargets last : ℕ) :
    List ℕ × ℕ :=
  chooseStorageNodesNoPrefRoundRobin (activePool pools) numTargets last

/-- A call, with all targets that were returned until then. -/
def roundRobinCall (pools : CapacityPoolType → Finset ℕ) (state : ℕ × List ℕ) (numTargets : ℕ) :
    ℕ × List ℕ :=
  let (targets, last) := chooseStorageTargetsRoundRobin pools numTargets state.1
  (last, state.2 ++ targets)

/-- The calls have walked around the ring without a gap, and the next one goes on from there. -/
def Walked (s : Finset ℕ) (start : ℕ) (state : ℕ × List ℕ) : Prop :=
  ∃ k, state.2 = (List.range' (start + 1) k).map (ringElem s) ∧
    (s.sort (· ≤ ·)).findIdx (state.1 ≤ ·) ≡ start + k [MOD s.card]

variable {pools : CapacityPoolType → Finset ℕ} (hne : (activePool pools).Nonempty)

include hne

lemma Walked.call {start : ℕ} {state : ℕ × List ℕ} (h : Walked (activePool pools) start state)
    (numTargets : ℕ) : Walked (activePool pools) start (roundRobinCall pools state numTargets) := by
  obtain ⟨k, hout, hiter⟩ := h
  simp only [roundRobinCall, chooseStorageTargetsRoundRobin, chooseStorageNodesNoPrefRoundRobin,
    if_neg hne.ne_empty]
  refine ⟨k + min numTargets (activePool pools).card, ?_, ?_⟩
  · rw [← List.range'_append_1, map_append, ← hout, List.range'_eq_map_range,
      List.range'_eq_map_range, map_map, map_map]
    refine congrArg _ (map_congr_left fun i _ => (ringElem_inj hne).mpr ?_)
    rw [Nat.add_right_comm start]
    exact (hiter.add_right 1).add_right i
  · rw [findIdx_ringElem hne, ← Nat.add_assoc]
    exact (mod_modEq _ _).trans (hiter.add_right _)

/-- Every call returns different targets of the pool, as many as there are, and all calls together
return all targets equally often, up to one time. -/
theorem roundRobin_fair (last : ℕ) (calls : List ℕ) (numTargets : ℕ) :
    let state := runFrom (roundRobinCall pools) (last, []) calls
    let targets := (chooseStorageTargetsRoundRobin pools numTargets state.1).1
    (targets.length = min numTargets (activePool pools).card ∧ targets.Nodup ∧
      ∀ t ∈ targets, t ∈ activePool pools) ∧
    ∀ a ∈ activePool pools, ∀ b ∈ activePool pools, state.2.count a ≤ state.2.count b + 1 := by
  intro state targets
  obtain ⟨k, hout, -⟩ : Walked (activePool pools) _ state :=
    runFrom_induction (V := fun _ => True) (fun _ n _ h => h.call hne n) ⟨0, rfl, Nat.ModEq.rfl⟩
      fun _ _ => trivial
  constructor
  · have htgts : targets = (List.range' _ _).map _ := congrArg Prod.fst (if_neg hne.ne_empty)
    rw [htgts, length_map, length_range']
    refine ⟨rfl, nodup_map_ringElem hne (Nat.min_le_right _ _), fun t ht => ?_⟩
    obtain ⟨x, -, rfl⟩ := mem_map.mp ht
    exact ringElem_mem hne x
  · have hcount : ∀ iters : List ℕ, ∀ i < (activePool pools).card,
        (iters.map (ringElem (activePool pools))).count (ringElem (activePool pools) i) =
          iters.countP (· % (activePool pools).card = i) := by
      intro iters i hi
      rw [List.count, countP_map]
      refine countP_congr fun x _ => ?_
      rw [Function.comp_apply, beq_iff_eq, ringElem_inj hne, mod_eq_of_lt hi, decide_eq_true_eq]
    intro a ha b hb
    obtain ⟨i, hi, rfl⟩ := exists_ringElem hne ha
    obtain ⟨j, hj, rfl⟩ := exists_ringElem hne hb
    rw [hout, hcount _ i hi, hcount _ j hj]
    exact RoundRobin.countP_mod_le hi hj _ _

omit hne

theorem roundRobin_fair_two_calls :
    let pools : CapacityPoolType → Finset ℕ := fun _ => {3, 5}
    (activePool pools).Nonempty ∧
      (runFrom (roundRobinCall pools) (4, []) [1, 2]).2.count 3 ≤
        (runFrom (roundRobinCall pools) (4, []) [1, 2]).2.count 5 + 1 :=
  ⟨by decide, (roundRobin_fair (by decide) 4 [1, 2] 1).2 3 (by decide) 5 (by decide)⟩

end TargetCapacityPools

end Beegfs
