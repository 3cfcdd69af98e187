import Mathlib

/-!
# Binary heaps in an array

The first `m` values of an array are a min-heap if no value is greater than those at the children of
its place.  While the value at a place moves down, the heap is right except at that place
(`HeapExcept`).  Each swap with the smaller child, and the end of the way, neither repair nor break
anything else, so the way down ends in a heap if and only if it started from a heap except at its
place.
-/

namespace Beegfs

/-- The place `c` is a child of the place `i`. -/
def IsChild (i c : ℕ) : Prop := c = 2 * i + 1 ∨ c = 2 * i + 2
  deriving Decidable

lemma IsChild.lt {i c : ℕ} (h : IsChild i c) : i < c := by
  rcases h with rfl | rfl <;> omega

/-- A place has one parent. -/
lemma IsChild.parent_unique {i j c : ℕ} (hi : IsChild i c) (hj : IsChild j c) : i = j := by
  rw [IsChild] at hi hj
  omega

/-- Every place but the root has a parent. -/
lemma exists_isChild {c : ℕ} (hc : 0 < c) : ∃ i, IsChild i c := by
  refine ⟨(c - 1) / 2, ?_⟩
  rw [IsChild]
  omega

section Heap

variable {β : Type*} [LinearOrder β] (v : ℕ → β) (m : ℕ)

/-- The first `m` values are a min-heap. -/
def IsMinHeap : Prop := ∀ c < m, ∀ i < c, IsChild i c → v i ≤ v c

instance : Decidable (IsMinHeap v m) :=
  inferInstanceAs (Decidable (∀ c < m, ∀ i < c, IsChild i c → v i ≤ v c))

/-- The first `m` values are a min-heap up to the value at `k`, which may be too great. -/
structure HeapExcept (k : ℕ) : Prop where
  away : ∀ c < m, ∀ i, i ≠ k → IsChild i c → v i ≤ v c
  across : ∀ c < m, ∀ i, IsChild i k → IsChild k c → v i ≤ v c

/-- The place of the smallest value among that at `i` and those at its children. -/
def minNode (i : ℕ) : ℕ :=
  let leftChild := 2 * i + 1
  let rightChild := 2 * i + 2
  let node := if leftChild < m ∧ v leftChild < v i then leftChild else i
  if rightChild < m ∧ v rightChild < v node then rightChild else node

variable {v m} {i k : ℕ}

/-- The root of a heap has the smallest value. -/
lemma IsMinHeap.root_le (h : IsMinHeap v m) {c : ℕ} (hc : c < m) : v 0 ≤ v c := by
  induction c using Nat.strongRecOn with
  | _ c ih =>
    rcases Nat.eq_zero_or_pos c with rfl | hpos
    · exact le_refl _
    · obtain ⟨i, hi⟩ := exists_isChild hpos
      exact (ih i hi.lt (hi.lt.trans hc)).trans (h c hc i hi.lt hi)

/-- A greatest value may be appended. -/
lemma isMinHeap_succ_iff (hle : ∀ i < m, v i ≤ v m) : IsMinHeap v (m + 1) ↔ IsMinHeap v m := by
  constructor
  · intro h c hc
    exact h c (Nat.lt_succ_of_lt hc)
  · intro h c hc i hi hchild
    rcases Nat.lt_succ_iff_lt_or_eq.mp hc with hlt | rfl
    · exact h c hlt i hi hchild
    · exact hle i hi

/-- Only the values of the places matter. -/
lemma isMinHeap_congr {w : ℕ → β} (heq : ∀ k < m, v k = w k) : IsMinHeap v m ↔ IsMinHeap w m := by
  have himp : ∀ {v w : ℕ → β}, (∀ k < m, v k = w k) → IsMinHeap v m → IsMinHeap w m := by
    intro v w heq h c hc i hi hchild
    rw [← heq c hc, ← heq i (hi.trans hc)]
    exact h c hc i hi hchild
  exact ⟨himp heq, himp fun k hk => (heq k hk).symm⟩

/-- At the root nothing is above the value that may be too great. -/
lemma heapExcept_zero_iff :
    HeapExcept v m 0 ↔ ∀ c < m, ∀ i < c, 0 < i → IsChild i c → v i ≤ v c := by
  constructor
  · intro h c hc i _ hpos hchild
    exact h.away c hc i hpos.ne' hchild
  · intro h
    refine ⟨fun c hc i hi hchild => h c hc i hchild.lt (Nat.pos_of_ne_zero hi) hchild, ?_⟩
    intro c _ i hi
    nomatch hi.lt

/-! ## One step down -/

/-- Either the value is right at its place, or it is greater than that of its smaller child. -/
lemma minNode_cases (v : ℕ → β) (m i : ℕ) :
    (minNode v m i = i ∧ ∀ c < m, IsChild i c → v i ≤ v c) ∨
      (IsChild i (minNode v m i) ∧ minNode v m i < m ∧ v (minNode v m i) < v i ∧
        ∀ c < m, IsChild i c → v (minNode v m i) ≤ v c) := by
  by_cases hleft : 2 * i + 1 < m ∧ v (2 * i + 1) < v i
  · by_cases hright : 2 * i + 2 < m ∧ v (2 * i + 2) < v (2 * i + 1)
    · have hnode : minNode v m i = 2 * i + 2 := by simp [minNode, hleft, hright]
      rw [hnode]
      refine .inr ⟨.inr rfl, hright.1, hright.2.trans hleft.2, ?_⟩
      rintro c - (rfl | rfl)
      · exact hright.2.le
      · exact le_refl _
    · have hnode : minNode v m i = 2 * i + 1 := by simp [minNode, hleft, hright]
      rw [hnode]
      refine .inr ⟨.inl rfl, hleft.1, hleft.2, ?_⟩
      rintro c hc (rfl | rfl)
      · exact le_refl _
      · exact le_of_not_gt fun hlt => hright ⟨hc, hlt⟩
  · by_cases hright : 2 * i + 2 < m ∧ v (2 * i + 2) < v i
    · have hnode : minNode v m i = 2 * i + 2 := by simp [minNode, hleft, hright]
      rw [hnode]
      refine .inr ⟨.inr rfl, hright.1, hright.2, ?_⟩
      rintro c hc (rfl | rfl)
      · exact hright.2.le.trans (le_of_not_gt fun hlt => hleft ⟨hc, hlt⟩)
      · exact le_refl _
    · have hnode : minNode v m i = i := by simp [minNode, hleft, hright]
      rw [hnode]
      refine .inl ⟨rfl, ?_⟩
      rintro c hc (rfl | rfl)
      · exact le_of_not_gt fun hlt => hleft ⟨hc, hlt⟩
      · exact le_of_not_gt fun hlt => hright ⟨hc, hlt⟩

/-- When the value is right at its place, the heap is right. -/
lemma isMinHeap_iff_heapExcept (hle : ∀ c < m, IsChild k c → v k ≤ v c) :
    IsMinHeap v m ↔ HeapExcept v m k := by
  constructor
  · intro h
    refine ⟨fun c hc i _ hchild => h c hc i hchild.lt hchild, fun c hc i hi hchild => ?_⟩
    have hkm : k < m := hchild.lt.trans hc
    exact (h k hkm i hi.lt hi).trans (hle c hc hchild)
  · intro h c hc i _ hchild
    by_cases hik : i = k
    · rw [hik] at hchild ⊢
      exact hle c hc hchild
    · exact h.away c hc i hik hchild

/-- A swap with the smaller child moves the place of the exception and nothing else. -/
lemma heapExcept_swap_iff {d : ℕ} (hchild : IsChild k d) (hd : d < m) (hlt : v d < v k)
    (hmin : ∀ c < m, IsChild k c → v d ≤ v c) :
    HeapExcept (v ∘ Equiv.swap k d) m d ↔ HeapExcept v m k := by
  have hkd : k ≠ d := hchild.lt.ne
  have hk : (v ∘ Equiv.swap k d) k = v d := congrArg v (Equiv.swap_apply_left k d)
  have hother : ∀ c, c ≠ k → c ≠ d → (v ∘ Equiv.swap k d) c = v c := fun c hck hcd =>
    congrArg v (Equiv.swap_apply_of_ne_of_ne hck hcd)
  have hbelow : ∀ c, IsChild d c → (v ∘ Equiv.swap k d) c = v c := fun c hc =>
    hother c (hchild.lt.trans hc.lt).ne' hc.lt.ne'
  constructor
  · intro h
    refine ⟨fun c hc i hik hic => ?_, fun c hc i hi hkc => ?_⟩
    · by_cases hid : i = d
      · -- What is below `d` was compared with the value that moved up.
        rw [hid] at hic ⊢
        have hacross := h.across c hc k hchild hic
        rwa [hk, hbelow c hic] at hacross
      · by_cases hck : c = k
        · have haway := h.away c hc i hid hic
          rw [hck, hk, hother i hik hid] at haway
          rw [hck]
          exact haway.trans hlt.le
        · have hcd : c ≠ d := fun hcd => hik ((hcd ▸ hic).parent_unique hchild)
          have haway := h.away c hc i hid hic
          rwa [hother i hik hid, hother c hck hcd] at haway
    · have hid : i ≠ d := (hi.lt.trans hchild.lt).ne
      have haway := h.away k (hkc.lt.trans hc) i hid hi
      rw [hk, hother i hi.lt.ne hid] at haway
      exact haway.trans (hmin c hc hkc)
  · intro h
    refine ⟨fun c hc i hid hic => ?_, fun c hc i hi hdc => ?_⟩
    · by_cases hik : i = k
      · rw [hik, hk]
        rw [hik] at hic
        by_cases hcd : c = d
        · rw [hcd, show (v ∘ Equiv.swap k d) d = v k from congrArg v (Equiv.swap_apply_right k d)]
          exact hlt.le
        · rw [hother c hic.lt.ne' hcd]
          exact hmin c hc hic
      · by_cases hck : c = k
        · rw [hck] at hic ⊢
          rw [hk, hother i hik hid]
          exact h.across d hd i hic hchild
        · have hcd : c ≠ d := fun hcd => hik ((hcd ▸ hic).parent_unique hchild)
          rw [hother i hik hid, hother c hck hcd]
          exact h.away c hc i hik hic
    · rw [hi.parent_unique hchild, hk, hbelow c hdc]
      exact h.away c hc d hkd.symm hdc

end Heap

end Beegfs
