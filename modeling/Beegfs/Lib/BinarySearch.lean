import Mathlib

/-!
# Binary search

The loop of `std::lower_bound` on a list, and `std::binary_search`, which on a sorted list says
whether the value is in it.
-/

namespace Beegfs

open Option

variable {α : Type} [LinearOrder α]

/-- The first place of the `len` places from `first` on whose value is not below `x`.  The length
halves in each round. -/
def lowerBound (l : List α) (x : α) : ℕ → ℕ → ℕ → ℕ
  | 0, first, _ => first
  | fuel + 1, first, len =>
    if len = 0 then first
    else if l[first + len / 2]?.any (· < x) then
      lowerBound l x fuel (first + len / 2 + 1) (len - len / 2 - 1)
    else lowerBound l x fuel first (len / 2)

/-- `std::binary_search` -/
def binarySearch (l : List α) (x : α) : Bool := l[lowerBound l x l.length 0 l.length]?.any (¬x < ·)

variable {l : List α} {x : α}

lemma le_of_getElem?_eq_some (h : l.Pairwise (· ≤ ·)) {i j : ℕ} (hij : i ≤ j) {y z : α}
    (hy : l[i]? = some y) (hz : l[j]? = some z) : y ≤ z := by
  obtain ⟨hi, rfl⟩ := List.getElem?_eq_some_iff.mp hy
  obtain ⟨hj, rfl⟩ := List.getElem?_eq_some_iff.mp hz
  rcases Nat.lt_or_eq_of_le hij with hlt | rfl
  · exact List.pairwise_iff_getElem.mp h i j hi hj hlt
  · exact le_rfl

/-- The place splits a sorted list into the values below `x` and the others. -/
lemma lowerBound_spec (h : l.Pairwise (· ≤ ·)) {fuel first len : ℕ} (hfuel : len ≤ fuel)
    (hlen : first + len ≤ l.length) (hbelow : ∀ i y, i < first → l[i]? = some y → y < x)
    (habove : ∀ i y, first + len ≤ i → l[i]? = some y → x ≤ y) :
    (∀ i y, i < lowerBound l x fuel first len → l[i]? = some y → y < x) ∧
      ∀ i y, lowerBound l x fuel first len ≤ i → l[i]? = some y → x ≤ y := by
  induction fuel generalizing first len with
  | zero =>
    obtain rfl : len = 0 := Nat.le_zero.mp hfuel
    exact ⟨hbelow, habove⟩
  | succ fuel ih =>
    rw [lowerBound]
    split_ifs with hzero hlt
    · rw [hzero] at habove
      exact ⟨hbelow, habove⟩
    · obtain ⟨m, hm, hmx⟩ := (any_eq_true _ _).mp hlt
      refine ih (by omega) (by omega) (fun i y hi hy => ?_) fun i y hi => habove i y (by omega)
      exact lt_of_le_of_lt (le_of_getElem?_eq_some h (Nat.le_of_lt_succ hi) hy hm)
        (of_decide_eq_true hmx)
    · refine ih (by omega) (by omega) hbelow fun i y hi hy => ?_
      obtain ⟨m, hm⟩ : ∃ m, l[first + len / 2]? = some m := ⟨_, List.getElem?_eq_getElem (by omega)⟩
      rw [hm, any_some, decide_eq_true_eq, not_lt] at hlt
      exact hlt.trans (le_of_getElem?_eq_some h hi hm hy)

lemma binarySearch_iff (h : l.Pairwise (· ≤ ·)) : binarySearch l x = true ↔ x ∈ l := by
  obtain ⟨hbelow, habove⟩ := lowerBound_spec (x := x) h (Nat.le_refl l.length)
    (Nat.zero_add l.length).le nofun fun i y hi hy => by
      rw [List.getElem?_eq_none (by omega)] at hy
      cases hy
  set place := lowerBound l x l.length 0 l.length with hplace
  rw [binarySearch, any_eq_true]
  constructor
  · rintro ⟨y, hy, hxy⟩
    have hle : y ≤ x := not_lt.mp (of_decide_eq_true hxy)
    rw [le_antisymm (habove place y le_rfl hy) hle]
    exact List.mem_of_getElem? hy
  · intro hx
    obtain ⟨i, hi⟩ := List.mem_iff_getElem?.mp hx
    have hplaceLe : place ≤ i := not_lt.mp fun hlt => lt_irrefl x (hbelow i x hlt hi)
    obtain ⟨hlt, -⟩ := List.getElem?_eq_some_iff.mp hi
    have hy := List.getElem?_eq_getElem (show place < l.length by omega)
    exact ⟨_, hy, decide_eq_true (not_lt.mpr (le_of_getElem?_eq_some h hplaceLe hy hi))⟩

end Beegfs
