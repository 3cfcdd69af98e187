import Mathlib

/-!
# Closed intervals of natural numbers

The arithmetic of closed intervals `Set.Icc a b` with `a ≤ b`, as it is needed for locks on byte
ranges: when two intervals overlap, when they at least touch (so that their union is an interval
again), what is left of an interval from which another one is cut out, and that an interval that is
separate from two touching ones is separate from their hull.
-/

namespace Beegfs.Interval

/-- The intervals `[a, b]` and `[c, d]` have a common point. -/
def Overlap (a b c d : ℕ) : Prop := c ≤ b ∧ a ≤ d
  deriving Decidable

/-- The union of `[a, b]` and `[c, d]` has no gap: they overlap or one continues the other. -/
def Touch (a b c d : ℕ) : Prop := c ≤ b + 1 ∧ a ≤ d + 1
  deriving Decidable

variable {a b c d e f x : ℕ}

lemma Overlap.symm (h : Overlap a b c d) : Overlap c d a b := ⟨h.2, h.1⟩

lemma Touch.symm (h : Touch a b c d) : Touch c d a b := ⟨h.2, h.1⟩

lemma Overlap.touch (h : Overlap a b c d) : Touch a b c d :=
  ⟨Nat.le_succ_of_le h.1, Nat.le_succ_of_le h.2⟩

/-- Intervals overlap exactly when a point lies in both. -/
lemma overlap_iff_exists (hab : a ≤ b) (hcd : c ≤ d) :
    Overlap a b c d ↔ ∃ x, x ∈ Set.Icc a b ∧ x ∈ Set.Icc c d := by
  constructor
  · rintro ⟨h1, h2⟩
    exact ⟨max a c, ⟨le_max_left a c, max_le hab h1⟩, ⟨le_max_right a c, max_le h2 hcd⟩⟩
  · rintro ⟨x, ⟨h1, h2⟩, ⟨h3, h4⟩⟩
    exact ⟨h3.trans h2, h1.trans h4⟩

/-- The hull of two touching intervals is their union. -/
lemma mem_hull_iff (h : Touch a b c d) :
    x ∈ Set.Icc (min a c) (max b d) ↔ x ∈ Set.Icc a b ∨ x ∈ Set.Icc c d := by
  obtain ⟨_, _⟩ := h
  simp only [Set.mem_Icc]
  omega

/-- An interval separate from two touching intervals is separate from their hull. -/
lemma not_touch_hull (h : Touch a b c d) (h1 : ¬ Touch a b e f) (h2 : ¬ Touch c d e f)
    (hef : e ≤ f) : ¬ Touch (min a c) (max b d) e f := by
  unfold Touch at *
  omega

end Beegfs.Interval
