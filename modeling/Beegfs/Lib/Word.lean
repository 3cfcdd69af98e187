import Mathlib

/-!
# Fixed-width words

Facts about machine words that masks and shifts by powers of two need: masking with `m - 1` is the
remainder by `m` when `m` is a power of two, a word has a single bit set exactly when it is a power
of two, and signed and unsigned operations agree on words without the sign bit.  Flags are words
with a single bit set, which are added to and removed from other words.
-/

namespace Beegfs.Word

open BitVec

variable {v w k : ℕ}

/-- The predecessor of a non-zero word does not wrap. -/
lemma toNat_sub_one {m : BitVec w} (hm : 0 < m.toNat) : (m - 1).toNat = m.toNat - 1 := by
  have hw : 0 < w := by
    rcases Nat.eq_zero_or_pos w with rfl | hw
    · omega
    · exact hw
  have hone : (1 : BitVec w).toNat = 1 := toNat_one hw
  rw [toNat_sub_of_le, hone]
  rw [le_def, hone]
  exact hm

/-- Masking with a power of two minus one takes the remainder. -/
lemma toNat_and_sub_one {m : BitVec v} (hv : v ≤ w) (hm : m.toNat = 2 ^ k) (x : BitVec w) :
    (x &&& (m - 1).setWidth w).toNat = x.toNat % m.toNat := by
  have hpos : 0 < m.toNat := by
    rw [hm]
    exact Nat.two_pow_pos k
  rw [toNat_and, toNat_setWidth_of_le hv, toNat_sub_one hpos, hm, Nat.and_two_pow_sub_one_eq_mod]

/-- Words without sign bit divide the same way signed and unsigned. -/
lemma sdiv_eq_udiv {x y : BitVec w} (hx : x.msb = false) (hy : y.msb = false) :
    x.sdiv y = x / y := by
  rw [sdiv_eq, hx, hy]
  rfl

/-- Words without sign bit compare the same way signed and unsigned. -/
lemma slt_iff_toNat_lt {x y : BitVec w} (hx : x.msb = false) (hy : y.msb = false) :
    x.slt y = true ↔ x.toNat < y.toNat := by
  rw [slt_eq_ult, hx, hy]
  simp [BitVec.ult]

/-- A word below half of its range has no sign bit. -/
lemma msb_eq_false_of_lt {x : BitVec (w + 1)} (hx : x.toNat < 2 ^ w) : x.msb = false := by
  rw [msb_eq_false_iff_two_mul_lt]
  omega

/-- The position of the only bit, by counting the zero bits above it. -/
lemma toNat_thirty_one_sub_clz {m : BitVec 32} (hm : m.toNat = 2 ^ k) : (31 - m.clz).toNat = k := by
  have hk : k < 32 := by
    rw [← Nat.pow_lt_pow_iff_right (a := 2) (by decide), ← hm]
    exact m.isLt
  have hm' : m = BitVec.ofNat 32 (2 ^ k) := by
    rw [← toNat_inj, hm, toNat_ofNat, Nat.mod_eq_of_lt]
    rw [← hm]
    exact m.isLt
  subst hm'
  interval_cases k <;> decide

/-! ## Flags -/

variable {x y f g : BitVec w}

/-- Adding a flag that is set changes nothing. -/
lemma or_twoPow_eq_self (h : x &&& BitVec.twoPow w k ≠ 0) : x ||| BitVec.twoPow w k = x := by
  ext i hi
  grind

lemma or_and_eq_zero_iff : (x ||| y) &&& f = 0 ↔ x &&& f = 0 ∧ y &&& f = 0 := by
  rw [and_or_distrib_right]
  exact or_eq_zero_iff

lemma or_and_self_ne_zero (hf : f ≠ 0) (x : BitVec w) : (x ||| f) &&& f ≠ 0 := by
  intro hzero
  rw [or_and_eq_zero_iff, BitVec.and_self] at hzero
  exact hf hzero.2

/-- Adding a flag does not touch others. -/
lemma or_and_of_disjoint (h : g &&& f = 0) : (x ||| g) &&& f = x &&& f := by
  rw [and_or_distrib_right, h]
  exact or_zero

/-- Flags that are not there are not added by removing others. -/
lemma and_and_eq_zero (h : x &&& f = 0) (y : BitVec w) : (x &&& y) &&& f = 0 := by
  rw [BitVec.and_assoc, BitVec.and_comm y, ← BitVec.and_assoc, h]
  exact zero_and

lemma and_not_and_self (x f : BitVec w) : (x &&& ~~~ f) &&& f = 0 := by
  rw [BitVec.and_assoc]
  simp

/-- A word with flags of `y` only has no other flag. -/
lemma and_eq_zero_of_disjoint (h : x &&& ~~~ y = 0) (hf : f &&& y = 0) : x &&& f = 0 := by
  ext i hi
  have hx := congrArg (fun v : BitVec w => v.getLsbD i) h
  have hf := congrArg (fun v : BitVec w => v.getLsbD i) hf
  grind

/-- Removing a flag that is not set changes nothing. -/
lemma and_not_eq_self (h : x &&& f = 0) : x &&& ~~~ f = x := by
  ext i hi
  have hi' := congrArg (fun v : BitVec w => v.getLsbD i) h
  grind

/-- Removing a flag does not touch others. -/
lemma and_not_and_of_disjoint (h : g &&& f = 0) : (x &&& ~~~ g) &&& f = x &&& f := by
  rw [BitVec.and_assoc, BitVec.and_comm (~~~ g), and_not_eq_self (BitVec.and_comm f g ▸ h)]

end Beegfs.Word
