import Mathlib

/-!
# Sequence numbers that wrap around

A sequence number is a word that counts items and wraps around.  At any time only numbers in a small
window are in use, so two of them are compared by their distance: a number is followed by those that
are at most half of the range ahead.  In a window, numbers compare like the natural numbers that
they stand for.
-/

namespace Beegfs.SeqNum

open BitVec Nat

variable {w : ℕ}

/-! ## Comparisons -/

/-- The largest distance of a number that is not older. -/
def halfRange (w : ℕ) : ℕ := (2 ^ w - 1) / 2

variable (a b : BitVec w)

def le : Bool := (b - a).toNat ≤ halfRange w

def lt : Bool := (b - (a + 1)).toNat ≤ halfRange w

def ge : Bool := (a - b).toNat ≤ halfRange w

/-- The place of a number in a ring of `count` items, where `count` is a power of two. -/
def slotFor (count : ℕ) (sn : BitVec w) : ℕ := (sn &&& BitVec.ofNat w (count - 1)).toNat

/-! ## Numbers in a window -/

/-- Both numbers lie in a window of half of the range. -/
def Near (w a b : ℕ) : Prop := 2 * a < 2 * b + 2 ^ w ∧ 2 * b < 2 * a + 2 ^ w

variable {a b c k : ℕ}

lemma Near.symm (h : Near w a b) : Near w b a := ⟨h.2, h.1⟩

lemma ofNat_add_one : BitVec.ofNat w a + 1 = BitVec.ofNat w (a + 1) := (ofNat_add a 1).symm

lemma ofNat_sub (hba : b ≤ a) : BitVec.ofNat w a - BitVec.ofNat w b = BitVec.ofNat w (a - b) := by
  rw [BitVec.sub_eq_iff_eq_add, ← ofNat_add, Nat.sub_add_cancel hba]

lemma toNat_sub (hba : b ≤ a) (h : a < b + 2 ^ w) :
    (BitVec.ofNat w a - BitVec.ofNat w b).toNat = a - b := by
  rw [ofNat_sub hba, toNat_ofNat, mod_eq_of_lt (by omega)]

/-- An older number is far ahead. -/
lemma toNat_sub_of_lt (hab : a < b) (h : b < a + 2 ^ w) :
    (BitVec.ofNat w a - BitVec.ofNat w b).toNat = 2 ^ w - (b - a) := by
  have heq : BitVec.ofNat w a - BitVec.ofNat w b = BitVec.ofNat w (2 ^ w - (b - a)) := by
    rw [BitVec.sub_eq_iff_eq_add, ← ofNat_add]
    have hsum : 2 ^ w - (b - a) + b = a + 2 ^ w := by omega
    rw [hsum, ← toNat_inj, toNat_ofNat, toNat_ofNat, add_mod_right]
  rw [heq, toNat_ofNat, mod_eq_of_lt (by omega)]

lemma toNat_sub_le_halfRange_iff (h : Near w a b) :
    (BitVec.ofNat w a - BitVec.ofNat w b).toNat ≤ halfRange w ↔ b ≤ a := by
  obtain ⟨_, _⟩ := h
  unfold halfRange
  rcases Nat.lt_or_ge a b with hab | hba
  · rw [toNat_sub_of_lt hab (by omega)]
    omega
  · rw [toNat_sub hba (by omega)]
    omega

@[simp] lemma ge_ofNat (h : Near w a b) :
    ge (BitVec.ofNat w a) (BitVec.ofNat w b) = decide (b ≤ a) :=
  decide_eq_decide.mpr (toNat_sub_le_halfRange_iff h)

@[simp] lemma le_ofNat (h : Near w a b) :
    le (BitVec.ofNat w a) (BitVec.ofNat w b) = decide (a ≤ b) :=
  decide_eq_decide.mpr (toNat_sub_le_halfRange_iff h.symm)

lemma toNat_sub_succ_le_halfRange_iff (hw : 0 < w) (h : Near w a b) :
    (BitVec.ofNat w a - (BitVec.ofNat w b + 1)).toNat ≤ halfRange w ↔ b < a := by
  have heven : 2 ^ w = 2 * 2 ^ (w - 1) := by rw [← Nat.pow_succ', succ_eq_add_one,
    Nat.sub_add_cancel hw]
  obtain ⟨_, _⟩ := h
  rw [ofNat_add_one]
  unfold halfRange
  rcases Nat.lt_or_ge a (b + 1) with hab | hba
  · rw [toNat_sub_of_lt hab (by omega)]
    omega
  · rw [toNat_sub hba (by omega)]
    omega

@[simp] lemma lt_ofNat (hw : 0 < w) (h : Near w a b) :
    lt (BitVec.ofNat w a) (BitVec.ofNat w b) = decide (a < b) :=
  decide_eq_decide.mpr (toNat_sub_succ_le_halfRange_iff hw h.symm)

lemma ofNat_inj (h : Near w a b) : BitVec.ofNat w a = BitVec.ofNat w b ↔ a = b := by
  refine ⟨fun heq => ?_, congrArg _⟩
  have hle := (toNat_sub_le_halfRange_iff h).mp
  have hge := (toNat_sub_le_halfRange_iff h.symm).mp
  rw [heq, BitVec.sub_self] at hle hge
  have hzero : (0#w).toNat ≤ halfRange w := by simp
  exact Nat.le_antisymm (hge hzero) (hle hzero)

/-- In a ring whose size is a power of two, the place does not depend on how often the number has
wrapped around. -/
lemma slotFor_ofNat (hk : k ≤ w) (a : ℕ) : slotFor (2 ^ k) (BitVec.ofNat w a) = a % 2 ^ k := by
  have hdvd : 2 ^ k ∣ 2 ^ w := Nat.pow_dvd_pow 2 hk
  have hle : 2 ^ k ≤ 2 ^ w := le_of_dvd (Nat.two_pow_pos w) hdvd
  rw [slotFor, toNat_and, toNat_ofNat, toNat_ofNat,
    mod_eq_of_lt (by omega : 2 ^ k - 1 < 2 ^ w), and_two_pow_sub_one_eq_mod,
    mod_mod_of_dvd a hdvd]

/-- Two different numbers that are closer than the size of the ring have different places. -/
lemma mod_ne_mod (hab : a < b) (h : b < a + c) : a % c ≠ b % c := by
  intro heq
  have hmod : (b - a) % c = 0 := sub_mod_eq_zero_of_mod_eq heq.symm
  rw [mod_eq_of_lt (by omega)] at hmod
  omega

end Beegfs.SeqNum
