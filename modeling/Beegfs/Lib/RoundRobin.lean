import Mathlib

/-!
# Blocks dealt out in turn

Positions `0, 1, 2, …` are cut into blocks of `c` positions, and the blocks are dealt out in turn to
`n` buckets: position `x` goes to bucket `x / c % n`.  The share of bucket `i` below `p` is the
number of positions below `p` that it gets.  `share_eq` gives the share in closed form, by the
bucket's place relative to the bucket of `p`, and `share_eq_add_min` gives it by the length of the
last incomplete row of `n` blocks.
-/

namespace Beegfs.RoundRobin

open Finset Nat

variable {c n i p : ℕ}

/-- The positions below `p` that go to bucket `i`. -/
def members (c n i p : ℕ) : Finset ℕ := (Finset.range p).filter fun x => x / c % n = i

/-- The number of positions below `p` that go to bucket `i`. -/
def share (c n i p : ℕ) : ℕ := (members c n i p).card

/-- What bucket `i` holds of a row of blocks that is filled up to bucket `m`, which holds `r`. -/
def rowShare (c m r i : ℕ) : ℕ := if i < m then c else if i = m then r else 0

/-- One more position is one more in the bucket that it goes to. -/
lemma share_succ : share c n i (p + 1) = share c n i p + if p / c % n = i then 1 else 0 := by
  unfold share members
  rw [range_add_one, filter_insert]
  split_ifs with h
  · simp
  · rfl

/-- The buckets share all the positions. -/
lemma sum_share (hn : 0 < n) : ∑ i ∈ Finset.range n, share c n i p = p := by
  have hmaps : Set.MapsTo (fun x => x / c % n) (Finset.range p) (Finset.range n) := by
    intro x _
    exact mem_coe.mpr (mem_range.mpr (mod_lt _ hn))
  have hcard := card_eq_sum_card_fiberwise hmaps
  rw [card_range] at hcard
  exact hcard.symm

/-- Division and remainder of the next position inside a block. -/
lemma div_mod_succ_of_lt (h : p % c + 1 < c) : (p + 1) / c = p / c ∧ (p + 1) % c = p % c + 1 := by
  have hc : 0 < c := by omega
  have hdecomp : p + 1 = (p % c + 1) + c * (p / c) := by
    have := mod_add_div p c
    omega
  rw [hdecomp, add_mul_div_left _ _ hc, add_mul_mod_self_left, div_eq_of_lt h, mod_eq_of_lt h]
  simp

/-- Division and remainder of the next position after the last one of a block. -/
lemma div_mod_succ_of_eq (h : p % c + 1 = c) : (p + 1) / c = p / c + 1 ∧ (p + 1) % c = 0 := by
  have hc : 0 < c := by omega
  have hdecomp : p + 1 = c * (p / c + 1) := by
    have := mod_add_div p c
    rw [Nat.mul_add]
    omega
  rw [hdecomp, Nat.mul_div_cancel_left _ hc]
  simp

/-- The share in closed form: the complete rows, and what the bucket holds of the last row. -/
lemma share_eq (hc : 0 < c) (hi : i < n) :
    share c n i p = c * (p / c / n) + rowShare c (p / c % n) (p % c) i := by
  induction p with
  | zero => simp [share, members, rowShare]
  | succ p ih =>
    rw [share_succ, ih]
    have hr := mod_lt p hc
    have hm := mod_lt (p / c) (zero_lt_of_lt hi)
    -- the next position stays in its block, starts a block of the same row, or starts a row
    rcases Nat.lt_or_eq_of_le (succ_le_of_lt hr) with hlt | heq
    · obtain ⟨hdiv, hmod⟩ := div_mod_succ_of_lt hlt
      rw [hdiv]
      unfold rowShare
      split_ifs <;> omega
    · obtain ⟨hdiv, hmod⟩ := div_mod_succ_of_eq heq
      rw [hdiv]
      rcases Nat.lt_or_eq_of_le (succ_le_of_lt hm) with hlt' | heq'
      · obtain ⟨hdiv', hmod'⟩ := div_mod_succ_of_lt hlt'
        rw [hdiv']
        unfold rowShare
        split_ifs <;> omega
      · obtain ⟨hdiv', hmod'⟩ := div_mod_succ_of_eq heq'
        rw [hdiv', Nat.mul_add]
        unfold rowShare
        split_ifs <;> omega

/-- In a walk around a ring of `n` elements, all elements come equally often, up to one time. -/
lemma countP_mod_le {j : ℕ} (hi : i < n) (hj : j < n) (p k : ℕ) :
    (List.range' p k).countP (· % n = i) ≤ (List.range' p k).countP (· % n = j) + 1 := by
  have hshare : ∀ i, (List.range' p k).countP (· % n = i) + share 1 n i p =
    share 1 n i (p + k) := by
    intro i
    induction k with
    | zero => exact Nat.zero_add _
    | succ k ih =>
      rw [List.range'_1_concat, List.countP_append, ← Nat.add_assoc p, share_succ,
        List.countP_singleton, Nat.div_one]
      simp only [decide_eq_true_eq]
      omega
  have hsharei := hshare i
  have hsharej := hshare j
  simp only [share_eq Nat.one_pos hi, share_eq Nat.one_pos hj, Nat.div_one, mod_one,
    rowShare] at hsharei hsharej
  split_ifs at hsharei hsharej <;> omega

/-- The length of the last row is the complete blocks of it and the rest of the last block. -/
lemma mod_row_eq : p % (c * n) = p / c % n * c + p % c := by
  rw [mod_mul, Nat.mul_comm, Nat.add_comm]

/-- What a bucket holds of a row, from the length of the row. -/
lemma rowShare_eq_min {m r : ℕ} (hr : r < c) : rowShare c m r i = min (m * c + r - i * c) c := by
  unfold rowShare
  split_ifs with hlt heq
  · have hle : (i + 1) * c ≤ m * c := Nat.mul_le_mul_right c hlt
    rw [Nat.add_mul] at hle
    omega
  · subst heq
    omega
  · have hle : (m + 1) * c ≤ i * c := Nat.mul_le_mul_right c (by omega)
    rw [Nat.add_mul] at hle
    omega

/-- The share from the length of the last row. -/
lemma share_eq_add_min (hc : 0 < c) (hi : i < n) :
    share c n i p = c * (p / (c * n)) + min (p % (c * n) - i * c) c := by
  rw [share_eq hc hi, rowShare_eq_min (mod_lt p hc), mod_row_eq, Nat.div_div_eq_div_mul]

/-- No bucket gets more positions than there are. -/
lemma share_le : share c n i p ≤ p := by
  have hle := card_filter_le (Finset.range p) fun x => x / c % n = i
  rw [card_range] at hle
  exact hle

/-- What lies before the bucket of `p` in the last row divides into the complete rows. -/
lemma sub_mod_sub_mul : p - p % c - p / c % n * c = c * (n * (p / c / n)) := by
  have hp := mod_add_div p c
  have hq := mod_add_div (p / c) n
  have hmul : c * (p / c) = p / c % n * c + c * (n * (p / c / n)) := by
    conv_lhs => rw [← hq]
    ring
  omega

/-- The position of element `o` of bucket `i`. -/
def position (c n i o : ℕ) : ℕ := c * (n * (o / c) + i) + o % c

/-- Elements of earlier blocks have smaller positions. -/
lemma position_lt_of_lt {j o o' : ℕ} (hc : 0 < c) (h : n * (o / c) + j < n * (o' / c) + i) :
    position c n j o < position c n i o' := by
  have hblock := Nat.mul_le_mul_left c (succ_le_of_lt h)
  have hr := mod_lt o hc
  rw [mul_succ] at hblock
  unfold position
  omega

lemma position_strictMono (hc : 0 < c) (hn : 0 < n) : StrictMono (position c n i) := by
  intro o o' h
  rcases Nat.lt_or_eq_of_le (Nat.div_le_div_right (c := c) h.le) with hlt | heq
  · exact position_lt_of_lt hc (Nat.add_lt_add_right (Nat.mul_lt_mul_of_pos_left hlt hn) i)
  · have hdiv := div_add_mod o c
    have hdiv' := div_add_mod o' c
    unfold position
    rw [← heq] at hdiv' ⊢
    omega

/-- Every position is one of the bucket that it goes to. -/
lemma position_share (hc : 0 < c) (hi : p / c % n = i) (hn : 0 < n) :
    position c n i (share c n i p) = p := by
  have hlt : i < n := hi ▸ mod_lt _ hn
  have hr := mod_lt p hc
  rw [share_eq hc hlt, hi, rowShare, if_neg (lt_irrefl i), if_pos rfl, position,
    mul_add_div hc, div_eq_of_lt hr, mul_add_mod, mod_eq_of_lt hr, Nat.add_zero,
    ← hi, div_add_mod, div_add_mod]

lemma position_div_mod (hc : 0 < c) (hi : i < n) (o : ℕ) : position c n i o / c % n = i := by
  rw [position, mul_add_div hc, div_eq_of_lt (mod_lt o hc), Nat.add_zero,
    mul_add_mod, mod_eq_of_lt hi]

/-- The share of a bucket is the number of its elements with smaller positions. -/
lemma lt_share_iff (hc : 0 < c) (hi : i < n) {o : ℕ} :
    o < share c n i p ↔ position c n i o < p := by
  have hn := zero_lt_of_lt hi
  induction p with
  | zero => simp [share, members]
  | succ p ih =>
    rw [share_succ]
    split_ifs with h
    · rw [Nat.lt_succ_iff, Nat.lt_succ_iff, ← (position_strictMono hc hn).le_iff_le,
        position_share hc h hn]
    · have hne : position c n i o ≠ p := by
        rintro rfl
        exact h (position_div_mod hc hi o)
      exact ih.trans ⟨lt_succ_of_lt, fun hlt => by omega⟩

/-! ## Buckets that are filled unevenly -/

/-- The number of blocks of a bucket with `s` elements, the last of which may be incomplete. -/
def blocks (c s : ℕ) : ℕ := if s = 0 then 0 else (s - 1) / c + 1

/-- The ends of which all elements of the buckets lie before, bucket `i` having `size i`
elements. -/
def ends (c n : ℕ) (size : ℕ → ℕ) : Set ℕ := {e | ∀ i < n, ∀ o < size i, position c n i o < e}

/-- Bucket `i` is the last one of the first `n` buckets with the greatest number. -/
structure LastMax (num : ℕ → ℕ) (n i : ℕ) : Prop where
  lt : i < n
  le : ∀ j < n, num j ≤ num i
  behind : ∀ j < n, i < j → num j < num i

lemma blocks_le {s : ℕ} : blocks c s ≤ s := by
  have hle := Nat.div_le_self (s - 1) c
  unfold blocks
  split_ifs <;> omega

lemma div_lt_blocks {s o : ℕ} (h : o < s) : o / c < blocks c s := by
  rw [blocks, if_neg (Nat.ne_zero_of_lt h)]
  exact lt_succ_of_le (Nat.div_le_div_right (le_sub_one_of_lt h))

namespace LastMax

variable {num size : ℕ → ℕ}

lemma first : LastMax num 1 0 where
  lt := Nat.one_pos
  le j hj := by rw [lt_one_iff.mp hj]
  behind j hj hpos := absurd hj (Nat.not_lt.mpr hpos)

lemma next (h : LastMax num n i) (hle : num i ≤ num n) : LastMax num (n + 1) n where
  lt := lt_succ_self n
  le j hj := by
    rcases Nat.lt_succ_iff_lt_or_eq.mp hj with hlt | rfl
    · exact (h.le j hlt).trans hle
    · exact le_rfl
  behind j hj hlt := absurd hj (Nat.not_lt.mpr hlt)

lemma skip (h : LastMax num n i) (hlt : num n < num i) : LastMax num (n + 1) i where
  lt := lt_succ_of_lt h.lt
  le j hj := by
    rcases Nat.lt_succ_iff_lt_or_eq.mp hj with hj | rfl
    · exact h.le j hj
    · exact hlt.le
  behind j hj hij := by
    rcases Nat.lt_succ_iff_lt_or_eq.mp hj with hj | rfl
    · exact h.behind j hj hij
    · exact hlt

variable (h : LastMax (fun i => blocks c (size i)) n i)

include h

lemma isLeast_zero (hsize : size i = 0) : IsLeast (ends c n size) 0 := by
  refine ⟨fun j hj o ho => ?_, fun e _ => zero_le e⟩
  have hle : blocks c (size j) ≤ blocks c (size i) := h.le j hj
  rw [hsize] at hle
  nomatch lt_of_lt_of_le (div_lt_blocks ho) hle

/-- The last element of the last bucket with the most blocks is the last one of all. -/
lemma isLeast_position (hc : 0 < c) (hsize : size i ≠ 0) :
    IsLeast (ends c n size) (position c n i (size i - 1) + 1) := by
  have hi : blocks c (size i) = (size i - 1) / c + 1 := if_neg hsize
  refine ⟨fun j hj o ho => lt_succ_of_le ?_, fun e he => he i h.lt _ (Nat.sub_one_lt hsize)⟩
  have hblock := div_lt_blocks (c := c) ho
  rcases Nat.lt_trichotomy j i with hlt | rfl | hgt
  · have hle := Nat.mul_le_mul_left n
      (le_of_lt_succ (hi ▸ hblock.trans_le (h.le j hj)))
    exact (position_lt_of_lt hc (by omega)).le
  · exact (position_strictMono hc (zero_lt_of_lt hj)).monotone (le_sub_one_of_lt ho)
  · have hle := Nat.mul_le_mul_left n
      (le_of_lt_succ (hi ▸ lt_of_le_of_lt hblock (h.behind j hj hgt)))
    rw [mul_succ] at hle
    exact (position_lt_of_lt hc (by omega)).le

end LastMax

/-- Buckets that the first `p` positions were dealt out to end at `p`. -/
lemma isLeast_ends_share (hc : 0 < c) (hn : 0 < n) :
    IsLeast (ends c n fun i => share c n i p) p := by
  refine ⟨fun i hi o ho => (lt_share_iff hc hi).mp ho, fun e he => ?_⟩
  by_contra hlt
  have hmod := mod_lt (e / c) hn
  have hpos := position_share hc (rfl : e / c % n = e / c % n) hn
  have hlast := he (e / c % n) hmod _
    ((lt_share_iff hc hmod).mpr (hpos.trans_lt (Nat.lt_of_not_le hlt)))
  exact Nat.lt_irrefl e (hpos.symm.trans_lt hlast)

end Beegfs.RoundRobin
