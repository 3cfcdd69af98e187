import Mathlib

/-!
# Bytes in memory

Numbers as little-endian bytes, and a memory that blocks of bytes are stored to and loaded from.  A
memory gives a byte to every address; which addresses may be used is not its concern.
-/

namespace Beegfs

open BitVec List

/-- A byte. -/
abbrev Byte := BitVec 8

namespace Bytes

/-! ## Little-endian numbers -/

/-- The `k` low bytes of a number, the lowest first. -/
def leBytes : ℕ → ℕ → List Byte
  | 0, _ => []
  | k + 1, n => BitVec.ofNat 8 n :: leBytes k (n / 256)

/-- The number with the given bytes, the lowest first. -/
def ofLeBytes : List Byte → ℕ
  | [] => 0
  | b :: bs => b.toNat + 256 * ofLeBytes bs

@[simp] lemma length_leBytes (k n : ℕ) : (leBytes k n).length = k := by
  induction k generalizing n with
  | zero => rfl
  | succ k ih => rw [leBytes, length_cons, ih]

lemma ofLeBytes_leBytes {k n : ℕ} (h : n < 256 ^ k) : ofLeBytes (leBytes k n) = n := by
  induction k generalizing n with
  | zero =>
    rw [pow_zero, Nat.lt_one_iff] at h
    rw [h]
    rfl
  | succ k ih =>
    have hdiv : n / 256 < 256 ^ k := by
      rw [Nat.div_lt_iff_lt_mul (by decide)]
      exact h
    rw [leBytes, ofLeBytes, ih hdiv]
    exact Nat.mod_add_div n 256

lemma ofLeBytes_lt (bs : List Byte) : ofLeBytes bs < 256 ^ bs.length := by
  induction bs with
  | nil => exact Nat.one_pos
  | cons b bs ih =>
    rw [ofLeBytes, length_cons]
    omega

lemma leBytes_ofLeBytes (bs : List Byte) : leBytes bs.length (ofLeBytes bs) = bs := by
  induction bs with
  | nil => rfl
  | cons b bs ih =>
    have hlow : BitVec.ofNat 8 (b.toNat + 256 * ofLeBytes bs) = b := by
      rw [← toNat_inj, toNat_ofNat]
      omega
    have hdiv : (b.toNat + 256 * ofLeBytes bs) / 256 = ofLeBytes bs := by omega
    rw [length_cons, leBytes, ofLeBytes, hlow, hdiv, ih]

/-! ## Words -/

/-- The bytes of a word. -/
def wordBytes {w : ℕ} (value : BitVec w) : List Byte := leBytes (w / 8) value.toNat

/-- The word with the given bytes. -/
def ofWordBytes (w : ℕ) (bs : List Byte) : BitVec w := BitVec.ofNat w (ofLeBytes bs)

@[simp] lemma length_wordBytes {w : ℕ} (value : BitVec w) : (wordBytes value).length = w / 8 :=
  length_leBytes (w / 8) value.toNat

lemma two_pow_eq_of_dvd {w : ℕ} (hw : 8 ∣ w) : 2 ^ w = 256 ^ (w / 8) := by
  obtain ⟨k, rfl⟩ := hw
  rw [Nat.mul_div_cancel_left k (by decide), pow_mul]
  rfl

lemma ofWordBytes_wordBytes {w : ℕ} (hw : 8 ∣ w) (value : BitVec w) :
    ofWordBytes w (wordBytes value) = value := by
  have hlt := value.isLt
  rw [two_pow_eq_of_dvd hw] at hlt
  rw [ofWordBytes, wordBytes, ofLeBytes_leBytes hlt, ofNat_toNat, setWidth_eq]

lemma wordBytes_ofWordBytes {w : ℕ} (hw : 8 ∣ w) {bs : List Byte} (hbs : bs.length = w / 8) :
    wordBytes (ofWordBytes w bs) = bs := by
  have hlt := ofLeBytes_lt bs
  rw [hbs, ← two_pow_eq_of_dvd hw] at hlt
  rw [ofWordBytes, wordBytes, toNat_ofNat, Nat.mod_eq_of_lt hlt, ← hbs, leBytes_ofLeBytes]

/-! ## Memory -/

/-- The block of `n` bytes at address `a`. -/
def load (mem : ℕ → Byte) (a : ℕ) : ℕ → List Byte
  | 0 => []
  | n + 1 => mem a :: load mem (a + 1) n

/-- The memory after a block was stored at address `a`. -/
def store (mem : ℕ → Byte) (a : ℕ) (bs : List Byte) : ℕ → Byte := fun i =>
  if i < a then mem i else (bs[i - a]?).getD (mem i)

variable {mem : ℕ → Byte} {a n : ℕ} {bs : List Byte}

/-- The bytes of a block by their places in it. -/
lemma load_eq_map : load mem a n = (List.range n).map fun i => mem (a + i) := by
  induction n generalizing a with
  | zero => rfl
  | succ n ih => simp [load, ih, range_succ_eq_map, Nat.add_right_comm, Nat.add_assoc]

@[simp] lemma length_load (mem : ℕ → Byte) (a n : ℕ) : (load mem a n).length = n := by
  simp [load_eq_map]

/-- A block is its first bytes and the rest. -/
lemma load_add (a m n : ℕ) : load mem a (m + n) = load mem a m ++ load mem (a + m) n := by
  simp [load_eq_map, range_add, Nat.add_assoc]

@[simp] lemma store_nil : store mem a [] = mem := by
  funext i
  simp [store]

/-- Blocks that are stored one after the other are one block. -/
lemma store_store (bs cs : List Byte) :
    store (store mem a bs) (a + bs.length) cs = store mem a (bs ++ cs) := by
  funext i
  unfold store
  rcases Nat.lt_or_ge i a with hi | hi
  · simp [hi, Nat.lt_add_right bs.length hi]
  rcases Nat.lt_or_ge i (a + bs.length) with hi' | hi'
  · have hlt : i - a < bs.length := by omega
    simp [Nat.not_lt.mpr hi, hi', List.getElem?_append_left hlt, hlt]
  · have hge : bs.length ≤ i - a := by omega
    have hsub : i - a - bs.length = i - (a + bs.length) := by omega
    simp [Nat.not_lt.mpr hi, Nat.not_lt.mpr hi', List.getElem?_append_right hge, hsub,
      List.getElem?_eq_none hge]

/-- Storing over the first bytes of a block replaces them. -/
lemma store_store_of_length_eq (mem : ℕ → Byte) (a : ℕ) {bs bs' : List Byte}
    (h : bs'.length = bs.length) (cs : List Byte) :
    store (store mem a (bs ++ cs)) a bs' = store mem a (bs' ++ cs) := by
  funext i
  unfold store
  rcases Nat.lt_or_ge i a with hi | hi
  · simp [hi]
  rcases Nat.lt_or_ge (i - a) bs'.length with hi' | hi'
  · simp [Nat.not_lt.mpr hi, List.getElem?_append_left hi', hi']
  · have hi'' : bs.length ≤ i - a := h ▸ hi'
    simp [Nat.not_lt.mpr hi, List.getElem?_eq_none hi', List.getElem?_append_right hi',
      List.getElem?_append_right hi'', h]

lemma store_of_mem {i : ℕ} (hi : i < bs.length) : store mem a bs (a + i) = bs.getD i 0 := by
  simp [store, hi]

lemma store_of_not_mem {i : ℕ} (hi : i < a ∨ a + bs.length ≤ i) : store mem a bs i = mem i := by
  rcases hi with hi | hi
  · simp [store, hi]
  · have hlen : bs.length ≤ i - a := by omega
    simp [store, List.getElem?_eq_none hlen]

/-- A block is determined by its bytes. -/
lemma load_eq (h : ∀ i, i < bs.length → mem (a + i) = bs.getD i 0) : load mem a bs.length = bs := by
  refine ext_getElem (length_load mem a bs.length) fun i _ hi => ?_
  simp [load_eq_map, h i hi, hi]

/-- Blocks are equal when their bytes are. -/
lemma load_congr {mem' : ℕ → Byte} {a' : ℕ} (h : ∀ i, i < n → mem (a + i) = mem' (a' + i)) :
    load mem a n = load mem' a' n := by
  rw [load_eq_map, load_eq_map]
  exact map_congr_left fun i hi => h i (mem_range.mp hi)

/-- A block is found again in a greater one. -/
lemma prefix_drop_load (h : load mem a bs.length = bs) (hle : a + bs.length ≤ n) :
    bs <+: (load mem 0 n).drop a := by
  obtain ⟨-, rfl⟩ := Nat.exists_eq_add_of_le hle
  have hlen := length_load mem 0 a
  rw [Nat.add_assoc, load_add, drop_left' hlen, Nat.zero_add, load_add, h]
  exact prefix_append bs _

/-! ## Copying -/

/-- The memory after `n` bytes at address `b` of `src` were copied to address `a`. -/
def copy (mem : ℕ → Byte) (a : ℕ) (src : ℕ → Byte) (b n : ℕ) : ℕ → Byte := fun i =>
  if a ≤ i ∧ i < a + n then src (b + (i - a)) else mem i

lemma copy_of_mem {src : ℕ → Byte} {b i : ℕ} (hi : i < n) :
    copy mem a src b n (a + i) = src (b + i) := by
  rw [copy, if_pos ⟨Nat.le_add_right a i, Nat.add_lt_add_left hi a⟩, Nat.add_sub_cancel_left]

lemma copy_of_not_mem {src : ℕ → Byte} {b i : ℕ} (hi : i < a ∨ a + n ≤ i) :
    copy mem a src b n i = mem i := by
  rw [copy, if_neg (by omega)]

end Bytes

end Beegfs
