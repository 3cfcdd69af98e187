import Mathlib

/-!
# Maps kept in the order of their keys

`std::map<Key, Value>` keeps its entries in the order of the keys, which is the order in which an
iterator visits them.  `OrdMap` is such a map: a list of entries that carries the proof that the
keys are ascending.  A map is read through the membership of its entries: `mem_set`, `mem_erase` and
`find_eq_some_iff` say what the operations do, and `eq_of_mem` that a key has one value.
-/

namespace Beegfs

open List

/-- A map from `κ` to `ν` in the order of the keys. -/
structure OrdMap (κ ν : Type*) [LinearOrder κ] where
  /-- The entries in the order in which an iterator visits them. -/
  entries : List (κ × ν)
  /-- The key of an entry is smaller than the keys of all later ones. -/
  ascending : entries.Pairwise fun a b => a.1 < b.1

namespace OrdMap

variable {κ ν : Type*} [LinearOrder κ]

instance : Membership (κ × ν) (OrdMap κ ν) := ⟨fun m e => e ∈ m.entries⟩

lemma mem_def {m : OrdMap κ ν} {e : κ × ν} : e ∈ m ↔ e ∈ m.entries := Iff.rfl

/-- The map without entries. -/
def empty : OrdMap κ ν := ⟨[], List.Pairwise.nil⟩

variable (m : OrdMap κ ν)

/-- `m.find(k)` -/
def find (k : κ) : Option ν := (m.entries.find? fun e => e.1 = k).map Prod.snd

/-- `m[k] = v` -/
def set (k : κ) (v : ν) : OrdMap κ ν where
  entries := (m.entries.filter fun e => e.1 < k) ++ (k, v) :: m.entries.filter fun e => k < e.1
  ascending := by
    refine pairwise_append.mpr ⟨m.ascending.filter _, ?_, fun a ha b hb => ?_⟩
    · refine pairwise_cons.mpr ⟨fun b hb => ?_, m.ascending.filter _⟩
      exact of_decide_eq_true (mem_filter.mp hb).2
    · have hak : a.1 < k := of_decide_eq_true (mem_filter.mp ha).2
      rcases mem_cons.mp hb with rfl | hb
      · exact hak
      · exact hak.trans (of_decide_eq_true (mem_filter.mp hb).2)

/-- `m.erase(k)` -/
def erase (k : κ) : OrdMap κ ν where
  entries := m.entries.filter fun e => e.1 ≠ k
  ascending := m.ascending.filter _

variable {m : OrdMap κ ν} {k j : κ} {v w : ν}

@[simp] lemma not_mem_empty (e : κ × ν) : ¬ e ∈ (empty : OrdMap κ ν) := not_mem_nil

/-- A key has one value. -/
lemma eq_of_mem (hv : (k, v) ∈ m) (hw : (k, w) ∈ m) : v = w := by
  have hnodup : (m.entries.map Prod.fst).Nodup := pairwise_map.mpr (m.ascending.imp ne_of_lt)
  exact congrArg Prod.snd (inj_on_of_nodup_map hnodup hv hw rfl)

@[simp] lemma mem_set : (j, w) ∈ m.set k v ↔ (j = k ∧ w = v) ∨ (j ≠ k ∧ (j, w) ∈ m) := by
  rw [mem_def, set, mem_append, mem_cons, mem_filter, mem_filter, Prod.mk.injEq,
    decide_eq_true_eq, decide_eq_true_eq, ne_iff_lt_or_gt]
  tauto

@[simp] lemma mem_erase : (j, w) ∈ m.erase k ↔ j ≠ k ∧ (j, w) ∈ m := by
  rw [mem_def, erase, mem_filter, decide_eq_true_eq, and_comm]
  exact Iff.rfl

lemma find_eq_some_iff : m.find k = some v ↔ (k, v) ∈ m := by
  rw [find, Option.map_eq_some_iff]
  constructor
  · rintro ⟨e, hfind, rfl⟩
    have hkey := List.find?_some hfind
    rw [← of_decide_eq_true hkey]
    exact mem_of_find?_eq_some hfind
  · intro hmem
    rcases hfind : m.entries.find? fun e => e.1 = k with _ | e
    · exact absurd (decide_eq_true rfl) (List.find?_eq_none.mp hfind _ hmem)
    · have hkey := List.find?_some hfind
      have hmem' : (k, e.2) ∈ m := by
        rw [← of_decide_eq_true hkey]
        exact mem_of_find?_eq_some hfind
      exact ⟨e, hfind, eq_of_mem hmem' hmem⟩

end OrdMap

/-! ## Gaps between the keys -/

/-- `std::adjacent_find`: the first of the first two neighbours for which `p` holds. -/
def adjacentFind {α : Type*} (p : α → α → Bool) : List α → Option α
  | [] => none
  | [_] => none
  | a :: b :: l => if p a b then some a else adjacentFind p (b :: l)

/-- The element found and its neighbour. -/
lemma adjacentFind_eq_some {α : Type*} {p : α → α → Bool} {l : List α} {a : α}
    (h : adjacentFind p l = some a) : ∃ before b after, l = before ++ a :: b :: after ∧ p a b := by
  induction l with
  | nil => nomatch h
  | cons x l ih =>
    cases l with
    | nil => nomatch h
    | cons y l =>
      rw [adjacentFind] at h
      split_ifs at h with hp
      · cases h
        exact ⟨[], y, l, rfl, hp⟩
      · obtain ⟨before, b, after, heq, hab⟩ := ih h
        exact ⟨x :: before, b, after, congrArg (x :: ·) heq, hab⟩

/-- Without a find no two neighbours have `p`. -/
lemma isChain_of_adjacentFind_eq_none {α : Type*} {p : α → α → Bool} {l : List α}
    (h : adjacentFind p l = none) : l.IsChain fun a b => ¬ p a b := by
  induction l with
  | nil => exact isChain_nil
  | cons x l ih =>
    cases l with
    | nil => exact isChain_singleton _
    | cons y l =>
      rw [adjacentFind] at h
      split_ifs at h with hp
      exact isChain_cons_cons.mpr ⟨hp, ih h⟩

/-- A list of numbers that never grows by more than one has all numbers between its first and its
last. -/
lemma mem_of_isChain_le_succ {l : List ℕ} (hchain : l.IsChain fun a b => b ≤ a + 1)
    {first last n : ℕ}
    (hfirst : l.head? = some first) (hlast : l.getLast? = some last) (hn : first ≤ n)
    (hn' : n ≤ last) : n ∈ l := by
  induction l generalizing first with
  | nil => nomatch hfirst
  | cons a l ih =>
    obtain rfl : a = first := Option.some.inj hfirst
    rcases hn.eq_or_lt with rfl | hlt
    · exact mem_cons_self
    · cases l with
      | nil =>
        obtain rfl : a = last := Option.some.inj hlast
        omega
      | cons b l =>
        obtain ⟨_, hrest⟩ := isChain_cons_cons.mp hchain
        exact mem_cons_of_mem a (ih hrest rfl (by simpa using hlast) (by omega))

end Beegfs
