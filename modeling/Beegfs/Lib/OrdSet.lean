import Mathlib

/-!
# Ordered sets with a user-supplied comparator

`std::set<T, Compare>` keeps its elements in the order of `Compare` and treats two elements as equal
when neither is smaller than the other.  An insert of an element that is equal to a stored one in
this sense changes nothing; a caller sees this only in the result of `insert`.

`OrdSet lt` is such a set for the comparator `lt`: a list that carries the proof that it is sorted.
Insertion, lookup and removal are given with the membership lemmas that the code's proofs use.
-/

namespace Beegfs

open List

/-- What `std::set` asks of its comparator, as far as the order of the stored elements goes. -/
class IsComparator {α : Type*} (lt : α → α → Bool) : Prop where
  /-- No element is smaller than itself. -/
  irrefl : ∀ a, lt a a = false
  /-- The comparator is transitive. -/
  trans : ∀ {a b c}, lt a b = true → lt b c = true → lt a c = true

/-- Two elements that the comparator does not tell apart. -/
def compEquiv {α : Type*} (lt : α → α → Bool) (a b : α) : Bool := !lt a b && !lt b a

/-- A set kept in the order of the comparator `lt`. -/
structure OrdSet {α : Type*} (lt : α → α → Bool) where
  /-- The elements in the order in which an iterator visits them. -/
  elems : List α
  /-- Each element is smaller than all later ones. -/
  sorted : elems.Pairwise fun a b => lt a b = true
  deriving DecidableEq

namespace OrdSet

variable {α : Type*} {lt : α → α → Bool}

instance : Membership α (OrdSet lt) := ⟨fun s x => x ∈ s.elems⟩

variable {s : OrdSet lt} {x : α}

lemma mem_def : x ∈ s ↔ x ∈ s.elems := Iff.rfl

/-- The set without elements. -/
def empty : OrdSet lt := ⟨[], List.Pairwise.nil⟩

@[simp] lemma not_mem_empty (x : α) : ¬ x ∈ (empty : OrdSet lt) := by
  simp [mem_def, empty]

/-- `find(x) != end()`: an element equal to `x` in the sense of the comparator is stored. -/
def contains (s : OrdSet lt) (x : α) : Bool := s.elems.any (compEquiv lt x)

/-- Insertion into a sorted list, without effect if an equal element is met. -/
def insertList (lt : α → α → Bool) (x : α) : List α → List α
  | [] => [x]
  | y :: ys =>
    if lt x y then x :: y :: ys
    else if lt y x then y :: insertList lt x ys
    else y :: ys

variable {y : α}

/-- Whatever `insertList` returns consists of the old elements and the new one. -/
lemma mem_of_mem_insertList {l : List α} (h : y ∈ insertList lt x l) : y = x ∨ y ∈ l := by
  induction l with
  | nil => exact .inl (mem_singleton.mp h)
  | cons z zs ih =>
    rw [insertList] at h
    split_ifs at h with hxz hzx
    · exact mem_cons.mp h
    · rcases mem_cons.mp h with rfl | h
      · exact .inr mem_cons_self
      · exact (ih h).imp_right (mem_cons_of_mem z)
    · exact .inr h

/-- Insertion keeps the list sorted. -/
lemma pairwise_insertList [IsComparator lt] (x : α) {l : List α}
    (hl : l.Pairwise fun a b => lt a b = true) :
    (insertList lt x l).Pairwise fun a b => lt a b = true := by
  induction l with
  | nil => exact pairwise_singleton _ x
  | cons y ys ih =>
    obtain ⟨hy, hys⟩ := pairwise_cons.mp hl
    rw [insertList]
    split_ifs with hxy hyx
    · refine pairwise_cons.mpr ⟨fun z hz => ?_, hl⟩
      rcases mem_cons.mp hz with rfl | hz
      · exact hxy
      · exact IsComparator.trans hxy (hy z hz)
    · refine pairwise_cons.mpr ⟨fun z hz => ?_, ih hys⟩
      rcases mem_of_mem_insertList hz with rfl | hz
      · exact hyx
      · exact hy z hz
    · exact hl

/-- `insert(x)`: without effect if an equal element is stored already. -/
def insert [IsComparator lt] (s : OrdSet lt) (x : α) : OrdSet lt :=
  ⟨insertList lt x s.elems, pairwise_insertList x s.sorted⟩

/-- The loop that erases every element satisfying `p`. -/
def eraseIf (s : OrdSet lt) (p : α → Bool) : OrdSet lt :=
  ⟨s.elems.filter fun y => !p y, s.sorted.filter _⟩

/-- `erase(find(x))`: removal of the element equal to `x`. -/
def erase (s : OrdSet lt) (x : α) : OrdSet lt := s.eraseIf (compEquiv lt x)

@[simp] lemma mem_eraseIf {p : α → Bool} : y ∈ s.eraseIf p ↔ y ∈ s ∧ p y = false := by
  simp [mem_def, eraseIf]

lemma mem_erase : y ∈ s.erase x ↔ y ∈ s ∧ compEquiv lt x y = false := mem_eraseIf

lemma contains_iff : s.contains x = true ↔ ∃ y ∈ s, compEquiv lt x y = true := by
  simp [contains, mem_def]

lemma contains_eq_false_iff : s.contains x = false ↔ ∀ y ∈ s, compEquiv lt x y = false := by
  simp [contains, mem_def]

lemma eraseIf_of_forall {p : α → Bool} (h : ∀ y ∈ s, ¬p y = true) : s.eraseIf p = s := by
  have hl : (s.eraseIf p).elems = s.elems := filter_eq_self.mpr fun y hy => by simp [h y hy]
  cases s
  simpa [eraseIf] using hl

/-- An element of an insertion is the new element or a stored one. -/
lemma mem_of_mem_insert [IsComparator lt] (h : y ∈ s.insert x) : y = x ∨ y ∈ s :=
  mem_of_mem_insertList h

/-- Stored elements survive an insertion. -/
lemma mem_insert_of_mem [IsComparator lt] (h : y ∈ s) : y ∈ s.insert x := by
  have key : ∀ l : List α, y ∈ l → y ∈ insertList lt x l := by
    intro l
    induction l with
    | nil => intro h; nomatch h
    | cons z zs ih =>
      intro h
      rw [insertList]
      split_ifs
      · exact mem_cons_of_mem x h
      · rcases mem_cons.mp h with rfl | h
        · exact mem_cons_self
        · exact mem_cons_of_mem z (ih h)
      · exact h
  exact key s.elems h

/-- An insertion that meets no equal element stores the new one. -/
lemma mem_insert_self [IsComparator lt] (h : s.contains x = false) : x ∈ s.insert x := by
  have key : ∀ l : List α, (∀ y ∈ l, compEquiv lt x y = false) → x ∈ insertList lt x l := by
    intro l
    induction l with
    | nil => intro _; exact mem_singleton_self x
    | cons z zs ih =>
      intro hl
      rw [insertList]
      split_ifs with hxz hzx
      · exact mem_cons_self
      · exact mem_cons_of_mem z (ih fun y hy => hl y (mem_cons_of_mem z hy))
      · have := hl z mem_cons_self
        simp [compEquiv, hxz, hzx] at this
  exact key s.elems (contains_eq_false_iff.mp h)

/-- The elements after an insertion that meets no equal element. -/
lemma mem_insert_iff [IsComparator lt] (h : s.contains x = false) :
    y ∈ s.insert x ↔ y = x ∨ y ∈ s := by
  constructor
  · exact mem_of_mem_insert
  · rintro (rfl | hy)
    · exact mem_insert_self h
    · exact mem_insert_of_mem hy

/-- Two different stored elements are told apart by the comparator. -/
lemma lt_or_lt_of_ne (hx : x ∈ s) (hy : y ∈ s) (hne : x ≠ y) : lt x y = true ∨ lt y x = true := by
  have : Std.Symm fun a b => lt a b = true ∨ lt b a = true := ⟨fun _ _ => Or.symm⟩
  exact List.Pairwise.forall (R := fun a b => lt a b = true ∨ lt b a = true) (s.sorted.imp .inl)
    hx hy hne

/-- Stored elements that the comparator does not tell apart are the same element. -/
lemma eq_of_compEquiv (hx : x ∈ s) (hy : y ∈ s) (h : compEquiv lt x y = true) : x = y := by
  by_contra hne
  rcases lt_or_lt_of_ne hx hy hne with hlt | hlt <;> simp [compEquiv, hlt] at h

/-- Every element is equal to itself in the sense of the comparator. -/
lemma compEquiv_self [IsComparator lt] (x : α) : compEquiv lt x x = true := by
  simp [compEquiv, IsComparator.irrefl x]

end OrdSet

end Beegfs
