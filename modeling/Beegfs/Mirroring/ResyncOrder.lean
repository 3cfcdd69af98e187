import Beegfs.Lib.Bytes

/-!
# The order in which a change set is resynced

The changes that belong together are sorted by `resyncElemCmp` before they are sent to the
secondary: deletions first, and inodes before what links to them.  The comparator looks at types and
paths also if only the second of two changes is a deletion, so that of two such changes each may
come before the other.  `std::sort` promises nothing for a comparator that is not a strict weak
order on what it sorts.
-/

namespace Beegfs

/-- What `std::sort` asks of its comparator, on the elements of a list. -/
structure StrictWeakOrderOn {α : Type} (lt : α → α → Bool) (l : List α) : Prop where
  irrefl : ∀ a ∈ l, lt a a = false
  asymm : ∀ a ∈ l, ∀ b ∈ l, lt a b = true → lt b a = false
  trans : ∀ a ∈ l, ∀ b ∈ l, ∀ c ∈ l, lt a b = true → lt b c = true → lt a c = true
  incomp : ∀ a ∈ l, ∀ b ∈ l, ∀ c ∈ l, lt a b = false → lt b a = false → lt b c = false →
    lt c b = false → lt a c = false ∧ lt c a = false

/-- `std::sort` with a comparator.  Nothing is known of the result if this is no strict weak
order. -/
structure StdSortBy {α : Type} (lt : α → α → Bool) where
  sort : List α → List α
  sorts : ∀ l, StrictWeakOrderOn lt l → (sort l).Perm l ∧
    (sort l).Pairwise fun a b => lt b a = false

/-- A comparator that compares keys of a linear order. -/
lemma strictWeakOrderOn_of_key {α κ : Type} [LinearOrder κ] {lt : α → α → Bool} {l : List α}
    (key : α → κ) (h : ∀ a ∈ l, ∀ b ∈ l, lt a b = decide (key a < key b)) :
    StrictWeakOrderOn lt l where
  irrefl a ha := by rw [h a ha a ha, decide_eq_false (lt_irrefl _)]
  asymm a ha b hb hab := by
    rw [h a ha b hb] at hab
    rw [h b hb a ha, decide_eq_false (of_decide_eq_true hab).not_gt]
  trans a ha b hb c hc hab hbc := by
    rw [h a ha b hb] at hab
    rw [h b hb c hc] at hbc
    rw [h a ha c hc, decide_eq_true ((of_decide_eq_true hab).trans (of_decide_eq_true hbc))]
  incomp a ha b hb c hc := by
    rw [h a ha b hb, h b hb a ha, h b hb c hc, h c hc b hb, h a ha c hc, h c hc a ha]
    simp only [decide_eq_false_iff_not, not_lt]
    exact fun hba hab hcb hbc => ⟨hcb.trans hba, hab.trans hbc⟩

namespace Resync

inductive MetaSyncFileType where
  | inode
  | dentry
  | directory
deriving DecidableEq

/-- `int(type)` -/
def MetaSyncFileType.toInt : MetaSyncFileType → ℕ
  | inode => 0
  | dentry => 1
  | directory => 2

/-- `MetaSyncCandidateFile::Element` -/
structure Element where
  path : List Byte
  type : MetaSyncFileType
  isDeletion : Bool
deriving DecidableEq

/-- The pair of the type and the path. -/
def Element.typeAndPath (e : Element) : ℕ ×ₗ List ℕ := toLex (e.type.toInt, e.path.map BitVec.toNat)

def resyncElemCmp (a b : Element) : Bool :=
  if a.isDeletion && !b.isDeletion then true
  else if a.type = .inode ∧ b.type ≠ .inode then true
  else a.typeAndPath < b.typeAndPath

/-- The elements that `streamCandidates` sends from the `i`-th one on.  It stops at the first one
that fails. -/
def streamElements (succeeds : ℕ → Bool) : ℕ → List Element → List Element
  | _, [] => []
  | i, e :: rest => e :: if succeeds i then streamElements succeeds (i + 1) rest else []

/-- Two elements are sent in this order: deletions before modifications, and inodes first among
either. -/
def MayPrecede (a b : Element) : Prop :=
  (b.isDeletion = true → a.isDeletion = true) ∧
    (a.isDeletion = b.isDeletion → b.type = .inode → a.type = .inode)

/-- The change set can be sorted, and is sent in order whatever `std::sort` does with it. -/
structure SyncsInOrder (elems : List Element) : Prop where
  order : StrictWeakOrderOn resyncElemCmp elems
  sent : ∀ (sorter : StdSortBy resyncElemCmp) (succeeds : ℕ → Bool),
    (streamElements succeeds 0 (sorter.sort elems)).Pairwise MayPrecede

lemma streamElements_sublist (succeeds : ℕ → Bool) (i : ℕ) (l : List Element) :
    (streamElements succeeds i l).Sublist l := by
  induction l generalizing i with
  | nil => exact List.Sublist.refl []
  | cons e rest ih =>
    rw [streamElements]
    split_ifs
    · exact (ih (i + 1)).cons_cons e
    · exact (List.nil_sublist rest).cons_cons e

/-- Inodes have the smallest number. -/
lemma typeAndPath_lt {a b : Element} (ha : a.type = .inode) (hb : b.type ≠ .inode) :
    a.typeAndPath < b.typeAndPath := by
  refine Prod.Lex.toLex_lt_toLex.mpr (.inl ?_)
  rw [ha]
  cases htype : b.type with
  | inode => exact absurd htype hb
  | dentry => exact Nat.zero_lt_one
  | directory => exact Nat.zero_lt_two

lemma resyncElemCmp_eq (a b : Element) : resyncElemCmp a b =
    (a.isDeletion && !b.isDeletion || decide (a.typeAndPath < b.typeAndPath)) := by
  rw [resyncElemCmp]
  split_ifs with hdel htype
  · rw [hdel, Bool.true_or]
  · rw [decide_eq_true (typeAndPath_lt htype.1 htype.2), Bool.or_true]
  · rw [Bool.eq_false_iff.mpr hdel, Bool.false_or]

lemma resyncElemCmp_eq_false_iff {a b : Element} : resyncElemCmp a b = false ↔
    (a.isDeletion = true → b.isDeletion = true) ∧ b.typeAndPath ≤ a.typeAndPath := by
  simp [resyncElemCmp_eq]

/-- A change set is synced in order exactly if no modification comes before a deletion by its type
and path. -/
theorem syncsInOrder_iff (elems : List Element) : SyncsInOrder elems ↔
    ∀ d ∈ elems, ∀ m ∈ elems, d.isDeletion = true → m.isDeletion = false →
      d.typeAndPath ≤ m.typeAndPath := by
  constructor
  · intro h d hd m hm hdel hmod
    have hdm : resyncElemCmp d m = true := by simp [resyncElemCmp_eq, hdel, hmod]
    exact (resyncElemCmp_eq_false_iff.mp (h.order.asymm d hd m hm hdm)).2
  · intro h
    have horder : StrictWeakOrderOn resyncElemCmp elems := by
      refine strictWeakOrderOn_of_key (fun e => toLex (!e.isDeletion, e.typeAndPath)) ?_
      intro a ha b hb
      rw [resyncElemCmp_eq]
      rcases hda : a.isDeletion with _ | _ <;> rcases hdb : b.isDeletion with _ | _
      · simp [Prod.Lex.toLex_lt_toLex]
      · have hle := h b hb a ha hdb hda
        simp [Prod.Lex.toLex_lt_toLex, hle.not_gt, Bool.lt_iff]
      · simp [Prod.Lex.toLex_lt_toLex]
      · simp [Prod.Lex.toLex_lt_toLex]
    refine ⟨horder, fun sorter succeeds => ?_⟩
    obtain ⟨-, hsort⟩ := sorter.sorts elems horder
    refine List.Pairwise.sublist (streamElements_sublist succeeds 0 _) (hsort.imp fun hba => ?_)
    obtain ⟨hdel, hle⟩ := resyncElemCmp_eq_false_iff.mp hba
    refine ⟨hdel, fun _ hb => ?_⟩
    by_contra ha
    exact absurd (typeAndPath_lt hb ha) (not_lt.mpr hle)

/-- The inode of a file is updated and one of its dentries is removed: each comes before the
other. -/
theorem not_syncsInOrder_unlink : ¬SyncsInOrder [⟨[1], .inode, false⟩, ⟨[2], .dentry, true⟩] := by
  intro h
  exact absurd (h.order.asymm ⟨[1], .inode, false⟩ (by decide) ⟨[2], .dentry, true⟩ (by decide)
    (by decide)) (by decide)

end Resync

end Beegfs
