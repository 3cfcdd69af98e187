import Mathlib

/-!
# Lists of rows with keys

Rows of a table have keys in a linear order.  This file has the operations on lists of rows that
queries are made of: the rows from a key on, the left join of two lists on equal keys, and the
maximal groups of neighbouring rows of one key.
-/

namespace Beegfs

open List List.Pairwise

section Ascending

variable {β κ : Type} [LinearOrder κ] (key : β → κ)

/-- The keys never decrease. -/
def Ascending (rows : List β) : Prop := rows.Pairwise fun a b => key a ≤ key b
  deriving Decidable

variable {key} {rows : List β}

lemma ascending_singleton (key : β → κ) (b : β) : Ascending key [b] := pairwise_singleton _ b

lemma Ascending.of_suffix {l : List β} (h : Ascending key rows) (hl : l <:+ rows) :
    Ascending key l := sublist hl.sublist h

variable {b : β} {bs : List β}

lemma Ascending.head_le (h : Ascending key (b :: bs)) : ∀ r ∈ b :: bs, key b ≤ key r := by
  intro r hr
  rcases mem_cons.mp hr with rfl | hr
  · exact le_refl _
  · exact rel_of_pairwise_cons h hr

lemma Ascending.le_getLast (h : Ascending key rows) (hb : rows.getLast? = some b) :
    ∀ r ∈ rows, key r ≤ key b := by
  intro r hr
  obtain ⟨_, rfl⟩ := List.getLast?_eq_some_iff.mp hb
  rcases mem_append.mp hr with hr | hr
  · exact (pairwise_append.mp h).2.2 r hr b (mem_singleton_self b)
  · rw [mem_singleton.mp hr]

/-- One more row keeps the order if no key is larger than its one. -/
lemma Ascending.concat (h : Ascending key rows) (hb : ∀ r ∈ rows, key r ≤ key b) :
    Ascending key (rows ++ [b]) := by
  refine pairwise_append.mpr ⟨h, pairwise_singleton _ _, fun r hr b' hb' => ?_⟩
  rw [mem_singleton.mp hb']
  exact hb r hr

/-! ## The rows from a key on -/

variable (key) in
/-- The rows from the first one that is not below `k`. -/
def rowsFrom (k : κ) (rows : List β) : List β := rows.dropWhile fun b => decide (key b < k)

variable {k : κ}

lemma rowsFrom_cons_of_lt (h : key b < k) : rowsFrom key k (b :: bs) = rowsFrom key k bs :=
  dropWhile_cons_of_pos (decide_eq_true h)

lemma rowsFrom_cons_of_le (h : k ≤ key b) : rowsFrom key k (b :: bs) = b :: bs :=
  dropWhile_cons_of_neg (by simpa using h)

lemma rowsFrom_eq_nil_iff : rowsFrom key k rows = [] ↔ ∀ b ∈ rows, key b < k := by
  simp [rowsFrom, dropWhile_eq_nil_iff]

lemma le_of_rowsFrom_eq_cons (h : rowsFrom key k rows = b :: bs) : k ≤ key b := by
  have hnot := List.head?_dropWhile_not (fun b => decide (key b < k)) rows
  rw [← rowsFrom, h] at hnot
  simpa using hnot

lemma rowsFrom_rowsFrom {k' : κ} (h : k ≤ k') :
    rowsFrom key k' (rowsFrom key k rows) = rowsFrom key k' rows := by
  induction rows with
  | nil => rfl
  | cons r rest ih =>
    rcases lt_or_ge (key r) k with hr | hr
    · rw [rowsFrom_cons_of_lt hr, ih, rowsFrom_cons_of_lt (hr.trans_le h)]
    · rw [rowsFrom_cons_of_le hr]

/-- The rows of key `k` are the first ones of the rows from `k` on. -/
lemma Ascending.filter_eq (h : Ascending key rows) (k : κ) :
    rows.filter (fun b => decide (key b = k)) =
      (rowsFrom key k rows).takeWhile fun b => decide (key b = k) := by
  induction rows with
  | nil => rfl
  | cons r rest ih =>
    have hrest := ih (of_cons h)
    rcases lt_trichotomy (key r) k with hr | hr | hr
    · rw [rowsFrom_cons_of_lt hr, filter_cons_of_neg (by simpa using hr.ne), hrest]
    · rw [rowsFrom_cons_of_le hr.ge, filter_cons_of_pos (by simpa using hr), hrest,
        takeWhile_cons_of_pos (by simpa using hr)]
      cases rest with
      | nil => rfl
      | cons b bs =>
        have hb : k ≤ key b := hr ▸ rel_of_pairwise_cons h mem_cons_self
        rw [rowsFrom_cons_of_le hb]
    · have hnot : ∀ b ∈ r :: rest, ¬key b = k := fun b hb => (hr.trans_le (h.head_le b hb)).ne'
      rw [rowsFrom_cons_of_le hr.le, takeWhile_cons_of_neg (by simpa using hr.ne')]
      simpa [filter_eq_nil_iff] using hnot

end Ascending

/-! ## Merging -/

section Merge

variable {α κ : Type} [LinearOrder κ] (key : α → κ)

/-- Both lists merged by their keys; of two equal rows that of the right list comes first. -/
def mergeRows (left right : List α) : List α := right.merge left fun b a => decide (key b ≤ key a)

/-- The first row of the merged list is from the left one. -/
def headFromLeft : List α → List α → Bool
  | a :: _, b :: _ => decide (key a < key b)
  | _ :: _, [] => true
  | [], _ => false

/-- The last row of the merged list is from the left one. -/
def lastFromLeft : List α → List α → Bool
  | [], _ => false
  | _ :: _, [] => true
  | a :: left, b :: right =>
    if key a < key b then lastFromLeft left (b :: right) else lastFromLeft (a :: left) right

variable {key} {left right : List α} {a b : α}

@[simp] lemma lastFromLeft_nil_left : lastFromLeft key [] right = false := by
  rw [lastFromLeft]

@[simp] lemma lastFromLeft_nil_right : lastFromLeft key (a :: left) [] = true := by
  rw [lastFromLeft]

lemma lastFromLeft_of_lt (h : key a < key b) :
    lastFromLeft key (a :: left) (b :: right) = lastFromLeft key left (b :: right) := by
  rw [lastFromLeft, if_pos h]

lemma lastFromLeft_of_le (h : key b ≤ key a) :
    lastFromLeft key (a :: left) (b :: right) = lastFromLeft key (a :: left) right := by
  rw [lastFromLeft, if_neg (not_lt.mpr h)]

@[simp] lemma mergeRows_nil_left : mergeRows key [] right = right := merge_right ..

@[simp] lemma mergeRows_nil_right : mergeRows key left [] = left := by
  simp [mergeRows]

lemma mergeRows_of_lt (h : key a < key b) :
    mergeRows key (a :: left) (b :: right) = a :: mergeRows key left (b :: right) := by
  rw [mergeRows, cons_merge_cons, if_neg (by simpa using h)]
  rfl

lemma mergeRows_of_le (h : key b ≤ key a) :
    mergeRows key (a :: left) (b :: right) = b :: mergeRows key (a :: left) right := by
  rw [mergeRows, cons_merge_cons, if_pos (decide_eq_true h)]
  rfl

/-- The first row of the merged list is the first one of the list that it is taken from. -/
lemma mergeRows_eq_cons {r : α} {rest : List α} (h : mergeRows key left right = r :: rest) :
    (∃ left', left = r :: left' ∧ headFromLeft key left right = true ∧
      mergeRows key left' right = rest ∧
      (left' ≠ [] ∨ right ≠ [] → lastFromLeft key left' right = lastFromLeft key left right) ∧
      (left' = [] → right = [] → lastFromLeft key left right = true)) ∨
    ∃ right', right = r :: right' ∧ headFromLeft key left right = false ∧
      mergeRows key left right' = rest ∧
      lastFromLeft key left right' = lastFromLeft key left right := by
  rcases left with _ | ⟨a, left⟩
  · rw [mergeRows_nil_left] at h
    exact .inr ⟨rest, h, by simp [headFromLeft]⟩
  · rcases right with _ | ⟨b, right⟩
    · rw [mergeRows_nil_right] at h
      obtain ⟨rfl, rfl⟩ := List.cons.inj h
      cases left <;> simp [headFromLeft]
    · rcases lt_or_ge (key a) (key b) with hlt | hge
      · rw [mergeRows_of_lt hlt] at h
        obtain ⟨rfl, rfl⟩ := List.cons.inj h
        exact .inl ⟨left, rfl, decide_eq_true hlt, rfl, fun _ => (lastFromLeft_of_lt hlt).symm,
          nofun⟩
      · rw [mergeRows_of_le hge] at h
        obtain ⟨rfl, rfl⟩ := List.cons.inj h
        exact .inr ⟨right, rfl, decide_eq_false (not_lt.mpr hge), rfl,
          (lastFromLeft_of_le hge).symm⟩

lemma mergeRows_perm : (mergeRows key left right).Perm (left ++ right) :=
  (merge_perm_append _).trans perm_append_comm

lemma mem_mergeRows {r : α} : r ∈ mergeRows key left right ↔ r ∈ left ∨ r ∈ right := by
  rw [mergeRows_perm.mem_iff, mem_append]

lemma mergeRows_eq_nil_iff : mergeRows key left right = [] ↔ left = [] ∧ right = [] := by
  rw [← length_eq_zero_iff, mergeRows_perm.length_eq, length_eq_zero_iff, append_eq_nil_iff]

lemma ascending_mergeRows (hleft : Ascending key left) (hright : Ascending key right) :
    Ascending key (mergeRows key left right) := by
  have hsort : (mergeRows key left right).Pairwise fun b a => decide (key b ≤ key a) = true := by
    refine pairwise_merge ?_ ?_ right left (by simpa [Ascending] using hright)
      (by simpa [Ascending] using hleft)
    · intro a b c hab hbc
      exact decide_eq_true (le_trans (of_decide_eq_true hab) (of_decide_eq_true hbc))
    · intro a b
      simpa using le_total (key a) (key b)
  simpa [Ascending] using hsort

end Merge

/-! ## Left joins -/

section LeftJoin

variable {α β κ : Type} [LinearOrder κ] (lkey : α → κ) (rkey : β → κ)

/-- The rows of the join for one row of the left list. -/
def joinRow (right : List β) (a : α) : List (α × Option β) :=
  match right.filter fun b => decide (rkey b = lkey a) with
  | [] => [(a, none)]
  | b :: bs => (b :: bs).map fun b => (a, some b)

/-- The relational left join: each row of the left list with every row of the right list that has
the same key, or alone. -/
def leftJoin (left : List α) (right : List β) : List (α × Option β) :=
  left.flatMap (joinRow lkey rkey right)

variable {lkey rkey} {right : List β} {a : α}

lemma joinRow_ne_nil : joinRow lkey rkey right a ≠ [] := by
  rw [joinRow]
  split <;> simp

lemma joinRow_of_nil (h : right.filter (fun b => decide (rkey b = lkey a)) = []) :
    joinRow lkey rkey right a = [(a, none)] := by
  rw [joinRow, h]

variable {b : β}

lemma joinRow_of_cons {bs : List β}
    (h : right.filter (fun b => decide (rkey b = lkey a)) = b :: bs) :
    joinRow lkey rkey right a = (a, some b) :: bs.map fun b => (a, some b) := by
  rw [joinRow, h]
  rfl

/-- The rows of the right list that are joined to a row of the left one. -/
lemma mem_joinRow_some_iff {a' : α} :
    (a', some b) ∈ joinRow lkey rkey right a ↔ a' = a ∧ b ∈ right ∧ rkey b = lkey a := by
  have hmem : b ∈ right ∧ rkey b = lkey a ↔
      b ∈ right.filter fun b => decide (rkey b = lkey a) := by simp
  rw [hmem, joinRow]
  split
  next hnil => simp [hnil]
  next hcons =>
    rw [hcons, mem_map]
    simp [and_comm, eq_comm]

lemma mem_joinRow_fst {p : α × Option β} (h : p ∈ joinRow lkey rkey right a) : p.1 = a := by
  rw [joinRow] at h
  split at h
  · rw [mem_singleton.mp h]
  · obtain ⟨b, -, rfl⟩ := mem_map.mp h
    rfl

variable {left : List α}

lemma mem_leftJoin_some (h : (a, some b) ∈ leftJoin lkey rkey left right) : b ∈ right := by
  obtain ⟨_, -, hrow⟩ := mem_flatMap.mp h
  exact (mem_joinRow_some_iff.mp hrow).2.1

lemma mem_leftJoin_fst {p : α × Option β} (h : p ∈ leftJoin lkey rkey left right) : p.1 ∈ left := by
  obtain ⟨_, ha', hrow⟩ := mem_flatMap.mp h
  rw [mem_joinRow_fst hrow]
  exact ha'

/-- The rows of the left list that are alone in the join. -/
lemma leftJoin_unmatched (left : List α) (right : List β) :
    ((Beegfs.leftJoin lkey rkey left right).filter fun p => p.2.isNone).map Prod.fst =
      left.filter fun a => decide (∀ b ∈ right, rkey b ≠ lkey a) := by
  induction left with
  | nil => rfl
  | cons a as ih =>
    rw [Beegfs.leftJoin, flatMap_cons, filter_append, map_append]
    rw [Beegfs.leftJoin] at ih
    rw [ih]
    set alone : α → Bool := fun a => decide (∀ b ∈ right, rkey b ≠ lkey a)
    rcases hfilt : right.filter fun b => decide (rkey b = lkey a) with _ | ⟨b, bs⟩
    · have hnone : ∀ b ∈ right, rkey b ≠ lkey a := by
        simpa [filter_eq_nil_iff] using hfilt
      have halone : alone a = true := decide_eq_true hnone
      rw [joinRow_of_nil hfilt, filter_cons_of_pos halone]
      rfl
    · have hb : b ∈ right.filter fun b => decide (rkey b = lkey a) := by
        rw [hfilt]
        exact mem_cons_self
      have hmatch : ¬∀ b ∈ right, rkey b ≠ lkey a := by
        intro hnone
        exact hnone b (mem_of_mem_filter hb) (by simpa using (mem_filter.mp hb).2)
      have hbs : (((a, some b) :: bs.map fun b => (a, some b)).filter (·.2.isNone)) = [] := by
        simp [filter_eq_nil_iff]
      have halone : ¬alone a = true := fun htrue => hmatch (of_decide_eq_true htrue)
      rw [joinRow_of_cons hfilt, hbs, filter_cons_of_neg halone]
      rfl

/-- With at most one row for each key, a row of the left list has the first one that is found. -/
lemma leftJoin_of_distinct {right : List β} (h : right.Pairwise fun b b' => rkey b ≠ rkey b')
    (left : List α) :
    Beegfs.leftJoin lkey rkey left right =
      left.map fun a => (a, right.find? fun b => decide (rkey b = lkey a)) := by
  rw [← flatMap_singleton' (left.map _), flatMap_map]
  refine flatMap_congr fun a _ => ?_
  have hfilt : (right.filter fun b => decide (rkey b = lkey a)) =
      (right.find? fun b => decide (rkey b = lkey a)).toList := by
    induction right with
    | nil => rfl
    | cons b bs ih =>
      by_cases hb : rkey b = lkey a
      · have hrest : (bs.filter fun b => decide (rkey b = lkey a)) = [] := by
          rw [filter_eq_nil_iff]
          intro b' hb' heq
          exact rel_of_pairwise_cons h hb' (hb.trans (of_decide_eq_true heq).symm)
        rw [filter_cons_of_pos (by simpa using hb), hrest,
          List.find?_cons_of_pos (by simpa using hb)]
        rfl
      · rw [filter_cons_of_neg (by simpa using hb), List.find?_cons_of_neg (by simpa using hb)]
        exact ih (of_cons h)
  rcases hfind : right.find? fun b => decide (rkey b = lkey a) with _ | b
  · rw [hfind] at hfilt
    exact joinRow_of_nil hfilt
  · rw [hfind] at hfilt
    exact joinRow_of_cons hfilt

/-- The join keeps the order of the left list. -/
lemma Ascending.leftJoin (h : Ascending lkey left) :
    Ascending (fun p : α × Option β => lkey p.1) (leftJoin lkey rkey left right) := by
  induction left with
  | nil => exact nil
  | cons a as ih =>
    refine pairwise_append.mpr ⟨?_, ih (of_cons h), fun p hp p' hp' => ?_⟩
    · refine imp_of_mem (R := fun _ _ => True) (fun hp hp' _ => ?_)
        (pairwise_of_forall fun _ _ => trivial)
      simp only [mem_joinRow_fst hp, mem_joinRow_fst hp', le_refl]
    · simp only [mem_joinRow_fst hp]
      exact h.head_le _ (mem_cons_of_mem _ (mem_leftJoin_fst hp'))

/-! ## Merge joins -/

variable (lkey rkey)

/-- The rows that a merge join finds for a row of the left list: those of its key that follow
directly on the rows of smaller keys. -/
def mergeRow (right : List β) (a : α) : List (α × Option β) :=
  match (rowsFrom rkey (lkey a) right).takeWhile fun b => decide (rkey b = lkey a) with
  | [] => [(a, none)]
  | b :: bs => (b :: bs).map fun b => (a, some b)

/-- What a merge join delivers.  It is the left join only if the right list is in the order of its
keys. -/
def mergeJoin (left : List α) (right : List β) : List (α × Option β) :=
  left.flatMap (mergeRow lkey rkey right)

variable {lkey rkey} {left : List α}

lemma mergeJoin_eq_leftJoin (h : Ascending rkey right) :
    mergeJoin lkey rkey left right = leftJoin lkey rkey left right := by
  refine flatMap_congr fun a _ => ?_
  rw [mergeRow, joinRow, h.filter_eq]

lemma mergeJoin_cons (as : List α) :
    mergeJoin lkey rkey (a :: as) right =
      mergeRow lkey rkey right a ++ mergeJoin lkey rkey as right := flatMap_cons

lemma mergeRow_of_ne (h : ∀ b bs, rowsFrom rkey (lkey a) right = b :: bs → rkey b ≠ lkey a) :
    mergeRow lkey rkey right a = [(a, none)] := by
  rw [mergeRow]
  cases hfrom : rowsFrom rkey (lkey a) right with
  | nil => rfl
  | cons b bs => rw [takeWhile_cons, if_neg (by simpa using h b bs hfrom)]

lemma mergeRow_of_eq {bs : List β} (h : rowsFrom rkey (lkey a) right = b :: bs)
    (heq : rkey b = lkey a) :
    mergeRow lkey rkey right a = (a, some b) ::
      (bs.takeWhile fun b => decide (rkey b = lkey a)).map fun b => (a, some b) := by
  rw [mergeRow, h, takeWhile_cons, if_pos (decide_eq_true heq)]
  rfl

variable (rkey) in
/-- A merge join finds a row of key `k`: there is one before the first row of a larger key. -/
def Finds (k : κ) (right : List β) : Prop :=
  ∃ b ∈ right.takeWhile fun b => decide (rkey b ≤ k), rkey b = k
  deriving Decidable

lemma Finds.exists_mem {k : κ} (h : Finds rkey k right) : ∃ b ∈ right, rkey b = k := by
  obtain ⟨b, hb, hkey⟩ := h
  exact ⟨b, takeWhile_subset _ hb, hkey⟩

lemma finds_cons_of_lt {k : κ} {bs : List β} (h : rkey b < k) :
    Finds rkey k (b :: bs) ↔ Finds rkey k bs := by
  simp [Finds, h.le, h.ne]

/-- The rows that are not below `k` start with one of key `k`. -/
lemma finds_iff_rowsFrom {k : κ} :
    Finds rkey k right ↔ ∃ b bs, rowsFrom rkey k right = b :: bs ∧ rkey b = k := by
  induction right with
  | nil => simp [Finds, rowsFrom]
  | cons r rest ih =>
    rcases lt_trichotomy (rkey r) k with hr | hr | hr
    · rw [finds_cons_of_lt hr, rowsFrom_cons_of_lt hr, ih]
    · simp [Finds, rowsFrom_cons_of_le hr.ge, hr]
    · simp [Finds, rowsFrom_cons_of_le hr.le, not_le.mpr hr, hr.ne']

/-- The rows of the left list, of `p`, that are alone in the merge join. -/
lemma mergeJoin_unmatched (p : α → Bool) (left : List α) (right : List β) :
    ((mergeJoin lkey rkey left right).filter fun r => p r.1 && r.2.isNone).map Prod.fst =
      left.filter fun a => p a && decide (¬Finds rkey (lkey a) right) := by
  induction left with
  | nil => rfl
  | cons a as ih =>
    rw [mergeJoin_cons, filter_append, map_append, ih]
    by_cases hfinds : Finds rkey (lkey a) right
    · obtain ⟨b, bs, hfrom, hkey⟩ := finds_iff_rowsFrom.mp hfinds
      rw [mergeRow_of_eq hfrom hkey]
      simp [hfinds, filter_eq_nil_iff]
    · have hrow : mergeRow lkey rkey right a = [(a, none)] :=
        mergeRow_of_ne fun b bs hfrom hkey => hfinds (finds_iff_rowsFrom.mpr ⟨b, bs, hfrom, hkey⟩)
      rw [hrow]
      cases hp : p a <;> simp [hfinds, hp]

variable {Needs : α → Prop} {as : List α}

variable (lkey Needs) in
/-- The order of the left list for a merge join that finds the rows of `Needs`: behind the rows of
the same key that directly follow a row, every row of `Needs` has a larger key than that row. -/
def MergeOrder (left : List α) : Prop :=
  ∀ a as, (a :: as) <:+ left →
    ∀ a' ∈ as.dropWhile fun a' => decide (lkey a' = lkey a), Needs a' → lkey a < lkey a'

lemma MergeOrder.le (h : MergeOrder lkey Needs left) (hsuffix : (a :: as) <:+ left) :
    ∀ a' ∈ as, Needs a' → lkey a ≤ lkey a' := by
  intro a' ha' hneeds
  rw [← takeWhile_append_dropWhile (p := fun a' => decide (lkey a' = lkey a)) (l := as)] at ha'
  rcases mem_append.mp ha' with htake | hdrop
  · exact ge_of_eq (by simpa using mem_takeWhile_imp htake)
  · exact (h a as hsuffix a' hdrop hneeds).le

lemma Ascending.mergeOrder (h : Ascending lkey left) : MergeOrder lkey Needs left := by
  intro a as hsuffix a' ha' _
  have hnot := List.head?_dropWhile_not (fun a' => decide (lkey a' = lkey a)) as
  have hsub := (dropWhile_suffix fun a' => decide (lkey a' = lkey a)).trans (suffix_cons a as)
  have hasc := h.of_suffix hsuffix
  rcases hdrop : as.dropWhile fun a' => decide (lkey a' = lkey a) with _ | ⟨c, cs⟩
  · rw [hdrop] at ha'
    cases ha'
  · rw [hdrop] at ha' hnot hsub
    have hne : lkey c ≠ lkey a := by simpa using hnot
    have hlt := lt_of_le_of_ne (hasc.head_le c (hsub.subset mem_cons_self)) hne.symm
    exact hlt.trans_le ((hasc.of_suffix hsub).head_le a' ha')

end LeftJoin

/-! ## Groups -/

section Groups

variable {α κ : Type} [DecidableEq κ] (key : α → κ)

/-- The maximal groups of neighbouring rows of one key: the first row of each and the others. -/
def groupsBy : List α → List (α × List α)
  | [] => []
  | r :: rest =>
    match groupsBy rest with
    | [] => [(r, [])]
    | (b, bs) :: gs => if key b = key r then (r, b :: bs) :: gs else (r, []) :: (b, bs) :: gs

/-- The first group has all rows up to the first one of another key. -/
lemma groupsBy_cons (r : α) (rest : List α) :
    groupsBy key (r :: rest) = (r, rest.takeWhile fun b => decide (key b = key r)) ::
      groupsBy key (rest.dropWhile fun b => decide (key b = key r)) := by
  induction rest generalizing r with
  | nil => rfl
  | cons b bs ih =>
    rw [groupsBy, ih b]
    by_cases hb : key b = key r
    · simp [hb]
    · simp [hb, ih b]

lemma groupsBy_eq_nil_iff {rows : List α} : groupsBy key rows = [] ↔ rows = [] := by
  cases rows with
  | nil => simp [groupsBy]
  | cons r rest => simp [groupsBy_cons]

/-- The rows whose key is not that of the row before them. -/
def distinctBy (rows : List α) : List α := (groupsBy key rows).map Prod.fst

lemma distinctBy_cons (r : α) (rest : List α) :
    distinctBy key (r :: rest) =
      r :: distinctBy key (rest.dropWhile fun b => decide (key b = key r)) := by
  rw [distinctBy, groupsBy_cons]
  rfl

end Groups

lemma getLast?_of_suffix {α : Type} {a : α} {rows : List α} (h : [a] <:+ rows) :
    rows.getLast? = some a := by
  obtain ⟨-, rfl⟩ := h
  exact List.getLast?_concat

end Beegfs
