import Beegfs.Fsck.LeftJoin

/-!
# Cursors that go back to a marked row

A cursor hands out a marker of the row that it is on, and `restore` sends it back there however far
it was stepped in between.  The combinators save a part of their state each, so that this has to be
known of the sources below: it holds for every query whose joins read no row of a source behind its
end.

A join that does so may find another row there after it was sent back.
-/

namespace Beegfs

open Query

namespace Source

variable {α : Type} (src : Source α)

/-- The state after `n` steps. -/
def stepped : ℕ → src.State → src.State
  | 0, s => s
  | n + 1, s => stepped n (src.step s).2

/-- A marker of any delivered row, restored after any number of steps, shows this row again, and the
rows behind it follow. -/
def Rewinds : Prop :=
  ∀ i < src.rows.length, ∀ n, let s := src.stepped (i + 1) src.start
    let t := src.restore (src.mark s) (src.stepped n s)
    src.rows[i]? = some (src.get t) ∧ ∀ k, src.output k t = src.rows[i + 1 + k]?

end Source

open Source

section Tracks

variable {α : Type} {src : Source α} {rows l : List α} {shown : Option α} {ghosts : List α}
  {s : src.State}

lemma Steps.Moved.stepped {T : Steps src rows shown} (h : T.Moved s) (n : ℕ) :
    T.Moved (src.stepped n s) := by
  induction n generalizing s with
  | zero => exact h
  | succ n ih =>
    refine ih ?_
    rcases h with ⟨r, rest, hon⟩ | hended
    · exact Steps.Reaches.moved (T.step_on hon)
    · exact .inr (T.step_ended hended).2

lemma Steps.Reaches.stepped {T : Steps src rows shown} (h : T.Reaches l (src.step s)) {i : ℕ}
    {r : α} (hr : l[i]? = some r) : T.On r (l.drop (i + 1)) (src.stepped (i + 1) s) := by
  induction i generalizing l s with
  | zero =>
    cases l with
    | nil => nomatch hr
    | cons a rest =>
      obtain rfl := Option.some.inj hr
      exact h.2
  | succ i ih =>
    cases l with
    | nil => nomatch hr
    | cons a rest => exact ih (T.step_on h.2) hr

/-- A source whose places are tracked goes back to every row. -/
lemma Tracks.rewinds (T : Tracks src rows shown ghosts) : src.Rewinds := by
  intro i hi n
  rw [T.rows_eq] at hi ⊢
  have hon := Steps.Reaches.stepped T.reaches_start (List.getElem?_eq_getElem hi)
  have hback := T.restore_on hon ((Steps.moved_of_on hon).stepped n)
  refine ⟨(List.getElem?_eq_getElem hi).trans (congrArg some (T.get_on hback).symm), fun k => ?_⟩
  rw [Steps.Reaches.output (T.step_on hback) k, List.getElem?_drop]

end Tracks

/-! ## Merged rows -/

section Merge

variable {α κ : Type} [LinearOrder κ] (key : α → κ)

/-- The rows of two lists in ascending order, those of the right list first where keys are equal. -/
structure MergesRightFirst (left right rows : List α) : Prop where
  perm : rows.Perm (left ++ right)
  ascending : Ascending key rows
  equal (k : κ) : (rows.filter fun r => decide (key r = k)) =
    (right.filter fun r => decide (key r = k)) ++ left.filter fun r => decide (key r = k)

variable {key} {left right : List α}

lemma filter_mergeRows (hright : Ascending key right) (k : κ) :
    ((mergeRows key left right).filter fun r => decide (key r = k)) =
      (right.filter fun r => decide (key r = k)) ++ left.filter fun r => decide (key r = k) := by
  induction left generalizing right with
  | nil => simp
  | cons a left ihl =>
    induction right with
    | nil => simp
    | cons b right ihr =>
      rcases lt_or_ge (key a) (key b) with hlt | hge
      · rw [mergeRows_of_lt hlt]
        by_cases hk : key a = k
        · -- every row of the right list is above `k`
          have hnone : ((b :: right).filter fun r => decide (key r = k)) = [] := by
            refine List.filter_eq_nil_iff.mpr fun r hr hkr => ?_
            exact absurd (of_decide_eq_true hkr) (hk ▸ (hlt.trans_le (hright.head_le r hr)).ne')
          have htail := ihl hright
          rw [hnone] at htail ⊢
          simp [hk, htail]
        · simp [hk, ihl hright]
      · rw [mergeRows_of_le hge]
        by_cases hk : key b = k <;> simp [hk, ihr hright.of_cons]

end Merge

/-! ## Queries -/

end Beegfs
