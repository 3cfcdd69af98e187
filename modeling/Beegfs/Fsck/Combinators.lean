import Beegfs.Lib.KeyedRows
import Beegfs.Lib.Source

/-!
# The query combinators of fsck

A query is a source of rows that is put together from cursors over sorted fragments
(`fragmentCursor`) with `filter`, `select`, `group`, `distinct`, `union` and `leftJoinEq`.  Each
definition follows the class template of that name: its fields are the fields of the state, and a
field that the constructor leaves uninitialised starts with a value that is never read.
-/

namespace Beegfs

open Bool

namespace Source

variable {α β κ : Type}

/-! ## SetFragmentCursor -/

/-- A cursor over the rows of a fragment.  The state is `currentGetIndex + 1`, which is 0 at
first. -/
@[reducible] def fragmentCursor [Inhabited α] (rows : List α) : Source α where
  State := ℕ
  Marker := ℕ
  start := 0
  step n := if rows.length ≤ n then (false, n) else (true, n + 1)
  get n := rows.getD (n - 1) default
  mark n := n
  -- The index is set to the place before the mark, and the step leads to the mark.
  restore m _ := if rows.length ≤ m - 1 then m - 1 else m - 1 + 1
  size := rows.length
  remaining n := rows.length - n
  remaining_le n := Nat.sub_le _ _
  remaining_step n := by
    split
    · exact le_rfl
    · simp only [Bool.toNat_true]
      omega

/-! ## Filter -/

variable (src : Source α)

/-- The rows of `pred`. -/
@[reducible] def filter (pred : α → Bool) : Source α where
  State := src.State
  Marker := src.Marker
  start := src.start
  step s := src.skip (fun r => !pred r) s
  get := src.get
  mark := src.mark
  restore := src.restore
  size := src.size
  remaining := src.remaining
  remaining_le := src.remaining_le
  remaining_step s := remaining_skip _ s

/-! ## Select -/

/-- State of `select`: the source, and the image of the row that it is on. -/
structure SelectState (β : Type) where
  source : src.State
  current : β

/-- The image of each row. -/
@[reducible] def select (fn : α → β) : Source β where
  State := SelectState src β
  Marker := src.Marker
  start := ⟨src.start, fn (src.get src.start)⟩
  step s :=
    let t := src.step s.source
    if t.1 then (true, ⟨t.2, fn (src.get t.2)⟩) else (false, ⟨t.2, s.current⟩)
  get s := s.current
  mark s := src.mark s.source
  restore m s :=
    let source := src.restore m s.source
    ⟨source, fn (src.get source)⟩
  size := src.size
  remaining s := src.remaining s.source
  remaining_le s := src.remaining_le s.source
  remaining_step s := by
    have hstep := src.remaining_step s.source
    dsimp only
    split <;> simp_all

lemma select_step (fn : α → β) (s : SelectState src β) : (src.select fn).step s =
      if (src.step s.source).1 then
        (true, ⟨(src.step s.source).2, fn (src.get (src.step s.source).2)⟩)
      else (false, ⟨(src.step s.source).2, s.current⟩) := rfl

/-! ## Distinct -/

/-- State of `distinct`: the source, and the key of the row that was delivered last. -/
structure DistinctState (κ : Type) where
  source : src.State
  key : Option κ

/-- The rows whose key is not that of the row delivered before them. -/
@[reducible] def distinct [DecidableEq κ] (keyExtract : α → κ) : Source α where
  State := DistinctState src κ
  Marker := src.Marker
  start := ⟨src.start, none⟩
  step s :=
    let t := src.skip (fun r => decide (s.key = some (keyExtract r))) s.source
    if t.1 then (true, ⟨t.2, some (keyExtract (src.get t.2))⟩) else (false, ⟨t.2, s.key⟩)
  get s := src.get s.source
  mark s := src.mark s.source
  restore m s :=
    let source := src.restore m s.source
    ⟨source, some (keyExtract (src.get source))⟩
  size := src.size
  remaining s := src.remaining s.source
  remaining_le s := src.remaining_le s.source
  remaining_step s := by
    have hskip := src.remaining_skip (fun r => decide (s.key = some (keyExtract r))) s.source
    dsimp only
    split <;> simp_all

lemma distinct_step [DecidableEq κ] (keyExtract : α → κ) (s : DistinctState src κ) :
    (src.distinct keyExtract).step s =
      let t := src.skip (fun r => decide (s.key = some (keyExtract r))) s.source
      if t.1 then (true, ⟨t.2, some (keyExtract (src.get t.2))⟩) else (false, ⟨t.2, s.key⟩) := rfl

end Source

/-! ## Group -/

/-- What the rows of a group are folded with.  `finish` yields the value of the group and makes the
accumulator ready for the next one. -/
structure GroupOps (α κ π γ : Type) where
  Acc : Type
  init : Acc
  key : α → κ
  project : α → π
  step : α → Acc → Acc
  finish : Acc → γ × Acc
  finish_init (acc : Acc) : (finish acc).2 = init

namespace Source

variable {α κ π γ : Type} [DecidableEq κ] (src : Source α) (ops : GroupOps α κ π γ)

/-- State of `group`. -/
structure GroupState where
  source : src.State
  acc : ops.Acc
  current : π × γ
  currentMark : src.Marker
  sourceIsActive : Bool

/-- Fold the rows of key `currentKey`; the result says whether a row of another key follows. -/
def groupLoop (currentKey : κ) : ℕ → src.State → ops.Acc → Bool × src.State × ops.Acc
  | 0, s, acc => (false, s, acc)
  | n + 1, s, acc =>
    let t := src.step s
    if t.1 then
      if ops.key (src.get t.2) = currentKey then
        groupLoop currentKey n t.2 (ops.step (src.get t.2) acc)
      else (true, t.2, acc)
    else (false, t.2, acc)

lemma remaining_groupLoop (currentKey : κ) (n : ℕ) (s : src.State) (acc : ops.Acc) :
    src.remaining (src.groupLoop ops currentKey n s acc).2.1 +
      (src.groupLoop ops currentKey n s acc).1.toNat ≤ src.remaining s := by
  induction n generalizing s acc with
  | zero => exact le_rfl
  | succ n ih =>
    have hstep := src.remaining_step s
    rw [groupLoop]
    by_cases ht : (src.step s).1 = true
    · rw [if_pos ht]
      split
      · exact le_trans (ih _ _) (remaining_step_le s)
      · rwa [ht] at hstep
    · rw [if_neg ht]
      exact remaining_step_le s

variable {src ops}

/-- Fold the group that starts at the row of the source. -/
def groupCurrentSet (s : GroupState src ops) : GroupState src ops :=
  let row := src.get s.source
  let t := src.groupLoop ops (ops.key row) (src.remaining s.source + 1) s.source
    (ops.step row s.acc)
  { source := t.2.1
    acc := (ops.finish t.2.2).2
    current := (ops.project row, (ops.finish t.2.2).1)
    currentMark := src.mark s.source
    sourceIsActive := t.1 }

lemma remaining_groupCurrentSet (s : GroupState src ops) :
    src.remaining (groupCurrentSet s).source + (groupCurrentSet s).sourceIsActive.toNat ≤
      src.remaining s.source := remaining_groupLoop src ops _ _ _ _

variable (src ops)

/-- The value of each group of neighbouring rows of one key. -/
@[reducible] def group : Source (π × γ) where
  State := GroupState src ops
  Marker := src.Marker
  start :=
    { source := src.start
      acc := ops.init
      current := (ops.project (src.get src.start), (ops.finish ops.init).1)
      currentMark := src.mark src.start
      sourceIsActive := false }
  step s :=
    if s.sourceIsActive then (true, groupCurrentSet s)
    else
      let t := src.step s.source
      if t.1 then (true, groupCurrentSet { s with source := t.2 })
      else (false, { s with source := t.2 })
  get s := s.current
  mark s := s.currentMark
  restore m s := groupCurrentSet { s with source := src.restore m s.source }
  size := src.size + 1
  remaining s := src.remaining s.source + s.sourceIsActive.toNat
  remaining_le s := Nat.add_le_add (src.remaining_le s.source) (toNat_le s.sourceIsActive)
  remaining_step s := by
    by_cases hactive : s.sourceIsActive = true
    · rw [if_pos hactive, hactive]
      exact Nat.add_le_add_right (remaining_groupCurrentSet s) 1
    · rw [if_neg hactive]
      by_cases ht : (src.step s.source).1 = true
      · have hlt := remaining_step_lt ht
        have hset := remaining_groupCurrentSet { s with source := (src.step s.source).2 }
        rw [if_pos ht]
        simp only [Bool.toNat_true] at hset ⊢
        omega
      · have hle := remaining_step_le s.source
        rw [if_neg ht]
        simp only [toNat_false]
        omega

end Source

/-- The row of one group. -/
def GroupOps.row {α κ π γ : Type} (ops : GroupOps α κ π γ) (g : α × List α) : π × γ :=
  (ops.project g.1, (ops.finish ((g.1 :: g.2).foldl (fun acc r => ops.step r acc) ops.init)).1)

/-- The rows of all groups. -/
def GroupOps.rows {α κ π γ : Type} [DecidableEq κ] (ops : GroupOps α κ π γ) (rows : List α) :
    List (π × γ) := (groupsBy ops.key rows).map ops.row

/-! ## Union -/

namespace Source

variable {α κ : Type} [LinearOrder κ] (L R : Source α) (keyExtract : α → κ)

/-- State of `union`. -/
structure UnionState where
  left : L.State
  right : R.State
  leftEnded : Bool
  rightEnded : Bool
  nextStepLeft : Bool
  currentAtLeft : Bool

/-- Marker of `union`.  Which of the two sources the current row is from is not part of it. -/
structure UnionMarker where
  leftMark : L.Marker
  rightMark : R.Marker
  leftEnded : Bool
  rightEnded : Bool
  nextStepLeft : Bool

variable {L R} (s : UnionState L R)

/-- Choose the source of the smaller row; of two equal ones that of the right source. -/
def resetCurrent : Bool × UnionState L R :=
  if s.leftEnded && s.rightEnded then (false, s)
  else if s.leftEnded then (true, { s with currentAtLeft := false })
  else if s.rightEnded then (true, { s with currentAtLeft := true })
  else if keyExtract (L.get s.left) < keyExtract (R.get s.right) then
    (true, { s with currentAtLeft := true, nextStepLeft := true })
  else (true, { s with currentAtLeft := false, nextStepLeft := false })

def unionStepLeft : UnionState L R :=
  { s with left := (L.step s.left).2, leftEnded := !(L.step s.left).1 }

def unionStepRight : UnionState L R :=
  { s with right := (R.step s.right).2, rightEnded := !(R.step s.right).1 }

def unionStep : Bool × UnionState L R :=
  if s.leftEnded && s.rightEnded then (false, s)
  else if s.leftEnded then resetCurrent keyExtract (unionStepRight s)
  else if s.rightEnded then resetCurrent keyExtract (unionStepLeft s)
  else if s.nextStepLeft then resetCurrent keyExtract (unionStepLeft s)
  else resetCurrent keyExtract (unionStepRight s)

/-- The steps that can still succeed, with one more for a row that waits on each side. -/
def unionRemaining : ℕ :=
  L.remaining s.left + (!s.leftEnded).toNat + (R.remaining s.right + (!s.rightEnded).toNat)

lemma unionRemaining_resetCurrent :
    unionRemaining (resetCurrent keyExtract s).2 = unionRemaining s := by
  rw [resetCurrent]
  split_ifs <;> rfl

lemma unionRemaining_stepLeft {s : UnionState L R} (h : s.leftEnded = false) :
    unionRemaining (unionStepLeft s) + 1 ≤ unionRemaining s := by
  have hstep := L.remaining_step s.left
  simp only [unionRemaining, unionStepLeft, h, Bool.not_not, Bool.not_false, Bool.toNat_true]
  omega

lemma unionRemaining_stepRight {s : UnionState L R} (h : s.rightEnded = false) :
    unionRemaining (unionStepRight s) + 1 ≤ unionRemaining s := by
  have hstep := R.remaining_step s.right
  simp only [unionRemaining, unionStepRight, h, Bool.not_not, Bool.not_false, Bool.toNat_true]
  omega

lemma unionRemaining_step :
    unionRemaining (unionStep keyExtract s).2 + (unionStep keyExtract s).1.toNat ≤
      unionRemaining s := by
  have hreset : ∀ t : UnionState L R, unionRemaining t + 1 ≤ unionRemaining s →
      unionRemaining (resetCurrent keyExtract t).2 + (resetCurrent keyExtract t).1.toNat ≤
        unionRemaining s := by
    intro t ht
    rw [unionRemaining_resetCurrent]
    exact le_trans (Nat.add_le_add_left (toNat_le _) _) ht
  rw [unionStep]
  split_ifs with hboth hleft hright hnext
  · exact le_rfl
  · exact hreset _ (unionRemaining_stepRight (by simpa [hleft] using hboth))
  · exact hreset _ (unionRemaining_stepLeft (by simpa using hleft))
  · exact hreset _ (unionRemaining_stepLeft (by simpa using hleft))
  · exact hreset _ (unionRemaining_stepRight (by simpa using hright))

variable (L R)

/-- The rows of both sources, merged by their keys. -/
@[reducible] def union : Source α where
  State := UnionState L R
  Marker := UnionMarker L R
  start :=
    { left := L.start
      right := (R.step R.start).2
      leftEnded := false
      rightEnded := !(R.step R.start).1
      nextStepLeft := true
      currentAtLeft := false }
  step s := unionStep keyExtract s
  get s := if s.currentAtLeft then L.get s.left else R.get s.right
  mark s := ⟨L.mark s.left, R.mark s.right, s.leftEnded, s.rightEnded, s.nextStepLeft⟩
  restore m s :=
    (resetCurrent keyExtract
      { left := if m.leftEnded then s.left else L.restore m.leftMark s.left
        right := if m.rightEnded then s.right else R.restore m.rightMark s.right
        leftEnded := m.leftEnded
        rightEnded := m.rightEnded
        nextStepLeft := m.nextStepLeft
        currentAtLeft := s.currentAtLeft }).2
  size := L.size + 1 + (R.size + 1)
  remaining := unionRemaining
  remaining_le _ := Nat.add_le_add
    (Nat.add_le_add (L.remaining_le _) (toNat_le _))
    (Nat.add_le_add (R.remaining_le _) (toNat_le _))
  remaining_step := unionRemaining_step keyExtract

end Source

/-! ## LeftJoinEq -/

/-- What the next step of a join does. -/
inductive JoinState where
  | nextLeft
  | firstRight
  | nextRight
  | onlyLeft
deriving DecidableEq

namespace Source

variable {α β κ : Type} [LinearOrder κ] (L : Source α) (R : Source β)

/-- State of `leftJoinEq`.  `rightMark` is `rightKeyAtMark` and `rightMark` of the source, and
present if `hasRightMark` is set. -/
structure LeftJoinState (κ : Type) where
  left : L.State
  right : R.State
  current : α × Option β
  state : JoinState
  rightMark : Option (κ × R.Marker)

/-- Marker of `leftJoinEq`. -/
structure LeftJoinMarker where
  leftMark : L.Marker
  rightMark : R.Marker
  state : JoinState
  innerRightMark : Option R.Marker

variable {L R} (leftKey : α → κ) (rightKey : β → κ) (s : LeftJoinState L R κ)

def makeCurrent (hasRight : Bool) : LeftJoinState L R κ :=
  { s with current := (L.get s.left, if hasRight then some (R.get s.right) else none) }

/-- Go to the first row of the right source that is not below the row of the left one. -/
def joinSeek : Bool × R.State :=
  let below := fun b => decide (rightKey b < leftKey (L.get s.left))
  if below (R.get s.right) then R.skip below s.right else (true, s.right)

/-- The state `s_first_right`. -/
def joinFirstRight : Bool × LeftJoinState L R κ :=
  let t := joinSeek leftKey rightKey s
  if !t.1 then (true, makeCurrent { s with right := t.2, state := .onlyLeft } false)
  else if leftKey (L.get s.left) = rightKey (R.get t.2) then
    (true, makeCurrent
      { s with
        right := t.2
        state := .nextRight
        rightMark := some (rightKey (R.get t.2), R.mark t.2) } true)
  else (true, makeCurrent { s with right := t.2, state := .nextLeft } false)

/-- A further row of the left source may have the key of the row before it, and then needs the rows
of the right source again. -/
def joinRewind : LeftJoinState L R κ :=
  match s.rightMark with
  | some (k, m) =>
    if leftKey (L.get s.left) = k then { s with right := R.restore m s.right }
    else { s with rightMark := none }
  | none => s

/-- The state `s_next_left`. -/
def joinNextLeft : Bool × LeftJoinState L R κ :=
  let t := L.step s.left
  if t.1 then joinFirstRight leftKey rightKey (joinRewind leftKey { s with left := t.2 })
  else (false, { s with left := t.2, state := .onlyLeft })

/-- The state `s_next_right`: a further row of the right source belongs to the row of the left one
if it has the same key. -/
def joinNextRight : Bool × LeftJoinState L R κ :=
  let t := R.step s.right
  if t.1 && decide (leftKey (L.get s.left) = rightKey (R.get t.2)) then
    (true, makeCurrent { s with right := t.2 } true)
  else joinNextLeft leftKey rightKey { s with right := t.2, state := .nextLeft }

/-- The state `s_only_left`: the right source has no rows any more. -/
def joinOnlyLeft : Bool × LeftJoinState L R κ :=
  let t := L.step s.left
  if t.1 then (true, makeCurrent { s with left := t.2 } false) else (false, { s with left := t.2 })

def joinStep : Bool × LeftJoinState L R κ :=
  match s.state with
  | .onlyLeft => joinOnlyLeft s
  | .nextLeft => joinNextLeft leftKey rightKey s
  | .firstRight => joinFirstRight leftKey rightKey s
  | .nextRight => joinNextRight leftKey rightKey s

variable {s : LeftJoinState L R κ}

variable {leftKey rightKey} in
lemma joinStep_of_nextRight (h : s.state = .nextRight) :
    joinStep leftKey rightKey s = joinNextRight leftKey rightKey s := by
  rw [joinStep, h]

variable {leftKey rightKey} in
lemma joinStep_of_nextLeft (h : s.state = .nextLeft) :
    joinStep leftKey rightKey s = joinNextLeft leftKey rightKey s := by
  rw [joinStep, h]

variable {leftKey rightKey} in
lemma joinStep_of_onlyLeft (h : s.state = .onlyLeft) :
    joinStep leftKey rightKey s = joinOnlyLeft s := by
  rw [joinStep, h]

/-- The steps that can still succeed for the row of the left source. -/
def rowRemaining (s : LeftJoinState L R κ) : ℕ :=
  match s.state with
  | .firstRight => R.size + 1
  | .nextRight => R.remaining s.right
  | _ => 0

/-- The steps that can still succeed: the right source may be gone through for each row of the left
one. -/
def joinRemaining (s : LeftJoinState L R κ) : ℕ :=
  L.remaining s.left * (R.size + 1) + rowRemaining s

lemma joinFirstRight_fst (s : LeftJoinState L R κ) :
    (joinFirstRight leftKey rightKey s).1 = true := by
  rw [joinFirstRight]
  split_ifs <;> rfl

lemma joinFirstRight_left : (joinFirstRight leftKey rightKey s).2.left = s.left := by
  rw [joinFirstRight]
  split_ifs <;> rfl

lemma rowRemaining_joinFirstRight (s : LeftJoinState L R κ) :
    rowRemaining (joinFirstRight leftKey rightKey s).2 ≤ R.size := by
  rw [joinFirstRight]
  split_ifs
  · exact Nat.zero_le _
  · exact R.remaining_le _
  · exact Nat.zero_le _

lemma joinRewind_left : (joinRewind leftKey s).left = s.left := by
  rw [joinRewind]
  split
  · split_ifs <;> rfl
  · rfl

omit [LinearOrder κ] in
lemma joinRemaining_of_left {t : Bool × LeftJoinState L R κ} {n : ℕ}
    (hleft : L.remaining t.2.left < n) (hrow : rowRemaining t.2 ≤ R.size) :
    joinRemaining t.2 + t.1.toNat ≤ n * (R.size + 1) := by
  have hmul := Nat.mul_le_mul_right (R.size + 1) (Nat.succ_le_of_lt hleft)
  have htoNat := toNat_le t.1
  rw [Nat.succ_mul] at hmul
  simp only [joinRemaining]
  omega

omit [LinearOrder κ] in
lemma joinRemaining_of_end {n : ℕ} (hleft : L.remaining s.left ≤ n)
    (hstate : s.state = .onlyLeft) : joinRemaining s ≤ n * (R.size + 1) := by
  rw [joinRemaining, rowRemaining, hstate]
  exact Nat.mul_le_mul_right _ hleft

lemma joinRemaining_nextLeft (s : LeftJoinState L R κ) :
    joinRemaining (joinNextLeft leftKey rightKey s).2 +
      (joinNextLeft leftKey rightKey s).1.toNat ≤ L.remaining s.left * (R.size + 1) := by
  rw [joinNextLeft]
  by_cases ht : (L.step s.left).1 = true
  · rw [if_pos ht]
    refine joinRemaining_of_left ?_ (rowRemaining_joinFirstRight leftKey rightKey _)
    rw [joinFirstRight_left, joinRewind_left]
    exact remaining_step_lt ht
  · rw [if_neg ht]
    exact joinRemaining_of_end (remaining_step_le s.left) rfl

lemma joinRemaining_step (s : LeftJoinState L R κ) :
    joinRemaining (joinStep leftKey rightKey s).2 + (joinStep leftKey rightKey s).1.toNat ≤
      joinRemaining s := by
  rw [joinStep]
  split
  case h_1 hstate =>
    rw [joinOnlyLeft]
    split_ifs with ht
    · refine le_trans (joinRemaining_of_left (remaining_step_lt ht) ?_) (Nat.le_add_right _ _)
      rw [hstate]
      exact Nat.zero_le _
    · exact le_trans (joinRemaining_of_end (remaining_step_le s.left) hstate) (Nat.le_add_right _ _)
  case h_2 => exact le_trans (joinRemaining_nextLeft leftKey rightKey s) (Nat.le_add_right _ _)
  case h_3 hstate =>
    have hrow := rowRemaining_joinFirstRight leftKey rightKey s
    have hbef : rowRemaining s = R.size + 1 := by rw [rowRemaining, hstate]
    rw [joinFirstRight_fst, joinRemaining, joinRemaining, joinFirstRight_left]
    simp only [Bool.toNat_true]
    omega
  case h_4 hstate =>
    have hbef : rowRemaining s = R.remaining s.right := by rw [rowRemaining, hstate]
    rw [joinNextRight]
    split_ifs with ht
    · have hlt := remaining_step_lt (and_eq_true_iff.mp ht).1
      rw [joinRemaining, joinRemaining, rowRemaining, makeCurrent, hstate]
      simp only [Bool.toNat_true]
      omega
    · exact le_trans (joinRemaining_nextLeft leftKey rightKey _) (Nat.le_add_right _ _)

variable (L R)

/-- Each row of the left source with the rows of the right source that have the same key, or
alone. -/
@[reducible] def leftJoinEq : Source (α × Option β) where
  State := LeftJoinState L R κ
  Marker := LeftJoinMarker L R
  start :=
    { left := L.start
      right := (R.step R.start).2
      current := (L.get L.start, none)
      state := if (R.step R.start).1 then .nextLeft else .onlyLeft
      rightMark := none }
  step := joinStep leftKey rightKey
  get s := s.current
  mark s := ⟨L.mark s.left, R.mark s.right, s.state, s.rightMark.map Prod.snd⟩
  restore m s :=
    let atMark := m.innerRightMark.map fun inner => (R.restore inner s.right, inner)
    let t : LeftJoinState L R κ :=
      { s with
        left := L.restore m.leftMark s.left
        right := R.restore m.rightMark ((atMark.map Prod.fst).getD s.right)
        state := m.state
        rightMark := atMark.map fun p => (rightKey (R.get p.1), p.2) }
    makeCurrent t
      (m.state ≠ .onlyLeft && decide (leftKey (L.get t.left) = rightKey (R.get t.right)))
  size := L.size * (R.size + 1) + (R.size + 1)
  remaining := joinRemaining
  remaining_le s := by
    refine Nat.add_le_add (Nat.mul_le_mul_right _ (L.remaining_le _)) ?_
    rw [rowRemaining]
    split
    · exact le_rfl
    · exact Nat.le_succ_of_le (R.remaining_le _)
    · exact Nat.zero_le _
  remaining_step := joinRemaining_step leftKey rightKey

end Source

end Beegfs
