import Mathlib

/-!
# Sources of rows

A source delivers rows one after the other: `step` moves it to its next row and says whether there
is one, `get` reads the row that the source is on, `mark` remembers the place and `restore` goes
back to it.  After `step` has said that there is no further row, `get` still returns something, and
a program that reads it there depends on what that is.

`Steps` says what a source delivers and what it shows after the end, `Tracks` adds that places can
be restored.  Both describe the states of the source by the row they are on and the rows that
follow.
-/

namespace Beegfs

open List

/-- A source of rows.  The last fields are no part of what the source computes: they bound the
number of steps that can still succeed, so that a loop over the source ends. -/
structure Source (α : Type) where
  State : Type
  Marker : Type
  start : State
  step : State → Bool × State
  get : State → α
  mark : State → Marker
  restore : Marker → State → State
  size : ℕ
  remaining : State → ℕ
  remaining_le (s : State) : remaining s ≤ size
  remaining_step (s : State) : remaining (step s).2 + (step s).1.toNat ≤ remaining s

namespace Source

variable {α : Type} (src : Source α)

/-! ## Loops over a source -/

/-- Step, and go on as long as the source is on a row of `p`; at most `n` steps. -/
def stepWhile (p : α → Bool) : ℕ → src.State → Bool × src.State
  | 0, s => (false, s)
  | n + 1, s =>
    if (src.step s).1 && p (src.get (src.step s).2) then stepWhile p n (src.step s).2
    else src.step s

variable (p : α → Bool)

/-- Step to the next row that is not in `p`. -/
def skip (s : src.State) : Bool × src.State := src.stepWhile p (src.remaining s + 1) s

/-- The rows of at most `n` steps, and the state after them. -/
def drain : ℕ → src.State → List α × src.State
  | 0, s => ([], s)
  | n + 1, s =>
    if (src.step s).1 then
      (src.get (src.step s).2 :: (drain n (src.step s).2).1, (drain n (src.step s).2).2)
    else ([], (src.step s).2)

/-- The rows that the source delivers. -/
def rows : List α := (src.drain (src.remaining src.start + 1) src.start).1

/-- What the source shows after it was stepped to its end. -/
def shownAfterEnd : α := src.get (src.drain (src.remaining src.start + 1) src.start).2

/-- The row that step number `k` from `s` delivers, if it delivers one. -/
def output : ℕ → src.State → Option α
  | 0, s => if (src.step s).1 then some (src.get (src.step s).2) else none
  | k + 1, s => output k (src.step s).2

variable {src}

lemma remaining_step_le (s : src.State) : src.remaining (src.step s).2 ≤ src.remaining s :=
  Nat.le_of_add_right_le (src.remaining_step s)

lemma remaining_step_lt {s : src.State} (h : (src.step s).1 = true) :
    src.remaining (src.step s).2 < src.remaining s := by
  have hstep := src.remaining_step s
  rw [h] at hstep
  exact hstep

lemma remaining_stepWhile (n : ℕ) (s : src.State) :
    src.remaining (src.stepWhile p n s).2 + (src.stepWhile p n s).1.toNat ≤ src.remaining s := by
  induction n generalizing s with
  | zero => exact Nat.le_refl _
  | succ n ih =>
    rw [stepWhile]
    split
    · exact Nat.le_trans (ih _) (remaining_step_le s)
    · exact src.remaining_step s

lemma remaining_skip (s : src.State) :
    src.remaining (src.skip p s).2 + (src.skip p s).1.toNat ≤ src.remaining s :=
  remaining_stepWhile p _ s

lemma skip_of_end {s : src.State} (h : (src.step s).1 = false) (p : α → Bool) :
    src.skip p s = src.step s := by
  rw [skip, stepWhile, h, Bool.false_and, if_neg Bool.false_ne_true]

end Source

/-! ## What a source delivers -/

section Lands

variable {α σ : Type} (On : α → List α → σ → Prop) (End : σ → Prop)

/-- The result of a step is the first of the rows, or the end. -/
def Lands : List α → Bool × σ → Prop
  | [], t => t.1 = false ∧ End t.2
  | r :: rest, t => t.1 = true ∧ On r rest t.2

variable {On End}

/-- A source that is on a row is on a row of what it delivers. -/
lemma Lands.with_suffix {rows l : List α} {t : Bool × σ} (h : Lands On End l t) (hl : l <:+ rows) :
    Lands (fun r rest s => On r rest s ∧ (r :: rest) <:+ rows) End l t := by
  cases l with
  | nil => exact h
  | cons r rest => exact ⟨h.1, h.2, hl⟩

end Lands

/-- The source delivers `rows` and shows `shown` after the end.  `On r rest` are the states in which
it is on `r` with `rest` to follow, `Ended` those after the end. -/
structure Steps {α : Type} (src : Source α) (rows : List α) (shown : Option α) where
  On : α → List α → src.State → Prop
  Ended : src.State → Prop
  get_on {r : α} {rest : List α} {s : src.State} : On r rest s → src.get s = r
  suffix_on {r : α} {rest : List α} {s : src.State} : On r rest s → (r :: rest) <:+ rows
  step_start : Lands On (fun s => Ended s ∧ (rows ≠ [] → shown = some (src.get s))) rows
    (src.step src.start)
  step_on {r : α} {rest : List α} {s : src.State} : On r rest s →
    Lands On (fun s => Ended s ∧ (rows ≠ [] → shown = some (src.get s))) rest (src.step s)
  step_ended {s : src.State} : Ended s → (src.step s).1 = false ∧ Ended (src.step s).2

namespace Steps

/-- The places of a source, where the row and those that follow are known to be delivered. -/
def ofLands {α : Type} {src : Source α} {rows : List α} {shown : Option α}
    (On : α → List α → src.State → Prop) (Ended : src.State → Prop)
    (get_on : ∀ {r rest s}, On r rest s → src.get s = r)
    (step_start : Lands On (fun s => Ended s ∧ (rows ≠ [] → shown = some (src.get s))) rows
      (src.step src.start))
    (step_on : ∀ {r rest s}, On r rest s → (r :: rest) <:+ rows →
      Lands On (fun s => Ended s ∧ (rows ≠ [] → shown = some (src.get s))) rest (src.step s))
    (step_ended : ∀ {s}, Ended s → (src.step s).1 = false ∧ Ended (src.step s).2) :
    Steps src rows shown where
  On r rest s := On r rest s ∧ (r :: rest) <:+ rows
  Ended := Ended
  get_on h := get_on h.1
  suffix_on h := h.2
  step_start := step_start.with_suffix suffix_rfl
  step_on h := (step_on h.1 h.2).with_suffix ((suffix_cons _ _).trans h.2)
  step_ended := step_ended

variable {α : Type} {src : Source α} {rows : List α} {shown : Option α} (T : Steps src rows shown)

/-- The source was stepped to its end and not moved since. -/
def AtEnd (s : src.State) : Prop := T.Ended s ∧ (rows ≠ [] → shown = some (src.get s))

/-- The result of a step is the first of the rows, or the end. -/
def Reaches (l : List α) (t : Bool × src.State) : Prop := Lands T.On T.AtEnd l t

/-- The source was stepped at least once. -/
def Moved (s : src.State) : Prop := (∃ r rest, T.On r rest s) ∨ T.Ended s

/-- The source was stepped at least once, and not sent back to a place after its end. -/
def Kept (s : src.State) : Prop := (∃ r rest, T.On r rest s) ∨ T.AtEnd s

lemma reaches_start : T.Reaches rows (src.step src.start) := T.step_start

variable {T} {s : src.State} {rest : List α}

lemma moved_of_on {r : α} (h : T.On r rest s) : T.Moved s := .inl ⟨r, rest, h⟩

variable {l : List α}

lemma Reaches.of_eq {l' : List α} {t : Bool × src.State} (h : T.Reaches l t) (hl : l = l') :
    T.Reaches l' t := by
  subst hl
  exact h

lemma Reaches.moved {t : Bool × src.State} (h : T.Reaches l t) : T.Moved t.2 := by
  cases l with
  | nil => exact .inr h.2.1
  | cons r rest => exact moved_of_on h.2

lemma Kept.moved (h : T.Kept s) : T.Moved s := by
  rcases h with hon | hend
  · exact .inl hon
  · exact .inr hend.1

lemma kept_of_on {r : α} (h : T.On r rest s) : T.Kept s := .inl ⟨r, rest, h⟩

/-- What is shown is a row, or what is shown after the end. -/
lemma Kept.get_mem (h : T.Kept s) (hne : rows ≠ []) : src.get s ∈ rows ++ shown.toList := by
  rcases h with ⟨r, rest, hon⟩ | hend
  · rw [T.get_on hon]
    exact mem_append_left _ ((T.suffix_on hon).subset mem_cons_self)
  · refine mem_append_right _ ?_
    rw [hend.2 hne]
    exact mem_singleton_self _

open Source

/-- Skipping the rows of `p` reaches the first of the others. -/
lemma Reaches.stepWhile (p : α → Bool) (h : T.Reaches l (src.step s))
    {n : ℕ} (hn : src.remaining s < n) : T.Reaches (l.dropWhile p) (src.stepWhile p n s) := by
  induction n generalizing s l with
  | zero => nomatch hn
  | succ n ih =>
    cases l with
    | nil =>
      rw [stepWhile, h.1, Bool.false_and]
      exact h
    | cons r rest =>
      rw [stepWhile, h.1, Bool.true_and, T.get_on h.2]
      by_cases hr : p r = true
      · rw [if_pos hr, dropWhile_cons_of_pos hr]
        have hlt := remaining_step_lt h.1
        exact ih (T.step_on h.2) (by omega)
      · rw [if_neg hr, dropWhile_cons_of_neg hr]
        exact h

lemma Reaches.skip (p : α → Bool) (h : T.Reaches l (src.step s)) :
    T.Reaches (l.dropWhile p) (src.skip p s) := h.stepWhile p (Nat.lt_succ_self _)

/-- Draining collects the rows, and leaves the source at its end. -/
lemma Reaches.drain (h : T.Reaches l (src.step s)) {n : ℕ}
    (hn : src.remaining s < n) : (src.drain n s).1 = l ∧ T.AtEnd (src.drain n s).2 := by
  induction n generalizing s l with
  | zero => nomatch hn
  | succ n ih =>
    cases l with
    | nil =>
      rw [drain, h.1]
      exact ⟨rfl, h.2⟩
    | cons r rest =>
      have hlt := remaining_step_lt h.1
      obtain ⟨hrows, hend⟩ := ih (T.step_on h.2) (by omega)
      rw [drain, if_pos h.1, T.get_on h.2, hrows]
      exact ⟨rfl, hend⟩

lemma output_of_ended (h : T.Ended s) (k : ℕ) : src.output k s = none := by
  induction k generalizing s with
  | zero => simp [output, (T.step_ended h).1]
  | succ k ih => exact ih (T.step_ended h).2

/-- The rows are delivered one after the other, and then no more. -/
lemma Reaches.output (h : T.Reaches l (src.step s)) (k : ℕ) : src.output k s = l[k]? := by
  induction l generalizing s k with
  | nil =>
    cases k with
    | zero => simp [output, h.1]
    | succ k => simpa [output] using output_of_ended h.2.1 k
  | cons r rest ih =>
    cases k with
    | zero => simp [output, h.1, T.get_on h.2]
    | succ k => simpa [output] using ih (T.step_on h.2) k

variable (T)

include T

lemma output_eq (k : ℕ) : src.output k src.start = rows[k]? := T.reaches_start.output k

lemma rows_eq : src.rows = rows := (T.reaches_start.drain (Nat.lt_succ_self _)).1

lemma shown_eq (h : rows ≠ []) : shown = some src.shownAfterEnd :=
  (T.reaches_start.drain (Nat.lt_succ_self _)).2.2 h

end Steps

/-- The source delivers `rows`, shows `shown` after the end, and goes back to every marked place.
The places after the end are not told apart: a source that was sent back there shows one of the
`ghosts`. -/
structure Tracks {α : Type} (src : Source α) (rows : List α) (shown : Option α)
    (ghosts : List α) extends Steps src rows shown where
  get_ended {s : src.State} : rows ≠ [] → Ended s → src.get s ∈ ghosts
  restore_on {r : α} {rest : List α} {s t : src.State} : On r rest s → toSteps.Moved t →
    On r rest (src.restore (src.mark s) t)
  restore_ended {s t : src.State} : rows ≠ [] → Ended s → toSteps.Moved t →
    Ended (src.restore (src.mark s) t)

namespace Tracks

variable {α : Type} {src : Source α} {rows : List α} {shown : Option α} {ghosts : List α}
  (T : Tracks src rows shown ghosts)

/-- The marker leads back to the row `r` with `rest` to follow. -/
def Marks (m : src.Marker) (r : α) (rest : List α) : Prop :=
  ∀ t, T.Moved t → T.On r rest (src.restore m t)

lemma marks_mark {r : α} {rest : List α} {s : src.State} (h : T.On r rest s) :
    T.Marks (src.mark s) r rest := fun _ ht => T.restore_on h ht

lemma moved_restore {s t : src.State} (hne : rows ≠ []) (hs : T.Moved s) (ht : T.Moved t) :
    T.Moved (src.restore (src.mark s) t) := by
  rcases hs with ⟨r, rest, hon⟩ | hended
  · exact Steps.moved_of_on (T.restore_on hon ht)
  · exact .inr (T.restore_ended hne hended ht)

end Tracks

end Beegfs
