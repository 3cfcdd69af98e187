import Beegfs.Fsck.Combinators

/-!
# What the combinators deliver

For each combinator except the join: the rows it delivers in terms of the rows of its sources, the
row it shows after the end, and that it goes back to every marked place.
-/

namespace Beegfs

open Source List

/-! ## Fragments -/

section Fragment

variable {α : Type} (rows : List α)

/-- The cursor is on the row `r` of the fragment. -/
def FragmentOn (r : α) (rest : List α) (n : ℕ) : Prop := 0 < n ∧ rows.drop (n - 1) = r :: rest

lemma lt_of_drop_eq_cons {n : ℕ} {r : α} {rest : List α} (h : rows.drop n = r :: rest) :
    n < rows.length := by
  by_contra hn
  rw [drop_of_length_le (Nat.le_of_not_lt hn)] at h
  cases h

variable [Inhabited α]

lemma fragmentCursor_lands {n : ℕ} (hn : n ≤ rows.length)
    (hpos : rows ≠ [] → n = rows.length → 0 < n) : Lands (FragmentOn rows)
      (fun n => n = rows.length ∧ (rows ≠ [] → rows.getLast? = some (rows.getD (n - 1) default)))
      (rows.drop n) ((fragmentCursor rows).step n) := by
  rcases Nat.lt_or_ge n rows.length with hlt | hge
  · have hstep : (fragmentCursor rows).step n = (true, n + 1) := if_neg (Nat.not_le_of_lt hlt)
    rw [drop_eq_getElem_cons hlt, hstep]
    exact ⟨rfl, Nat.succ_pos n, drop_eq_getElem_cons hlt⟩
  · have hn : n = rows.length := Nat.le_antisymm hn hge
    have hstep : (fragmentCursor rows).step n = (false, n) := if_pos hge
    rw [drop_of_length_le hge, hstep]
    refine ⟨rfl, hn, fun hne => ?_⟩
    have hlt : n - 1 < rows.length := Nat.lt_of_lt_of_eq (Nat.sub_one_lt (hpos hne hn).ne') hn
    rw [List.getLast?_eq_getElem?, ← hn, getD_eq_getElem?_getD, List.getElem?_eq_getElem hlt]
    rfl

lemma fragmentCursor_restore {n t : ℕ} (hpos : 0 < n) (hn : n ≤ rows.length) :
    (fragmentCursor rows).restore n t = n := by
  have hlt : ¬rows.length ≤ n - 1 := by omega
  exact (if_neg hlt).trans (Nat.sub_add_cancel hpos)

/-- A cursor over a fragment delivers the rows of the fragment, and shows the last one after the
end. -/
def fragmentCursor_tracks : Tracks (fragmentCursor rows) rows rows.getLast?
    rows.getLast?.toList where
  On := FragmentOn rows
  Ended n := n = rows.length
  get_on := by
    rintro r rest (n : ℕ) ⟨-, h⟩
    have hlt := lt_of_drop_eq_cons rows h
    rw [drop_eq_getElem_cons hlt] at h
    change rows.getD (n - 1) default = r
    rw [getD_eq_getElem?_getD, List.getElem?_eq_getElem hlt]
    exact (List.cons.inj h).1
  suffix_on := fun h => h.2 ▸ drop_suffix _ _
  step_start := fragmentCursor_lands rows (Nat.zero_le _)
    fun hne h => h ▸ length_pos_iff.mpr hne
  step_on := by
    rintro r rest n ⟨hpos, h⟩
    have hlt := lt_of_drop_eq_cons rows h
    rw [drop_eq_getElem_cons hlt, Nat.sub_add_cancel hpos] at h
    rw [← (List.cons.inj h).2]
    exact fragmentCursor_lands rows (by omega) fun _ _ => hpos
  step_ended := by
    rintro n rfl
    exact ⟨by simp [fragmentCursor], by simp [fragmentCursor]⟩
  get_ended := by
    rintro n hne rfl
    have hlast := (fragmentCursor_lands rows le_rfl fun _ _ => length_pos_iff.mpr hne)
    rw [drop_length] at hlast
    have hget := hlast.2.2 hne
    rw [hget]
    simp
  restore_on := by
    rintro r rest n t ⟨hpos, h⟩ -
    have hlt := lt_of_drop_eq_cons rows h
    have hback : (fragmentCursor rows).restore n t = n :=
      fragmentCursor_restore rows hpos (by omega)
    change FragmentOn rows r rest ((fragmentCursor rows).restore n t)
    rw [hback]
    exact ⟨hpos, h⟩
  restore_ended := by
    rintro n t hne rfl -
    exact fragmentCursor_restore rows (length_pos_iff.mpr hne) le_rfl

end Fragment

variable {α : Type} {src : Source α} {rows l : List α} {shown : Option α} {ghosts : List α}

/-! ## Filter -/

section Filter

variable (pred : α → Bool)

lemma Steps.Reaches.filter {T : Steps src rows shown} {t : Bool × src.State}
    (h : T.Reaches (l.dropWhile fun r => !pred r) t) :
    Lands (fun r rest s => pred r = true ∧ ∃ srest, T.On r srest s ∧ srest.filter pred = rest)
      (fun s => T.Ended s ∧ (rows.filter pred ≠ [] → shown = some (src.get s)))
      (l.filter pred) t := by
  induction l with
  | nil => exact ⟨h.1, h.2.1, fun hne => h.2.2 fun hnil => hne (by rw [hnil]; rfl)⟩
  | cons r rest ih =>
    by_cases hr : pred r = true
    · rw [dropWhile_cons, if_neg (by simpa using hr)] at h
      rw [filter_cons_of_pos hr]
      exact ⟨h.1, hr, rest, h.2, rfl⟩
    · rw [dropWhile_cons, if_pos (by simpa using hr)] at h
      rw [filter_cons_of_neg hr]
      exact ih h

open Steps

/-- A filter shows after the end what its source shows, also if that row is filtered out. -/
def Steps.filter (T : Steps src rows shown) : Steps (src.filter pred) (rows.filter pred) shown :=
  ofLands (fun r rest s => pred r = true ∧ ∃ srest, T.On r srest s ∧ srest.filter pred = rest)
    T.Ended
    (fun ⟨_, _, hon, _⟩ => T.get_on hon)
    (T.reaches_start.skip _).filter
    (by
      rintro r rest s ⟨-, srest, hon, rfl⟩ -
      exact (Steps.Reaches.skip _ (T.step_on hon)).filter)
    (by
      intro s h
      obtain ⟨hfalse, hended⟩ := T.step_ended h
      have hskip : (src.filter pred).step s = src.step s := skip_of_end hfalse fun r => !pred r
      rw [hskip]
      exact ⟨hfalse, hended⟩)

lemma Steps.moved_of_filter {T : Steps src rows shown} {s : src.State}
    (h : (T.filter pred).Moved s) : T.Moved s := by
  rcases h with ⟨r, rest, ⟨-, srest, hon, -⟩, -⟩ | hended
  · exact .inl ⟨r, srest, hon⟩
  · exact .inr hended

def Tracks.filter (T : Tracks src rows shown ghosts) :
    Tracks (src.filter pred) (rows.filter pred) shown ghosts where
  toSteps := T.toSteps.filter pred
  get_ended hne h := T.get_ended (fun hnil => hne (by rw [hnil]; rfl)) h
  restore_on := by
    rintro r rest s t ⟨⟨hr, srest, hon, hrest⟩, hsuffix⟩ ht
    exact ⟨⟨hr, srest, T.restore_on hon (moved_of_filter pred ht), hrest⟩, hsuffix⟩
  restore_ended hne h ht :=
    T.restore_ended (fun hnil => hne (by rw [hnil]; rfl)) h (moved_of_filter pred ht)

end Filter

/-! ## Select -/

section Select

variable {β : Type} (fn : α → β)

/-- `select` is on the image of the row of its source. -/
def SelectOn (T : Steps src rows shown) (b : β) (rest : List β) (s : SelectState src β) : Prop :=
  s.current = b ∧ ∃ a srest, T.On a srest s.source ∧ fn a = b ∧ srest.map fn = rest

variable (rows ghosts) in
/-- What `select` may show after the end: its last row, or the image of what its source shows. -/
def selectGhosts : List β := (rows.map fn).getLast?.toList ++ ghosts.map fn

lemma Steps.Reaches.select {T : Steps src rows shown} {s : SelectState src β}
    (h : T.Reaches l (src.step s.source))
    (hlast : l = [] → rows ≠ [] → (rows.map fn).getLast? = some s.current) :
    Lands (SelectOn fn T)
      (fun s => (T.Ended s.source ∧ (rows ≠ [] → s.current ∈ selectGhosts rows ghosts fn)) ∧
        (rows.map fn ≠ [] → (rows.map fn).getLast? = some s.current))
      (l.map fn) ((src.select fn).step s) := by
  cases l with
  | nil =>
    rw [select_step, h.1]
    refine ⟨rfl, ⟨h.2.1, fun hne => ?_⟩, fun hne => hlast rfl fun hnil => hne (by simp [hnil])⟩
    rw [selectGhosts, hlast rfl hne]
    exact mem_append_left _ (mem_singleton_self _)
  | cons a rest =>
    rw [select_step, if_pos h.1, T.get_on h.2]
    exact ⟨rfl, rfl, a, rest, h.2, rfl, rfl⟩

variable (ghosts) in
/-- `select` shows its last row after the end. -/
def Steps.select (T : Steps src rows shown) :
    Steps (src.select fn) (rows.map fn) (rows.map fn).getLast? :=
  ofLands (SelectOn fn T)
    (fun s => T.Ended s.source ∧ (rows ≠ [] → s.current ∈ selectGhosts rows ghosts fn))
    (fun h => h.1)
    (T.reaches_start.select fn fun hnil hne => absurd hnil hne)
    (by
      rintro b rest s ⟨rfl, a, srest, hon, hb, rfl⟩ hsuffix
      refine Steps.Reaches.select fn (T.step_on hon) fun hnil _ => ?_
      rw [hnil] at hsuffix
      exact getLast?_of_suffix hsuffix)
    (by
      rintro s ⟨hended, hcurrent⟩
      obtain ⟨hfalse, hended'⟩ := T.step_ended hended
      rw [select_step, hfalse, if_neg Bool.false_ne_true]
      exact ⟨rfl, hended', hcurrent⟩)

lemma Steps.moved_of_select {T : Steps src rows shown} {s : SelectState src β}
    (h : (T.select ghosts fn).Moved s) : T.Moved s.source := by
  rcases h with ⟨b, rest, ⟨-, a, srest, hon, -⟩, -⟩ | hended
  · exact .inl ⟨a, srest, hon⟩
  · exact .inr hended.1

def Tracks.select (T : Tracks src rows shown ghosts) :
    Tracks (src.select fn) (rows.map fn) (rows.map fn).getLast? (selectGhosts rows ghosts fn) where
  toSteps := T.toSteps.select ghosts fn
  get_ended hne h := h.2 fun hnil => hne (by simp [hnil])
  restore_on := by
    rintro b rest s t ⟨⟨-, a, srest, hon, rfl, hrest⟩, hsuffix⟩ ht
    have hback := T.restore_on hon (Steps.moved_of_select fn ht)
    exact ⟨⟨congrArg fn (T.get_on hback), a, srest, hback, rfl, hrest⟩, hsuffix⟩
  restore_ended := by
    rintro s t hne ⟨hended, -⟩ ht
    have hrows : rows ≠ [] := fun hnil => hne (by simp [hnil])
    have hback := T.restore_ended hrows hended (Steps.moved_of_select fn ht)
    exact ⟨hback, fun _ => mem_append_right _ (mem_map_of_mem (T.get_ended hrows hback))⟩

end Select

/-! ## Distinct -/

section Distinct

variable {κ : Type} [DecidableEq κ] (keyExtract : α → κ)

/-- `distinct` is on a row of its source and remembers the key of the row. -/
def DistinctOn (T : Steps src rows shown) (r : α) (rest : List α) (s : DistinctState src κ) :
    Prop :=
  s.key = some (keyExtract r) ∧ ∃ srest, T.On r srest s.source ∧
    distinctBy keyExtract (srest.dropWhile fun b => decide (keyExtract b = keyExtract r)) = rest

lemma Steps.Reaches.distinct {T : Steps src rows shown} {l l' : List α} {s : DistinctState src κ}
    (h : T.Reaches l (src.step s.source))
    (hl : l.dropWhile (fun r => decide (s.key = some (keyExtract r))) = l') :
    Lands (DistinctOn keyExtract T) (fun s => T.Ended s.source ∧
        (distinctBy keyExtract rows ≠ [] → shown = some (src.get s.source)))
      (distinctBy keyExtract l') ((src.distinct keyExtract).step s) := by
  have hskip := h.skip fun r => decide (s.key = some (keyExtract r))
  rw [hl] at hskip
  cases l' with
  | nil =>
    dsimp only
    rw [hskip.1]
    exact ⟨rfl, hskip.2.1, fun hne => hskip.2.2 fun hnil => hne (by rw [hnil]; rfl)⟩
  | cons r rest =>
    rw [distinctBy_cons]
    dsimp only
    rw [if_pos hskip.1, T.get_on hskip.2]
    exact ⟨rfl, rfl, rest, hskip.2, rfl⟩

/-- `distinct` shows after the end what its source shows, a row that is equal to the last one. -/
def Steps.distinct (T : Steps src rows shown) :
    Steps (src.distinct keyExtract) (distinctBy keyExtract rows) shown :=
  ofLands (DistinctOn keyExtract T) (fun s => T.Ended s.source)
    (fun ⟨_, _, hon, _⟩ => T.get_on hon)
    (T.reaches_start.distinct keyExtract (by induction rows <;> simp))
    (by
      rintro r rest s ⟨hkey, srest, hon, rfl⟩ -
      refine Steps.Reaches.distinct keyExtract (T.step_on hon) ?_
      simp [hkey, eq_comm])
    (by
      intro s h
      obtain ⟨hfalse, hended⟩ := T.step_ended h
      rw [distinct_step, skip_of_end hfalse]
      dsimp only
      rw [hfalse, if_neg Bool.false_ne_true]
      exact ⟨rfl, hended⟩)

lemma Steps.moved_of_distinct {T : Steps src rows shown} {s : DistinctState src κ}
    (h : (T.distinct keyExtract).Moved s) : T.Moved s.source := by
  rcases h with ⟨r, rest, ⟨-, srest, hon, -⟩, -⟩ | hended
  · exact .inl ⟨r, srest, hon⟩
  · exact .inr hended

lemma ne_nil_of_distinctBy (h : distinctBy keyExtract rows ≠ []) : rows ≠ [] := by
  rintro rfl
  exact h rfl

def Tracks.distinct (T : Tracks src rows shown ghosts) :
    Tracks (src.distinct keyExtract) (distinctBy keyExtract rows) shown ghosts where
  toSteps := T.toSteps.distinct keyExtract
  get_ended hne h := T.get_ended (ne_nil_of_distinctBy keyExtract hne) h
  restore_on := by
    rintro r rest s t ⟨⟨-, srest, hon, hrest⟩, hsuffix⟩ ht
    have hback := T.restore_on hon (Steps.moved_of_distinct keyExtract ht)
    refine ⟨⟨?_, srest, hback, hrest⟩, hsuffix⟩
    exact congrArg (fun r => some (keyExtract r)) (T.get_on hback)
  restore_ended hne h ht :=
    T.restore_ended (ne_nil_of_distinctBy keyExtract hne) h (Steps.moved_of_distinct keyExtract ht)

end Distinct

/-! ## Group -/

section Group

variable {κ π γ : Type} [DecidableEq κ] (ops : GroupOps α κ π γ)

lemma Steps.Reaches.groupLoop {T : Steps src rows shown} {s : src.State} {n : ℕ}
    (k : κ) (acc : ops.Acc) (h : T.Reaches l (src.step s)) (hn : src.remaining s < n) :
    T.Reaches (l.dropWhile fun r => decide (ops.key r = k))
        ((src.groupLoop ops k n s acc).1, (src.groupLoop ops k n s acc).2.1) ∧
      (src.groupLoop ops k n s acc).2.2 =
        (l.takeWhile fun r => decide (ops.key r = k)).foldl (fun acc r => ops.step r acc) acc := by
  induction n generalizing s acc l with
  | zero => nomatch hn
  | succ n ih =>
    cases l with
    | nil =>
      rw [Source.groupLoop, h.1]
      exact ⟨⟨rfl, h.2⟩, rfl⟩
    | cons r rest =>
      rw [Source.groupLoop, if_pos h.1, T.get_on h.2, dropWhile_cons, takeWhile_cons]
      by_cases hr : ops.key r = k
      · rw [if_pos hr, if_pos (decide_eq_true hr), if_pos (decide_eq_true hr)]
        have hlt := remaining_step_lt h.1
        exact ih _ (T.step_on h.2) (by omega)
      · rw [if_neg hr, if_neg (by simpa using hr), if_neg (by simpa using hr)]
        exact ⟨⟨rfl, h.2⟩, rfl⟩

/-- `group` has folded the rows of a group, and its source is on the first row behind them.  `Marks`
says what is known of the marker of the first row of the group. -/
def GroupOn (T : Steps src rows shown) (Marks : src.Marker → α → List α → Prop) (g : π × γ)
    (rest : List (π × γ)) (s : GroupState src ops) : Prop :=
  s.acc = ops.init ∧ s.current = g ∧ ∃ r srest, Marks s.currentMark r srest ∧
    ops.row (r, srest.takeWhile fun b => decide (ops.key b = ops.key r)) = g ∧
    ops.rows (srest.dropWhile fun b => decide (ops.key b = ops.key r)) = rest ∧
    T.Reaches (srest.dropWhile fun b => decide (ops.key b = ops.key r)) (s.sourceIsActive, s.source)

/-- All groups were delivered. -/
def GroupEnded (T : Steps src rows shown) (Marks : src.Marker → α → List α → Prop)
    (s : GroupState src ops) : Prop :=
  s.acc = ops.init ∧ s.sourceIsActive = false ∧ T.Ended s.source ∧
    (rows ≠ [] → (ops.rows rows).getLast? = some s.current ∧
      ∃ r srest, Marks s.currentMark r srest ∧
        ops.row (r, srest.takeWhile fun b => decide (ops.key b = ops.key r)) = s.current ∧
        srest.dropWhile (fun b => decide (ops.key b = ops.key r)) = [])

variable {ops} {T : Steps src rows shown} {Marks : src.Marker → α → List α → Prop}

lemma GroupOps.rows_cons (r : α) (rest : List α) :
    ops.rows (r :: rest) = ops.row (r, rest.takeWhile fun b => decide (ops.key b = ops.key r)) ::
      ops.rows (rest.dropWhile fun b => decide (ops.key b = ops.key r)) := by
  rw [rows, groupsBy_cons]
  rfl

variable {s : GroupState src ops}

lemma groupCurrentSet_spec {r : α} {srest : List α}
    (hacc : s.acc = ops.init) (hon : T.On r srest s.source) :
    (groupCurrentSet s).acc = ops.init ∧ (groupCurrentSet s).current =
      ops.row (r, srest.takeWhile fun b => decide (ops.key b = ops.key r)) ∧
    T.Reaches (srest.dropWhile fun b => decide (ops.key b = ops.key r))
      ((groupCurrentSet s).sourceIsActive, (groupCurrentSet s).source) := by
  obtain ⟨hreach, hfold⟩ := Steps.Reaches.groupLoop ops (ops.key r) (ops.step r ops.init)
    (T.step_on hon) (Nat.lt_succ_self _)
  refine ⟨ops.finish_init _, ?_, ?_⟩
  · simp only [groupCurrentSet, T.get_on hon, hacc, hfold, GroupOps.row, foldl_cons]
  · simpa only [groupCurrentSet, T.get_on hon, hacc] using hreach

lemma group_step :
    (src.group ops).step s = if s.sourceIsActive then (true, groupCurrentSet s)
      else if (src.step s.source).1 then
        (true, groupCurrentSet { s with source := (src.step s.source).2 })
      else (false, { s with source := (src.step s.source).2 }) := rfl

variable (ops T Marks) in
/-- After the end `group` shows its last row. -/
def GroupAtEnd (s : GroupState src ops) : Prop :=
  GroupEnded ops T Marks s ∧ (ops.rows rows ≠ [] → (ops.rows rows).getLast? = some s.current)

variable (hMarks : ∀ {r rest s}, T.On r rest s → Marks (src.mark s) r rest)

include hMarks

lemma groupOn_groupCurrentSet {r : α} {srest : List α} (hacc : s.acc = ops.init)
    (hon : T.On r srest s.source) :
    GroupOn ops T Marks (ops.row (r, srest.takeWhile fun b => decide (ops.key b = ops.key r)))
      (ops.rows (srest.dropWhile fun b => decide (ops.key b = ops.key r))) (groupCurrentSet s) := by
  obtain ⟨hinit, hcurrent, hreach⟩ := groupCurrentSet_spec hacc hon
  exact ⟨hinit, hcurrent, r, srest, hMarks hon, rfl, rfl, hreach⟩

/-- A group whose source has to be stepped first. -/
lemma Steps.Reaches.group (h : T.Reaches l (src.step s.source))
    (hacc : s.acc = ops.init) (hactive : s.sourceIsActive = false) (hl : l = [] → rows = []) :
    Lands (GroupOn ops T Marks) (GroupAtEnd ops T Marks) (ops.rows l) ((src.group ops).step s) := by
  rw [group_step, hactive]
  cases l with
  | nil =>
    have hrows := hl rfl
    rw [h.1]
    exact ⟨rfl, ⟨hacc, rfl, h.2.1, fun hne => absurd hrows hne⟩,
      fun hne => absurd (by simp [hrows]; rfl) hne⟩
  | cons r rest =>
    rw [if_pos h.1, GroupOps.rows_cons]
    exact ⟨rfl, groupOn_groupCurrentSet hMarks hacc h.2⟩

lemma GroupOn.lands {g : π × γ} {rest : List (π × γ)} (h : GroupOn ops T Marks g rest s)
    (hsuffix : (g :: rest) <:+ ops.rows rows) :
    Lands (GroupOn ops T Marks) (GroupAtEnd ops T Marks) rest ((src.group ops).step s) := by
  obtain ⟨hacc, rfl, r, srest, hmarks, hrow, rfl, hreach⟩ := h
  rw [group_step]
  cases hrest : srest.dropWhile fun b => decide (ops.key b = ops.key r) with
  | nil =>
    rw [hrest] at hreach hsuffix
    have hactive : s.sourceIsActive = false := hreach.1
    obtain ⟨hfalse, hended⟩ : (src.step s.source).1 = false ∧ T.Ended (src.step s.source).2 :=
      T.step_ended hreach.2.1
    have hlast := getLast?_of_suffix hsuffix
    rw [hactive, hfalse]
    exact ⟨rfl, ⟨hacc, rfl, hended, fun _ => ⟨hlast, r, srest, hmarks, hrow, hrest⟩⟩,
      fun _ => hlast⟩
  | cons r' srest' =>
    rw [hrest] at hreach
    have hactive : s.sourceIsActive = true := hreach.1
    rw [hactive, GroupOps.rows_cons]
    exact ⟨rfl, groupOn_groupCurrentSet hMarks hacc hreach.2⟩

variable (ops T Marks) in
/-- `group` shows its last row after the end. -/
def Steps.group : Steps (src.group ops) (ops.rows rows) (ops.rows rows).getLast? :=
  ofLands (GroupOn ops T Marks) (GroupEnded ops T Marks)
    (fun h => h.2.1)
    (T.reaches_start.group hMarks rfl rfl id)
    (fun h hsuffix => h.lands hMarks hsuffix)
    (by
      rintro s ⟨hacc, hactive, hended, hlast⟩
      obtain ⟨hfalse, hended'⟩ := T.step_ended hended
      rw [group_step, hactive, if_neg Bool.false_ne_true, hfalse, if_neg Bool.false_ne_true]
      exact ⟨rfl, hacc, rfl, hended', hlast⟩)

omit hMarks

lemma GroupOps.rows_eq_nil_iff : ops.rows rows = [] ↔ rows = [] := by
  rw [GroupOps.rows, map_eq_nil_iff, groupsBy_eq_nil_iff]

lemma Steps.moved_of_group {hMarks : ∀ {r rest s}, T.On r rest s → Marks (src.mark s) r rest}
    (h : (T.group ops Marks hMarks).Moved s) : T.Moved s.source ∧ s.acc = ops.init := by
  rcases h with ⟨g, rest, ⟨hacc, -, r, srest, -, -, -, hreach⟩, -⟩ | ⟨hacc, -, hended, -⟩
  · exact ⟨hreach.moved, hacc⟩
  · exact ⟨.inr hended, hacc⟩

def Tracks.group (T : Tracks src rows shown ghosts) (ops : GroupOps α κ π γ) :
    Tracks (src.group ops) (ops.rows rows) (ops.rows rows).getLast?
      (ops.rows rows).getLast?.toList where
  toSteps := T.toSteps.group ops T.Marks fun h => T.marks_mark h
  get_ended hne h := by
    obtain ⟨-, -, -, hlast⟩ := h
    rw [(hlast fun hnil => hne (GroupOps.rows_eq_nil_iff.mpr hnil)).1]
    exact mem_singleton_self _
  restore_on := by
    rintro g rest s t ⟨⟨-, -, r, srest, hmarks, rfl, rfl, -⟩, hsuffix⟩ ht
    obtain ⟨hmoved, hacc⟩ := Steps.moved_of_group ht
    exact ⟨groupOn_groupCurrentSet (fun h => T.marks_mark h) hacc (hmarks _ hmoved), hsuffix⟩
  restore_ended := by
    rintro s t hne ⟨-, -, -, hlast⟩ ht
    obtain ⟨hmoved, hacc⟩ := Steps.moved_of_group ht
    obtain ⟨hcurrent, r, srest, hmarks, hrow, hrest⟩ :=
      hlast fun hnil => hne (GroupOps.rows_eq_nil_iff.mpr hnil)
    have hon := hmarks _ hmoved
    obtain ⟨hinit, hrow', hreach⟩ := groupCurrentSet_spec
      (s := { t with source := src.restore s.currentMark t.source }) hacc hon
    rw [hrest] at hreach
    refine ⟨hinit, hreach.1, hreach.2.1, fun _ => ?_⟩
    rw [hrow', hrow]
    exact ⟨hcurrent, r, srest, T.marks_mark hon, hrow, hrest⟩

end Group

/-! ## Union -/

section Union

variable {κ : Type} [LinearOrder κ] {keyExtract : α → κ}

/-- One of the two sources of `union` has the rows `l` to deliver, the first of which it is on. -/
def UnionSide (T : Steps src rows shown) (l : List α) (ended : Bool) (s : src.State) : Prop :=
  match l with
  | [] => ended = true ∧ T.Kept s
  | r :: rest => ended = false ∧ T.On r rest s

variable {T : Steps src rows shown}

lemma UnionSide.kept {ended : Bool} {s : src.State} (h : UnionSide T l ended s) : T.Kept s := by
  cases l with
  | nil => exact h.2
  | cons r rest => exact Steps.kept_of_on h.2

variable {r : α} {rest : List α}

lemma UnionSide.ne_nil {ended : Bool} {s : src.State} (h : UnionSide T (r :: rest) ended s) :
    rows ≠ [] := by
  rintro rfl
  nomatch suffix_nil.mp (T.suffix_on h.2)

lemma Steps.Reaches.unionSide {t : Bool × src.State} (h : T.Reaches l t) :
    UnionSide T l (!t.1) t.2 := by
  cases l with
  | nil => exact ⟨by simp [h.1], .inr h.2⟩
  | cons r rest => exact ⟨by simp [h.1], h.2⟩

variable {L R : Source α} {rowsL rowsR : List α} {shownL shownR : Option α}
  {ghostsL ghostsR : List α} (TL : Steps L rowsL shownL) (TR : Steps R rowsR shownR)

/-- The two sources of `union` have the rows `left` and `right` to deliver. -/
def UnionSides (left right : List α) (s : UnionState L R) : Prop :=
  UnionSide TL left s.leftEnded s.left ∧ UnionSide TR right s.rightEnded s.right

variable (keyExtract) in
/-- `union` is on the first row of what its sources have to deliver. -/
def UnionOn (r : α) (rest : List α) (s : UnionState L R) : Prop :=
  ∃ left right, UnionSides TL TR left right s ∧ mergeRows keyExtract left right = r :: rest ∧
    s.currentAtLeft = headFromLeft keyExtract left right ∧
    (left ≠ [] → right ≠ [] → s.nextStepLeft = s.currentAtLeft) ∧
    lastFromLeft keyExtract left right = lastFromLeft keyExtract rowsL rowsR

/-- Both sources of `union` have ended, and it shows one that has delivered rows. -/
def UnionEnded (s : UnionState L R) : Prop :=
  UnionSides TL TR [] [] s ∧
    (rowsL ++ rowsR ≠ [] → if s.currentAtLeft then rowsL ≠ [] else rowsR ≠ [])

variable (keyExtract rowsL rowsR shownL shownR) in
/-- What `union` shows after the end: what the source of its last row shows. -/
def unionShown : Option α := if lastFromLeft keyExtract rowsL rowsR then shownL else shownR

variable (keyExtract) in
/-- `union` after its last row. -/
def UnionAtEnd (s : UnionState L R) : Prop :=
  UnionEnded TL TR s ∧ (mergeRows keyExtract rowsL rowsR ≠ [] →
    unionShown keyExtract rowsL rowsR shownL shownR =
      some (if s.currentAtLeft then L.get s.left else R.get s.right))

variable {TL TR} {left right : List α} {s : UnionState L R}

lemma resetCurrent_eq (h : UnionSides TL TR left right s) (hne : left ≠ [] ∨ right ≠ []) :
    resetCurrent keyExtract s = (true, { s with
        currentAtLeft := headFromLeft keyExtract left right
        nextStepLeft := if left ≠ [] ∧ right ≠ [] then headFromLeft keyExtract left right
          else s.nextStepLeft }) := by
  obtain ⟨hleft, hright⟩ := h
  rw [resetCurrent]
  cases left with
  | nil =>
    cases right with
    | nil => simp at hne
    | cons b bs => simp [hleft.1, hright.1, headFromLeft]
  | cons a as =>
    cases right with
    | nil => simp [hleft.1, hright.1, headFromLeft]
    | cons b bs =>
      rw [hleft.1, hright.1, TL.get_on hleft.2, TR.get_on hright.2]
      by_cases hlt : keyExtract a < keyExtract b
      · simp [headFromLeft, hlt]
      · simp [headFromLeft, hlt]

/-- After one of the sources was stepped, `union` is on the first of their rows. -/
lemma UnionSides.lands (h : UnionSides TL TR left right s) (hlast : left ≠ [] ∨ right ≠ [] →
      lastFromLeft keyExtract left right = lastFromLeft keyExtract rowsL rowsR)
    (hend : left = [] → right = [] → UnionAtEnd keyExtract TL TR s) :
    Lands (UnionOn keyExtract TL TR) (UnionAtEnd keyExtract TL TR)
      (mergeRows keyExtract left right) (resetCurrent keyExtract s) := by
  by_cases hne : left ≠ [] ∨ right ≠ []
  · have hmerge : mergeRows keyExtract left right ≠ [] := by
      rw [Ne, mergeRows_eq_nil_iff]
      tauto
    obtain ⟨r, _, hr⟩ := exists_cons_of_ne_nil hmerge
    rw [resetCurrent_eq h hne, hr]
    refine ⟨rfl, left, right, h, hr, rfl, fun hleft hright => ?_, hlast hne⟩
    exact if_pos ⟨hleft, hright⟩
  · obtain ⟨rfl, rfl⟩ : left = [] ∧ right = [] := by tauto
    have hreset : resetCurrent keyExtract s = (false, s) := by
      rw [resetCurrent, h.1.1, h.2.1]
      rfl
    rw [hreset, mergeRows_nil_left]
    exact ⟨rfl, hend rfl rfl⟩

lemma UnionOn.lands (h : UnionOn keyExtract TL TR r rest s) :
    Lands (UnionOn keyExtract TL TR) (UnionAtEnd keyExtract TL TR) rest
      (unionStep keyExtract s) := by
  obtain ⟨left, right, hsides, hmerge, hcurrent, hnext, hlast⟩ := h
  obtain ⟨left', rfl, hhead, rfl, hmore, hend⟩ | ⟨right', rfl, hhead, rfl, hmore⟩ :=
    mergeRows_eq_cons hmerge
  · have hleft : s.leftEnded = false := hsides.1.1
    have hunion : unionStep keyExtract s = resetCurrent keyExtract (unionStepLeft s) := by
      rw [unionStep]
      cases right with
      | nil => simp [hleft, show s.rightEnded = true from hsides.2.1]
      | cons b right =>
        have hstep := (hnext (cons_ne_nil _ _) (cons_ne_nil _ _)).trans (hcurrent.trans hhead)
        simp [hleft, show s.rightEnded = false from hsides.2.1, hstep]
    have hstep : TL.Reaches left' (L.step s.left) := TL.step_on hsides.1.2
    have htrue : (unionStepLeft s).currentAtLeft = true := hcurrent.trans hhead
    rw [hunion]
    refine UnionSides.lands (s := unionStepLeft s) ⟨hstep.unionSide, hsides.2⟩
      (fun hne => (hmore hne).trans hlast) ?_
    rintro rfl rfl
    refine ⟨⟨⟨hstep.unionSide, hsides.2⟩, fun _ => ?_⟩, fun _ => ?_⟩
    · rw [htrue]
      exact hsides.1.ne_nil
    · rw [unionShown, ← hlast, hend rfl rfl, htrue]
      exact hstep.2.2 hsides.1.ne_nil
  · have hright : s.rightEnded = false := hsides.2.1
    have hunion : unionStep keyExtract s = resetCurrent keyExtract (unionStepRight s) := by
      rw [unionStep]
      cases left with
      | nil => simp [hright, show s.leftEnded = true from hsides.1.1]
      | cons a left =>
        have hstep := (hnext (cons_ne_nil _ _) (cons_ne_nil _ _)).trans (hcurrent.trans hhead)
        simp [hright, show s.leftEnded = false from hsides.1.1, hstep]
    have hstep : TR.Reaches right' (R.step s.right) := TR.step_on hsides.2.2
    have hfalse : (unionStepRight s).currentAtLeft = false := hcurrent.trans hhead
    rw [hunion]
    refine UnionSides.lands (s := unionStepRight s) ⟨hsides.1, hstep.unionSide⟩
      (fun _ => hmore.trans hlast) ?_
    rintro rfl rfl
    refine ⟨⟨⟨hsides.1, hstep.unionSide⟩, fun _ => ?_⟩, fun _ => ?_⟩
    · rw [hfalse]
      exact hsides.2.ne_nil
    · rw [unionShown, ← hmore.trans hlast, lastFromLeft_nil_left, hfalse]
      exact hstep.2.2 hsides.2.ne_nil

/-- The first step of `union` always steps the left source. -/
lemma unionStep_start :
    unionStep keyExtract (L.union R keyExtract).start =
      resetCurrent keyExtract (unionStepLeft (L.union R keyExtract).start) := by
  rw [unionStep]
  split_ifs <;> simp_all

lemma union_lands_start (hleft : TL.Reaches left (L.step L.start))
    (hright : TR.Reaches right (R.step R.start)) (hl : left = rowsL) (hr : right = rowsR) :
    Lands (UnionOn keyExtract TL TR) (UnionAtEnd keyExtract TL TR) (mergeRows keyExtract left right)
      (unionStep keyExtract (L.union R keyExtract).start) := by
  have hsides : UnionSides TL TR left right (unionStepLeft (L.union R keyExtract).start) :=
    ⟨hleft.unionSide, hright.unionSide⟩
  rw [unionStep_start]
  refine hsides.lands (fun _ => by rw [hl, hr]) ?_
  rintro rfl rfl
  exact ⟨⟨hsides, fun h => absurd (by simp [← hl, ← hr]) h⟩,
    fun h => absurd (by simp [← hl, ← hr]) h⟩

variable (keyExtract TL TR) in
/-- `union` delivers the merged rows. -/
def Steps.union : Steps (L.union R keyExtract) (mergeRows keyExtract rowsL rowsR)
    (unionShown keyExtract rowsL rowsR shownL shownR) :=
  ofLands (UnionOn keyExtract TL TR) (UnionEnded TL TR)
    (by
      rintro r rest s ⟨left, right, hsides, hmerge, hcurrent, -⟩
      change (if s.currentAtLeft then L.get s.left else R.get s.right) = r
      rw [hcurrent]
      obtain ⟨left', rfl, hhead, -⟩ | ⟨right', rfl, hhead, -⟩ := mergeRows_eq_cons hmerge
      · rw [hhead]
        exact TL.get_on hsides.1.2
      · rw [hhead]
        exact TR.get_on hsides.2.2)
    (union_lands_start TL.reaches_start TR.reaches_start rfl rfl)
    (fun h _ => h.lands)
    (by
      rintro s ⟨hsides, hshown⟩
      have hstep : (L.union R keyExtract).step s = (false, s) := by
        change unionStep keyExtract s = _
        rw [unionStep, hsides.1.1, hsides.2.1]
        rfl
      rw [hstep]
      exact ⟨rfl, hsides, hshown⟩)

/-- The sources of a union are not sent back to a place after their end. -/
lemma Steps.kept_of_union (h : (union keyExtract TL TR).Moved s) :
    (TL.Kept s.left ∧ TR.Kept s.right) ∧
      (rowsL ++ rowsR ≠ [] → if s.currentAtLeft then rowsL ≠ [] else rowsR ≠ []) := by
  rcases h with ⟨r, rest, ⟨left, right, hsides, hmerge, hcurrent, -⟩, -⟩ | ⟨hsides, hshown⟩
  · refine ⟨⟨hsides.1.kept, hsides.2.kept⟩, fun _ => ?_⟩
    rw [hcurrent]
    obtain ⟨_, rfl, hhead, -⟩ | ⟨_, rfl, hhead, -⟩ := mergeRows_eq_cons hmerge
    · rw [hhead]
      exact hsides.1.ne_nil
    · rw [hhead]
      exact hsides.2.ne_nil
  · exact ⟨⟨hsides.1.kept, hsides.2.kept⟩, hshown⟩

lemma Tracks.unionSide_restore (T : Tracks src rows shown ghosts) {ended : Bool}
    {s t : src.State} (h : UnionSide T.toSteps l ended s) (ht : T.Kept t) :
    UnionSide T.toSteps l ended (if ended then t else src.restore (src.mark s) t) := by
  cases l with
  | nil =>
    rw [h.1]
    exact ⟨rfl, ht⟩
  | cons r rest =>
    rw [h.1]
    exact ⟨rfl, T.restore_on h.2 ht.moved⟩

def Tracks.union (keyExtract : α → κ) (TL : Tracks L rowsL shownL ghostsL)
    (TR : Tracks R rowsR shownR ghostsR) :
    Tracks (L.union R keyExtract) (mergeRows keyExtract rowsL rowsR)
      (unionShown keyExtract rowsL rowsR shownL shownR)
      ((rowsL ++ shownL.toList) ++ (rowsR ++ shownR.toList)) where
  toSteps := Steps.union keyExtract TL.toSteps TR.toSteps
  get_ended := by
    rintro s hne ⟨hsides, hshown⟩
    have hboth : rowsL ++ rowsR ≠ [] := by
      intro hnil
      exact hne (mergeRows_eq_nil_iff.mpr (append_eq_nil_iff.mp hnil))
    have hshown := hshown hboth
    change (if s.currentAtLeft then L.get s.left else R.get s.right) ∈ _
    split at hshown
    · rename_i htrue
      rw [if_pos htrue]
      exact mem_append_left _ (hsides.1.kept.get_mem hshown)
    · rename_i hfalse
      rw [if_neg hfalse]
      exact mem_append_right _ (hsides.2.kept.get_mem hshown)
  restore_on := by
    rintro r rest s t ⟨⟨left, right, hsides, hmerge, hcurrent, hnext, hlast⟩, hsuffix⟩ ht
    obtain ⟨⟨hleft, hright⟩, -⟩ := Steps.kept_of_union ht
    have hlands := UnionSides.lands
      (s := ⟨_, _, s.leftEnded, s.rightEnded, s.nextStepLeft, t.currentAtLeft⟩)
      ⟨TL.unionSide_restore hsides.1 hleft, TR.unionSide_restore hsides.2 hright⟩
      (fun _ => hlast) fun hl hr => ?_
    · rw [hmerge] at hlands
      exact ⟨hlands.2, hsuffix⟩
    · rw [hl, hr, mergeRows_nil_left] at hmerge
      cases hmerge
  restore_ended := by
    rintro s t hne ⟨hsides, -⟩ ht
    obtain ⟨⟨hleft, hright⟩, hshown⟩ := Steps.kept_of_union ht
    have hreset : (L.union R keyExtract).restore ((L.union R keyExtract).mark s) t =
        { t with leftEnded := true, rightEnded := true, nextStepLeft := s.nextStepLeft } := by
      change (resetCurrent keyExtract _).2 = _
      simp [resetCurrent, hsides.1.1, hsides.2.1]
    rw [hreset]
    exact ⟨⟨⟨rfl, hleft⟩, rfl, hright⟩, hshown⟩

end Union

end Beegfs
