import Beegfs.Fsck.CursorSpec

/-!
# What the join delivers

`leftJoinEq` is a merge join: it goes through both sources once, and goes back in the right source
for a row of the left source that has the key of the row before it.  When the right source has ended
on rows that belong to a row of the left source, the join reads what that source still shows, and
takes it for a row (`FalseMatch`) if it has the key of the next row of the left source.  Where this
does not happen the join delivers `mergeJoin`, which is the relational left join if the right source
is in the order of its keys.
-/

namespace Beegfs

open Source List

section Join

variable {α β κ : Type} [LinearOrder κ] {L : Source α} {R : Source β} {lkey : α → κ}
  {rkey : β → κ} {rowsL : List α} {rowsR : List β} {shownL : Option α} {shownR : Option β}
  {ghostsR : List β}

/-! ## Places of a join -/

section Places

variable (lkey rkey) (TL : Steps L rowsL shownL) (TR : Tracks R rowsR shownR ghostsR)
  (Shows : β → Prop) (Needs : α → Prop)

variable (rowsR) in
/-- The right source, which is on the first of the rows `q`, has passed no row for a row of
`Needs`. -/
def Ahead (q : List β) (as : List α) : Prop :=
  ∀ a ∈ as, Needs a → rowsFrom rkey (lkey a) q = rowsFrom rkey (lkey a) rowsR

/-- The right source is on the first of the rows `q`.  After the end it shows a row of `Shows`. -/
def RightAt (q : List β) (s : R.State) : Prop :=
  match q with
  | [] => rowsR ≠ [] ∧ TR.Ended s ∧ Shows (R.get s)
  | b :: bs => TR.On b bs s

/-- A marker of the right source leads back to a row. -/
def MarkOk (mark : Option (κ × R.Marker)) : Prop :=
  ∀ k m, mark = some (k, m) → ∃ b bs, TR.Marks m b bs

/-- The join is on the row `a` of the left source with the row `b` of the right one.  It has marked
the first row of the right source for `a`. -/
structure JoinMatched (a : α) (as : List α) (b : β) (bs : List β) (s : LeftJoinState L R κ) :
    Prop where
  left : TL.On a as s.left
  right : TR.On b bs s.right
  state : s.state = .nextRight
  current : s.current = (a, some b)
  key : rkey b = lkey a
  mark : ∃ m b₀ bs₀, s.rightMark = some (lkey a, m) ∧ TR.Marks m b₀ bs₀ ∧
    rowsFrom rkey (lkey a) rowsR = b₀ :: bs₀ ∧ rkey b₀ = lkey a
  ahead : ∀ k, lkey a < k → rowsFrom rkey k bs = rowsFrom rkey k rowsR

/-- The places of a join.  `matched`: a row of the left source with a row of the right one.
`unmatched`: a row of the left source for which the right one has no row, but may have some for the
next.  `only`: a row of the left source behind which no row has one of the right source. -/
inductive JoinOn : α × Option β → List (α × Option β) → LeftJoinState L R κ → Prop
  | matched {s : LeftJoinState L R κ} {a : α} {as : List α} {b : β} {bs : List β}
      (h : JoinMatched lkey rkey TL TR a as b bs s) :
      JoinOn (a, some b) (((bs.takeWhile fun b => decide (rkey b = lkey a)).map fun b =>
        (a, some b)) ++ mergeJoin lkey rkey as rowsR) s
  | unmatched {s : LeftJoinState L R κ} {a : α} {as : List α} {q : List β}
      (hleft : TL.On a as s.left) (hright : RightAt TR Shows q s.right)
      (hstate : s.state = .nextLeft) (hcurrent : s.current = (a, none)) (hmark : s.rightMark = none)
      (hgt : ∀ b bs, q = b :: bs → lkey a < rkey b)
      (hahead : Ahead lkey rkey rowsR Needs q (a :: as)) :
      JoinOn (a, none) (mergeJoin lkey rkey as rowsR) s
  | only {s : LeftJoinState L R κ} {a : α} {as : List α}
      (hleft : TL.On a as s.left) (hright : rowsR ≠ [] → TR.Moved s.right)
      (hstate : s.state = .onlyLeft) (hcurrent : s.current = (a, none))
      (hmark : MarkOk TR s.rightMark) (hahead : Ahead lkey rkey rowsR Needs [] as) :
      JoinOn (a, none) (mergeJoin lkey rkey as rowsR) s

variable (Shown : α × Option β → Prop)

/-- The left source has ended, and the join shows a row of `Shown`. -/
def JoinEnded (s : LeftJoinState L R κ) : Prop :=
  TL.Ended s.left ∧ s.state = .onlyLeft ∧ (rowsR ≠ [] → TR.Moved s.right) ∧
    MarkOk TR s.rightMark ∧ (rowsL ≠ [] → Shown s.current)

/-- The join shows its last row after the end. -/
def JoinAtEnd (s : LeftJoinState L R κ) : Prop :=
  JoinEnded TL TR Shown s ∧ (mergeJoin lkey rkey rowsL rowsR ≠ [] →
    (mergeJoin lkey rkey rowsL rowsR).getLast? = some s.current)

variable (rowsL rowsR) in
/-- A step of the join has delivered a row that the right source shows after the end. -/
def FalseMatch (t : Bool × LeftJoinState L R κ) : Prop :=
  t.1 = true ∧ ∃ a b, a ∈ rowsL ∧ Shows b ∧ t.2.current = (a, some b) ∧ rkey b = lkey a ∧
    (Needs a → rowsFrom rkey (lkey a) rowsR = [])

/-- A step of the join has led to the first of the rows, or it has delivered a false match. -/
def JoinLands (rows : List (α × Option β)) (t : Bool × LeftJoinState L R κ) : Prop :=
  Lands (JoinOn lkey rkey TL TR Shows Needs) (JoinAtEnd lkey rkey TL TR Shown) rows t ∨
    FalseMatch lkey rkey rowsL rowsR Shows Needs t

end Places

variable {TL : Steps L rowsL shownL} {TR : Tracks R rowsR shownR ghostsR} {Shows : β → Prop}
  {Needs : α → Prop} {Shown : α × Option β → Prop}

omit [LinearOrder κ] in
lemma markOk_of_none {mark : Option (κ × R.Marker)} (h : mark = none) : MarkOk TR mark := by
  rintro k m rfl
  cases h

/-! ## The first row of the right source for a row of the left one -/

variable {s : LeftJoinState L R κ}

lemma joinFirstRight_of_end (h : (joinSeek lkey rkey s).1 = false) :
    joinFirstRight lkey rkey s = (true,
      { s with
        right := (joinSeek lkey rkey s).2
        state := .onlyLeft
        current := (L.get s.left, none) }) := by
  rw [joinFirstRight]
  simp [h, makeCurrent]

lemma joinFirstRight_of_eq (h : (joinSeek lkey rkey s).1 = true)
    (heq : lkey (L.get s.left) = rkey (R.get (joinSeek lkey rkey s).2)) :
    joinFirstRight lkey rkey s = (true,
      { s with
        right := (joinSeek lkey rkey s).2
        state := .nextRight
        current := (L.get s.left, some (R.get (joinSeek lkey rkey s).2))
        rightMark := some (lkey (L.get s.left), R.mark (joinSeek lkey rkey s).2) }) := by
  rw [joinFirstRight]
  simp [h, heq, makeCurrent]

lemma joinFirstRight_of_ne (h : (joinSeek lkey rkey s).1 = true)
    (hne : lkey (L.get s.left) ≠ rkey (R.get (joinSeek lkey rkey s).2)) :
    joinFirstRight lkey rkey s = (true,
      { s with
        right := (joinSeek lkey rkey s).2
        state := .nextLeft
        current := (L.get s.left, none) }) := by
  rw [joinFirstRight]
  simp [h, hne, makeCurrent]

variable {a : α} {as : List α} {b : β} {bs q : List β}

lemma Ahead.of_cons (h : Ahead lkey rkey rowsR Needs q (a :: as)) :
    Ahead lkey rkey rowsR Needs q as := fun a' ha' => h a' (mem_cons_of_mem a ha')

/-- Rows below a row of the left source are not needed behind it. -/
lemma Ahead.rowsFrom (h : Ahead lkey rkey rowsR Needs q (a :: as))
    (hle : ∀ a' ∈ as, Needs a' → lkey a ≤ lkey a') :
    Ahead lkey rkey rowsR Needs (rowsFrom rkey (lkey a) q) (a :: as) := by
  intro a' ha' hneeds
  rw [← h a' ha' hneeds]
  rcases mem_cons.mp ha' with rfl | hmem
  · exact rowsFrom_rowsFrom le_rfl
  · exact rowsFrom_rowsFrom (hle a' hmem hneeds)

/-- The right source is on the first row for the row of the left one. -/
lemma joinMatched_of_reaches
    (hleft : TL.On a as s.left) (hseek : TR.Reaches (b :: bs) (joinSeek lkey rkey s))
    (hfrom : rowsFrom rkey (lkey a) rowsR = b :: bs) (heq : rkey b = lkey a) :
    (joinFirstRight lkey rkey s).1 = true ∧
      JoinMatched lkey rkey TL TR a as b bs (joinFirstRight lkey rkey s).2 := by
  have hget : L.get s.left = a := TL.get_on hleft
  have hb : R.get (joinSeek lkey rkey s).2 = b := TR.get_on hseek.2
  rw [joinFirstRight_of_eq hseek.1 (by rw [hget, hb, heq])]
  refine ⟨rfl, hleft, hseek.2, rfl, by rw [hget, hb], heq, ⟨_, b, bs, by rw [hget],
    TR.marks_mark hseek.2, hfrom, heq⟩, fun k hk => ?_⟩
  have hskip : rowsFrom rkey k (rowsFrom rkey (lkey a) rowsR) =
      rowsFrom rkey k rowsR := rowsFrom_rowsFrom hk.le
  rwa [hfrom, rowsFrom_cons_of_lt (heq ▸ hk)] at hskip

section Needs

variable (hneeds : ∀ a, (∃ b ∈ rowsR, rkey b = lkey a) → Needs a)

include hneeds

/-- A row of the left source is alone if the right one is above it. -/
lemma Ahead.mergeRow_eq (h : Ahead lkey rkey rowsR Needs q (a :: as))
    (hgt : ∀ b bs, q = b :: bs → lkey a < rkey b) :
    mergeRow lkey rkey rowsR a = [(a, none)] := by
  refine mergeRow_of_ne fun b bs hfrom heq => ?_
  have hb : b ∈ rowsR := (dropWhile_suffix _).subset (hfrom ▸ mem_cons_self)
  have hq := (h a mem_cons_self (hneeds a ⟨b, hb, heq⟩)).trans hfrom
  cases q with
  | nil => cases hq
  | cons b' bs' =>
    rw [rowsFrom_cons_of_le (hgt b' bs' rfl).le] at hq
    exact (hgt b' bs' rfl).ne' ((List.cons.inj hq).1 ▸ heq)

/-- The right source is on the first row that is not below the row of the left one. -/
lemma joinFirstRight_of_reaches (hleft : TL.On a as s.left)
    (hseek : TR.Reaches q (joinSeek lkey rkey s))
    (hge : ∀ b bs, q = b :: bs → lkey a ≤ rkey b)
    (hahead : Ahead lkey rkey rowsR Needs q (a :: as))
    (hmark : (∀ b bs, q = b :: bs → rkey b ≠ lkey a) → s.rightMark = none) :
    Lands (JoinOn lkey rkey TL TR Shows Needs) (JoinAtEnd lkey rkey TL TR Shown)
      (mergeJoin lkey rkey (a :: as) rowsR) (joinFirstRight lkey rkey s) := by
  have hget : L.get s.left = a := TL.get_on hleft
  rw [mergeJoin_cons]
  by_cases hfound : ∃ b bs, q = b :: bs ∧ rkey b = lkey a
  · obtain ⟨b, bs, rfl, heq⟩ := hfound
    have hb : b ∈ rowsR := (TR.suffix_on hseek.2).subset mem_cons_self
    have hfrom : rowsFrom rkey (lkey a) rowsR = b :: bs := by
      rw [← hahead a mem_cons_self (hneeds a ⟨b, hb, heq⟩), rowsFrom_cons_of_le heq.ge]
    obtain ⟨htrue, hmat⟩ := joinMatched_of_reaches hleft hseek hfrom heq
    rw [mergeRow_of_eq hfrom heq]
    exact ⟨htrue, .matched hmat⟩
  · have hne : ∀ b bs, q = b :: bs → rkey b ≠ lkey a := fun b bs hq heq => hfound ⟨b, bs, hq, heq⟩
    have hgt : ∀ b bs, q = b :: bs → lkey a < rkey b :=
      fun b bs hq => lt_of_le_of_ne (hge b bs hq) (hne b bs hq).symm
    rw [hahead.mergeRow_eq hneeds hgt]
    cases q with
    | nil =>
      rw [joinFirstRight_of_end hseek.1]
      exact ⟨rfl, .only hleft (fun _ => hseek.moved) rfl (by rw [hget]) (markOk_of_none (hmark hne))
        hahead.of_cons⟩
    | cons b bs =>
      have hb : R.get (joinSeek lkey rkey s).2 = b := TR.get_on hseek.2
      rw [joinFirstRight_of_ne hseek.1 (by rw [hget, hb]; exact (hgt b bs rfl).ne)]
      exact ⟨rfl, .unmatched (q := b :: bs) hleft hseek.2 rfl (by rw [hget]) (hmark hne) hgt hahead⟩

/-- The right source has not passed the rows for the row of the left one. -/
lemma joinFirstRight_lands (hleft : TL.On a as s.left) (hright : RightAt TR Shows q s.right)
    (hmark : s.rightMark = none) (hle : ∀ a' ∈ as, Needs a' → lkey a ≤ lkey a')
    (hahead : Ahead lkey rkey rowsR Needs q (a :: as)) :
    JoinLands lkey rkey TL TR Shows Needs Shown (mergeJoin lkey rkey (a :: as) rowsR)
      (joinFirstRight lkey rkey s) := by
  have hget : L.get s.left = a := TL.get_on hleft
  cases q with
  | cons b bs =>
    have hb : R.get s.right = b := TR.get_on hright
    refine .inl (joinFirstRight_of_reaches hneeds hleft ?_ (fun _ _ => le_of_rowsFrom_eq_cons)
      (hahead.rowsFrom hle) fun _ => hmark)
    rw [joinSeek]
    simp only [hget, hb, decide_eq_true_eq]
    rcases lt_or_ge (rkey b) (lkey a) with hlt | hge
    · rw [if_pos hlt, rowsFrom_cons_of_lt hlt]
      exact Steps.Reaches.skip _ (TR.step_on hright)
    · rw [if_neg (not_lt.mpr hge), rowsFrom_cons_of_le hge]
      exact ⟨rfl, hright⟩
  | nil =>
    have hrow := hahead.mergeRow_eq hneeds (by simp)
    rcases lt_trichotomy (rkey (R.get s.right)) (lkey a) with hlt | heq | hgt
    · -- The row that the source shows is skipped, and then the source is found to be at its end.
      obtain ⟨hfalse, hended⟩ := TR.step_ended hright.2.1
      have hseek : joinSeek lkey rkey s = R.step s.right := by
        rw [joinSeek]
        simp only [hget, decide_eq_true hlt, if_true]
        exact skip_of_end hfalse _
      rw [mergeJoin_cons, hrow, joinFirstRight_of_end (by rw [hseek, hfalse])]
      refine .inl ⟨rfl, .only hleft (fun _ => .inr ?_) rfl (by rw [hget]) (markOk_of_none hmark)
        hahead.of_cons⟩
      rw [hseek]
      exact hended
    · have hseek : joinSeek lkey rkey s = (true, s.right) := by
        rw [joinSeek]
        simp [hget, heq]
      refine .inr ⟨joinFirstRight_fst _ _ _, a, R.get s.right, ?_, hright.2.2, ?_, heq,
        fun hn => (hahead a mem_cons_self hn).symm⟩
      · exact (TL.suffix_on hleft).subset mem_cons_self
      · rw [joinFirstRight_of_eq (by rw [hseek]) (by rw [hseek, hget, heq]), hseek, hget]
    · have hseek : joinSeek lkey rkey s = (true, s.right) := by
        rw [joinSeek]
        simp [hget, not_lt.mpr hgt.le]
      rw [mergeJoin_cons, hrow,
        joinFirstRight_of_ne (by rw [hseek]) (by rw [hseek, hget]; exact hgt.ne), hseek]
      exact .inl ⟨rfl, .unmatched (q := []) hleft hright rfl (by rw [hget]) hmark (by simp) hahead⟩

end Needs

/-! ## The next row of the left source -/

variable (lkey rkey TR Shows Needs) in
/-- All rows for the row of the left source were delivered, and `as` are the rows that follow.
`marked`: the row had rows of the right source, which a further row of the same key needs again. -/
inductive JoinReady (as : List α) (s : LeftJoinState L R κ) : Prop
  | fresh {q : List β} (hright : RightAt TR Shows q s.right) (hmark : s.rightMark = none)
      (hahead : Ahead lkey rkey rowsR Needs q as)
  | marked {k : κ} {m : R.Marker} {b₀ : β} {bs₀ q : List β} (hright : RightAt TR Shows q s.right)
      (hmark : s.rightMark = some (k, m)) (hmarks : TR.Marks m b₀ bs₀)
      (hfirst : rowsFrom rkey k rowsR = b₀ :: bs₀) (hkey₀ : rkey b₀ = k)
      (hgt : ∀ a ∈ as.dropWhile fun a => decide (lkey a = k), Needs a → k < lkey a)
      (hahead : ∀ k', k < k' → rowsFrom rkey k' q = rowsFrom rkey k' rowsR)

lemma RightAt.moved {q : List β} {s : R.State} (h : RightAt TR Shows q s) : TR.Moved s := by
  cases q with
  | nil => exact .inr h.2.1
  | cons b bs => exact .inl ⟨b, bs, h⟩

lemma JoinReady.moved
    (h : JoinReady lkey rkey TR Shows Needs as s) : TR.Moved s.right ∧ MarkOk TR s.rightMark := by
  cases h with
  | fresh hright hmark => exact ⟨hright.moved, markOk_of_none hmark⟩
  | marked hright hmark hmarks =>
    refine ⟨hright.moved, fun k m hsome => ?_⟩
    rw [hmark] at hsome
    obtain ⟨-, rfl⟩ := Prod.mk.inj (Option.some.inj hsome)
    exact ⟨_, _, hmarks⟩

variable {l : L.State}

/-- A further row of the key that is marked. -/
lemma joinRewind_reaches {m : R.Marker} {b0 : β}
    {bs0 : List β} (hget : L.get l = a) (hmark : s.rightMark = some (lkey a, m))
    (hback : TR.On b0 bs0 (R.restore m s.right)) (hkey0 : rkey b0 = lkey a) :
    TR.Reaches (b0 :: bs0) (joinSeek lkey rkey (joinRewind lkey { s with left := l })) := by
  have hrew : joinRewind lkey { s with left := l } =
      { s with left := l, right := R.restore m s.right } := by
    rw [joinRewind, hmark]
    simp [hget]
  rw [hrew, joinSeek]
  simp only [hget, TR.get_on hback, hkey0, lt_irrefl, decide_false, Bool.false_eq_true, if_false]
  exact ⟨rfl, hback⟩

/-! ## Steps -/

lemma JoinMatched.ne_nil (h : JoinMatched lkey rkey TL TR a as b bs s) : rowsR ≠ [] := by
  obtain ⟨-, _, _, -, -, hfirst, -⟩ := h.mark
  rintro rfl
  cases hfirst

/-- No further row of the right source belongs to the row of the left one. -/
lemma JoinMatched.joinStep_of_ne (h : JoinMatched lkey rkey TL TR a as b bs s)
    (hne : ∀ b' bs', bs = b' :: bs' → rkey b' ≠ lkey a) :
    joinStep lkey rkey s =
      joinNextLeft lkey rkey { s with right := (R.step s.right).2, state := .nextLeft } := by
  have hreach : TR.Reaches bs (R.step s.right) := TR.step_on h.right
  rw [joinStep_of_nextRight h.state, joinNextRight]
  cases bs with
  | nil => simp [hreach.1]
  | cons b' bs' => simp [TL.get_on h.left, TR.get_on hreach.2, Ne.symm (hne b' bs' rfl)]

/-- The next row of the right source belongs to the same row of the left one. -/
lemma JoinMatched.joinStep_of_eq {b' : β}
    (h : JoinMatched lkey rkey TL TR a as b (b' :: bs) s) (heq : rkey b' = lkey a) :
    joinStep lkey rkey s =
        (true, { s with right := (R.step s.right).2, current := (a, some b') }) ∧
      JoinMatched lkey rkey TL TR a as b' bs
        { s with right := (R.step s.right).2, current := (a, some b') } := by
  have hreach : TR.Reaches (b' :: bs) (R.step s.right) := TR.step_on h.right
  constructor
  · rw [joinStep_of_nextRight h.state, joinNextRight, hreach.1, Bool.true_and, TL.get_on h.left,
      TR.get_on hreach.2, if_pos (decide_eq_true heq.symm), makeCurrent, TL.get_on h.left,
      TR.get_on hreach.2]
    rfl
  · refine ⟨h.left, hreach.2, h.state, rfl, heq, h.mark, fun k hk => ?_⟩
    rw [← h.ahead k hk, rowsFrom_cons_of_lt (heq ▸ hk)]

variable {p : α × Option β} {rest : List (α × Option β)}

lemma JoinOn.current_eq (h : JoinOn lkey rkey TL TR Shows Needs p rest s) : s.current = p := by
  cases h with
  | matched h => exact h.current
  | unmatched _ _ _ hcurrent => exact hcurrent
  | only _ _ _ hcurrent => exact hcurrent

section Lands

variable (hneeds : ∀ a, (∃ b ∈ rowsR, rkey b = lkey a) → Needs a)
  (hShown : ∀ p, (mergeJoin lkey rkey rowsL rowsR).getLast? = some p → Shown p)
  (hlast : as = [] → rowsL ≠ [] → (mergeJoin lkey rkey rowsL rowsR).getLast? = some s.current)

include hneeds hShown hlast

lemma JoinReady.lands (hL : MergeOrder lkey Needs rowsL)
    (h : JoinReady lkey rkey TR Shows Needs as s) (hleft : TL.Reaches as (L.step s.left)) :
    JoinLands lkey rkey TL TR Shows Needs Shown (mergeJoin lkey rkey as rowsR)
      (joinNextLeft lkey rkey s) := by
  rw [joinNextLeft]
  cases as with
  | nil =>
    obtain ⟨hmoved, hmark⟩ := h.moved
    rw [hleft.1]
    refine .inl ⟨rfl, ⟨hleft.2.1, rfl, fun _ => hmoved, hmark, fun hne => hShown _ (hlast rfl hne)⟩,
      fun hne => hlast rfl fun hnil => hne ?_⟩
    rw [hnil]
    rfl
  | cons a as =>
    obtain ⟨hmoved, hleft⟩ := hleft
    rw [if_pos hmoved]
    generalize (L.step s.left).2 = l at hleft ⊢
    have hget : L.get l = a := TL.get_on hleft
    have hle := hL.le (TL.suffix_on hleft)
    cases h with
    | fresh hright hmark hahead =>
      have hrew : joinRewind lkey { s with left := l } = { s with left := l } := by
        rw [joinRewind, hmark]
      rw [hrew]
      exact joinFirstRight_lands hneeds hleft hright hmark hle hahead
    | @marked k m b0 bs0 q hright hmark hmarks hfirst hkey0 hgt hahead =>
      by_cases heq : lkey a = k
      · subst heq
        have hseek := joinRewind_reaches hget hmark (hmarks _ hright.moved) hkey0
        rw [← hfirst] at hseek
        refine .inl (joinFirstRight_of_reaches hneeds ?_ hseek (fun _ _ => le_of_rowsFrom_eq_cons)
          (Ahead.rowsFrom (fun _ _ _ => rfl) hle) fun hne => absurd hkey0 (hne b0 bs0 hfirst))
        rw [joinRewind_left]
        exact hleft
      · have hrew : joinRewind lkey { s with left := l } =
            { s with left := l, rightMark := none } := by
          rw [joinRewind, hmark]
          simp [hget, heq]
        rw [dropWhile_cons_of_neg (by simpa using heq)] at hgt
        rw [hrew]
        exact joinFirstRight_lands hneeds hleft hright rfl hle
          fun a' ha' hn => hahead _ (hgt a' ha' hn)

/-- The right source has no more rows to deliver for the row of the left one. -/
lemma joinOnlyLeft_lands (hleft : TL.Reaches as (L.step s.left))
    (hright : rowsR ≠ [] → TR.Moved s.right) (hstate : s.state = .onlyLeft)
    (hmark : MarkOk TR s.rightMark) (hahead : Ahead lkey rkey rowsR Needs [] as) :
    Lands (JoinOn lkey rkey TL TR Shows Needs) (JoinAtEnd lkey rkey TL TR Shown)
      (mergeJoin lkey rkey as rowsR) (joinOnlyLeft s) := by
  rw [joinOnlyLeft]
  cases as with
  | nil =>
    rw [hleft.1]
    refine ⟨rfl, ⟨hleft.2.1, hstate, hright, hmark, fun hne => hShown _ (hlast rfl hne)⟩,
      fun hne => hlast rfl fun hnil => hne ?_⟩
    rw [hnil]
    rfl
  | cons a as =>
    rw [if_pos hleft.1, mergeJoin_cons, hahead.mergeRow_eq hneeds (by simp)]
    exact ⟨rfl, .only hleft.2 hright hstate (by rw [makeCurrent, TL.get_on hleft.2]; rfl) hmark
      hahead.of_cons⟩

omit hlast in
/-- What a step of the join does. -/
lemma JoinOn.lands (hL : MergeOrder lkey Needs rowsL)
    (hShows : ∀ r a b, a ∈ rowsL → rowsR.getLast? = some b → rkey b = lkey a → TR.AtEnd r →
      Shows (R.get r))
    (h : JoinOn lkey rkey TL TR Shows Needs p rest s)
    (hsuffix : (p :: rest) <:+ mergeJoin lkey rkey rowsL rowsR) :
    JoinLands lkey rkey TL TR Shows Needs Shown rest (joinStep lkey rkey s) := by
  have hlast : rest = [] → rowsL ≠ [] →
      (mergeJoin lkey rkey rowsL rowsR).getLast? = some s.current := by
    rintro rfl _
    rw [h.current_eq]
    exact getLast?_of_suffix hsuffix
  cases h with
  | @matched _ a as b bs h =>
    obtain ⟨m, _, _, hmark, hmarks, hfirst, hkey0⟩ := h.mark
    have hreach : TR.Reaches bs (R.step s.right) := TR.step_on h.right
    by_cases hmore : ∃ b' bs', bs = b' :: bs' ∧ rkey b' = lkey a
    · obtain ⟨b', bs', rfl, heq⟩ := hmore
      rw [takeWhile_cons, if_pos (decide_eq_true heq), (h.joinStep_of_eq heq).1]
      exact .inl ⟨rfl, .matched (h.joinStep_of_eq heq).2⟩
    · have hne : ∀ b' bs', bs = b' :: bs' → rkey b' ≠ lkey a :=
        fun b' bs' hbs heq => hmore ⟨b', bs', hbs, heq⟩
      have htake : (bs.takeWhile fun b => decide (rkey b = lkey a)) = [] := by
        cases bs with
        | nil => rfl
        | cons b' bs' => exact takeWhile_cons_of_neg (by simpa using hne b' bs' rfl)
      have hright : RightAt TR Shows bs (R.step s.right).2 := by
        cases bs with
        | nil =>
          exact ⟨h.ne_nil, hreach.2.1,
            hShows _ a b ((TL.suffix_on h.left).subset mem_cons_self)
              (getLast?_of_suffix (TR.suffix_on h.right)) h.key hreach.2⟩
        | cons b' bs' => exact hreach.2
      rw [htake] at hlast ⊢
      rw [h.joinStep_of_ne hne]
      exact JoinReady.lands hneeds hShown (fun has => hlast (by rw [has]; rfl)) hL
        (.marked hright hmark hmarks hfirst hkey0 (hL a as (TL.suffix_on h.left)) h.ahead)
        (TL.step_on h.left)
  | @unmatched _ a as q hleft hright hstate hcurrent hmark hgt hahead =>
    rw [joinStep_of_nextLeft hstate]
    exact JoinReady.lands hneeds hShown (fun has => hlast (by rw [has]; rfl)) hL
      (.fresh hright hmark hahead.of_cons) (TL.step_on hleft)
  | @only _ a as hleft hright hstate hcurrent hmark hahead =>
    rw [joinStep_of_onlyLeft hstate]
    exact .inl (joinOnlyLeft_lands hneeds hShown (fun has => hlast (by rw [has]; rfl))
      (TL.step_on hleft) hright hstate hmark hahead)

omit hlast in
/-- The first step of a join. -/
lemma joinStep_start_lands (hL : MergeOrder lkey Needs rowsL) :
    JoinLands lkey rkey TL TR Shows Needs Shown (mergeJoin lkey rkey rowsL rowsR)
      (joinStep lkey rkey (leftJoinEq L R lkey rkey).start) := by
  have hright : TR.Reaches rowsR (R.step R.start) := TR.reaches_start
  by_cases hrows : rowsR = []
  · have hfalse := (hright.of_eq hrows).1
    have hstate : (leftJoinEq L R lkey rkey).start.state = .onlyLeft := if_neg (by simp [hfalse])
    rw [joinStep_of_onlyLeft hstate]
    refine .inl (joinOnlyLeft_lands hneeds hShown (fun hnil hne => absurd hnil hne) TL.reaches_start
      (fun hne => absurd hrows hne) hstate ?_ fun a _ _ => by rw [hrows])
    rintro k m ⟨⟩
  · obtain ⟨b, bs, hrows⟩ := exists_cons_of_ne_nil hrows
    have hon := hright.of_eq hrows
    have hstate : (leftJoinEq L R lkey rkey).start.state = .nextLeft := if_pos hon.1
    rw [joinStep_of_nextLeft hstate]
    exact JoinReady.lands hneeds hShown (fun hnil hne => absurd hnil hne) hL
      (.fresh (q := b :: bs) hon.2 rfl fun a _ _ => by rw [hrows]) TL.reaches_start

end Lands

/-! ## Delivered rows -/

variable (lkey rkey rowsL rowsR) in
/-- The left rows have the key of the last right row, and above it that of a row that is shown after
the end. -/
def MatchesShown (shown : β) : Prop :=
  ∃ a₁ ∈ rowsL, ∃ a₂ ∈ rowsL, ∃ last, rowsR.getLast? = some last ∧ lkey a₁ = rkey last ∧
    rkey last < lkey a₂ ∧ lkey a₂ = rkey shown

lemma not_matchesShown_of_mem (hR : Ascending rkey rowsR) (hb : b ∈ rowsR) :
    ¬MatchesShown lkey rkey rowsL rowsR b := by
  rintro ⟨_, -, _, -, last, hlast, -, hlt, hkey⟩
  exact absurd (hkey ▸ hlt) (not_lt.mpr (hR.le_getLast hlast b hb))

variable (lkey rkey rowsL rowsR Shows) in
/-- What the right source shows when it ends on rows for a row of the left source. -/
def ShownBehindMatch (b : β) : Prop :=
  Shows b ∧ ∃ a last, a ∈ rowsL ∧ rowsR.getLast? = some last ∧ rkey last = lkey a

variable (lkey rkey rowsL rowsR Shows Needs) in
/-- No row of the left source that the rows of the right one are not ahead of has the key of a row
of `Shows`. -/
def NoFalseMatch : Prop :=
  ∀ a ∈ rowsL, ∀ b, Shows b → rkey b = lkey a → ¬(Needs a → rowsFrom rkey (lkey a) rowsR = [])

lemma NoFalseMatch.not_falseMatch (h : NoFalseMatch lkey rkey rowsL rowsR Shows Needs)
    {t : Bool × LeftJoinState L R κ} : ¬FalseMatch lkey rkey rowsL rowsR Shows Needs t := by
  rintro ⟨-, a, b, ha, hb, -, hkey, hfrom⟩
  exact h a ha b hb hkey hfrom

lemma noFalseMatch_of_not_matchesShown (h : ∀ b, Shows b → ¬MatchesShown lkey rkey rowsL rowsR b) :
    NoFalseMatch lkey rkey rowsL rowsR (ShownBehindMatch lkey rkey rowsL rowsR Shows)
      fun _ => True := by
  rintro a ha b ⟨hb, a₁, last, ha₁, hlast, hkey₁⟩ hkey hfrom
  refine h b hb ⟨a₁, ha₁, a, ha, last, hlast, hkey₁.symm, ?_, hkey.symm⟩
  exact rowsFrom_eq_nil_iff.mp (hfrom trivial) last (mem_of_getLast? hlast)

variable (TL TR Shows Shown) in
/-- A join without false matches delivers the merge join. -/
def Steps.ofMergeJoin (hL : MergeOrder lkey Needs rowsL)
    (hneeds : ∀ a, (∃ b ∈ rowsR, rkey b = lkey a) → Needs a)
    (hShows : ∀ r a b, a ∈ rowsL → rowsR.getLast? = some b → rkey b = lkey a → TR.AtEnd r →
      Shows (R.get r))
    (hShown : ∀ p, (mergeJoin lkey rkey rowsL rowsR).getLast? = some p → Shown p)
    (hno : NoFalseMatch lkey rkey rowsL rowsR Shows Needs) :
    Steps (leftJoinEq L R lkey rkey) (mergeJoin lkey rkey rowsL rowsR)
      (mergeJoin lkey rkey rowsL rowsR).getLast? :=
  Steps.ofLands (JoinOn lkey rkey TL TR Shows Needs) (JoinEnded TL TR Shown)
    JoinOn.current_eq
    ((joinStep_start_lands hneeds hShown hL).resolve_right hno.not_falseMatch)
    (fun h hsuffix => (h.lands hneeds hShown hL hShows hsuffix).resolve_right hno.not_falseMatch)
    (by
      rintro s ⟨hended, hstate, hmoved, hmark, hshown⟩
      obtain ⟨hfalse, hended'⟩ := TL.step_ended hended
      have hstep : (L.leftJoinEq R lkey rkey).step s =
          (false, { s with left := (L.step s.left).2 }) := by
        change joinStep lkey rkey s = _
        rw [joinStep_of_onlyLeft hstate, joinOnlyLeft, hfalse, if_neg Bool.false_ne_true]
      rw [hstep]
      exact ⟨rfl, hended', hstate, hmoved, hmark, hshown⟩)

/-! ## Restored places -/

variable {ghostsL : List α} {TL : Tracks L rowsL shownL ghostsL}
  {TR : Tracks R rowsR shownR ghostsR} {t : LeftJoinState L R κ}

variable (lkey rkey) in
/-- The join after it was sent back to a place where only rows of the left source are left. -/
lemma onlyLeft_restore (hstate : s.state = .onlyLeft) (hs : rowsR ≠ [] → TR.Moved s.right)
    (hmark : MarkOk TR s.rightMark) (ht : rowsR ≠ [] → TR.Moved t.right) :
    let r := (L.leftJoinEq R lkey rkey).restore ((L.leftJoinEq R lkey rkey).mark s) t
    (r.state = .onlyLeft ∧ r.left = L.restore (L.mark s.left) t.left ∧
      r.current = (L.get (L.restore (L.mark s.left) t.left), none)) ∧
    (rowsR ≠ [] → TR.Moved r.right) ∧ MarkOk TR r.rightMark := by
  refine ⟨by simp [makeCurrent, hstate], ?_⟩
  rcases hsome : s.rightMark with _ | ⟨k, m⟩
  · refine ⟨fun hne => ?_, ?_⟩
    · simpa [makeCurrent, hsome] using TR.moved_restore hne (hs hne) (ht hne)
    · rintro k m hk
      simp [makeCurrent, hsome] at hk
  · obtain ⟨b, bs, hmarks⟩ := hmark k m hsome
    refine ⟨fun hne => ?_, ?_⟩
    · simpa [makeCurrent, hsome] using
        TR.moved_restore hne (hs hne) (Steps.moved_of_on (hmarks _ (ht hne)))
    · rintro _ _ hk
      simp only [makeCurrent, hsome, Option.map_some, Option.some.injEq, Prod.mk.injEq] at hk
      obtain ⟨-, rfl⟩ := hk
      exact ⟨b, bs, hmarks⟩

section Ghosts

variable (hghosts : ∀ b b', Shows b → b' ∈ ghostsR → Shows b')

include hghosts

omit [LinearOrder κ] in
lemma RightAt.restore {r r' : R.State} (h : RightAt TR Shows q r) (hr' : TR.Moved r') :
    RightAt TR Shows q (R.restore (R.mark r) r') := by
  cases q with
  | nil =>
    have hended := TR.restore_ended h.1 h.2.1 hr'
    exact ⟨h.1, hended, hghosts _ _ h.2.2 (TR.get_ended h.1 hended)⟩
  | cons b bs => exact TR.restore_on h hr'

lemma JoinOn.restore (hno : NoFalseMatch lkey rkey rowsL rowsR Shows Needs)
    (h : JoinOn lkey rkey TL.toSteps TR Shows Needs p rest s)
    (htl : TL.Moved t.left) (htr : rowsR ≠ [] → TR.Moved t.right) :
    JoinOn lkey rkey TL.toSteps TR Shows Needs p rest
      ((L.leftJoinEq R lkey rkey).restore ((L.leftJoinEq R lkey rkey).mark s) t) := by
  cases h with
  | @matched _ a as b bs h =>
    obtain ⟨m, b0, bs0, hmark, hmarks, hfirst, hkey0⟩ := h.mark
    have hinner : TR.On b0 bs0 (R.restore m t.right) := hmarks _ (htr h.ne_nil)
    have hleft' := TL.restore_on h.left htl
    have hright' := TR.restore_on h.right (Steps.moved_of_on hinner)
    have hrestr : (L.leftJoinEq R lkey rkey).restore
        ((L.leftJoinEq R lkey rkey).mark s) t =
        { left := L.restore (L.mark s.left) t.left
          right := R.restore (R.mark s.right) (R.restore m t.right)
          current := (a, some b)
          state := .nextRight
          rightMark := some (lkey a, m) } := by
      simp [makeCurrent, h.state, hmark, TL.get_on hleft', TR.get_on hright', TR.get_on hinner,
        h.key, hkey0]
    rw [hrestr]
    exact .matched ⟨hleft', hright', rfl, rfl, h.key, ⟨m, b0, bs0, rfl, hmarks, hfirst, hkey0⟩,
      h.ahead⟩
  | @unmatched _ a as q hleft hright hstate hcurrent hmark hgt hahead =>
    have hne : rowsR ≠ [] := by
      cases q with
      | nil => exact hright.1
      | cons b bs =>
        rintro rfl
        cases suffix_nil.mp (TR.suffix_on hright)
    have hleft' := TL.restore_on hleft htl
    have hright' := hright.restore hghosts (htr hne)
    have hkey : lkey a ≠ rkey (R.get (R.restore (R.mark s.right) t.right)) := by
      intro heq
      cases q with
      | nil =>
        have ha := (TL.suffix_on hleft).subset mem_cons_self
        exact hno a ha _ hright'.2.2 heq.symm fun hn => (hahead a mem_cons_self hn).symm
      | cons b bs =>
        rw [TR.get_on hright'] at heq
        exact (hgt b bs rfl).ne heq
    have hrestr : (L.leftJoinEq R lkey rkey).restore
        ((L.leftJoinEq R lkey rkey).mark s) t =
        { left := L.restore (L.mark s.left) t.left
          right := R.restore (R.mark s.right) t.right
          current := (a, none)
          state := .nextLeft
          rightMark := none } := by
      simp [makeCurrent, hstate, hmark, TL.get_on hleft', hkey]
    rw [hrestr]
    exact .unmatched hleft' hright' rfl rfl rfl hgt hahead
  | @only _ a as hleft hright hstate hcurrent hmark hahead =>
    obtain ⟨⟨hst', hleft', hcur'⟩, hright', hmark'⟩ :=
      onlyLeft_restore lkey rkey hstate hright hmark htr
    have hon := TL.restore_on hleft htl
    rw [TL.get_on hon] at hcur'
    exact .only (hleft' ▸ hon) hright' hst' hcur' hmark' hahead

end Ghosts

/-- What a join may show after the end: the last of its rows, or what the left source shows. -/
def joinGhosts {α β : Type} (rows : List (α × Option β)) (ghostsL : List α) : List (α × Option β) :=
  rows.getLast?.toList ++ ghostsL.map fun a => (a, none)

omit [LinearOrder κ] in
lemma mem_joinGhosts_of_getLast? {rows : List (α × Option β)}
    (h : rows.getLast? = some p) : p ∈ joinGhosts rows ghostsL := by
  rw [joinGhosts, h]
  exact mem_append_left _ (mem_singleton_self p)

lemma JoinEnded.restore (hne : rowsL ≠ [])
    (h : JoinEnded TL.toSteps TR (· ∈ joinGhosts (mergeJoin lkey rkey rowsL rowsR) ghostsL) s)
    (htl : TL.Moved t.left) (htr : rowsR ≠ [] → TR.Moved t.right) :
    JoinEnded TL.toSteps TR (· ∈ joinGhosts (mergeJoin lkey rkey rowsL rowsR) ghostsL)
      ((L.leftJoinEq R lkey rkey).restore ((L.leftJoinEq R lkey rkey).mark s) t) := by
  obtain ⟨hended, hstate, hright, hmark, -⟩ := h
  obtain ⟨⟨hst', hleft', hcur'⟩, hright', hmark'⟩ :=
    onlyLeft_restore lkey rkey hstate hright hmark htr
  have hended' := TL.restore_ended hne hended htl
  refine ⟨hleft' ▸ hended', hst', hright', hmark', fun _ => ?_⟩
  rw [hcur']
  exact mem_append_right _ (mem_map_of_mem (TL.get_ended hne hended'))

lemma joinPlace_moved (h : (∃ p rest, JoinOn lkey rkey TL.toSteps TR Shows Needs p rest t ∧
        (p :: rest) <:+ mergeJoin lkey rkey rowsL rowsR) ∨ JoinEnded TL.toSteps TR Shown t) :
    TL.Moved t.left ∧ (rowsR ≠ [] → TR.Moved t.right) := by
  rcases h with ⟨p, rest, hon, -⟩ | ⟨hended, -, hright, -⟩
  · cases hon with
    | matched h => exact ⟨Steps.moved_of_on h.left, fun _ => Steps.moved_of_on h.right⟩
    | unmatched hleft hright => exact ⟨Steps.moved_of_on hleft, fun _ => hright.moved⟩
    | only hleft hright => exact ⟨Steps.moved_of_on hleft, hright⟩
  · exact ⟨.inr hended, hright⟩

variable (TL TR) in
/-- A join without false matches can be a source of another join. -/
def Tracks.ofMergeJoin (hL : MergeOrder lkey Needs rowsL)
    (hneeds : ∀ a, (∃ b ∈ rowsR, rkey b = lkey a) → Needs a)
    (hno : NoFalseMatch lkey rkey rowsL rowsR
      (ShownBehindMatch lkey rkey rowsL rowsR (· ∈ ghostsR)) Needs) :
    Tracks (leftJoinEq L R lkey rkey) (mergeJoin lkey rkey rowsL rowsR)
      (mergeJoin lkey rkey rowsL rowsR).getLast?
      (joinGhosts (mergeJoin lkey rkey rowsL rowsR) ghostsL) where
  toSteps := Steps.ofMergeJoin TL.toSteps TR _
    (· ∈ joinGhosts (mergeJoin lkey rkey rowsL rowsR) ghostsL) hL hneeds
    (fun _ a b ha hlast hkey hr =>
      ⟨TR.get_ended (fun hnil => by simp [hnil] at hlast) hr.1, a, b, ha, hlast, hkey⟩)
    (fun _ hp => mem_joinGhosts_of_getLast? hp) hno
  get_ended hne h := h.2.2.2.2 fun hnil => hne (by rw [hnil]; rfl)
  restore_on := by
    rintro p rest s t ⟨hon, hsuffix⟩ ht
    obtain ⟨htl, htr⟩ := joinPlace_moved ht
    exact ⟨hon.restore (fun _ _ hb hb' => ⟨hb', hb.2⟩) hno htl htr, hsuffix⟩
  restore_ended := by
    rintro s t hne hended ht
    obtain ⟨htl, htr⟩ := joinPlace_moved ht
    exact JoinEnded.restore (fun hnil => hne (by rw [hnil]; rfl)) hended htl htr

variable (TL TR) in
/-- The join is the left join if both sources are in the order of their keys. -/
def Tracks.leftJoinEq (hL : Ascending lkey rowsL) (hR : Ascending rkey rowsR)
    (hno : ∀ b ∈ ghostsR, ¬MatchesShown lkey rkey rowsL rowsR b) :
    Tracks (leftJoinEq L R lkey rkey) (leftJoin lkey rkey rowsL rowsR)
      (leftJoin lkey rkey rowsL rowsR).getLast?
      (joinGhosts (leftJoin lkey rkey rowsL rowsR) ghostsL) :=
  mergeJoin_eq_leftJoin hR ▸ Tracks.ofMergeJoin TL TR hL.mergeOrder (fun _ _ => trivial)
    (noFalseMatch_of_not_matchesShown hno)

end Join

end Beegfs
