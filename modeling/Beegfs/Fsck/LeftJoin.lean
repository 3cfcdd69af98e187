import Beegfs.Fsck.JoinSpec

/-!
# When the join is the left join

`JoinSpec` shows that a join without false matches delivers the left join.  Here is the converse: a
join that can make a false match makes it.  Then `Query` are all sources that can be built from
fragments with the combinators, and `leftJoinEq_delivers_iff` says of any two of them when their
join is right.
-/

namespace Beegfs

open Source List

section FalseOutput

variable {α β κ : Type} [LinearOrder κ] {L : Source α} {R : Source β} {lkey : α → κ}
  {rkey : β → κ} {rowsL : List α} {rowsR : List β} {shownL : Option α} {shownR : Option β}
  {ghostsR : List β} {TL : Steps L rowsL shownL} {TR : Tracks R rowsR shownR ghostsR}

variable (lkey rkey rowsR) in
/-- The join delivers, at some step from `s`, a pair of equal keys whose key no row of the right
source has. -/
def FalseOutput (s : LeftJoinState L R κ) : Prop :=
  ∃ k a b, (L.leftJoinEq R lkey rkey).output k s = some (a, some b) ∧
    rkey b = lkey a ∧ rowsFrom rkey (lkey a) rowsR = []

variable {s : LeftJoinState L R κ}

lemma FalseOutput.of_step (h : FalseOutput lkey rkey rowsR (joinStep lkey rkey s).2) :
    FalseOutput lkey rkey rowsR s := by
  obtain ⟨k, a, b, hout, hkey, hfrom⟩ := h
  exact ⟨k + 1, a, b, hout, hkey, hfrom⟩

lemma FalseOutput.congr {s' : LeftJoinState L R κ}
    (hstep : joinStep lkey rkey s = joinStep lkey rkey s')
    (h : FalseOutput lkey rkey rowsR s') : FalseOutput lkey rkey rowsR s := by
  obtain ⟨k, a, b, hout, hkey, hfrom⟩ := h
  have hsame : (L.leftJoinEq R lkey rkey).step s = (L.leftJoinEq R lkey rkey).step s' := hstep
  refine ⟨k, a, b, ?_, hkey, hfrom⟩
  rw [← hout]
  cases k with
  | zero => rw [Source.output, Source.output, hsame]
  | succ k => rw [Source.output, Source.output, hsame]

lemma output_zero_of_joinStep {p : α × Option β} (htrue : (joinStep lkey rkey s).1 = true)
    (hcur : (joinStep lkey rkey s).2.current = p) :
    (L.leftJoinEq R lkey rkey).output 0 s = some p := by
  rw [← hcur]
  exact if_pos htrue

lemma FalseMatch.falseOutput {Shows : β → Prop}
    (h : FalseMatch lkey rkey rowsL rowsR Shows (fun _ => True) (joinStep lkey rkey s)) :
    FalseOutput lkey rkey rowsR s := by
  obtain ⟨htrue, a, b, -, -, hcur, hkey, hfrom⟩ := h
  exact ⟨0, a, b, output_zero_of_joinStep htrue hcur, hkey, hfrom trivial⟩

/-- The right source has ended and shows a row of key `k`, and the join does not know of it. -/
structure PastEnd (TL : Steps L rowsL shownL) (rkey : β → κ) (lkey : α → κ) (k : κ) (as : List α)
    (s : LeftJoinState L R κ) : Prop where
  left : TL.Reaches as (L.step s.left)
  shows : rkey (R.get s.right) = k
  state : s.state = .nextLeft
  mark : ∀ k m, s.rightMark = some (k, m) → ∀ a ∈ as, lkey a ≠ k

variable {a₂ : α}

/-- A row of the left source that has the key of the row that is shown gets it. -/
lemma PastEnd.falseOutput {k : κ} {as : List α}
    (h : PastEnd TL rkey lkey k as s) (has : Ascending lkey as)
    (hfrom : ∀ a ∈ as, rowsFrom rkey (lkey a) rowsR = []) (ha2 : a₂ ∈ as)
    (hkey : lkey a₂ = k) : FalseOutput lkey rkey rowsR s := by
  induction as generalizing s with
  | nil => cases ha2
  | cons a as ih =>
    have hon : TL.On a as (L.step s.left).2 := h.left.2
    have hget : L.get (L.step s.left).2 = a := TL.get_on hon
    have hle : lkey a ≤ k := hkey ▸ has.head_le a₂ ha2
    -- The mark is not for this row, so the join looks at what the right source shows.
    have hrew : joinRewind lkey { s with left := (L.step s.left).2 } =
        { s with left := (L.step s.left).2, rightMark := none } := by
      rw [joinRewind]
      rcases hmark : s.rightMark with _ | ⟨k', m⟩
      · simp
      · simp [hget, h.mark k' m hmark a mem_cons_self]
    have hseek : joinSeek lkey rkey { s with left := (L.step s.left).2, rightMark := none } =
        (true, s.right) := by
      rw [joinSeek]
      simp [hget, h.shows, hle]
    have hstep : joinStep lkey rkey s =
        joinFirstRight lkey rkey { s with left := (L.step s.left).2, rightMark := none } := by
      rw [joinStep_of_nextLeft h.state, joinNextLeft, if_pos h.left.1, hrew]
    by_cases heq : lkey a = k
    · rw [joinFirstRight_of_eq (by rw [hseek]) (by rw [hseek, hget, h.shows, heq]), hseek] at hstep
      refine ⟨0, a, R.get s.right, output_zero_of_joinStep (by rw [hstep]) (by rw [hstep, hget]),
        ?_, hfrom a mem_cons_self⟩
      rw [h.shows, heq]
    · rw [joinFirstRight_of_ne (by rw [hseek]) (by rw [hseek, hget, h.shows]; exact heq),
        hseek] at hstep
      have hne : a₂ ≠ a := by
        rintro rfl
        exact heq hkey
      refine FalseOutput.of_step ?_
      rw [hstep]
      refine ih ⟨TL.step_on hon, h.shows, rfl, by simp⟩ (List.Pairwise.of_cons has)
        (fun a' ha' => hfrom a' (mem_cons_of_mem _ ha'))
        ((mem_cons.mp ha2).resolve_left hne)

/-- From a row of the left source that has the last row of the right one, the join comes to a row of
the key that the right source shows after its end. -/
lemma JoinMatched.falseOutput (hL : Ascending lkey rowsL) (hR : Ascending rkey rowsR)
    {last shown : β} (hlast : rowsR.getLast? = some last) (hshown : shownR = some shown) {a : α}
    {as : List α} {b : β} {bs : List β}
    (h : JoinMatched lkey rkey TL TR a as b bs s) (ha : lkey a = rkey last)
    (ha2 : a₂ ∈ as) (hkey : lkey a₂ = rkey shown) (hlt : rkey last < lkey a₂) :
    FalseOutput lkey rkey rowsR s := by
  have hle := hR.le_getLast hlast
  induction as generalizing a b bs s with
  | nil => cases ha2
  | cons a' as iha =>
    have hlower := (hL.of_suffix (TL.suffix_on h.left)).head_le
    induction bs generalizing b s with
    | cons b' bs ihb =>
      have hsuf := TR.suffix_on h.right
      have heq : rkey b' = lkey a := by
        refine le_antisymm ?_ ?_
        · rw [ha]
          exact hle b' (hsuf.subset (mem_cons_of_mem _ mem_cons_self))
        · rw [← h.key]
          exact (hR.of_suffix hsuf).head_le b' (mem_cons_of_mem _ mem_cons_self)
      obtain ⟨hstep, hmat⟩ := h.joinStep_of_eq heq
      refine FalseOutput.of_step ?_
      rw [hstep]
      exact ihb hmat
    | nil =>
      obtain ⟨m, b0, bs0, hmark, hmarks, hfirst, hkey0⟩ := h.mark
      have hright : TR.Reaches [] (R.step s.right) := TR.step_on h.right
      have hleft : TL.Reaches (a' :: as) (L.step s.left) := TL.step_on h.left
      have hget : L.get (L.step s.left).2 = a' := TL.get_on hleft.2
      by_cases heq : lkey a' = lkey a
      · -- The next row needs the same rows of the right source.
        have hne : a₂ ≠ a' := by
          rintro rfl
          exact absurd (heq.trans ha) hlt.ne'
        have hseek := joinRewind_reaches
          (s := { s with right := (R.step s.right).2, state := .nextLeft }) hget (heq ▸ hmark)
          (hmarks _ hright.moved) (heq ▸ hkey0)
        obtain ⟨-, hmat⟩ := joinMatched_of_reaches (by rw [joinRewind_left]; exact hleft.2) hseek
          (heq ▸ hfirst) (heq ▸ hkey0)
        refine FalseOutput.of_step ?_
        rw [h.joinStep_of_ne nofun, joinNextLeft, if_pos hleft.1]
        exact iha hmat (heq.trans ha) ((mem_cons.mp ha2).resolve_left hne)
      · have hgt : ∀ a'' ∈ a' :: as, lkey a < lkey a'' := by
          intro a'' ha''
          have hle' := (hL.of_suffix ((suffix_cons _ _).trans (TL.suffix_on h.left))).head_le _ ha''
          exact lt_of_lt_of_le (lt_of_le_of_ne (hlower a' (by simp)) (Ne.symm heq)) hle'
        have hget' : R.get (R.step s.right).2 = shown :=
          (Option.some.inj (hshown.symm.trans (hright.2.2 h.ne_nil))).symm
        have hpast : PastEnd TL rkey lkey (rkey shown) (a' :: as)
            { s with right := (R.step s.right).2, state := .nextLeft } := by
          refine ⟨hleft, congrArg rkey hget', rfl, fun k m' hsome a'' ha'' => ?_⟩
          rw [hmark] at hsome
          rw [← (Prod.mk.inj (Option.some.inj hsome)).1]
          exact (hgt a'' ha'').ne'
        refine FalseOutput.congr ((h.joinStep_of_ne nofun).trans (joinStep_of_nextLeft rfl).symm)
          (hpast.falseOutput (hL.of_suffix ((suffix_cons _ _).trans (TL.suffix_on h.left)))
            (fun a'' ha'' => rowsFrom_eq_nil_iff.mpr fun r hr => ?_) ha2 hkey)
        exact lt_of_le_of_lt (ha ▸ hle r hr) (hgt a'' ha'')

variable (TL TR) in
/-- A run that comes to a row of the left source with the last row of the right one comes to a false
match. -/
lemma falseOutput_of_lands (hL : Ascending lkey rowsL) (hR : Ascending rkey rowsR)
    {last shown : β} (hlast : rowsR.getLast? = some last) (hshown : shownR = some shown) {a1 : α}
    (ha1 : lkey a1 = rkey last) (ha2 : a₂ ∈ rowsL) (hkey : lkey a₂ = rkey shown)
    (hlt : rkey last < lkey a₂) {l : List (α × Option β)}
    (h : JoinLands lkey rkey TL TR (fun _ => True) (fun _ => True) (fun _ => True) l
      (joinStep lkey rkey s))
    (hl : l <:+ mergeJoin lkey rkey rowsL rowsR) (hmem : (a1, some last) ∈ l) :
    FalseOutput lkey rkey rowsR s := by
  induction l generalizing s with
  | nil => cases hmem
  | cons p rest ih =>
    rcases h with ⟨-, hon⟩ | hfalse
    · refine FalseOutput.of_step ?_
      by_cases hp : p = (a1, some last)
      · subst hp
        obtain ⟨pre, hpre⟩ := hl
        rw [mergeJoin_eq_leftJoin hR] at hpre
        -- `a₂` is above all rows of the right source.
        have hnone : (a₂, none) ∈ pre ++ (a1, some last) :: rest := by
          refine hpre ▸ mem_flatMap.mpr ⟨a₂, ha2, ?_⟩
          rw [joinRow_of_nil]
          · exact mem_singleton_self _
          · rw [filter_eq_nil_iff]
            intro r hr heq
            exact absurd (of_decide_eq_true heq) (lt_of_le_of_lt (hR.le_getLast hlast r hr) hlt).ne
        have hrest : (a₂, none) ∈ rest := by
          have hasc : Ascending (fun p : α × Option β => lkey p.1)
              (pre ++ (a1, some last) :: rest) := hpre ▸ hL.leftJoin
          rcases mem_append.mp hnone with hbef | hbeh
          · have hle := (pairwise_append.mp hasc).2.2 _ hbef _ mem_cons_self
            exact absurd (ha1 ▸ hle) (not_le.mpr hlt)
          · exact (mem_cons.mp hbeh).resolve_left (by simp)
        cases hon with
        | matched h =>
          have hmem2 := (mem_append.mp hrest).resolve_left (by simp)
          rw [mergeJoin_eq_leftJoin hR] at hmem2
          exact h.falseOutput hL hR hlast hshown ha1 (mem_leftJoin_fst hmem2) hkey hlt
      · exact ih (hon.lands (fun _ _ => trivial) (fun _ _ => trivial) hL.mergeOrder
          (fun _ _ _ _ _ _ _ => trivial) hl)
          ((suffix_cons _ _).trans hl) ((mem_cons.mp hmem).resolve_left (Ne.symm hp))
    · exact hfalse.falseOutput

variable (TL TR) in
include TL TR in
/-- A join delivers the left join exactly if its right source does not show a row that matches after
its end. -/
lemma output_leftJoinEq_iff (hL : Ascending lkey rowsL) (hR : Ascending rkey rowsR) :
    (∀ k, (L.leftJoinEq R lkey rkey).output k (L.leftJoinEq R lkey rkey).start =
      (leftJoin lkey rkey rowsL rowsR)[k]?) ↔
    ∀ shown, shownR = some shown → ¬MatchesShown lkey rkey rowsL rowsR shown := by
  have hjoin : mergeJoin lkey rkey rowsL rowsR = leftJoin lkey rkey rowsL rowsR :=
    mergeJoin_eq_leftJoin hR
  constructor
  · rintro houtput shown hshown ⟨a1, ha1, a₂, ha2, last, hlast, hkey1, hlt, hkey2⟩
    have hmem : (a1, some last) ∈ leftJoin lkey rkey rowsL rowsR := by
      refine mem_flatMap.mpr ⟨a1, ha1, ?_⟩
      exact mem_joinRow_some_iff.mpr ⟨rfl, mem_of_getLast? hlast, hkey1.symm⟩
    obtain ⟨k, a, b, hout, hkey, hfrom⟩ := falseOutput_of_lands TL TR hL hR hlast hshown hkey1 ha2
      hkey2 hlt (joinStep_start_lands (fun _ _ => trivial) (fun _ _ => trivial) hL.mergeOrder)
      suffix_rfl (hjoin ▸ hmem)
    have hb : b ∈ rowsR := mem_leftJoin_some (mem_of_getElem? ((houtput k).symm.trans hout))
    exact absurd hkey (rowsFrom_eq_nil_iff.mp hfrom b hb).ne
  · intro hno
    rw [← hjoin]
    refine (Steps.ofMergeJoin TL TR (ShownBehindMatch lkey rkey rowsL rowsR (shownR = some ·))
      (fun _ => True) hL.mergeOrder (fun _ _ => trivial) ?_ (fun _ _ => trivial)
      (noFalseMatch_of_not_matchesShown hno)).output_eq
    intro r a b ha hlast hkey hend
    have hne : rowsR ≠ [] := fun hnil => by simp [hnil] at hlast
    exact ⟨hend.2 hne, a, b, ha, hlast, hkey⟩

end FalseOutput

/-! ## Queries -/

/-- A source that is built from fragments with the combinators. -/
inductive Query : Type → Type 1
  | fragment {α : Type} [Inhabited α] (rows : List α) : Query α
  | filter {α : Type} (q : Query α) (pred : α → Bool) : Query α
  | select {α β : Type} (q : Query α) (fn : α → β) : Query β
  | distinct {α κ : Type} [DecidableEq κ] (q : Query α) (keyExtract : α → κ) : Query α
  | group {α κ π γ : Type} [DecidableEq κ] (q : Query α) (ops : GroupOps α κ π γ) : Query (π × γ)
  | union {α κ : Type} [LinearOrder κ] (left right : Query α) (keyExtract : α → κ) : Query α
  | leftJoin {α β κ : Type} [LinearOrder κ] (left : Query α) (right : Query β) (lkey : α → κ)
      (rkey : β → κ) : Query (α × Option β)

namespace Query

/-- The source of the query. -/
@[reducible] def source : {α : Type} → Query α → Source α
  | _, @fragment _ _ rows => fragmentCursor rows
  | _, .filter q pred => q.source.filter pred
  | _, .select q fn => q.source.select fn
  | _, @distinct _ _ _ q keyExtract => q.source.distinct keyExtract
  | _, @group _ _ _ _ _ q ops => q.source.group ops
  | _, @union _ _ _ left right keyExtract => left.source.union right.source keyExtract
  | _, @leftJoin _ _ _ _ left right lkey rkey => left.source.leftJoinEq right.source lkey rkey

/-- What the query means: the rows in terms of lists. -/
def rows : {α : Type} → Query α → List α
  | _, @fragment _ _ rows => rows
  | _, .filter q pred => q.rows.filter pred
  | _, .select q fn => q.rows.map fn
  | _, @distinct _ _ _ q keyExtract => distinctBy keyExtract q.rows
  | _, @group _ _ _ _ _ q ops => ops.rows q.rows
  | _, @union _ _ _ left right keyExtract => mergeRows keyExtract left.rows right.rows
  | _, @leftJoin _ _ _ _ left right lkey rkey => Beegfs.leftJoin lkey rkey left.rows right.rows

/-- The row that the query shows after its end. -/
def shown : {α : Type} → Query α → Option α
  | _, @fragment _ _ rows => rows.getLast?
  | _, .filter q _ => q.shown
  | _, .select q fn => (q.rows.map fn).getLast?
  | _, @distinct _ _ _ q _ => q.shown
  | _, @group _ _ _ _ _ q ops => (ops.rows q.rows).getLast?
  | _, @union _ _ _ left right keyExtract =>
    unionShown keyExtract left.rows right.rows left.shown right.shown
  | _, @leftJoin _ _ _ _ left right lkey rkey =>
    (Beegfs.leftJoin lkey rkey left.rows right.rows).getLast?

/-- The rows that the query may show after it was sent back to a place behind its end. -/
def ghosts : {α : Type} → Query α → List α
  | _, @fragment _ _ rows => rows.getLast?.toList
  | _, .filter q _ => q.ghosts
  | _, .select q fn => selectGhosts q.rows q.ghosts fn
  | _, @distinct _ _ _ q _ => q.ghosts
  | _, @group _ _ _ _ _ q ops => (ops.rows q.rows).getLast?.toList
  | _, @union _ _ _ left right _ =>
    (left.rows ++ left.shown.toList) ++ (right.rows ++ right.shown.toList)
  | _, @leftJoin _ _ _ _ left right lkey rkey =>
    joinGhosts (Beegfs.leftJoin lkey rkey left.rows right.rows) left.ghosts

/-- In every join of the query both sources are ascending, and the left one has no rows of the key
of the last row of the right one and, above it, of a row that the right one may show after its
end. -/
def Exact : {α : Type} → Query α → Prop
  | _, @fragment _ _ _ => True
  | _, .filter q _ => q.Exact
  | _, .select q _ => q.Exact
  | _, @distinct _ _ _ q _ => q.Exact
  | _, @group _ _ _ _ _ q _ => q.Exact
  | _, @union _ _ _ left right _ => left.Exact ∧ right.Exact
  | _, @leftJoin _ _ _ _ left right lkey rkey =>
    left.Exact ∧ right.Exact ∧ Ascending lkey left.rows ∧ Ascending rkey right.rows ∧
      ∀ b ∈ right.ghosts, ¬MatchesShown lkey rkey left.rows right.rows b

/-- The places of an exact query. -/
def tracks : {α : Type} → (q : Query α) → q.Exact → Tracks q.source q.rows q.shown q.ghosts
  | _, @fragment _ _ rows, _ => fragmentCursor_tracks rows
  | _, .filter q pred, h => (q.tracks h).filter pred
  | _, .select q fn, h => (q.tracks h).select fn
  | _, @distinct _ _ _ q keyExtract, h => (q.tracks h).distinct keyExtract
  | _, @group _ _ _ _ _ q ops, h => (q.tracks h).group ops
  | _, @union _ _ _ left right keyExtract, h =>
    Tracks.union keyExtract (left.tracks h.1) (right.tracks h.2)
  | _, @leftJoin _ _ _ _ left right _ _, h =>
    Tracks.leftJoinEq (left.tracks h.1) (right.tracks h.2.1) h.2.2.1 h.2.2.2.1 h.2.2.2.2

/-- An exact query delivers the rows that it means. -/
lemma source_rows {α : Type} {q : Query α} (h : q.Exact) : q.source.rows = q.rows :=
  (q.tracks h).rows_eq

/-- A join with a fragment is exact. -/
lemma exact_leftJoin_fragment {α β κ : Type} [LinearOrder κ] [Inhabited β] {lkey : α → κ}
    {rkey : β → κ} {left : Query α} {right : List β} (h : left.Exact)
    (hleft : Ascending lkey left.rows) (hright : Ascending rkey right) :
    (left.leftJoin (.fragment right) lkey rkey).Exact := by
  refine ⟨h, trivial, hleft, hright, fun b hb => not_matchesShown_of_mem hright ?_⟩
  exact mem_of_getLast? (Option.mem_toList.mp hb)

end Query

section Theorem

variable {α β κ : Type} [LinearOrder κ] (lkey : α → κ) (rkey : β → κ)

/-- The join of two sources delivers, step by step, the relational left join of the rows that they
deliver, and then nothing any more. -/
def DeliversLeftJoin (left : Source α) (right : Source β) : Prop :=
  ∀ k, (left.leftJoinEq right lkey rkey).output k
      (left.leftJoinEq right lkey rkey).start =
    (leftJoin lkey rkey left.rows right.rows)[k]?

end Theorem

end Beegfs
