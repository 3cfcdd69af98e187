import Beegfs.Fsck.TableRun

/-!
# Runs of a table

A table that was cleared differs from a new one in its state and its last key.  These decide on
nothing as long as rows are only inserted, so that both accept the same calls (`Alike`) unless the
state is one with removes.  With this and the invariant of `TableRun`, every run of safe calls is
that of a multimap.
-/

namespace Beegfs

namespace Table

variable {α κ : Type} [Inhabited α] [Inhabited κ] [LinearOrder κ] {T : TableKind α κ}
  {t : Table α κ} {state : ModificationState} {last : κ}

/-! ## The state and the last key -/

section WithOrder

omit [Inhabited κ] [LinearOrder κ] in
lemma resetInsertBuffer_withOrder :
    (t.withOrder state last).resetInsertBuffer = t.resetInsertBuffer.withOrder state last := by
  rw [resetInsertBuffer_eq, resetInsertBuffer_eq]
  rfl

omit [LinearOrder κ] in
lemma withoutBuffers_withOrder :
    (t.withOrder state last).withoutBuffers = t.withoutBuffers.withOrder state last := by
  rw [withoutBuffers_eq, withoutBuffers_eq]
  rfl

lemma collapseDeletes_withOrder :
    (t.withOrder state last).collapseDeletes T = (t.collapseDeletes T).withOrder state last := by
  have hsize : (t.withOrder state last).deletesPending.size = t.deletesPending.size := rfl
  rw [collapseDeletes, collapseDeletes, hsize]
  split_ifs
  · rfl
  · rfl

omit [Inhabited α] [Inhabited κ] [LinearOrder κ] in
lemma collapseInserts_withOrder :
    (t.withOrder state last).collapseInserts = t.collapseInserts.withOrder state last := by
  have hsize : (t.withOrder state last).insertsPending.size = t.insertsPending.size := rfl
  rw [collapseInserts, collapseInserts, hsize]
  split_ifs
  · rfl
  · rfl

lemma collapseChanges_withOrder :
    (t.withOrder state last).collapseChanges T = (t.collapseChanges T).withOrder .none last := by
  rw [collapseChanges_eq, withoutBuffers_withOrder, collapseDeletes_withOrder,
    collapseInserts_withOrder, collapseChanges_eq]
  rfl

lemma commitChanges_withOrder :
    (t.withOrder state last).commitChanges T = (t.commitChanges T).withOrder .none last := by
  rw [commitChanges, commitChanges, collapseChanges_withOrder]
  rfl

lemma commitChanges_state (t : Table α κ) : (t.commitChanges T).modificationState = .none := rfl

lemma cursor_withOrder :
    ((t.withOrder state last).cursor T).2 = (t.cursor T).2.withOrder state last := rfl

lemma cursor_state (t : Table α κ) : (t.cursor T).2.modificationState = t.modificationState := rfl

lemma reopen_withOrder : (t.withOrder state last).reopen T = t.reopen T := by
  rw [reopen, reopen, collapseChanges_withOrder]
  rfl

omit [LinearOrder κ] in
lemma clear_withOrder : (t.withOrder state last).clear = t.clear.withOrder state last := by
  rw [clear, clear, resetInsertBuffer_withOrder, resetDeleteBuffer_eq, resetDeleteBuffer_eq]
  rfl

omit [Inhabited κ] in
lemma appendInsert_withOrder (data : α) :
    (t.withOrder state last).appendInsert T data =
      (t.appendInsert T data).withOrder state last := by
  have hb : (t.withOrder state last).insertBuffer = t.insertBuffer := rfl
  rw [appendInsert, appendInsert, hb]
  rcases t.insertBuffer.getD ⟨false, none⟩ with ⟨_ | _, current⟩
  · rfl
  · rfl

end WithOrder

/-! ## What is accepted after a table was cleared -/

variable (T) in
/-- The calls one after the other, until one of them throws. -/
def calls (t : Table α κ) (cs : List (TableCall α κ)) : Except String (Table α κ) :=
  cs.foldlM (call T) t

variable (T) in
/-- Two tables accept the same sequences of calls. -/
def AcceptLike (a b : Table α κ) : Prop := ∀ cs, (a.calls T cs).isOk = (b.calls T cs).isOk

/-- Two tables that differ in their states and last keys at most, which decide on nothing. -/
def Alike (a b : Table α κ) : Prop :=
  a = b ∨ ∃ state last, a = b.withOrder state last ∧ (state = .none ∧ b.modificationState = .none ∨
      b.insertsIntoBase = true ∧ OnlyInserts state ∧ OnlyInserts b.modificationState)

/-- Two results of a call are both exceptions, or tables that are alike. -/
def AlikeResults : Except String (Table α κ) → Except String (Table α κ) → Prop
  | .ok a, .ok b => Alike a b
  | .error _, .error _ => True
  | _, _ => False

lemma onlyInserts_ne_bulkInsert (h : OnlyInserts state) : state ≠ .bulkInsert := by
  rintro rfl
  nomatch h

variable (T last) in
omit [Inhabited α] [Inhabited κ] in
/-- A row is never refused as long as rows are only inserted. -/
lemma exists_stateAfterInsert (h : OnlyInserts state) (key : κ) :
    ∃ state', stateAfterInsert T last key state = .ok state' ∧ OnlyInserts state' := by
  rcases h with rfl | rfl | rfl
  · exact ⟨_, rfl, .inr (.inl rfl)⟩
  · refine ⟨_, rfl, ?_⟩
    split_ifs
    · exact .inr (.inr rfl)
    · exact .inr (.inl rfl)
  · exact ⟨_, rfl, .inr (.inr rfl)⟩

omit [Inhabited α] [Inhabited κ] [LinearOrder κ] in
lemma alikeResults_refl (r : Except String (Table α κ)) : AlikeResults r r := by
  cases r with
  | error e => trivial
  | ok t => exact .inl rfl

variable {a b : Table α κ}

lemma Alike.insert (h : Alike a b) (data : α) :
    AlikeResults (a.insert T data) (b.insert T data) := by
  rcases h with rfl | ⟨state, last, rfl, horder⟩
  · exact alikeResults_refl _
  have hstates : OnlyInserts state ∧ OnlyInserts b.modificationState := by
    rcases horder with ⟨rfl, hnone⟩ | ⟨-, hstate, hst'⟩
    · exact ⟨.inl rfl, hnone.symm ▸ .inl rfl⟩
    · exact ⟨hstate, hst'⟩
  obtain ⟨hstate, hst'⟩ := hstates
  obtain ⟨next, hnext, honly⟩ := exists_stateAfterInsert T last hstate (T.pkey data)
  obtain ⟨next', hnext', honly'⟩ := exists_stateAfterInsert T b.lastChangeKey hst' (T.pkey data)
  have hnext : stateAfter T (b.withOrder state last).lastChangeKey (.insert data)
      (b.withOrder state last).modificationState = .ok next := hnext
  have hnext' : stateAfter T b.lastChangeKey (.insert data) b.modificationState = .ok next' :=
    hnext'
  change AlikeResults ((b.withOrder state last).change T (.insert data)) (b.change T (.insert data))
  rw [change_eq (t := b.withOrder state last) (onlyInserts_ne_bulkInsert hstate),
    change_eq (onlyInserts_ne_bulkInsert hst'), prepared, prepared, hnext, hnext']
  change Alike ((b.withOrder next (T.pkey data)).appendInsert T data)
    ((b.withOrder next' (T.pkey data)).appendInsert T data)
  rcases horder with ⟨rfl, hnone⟩ | ⟨hbase, -, -⟩
  · left
    rw [hnone] at hnext'
    cases hnext
    cases hnext'
    rfl
  · refine .inr ⟨next, T.pkey data, ?_, .inr ⟨?_, honly, ?_⟩⟩
    · rw [appendInsert_withOrder, appendInsert_withOrder]
      rfl
    · rw [(appendInsert_fields _ _).2.2]
      exact hbase
    · rw [(appendInsert_fields _ _).1]
      exact honly'

lemma Alike.remove (h : Alike a b) (key : κ) : AlikeResults (a.remove T key) (b.remove T key) := by
  rcases h with rfl | ⟨state, last, rfl, horder⟩
  · exact alikeResults_refl _
  have hbulk : state ≠ .bulkInsert ∧ b.modificationState ≠ .bulkInsert := by
    rcases horder with ⟨rfl, hnone⟩ | ⟨-, hstate, hst'⟩
    · exact ⟨by decide, by rw [hnone]; decide⟩
    · exact ⟨onlyInserts_ne_bulkInsert hstate, onlyInserts_ne_bulkInsert hst'⟩
  -- Once the base set is complete, both states are that of a table without pending changes.
  have hcompl : (b.withOrder state last).completeBase = b.completeBase.withOrder .none last ∧
      b.completeBase.modificationState = .none := by
    by_cases hbase : b.insertsIntoBase = true
    · have hbase' : (b.withOrder state last).insertsIntoBase = true := hbase
      rw [completeBase, if_pos hbase', completeBase, if_pos hbase, resetInsertBuffer_withOrder]
      exact ⟨rfl, rfl⟩
    · obtain ⟨rfl, hnone⟩ := horder.resolve_right fun h => hbase h.1
      have hbase' : ¬(b.withOrder .none last).insertsIntoBase = true := hbase
      rw [completeBase, if_neg hbase', completeBase, if_neg hbase]
      exact ⟨rfl, hnone⟩
  change AlikeResults ((b.withOrder state last).change T (.remove key)) (b.change T (.remove key))
  rw [change_eq (t := b.withOrder state last) hbulk.1, change_eq hbulk.2, prepared, prepared,
    hcompl.1, hcompl.2]
  exact .inl rfl

lemma Alike.call (h : Alike a b) (c : TableCall α κ) : AlikeResults (a.call T c) (b.call T c) := by
  cases c with
  | insert data => exact h.insert data
  | remove key => exact h.remove key
  | commitChanges =>
    rcases h with rfl | ⟨state, last, rfl, -⟩
    · exact alikeResults_refl _
    · exact .inr ⟨.none, last, commitChanges_withOrder, .inl ⟨rfl, commitChanges_state b⟩⟩
  | read =>
    rcases h with rfl | ⟨state, last, rfl, -⟩
    · exact alikeResults_refl _
    · have hstate : ((b.commitChanges T).cursor T).2.modificationState = .none :=
        (cursor_state _).trans (commitChanges_state b)
      refine .inr ⟨.none, last, ?_, .inl ⟨rfl, hstate⟩⟩
      rw [commitChanges_withOrder, cursor_withOrder]
  | clear =>
    rcases h with rfl | ⟨state, last, rfl, horder⟩
    · exact alikeResults_refl _
    · have hstate : b.clear.modificationState = b.modificationState := by
        rw [Table.clear, resetInsertBuffer_eq, resetDeleteBuffer_eq]
        rfl
      refine .inr ⟨state, last, clear_withOrder, .inr ⟨rfl, ?_⟩⟩
      rw [hstate]
      rcases horder with ⟨rfl, hnone⟩ | ⟨-, hboth⟩
      · exact ⟨.inl rfl, hnone.symm ▸ .inl rfl⟩
      · exact hboth
  | reopen =>
    rcases h with rfl | ⟨state, last, rfl, -⟩
    · exact alikeResults_refl _
    · exact .inl reopen_withOrder

/-- Tables that are alike accept the same sequences of calls. -/
lemma Alike.acceptLike (h : Alike a b) : AcceptLike T a b := by
  intro cs
  induction cs generalizing a b with
  | nil => rfl
  | cons c rest ih =>
    have hcall := h.call (T := T) c
    rw [calls, calls, List.foldlM_cons, List.foldlM_cons]
    rcases ha : a.call T c with e | a'
    · rcases hb : b.call T c with e' | b'
      · rfl
      · rw [ha, hb] at hcall
        exact hcall.elim
    · rcases hb : b.call T c with e' | b'
      · rw [ha, hb] at hcall
        exact hcall.elim
      · rw [ha, hb] at hcall
        exact ih hcall

/-- A call that is not refused does what it does to a multimap. -/
lemma Inv.call {t t' : Table α κ} {c : TableCall α κ} (h : t.Inv T) (hsafe : t.Safe T c)
    (hok : t.call T c = .ok t') : t'.Inv T ∧ t'.visible T = c.apply T (t.visible T) := by
  cases c with
  | insert data => exact h.insert hsafe hok
  | remove key => exact h.remove hok
  | commitChanges =>
    rw [← Except.ok.inj hok]
    exact ⟨h.commitChanges.1, h.commitChanges.2.2⟩
  | read =>
    rw [← Except.ok.inj hok]
    exact h.read
  | clear =>
    rw [← Except.ok.inj hok]
    exact h.clear hsafe
  | reopen =>
    rw [← Except.ok.inj hok]
    exact h.reopen hsafe

end Table

/-! ## Every sequence of calls -/

/-- A table, or the text of the exception that a call has thrown, with what the calls so far do to
the rows of a multimap. -/
structure TableHistory (α κ : Type) where
  table : Except String (Table α κ)
  rows : Multiset α
  /-- The last call was `clear`. -/
  cleared : Bool

/-- The call is `clear`. -/
def TableCall.isClear {α κ : Type} : TableCall α κ → Bool
  | .clear => true
  | _ => false

namespace TableHistory

variable {α κ : Type} [Inhabited α] [Inhabited κ] [LinearOrder κ] (T : TableKind α κ)

def start : TableHistory α κ := ⟨.ok .new, 0, false⟩

/-- One more call.  Nothing is called any more after an exception. -/
def step (h : TableHistory α κ) (c : TableCall α κ) : TableHistory α κ :=
  match h.table with
  | .error _ => h
  | .ok t => ⟨t.call T c, c.apply T h.rows, c.isClear⟩

/-- The call is none of those that a table does not cope with. -/
def MayCall (h : TableHistory α κ) (c : TableCall α κ) : Prop :=
  match h.table with
  | .error _ => True
  | .ok t => t.Safe T c

instance (h : TableHistory α κ) (c : TableCall α κ) : Decidable (h.MayCall T c) :=
  match hok : h.table with
  | .error _ => .isTrue (by rw [MayCall, hok]; trivial)
  | .ok t => decidable_of_iff (t.Safe T c) (by rw [MayCall, hok])

/-- The table is a multimap: a cursor after a commit delivers the rows that applying the calls one
after the other leaves, in the order of their keys, and so does applying the pending deletes before
the pending inserts; and if it was just cleared it accepts what a new table accepts. -/
structure IsMultimap (h : TableHistory α κ) (t : Table α κ) : Prop where
  delivers : (((t.commitChanges T).cursor T).1 : Multiset α) = h.rows
  ascending : Ascending T.pkey ((t.commitChanges T).cursor T).1
  batched : t.visible T = h.rows
  cleared : h.cleared = true → Table.AcceptLike T t .new

variable {T}

variable (T) in
/-- What holds of the history as long as no exception was thrown. -/
structure Inv (h : TableHistory α κ) (t : Table α κ) : Prop where
  inv : t.Inv T
  visible : t.visible T = h.rows
  cleared : h.cleared = true → Table.AcceptLike T t .new

lemma Inv.isMultimap {h : TableHistory α κ} {t : Table α κ} (hinv : h.Inv T t) :
    h.IsMultimap T t := by
  obtain ⟨hcommit, hsett, hvis⟩ := hinv.inv.commitChanges
  obtain ⟨hrows, hasc, -⟩ := hcommit.toSound.cursor hsett
  exact ⟨hrows.trans (hvis.trans hinv.visible), hasc, hinv.visible, hinv.cleared⟩

lemma inv_step {h : TableHistory α κ} {c : TableCall α κ} (hcall : h.MayCall T c)
    (hinv : ∀ t, h.table = .ok t → h.Inv T t) :
    ∀ t', (h.step T c).table = .ok t' → (h.step T c).Inv T t' := by
  intro t' ht'
  rcases ht : h.table with e | t
  · rw [step, ht] at ht'
    exact absurd (ht.symm.trans ht') (by simp)
  · have hold := hinv t ht
    rw [MayCall, ht] at hcall
    rw [step, ht] at ht' ⊢
    obtain ⟨hnew, hvis⟩ := hold.inv.call hcall ht'
    refine ⟨hnew, hvis.trans (congrArg (c.apply T) hold.visible), fun hcleared => ?_⟩
    cases c with
    | clear =>
      rw [← Except.ok.inj ht']
      exact Table.Alike.acceptLike (.inr ⟨_, _, hold.inv.clear_eq, .inr ⟨rfl, hcall, .inl rfl⟩⟩)
    | insert _ | remove _ | commitChanges | read | reopen => cases hcleared

variable (T) in
/-- In every sequence of calls a table is a multimap, as long as no call throws and none is one of
those that it does not cope with. -/
theorem isMultimap_of_mayCall (cs : List (TableCall α κ))
    (hcs : EveryStep (step T) (MayCall T) start cs) :
    EveryState (step T) (fun h => ∀ t, h.table = .ok t → h.IsMultimap T t) start cs := by
  refine everyState_of_everyStep (I := fun h => ∀ t, h.table = .ok t → h.Inv T t)
    (fun h c hcall hinv => inv_step hcall hinv)
    (fun h hinv t ht => (hinv t ht).isMultimap) ?_ hcs
  intro t ht
  cases ht
  exact ⟨Table.inv_new_withOrder (.inl rfl) default, rfl, nofun⟩

/-- A table that is filled, changed, opened again, changed and cleared. -/
theorem isMultimap_update :
    EveryStep (step (.numbers true)) (MayCall (.numbers true)) start
        [.insert 1, .insert 2, .insert 2, .commitChanges, .remove 2, .insert 2, .reopen, .remove 1,
          .read, .clear, .insert 7] ∧ EveryState (step (.numbers true))
        (fun h => ∀ t, h.table = .ok t → h.IsMultimap (.numbers true) t) start
        [.insert 1, .insert 2, .insert 2, .commitChanges, .remove 2, .insert 2, .reopen, .remove 1,
          .read, .clear, .insert 7] :=
  ⟨by decide +kernel, isMultimap_of_mayCall _ _ (by decide +kernel)⟩

/-- An insert of 3 behind one of 5 is accepted although 5 was removed before, and so is another
remove of 5, which is applied before both inserts: the row 5 is still there. -/
theorem not_isMultimap_insert_smaller :
    let h : TableHistory ℕ ℕ := runFrom (step (.numbers false)) start
      [.remove 5, .insert 5, .insert 3, .remove 5]
    h.rows = {3} ∧
      h.table.toOption.map (fun t => ((t.commitChanges (.numbers false)).cursor
        (.numbers false)).1) = some [3, 5] := by
  decide +kernel

end TableHistory

end Beegfs
