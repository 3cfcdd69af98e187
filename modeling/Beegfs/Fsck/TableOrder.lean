import Beegfs.Fsck.TableSpec

/-!
# The order of changes

A table accepts or refuses a change by its state and the key of the last change alone.  A batch of
changes whose keys never decrease, with the removes of a key before its inserts, needs no
reordering.  Some such batches are refused: after a remove, an insert that follows an insert must
have the same key, since the comparison in `ms_ordered_at_insert` is the wrong way round, and after
two inserts of one key at the beginning of a batch nothing can be removed any more.
`changes_ok_iff` says that these are all.
-/

namespace Beegfs

open List

/-- A row that is inserted, or a key that is removed. -/
inductive Change (α κ : Type)
  | insert (data : α)
  | remove (key : κ)

namespace Change

variable {α κ : Type} [LinearOrder κ] (T : TableKind α κ)

def key : Change α κ → κ
  | insert data => T.pkey data
  | remove key => key

def isInsert : Change α κ → Bool
  | insert _ => true
  | remove _ => false

omit [LinearOrder κ] in
@[simp] lemma isInsert_insert (data : α) : (insert data : Change α κ).isInsert = true := rfl

omit [LinearOrder κ] in
@[simp] lemma isInsert_remove (key : κ) : (remove key : Change α κ).isInsert = false := rfl

@[simp] lemma key_insert (data : α) : (insert data : Change α κ).key T = T.pkey data := rfl

/-- The first change may come before the second one in an ordered batch. -/
def Precedes (a b : Change α κ) : Prop :=
  a.key T < b.key T ∨ a.key T = b.key T ∧ b.isInsert ∧ (a.isInsert → T.allowDuplicateKeys)
  deriving Decidable

/-- The keys never decrease, and of one key there is at most one remove, which comes first, and
several inserts only if that is allowed. -/
def OrderedBatch (batch : List (Change α κ)) : Prop := batch.Pairwise (Precedes T)
  deriving Decidable

/-- An insert that follows another one has its key. -/
def NoRise (a b : Change α κ) : Prop := a.isInsert → b.isInsert → a.key T = b.key T
  deriving Decidable

/-- There are only inserts, or the keys of the inserts before the first remove increase strictly and
behind it no insert directly follows one of a smaller key. -/
def BatchFits (batch : List (Change α κ)) : Prop :=
  (∀ c ∈ batch, c.isInsert = true) ∨
    (batch.takeWhile isInsert).IsChain (fun a b => a.key T < b.key T) ∧
      (batch.dropWhile isInsert).IsChain (NoRise T)
  deriving Decidable

end Change

namespace Table

variable {α κ : Type} [Inhabited α] [Inhabited κ] [LinearOrder κ] (T : TableKind α κ)

/-- Applies one change. -/
def change (t : Table α κ) : Change α κ → Except String (Table α κ)
  | .insert data => t.insert T data
  | .remove key => t.remove T key

/-- Applies the changes of a batch until one of them is refused. -/
def changes (t : Table α κ) (batch : List (Change α κ)) : Except String (Table α κ) :=
  batch.foldlM (change T) t

/-- The state after a change, by the state before and the key of the last change. -/
def stateAfter (last : κ) (c : Change α κ) (state : ModificationState) :
    Except String ModificationState :=
  match c with
  | .insert data => stateAfterInsert T last (T.pkey data) state
  | .remove key => stateAfterRemove last key state

/-- A table whose state and last key accept the changes. -/
def Accepts : ModificationState → κ → List (Change α κ) → Prop
  | _, _, [] => True
  | state, last, c :: rest => ∃ state', stateAfter T last c state = .ok state' ∧
      Accepts state' (c.key T) rest

section Accepts

variable {T} {last : κ} {batch : List (Change α κ)}

open Change

omit [Inhabited α] [Inhabited κ]

/-- Behind inserts that are not ordered there may be inserts only. -/
lemma accepts_unorderedInsert :
    Accepts T .unorderedInsert last batch ↔ ∀ c ∈ batch, c.isInsert = true := by
  induction batch generalizing last with
  | nil => simp [Accepts]
  | cons c rest ih =>
    have hrest : Accepts T .unorderedInsert (c.key T) rest ↔ _ := ih
    rw [forall_mem_cons, ← hrest, Accepts]
    cases c with
    | insert data => simp [stateAfter, stateAfterInsert, isInsert]
    | remove key => simp [stateAfter, stateAfterRemove, isInsert]

/-- The state is one that the change leaves in a batch with a remove. -/
def AfterRemove : Change α κ → ModificationState → Prop
  | .insert _, state => state = .orderedAtInsert
  | .remove _, state => state = .orderedAtDelete ∨ state = .orderedOnlyDelete

variable {state : ModificationState}

/-- A change in a batch with a remove is accepted if it does not insert a larger key behind an
insert. -/
lemma stateAfter_of_noRise {prev c : Change α κ}
    (hstate : AfterRemove prev state) (hprec : Precedes T prev c) (hrise : NoRise T prev c) :
    ∃ state', stateAfter T (prev.key T) c state = .ok state' ∧ AfterRemove c state' := by
  cases c with
  | insert data =>
    have hle : prev.key T ≤ T.pkey data := by
      rcases hprec with hlt | ⟨heq, -⟩
      · exact hlt.le
      · exact heq.le
    cases prev with
    | insert data' =>
      have heq : T.pkey data' = T.pkey data := hrise rfl rfl
      obtain rfl : state = .orderedAtInsert := hstate
      rcases hprec with hlt | ⟨-, -, hdup⟩
      · exact absurd heq hlt.ne
      · refine ⟨.orderedAtInsert, if_neg ?_, rfl⟩
        have hdup : T.allowDuplicateKeys = true := hdup rfl
        simp [Change.key, heq, hdup]
    | remove key =>
      rcases hstate with rfl | rfl
      · exact ⟨.orderedAtInsert, if_pos hle, rfl⟩
      · exact ⟨.orderedAtInsert, if_pos hle, rfl⟩
  | remove key =>
    have hlt : prev.key T < key := by
      rcases hprec with hlt | ⟨-, hinsert, -⟩
      · exact hlt
      · cases hinsert
    have hnot : ¬key ≤ prev.key T := not_le.mpr hlt
    cases prev with
    | insert data' =>
      obtain rfl : state = .orderedAtInsert := hstate
      exact ⟨.orderedAtDelete, if_neg hnot, .inl rfl⟩
    | remove key' =>
      rcases hstate with rfl | rfl
      · exact ⟨.orderedAtDelete, if_neg hnot, .inl rfl⟩
      · exact ⟨.orderedOnlyDelete, congrArg Except.ok (if_neg hnot), .inr rfl⟩

/-- In a batch with a remove, what follows is accepted if no insert follows one of a smaller key. -/
lemma accepts_afterRemove {prev : Change α κ}
    (hstate : AfterRemove prev state) (hordered : OrderedBatch T (prev :: batch)) :
    Accepts T state (prev.key T) batch ↔ (prev :: batch).IsChain (NoRise T) := by
  induction batch generalizing prev state with
  | nil => simp [Accepts]
  | cons c rest ih =>
    have hprec : Precedes T prev c := rel_of_pairwise_cons hordered mem_cons_self
    have hrest : OrderedBatch T (c :: rest) := List.Pairwise.of_cons hordered
    rw [isChain_cons_cons, Accepts]
    by_cases hrise : NoRise T prev c
    · obtain ⟨_, hok, hafter⟩ := stateAfter_of_noRise hstate hprec hrise
      rw [hok, ← ih hafter hrest]
      simp [hrise]
    · have herror : stateAfter T (prev.key T) c state = .error "unordered operation" := by
        obtain ⟨hprev, hc, hne⟩ : prev.isInsert ∧ c.isInsert ∧ prev.key T ≠ c.key T := by
          simpa [NoRise] using hrise
        cases c with
        | remove key => cases hc
        | insert data =>
          cases prev with
          | remove key => cases hprev
          | insert data' =>
            obtain rfl : state = .orderedAtInsert := hstate
            exact if_pos (.inl (hprec.resolve_right fun h => hne h.1))
      rw [herror]
      simp [hrise]

lemma batchFits_insert_remove {data : α} {key : κ} :
    BatchFits T (.insert data :: .remove key :: batch) ↔
      ((.remove key : Change α κ) :: batch).IsChain (NoRise T) := by
  simp [BatchFits, takeWhile_cons, dropWhile_cons]

lemma batchFits_insert_insert {data data' : α} :
    BatchFits T (.insert data :: .insert data' :: batch) ↔ (∀ c ∈ batch, c.isInsert = true) ∨
        T.pkey data < T.pkey data' ∧ BatchFits T (.insert data' :: batch) := by
  simp only [BatchFits, forall_mem_cons, isInsert_insert, true_and, takeWhile_cons,
    dropWhile_cons, if_true, isChain_cons_cons, key_insert]
  tauto

/-- Behind an insert, in a batch without a remove so far. -/
lemma accepts_onlyInsert {data : α} (hordered : OrderedBatch T (.insert data :: batch)) :
    Accepts T .orderedOnlyInsert (T.pkey data) batch ↔ BatchFits T (.insert data :: batch) := by
  induction batch generalizing data with
  | nil => simp [Accepts, BatchFits, isInsert]
  | cons c rest ih =>
    have hprec : Precedes T (.insert data) c := rel_of_pairwise_cons hordered mem_cons_self
    have hrest : OrderedBatch T (c :: rest) := List.Pairwise.of_cons hordered
    cases c with
    | insert data' =>
      rw [batchFits_insert_insert, ← ih hrest, Accepts]
      rcases hprec with hlt | ⟨heq, -, -⟩
      · have hstate : stateAfter T (T.pkey data) (.insert data') .orderedOnlyInsert =
            .ok .orderedOnlyInsert := congrArg Except.ok (if_neg (not_le.mpr hlt))
        rw [hstate]
        constructor
        · rintro ⟨_, hok, hacc⟩
          cases hok
          exact .inr ⟨hlt, hacc⟩
        · rintro (hins | ⟨-, hacc⟩)
          · refine ⟨_, rfl, (ih hrest).mpr (.inl ?_)⟩
            exact forall_mem_cons.mpr ⟨rfl, hins⟩
          · exact ⟨_, rfl, hacc⟩
      · have heq : T.pkey data = T.pkey data' := heq
        have hstate : stateAfter T (T.pkey data) (.insert data') .orderedOnlyInsert =
            .ok .unorderedInsert := congrArg Except.ok (if_pos heq.ge)
        rw [hstate]
        simp [accepts_unorderedInsert, heq]
    | remove key =>
      have hlt : T.pkey data < key := hprec.resolve_right fun h => by cases h.2.1
      have hstate : stateAfter T (T.pkey data) (.remove key) .orderedOnlyInsert =
          .ok .orderedAtDelete := if_neg (not_le.mpr hlt)
      have hst' : AfterRemove (.remove key : Change α κ) .orderedAtDelete := .inl rfl
      have hafter := accepts_afterRemove hst' hrest
      rw [batchFits_insert_remove, ← hafter, Accepts, hstate]
      simp

/-- An ordered batch is accepted exactly if it fits. -/
lemma accepts_none (hordered : OrderedBatch T batch) :
    Accepts T .none last batch ↔ BatchFits T batch := by
  cases batch with
  | nil => simp [Accepts, BatchFits]
  | cons c rest =>
    cases c with
    | insert data =>
      rw [← accepts_onlyInsert hordered, Accepts]
      simp [stateAfter, stateAfterInsert, Change.key]
    | remove key =>
      have hstate : AfterRemove (.remove key : Change α κ) .orderedOnlyDelete := .inr rfl
      have hafter := accepts_afterRemove hstate hordered
      refine Iff.trans ?_ (hafter.trans (by simp [BatchFits]))
      rw [Accepts]
      simp [stateAfter, stateAfterRemove]

end Accepts

/-! ## Batches of a table -/

section Batches

open Change

variable {T} {t : Table α κ}

omit [Inhabited κ] in
@[simp] lemma appendInsert_fields (t : Table α κ) (data : α) :
    (t.appendInsert T data).modificationState = t.modificationState ∧
      (t.appendInsert T data).lastChangeKey = t.lastChangeKey ∧
      (t.appendInsert T data).insertsIntoBase = t.insertsIntoBase := by
  rw [appendInsert]
  split <;> exact ⟨rfl, rfl, rfl⟩

/-- The table with another state and another last key. -/
def withOrder (t : Table α κ) (state : ModificationState) (last : κ) : Table α κ :=
  { t with modificationState := state, lastChangeKey := last }

variable (T) in
/-- Puts a change into its buffer. -/
def append (t : Table α κ) : Change α κ → Table α κ
  | .insert data => t.appendInsert T data
  | .remove key => t.appendDelete T key

/-- The table that a change is put into: a remove completes the base set first. -/
def prepared (t : Table α κ) : Change α κ → Table α κ
  | .insert _ => t
  | .remove _ => t.completeBase

/-- A table that is given no bulk inserts accepts a change by its state and its last key. -/
lemma change_eq (hbulk : t.modificationState ≠ .bulkInsert) (c : Change α κ) :
    t.change T c =
      (stateAfter T (t.prepared c).lastChangeKey c (t.prepared c).modificationState).map
        fun state => ((t.prepared c).withOrder state (c.key T)).append T c := by
  cases c with
  | insert data =>
    rw [change, insert, if_neg hbulk]
    exact bind_pure_comp (m := Except String) _ (stateAfterInsert T _ _ t.modificationState)
  | remove key =>
    rw [change, remove, if_neg hbulk]
    exact bind_pure_comp (m := Except String) _
      (stateAfterRemove _ key t.completeBase.modificationState)

lemma change_eq_ok {t' : Table α κ} {c : Change α κ} (hbulk : t.modificationState ≠ .bulkInsert)
    (h : t.change T c = .ok t') :
    ∃ state, stateAfter T (t.prepared c).lastChangeKey c (t.prepared c).modificationState =
        .ok state ∧ t' = ((t.prepared c).withOrder state (c.key T)).append T c := by
  rw [change_eq hbulk] at h
  rcases hstate : stateAfter T (t.prepared c).lastChangeKey c (t.prepared c).modificationState with
    e | state
  · rw [hstate] at h
    cases h
  · rw [hstate] at h
    exact ⟨state, rfl, (Except.ok.inj h).symm⟩

omit [Inhabited α] [Inhabited κ] in
/-- No change leaves the state of bulk inserts. -/
lemma stateAfter_ne_bulkInsert {last : κ} {c : Change α κ} {state state' : ModificationState}
    (h : stateAfter T last c state = .ok state') : state' ≠ .bulkInsert := by
  rintro rfl
  cases c with
  | insert data =>
    cases state <;> simp only [stateAfter, stateAfterInsert] at h <;>
      (try split_ifs at h) <;> cases h
  | remove key =>
    cases state <;> simp only [stateAfter, stateAfterRemove] at h <;>
      (try split_ifs at h) <;> cases h

/-- The part of a table by which it accepts changes once its base set is complete. -/
structure InState (t : Table α κ) (state : ModificationState) (last : κ) : Prop where
  modificationState : t.modificationState = state
  lastChangeKey : t.lastChangeKey = last
  ne_bulkInsert : state ≠ .bulkInsert
  insertsIntoBase : t.insertsIntoBase = false

lemma InState.change {state : ModificationState} {last : κ} (h : t.InState state last)
    (c : Change α κ) :
    (∀ e, stateAfter T last c state = .error e → t.change T c = .error e) ∧
      ∀ state', stateAfter T last c state = .ok state' →
        ∃ t', t.change T c = .ok t' ∧ t'.InState state' (c.key T) := by
  obtain ⟨rfl, rfl, hbulk, hbase⟩ := h
  have hprepared : t.prepared c = t := by
    cases c with
    | insert data => rfl
    | remove key => exact if_neg (by simp [hbase])
  have hchg := change_eq (T := T) hbulk c
  rw [hprepared] at hchg
  refine ⟨fun e he => ?_, fun state' hok => ?_⟩
  · rw [hchg, he]
    rfl
  · rw [hchg, hok]
    have hbulk' := stateAfter_ne_bulkInsert hok
    refine ⟨_, rfl, ?_⟩
    cases c with
    | insert data =>
      obtain ⟨hstate, hlast, hinto⟩ := appendInsert_fields (T := T)
        (t.withOrder state' (T.pkey data)) data
      exact ⟨hstate, hlast, hbulk', hinto.trans hbase⟩
    | remove key => exact ⟨rfl, rfl, hbulk', hbase⟩

/-- A batch is accepted by the state and the last key. -/
lemma InState.changes {state : ModificationState} {last : κ} {batch : List (Change α κ)}
    (h : t.InState state last) :
    (∃ t', t.changes T batch = .ok t') ↔ Accepts T state last batch := by
  induction batch generalizing t state last with
  | nil => exact ⟨fun _ => trivial, fun _ => ⟨t, rfl⟩⟩
  | cons c rest ih =>
    obtain ⟨herror, hok⟩ := h.change (T := T) c
    rw [Accepts, Table.changes, foldlM_cons]
    rcases hstate : stateAfter T last c state with e | state'
    · rw [herror e hstate]
      constructor
      · rintro ⟨t', ht'⟩
        cases ht'
      · rintro ⟨state', hfalse, -⟩
        cases hfalse
    · obtain ⟨t', ht', hin⟩ := hok state' hstate
      rw [ht']
      refine (ih hin).trans ⟨fun hacc => ⟨state', rfl, hacc⟩, ?_⟩
      rintro ⟨_, heq, hacc⟩
      cases heq
      exact hacc

lemma inState_commitChanges (t : Table α κ) :
    (t.commitChanges T).InState .none (t.commitChanges T).lastChangeKey := by
  refine ⟨rfl, rfl, by decide, ?_⟩
  rw [commitChanges, collapseChanges_eq, collapseInserts_eq, collapseDeletes_eq, withoutBuffers_eq]

variable (T) in
/-- After a commit a table accepts an ordered batch exactly if it consists of inserts, or if the
keys of the inserts before its first remove increase strictly and no insert behind it directly
follows one of a smaller key. -/
theorem changes_ok_iff (t : Table α κ) (batch : List (Change α κ))
    (hordered : OrderedBatch T batch) :
    (∃ t', (t.commitChanges T).changes T batch = .ok t') ↔ BatchFits T batch :=
  (inState_commitChanges t).changes.trans (accepts_none hordered)

/-- Rows of which there is one for each key can be removed and inserted again. -/
theorem changes_ok_update :
    ∃ t', (Table.new.commitChanges (.numbers false)).changes (.numbers false)
      [.remove 1, .insert 1, .remove 2, .insert 2] = .ok t' :=
  (changes_ok_iff (.numbers false) .new _ (by decide)).mpr (by decide)

/-- A new row cannot be inserted behind one that was removed and inserted again. -/
theorem changes_ok_insert_fails :
    OrderedBatch (.numbers false) ([.remove 1, .insert 1, .insert 2] : List (Change ℕ ℕ)) ∧
      (Table.new.commitChanges (.numbers false)).changes (.numbers false)
        [.remove 1, .insert 1, .insert 2] = .error "unordered operation" :=
  ⟨by decide, rfl⟩

end Batches

end Table

end Beegfs
