import Beegfs.Fsck.TableOrder

/-!
# Tables as multimaps

What a table is for: calls are applied one after the other to a multiset of rows.
`isMultimap_of_mayCall` shows that a cursor after a commit delivers that multiset, in every sequence
of calls that is not refused, if four kinds of calls are left out: an insert of a smaller key behind
an insert, after which too much is accepted; clearing a table while removes are pending, after which
too little is accepted; opening a table again that has deleted keys but no base, in which rows of
these keys cannot be seen; and opening a table again with a fragment of two rows in the wrong order,
which is then read without being sorted.
-/

namespace Beegfs

open FragmentSet Multiset

/-- A call of a table.  Reading is a commit and a cursor, and opening again is closing and
opening. -/
inductive TableCall (α κ : Type)
  | insert (data : α)
  | remove (key : κ)
  | commitChanges
  | read
  | clear
  | reopen

namespace TableCall

variable {α κ : Type} [LinearOrder κ] (T : TableKind α κ)

/-- What the call does to the rows of a multimap. -/
def apply (rows : Multiset α) : TableCall α κ → Multiset α
  | insert data => data ::ₘ rows
  | remove key => rows.filter fun r => T.pkey r ≠ key
  | commitChanges | read | reopen => rows
  | clear => 0

end TableCall

namespace Table

variable {α κ : Type} [Inhabited α] [Inhabited κ] [LinearOrder κ] (T : TableKind α κ)
  (t : Table α κ)

def call : TableCall α κ → Except String (Table α κ)
  | .insert data => t.insert T data
  | .remove key => t.remove T key
  | .commitChanges => .ok (t.commitChanges T)
  | .read => .ok ((t.commitChanges T).cursor T).2
  | .clear => .ok t.clear
  | .reopen => .ok (t.reopen T)

/-- The pending changes are inserts only. -/
def OnlyInserts (state : ModificationState) : Prop :=
  state = .none ∨ state = .orderedOnlyInsert ∨ state = .unorderedInsert
  deriving Decidable

/-- No fragment of rows is one of two rows in the wrong order. -/
def NoneSwapped : Prop :=
  t.base.EveryFragment (SetFragment.NotSwapped T.pkey) ∧
    t.inserts.EveryFragment (SetFragment.NotSwapped T.pkey) ∧
    t.insertsPending.EveryFragment (SetFragment.NotSwapped T.pkey)
  deriving Decidable

/-- The call is none of those that a table does not cope with. -/
def Safe : TableCall α κ → Prop
  | .insert data => t.modificationState = .orderedAtInsert → t.lastChangeKey ≤ T.pkey data
  | .clear => OnlyInserts t.modificationState
  | .reopen =>
    (t.base.size ≠ 0 ∨ t.deletes.size = 0 ∧ t.deletesPending.size = 0) ∧ t.NoneSwapped T
  | .remove _ | .commitChanges | .read => True

instance (t : Table α κ) : (c : TableCall α κ) → Decidable (t.Safe T c)
  | .insert _ => inferInstanceAs (Decidable (_ → _))
  | .clear => inferInstanceAs (Decidable (OnlyInserts _))
  | .reopen => inferInstanceAs (Decidable (_ ∧ _))
  | .remove _ | .commitChanges | .read => isTrue trivial

section Invariant

variable {T} {t : Table α κ}

variable (T) in
/-- What the state and the last key of a table say about its pending inserts. -/
def OrderedPending (state : ModificationState) (last : κ) (rows : List α) : Prop :=
  match state with
  | .none | .orderedOnlyDelete | .unorderedDelete => rows = []
  | .orderedOnlyInsert | .orderedAtInsert | .orderedAtDelete => ∀ r ∈ rows, T.pkey r ≤ last
  | .unorderedInsert => True
  | .bulkInsert => False

variable {state state' : ModificationState} {last key : κ} {rows : List α}

section

omit [Inhabited α] [Inhabited κ]

lemma OrderedPending.of_perm {rows' : List α}
    (h : OrderedPending T state last rows) (hperm : rows'.Perm rows) :
    OrderedPending T state last rows' := by
  cases state with
  | none | orderedOnlyDelete | unorderedDelete =>
    exact List.Perm.eq_nil (h ▸ hperm : rows'.Perm [])
  | orderedOnlyInsert | orderedAtInsert | orderedAtDelete =>
    exact fun r hr => h r (hperm.mem_iff.mp hr)
  | unorderedInsert => trivial
  | bulkInsert => exact h.elim

/-- Pending inserts have no order that they could break if there are none. -/
lemma orderedPending_nil (last : κ) (hbulk : state ≠ .bulkInsert) :
    OrderedPending T state last [] := by
  cases state with
  | none | orderedOnlyDelete | unorderedDelete => rfl
  | orderedOnlyInsert | orderedAtInsert | orderedAtDelete => exact nofun
  | unorderedInsert => trivial
  | bulkInsert => exact absurd rfl hbulk

/-- A row that is accepted fits behind the pending ones. -/
lemma OrderedPending.insert {data : α} (h : OrderedPending T state last rows)
    (hsafe : state = .orderedAtInsert → last ≤ T.pkey data)
    (hok : stateAfterInsert T last (T.pkey data) state = .ok state') :
    OrderedPending T state' (T.pkey data) (data :: rows) := by
  have hcons : (∀ r ∈ rows, T.pkey r ≤ last) → last ≤ T.pkey data →
      ∀ r ∈ data :: rows, T.pkey r ≤ T.pkey data := fun hrows hle =>
    List.forall_mem_cons.mpr ⟨le_refl _, fun r hr => (hrows r hr).trans hle⟩
  have hnil : rows = [] → ∀ r ∈ data :: rows, T.pkey r ≤ T.pkey data := by
    rintro rfl
    exact List.forall_mem_singleton.mpr (le_refl _)
  cases state with
  | none =>
    cases hok
    exact hnil h
  | bulkInsert => exact h.elim
  | orderedOnlyInsert =>
    obtain rfl := Except.ok.inj hok
    split_ifs with hle
    · trivial
    · exact hcons h (not_le.mp hle).le
  | unorderedInsert =>
    cases hok
    trivial
  | unorderedDelete => cases hok
  | orderedOnlyDelete =>
    simp only [stateAfterInsert] at hok
    split_ifs at hok
    cases hok
    exact hnil h
  | orderedAtDelete =>
    simp only [stateAfterInsert] at hok
    split_ifs at hok with hle
    cases hok
    exact hcons h hle
  | orderedAtInsert =>
    simp only [stateAfterInsert] at hok
    split_ifs at hok
    cases hok
    exact hcons h (hsafe rfl)

/-- A key that is accepted for removal is not that of a pending row. -/
lemma OrderedPending.remove
    (h : OrderedPending T state last rows) (hok : stateAfterRemove last key state = .ok state') :
    (∀ r ∈ rows, T.pkey r ≠ key) ∧ OrderedPending T state' key rows := by
  have hbelow : (∀ r ∈ rows, T.pkey r ≤ last) → ¬key ≤ last →
      (∀ r ∈ rows, T.pkey r ≠ key) ∧ ∀ r ∈ rows, T.pkey r ≤ key := by
    intro hrows hlt
    refine ⟨fun r hr heq => hlt (heq ▸ hrows r hr), fun r hr => ?_⟩
    exact (hrows r hr).trans (not_le.mp hlt).le
  have hnil : rows = [] → state' ≠ .bulkInsert →
      (∀ r ∈ rows, T.pkey r ≠ key) ∧ OrderedPending T state' key rows := by
    rintro rfl hbulk
    exact ⟨nofun, orderedPending_nil key hbulk⟩
  have hbulk : state' ≠ .bulkInsert := stateAfter_ne_bulkInsert (T := T) (c := .remove key) hok
  cases state with
  | none | orderedOnlyDelete | unorderedDelete => exact hnil h hbulk
  | bulkInsert => exact h.elim
  | unorderedInsert => cases hok
  | orderedAtDelete | orderedAtInsert | orderedOnlyInsert =>
    simp only [stateAfterRemove] at hok
    split_ifs at hok with hle
    cases hok
    exact hbelow h hle

end

variable (T) in
/-- What the state of a table says about its pending inserts. -/
def PendingOrder (t : Table α κ) : Prop :=
  OrderedPending T t.modificationState t.lastChangeKey t.insertsPending.rows

/-- Rows are inserted into the base set, and nothing was deleted or is pending. -/
structure FillsBase (t : Table α κ) : Prop where
  buffer : ∃ current, t.insertBuffer = some ⟨true, current⟩
  state : OnlyInserts t.modificationState
  deletes : t.deletes.rows = []
  insertsPending : t.insertsPending.rows = []
  deletesPending : t.deletesPending.rows = []

variable (T) in
/-- What holds of a table between its calls. -/
structure Inv (t : Table α κ) : Prop extends t.Sound T where
  fillsBase : t.insertsIntoBase = true → t.FillsBase
  pending : t.insertsIntoBase = false → ∀ current, t.insertBuffer ≠ some ⟨true, current⟩
  order : t.PendingOrder T
  deletesAscending : t.deletes.EveryFragment (Ascending id)
  bulkInserters : t.bulkInserters = []

lemma Inv.ne_bulkInsert (h : t.Inv T) : t.modificationState ≠ .bulkInsert := by
  intro hbulk
  have horder := h.order
  rw [PendingOrder, hbulk] at horder
  exact horder.elim

/-! ## Inserts -/

/-- A row that is put into the base set is visible, since nothing was deleted. -/
lemma Sound.appendInsert_base (h : t.Sound T) {current : Option ℕ}
    (hbuf : t.insertBuffer = some ⟨true, current⟩) (hdel : t.deletes.rows = [])
    (hpend : t.deletesPending.rows = []) (data : α) :
    (t.appendInsert T data).Sound T ∧ (t.appendInsert T data).visible T = data ::ₘ t.visible T ∧
      (t.appendInsert T data).insertsPending = t.insertsPending ∧
      (t.appendInsert T data).deletes = t.deletes ∧
      (t.appendInsert T data).deletesPending = t.deletesPending ∧
      (∃ current, (t.appendInsert T data).insertBuffer = some ⟨true, current⟩) := by
  obtain ⟨hbase, hfill, hrows⟩ := h.base.bufferAppend (h.baseBuffer current hbuf)
    T.fragmentSize data
  have heq : t.appendInsert T data =
      { t with
        base := (t.base.bufferAppend T.data T.fragmentSize current data).1
        insertBuffer := some ⟨true,
          (t.base.bufferAppend T.data T.fragmentSize current data).2⟩ } := by
    rw [appendInsert, hbuf]
    rfl
  rw [heq]
  refine ⟨{ h with base := hbase, baseBuffer := ?_, insertBuffer := by simp }, ?_, rfl, rfl, rfl, _,
    rfl⟩
  · rintro - ⟨⟩
    exact hfill
  · rw [visible, visible]
    simp only [hdel, hpend, coe_eq_coe.mpr hrows]
    simp [← cons_coe]

/-- A row that is added to the pending ones is visible. -/
lemma Sound.appendInsert_pending (h : t.Sound T)
    (hbuf : ∀ current, t.insertBuffer ≠ some ⟨true, current⟩) (data : α) :
    (t.appendInsert T data).Sound T ∧ (t.appendInsert T data).visible T = data ::ₘ t.visible T ∧
      (t.appendInsert T data).insertsPending.rows.Perm (data :: t.insertsPending.rows) ∧
      (t.appendInsert T data).deletes = t.deletes ∧
      (∀ current, (t.appendInsert T data).insertBuffer ≠ some ⟨true, current⟩) := by
  have hcur : ∃ current, t.insertBuffer.getD ⟨false, none⟩ = ⟨false, current⟩ ∧
      t.insertsPending.Filled T.data current := by
    rcases hb : t.insertBuffer with _ | ⟨_ | _, current⟩
    · exact ⟨none, rfl, filled_none _⟩
    · exact ⟨current, rfl, h.insertBuffer current hb⟩
    · exact absurd hb (hbuf current)
  obtain ⟨current, hget, hfill⟩ := hcur
  obtain ⟨hpend, hfill', hrows⟩ := h.insertsPending.bufferAppend hfill T.fragmentSize data
  have heq : t.appendInsert T data =
      { t with
        insertsPending := (t.insertsPending.bufferAppend T.data T.fragmentSize current data).1
        insertBuffer := some
          ⟨false, (t.insertsPending.bufferAppend T.data T.fragmentSize current data).2⟩ } := by
    rw [appendInsert, hget]
  rw [heq]
  refine ⟨{ h with insertsPending := hpend, baseBuffer := by simp, insertBuffer := ?_ }, ?_, hrows,
    rfl, by simp⟩
  · rintro - ⟨⟩
    exact hfill'
  · rw [visible, visible, coe_eq_coe.mpr hrows, ← cons_coe, add_cons]

omit [Inhabited α] [Inhabited κ] in
lemma onlyInserts_insert (h : OnlyInserts state)
    (hok : stateAfterInsert T last key state = .ok state') : OnlyInserts state' := by
  rcases h with rfl | rfl | rfl
  · cases hok
    exact .inr (.inl rfl)
  · obtain rfl := Except.ok.inj hok
    split_ifs
    · exact .inr (.inr rfl)
    · exact .inr (.inl rfl)
  · cases hok
    exact .inr (.inr rfl)

omit [Inhabited κ] in
lemma appendInsert_bulkInserters (t : Table α κ) (data : α) :
    (t.appendInsert T data).bulkInserters = t.bulkInserters := by
  rw [appendInsert]
  split <;> rfl

lemma Sound.withOrder (h : t.Sound T) (state : ModificationState) (last : κ) :
    (t.withOrder state last).Sound T :=
  { h with }

lemma Inv.insert {t' : Table α κ} {data : α} (h : t.Inv T) (hsafe : t.Safe T (.insert data))
    (hok : t.insert T data = .ok t') : t'.Inv T ∧ t'.visible T = data ::ₘ t.visible T := by
  obtain ⟨state, hstate, ht'⟩ := change_eq_ok (c := .insert data) h.ne_bulkInsert hok
  change t' = (t.withOrder state (T.pkey data)).appendInsert T data at ht'
  have hsound := h.toSound.withOrder state (T.pkey data)
  obtain ⟨hst', hlast', hinto'⟩ :=
    appendInsert_fields (T := T) (t.withOrder state (T.pkey data)) data
  have hbulkIns :=
    (appendInsert_bulkInserters (T := T) (t.withOrder state (T.pkey data)) data).trans
      h.bulkInserters
  rw [← ht'] at hst' hlast' hinto' hbulkIns
  by_cases hinto : t.insertsIntoBase = true
  · have hfills := h.fillsBase hinto
    obtain ⟨_, hcur⟩ := hfills.buffer
    obtain ⟨hnew, hvis, hpend, hdel, hdelPend, hbuf⟩ :=
      hsound.appendInsert_base hcur hfills.deletes hfills.deletesPending data
    rw [← ht'] at hnew hvis hpend hdel hdelPend hbuf
    have hfills' : t'.FillsBase := by
      refine ⟨hbuf, ?_, ?_, ?_, ?_⟩
      · rw [hst']
        exact onlyInserts_insert hfills.state hstate
      · rw [hdel]
        exact hfills.deletes
      · rw [hpend]
        exact hfills.insertsPending
      · rw [hdelPend]
        exact hfills.deletesPending
    refine ⟨⟨hnew, fun _ => hfills', fun hfalse => ?_, ?_, ?_, hbulkIns⟩, hvis⟩
    · rw [hinto'] at hfalse
      nomatch hinto.symm.trans hfalse
    · rw [PendingOrder, hfills'.insertsPending, hst']
      exact orderedPending_nil _ (stateAfter_ne_bulkInsert (T := T) (c := .insert data) hstate)
    · rw [hdel]
      exact h.deletesAscending
  · have hfalse := Bool.eq_false_iff.mpr hinto
    obtain ⟨hnew, hvis, hrows, hdel, hbuf⟩ := hsound.appendInsert_pending (h.pending hfalse) data
    rw [← ht'] at hnew hvis hrows hdel hbuf
    refine ⟨⟨hnew, fun htrue => ?_, fun _ => hbuf, ?_, ?_, hbulkIns⟩, hvis⟩
    · rw [hinto'] at htrue
      exact absurd htrue hinto
    · rw [PendingOrder, hst', hlast']
      exact (h.order.insert hsafe hstate).of_perm hrows
    · rw [hdel]
      exact h.deletesAscending

/-! ## Removes -/

/-- Completing the base set leaves the rows as they are. -/
lemma Inv.completeBase (h : t.Inv T) :
    t.completeBase.Inv T ∧ SameRows t t.completeBase ∧ t.completeBase.insertsIntoBase = false := by
  rw [Table.completeBase]
  split_ifs with hinto
  · have hfills := h.fillsBase hinto
    obtain ⟨hsound, hsame⟩ := h.toSound.resetInsertBuffer
    have hpend : t.resetInsertBuffer.insertsPending.rows = [] :=
      List.Perm.eq_nil (hfills.insertsPending ▸ hsame.insertsPending)
    refine ⟨⟨{ hsound with }, nofun, fun _ current => ?_, hpend, ?_, ?_⟩, { hsame with }, rfl⟩
    · rw [resetInsertBuffer_eq]
      exact nofun
    · rw [resetInsertBuffer_eq]
      exact h.deletesAscending
    · rw [resetInsertBuffer_eq]
      exact h.bulkInserters
  · exact ⟨h, .refl t, Bool.eq_false_iff.mpr hinto⟩

/-- A key that is added to the pending deletes hides the rows that it has. -/
lemma Sound.appendDelete (h : t.Sound T) (hkey : ∀ r ∈ t.insertsPending.rows, T.pkey r ≠ key) :
    (t.appendDelete T key).Sound T ∧
      (t.appendDelete T key).visible T = (t.visible T).filter fun r => T.pkey r ≠ key := by
  have hfill : t.deletesPending.Filled T.keys (t.deleteBuffer.getD none) := by
    rcases hb : t.deleteBuffer with _ | current
    · exact filled_none _
    · exact h.deleteBuffer current hb
  obtain ⟨hpend, hfill', hrows⟩ := h.deletesPending.bufferAppend hfill T.fragmentSize key
  rw [Table.appendDelete]
  refine ⟨{ h with
    deletesPending := hpend
    deleteBuffer := fun _ hcur => Option.some.inj hcur ▸ hfill' }, ?_⟩
  · have hself : (t.insertsPending.rows : Multiset α).filter (fun r => T.pkey r ≠ key) =
        t.insertsPending.rows := filter_eq_self.mpr fun r hr => hkey r (mem_coe.mp hr)
    rw [visible, visible, filter_add, filter_add, filter_filter, filter_filter, hself]
    simp only [hrows.mem_iff, List.mem_cons, not_or]
    congr 2
    exact filter_congr fun r _ => by tauto

lemma Inv.remove {t' : Table α κ} (h : t.Inv T) (hok : t.remove T key = .ok t') :
    t'.Inv T ∧ t'.visible T = (t.visible T).filter fun r => T.pkey r ≠ key := by
  obtain ⟨state, hstate, rfl⟩ := change_eq_ok (c := .remove key) h.ne_bulkInsert hok
  obtain ⟨hbase, hsame, hinto⟩ := h.completeBase
  obtain ⟨hkey, horder⟩ := OrderedPending.remove hbase.order hstate
  have hsound := hbase.toSound.withOrder state key
  obtain ⟨hnew, hvis⟩ := hsound.appendDelete hkey
  refine ⟨⟨hnew, fun htrue => ?_, fun _ => hbase.pending hinto, horder, hbase.deletesAscending,
    hbase.bulkInserters⟩, ?_⟩
  · nomatch hinto.symm.trans htrue
  · rw [← hsame.visible_eq (T := T)]
    exact hvis

/-! ## Commits -/

lemma Settled.inv (hsett : t.Settled) (h : t.Sound T)
    (hdel : t.deletes.EveryFragment (Ascending id)) (hbulk : t.bulkInserters = []) : t.Inv T := by
  refine ⟨h, fun htrue => ?_, fun _ current => ?_, ?_, hdel, hbulk⟩
  · nomatch hsett.intoBase.symm.trans htrue
  · rw [hsett.insertBuffer]
    exact nofun
  · rw [PendingOrder, hsett.state]
    exact hsett.insertsPending

lemma Inv.deletes_collapseChanges (h : t.Inv T) :
    (t.collapseChanges T).deletes.EveryFragment (Ascending id) := by
  rw [(collapseChanges_frame t).2.1]
  rcases h.toSound.withoutBuffers.1.fragments_collapseDeletes.1 with hsame | hsort
  · rw [hsame, withoutBuffers_eq]
    exact h.deletesAscending
  · exact hsort.everyFragment

lemma Inv.collapseChanges (h : t.Inv T) :
    (t.collapseChanges T).Inv T ∧ (t.collapseChanges T).Settled ∧
      (t.collapseChanges T).visible T = t.visible T := by
  obtain ⟨hsound, hsett, hvis⟩ := h.toSound.collapseChanges
  exact ⟨hsett.inv hsound h.deletes_collapseChanges
    ((collapseChanges_frame t).2.2.trans h.bulkInserters), hsett, hvis⟩

lemma Inv.commitChanges (h : t.Inv T) :
    (t.commitChanges T).Inv T ∧ (t.commitChanges T).Settled ∧
      (t.commitChanges T).visible T = t.visible T := by
  obtain ⟨hsound, hsett, hvis⟩ := h.toSound.commitChanges
  have hsort : (t.commitChanges T).deletes.IsSorted T.keys :=
    h.toSound.collapseChanges.1.deletes.sort.1
  have hbulk : (t.commitChanges T).bulkInserters = [] :=
    (collapseChanges_frame t).2.2.trans h.bulkInserters
  exact ⟨hsett.inv hsound hsort.everyFragment hbulk, hsett, hvis⟩

lemma Inv.cursor (h : t.Inv T) (hsett : t.Settled) :
    (t.cursor T).2.Inv T ∧ (t.cursor T).2.visible T = t.visible T := by
  obtain ⟨-, -, hsound, hsett', hsame⟩ := h.toSound.cursor hsett
  have hsort : (t.cursor T).2.deletes.IsSorted T.keys := h.deletes.cursor.2.2.1
  exact ⟨hsett'.inv hsound hsort.everyFragment h.bulkInserters, hsame.visible_eq⟩

lemma Inv.read (h : t.Inv T) :
    ((t.commitChanges T).cursor T).2.Inv T ∧
      ((t.commitChanges T).cursor T).2.visible T = t.visible T := by
  obtain ⟨hinv, hsett, hvis⟩ := h.commitChanges
  obtain ⟨hinv', hvis'⟩ := hinv.cursor hsett
  exact ⟨hinv', hvis'.trans hvis⟩

/-! ## Clearing and opening -/

lemma inv_new_withOrder (hstate : OnlyInserts state) (last : κ) :
    ((Table.new : Table α κ).withOrder state last).Inv T := by
  have hbulk : state ≠ .bulkInsert := by
    rintro rfl
    nomatch hstate
  refine ⟨⟨sound_empty, sound_empty, sound_empty, sound_empty, sound_empty, ?_, nofun, nofun⟩,
    fun _ => ⟨⟨none, rfl⟩, hstate, rfl, rfl, rfl⟩, nofun, orderedPending_nil _ hbulk, nofun, rfl⟩
  rintro - ⟨⟩
  exact filled_none _

/-- A table that was cleared is a new one, but with the state and the last key from before. -/
lemma Inv.clear_eq (h : t.Inv T) :
    t.clear = (Table.new : Table α κ).withOrder t.modificationState t.lastChangeKey := by
  rw [Table.clear, resetInsertBuffer_eq, resetDeleteBuffer_eq]
  simp only [h.bulkInserters]
  rfl

lemma Inv.clear (h : t.Inv T) (hsafe : t.Safe T .clear) :
    t.clear.Inv T ∧ t.clear.visible T = 0 := by
  rw [h.clear_eq]
  exact ⟨inv_new_withOrder hsafe _, rfl⟩

lemma Sound.noneSwapped_withoutBuffers (h : t.Sound T) (hswap : t.NoneSwapped T) :
    t.withoutBuffers.NoneSwapped T := by
  obtain ⟨hbase, hins, hpend⟩ := hswap
  rw [withoutBuffers_eq]
  refine ⟨?_, hins, ?_⟩
  · unfold flushedBase
    split
    · rename_i current hcur
      exact hbase.bufferFlush h.base (h.baseBuffer current hcur)
    · exact hbase
  · unfold flushedInserts
    split
    · rename_i current hcur
      exact hpend.bufferFlush h.insertsPending (h.insertBuffer current hcur)
    · exact hpend

/-- The fragments of a table that is closed are none of two rows in the wrong order. -/
lemma Sound.noneSwapped_collapseChanges (h : t.Sound T) (hswap : t.NoneSwapped T) :
    (t.collapseChanges T).base.EveryFragment (SetFragment.NotSwapped T.pkey) ∧
      (t.collapseChanges T).inserts.EveryFragment (SetFragment.NotSwapped T.pkey) := by
  obtain ⟨hbase, hins, hpend⟩ := h.noneSwapped_withoutBuffers hswap
  have hsound := h.withoutBuffers.1
  set u := t.withoutBuffers
  have hcleaned : (u.collapseDeletes T).inserts.EveryFragment (SetFragment.NotSwapped T.pkey) := by
    rcases hsound.fragments_collapseDeletes.2 with hsame | hasc
    · rw [hsame]
      exact hins
    · exact fun p hp _ => hasc p hp
  constructor
  · rw [(collapseChanges_frame t).1]
    exact hbase
  · change (u.collapseDeletes T).collapseInserts.inserts.EveryFragment _
    rw [Table.collapseInserts]
    split_ifs
    · exact hcleaned
    · refine FragmentSet.EveryFragment.mergeInto ?_ hcleaned
      rw [collapseDeletes_eq]
      exact hpend

/-- A table that is opened has what was committed. -/
lemma inv_openSets {base inserts : FragmentSet α κ} {deletes : FragmentSet κ κ}
    (hbase : base.Sound T.data) (hins : inserts.Sound T.data) (hdel : deletes.Sound T.keys)
    (hasc : deletes.EveryFragment (Ascending id)) (hempty : base.size = 0 → deletes.rows = []) :
    (openSets base inserts deletes).Inv T ∧ (openSets base inserts deletes).visible T =
        (base.rows : Multiset α).filter (fun r => T.pkey r ∉ deletes.rows) + inserts.rows := by
  have hvis : ∀ t : Table α κ, t.base = base → t.inserts = inserts → t.deletes = deletes →
      t.insertsPending = .empty → t.deletesPending = .empty →
      t.visible T = (base.rows : Multiset α).filter (fun r => T.pkey r ∉ deletes.rows) +
        inserts.rows := by
    intro t hb hi hd hip hdp
    rw [visible, hb, hi, hd, hip, hdp]
    have hrows : (FragmentSet.empty : FragmentSet α κ).rows = [] := rfl
    have hrows' : (FragmentSet.empty : FragmentSet κ κ).rows = [] := rfl
    simp [hrows, hrows']
  rw [openSets]
  split_ifs with hsize
  · refine ⟨⟨⟨hbase, hins, hdel, sound_empty, sound_empty, ?_, by rintro _ ⟨⟩, by rintro _ ⟨⟩⟩,
      fun _ => ⟨⟨none, rfl⟩, .inl rfl, hempty hsize, rfl, rfl⟩, by rintro ⟨⟩, rfl, hasc, rfl⟩,
      hvis _ rfl rfl rfl rfl rfl⟩
    rintro - ⟨⟩
    exact filled_none _
  · exact ⟨⟨⟨hbase, hins, hdel, sound_empty, sound_empty, by simp, by simp, by simp⟩,
      by simp, fun _ => by simp, rfl, hasc, rfl⟩, hvis _ rfl rfl rfl rfl rfl⟩

lemma Inv.reopen (h : t.Inv T) (hsafe : t.Safe T .reopen) :
    (t.reopen T).Inv T ∧ (t.reopen T).visible T = t.visible T := by
  obtain ⟨hdeleted, hswap⟩ := hsafe
  obtain ⟨hinv, hsett, hvis⟩ := h.collapseChanges
  obtain ⟨hbaseSwap, hinsSwap⟩ := h.toSound.noneSwapped_collapseChanges hswap
  have hbaseRows := h.toSound.base_collapseChanges
  have hkeys := h.toSound.mem_deletes_collapseChanges
  set u := t.collapseChanges T
  have hdelSwap : u.deletes.EveryFragment (SetFragment.NotSwapped T.keys.pkey) :=
    fun p hp _ => hinv.deletesAscending p hp
  obtain ⟨hbase, hbase'⟩ := hinv.base.reopen hbaseSwap
  obtain ⟨hins, hins'⟩ := hinv.inserts.reopen hinsSwap
  obtain ⟨hdel, hdel'⟩ := hinv.deletes.reopen hdelSwap
  -- Rows are put into the base set again only if no key was deleted.
  have hempty : (u.base.reopen T.data).size = 0 → (u.deletes.reopen T.keys).rows = [] := by
    intro hsize
    rw [hbase.size_eq, hbase', hbaseRows.length_eq, ← h.base.size_eq] at hsize
    obtain ⟨hnone, hnone'⟩ := hdeleted.resolve_left (not_not_intro hsize)
    rw [h.deletes.size_eq, List.length_eq_zero_iff] at hnone
    rw [h.deletesPending.size_eq, List.length_eq_zero_iff] at hnone'
    rw [hdel', List.eq_nil_iff_forall_not_mem]
    intro k hk
    rw [hkeys, hnone, hnone'] at hk
    simp at hk
  obtain ⟨hopen, hopen'⟩ := inv_openSets hbase hins hdel
    (hinv.deletesAscending.reopen hinv.deletes hdelSwap) hempty
  refine ⟨hopen, hopen'.trans ?_⟩
  rw [← hvis, visible, hbase', hins', hdel', hsett.insertsPending, hsett.deletesPending]
  simp

end Invariant

end Table

end Beegfs
