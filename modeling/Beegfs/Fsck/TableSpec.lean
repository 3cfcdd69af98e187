import Beegfs.Fsck.FragmentSetSpec
import Beegfs.Fsck.Table

/-!
# The rows of a table

`visible` are the rows of a table if its pending changes were applied now.  Committing applies them,
and a cursor delivers what is visible, in the order of the keys (`Sound.cursor`).  What a single
change does to the visible rows is the subject of `TableRun`.
-/

namespace Beegfs.Table

open Multiset

variable {α κ : Type} [Inhabited α] [Inhabited κ] [LinearOrder κ] {T : TableKind α κ}
  {t : Table α κ}

variable (T) in
/-- The rows of the base and the committed inserts that are not deleted, and the pending inserts. -/
def visible (t : Table α κ) : Multiset α :=
  (t.base.rows : Multiset α).filter
      (fun r => T.pkey r ∉ t.deletes.rows ∧ T.pkey r ∉ t.deletesPending.rows) +
    (t.inserts.rows : Multiset α).filter (fun r => T.pkey r ∉ t.deletesPending.rows) +
    (t.insertsPending.rows : Multiset α)

variable (T) in
/-- The sets of the table are sound, and its buffers fill fragments of their sets. -/
structure Sound (t : Table α κ) : Prop where
  base : t.base.Sound T.data
  inserts : t.inserts.Sound T.data
  deletes : t.deletes.Sound T.keys
  insertsPending : t.insertsPending.Sound T.data
  deletesPending : t.deletesPending.Sound T.keys
  baseBuffer : ∀ current, t.insertBuffer = some ⟨true, current⟩ → t.base.Filled T.data current
  insertBuffer : ∀ current, t.insertBuffer = some ⟨false, current⟩ →
    t.insertsPending.Filled T.data current
  deleteBuffer : ∀ current, t.deleteBuffer = some current → t.deletesPending.Filled T.keys current

/-- The sets of two tables have the same rows. -/
structure SameRows (t t' : Table α κ) : Prop where
  base : t'.base.rows.Perm t.base.rows
  inserts : t'.inserts.rows.Perm t.inserts.rows
  deletes : t'.deletes.rows.Perm t.deletes.rows
  insertsPending : t'.insertsPending.rows.Perm t.insertsPending.rows
  deletesPending : t'.deletesPending.rows.Perm t.deletesPending.rows

omit [LinearOrder κ] in
lemma SameRows.refl (t : Table α κ) : SameRows t t := ⟨.refl _, .refl _, .refl _, .refl _, .refl _⟩

omit [LinearOrder κ] in
lemma SameRows.trans {t t' t'' : Table α κ} (h : SameRows t t') (h' : SameRows t' t'') :
    SameRows t t'' :=
  ⟨h'.base.trans h.base, h'.inserts.trans h.inserts, h'.deletes.trans h.deletes,
    h'.insertsPending.trans h.insertsPending, h'.deletesPending.trans h.deletesPending⟩

lemma SameRows.visible_eq {t' : Table α κ} (h : SameRows t t') : t'.visible T = t.visible T := by
  rw [visible, visible, coe_eq_coe.mpr h.base, coe_eq_coe.mpr h.inserts,
    coe_eq_coe.mpr h.insertsPending]
  simp only [h.deletes.mem_iff, h.deletesPending.mem_iff]

/-! ## Buffers -/

/-- The base set, with what is in a buffer for it. -/
def flushedBase (t : Table α κ) : FragmentSet α κ :=
  match t.insertBuffer with
  | some ⟨true, current⟩ => t.base.bufferFlush current
  | _ => t.base

/-- The pending inserts, with what is in a buffer for them. -/
def flushedInserts (t : Table α κ) : FragmentSet α κ :=
  match t.insertBuffer with
  | some ⟨false, current⟩ => t.insertsPending.bufferFlush current
  | _ => t.insertsPending

/-- The pending deletes, with what is in their buffer. -/
def flushedDeletes (t : Table α κ) : FragmentSet κ κ :=
  match t.deleteBuffer with
  | some current => t.deletesPending.bufferFlush current
  | none => t.deletesPending

omit [Inhabited κ] [LinearOrder κ] in
lemma resetInsertBuffer_eq :
    t.resetInsertBuffer =
      { t with
        base := t.flushedBase, insertsPending := t.flushedInserts, insertBuffer := none } := by
  obtain ⟨_, _, _, _, _, _, _ | ⟨_ | _, _⟩, _, _, _, _⟩ := t
  · rfl
  · rfl
  · rfl

omit [Inhabited α] [LinearOrder κ] in
lemma resetDeleteBuffer_eq :
    t.resetDeleteBuffer = { t with deletesPending := t.flushedDeletes, deleteBuffer := none } := by
  obtain ⟨_, _, _, _, _, _, _, _ | _, _, _, _⟩ := t
  · rfl
  · rfl

lemma Sound.resetInsertBuffer (h : t.Sound T) :
    t.resetInsertBuffer.Sound T ∧ SameRows t t.resetInsertBuffer := by
  rw [Table.resetInsertBuffer]
  split
  · exact ⟨h, .refl t⟩
  · rename_i current hbuf
    obtain ⟨hbase, hrows⟩ := h.base.bufferFlush (h.baseBuffer current hbuf)
    exact ⟨{ h with base := hbase, baseBuffer := nofun, insertBuffer := nofun },
      { SameRows.refl t with base := hrows }⟩
  · rename_i current hbuf
    obtain ⟨hpend, hrows⟩ := h.insertsPending.bufferFlush (h.insertBuffer current hbuf)
    exact ⟨{ h with insertsPending := hpend, baseBuffer := nofun, insertBuffer := nofun },
      { SameRows.refl t with insertsPending := hrows }⟩

lemma Sound.resetDeleteBuffer (h : t.Sound T) :
    t.resetDeleteBuffer.Sound T ∧ SameRows t t.resetDeleteBuffer := by
  rw [Table.resetDeleteBuffer]
  split
  · exact ⟨h, .refl t⟩
  · rename_i current hbuf
    obtain ⟨hpend, hrows⟩ := h.deletesPending.bufferFlush (h.deleteBuffer current hbuf)
    exact ⟨{ h with deletesPending := hpend, deleteBuffer := nofun },
      { SameRows.refl t with deletesPending := hrows }⟩

/-! ## Committing -/

omit [Inhabited α] [Inhabited κ] in
/-- The rows of a list whose key is not deleted, as the join of both finds them. -/
lemma unmatched_eq (rows : List α) (deletes : List κ) :
    ((leftJoin T.pkey id rows deletes).filter fun p => p.2.isNone).map Prod.fst =
      rows.filter fun r => decide (T.pkey r ∉ deletes) := by
  rw [leftJoin_unmatched]
  refine List.filter_congr fun r _ => decide_eq_decide.mpr ⟨fun h hmem => h _ hmem rfl, ?_⟩
  rintro h k hk rfl
  exact h hk

lemma cleanedInserts_eq {inserts : List α} {deletes : List κ} (hinserts : Ascending T.pkey inserts)
    (hdeletes : Ascending id deletes) :
    cleanedInserts T inserts deletes = inserts.filter fun r => decide (T.pkey r ∉ deletes) := by
  have hexact : (Query.leftJoin (.fragment inserts) (.fragment deletes) T.pkey id).Exact :=
    Query.exact_leftJoin_fragment trivial hinserts hdeletes
  rw [cleanedInserts]
  simp only [Query.source_rows hexact]
  exact unmatched_eq inserts deletes

open FragmentSet

omit [Inhabited κ] in
/-- A set with one fragment that the rows were appended to. -/
lemma sound_newFragment_appendAll (K : SetKind α κ) (rows : List α) :
    ((empty.newFragment K).2.modifyFragment (empty.newFragment K).1
        (appendAll K rows)).Sound K ∧
      ((empty.newFragment K).2.modifyFragment (empty.newFragment K).1
        (appendAll K rows)).rows = rows ∧
      ((empty.newFragment K).2.modifyFragment (empty.newFragment K).1
        (appendAll K rows)).EveryFragment (fun l => l = rows) := by
  obtain ⟨hsound, hperm, -⟩ := (sound_empty (K := K)).newFragment
  set new := empty.newFragment K
  have hmem := hperm.mem_iff.mpr List.mem_cons_self
  have hfill := filling_appendAll (SetFragment.filling_empty K.layout K.pkey) rows
  obtain ⟨hmodi, -⟩ := hsound.modifyFragment hmem (appendAll K rows) hfill.sound
  obtain ⟨others, hsplit, hchg, -⟩ := hsound.split hmem
  have hoth : others = [] := by
    have hcons := hsplit.symm.trans hperm
    exact List.Perm.eq_nil ((List.perm_cons _).mp hcons)
  have heq : (new.2.modifyFragment new.1 (appendAll K rows)).openFragments =
      [(new.1, appendAll K rows (.openFile K.layout K.pkey .empty))] := by
    have hsingle := hchg (appendAll K rows)
    rw [hoth] at hsingle
    exact List.perm_singleton.mp hsingle
  have hrows := hfill.sound.rows_eq
  refine ⟨hmodi, ?_, ?_⟩
  · rw [FragmentSet.rows, heq, FragmentSet.rowsOf, List.flatMap_singleton]
    exact hrows
  · exact List.forall_mem_singleton.mpr hrows

/-- Pending deletes are applied to the committed inserts and added to the committed deletes. -/
lemma Sound.collapseDeletes (h : t.Sound T) (hbuf : t.deleteBuffer = none) :
    (t.collapseDeletes T).Sound T ∧ (t.collapseDeletes T).deletesPending.rows = [] ∧
      ((t.collapseDeletes T).inserts.rows : Multiset α) =
        (t.inserts.rows : Multiset α).filter (fun r => T.pkey r ∉ t.deletesPending.rows) ∧
      ∀ k, k ∈ (t.collapseDeletes T).deletes.rows ↔
        k ∈ t.deletes.rows ∨ k ∈ t.deletesPending.rows := by
  rw [Table.collapseDeletes]
  split_ifs with hsize
  · have hnil : t.deletesPending.rows = [] := by
      rw [h.deletesPending.size_eq] at hsize
      exact List.eq_nil_of_length_eq_zero hsize
    refine ⟨h, hnil, ?_, fun k => ?_⟩
    · simp [hnil]
    · simp [hnil]
  · obtain ⟨hinserts, hinsAsc, -, -⟩ := h.inserts.cursor
    obtain ⟨hpend, hpendAsc, hsort, hrows⟩ := h.deletesPending.cursor
    have hclean := cleanedInserts_eq (T := T) hinsAsc hpendAsc
    obtain ⟨htemp, htempRows, -⟩ := sound_newFragment_appendAll T.data
      (cleanedInserts T (t.inserts.cursor T.data).1 (t.deletesPending.cursor T.keys).1)
    obtain ⟨-, -, hnew, hnewRows⟩ := htemp.mergeInto (sound_clear (K := T.data))
    obtain ⟨hempty, hnil, hmerg, hmergRows⟩ := hsort.sound.mergeInto h.deletes
    obtain ⟨huniq, hsub, hall⟩ := hmerg.makeUnique
    refine ⟨{ h with
      inserts := hnew
      deletes := huniq.sound
      deletesPending := hempty
      deleteBuffer := fun _ hcur => nomatch (hbuf.symm.trans hcur) },
      hnil, ?_, fun k => ?_⟩
    · refine (coe_eq_coe.mpr hnewRows).trans ?_
      rw [show (FragmentSet.clear : FragmentSet α κ).rows = [] from rfl, List.append_nil, htempRows,
        hclean, ← coe_eq_coe.mpr hinserts]
      congr 1
      refine List.filter_congr fun r _ => decide_eq_decide.mpr ?_
      rw [hpend.mem_iff]
    · have hkeys : k ∈ (((t.deletesPending.cursor T.keys).2.mergeInto t.deletes).2).rows ↔
          k ∈ t.deletes.rows ∨ k ∈ t.deletesPending.rows := by
        rw [hmergRows.mem_iff, List.mem_append, hrows.mem_iff, or_comm]
      rw [← hkeys]
      refine ⟨hsub k, fun hk => ?_⟩
      obtain ⟨k', hk', heq⟩ := hall k hk
      exact (show k' = k from heq) ▸ hk'

/-- The committed deletes are those from before, or they were sorted, and the committed inserts are
those from before, or they are in one sorted fragment. -/
lemma Sound.fragments_collapseDeletes (h : t.Sound T) :
    ((t.collapseDeletes T).deletes = t.deletes ∨ (t.collapseDeletes T).deletes.IsSorted T.keys) ∧
      ((t.collapseDeletes T).inserts = t.inserts ∨
        (t.collapseDeletes T).inserts.EveryFragment (Ascending T.pkey)) := by
  rw [Table.collapseDeletes]
  split_ifs
  · exact ⟨.inl rfl, .inl rfl⟩
  · obtain ⟨-, hinsAsc, -, -⟩ := h.inserts.cursor
    obtain ⟨-, hpendAsc, hsort, -⟩ := h.deletesPending.cursor
    obtain ⟨-, -, hmerg, -⟩ := hsort.sound.mergeInto h.deletes
    have hclean := cleanedInserts_eq (T := T) hinsAsc hpendAsc
    obtain ⟨-, -, htemp⟩ := sound_newFragment_appendAll T.data
      (cleanedInserts T (t.inserts.cursor T.data).1 (t.deletesPending.cursor T.keys).1)
    refine ⟨.inr hmerg.makeUnique.1,
      .inr (FragmentSet.EveryFragment.mergeInto (fun p hp => ?_) nofun)⟩
    rw [htemp p hp, hclean]
    exact List.Pairwise.filter _ hinsAsc

/-- Collapsing deletes leaves everything else as it is. -/
lemma collapseDeletes_eq (t : Table α κ) :
    t.collapseDeletes T = { t with
      inserts := (t.collapseDeletes T).inserts
      deletes := (t.collapseDeletes T).deletes
      deletesPending := (t.collapseDeletes T).deletesPending } := by
  rw [collapseDeletes]
  split_ifs
  · rfl
  · rfl

/-- Pending inserts are added to the committed ones. -/
lemma Sound.collapseInserts (h : t.Sound T) (hbuf : t.insertBuffer = none) :
    t.collapseInserts.Sound T ∧ t.collapseInserts.insertsPending.rows = [] ∧
      t.collapseInserts.inserts.rows.Perm (t.insertsPending.rows ++ t.inserts.rows) := by
  rw [Table.collapseInserts]
  split_ifs with hsize
  · have hnil : t.insertsPending.rows = [] := by
      rw [h.insertsPending.size_eq] at hsize
      exact List.eq_nil_of_length_eq_zero hsize
    refine ⟨h, hnil, ?_⟩
    rw [hnil]
    exact List.Perm.refl _
  · obtain ⟨hpend, hnil, hinserts, hrows⟩ := h.insertsPending.mergeInto h.inserts
    exact ⟨{ h with
      inserts := hinserts
      insertsPending := hpend
      insertBuffer := fun _ hcur => nomatch (hbuf.symm.trans hcur) }, hnil, hrows⟩

omit [Inhabited α] [Inhabited κ] [LinearOrder κ] in
lemma collapseInserts_eq (t : Table α κ) :
    t.collapseInserts = { t with
      inserts := t.collapseInserts.inserts
      insertsPending := t.collapseInserts.insertsPending } := by
  rw [collapseInserts]
  split_ifs
  · rfl
  · rfl

/-- Nothing is pending, and no buffer is open. -/
structure Settled (t : Table α κ) : Prop where
  insertsPending : t.insertsPending.rows = []
  deletesPending : t.deletesPending.rows = []
  insertBuffer : t.insertBuffer = none
  deleteBuffer : t.deleteBuffer = none
  state : t.modificationState = .none
  intoBase : t.insertsIntoBase = false

/-- The table before its changes are collapsed, with empty buffers. -/
def withoutBuffers (t : Table α κ) : Table α κ :=
  { t.resetDeleteBuffer.resetInsertBuffer with insertsIntoBase := false }

lemma collapseChanges_eq : t.collapseChanges T =
    { (t.withoutBuffers.collapseDeletes T).collapseInserts with modificationState := .none } := rfl

lemma Sound.withoutBuffers (h : t.Sound T) :
    t.withoutBuffers.Sound T ∧ SameRows t t.withoutBuffers := by
  obtain ⟨hdelete, hsame⟩ := h.resetDeleteBuffer
  obtain ⟨hinsert, hsame'⟩ := hdelete.resetInsertBuffer
  exact ⟨{ hinsert with }, { hsame.trans hsame' with }⟩

omit [LinearOrder κ] in
lemma withoutBuffers_eq :
    t.withoutBuffers = { t with
      base := t.flushedBase
      insertsPending := t.flushedInserts
      deletesPending := t.flushedDeletes
      insertBuffer := none
      deleteBuffer := none
      insertsIntoBase := false } := by
  rw [withoutBuffers, resetDeleteBuffer_eq, resetInsertBuffer_eq]
  rfl

/-- What collapsing changes leaves as it is once the buffers are empty. -/
lemma collapseChanges_frame (t : Table α κ) :
    (t.collapseChanges T).base = t.withoutBuffers.base ∧
      (t.collapseChanges T).deletes = (t.withoutBuffers.collapseDeletes T).deletes ∧
      (t.collapseChanges T).bulkInserters = t.bulkInserters := by
  rw [collapseChanges_eq, collapseInserts_eq]
  refine ⟨?_, rfl, ?_⟩
  · rw [collapseDeletes_eq]
  · rw [collapseDeletes_eq, withoutBuffers_eq]

lemma Sound.base_collapseChanges (h : t.Sound T) :
    (t.collapseChanges T).base.rows.Perm t.base.rows := by
  rw [(collapseChanges_frame t).1]
  exact h.withoutBuffers.2.base

lemma Sound.mem_deletes_collapseChanges (h : t.Sound T) (k : κ) :
    k ∈ (t.collapseChanges T).deletes.rows ↔ k ∈ t.deletes.rows ∨ k ∈ t.deletesPending.rows := by
  obtain ⟨hsound, hsame⟩ := h.withoutBuffers
  have hbuf : t.withoutBuffers.deleteBuffer = none := by rw [withoutBuffers_eq]
  rw [(collapseChanges_frame t).2.1, (hsound.collapseDeletes hbuf).2.2.2 k,
    hsame.deletes.mem_iff, hsame.deletesPending.mem_iff]

/-- Collapsing changes leaves the visible rows as they are, and nothing pending. -/
lemma Sound.collapseChanges (h : t.Sound T) :
    (t.collapseChanges T).Sound T ∧ (t.collapseChanges T).Settled ∧
      (t.collapseChanges T).visible T = t.visible T := by
  obtain ⟨husound, hsame⟩ := h.withoutBuffers
  obtain ⟨hinsBuf, hdelBuf, hintoBase⟩ : t.withoutBuffers.insertBuffer = none ∧
      t.withoutBuffers.deleteBuffer = none ∧ t.withoutBuffers.insertsIntoBase = false := by
    rw [withoutBuffers_eq]
    exact ⟨rfl, rfl, rfl⟩
  rw [collapseChanges_eq, ← hsame.visible_eq (T := T)]
  set u := t.withoutBuffers
  obtain ⟨hdel, hpend, hins, hkeys⟩ := husound.collapseDeletes hdelBuf
  have hv := collapseDeletes_eq (T := T) u
  set v := u.collapseDeletes T
  have hbuf : v.insertBuffer = none := (congrArg Table.insertBuffer hv).trans hinsBuf
  obtain ⟨hsound, hnil, hrows⟩ := hdel.collapseInserts hbuf
  have hw := collapseInserts_eq v
  refine ⟨{ hsound with }, ⟨hnil, ?_, ?_, ?_, rfl, ?_⟩, ?_⟩
  · rw [hw]
    exact hpend
  · rw [hw]
    exact hbuf
  · rw [hw, hv]
    exact hdelBuf
  · rw [hw, hv]
    exact hintoBase
  · have hbase : v.collapseInserts.base = u.base := by rw [hw, hv]
    have hdeletes : v.collapseInserts.deletes = v.deletes := by rw [hw]
    have hpend' : v.collapseInserts.deletesPending = v.deletesPending := by rw [hw]
    have hinsPend : v.insertsPending = u.insertsPending := by rw [hv]
    rw [visible, visible, hbase, hdeletes, hpend', hpend, hnil,
      coe_eq_coe.mpr hrows, ← coe_add, hins, hinsPend]
    simp only [hkeys, List.not_mem_nil, not_false_eq_true, and_true, not_or, filter_true,
      coe_nil, add_zero]
    rw [add_comm (u.insertsPending.rows : Multiset α), add_assoc]

/-- Sorting the sets of a table of which nothing is pending. -/
lemma Sound.sortSets {u : Table α κ} (h : t.Sound T) (hsett : t.Settled) (hu : u = { t with
      base := t.base.sort T.data
      inserts := t.inserts.sort T.data
      deletes := t.deletes.sort T.keys }) :
    u.Sound T ∧ u.Settled ∧ SameRows t u := by
  obtain ⟨hbase, hbaseRows⟩ := h.base.sort
  obtain ⟨hinserts, hinsRows⟩ := h.inserts.sort
  obtain ⟨hdeletes, hdelRows⟩ := h.deletes.sort
  subst hu
  exact ⟨{ h with
    base := hbase.sound
    inserts := hinserts.sound
    deletes := hdeletes.sound
    baseBuffer := fun _ hcur => nomatch (hsett.insertBuffer.symm.trans hcur) },
    { hsett with }, ⟨hbaseRows, hinsRows, hdelRows, .refl _, .refl _⟩⟩

/-- Committing leaves the visible rows as they are, and nothing pending. -/
lemma Sound.commitChanges (h : t.Sound T) :
    (t.commitChanges T).Sound T ∧ (t.commitChanges T).Settled ∧
      (t.commitChanges T).visible T = t.visible T := by
  obtain ⟨hsound, hsett, hvis⟩ := h.collapseChanges
  obtain ⟨hsnd', hsett', hsame⟩ := hsound.sortSets hsett (u := t.commitChanges T) rfl
  exact ⟨hsnd', hsett', hsame.visible_eq.trans hvis⟩

/-! ## Reading -/

lemma query_exact {base inserts : List α} {deletes : List κ} (hbase : Ascending T.pkey base)
    (hdeletes : Ascending id deletes) : (query T base deletes inserts).Exact :=
  ⟨Query.exact_leftJoin_fragment (show (Query.fragment base).Exact from trivial) hbase hdeletes,
    trivial⟩

/-- A cursor delivers the visible rows in the order of their keys, if nothing is pending. -/
lemma Sound.cursor (h : t.Sound T) (hsett : t.Settled) :
    ((t.cursor T).1 : Multiset α) = t.visible T ∧ Ascending T.pkey (t.cursor T).1 ∧
      (t.cursor T).2.Sound T ∧ (t.cursor T).2.Settled ∧ SameRows t (t.cursor T).2 := by
  obtain ⟨hbase, hbaseAsc, hbaseSort, hbaseRows⟩ := h.base.cursor
  obtain ⟨hinserts, hinsAsc, hinsSort, hinsRows⟩ := h.inserts.cursor
  obtain ⟨hdeletes, hdelAsc, hdelSort, hdelRows⟩ := h.deletes.cursor
  have hrows : (t.cursor T).1 = mergeRows T.pkey
      ((t.base.cursor T.data).1.filter fun r => decide (T.pkey r ∉ (t.deletes.cursor T.keys).1))
      (t.inserts.cursor T.data).1 := by
    rw [Table.cursor]
    rw [Query.source_rows (query_exact hbaseAsc hdelAsc), ← unmatched_eq]
    rfl
  refine ⟨?_, ?_, { h with
    base := hbaseSort.sound
    inserts := hinsSort.sound
    deletes := hdelSort.sound
    baseBuffer := fun _ hcur => nomatch (hsett.insertBuffer.symm.trans hcur) },
    { hsett with }, ⟨hbaseRows, hinsRows, hdelRows, .refl _, .refl _⟩⟩
  · rw [hrows, coe_eq_coe.mpr mergeRows_perm, ← coe_add, ← filter_coe,
      coe_eq_coe.mpr hbase, coe_eq_coe.mpr hinserts, visible,
      hsett.insertsPending, hsett.deletesPending]
    simp [hdeletes.mem_iff]
  · rw [hrows]
    exact ascending_mergeRows (List.Pairwise.filter _ hbaseAsc) hinsAsc

end Beegfs.Table
