import Beegfs.Fsck.TableSpec

/-!
# Contents of the database

The checks of fsck are queries on tables to which all changes were committed.  What such a table has
is three sorted lists (`Contents`), and every table leads to one of them (`Contents.ofTable`).  The
rows whose IDs are in the modification events are left out by all checks (`ignoreByID`).
-/

namespace Beegfs

open List List.Pairwise

/-! ## Groups -/

section Groups

variable {α ρ κ π γ : Type} [DecidableEq κ]

/-- The groups of rows that come from rows of different keys. -/
lemma GroupOps.rows_flatMap (ops : GroupOps ρ κ π γ) {g : α → List ρ} {k : α → κ} {p : α → π}
    {l : List α} (hne : l.Pairwise fun a a' => k a ≠ k a') (hg : ∀ a ∈ l, g a ≠ [])
    (hkey : ∀ a ∈ l, ∀ r ∈ g a, ops.key r = k a) (hproj : ∀ a ∈ l, ∀ r ∈ g a, ops.project r = p a) :
    ops.rows (l.flatMap g) = l.map fun a =>
      (p a, (ops.finish ((g a).foldl (fun acc r => ops.step r acc) ops.init)).1) := by
  induction l with
  | nil => rfl
  | cons a l ih =>
    have hrest := ih (of_cons hne) (fun a' ha' => hg a' (mem_cons_of_mem _ ha'))
      (fun a' ha' => hkey a' (mem_cons_of_mem _ ha'))
      fun a' ha' => hproj a' (mem_cons_of_mem _ ha')
    obtain ⟨r, rs, hrow⟩ := exists_cons_of_ne_nil (hg a mem_cons_self)
    have hkeyRow := hkey a mem_cons_self
    have hprojRow := hproj a mem_cons_self
    rw [hrow] at hkeyRow hprojRow
    have hr : ops.key r = k a := hkeyRow r mem_cons_self
    have hsame : ∀ b ∈ rs, decide (ops.key b = ops.key r) = true := by
      intro b hb
      rw [decide_eq_true_eq, hr]
      exact hkeyRow b (mem_cons_of_mem _ hb)
    have hother : ∀ b ∈ l.flatMap g, ¬decide (ops.key b = ops.key r) = true := by
      intro b hb heq
      obtain ⟨a', ha', hb'⟩ := mem_flatMap.mp hb
      have hb'' := hkey a' (mem_cons_of_mem _ ha') b hb'
      exact rel_of_pairwise_cons hne ha' (hr.symm.trans ((of_decide_eq_true heq).symm.trans hb''))
    have htake : (l.flatMap g).takeWhile (fun b => decide (ops.key b = ops.key r)) = [] ∧
        (l.flatMap g).dropWhile (fun b => decide (ops.key b = ops.key r)) = l.flatMap g := by
      cases hrows : l.flatMap g with
      | nil => exact ⟨rfl, rfl⟩
      | cons b bs =>
        have hb := hother b (hrows ▸ mem_cons_self)
        exact ⟨takeWhile_cons_of_neg hb, dropWhile_cons_of_neg hb⟩
    rw [flatMap_cons, hrow, cons_append, GroupOps.rows_cons, takeWhile_append_of_pos hsame,
      dropWhile_append_of_pos hsame, htake.1, htake.2, hrest, append_nil, map_cons, hrow]
    rw [GroupOps.row, hprojRow r mem_cons_self]

end Groups

namespace Db

/-! ## IDs -/

/-- The ID of an entry.  The IDs of node 0 are those of four special directories. -/
structure EntryID where
  sequence : ℕ
  timestamp : ℕ
  nodeID : ℕ
  special : nodeID = 0 → timestamp = 0 ∧ sequence ≤ 3

namespace EntryID

/-- The ID of a file on node 1. -/
def onNodeOne : EntryID := ⟨1, 1, 1, nofun⟩

/-- The IDs are in the order of their three numbers. -/
instance : LinearOrder EntryID :=
  LinearOrder.lift' (fun id => toLex (id.sequence, toLex (id.timestamp, id.nodeID))) (by
    rintro ⟨s, t, n, _⟩ ⟨s', t', n', _⟩ h
    obtain ⟨rfl, h⟩ := Prod.mk.inj (toLex.injective h)
    obtain ⟨rfl, rfl⟩ := Prod.mk.inj (toLex.injective h)
    rfl)

def anchor : EntryID := ⟨0, 0, 0, by decide⟩

def root : EntryID := ⟨1, 0, 0, by decide⟩

def disposal : EntryID := ⟨2, 0, 0, by decide⟩

def mdisposal : EntryID := ⟨3, 0, 0, by decide⟩

instance : Inhabited EntryID := ⟨anchor⟩

def isSpecial (id : EntryID) : Bool := id.nodeID == 0

def isDisposalDir (id : EntryID) : Bool := id = disposal || id = mdisposal

/-- A number in hexadecimal digits, as by `%X`. -/
def hex (n : ℕ) : String := (String.ofList (Nat.toDigits 16 n)).toUpper

def str (id : EntryID) : String :=
  if id.isSpecial then
    if id = anchor then ""
    else if id = root then "root"
    else if id = disposal then "disposal"
    else "mdisposal"
  else hex id.sequence ++ "-" ++ hex id.timestamp ++ "-" ++ hex id.nodeID

end EntryID

/-! ## Tables -/

/-- What a table has after its changes were committed: rows in the base, keys of base rows that were
deleted, and rows that were inserted since. -/
structure Contents {α κ : Type} [LinearOrder κ] (pkey : α → κ) where
  base : List α
  deletes : List κ
  inserts : List α
  base_ascending : Ascending pkey base
  deletes_ascending : Ascending id deletes
  inserts_ascending : Ascending pkey inserts

namespace Contents

variable {α κ : Type} [Inhabited α] [Inhabited κ] [LinearOrder κ] {pkey : α → κ} (c : Contents pkey)

/-- The query of a cursor on the table. -/
def query : Query α :=
  (((Query.leftJoin (.fragment c.base) (.fragment c.deletes) pkey id).filter
    fun p => p.2.isNone).select Prod.fst).union (.fragment c.inserts) pkey

/-- The rows of the table. -/
def rows : List α := c.query.rows

lemma query_exact : c.query.Exact :=
  ⟨Query.exact_leftJoin_fragment (show (Query.fragment c.base).Exact from trivial) c.base_ascending
    c.deletes_ascending, trivial⟩

lemma rows_eq : c.rows =
    mergeRows pkey (c.base.filter fun r => decide (∀ k ∈ c.deletes, k ≠ pkey r)) c.inserts := by
  rw [← leftJoin_unmatched]
  rfl

/-- A table that was never changed after its base was complete. -/
def ofBase (rows : List α) (h : Ascending pkey rows) : Contents pkey where
  base := rows
  deletes := []
  inserts := []
  base_ascending := h
  deletes_ascending := nil
  inserts_ascending := nil

lemma rows_ofBase {rows : List α} (h : Ascending pkey rows) : (ofBase rows h).rows = rows := by
  have hbase : (ofBase rows h).base = rows := rfl
  have hdel : (ofBase rows h).deletes = [] := rfl
  have hins : (ofBase rows h).inserts = [] := rfl
  rw [rows_eq, hbase, hdel, hins]
  simp

lemma ascending_rows : Ascending pkey c.rows := by
  rw [rows_eq]
  exact ascending_mergeRows (filter _ c.base_ascending) c.inserts_ascending

/-- A cursor that was moved never shows anything but rows of the table. -/
lemma mem_of_mem_ghosts {r : α} (hr : r ∈ c.query.ghosts) : r ∈ c.query.rows := by
  refine mem_mergeRows.mpr ?_
  rcases mem_append.mp hr with hleft | hright
  · rcases mem_append.mp hleft with hrow | hshown
    · exact .inl hrow
    · exact .inl (mem_of_getLast? (Option.mem_toList.mp hshown))
  · rcases mem_append.mp hright with hrow | hshown
    · exact .inr hrow
    · exact .inr (mem_of_getLast? (Option.mem_toList.mp hshown))

/-- The contents of a table to which all changes were committed. -/
def ofTable {T : TableKind α κ} {t : Table α κ} (h : t.Sound T) : Contents T.pkey where
  base := (t.base.cursor T.data).1
  deletes := (t.deletes.cursor T.keys).1
  inserts := (t.inserts.cursor T.data).1
  base_ascending := h.base.cursor.2.1
  deletes_ascending := h.deletes.cursor.2.1
  inserts_ascending := h.inserts.cursor.2.1

/-- The rows of the contents are those that the calls have left in the table. -/
lemma coe_rows_ofTable {T : TableKind α κ} {t : Table α κ} (h : t.Sound T) (hsett : t.Settled) :
    (t.cursor T).1 = (ofTable h).query.source.rows ∧
      ((ofTable h).rows : Multiset α) = t.visible T := by
  have hcursor : (t.cursor T).1 = (ofTable h).query.source.rows := rfl
  refine ⟨hcursor, ?_⟩
  rw [rows, ← Query.source_rows (query_exact _)]
  exact (h.cursor hsett).1

end Contents

/-! ## Modification events -/

structure ModificationEvent where
  id : EntryID
deriving DecidableEq, Inhabited

/-- The modification events, which are a set. -/
structure EventSet where
  events : List ModificationEvent
  ascending : Ascending ModificationEvent.id events

namespace EventSet

def empty : EventSet := ⟨[], nil⟩

/-- The ID is one of an event. -/
def Modified (m : EventSet) (id : EntryID) : Prop := ∃ e ∈ m.events, e.id = id
  deriving Decidable

end EventSet

section IgnoreByID

variable {α : Type} (q : Query α) (objectID : α → EntryID) (m : EventSet)

/-- The rows of a source whose IDs are in no event. -/
def ignoreByID : Query α :=
  ((q.leftJoin (.fragment m.events) objectID ModificationEvent.id).filter
    fun p => p.2.isNone).select Prod.fst

variable {q objectID}

lemma ignoreByID_exact (h : q.Exact) (hq : Ascending objectID q.rows) :
    (ignoreByID q objectID m).Exact := Query.exact_leftJoin_fragment h hq m.ascending

variable (q objectID) in
lemma ignoreByID_rows :
    (ignoreByID q objectID m).rows = q.rows.filter fun r => decide (¬m.Modified (objectID r)) := by
  refine (leftJoin_unmatched q.rows m.events).trans (filter_congr fun r _ => ?_)
  simp [EventSet.Modified]

end IgnoreByID

end Db

end Beegfs
