import Beegfs.Fsck.FragmentSet

/-!
# Tables

A table keeps its rows in a base set and collects changes in further sets: rows that were inserted
and keys that were deleted, each in one set for what was committed and one for what is pending.
What is pending is applied at once, the deletes before the inserts, so that a table has to refuse
changes for which this is not what applying them one after the other does.  It does so with a state
for what the pending changes are like, and the key of the last one.  This file models `Table`.
-/

namespace Beegfs

/-- What a table is made for. -/
structure TableKind (α κ : Type) [LinearOrder κ] where
  data : SetKind α κ
  keyLayout : ItemLayout
  keySorter : StdSort (id : κ → κ)
  /-- The size of a fragment that is full. -/
  fragmentSize : ℕ
  allowDuplicateKeys : Bool

namespace TableKind

variable {α κ : Type} [LinearOrder κ]

/-- The sets of keys. -/
def keys (T : TableKind α κ) : SetKind κ κ := ⟨T.keyLayout, id, T.keySorter⟩

/-- The key of a row. -/
def pkey (T : TableKind α κ) : α → κ := T.data.pkey

/-- A table of numbers that are their own keys, in fragments of 128 rows. -/
def numbers (allowDuplicateKeys : Bool) : TableKind ℕ ℕ where
  data := ⟨SetFragment.History.wordLayout, id, .insertion id⟩
  keyLayout := SetFragment.History.wordLayout
  keySorter := .insertion id
  fragmentSize := 1024
  allowDuplicateKeys := allowDuplicateKeys

end TableKind

/-- What the pending changes are like. -/
inductive ModificationState
  | none
  | orderedOnlyInsert
  | orderedOnlyDelete
  | orderedAtInsert
  | orderedAtDelete
  | unorderedInsert
  | unorderedDelete
  | bulkInsert
deriving DecidableEq

/-- The buffer for inserts: which set it fills, and the fragment there. -/
structure InsertBuffer where
  intoBase : Bool
  currentFragment : Option ℕ

structure Table (α κ : Type) where
  base : FragmentSet α κ
  inserts : FragmentSet α κ
  deletes : FragmentSet κ κ
  lastChangeKey : κ
  insertsPending : FragmentSet α κ
  deletesPending : FragmentSet κ κ
  insertBuffer : Option InsertBuffer
  deleteBuffer : Option (Option ℕ)
  modificationState : ModificationState
  insertsIntoBase : Bool
  /-- The buffers that were given out for bulk inserts: none if it is gone. -/
  bulkInserters : List (Option (Option ℕ))

namespace Table

variable {α κ : Type} [Inhabited α] [Inhabited κ] [LinearOrder κ] (T : TableKind α κ)

/-! ## Buffers -/

variable (t : Table α κ)

/-- `insertBuffer.reset()` -/
def resetInsertBuffer : Table α κ :=
  match t.insertBuffer with
  | none => t
  | some ⟨true, current⟩ => { t with base := t.base.bufferFlush current, insertBuffer := none }
  | some ⟨false, current⟩ =>
    { t with insertsPending := t.insertsPending.bufferFlush current, insertBuffer := none }

/-- `deleteBuffer.reset()` -/
def resetDeleteBuffer : Table α κ :=
  match t.deleteBuffer with
  | none => t
  | some current =>
    { t with deletesPending := t.deletesPending.bufferFlush current, deleteBuffer := none }

def setupBaseBuffer : Table α κ :=
  { t with insertBuffer := some ⟨true, none⟩, insertsIntoBase := true }

/-- `insertBuffer->append(data)`, with a new buffer for the pending inserts if there is none. -/
def appendInsert (data : α) : Table α κ :=
  match t.insertBuffer.getD ⟨false, none⟩ with
  | ⟨true, current⟩ =>
    let new := t.base.bufferAppend T.data T.fragmentSize current data
    { t with base := new.1, insertBuffer := some ⟨true, new.2⟩ }
  | ⟨false, current⟩ =>
    let new := t.insertsPending.bufferAppend T.data T.fragmentSize current data
    { t with insertsPending := new.1, insertBuffer := some ⟨false, new.2⟩ }

/-- `deleteBuffer->append(key)`, with a new buffer if there is none. -/
def appendDelete (key : κ) : Table α κ :=
  let new := t.deletesPending.bufferAppend T.keys T.fragmentSize (t.deleteBuffer.getD none) key
  { t with deletesPending := new.1, deleteBuffer := some new.2 }

/-! ## Committing -/

/-- The committed inserts without those whose key was deleted since. -/
def cleanedInserts (inserts : List α) (deletes : List κ) : List α :=
  let joined := (Query.leftJoin (.fragment inserts) (.fragment deletes) T.pkey id).source.rows
  (joined.filter fun p => p.2.isNone).map Prod.fst

/-- The part of `collapseChanges` that applies the pending deletes. -/
def collapseDeletes : Table α κ :=
  if t.deletesPending.size = 0 then t
  else
    let inserts := t.inserts.cursor T.data
    let deletesPending := t.deletesPending.cursor T.keys
    let new := (FragmentSet.empty : FragmentSet α κ).newFragment T.data
    let insertsTemp := new.2.modifyFragment new.1
      (FragmentSet.appendAll T.data (cleanedInserts T inserts.1 deletesPending.1))
    let merged := deletesPending.2.mergeInto t.deletes
    { t with
      inserts := (insertsTemp.mergeInto FragmentSet.clear).2
      deletesPending := merged.1
      deletes := merged.2.makeUnique T.keys }

/-- The part of `collapseChanges` that applies the pending inserts. -/
def collapseInserts : Table α κ :=
  if t.insertsPending.size = 0 then t
  else
    let merged := t.insertsPending.mergeInto t.inserts
    { t with insertsPending := merged.1, inserts := merged.2 }

def collapseChanges : Table α κ :=
  let t := { t.resetDeleteBuffer.resetInsertBuffer with insertsIntoBase := false }
  { (t.collapseDeletes T).collapseInserts with modificationState := .none }

def commitChanges : Table α κ :=
  let t := t.collapseChanges T
  { t with
    base := t.base.sort T.data
    inserts := t.inserts.sort T.data
    deletes := t.deletes.sort T.keys }

/-! ## Changes -/

/-- `assertNoBulkInsert` -/
def assertNoBulkInsert : Except String (Table α κ) :=
  if t.bulkInserters.any Option.isSome then .error "bulk insert still running"
  else .ok { t with bulkInserters := [] }

/-- The state after a row of a key is inserted. -/
def stateAfterInsert (last key : κ) : ModificationState → Except String ModificationState
  | .bulkInsert | .none => .ok .orderedOnlyInsert
  | .orderedOnlyInsert => .ok (if key ≤ last then .unorderedInsert else .orderedOnlyInsert)
  | .unorderedDelete => .error "unordered operation"
  | .unorderedInsert => .ok .unorderedInsert
  | .orderedAtDelete | .orderedOnlyDelete =>
    if last ≤ key then .ok .orderedAtInsert else .error "unordered operation"
  | .orderedAtInsert =>
    if last < key ∨ T.allowDuplicateKeys = false ∧ last = key then .error "unordered operation"
    else .ok .orderedAtInsert

/-- The state after a key is removed. -/
def stateAfterRemove (last key : κ) : ModificationState → Except String ModificationState
  | .none | .bulkInsert => .ok .orderedOnlyDelete
  | .orderedOnlyDelete => .ok (if key ≤ last then .unorderedDelete else .orderedOnlyDelete)
  | .unorderedDelete => .ok .unorderedDelete
  | .unorderedInsert => .error "unordered operation"
  | .orderedAtDelete | .orderedAtInsert | .orderedOnlyInsert =>
    if key ≤ last then .error "unordered operation" else .ok .orderedAtDelete

def insert (data : α) : Except String (Table α κ) := do
  let t ← if t.modificationState = .bulkInsert then t.assertNoBulkInsert else .ok t
  let state ← stateAfterInsert T t.lastChangeKey (T.pkey data) t.modificationState
  return { t with modificationState := state, lastChangeKey := T.pkey data }.appendInsert T data

/-- The part of `remove` that completes the base set. -/
def completeBase : Table α κ :=
  if t.insertsIntoBase then
    { t.resetInsertBuffer with insertsIntoBase := false, modificationState := .none }
  else t

def remove (key : κ) : Except String (Table α κ) := do
  let t ← if t.modificationState = .bulkInsert then t.assertNoBulkInsert else .ok t
  let t := t.completeBase
  let state ← stateAfterRemove t.lastChangeKey key t.modificationState
  return { t with modificationState := state, lastChangeKey := key }.appendDelete T key

/-! ## Opening, closing and reading -/

/-- A table with the given committed sets that was just opened. -/
def openSets (base inserts : FragmentSet α κ) (deletes : FragmentSet κ κ) : Table α κ :=
  let t : Table α κ :=
    { base, inserts, deletes
      lastChangeKey := default
      insertsPending := .empty
      deletesPending := .empty
      insertBuffer := none
      deleteBuffer := none
      modificationState := .none
      insertsIntoBase := false
      bulkInserters := [] }
  if t.base.size = 0 then t.setupBaseBuffer else t

/-- A new table. -/
def new : Table α κ := openSets .empty .empty .empty

/-- The table that is opened again after it was closed. -/
def reopen : Table α κ :=
  let t := t.collapseChanges T
  openSets (t.base.reopen T.data) (t.inserts.reopen T.data) (t.deletes.reopen T.keys)

def clear : Table α κ :=
  { t.resetInsertBuffer.resetDeleteBuffer with
    base := .clear
    inserts := .clear
    deletes := .clear
    insertsPending := .clear
    deletesPending := .clear }.setupBaseBuffer

/-- The query of a cursor on sets that deliver the given rows. -/
def query (base : List α) (deletes : List κ) (inserts : List α) : Query α :=
  (((Query.leftJoin (.fragment base) (.fragment deletes) T.pkey id).filter
    fun p => p.2.isNone).select Prod.fst).union (.fragment inserts) T.pkey

/-- What a cursor on the table delivers, and the table after it was read. -/
def cursor : List α × Table α κ :=
  let base := t.base.cursor T.data
  let deletes := t.deletes.cursor T.keys
  let inserts := t.inserts.cursor T.data
  ((query T base.1 deletes.1 inserts.1).source.rows,
    { t with base := base.2, deletes := deletes.2, inserts := inserts.2 })

end Table

end Beegfs
