import Beegfs.Fsck.FragmentSort
import Beegfs.Fsck.LeftJoin

/-!
# Sets of fragments

A set is a number of fragments that are filled one after the other.  Before it is read, its
fragments are sorted and merged, four at a time and the smallest ones first, until one is left.
This file models `Set` and the `Buffer` through which a set is filled, and says of each function
what it does to the rows of the set, of which only those of different keys have an order.
-/

namespace Beegfs

/-- What a set is made for: the size of its rows, their keys, and how they are sorted. -/
structure SetKind (α κ : Type) [LinearOrder κ] where
  layout : ItemLayout
  pkey : α → κ
  sorter : StdSort pkey

/-- The fragments of a set by their numbers, in the order of their names. -/
structure FragmentSet (α κ : Type) where
  nextID : ℕ
  openFragments : List (ℕ × SetFragment α κ)

namespace FragmentSet

variable {α κ : Type} [Inhabited α] [LinearOrder κ] (K : SetKind α κ)

/-! ## The functions of the source -/

variable (id : ℕ)

/-- The name of a fragment without the name of the set: its number with at least five digits. -/
def fragmentName : List Char := (Nat.toDigits 10 id).leftpad 5 '0'

/-- A set that was just created. -/
def empty : FragmentSet α κ := ⟨0, []⟩

variable (s : FragmentSet α κ)

/-- Puts a fragment into the map of the open ones. -/
def addFragment (fragment : SetFragment α κ) : FragmentSet α κ :=
  { s with
    openFragments := s.openFragments.orderedInsert
      (fun p q => (fragmentName p.1).lex (fragmentName q.1) (fun a b => decide (a < b)) = true)
      (id, fragment) }

/-- Changes the fragment of a number. -/
def modifyFragment (change : SetFragment α κ → SetFragment α κ) : FragmentSet α κ :=
  { s with openFragments := s.openFragments.map fun p => if p.1 = id then (p.1, change p.2) else p }

def getFragment : FragmentSet α κ :=
  if s.openFragments.any fun p => p.1 == id then s
  else s.addFragment id (.openFile K.layout K.pkey .empty)

def acceptFragment (foreign : SetFragment α κ) : FragmentSet α κ :=
  { s with nextID := s.nextID + 1 }.addFragment s.nextID foreign

def removeFragment : FragmentSet α κ :=
  { s with openFragments := s.openFragments.filter fun p => p.1 != id }

def size : ℕ := (s.openFragments.map fun p => p.2.size).sum

def newFragment : ℕ × FragmentSet α κ :=
  (s.nextID, { s with nextID := s.nextID + 1 }.getFragment K s.nextID)

/-- Appends rows one after the other. -/
def appendAll (rows : List α) (fragment : SetFragment α κ) : SetFragment α κ :=
  rows.foldl (SetFragment.append K.layout K.pkey) fragment

/-- What the union of the cursors of up to four fragments delivers.  The source throws if there are
others. -/
def mergedRows : List (List α) → List α
  | [a, b] => ((Query.fragment a).union (.fragment b) K.pkey).source.rows
  | [a, b, c] =>
    (((Query.fragment a).union (.fragment b) K.pkey).union (.fragment c) K.pkey).source.rows
  | [a, b, c, d] =>
    (((Query.fragment a).union (.fragment b) K.pkey).union
      ((Query.fragment c).union (.fragment d) K.pkey) K.pkey).source.rows
  | _ => []

/-- The fragment that some fragments are merged into. -/
def mergeFragments (inputs : List (ℕ × SetFragment α κ)) : SetFragment α κ :=
  let rows := mergedRows K (inputs.map fun p => (p.2.readAll K.layout).1)
  (appendAll K rows (.openFile K.layout K.pkey .empty)).flush

/-- Inserts into the fragments by size, behind those of the same size. -/
def insertBySize (p : ℕ × SetFragment α κ) :
    List (ℕ × SetFragment α κ) → List (ℕ × SetFragment α κ)
  | [] => [p]
  | q :: rest => if p.2.size < q.2.size then p :: q :: rest else q :: insertBySize p rest

/-- The loop of `sort`, from the next number and the fragments by size. -/
def mergeLoop :
    ℕ → ℕ → List (ℕ × SetFragment α κ) → ℕ × List (ℕ × SetFragment α κ)
  | 0, nextID, fragments => (nextID, fragments)
  | fuel + 1, nextID, fragments =>
    if fragments.length ≤ 1 then (nextID, fragments)
    else
      mergeLoop fuel (nextID + 1)
        (insertBySize (nextID, mergeFragments K (fragments.take 4)) (fragments.drop 4))

/-- Sorts all fragments and merges them.  The fragments by size are always all fragments. -/
def sort : FragmentSet α κ :=
  let s := if s.openFragments.isEmpty then (s.newFragment K).2 else s
  let flushed := s.openFragments.map fun p => (p.1, p.2.flush)
  let sorted := flushed.map fun p => (p.1, p.2.sort K.sorter.sort)
  if sorted.length = 1 then { s with openFragments := sorted }
  else
    let bySize := sorted.foldl (fun fragments p => insertBySize p fragments) []
    let merged := mergeLoop K bySize.length s.nextID bySize
    ⟨merged.1, merged.2⟩

/-- What a cursor on the set delivers, and the set after it was read. -/
def cursor : List α × FragmentSet α κ :=
  let s := s.sort K
  match s.openFragments with
  | [] => ([], s)
  | (id, fragment) :: rest =>
    let read := fragment.readAll K.layout
    (read.1, { s with openFragments := (id, read.2) :: rest })

def clear : FragmentSet α κ := ⟨0, []⟩

/-- Moves all fragments to another set. -/
def mergeInto (s other : FragmentSet α κ) : FragmentSet α κ × FragmentSet α κ :=
  ({ s with openFragments := [] }, s.openFragments.foldl (fun o p => o.acceptFragment p.2) other)

/-- The rows whose key is not that of the last one that was kept. -/
def uniqueFrom (key : κ) : List α → List α
  | [] => []
  | r :: rest => if key = K.pkey r then uniqueFrom key rest else r :: uniqueFrom (K.pkey r) rest

/-- The second part of `makeUnique`: the rows of `input` are copied without repeated keys. -/
def copyUnique (input : ℕ) : List α → FragmentSet α κ
  | [] => s
  | first :: rest =>
    let new := s.newFragment K
    let unique := first :: uniqueFrom K (K.pkey first) rest
    (new.2.modifyFragment new.1 fun f => (appendAll K unique f).flush).removeFragment input

def makeUnique : FragmentSet α κ :=
  let s := s.sort K
  match s.openFragments with
  | [] => s
  | (input, fragment) :: others =>
    let read := fragment.readAll K.layout
    { s with openFragments := (input, read.2) :: others }.copyUnique K input read.1

/-- The set that is opened again after it was closed. -/
def reopen : FragmentSet α κ :=
  { s with
    openFragments := s.openFragments.map fun p => (p.1, .openFile K.layout K.pkey p.2.close) }

/-! ## Buffers

A `Buffer` fills a set: it has the number of the fragment that it fills, if there is one. -/

/-- The size of the fragment of a number. -/
def fragmentSize : ℕ := ((s.openFragments.filter fun p => p.1 == id).map fun p => p.2.size).sum

/-- `Buffer::flush`, which is also what its destructor does. -/
def bufferFlush : Option ℕ → FragmentSet α κ
  | none => s
  | some id => s.modifyFragment id SetFragment.flush

/-- The fragment that a buffer fills, which is a new one if there is none. -/
def bufferFragment : Option ℕ → ℕ × FragmentSet α κ
  | some id => (id, s)
  | none => s.newFragment K

/-- `Buffer::append`.  A fragment of `limit` bytes is full. -/
def bufferAppend (limit : ℕ) (s : FragmentSet α κ) (currentFragment : Option ℕ) (data : α) :
    FragmentSet α κ × Option ℕ :=
  let current := s.bufferFragment K currentFragment
  let s := current.2.modifyFragment current.1 fun f => f.append K.layout K.pkey data
  if limit ≤ s.fragmentSize current.1 * K.layout.itemSize then
    (s.bufferFlush (some current.1), none)
  else (s, some current.1)

end FragmentSet

end Beegfs
