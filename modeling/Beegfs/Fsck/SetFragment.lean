import Beegfs.Lib.KeyedRows
import Beegfs.Lib.Run

/-!
# Fragments of a set

A fragment is a file of items of one size behind a config area, and a buffer of items that serves
both for the items that were appended last and as a window on items that were read.  This file
models `SetFragment` with the contents of its file as the list of the items there, and states what
it is for: a list that is only appended to (`Holds`).

The buffer is cleared when items of it are written, but not when it is only a window.  An item that
is appended behind a window that ends before the last item therefore lands in the wrong place, and
`isList_of_appendsSafely` shows that nothing else can go wrong.
-/

namespace Beegfs

open List

/-- The size of an item and that of the buffer, `BUFFER_SIZE`, which has room for two items. -/
structure ItemLayout where
  itemSize : ℕ
  bufferSize : ℕ
  itemSize_pos : 0 < itemSize
  two_items_le : 2 * itemSize ≤ bufferSize

namespace ItemLayout

/-- How many items the buffer has room for. -/
def capacity (lay : ItemLayout) : ℕ := lay.bufferSize / lay.itemSize

lemma two_le_capacity (lay : ItemLayout) : 2 ≤ lay.capacity :=
  (Nat.le_div_iff_mul_le lay.itemSize_pos).mpr lay.two_items_le

end ItemLayout

/-- The file of a fragment: the flag in the config area, if it was written, and the items. -/
structure FragmentFile (α : Type) where
  config : Option Bool
  items : List α
deriving DecidableEq

namespace FragmentFile

variable {α : Type}

/-- A file that was just created. -/
def empty : FragmentFile α := ⟨none, []⟩

variable (file : FragmentFile α)

def readBlock (count start : ℕ) : List α := (file.items.drop start).take count

/-- Writes items from item `start` on.  What was never written reads as zeroes. -/
def writeBlock [Inhabited α] (source : List α) (start : ℕ) : FragmentFile α :=
  { file with
    items := file.items.take start ++ List.replicate (start - file.items.length) default ++
      source ++ file.items.drop (start + source.length) }

/-- Writing behind the last item appends. -/
lemma writeBlock_length [Inhabited α] (source : List α) :
    file.writeBlock source file.items.length = { file with items := file.items ++ source } := by
  simp [writeBlock]

end FragmentFile

/-- An open fragment.  The items from `firstDirtyItem` to `lastDirtyItem` are in the buffer only. -/
structure SetFragment (α κ : Type) where
  file : FragmentFile α
  itemCount : ℕ
  sorted : Bool
  buffer : List α
  firstBufferedItem : ℕ
  firstDirtyItem : Option ℕ
  lastDirtyItem : ℕ
  lastItemKey : κ
deriving DecidableEq

namespace SetFragment

variable {α κ κ' : Type} [Inhabited α] (lay : ItemLayout) (pkey : α → κ)

/-! ## The functions of the source -/

section Functions

variable [LinearOrder κ] [LinearOrder κ'] (s : SetFragment α κ)

def size : ℕ := s.itemCount

/-- Writes the items that are in the buffer only. -/
def flushBuffer : SetFragment α κ :=
  match s.firstDirtyItem with
  | none => s
  | some first =>
    let source := (s.buffer.drop (first - s.firstBufferedItem)).take (s.lastDirtyItem - first + 1)
    { s with file := s.file.writeBlock source first, buffer := [], firstDirtyItem := none }

/-- How many items a window is asked for.  The source calls the end of a window without end `-1`. -/
def windowSize (first : ℕ) : Option ℕ → ℕ
  | none => lay.capacity
  | some last => min (last - first + 1) lay.capacity

/-- Reads a window of items into the buffer. -/
def bufferFileRange (first : ℕ) (last : Option ℕ) : SetFragment α κ :=
  let s := s.flushBuffer
  { s with
    buffer := s.file.readBlock (windowSize lay first last) first
    firstBufferedItem := first }

/-- The access `fragment[offset]`. -/
def item (offset : ℕ) : Option α × SetFragment α κ :=
  let s := if offset < s.firstBufferedItem ∨ s.firstBufferedItem + s.buffer.length ≤ offset then
      s.bufferFileRange lay (if offset = 0 then 0 else offset - 1) none
    else s
  (s.buffer[offset - s.firstBufferedItem]?, s)

/-- A fragment with nothing in its buffer.  A file with items keeps the flag that it was written
with. -/
def unread (file : FragmentFile α) : SetFragment α κ where
  file := file
  itemCount := file.items.length
  sorted := if file.items = [] ∧ file.config = none then true else file.config.getD false
  buffer := []
  firstBufferedItem := 0
  firstDirtyItem := none
  lastDirtyItem := 0
  lastItemKey := pkey default

/-- Opens the file and reads the key of its last item. -/
def openFile (file : FragmentFile α) : SetFragment α κ :=
  let s := unread pkey file
  if 0 < s.itemCount then
    let (last, s) := s.item lay (s.itemCount - 1)
    { s with lastItemKey := pkey (last.getD default) }
  else s

/-- The first part of `append`: the buffer is made ready for an item behind its last one. -/
def makeRoom : SetFragment α κ :=
  if s.firstBufferedItem + s.buffer.length < s.itemCount then
    { s.flushBuffer with firstBufferedItem := s.itemCount }
  else s

/-- The second part of `append`: the item is put into the buffer. -/
def push (data : α) : SetFragment α κ :=
  { s with
    firstDirtyItem := some (s.firstDirtyItem.getD s.itemCount)
    lastDirtyItem := s.itemCount
    sorted := if 0 < s.itemCount ∧ s.sorted then s.lastItemKey < pkey data else s.sorted
    buffer := s.buffer ++ [data]
    itemCount := s.itemCount + 1
    lastItemKey := pkey data }

def append (data : α) : SetFragment α κ :=
  let s := s.makeRoom.push pkey data
  if lay.bufferSize ≤ s.buffer.length * lay.itemSize then s.flushBuffer else s

def flush : SetFragment α κ :=
  match s.firstDirtyItem with
  | none => s
  | some _ =>
    let s := s.flushBuffer
    { s with
      buffer := []
      file := { config := some s.sorted, items := if s.itemCount = 0 then [] else s.file.items } }

/-- What the destructor leaves in the file. -/
def close : FragmentFile α := s.flush.file

/-- Sorts the items in the file with `std::sort`, which is `sortItems`. -/
def sort (sortItems : List α → List α) (s : SetFragment α κ) : SetFragment α κ :=
  let s := s.flush
  if s.sorted then s
  else
    let data := s.file.readBlock s.size 0
    { s with file := s.file.writeBlock (sortItems data) 0, sorted := true }.flush

/-- The item in the middle of a range, read through a window of its own. -/
def middle (midIdx : ℕ) : Option α × SetFragment α κ :=
  (s.bufferFileRange lay midIdx (some (midIdx + 1))).item lay midIdx

/-- The loop of `getByKeyProjection`: the place of the first item whose key is not below `key`. -/
def lowerBound (key : κ') (fn : κ → κ') :
    ℕ → ℕ → ℕ → SetFragment α κ → ℕ × SetFragment α κ
  | 0, first, _, s => (first, s)
  | fuel + 1, first, last, s =>
    if first = last then (first, s)
    else if (s.middle lay (first + (last - first) / 2)).1.any fun d => fn (pkey d) < key then
      lowerBound key fn fuel (first + (last - first) / 2 + 1) last
        (s.middle lay (first + (last - first) / 2)).2
    else
      lowerBound key fn fuel first (first + (last - first) / 2)
        (s.middle lay (first + (last - first) / 2)).2

def getByKeyProjection (key : κ') (fn : κ → κ') : Option α × SetFragment α κ :=
  if s.size = 0 then (none, s)
  else
    let (first, s) := lowerBound lay pkey key fn s.size 0 (s.size - 1) s
    let (data, s) := s.item lay first
    (data.filter fun d => fn (pkey d) = key, s)

def getByKey (key : κ) : Option α × SetFragment α κ := s.getByKeyProjection lay pkey key id

end Functions

/-! ## What a fragment is for -/

section Holds

variable {lay pkey} {s : SetFragment α κ} {l : List α}

/-- The items of `l` from item `d` on are in the buffer only. -/
structure DirtyFrom (s : SetFragment α κ) (l : List α) (d : ℕ) : Prop where
  first_le : s.firstBufferedItem ≤ d
  lt_length : d < l.length
  last : s.lastDirtyItem + 1 = l.length
  buffer : s.buffer = l.drop s.firstBufferedItem
  file : s.file.items = l.take d

/-- The fragment is the list `l`: the buffer is a window on it, and what is not in the file is in
the buffer. -/
structure Holds (s : SetFragment α κ) (l : List α) : Prop where
  itemCount : s.itemCount = l.length
  start_le : s.firstBufferedItem ≤ l.length
  window : s.buffer <+: l.drop s.firstBufferedItem
  clean : s.firstDirtyItem = none → s.file.items = l
  dirty : ∀ d, s.firstDirtyItem = some d → s.DirtyFrom l d

@[simp] lemma flushBuffer_itemCount (s : SetFragment α κ) :
    s.flushBuffer.itemCount = s.itemCount := by
  rw [flushBuffer]
  split <;> rfl

@[simp] lemma flushBuffer_sorted (s : SetFragment α κ) : s.flushBuffer.sorted = s.sorted := by
  rw [flushBuffer]
  split <;> rfl

@[simp] lemma flushBuffer_firstBufferedItem :
    s.flushBuffer.firstBufferedItem = s.firstBufferedItem := by
  rw [flushBuffer]
  split <;> rfl

@[simp] lemma flushBuffer_firstDirtyItem (s : SetFragment α κ) :
    s.flushBuffer.firstDirtyItem = none := by
  rw [flushBuffer]
  split
  · assumption
  · rfl

@[simp] lemma flushBuffer_lastItemKey : s.flushBuffer.lastItemKey = s.lastItemKey := by
  rw [flushBuffer]
  split <;> rfl

@[simp] lemma flushBuffer_config (s : SetFragment α κ) :
    s.flushBuffer.file.config = s.file.config := by
  rw [flushBuffer]
  split <;> rfl

lemma flushBuffer_of_clean (h : s.firstDirtyItem = none) : s.flushBuffer = s := by
  rw [flushBuffer, h]

lemma flushBuffer_buffer_of_dirty {d : ℕ} (h : s.firstDirtyItem = some d) :
    s.flushBuffer.buffer = [] := by
  rw [flushBuffer, h]

/-- Items that are in the buffer only are written behind those that are in the file. -/
lemma DirtyFrom.flushBuffer_items {d : ℕ} (h : s.DirtyFrom l d) (hd : s.firstDirtyItem = some d) :
    s.flushBuffer.file.items = l := by
  have hfirst := h.first_le
  have hlast := h.last
  have hsrc : (s.buffer.drop (d - s.firstBufferedItem)).take (s.lastDirtyItem - d + 1) =
      l.drop d := by
    rw [h.buffer, drop_drop, Nat.add_sub_cancel' hfirst]
    refine take_of_length_le ?_
    rw [length_drop]
    omega
  have hlen : s.file.items.length = d := by
    rw [h.file, length_take]
    exact Nat.min_eq_left h.lt_length.le
  rw [flushBuffer, hd]
  simp only
  rw [hsrc]
  nth_rewrite 2 [← hlen]
  rw [FragmentFile.writeBlock_length, h.file]
  exact take_append_drop d l

/-- After `flushBuffer` all items are in the file. -/
lemma Holds.flushBuffer_items (h : s.Holds l) : s.flushBuffer.file.items = l := by
  rcases hd : s.firstDirtyItem with _ | d
  · rw [flushBuffer_of_clean hd]
    exact h.clean hd
  · exact (h.dirty d hd).flushBuffer_items hd

lemma Holds.flushBuffer (h : s.Holds l) : s.flushBuffer.Holds l := by
  refine ⟨?_, ?_, ?_, fun _ => h.flushBuffer_items, ?_⟩
  · rw [flushBuffer_itemCount]
    exact h.itemCount
  · rw [flushBuffer_firstBufferedItem]
    exact h.start_le
  · rcases hd : s.firstDirtyItem with _ | d
    · rw [flushBuffer_of_clean hd]
      exact h.window
    · rw [flushBuffer_buffer_of_dirty hd]
      exact nil_prefix
  · intro d hd
    rw [flushBuffer_firstDirtyItem] at hd
    cases hd

/-- All items are in the file.  Nothing is said about the buffer. -/
structure Stored (s : SetFragment α κ) (l : List α) : Prop where
  itemCount : s.itemCount = l.length
  clean : s.firstDirtyItem = none
  items : s.file.items = l

lemma Holds.flushBuffer_stored (h : s.Holds l) : s.flushBuffer.Stored l :=
  ⟨h.flushBuffer.itemCount, flushBuffer_firstDirtyItem s, h.flushBuffer_items⟩

lemma Stored.flushBuffer (h : s.Stored l) : s.flushBuffer.Stored l := by
  rw [flushBuffer_of_clean h.clean]
  exact h

open SetFragment

lemma Stored.bufferFileRange_buffer (h : s.flushBuffer.Stored l) (first : ℕ) (last : Option ℕ) :
    (s.bufferFileRange lay first last).buffer =
      (l.drop first).take (windowSize lay first last) := by
  rw [bufferFileRange]
  simp only [FragmentFile.readBlock, h.items]

/-- A window that is read is a window on the items in the file. -/
lemma Stored.bufferFileRange (h : s.flushBuffer.Stored l) {first : ℕ} (hfirst : first ≤ l.length)
    (last : Option ℕ) : (s.bufferFileRange lay first last).Holds l := by
  refine ⟨h.itemCount, hfirst, ?_, fun _ => h.items, fun d hd => ?_⟩
  · rw [h.bufferFileRange_buffer]
    exact take_prefix _ _
  · exact absurd hd (by simp [SetFragment.bufferFileRange])

omit [Inhabited α] in
/-- An item that is in the buffer is that of the list. -/
lemma Holds.buffer_getElem? (h : s.Holds l) {i : ℕ} (hi : s.firstBufferedItem ≤ i)
    (hi' : i < s.firstBufferedItem + s.buffer.length) :
    s.buffer[i - s.firstBufferedItem]? = l[i]? := by
  obtain ⟨t, ht⟩ := h.window
  have hdrop : l[i]? = (l.drop s.firstBufferedItem)[i - s.firstBufferedItem]? := by
    rw [List.getElem?_drop, Nat.add_sub_cancel' hi]
  rw [hdrop, ← ht, List.getElem?_append_left (by omega)]

/-- An item outside of the buffer is read from the file. -/
lemma Stored.item (h : s.flushBuffer.Stored l) {i : ℕ} (hi : i < l.length)
    (hout : i < s.firstBufferedItem ∨ s.firstBufferedItem + s.buffer.length ≤ i) :
    (s.item lay i).1 = l[i]? ∧ (s.item lay i).2.Holds l := by
  have hbef : (if i = 0 then 0 else i - 1) = i - 1 := by
    split_ifs with hzero
    · rw [hzero]
    · rfl
  have hwindow : (s.bufferFileRange lay (i - 1) none).Holds l := h.bufferFileRange (by omega) none
  rw [SetFragment.item, hbef, if_pos hout]
  refine ⟨hwindow.buffer_getElem? (Nat.sub_le i 1) ?_, hwindow⟩
  rw [h.bufferFileRange_buffer, length_take, length_drop]
  have hcapacity := lay.two_le_capacity
  change i < i - 1 + min lay.capacity (l.length - (i - 1))
  omega

variable (lay) in
/-- Reading items leaves the flags as they are. -/
lemma item_flags (s : SetFragment α κ) (i : ℕ) :
    (s.item lay i).2.sorted = s.sorted ∧ (s.item lay i).2.file.config = s.file.config := by
  rw [item]
  by_cases hout : i < s.firstBufferedItem ∨ s.firstBufferedItem + s.buffer.length ≤ i
  · rw [if_pos hout]
    exact ⟨flushBuffer_sorted s, flushBuffer_config s⟩
  · rw [if_neg hout]
    exact ⟨rfl, rfl⟩

/-- `fragment[i]` is the item of the list, and leaves the list as it is. -/
lemma Holds.item (h : s.Holds l) {i : ℕ} (hi : i < l.length) :
    (s.item lay i).1 = l[i]? ∧ (s.item lay i).2.Holds l := by
  by_cases hout : i < s.firstBufferedItem ∨ s.firstBufferedItem + s.buffer.length ≤ i
  · exact h.flushBuffer_stored.item hi hout
  · rw [SetFragment.item, if_neg hout]
    exact ⟨h.buffer_getElem? (by omega) (by omega), h⟩

lemma Holds.flush_items (h : s.Holds l) : s.flush.file.items = l := by
  rw [flush]
  rcases hd : s.firstDirtyItem with _ | d
  · exact h.clean hd
  · have hcount : s.itemCount ≠ 0 := by
      have := (h.dirty d hd).lt_length
      rw [h.itemCount]
      omega
    simp [hcount, h.flushBuffer_items]

@[simp] lemma flush_firstDirtyItem (s : SetFragment α κ) : s.flush.firstDirtyItem = none := by
  rw [flush]
  split
  · assumption
  · exact flushBuffer_firstDirtyItem s

@[simp] lemma flush_itemCount : s.flush.itemCount = s.itemCount := by
  rw [flush]
  split
  · rfl
  · exact flushBuffer_itemCount s

@[simp] lemma flush_sorted (s : SetFragment α κ) : s.flush.sorted = s.sorted := by
  rw [flush]
  split
  · rfl
  · exact flushBuffer_sorted s

lemma flush_of_clean (h : s.firstDirtyItem = none) : s.flush = s := by
  rw [flush, h]

lemma Holds.flush (h : s.Holds l) : s.flush.Holds l := by
  rcases hd : s.firstDirtyItem with _ | d
  · rw [flush_of_clean hd]
    exact h
  · refine ⟨?_, ?_, ?_, fun _ => h.flush_items, fun d' hd' => ?_⟩
    · rw [flush_itemCount]
      exact h.itemCount
    · simp only [SetFragment.flush, hd]
      exact h.flushBuffer.start_le
    · simp only [SetFragment.flush, hd]
      exact nil_prefix
    · rw [flush_firstDirtyItem] at hd'
      cases hd'

/-- The file of a fragment that was closed has the items of the list. -/
lemma Holds.close_items (h : s.Holds l) : s.close.items = l := h.flush_items

variable (file : FragmentFile α)

variable (pkey) in
lemma unread_holds : (unread pkey file).Holds file.items :=
  ⟨rfl, Nat.zero_le _, nil_prefix, fun _ => rfl, fun d hd => by cases hd⟩

omit [Inhabited α] in
lemma Holds.with_lastItemKey (h : s.Holds l) (key : κ) : { s with lastItemKey := key }.Holds l := by
  refine ⟨h.itemCount, h.start_le, h.window, h.clean, fun d hd => ?_⟩
  have hdirty := h.dirty d hd
  exact ⟨hdirty.first_le, hdirty.lt_length, hdirty.last, hdirty.buffer, hdirty.file⟩

variable (lay pkey) in
lemma openFile_holds : (openFile lay pkey file).Holds file.items := by
  have h := unread_holds pkey file
  rw [openFile]
  split_ifs with hpos
  · exact (h.item (Nat.sub_lt hpos Nat.zero_lt_one)).2.with_lastItemKey _
  · exact h

variable (lay pkey) in
lemma openFile_of_pos {file : FragmentFile α} (h : 0 < file.items.length) :
    ∃ last, openFile lay pkey file =
      { (unread pkey file).bufferFileRange lay (file.items.length - 2) none with
        lastItemKey := last } := by
  set s : SetFragment α κ := unread pkey file with hs
  have hstart : (if file.items.length - 1 = 0 then 0 else file.items.length - 1 - 1) =
      file.items.length - 2 := by
    split_ifs <;> omega
  have hout : file.items.length - 1 < s.firstBufferedItem ∨
      s.firstBufferedItem + s.buffer.length ≤ file.items.length - 1 := .inr (Nat.zero_le _)
  have hitem : (s.item lay (file.items.length - 1)).2 =
      s.bufferFileRange lay (file.items.length - 2) none := by
    rw [item, if_pos hout, hstart]
  rw [← hitem]
  exact ⟨_, if_pos h⟩

lemma openFile_of_nil {file : FragmentFile α} (h : file.items = []) :
    openFile lay pkey file = unread pkey file := by
  refine if_neg ?_
  change ¬0 < file.items.length
  simp [h]

variable (lay pkey) in
/-- A fragment that was opened has a window on its last two items. -/
lemma openFile_window : (openFile lay pkey file).firstBufferedItem = file.items.length - 2 ∧
      (openFile lay pkey file).buffer = file.items.drop (file.items.length - 2) := by
  rcases Nat.eq_zero_or_pos file.items.length with hzero | hpos
  · have hnil := eq_nil_of_length_eq_zero hzero
    rw [openFile_of_nil hnil]
    simp [unread, hnil]
  · obtain ⟨_, hopen⟩ := openFile_of_pos lay pkey hpos
    rw [hopen]
    refine ⟨rfl, ?_⟩
    refine take_of_length_le ?_
    have hcapacity := lay.two_le_capacity
    rw [length_drop]
    change file.items.length - (file.items.length - 2) ≤ lay.capacity
    omega

/-- Opening a file takes over its flag. -/
lemma openFile_flags : (openFile lay pkey file).sorted = (unread pkey file).sorted ∧
      (openFile lay pkey file).file.config = file.config := by
  rcases Nat.eq_zero_or_pos file.items.length with hzero | hpos
  · rw [openFile_of_nil (eq_nil_of_length_eq_zero hzero)]
    exact ⟨rfl, rfl⟩
  · obtain ⟨_, hopen⟩ := openFile_of_pos lay pkey hpos
    rw [hopen]
    exact ⟨flushBuffer_sorted _, flushBuffer_config _⟩

/-- The fragment that is opened again is the same list. -/
lemma Holds.reopen (h : s.Holds l) : (openFile lay pkey s.close).Holds l := by
  have hopen := openFile_holds lay pkey s.close
  rw [h.close_items] at hopen
  exact hopen

/-! ## Appending -/

/-- The buffer is no window that ends before the last item. -/
def AppendSafe (s : SetFragment α κ) : Prop :=
  s.buffer = [] ∨ s.itemCount ≤ s.firstBufferedItem + s.buffer.length
  deriving Decidable

/-- The buffer has the last items of the list. -/
structure Ready (s : SetFragment α κ) (l : List α) : Prop extends s.Holds l where
  buffer : s.buffer = l.drop s.firstBufferedItem

omit [Inhabited α] in
/-- A window that ends at the last item has all items behind its first one. -/
lemma Holds.ready (h : s.Holds l) (hend : s.itemCount ≤ s.firstBufferedItem + s.buffer.length) :
    s.Ready l := by
  refine ⟨h, h.window.eq_of_length ?_⟩
  have hle := h.window.length_le
  rw [h.itemCount] at hend
  rw [length_drop] at hle ⊢
  omega

lemma Holds.makeRoom (h : s.Holds l) (hsafe : s.AppendSafe) : s.makeRoom.Ready l := by
  rw [SetFragment.makeRoom]
  split_ifs with hbef
  · have hclean : s.firstDirtyItem = none := by
      rcases hd : s.firstDirtyItem with _ | d
      · rfl
      · have hdirty := h.dirty d hd
        rw [hdirty.buffer, length_drop, h.itemCount] at hbef
        omega
    have hbuf : s.buffer = [] := hsafe.resolve_right (Nat.not_le.mpr hbef)
    rw [flushBuffer_of_clean hclean]
    have hdrop : l.drop s.itemCount = [] := by rw [h.itemCount, drop_length]
    refine ⟨⟨h.itemCount, h.itemCount.le, ?_, h.clean, fun d hd => ?_⟩, ?_⟩
    · simp [hbuf]
    · exact absurd hd (by simp [hclean])
    · simp [hbuf, hdrop]
  · exact h.ready (Nat.not_lt.mp hbef)

section Append

variable [LinearOrder κ]

omit [Inhabited α] in
lemma Ready.push (h : s.Ready l) (data : α) : (s.push pkey data).Ready (l ++ [data]) := by
  have hbuf : (s.push pkey data).buffer = (l ++ [data]).drop s.firstBufferedItem := by
    rw [drop_append_of_le_length h.start_le, ← h.buffer]
    rfl
  refine ⟨⟨?_, ?_, ?_, (fun hd => by cases hd), fun d hd => ?_⟩, hbuf⟩
  · simp [SetFragment.push, h.itemCount]
  · exact h.start_le.trans (by simp)
  · rw [hbuf]
    exact prefix_rfl
  · obtain rfl : s.firstDirtyItem.getD s.itemCount = d := Option.some.inj hd
    have hcount := h.itemCount
    rcases hfirst : s.firstDirtyItem with _ | d
    · refine ⟨?_, ?_, ?_, hbuf, ?_⟩
      · exact h.start_le.trans hcount.ge
      · simp [hcount]
      · simp [SetFragment.push, hcount]
      · change s.file.items = (l ++ [data]).take s.itemCount
        rw [h.clean hfirst, hcount, take_left]
    · have hdirty := h.dirty d hfirst
      refine ⟨hdirty.first_le, ?_, ?_, hbuf, ?_⟩
      · exact hdirty.lt_length.trans (by simp)
      · simp [SetFragment.push, hcount]
      · change s.file.items = (l ++ [data]).take d
        rw [take_append_of_le_length hdirty.lt_length.le]
        exact hdirty.file

/-- An item that is appended safely becomes the last one of the list. -/
lemma Holds.append (h : s.Holds l) (hsafe : s.AppendSafe) (data : α) :
    (s.append lay pkey data).Holds (l ++ [data]) := by
  have hpush : (s.makeRoom.push pkey data).Ready (l ++ [data]) := (h.makeRoom hsafe).push data
  rw [SetFragment.append]
  split_ifs with hfull
  · exact hpush.toHolds.flushBuffer
  · exact hpush.toHolds

end Append

/-! ## Looking up a key -/

lemma Holds.middle (h : s.Holds l) {i : ℕ} (hi : i < l.length) :
    (s.middle lay i).1 = l[i]? ∧ (s.middle lay i).2.Holds l :=
  (h.flushBuffer_stored.bufferFileRange hi.le (some (i + 1))).item hi

variable [LinearOrder κ'] {key : κ'} {fn : κ → κ'}

/-- The search stays between its bounds and leaves the list as it is. -/
lemma Holds.lowerBound {fuel first last : ℕ} (h : s.Holds l) (hle : first ≤ last)
    (hlast : last < l.length) :
    (lowerBound lay pkey key fn fuel first last s).1 ≤ last ∧
      (lowerBound lay pkey key fn fuel first last s).2.Holds l := by
  induction fuel generalizing first last s with
  | zero => exact ⟨hle, h⟩
  | succ fuel ih =>
    rw [lowerBound]
    have hmid : first + (last - first) / 2 < l.length := by omega
    split_ifs with heq hbelow
    · exact ⟨hle, h⟩
    · exact ih (h.middle hmid).2 (by omega) hlast
    · obtain ⟨_, hholds⟩ := ih (h.middle hmid).2 (Nat.le_add_right _ _) hmid
      exact ⟨by omega, hholds⟩

lemma Holds.getByKeyProjection (h : s.Holds l) :
    (s.getByKeyProjection lay pkey key fn).2.Holds l := by
  rw [SetFragment.getByKeyProjection]
  split_ifs with hsize
  · exact h
  · have hpos : 0 < l.length := by
      rw [← h.itemCount]
      exact Nat.pos_of_ne_zero hsize
    have hlast : s.size - 1 < l.length := by
      rw [size, h.itemCount]
      omega
    obtain ⟨hle, hholds⟩ : (SetFragment.lowerBound lay pkey key fn s.size 0 (s.size - 1) s).1 ≤ _ ∧
        (SetFragment.lowerBound lay pkey key fn s.size 0 (s.size - 1) s).2.Holds l :=
      h.lowerBound (Nat.zero_le _) hlast
    exact (hholds.item (hle.trans_lt hlast)).2

end Holds

/-! ## Every sequence of calls -/

section Calls

/-- A call of a fragment, or closing it and opening it again. -/
inductive Call (α κ : Type)
  | append (data : α)
  | item (i : ℕ)
  | getByKey (key : κ)
  | flush
  | reopen

/-- A fragment and the items that were appended to it. -/
structure History (α κ : Type) where
  fragment : SetFragment α κ
  appended : List α

namespace History

variable [LinearOrder κ]

/-- A new fragment. -/
def start : History α κ := ⟨openFile lay pkey .empty, []⟩

def step (h : History α κ) : Call α κ → History α κ
  | .append data => ⟨h.fragment.append lay pkey data, h.appended ++ [data]⟩
  | .item i => { h with fragment := (h.fragment.item lay i).2 }
  | .getByKey key => { h with fragment := (h.fragment.getByKey lay pkey key).2 }
  | .flush => { h with fragment := h.fragment.flush }
  | .reopen => { h with fragment := openFile lay pkey h.fragment.close }

/-- An item that is asked for exists. -/
def InRange (h : History α κ) : Call α κ → Prop
  | .item i => i < h.fragment.size
  | _ => True

instance (h : History α κ) : (call : Call α κ) → Decidable (h.InRange call)
  | .item _ => inferInstanceAs (Decidable (_ < _))
  | .append _ | .getByKey _ | .flush | .reopen => isTrue trivial

/-- An item is not appended while the buffer is a window that ends before the last item. -/
def AppendsSafely (h : History α κ) : Call α κ → Prop
  | .append _ => h.fragment.AppendSafe
  | _ => True

instance [DecidableEq α] (h : History α κ) : (call : Call α κ) → Decidable (h.AppendsSafely call)
  | .append _ => inferInstanceAs (Decidable h.fragment.AppendSafe)
  | .item _ | .getByKey _ | .flush | .reopen => isTrue trivial

/-- The fragment is the list of the items that were appended, and so is the file when it is
closed. -/
structure IsList (h : History α κ) : Prop where
  size : h.fragment.size = h.appended.length
  item : ∀ i < h.appended.length, (h.fragment.item lay i).1 = h.appended[i]?
  file : h.fragment.close.items = h.appended

variable {lay pkey}

omit [LinearOrder κ] in
lemma isList_of_holds {h : History α κ} (hholds : h.fragment.Holds h.appended) : h.IsList lay :=
  ⟨hholds.itemCount, fun _ hi => (hholds.item hi).1, hholds.close_items⟩

lemma holds_step {h : History α κ} {call : Call α κ} (hrange : h.InRange call)
    (hsafe : h.AppendsSafely call) (hholds : h.fragment.Holds h.appended) :
    (h.step lay pkey call).fragment.Holds (h.step lay pkey call).appended := by
  cases call with
  | append data => exact hholds.append hsafe data
  | item i =>
    have hi : i < h.appended.length := hholds.itemCount ▸ hrange
    exact (hholds.item hi).2
  | getByKey key => exact hholds.getByKeyProjection
  | flush => exact hholds.flush
  | reopen => exact hholds.reopen

variable (lay pkey) in
/-- In every sequence of calls that does not append behind a window on older items, the fragment is
the list of the items that were appended. -/
theorem isList_of_appendsSafely (calls : List (Call α κ))
    (hrange : EveryStep (step lay pkey) InRange (start lay pkey) calls)
    (hsafe : EveryStep (step lay pkey) AppendsSafely (start lay pkey) calls) :
    EveryState (step lay pkey) (IsList lay) (start lay pkey) calls :=
  everyState_of_everyStep (I := fun h => h.fragment.Holds h.appended)
    (fun _ _ hcall hholds => holds_step hcall.1 hcall.2 hholds) (fun _ => isList_of_holds)
    (openFile_holds lay pkey .empty) (hrange.and hsafe)

/-- Items of eight bytes and the buffer of the source. -/
def wordLayout : ItemLayout := ⟨8, 4 * 1024 * 1024, by decide, by decide⟩

/-- Appending after a read of the first item, which has all items in the window, is safe. -/
theorem isList_append_item_append :
    EveryState (step wordLayout (id : ℕ → ℕ)) (IsList wordLayout) (start wordLayout id)
      [.append 1, .append 2, .append 3, .flush, .item 0, .append 4, .reopen, .getByKey 4] :=
  isList_of_appendsSafely wordLayout id _ (by decide +kernel) (by decide +kernel)

/-- A key is looked up, which leaves the first two items in the buffer.  The item that is appended
next is put behind them, and where it should be is the first one. -/
theorem not_isList_append_getByKey_append :
    ¬ EveryState (step wordLayout (id : ℕ → ℕ)) (IsList wordLayout) (start wordLayout id)
      [.append 1, .append 2, .append 3, .getByKey 1, .append 4] := by
  rintro ⟨-, -, -, -, -, h⟩
  exact absurd (h.item 3 (by decide)) (by decide +kernel)

end History

end Calls

end SetFragment

end Beegfs
