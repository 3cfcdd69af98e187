import Beegfs.Lib.Grammar
import Beegfs.Serialization.Serializer

/-!
# The deserializer

`Deserializer` reads values one after the other from a buffer.  A read that does not fit into the
buffer makes the deserializer bad: the size of the buffer is set to zero, the value that was to be
read is zero, and the offset moves on all the same.  The deserializer is a cursor in its buffer.
-/

namespace Beegfs

open Bytes List

/-- `Deserializer`. -/
structure Deserializer where
  /-- The bytes that the buffer points to. -/
  buffer : List Byte
  /-- The size of the buffer; zero marks a bad deserializer. -/
  bufferSize : BitVec 32
  /-- Where the next value is read. -/
  bufferOffset : BitVec 32
  /-- The size is the number of bytes, until the deserializer turns bad. -/
  size_eq : bufferSize ≠ 0 → bufferSize.toNat = buffer.length

/-- What a decoder may do wrong. -/
inductive DecodeFault
  /-- A member function is called on a stripe pattern that was not created. -/
  | nullPattern
  /-- Memory behind the buffer is read. -/
  | outOfBounds
  deriving DecidableEq, Repr

/-- Code that reads from a deserializer. -/
abbrev DesM := Decoder DecodeFault Deserializer

namespace Deserializer

/-! ## The deserializer as cursor -/

variable (des : Deserializer)

def good : Bool := des.bufferSize != 0 && des.bufferOffset ≤ des.bufferSize

/-- The deserializer is good, and the bytes that come next are `bs`. -/
def Next (bs : List Byte) : Prop := des.good = true ∧ bs <+: des.buffer.drop des.bufferOffset.toNat

/-- The deserializer after `n` more bytes. -/
def advance (n : ℕ) : Deserializer :=
  { des with bufferOffset := des.bufferOffset + BitVec.ofNat 32 n }

variable {des : Deserializer} {bs cs : List Byte} {n : ℕ}

lemma good_iff :
    des.good = true ↔ des.bufferSize ≠ 0 ∧ des.bufferOffset.toNat ≤ des.bufferSize.toNat := by
  unfold good
  simp [BitVec.le_def]

/-- The offset does not wrap around inside the buffer. -/
lemma toNat_advance (h : des.bufferOffset.toNat + n ≤ des.bufferSize.toNat) :
    (des.advance n).bufferOffset.toNat = des.bufferOffset.toNat + n := by
  have hlt := h.trans_lt des.bufferSize.isLt
  rw [advance, BitVec.toNat_add, BitVec.toNat_ofNat, Nat.add_mod_mod, Nat.mod_eq_of_lt hlt]

lemma Next.le (h : des.Next bs) : des.bufferOffset.toNat + bs.length ≤ des.bufferSize.toNat := by
  obtain ⟨hgood, hprefix⟩ := h
  obtain ⟨hsize, _⟩ := good_iff.mp hgood
  have hlen := hprefix.length_le
  rw [length_drop, ← des.size_eq hsize] at hlen
  omega

lemma advance_zero (des : Deserializer) : des.advance 0 = des := by
  unfold advance
  simp

lemma advance_advance (des : Deserializer) (m n : ℕ) :
    (des.advance m).advance n = des.advance (m + n) := by
  unfold advance
  rw [BitVec.ofNat_add, BitVec.add_assoc]

lemma append_prefix_iff {l : List Byte} : bs ++ cs <+: l ↔ bs <+: l ∧ cs <+: l.drop bs.length := by
  constructor
  · rintro ⟨rest, rfl⟩
    rw [append_assoc, drop_left]
    exact ⟨prefix_append _ _, prefix_append _ _⟩
  · rintro ⟨⟨rest, rfl⟩, hcs⟩
    rw [drop_left] at hcs
    exact (prefix_append_right_inj bs).mpr hcs

lemma next_append (des : Deserializer) (bs cs : List Byte) :
    des.Next (bs ++ cs) ↔ des.Next bs ∧ (des.advance bs.length).Next cs := by
  have hdrop : des.Next bs → des.buffer.drop (des.advance bs.length).bufferOffset.toNat =
        (des.buffer.drop des.bufferOffset.toNat).drop bs.length := by
    intro h
    rw [toNat_advance h.le, drop_drop]
  constructor
  · rintro ⟨hgood, hprefix⟩
    obtain ⟨hbs, hcs⟩ := append_prefix_iff.mp hprefix
    have hnext : des.Next bs := ⟨hgood, hbs⟩
    refine ⟨hnext, good_iff.mpr ⟨(good_iff.mp hgood).1, ?_⟩, ?_⟩
    · rw [toNat_advance hnext.le]
      exact hnext.le
    · rw [← hdrop hnext] at hcs
      exact hcs
  · rintro ⟨hnext, hgood, hcs⟩
    refine ⟨hnext.1, append_prefix_iff.mpr ⟨hnext.2, ?_⟩⟩
    rw [← hdrop hnext]
    exact hcs

instance : Cursor Deserializer Byte where
  good := good
  Next := Next
  advance := advance
  next_nil _ := and_iff_left nil_prefix
  next_append := next_append
  advance_zero := advance_zero
  advance_advance := advance_advance

/-! ## Reading -/

open Decoder

/-- The state after `setBad`. -/
def bad (des : Deserializer) : Deserializer :=
  { des with
    bufferSize := 0
    size_eq := fun h => absurd rfl h }

def setBad : DesM Unit := fun des => .ok ((), des.bad)

/-- `size()`, the number of bytes that were read so far. -/
def size : DesM (BitVec 32) := fun des => .ok (des.bufferOffset, des)

/-- Copies a block to `dest`, which stays as it is if the block is not complete. -/
def getBlock (dest : List Byte) : DesM (List Byte) := fun des =>
  let offset := des.bufferOffset.toNat
  if offset + dest.length ≤ des.bufferSize.toNat then
    .ok ((des.buffer.drop offset).take dest.length, des.advance dest.length)
  else
    .ok (dest, des.bad.advance dest.length)

/-- Integers are in little-endian order. -/
def getIntegral (w : ℕ) : DesM (BitVec w) := do
  let value ← getBlock (List.replicate (w / 8) 0)
  return ofWordBytes w value

def skip (length : ℕ) : DesM Unit := fun des =>
  if des.bufferOffset.toNat + length ≤ des.bufferSize.toNat then
    .ok ((), des.advance length)
  else
    .ok ((), des.bad.advance length)

/-- Runs `m` and returns how many bytes the deserializer moved on. -/
def measured {α : Type} (m : DesM α) : DesM (α × BitVec 32) := do
  let offsetAtStart ← size
  let a ← m
  let offset ← size
  return (a, offset - offsetAtStart)

/-- The loop of `getCollection`, with `size` elements to go. -/
def getElements (w : ℕ) : ℕ → List (BitVec w) → DesM (List (BitVec w))
  | 0, value => return value
  | size + 1, value => do
    let item ← getIntegral w
    if !(← isGood) then
      return value
    getElements w size (value ++ [item])

/-- `getCollection` for elements with a length field; `value` is what the collection was before. -/
def getCollection (w : ℕ) (value : List (BitVec w)) : DesM (List (BitVec w)) := do
  let ((totalLen, value), length) ← measured do
    let totalLen ← getIntegral 32
    let size ← getIntegral 32
    if !(← isGood) then
      return (totalLen, value)
    let value ← getElements w size.toNat []
    return (totalLen, value)
  if !(← isGood) then
    return value
  if totalLen ≠ length then do
    setBad
    return value
  else
    return value

/-- `PadFieldTo`: after the field, its length is filled up to a multiple of `padding`. -/
def padFieldTo {α : Type} (padding : BitVec 32) (field : DesM α) : DesM α := do
  let (a, rangeSize) ← measured field
  if rangeSize % padding ≠ 0 then do
    skip (padding - rangeSize % padding).toNat
    return a
  else
    return a

/-- The string at `data`, if a zero follows it.  Where the zero is looked up is not compared with
the size of the buffer. -/
def stringAt (data length : ℕ) : DesM (List Byte) := fun des =>
  match des.buffer[data + length]? with
  | none => .error .outOfBounds
  | some terminator =>
    .ok ((des.buffer.drop data).take length, if terminator ≠ 0 then des.bad else des)

/-- The end of `RawStringDes`, when the length was read.  The number of bytes to skip is an
`unsigned`. -/
def getRawStringData (length : BitVec 32) : DesM (List Byte) := do
  let data ← size
  skip (length + 1).toNat
  if !(← isGood) then
    return []
  stringAt data.toNat length.toNat

/-- `RawStringDes`, without padding: the bytes that the pointer and the length delimit. -/
def getRawString : DesM (List Byte) := do
  let length ← getIntegral 32
  if !(← isGood) then
    return []
  getRawStringData length

/-- `StdString` with alignment 4, which is read by `stringAlign4`. -/
def getString : DesM (List Byte) := do
  let string ← padFieldTo 4 getRawString
  if !(← isGood) then
    return []
  return string

end Deserializer

end Beegfs
