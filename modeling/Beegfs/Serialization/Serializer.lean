import Beegfs.Lib.Bytes

/-!
# The serializer

`Serializer` writes values one after the other into a buffer.  A value that does not fit makes the
serializer bad, and it stays bad.  A position can be marked, to fill in a length that is only known
later; a mark writes into the same buffer.

The specification of a function that serializes a value is `Appends`: the serializer is good
afterwards only if the bytes of the value fit, and then exactly these bytes were appended.
-/

namespace Beegfs

open Bytes BitVec List Option

/-- `Serializer`.  The buffer may be missing; the memory that it points to starts at address 0. -/
structure Serializer where
  /-- What the buffer points to, or `none` for a null pointer. -/
  buffer : Option (ℕ → Byte)
  /-- The size of the buffer; zero marks a bad serializer. -/
  bufferSize : BitVec 32
  /-- Where the next value goes. -/
  bufferOffset : BitVec 32

namespace Serializer

/-! ## Operations -/

variable (ser : Serializer)

def good : Bool := ser.bufferSize != 0 && ser.bufferOffset ≤ ser.bufferSize

/-- Copies a block into the buffer.  The offset moves on even when the block does not fit. -/
def putBlock (source : List Byte) (ser : Serializer) : Serializer :=
  let bufferOffset := ser.bufferOffset + BitVec.ofNat 32 source.length
  match ser.buffer with
  | some mem =>
    if ser.bufferOffset.toNat + source.length ≤ ser.bufferSize.toNat then
      { ser with buffer := some (store mem ser.bufferOffset.toNat source), bufferOffset }
    else
      { ser with bufferSize := 0, bufferOffset }
  | none => { ser with bufferSize := 0, bufferOffset }

/-- Integers are written in little-endian order. -/
def putIntegral {w : ℕ} (value : BitVec w) (ser : Serializer) : Serializer :=
  ser.putBlock (wordBytes value)

/-- Writes through a copy of the serializer that was made when its state was `mark`.  The copy has
its own size and offset, but shares the buffer. -/
def putAtMark (mark : Serializer) (put : Serializer → Serializer) (ser : Serializer) : Serializer :=
  { ser with buffer := (put { mark with buffer := ser.buffer }).buffer }

/-- `putCollection` for elements with a length field: the total length and the number of elements
are filled in after the elements were written. -/
def putCollection {w : ℕ} (elements : List (BitVec w)) (ser : Serializer) : Serializer :=
  let atStart := ser
  let ser := ser.putIntegral (0 : BitVec 32)
  let ser := ser.putIntegral (0 : BitVec 32)
  let ser := elements.foldl (fun ser element => ser.putIntegral element) ser
  let totalLen := ser.bufferOffset - atStart.bufferOffset
  putAtMark atStart (fun mark =>
    (mark.putIntegral totalLen).putIntegral (BitVec.ofNat 32 elements.length)) ser

/-- Zeros, at most eight at a time. -/
def skip (size : ℕ) (ser : Serializer) : Serializer :=
  if 0 < size then
    skip (size - min size 8) (ser.putBlock (List.replicate (min size 8) 0))
  else
    ser
termination_by size

/-- `PadFieldTo`: after the field, its length is filled up to a multiple of `padding`. -/
def padFieldTo (padding : BitVec 32) (field : Serializer → Serializer) (ser : Serializer) :
    Serializer :=
  let rangeSize := (field ser).bufferOffset - ser.bufferOffset
  if rangeSize % padding ≠ 0 then
    skip (padding - rangeSize % padding).toNat (field ser)
  else
    field ser

/-- `RawStringSer`: the size, the data and a terminating zero. -/
def putRawString (align : BitVec 32) (data : List Byte) (ser : Serializer) : Serializer :=
  padFieldTo align (fun ser =>
    ((ser.putIntegral (BitVec.ofNat 32 data.length)).putBlock data).putIntegral (0 : BitVec 8)) ser

/-- The part of a string whose size is an `unsigned`. -/
def shortened (string : List Byte) : List Byte := string.take (string.length % 2 ^ 32)

/-- `stringAlign4`.  The size of the string is converted to an `unsigned`. -/
def putString (string : List Byte) (ser : Serializer) : Serializer :=
  ser.putRawString 4 (shortened string)

/-! ## What is appended -/

/-- Whether the serializer is good and `n` more bytes fit. -/
def Fits (n : ℕ) : Prop := ser.bufferSize ≠ 0 ∧ ser.bufferOffset.toNat + n ≤ ser.bufferSize.toNat

/-- The serializer, with the memory `mem`, after the bytes `bs` were appended. -/
def append (mem : ℕ → Byte) (bs : List Byte) : Serializer where
  buffer := some (store mem ser.bufferOffset.toNat bs)
  bufferSize := ser.bufferSize
  bufferOffset := ser.bufferOffset + BitVec.ofNat 32 bs.length

variable {ser : Serializer}

lemma good_iff : ser.good = true ↔ ser.Fits 0 := by
  unfold good Fits
  simp [le_def]

variable {n : ℕ}

lemma Fits.mono {m : ℕ} (h : ser.Fits n) (hmn : m ≤ n) : ser.Fits m :=
  ⟨h.1, le_trans (Nat.add_le_add_left hmn _) h.2⟩

lemma Fits.good (h : ser.Fits n) : ser.good = true := good_iff.mpr (h.mono (Nat.zero_le n))

variable {mem : ℕ → Byte} {bs : List Byte}

/-- The offset does not wrap around while the bytes fit. -/
lemma Fits.toNat_append (h : ser.Fits bs.length) :
    (ser.append mem bs).bufferOffset.toNat = ser.bufferOffset.toNat + bs.length := by
  have hlt := h.2.trans_lt ser.bufferSize.isLt
  show (ser.bufferOffset + BitVec.ofNat 32 bs.length).toNat = _
  rw [toNat_add, toNat_ofNat, Nat.add_mod_mod, Nat.mod_eq_of_lt hlt]

lemma fits_append_iff
    (h : ser.Fits bs.length) : (ser.append mem bs).Fits n ↔ ser.Fits (bs.length + n) := by
  unfold Fits
  rw [h.toNat_append, Nat.add_assoc]
  rfl

/-- Appending twice is appending once. -/
lemma append_append {cs : List Byte} (h : ser.Fits bs.length) :
    (ser.append mem bs).append (store mem ser.bufferOffset.toNat bs) cs =
      ser.append mem (bs ++ cs) := by
  have hoff : (ser.append mem bs).bufferOffset.toNat = _ := h.toNat_append
  rw [append, hoff, store_store, append, append, length_append, ofNat_add, BitVec.add_assoc]

/-- The serializing function `put` appends the bytes `bs` to a buffer: it leaves the serializer good
only if they fit, and if they fit, they are what is appended. -/
structure Appends (put : Serializer → Serializer) (bs : List Byte) : Prop where
  buffer_ne_none : ∀ ser, ser.buffer ≠ none → (put ser).buffer ≠ none
  fits_of_good : ∀ ser, ser.buffer ≠ none → (put ser).good = true → ser.Fits bs.length
  eq_append : ∀ ser mem, ser.buffer = some mem → ser.Fits bs.length → put ser = ser.append mem bs

namespace Appends

variable {put put' : Serializer → Serializer} {bs bs' cs : List Byte}

/-- A function that writes nothing. -/
lemma nil : Appends (fun ser => ser) [] := by
  refine ⟨fun _ h => h, fun _ _ h => good_iff.mp h, fun ser mem hmem _ => ?_⟩
  rw [append, store_nil, ← hmem]
  simp

/-- One function after the other, where the second one is told how far the first one got. -/
lemma measured {put' : BitVec 32 → Serializer → Serializer} {bytes : BitVec 32 → List Byte}
    (h : Appends put bs) (h' : ∀ length, Appends (put' length) (bytes length)) :
    Appends (fun ser => put' ((put ser).bufferOffset - ser.bufferOffset) (put ser))
      (bs ++ bytes (BitVec.ofNat 32 bs.length)) := by
  have hdist : ∀ ser mem, (Serializer.append ser mem bs).bufferOffset - ser.bufferOffset =
      BitVec.ofNat 32 bs.length := fun ser mem => add_sub_cancel_left _ _
  constructor
  · intro ser hbuf
    exact (h' _).buffer_ne_none _ (h.buffer_ne_none ser hbuf)
  · intro ser hbuf hgood
    have hput := (h' _).fits_of_good (put ser) (h.buffer_ne_none ser hbuf) hgood
    have hfits := h.fits_of_good ser hbuf hput.good
    obtain ⟨mem, hmem⟩ := ne_none_iff_exists'.mp hbuf
    rw [h.eq_append ser mem hmem hfits, hdist, fits_append_iff hfits] at hput
    rwa [length_append]
  · intro ser mem hmem hfits
    rw [length_append] at hfits
    have hfits1 := hfits.mono (Nat.le_add_right _ _)
    rw [h.eq_append ser mem hmem hfits1, hdist,
      (h' _).eq_append _ _ rfl ((fits_append_iff hfits1).mpr hfits), append_append hfits1]

/-- One function after the other. -/
lemma comp (h : Appends put bs) (h' : Appends put' cs) :
    Appends (fun ser => put' (put ser)) (bs ++ cs) := by
  have hsnd : ∀ _ : BitVec 32, Appends put' cs := fun _ => h'
  exact h.measured hsnd

/-- A choice that does not depend on the serializer. -/
lemma ite {p : Prop} [Decidable p] (h : p → Appends put bs) (h' : ¬ p → Appends put' cs) :
    Appends (fun ser => if p then put ser else put' ser) (if p then bs else cs) := by
  by_cases hp : p
  · simp only [if_pos hp]
    exact h hp
  · simp only [if_neg hp]
    exact h' hp

/-- A loop over a list. -/
lemma foldl {α : Type} {put : α → Serializer → Serializer} {bytes : α → List Byte}
    (h : ∀ a, Appends (put a) (bytes a)) (as : List α) :
    Appends (fun ser => as.foldl (fun ser a => put a ser) ser) (as.flatMap bytes) := by
  induction as with
  | nil => exact nil
  | cons a as ih =>
    exact (h a).comp ih

/-- Writing over the first bytes that were appended, through a mark that was made before.  What is
written there may depend on how far the serializer got. -/
lemma patch {putLength : BitVec 32 → Serializer → Serializer} {bytes : BitVec 32 → List Byte}
    (h : Appends put (bs ++ cs)) (hput : ∀ length, Appends (putLength length) (bytes length))
    (hlen : ∀ length, (bytes length).length = bs.length) :
    Appends
      (fun ser => putAtMark ser (putLength ((put ser).bufferOffset - ser.bufferOffset)) (put ser))
      (bytes (BitVec.ofNat 32 (bs ++ cs).length) ++ cs) := by
  have hlen' : ∀ length, (bytes length ++ cs).length = (bs ++ cs).length := by
    intro length
    rw [length_append, length_append, hlen]
  constructor
  · intro ser hbuf
    exact (hput _).buffer_ne_none _ (h.buffer_ne_none ser hbuf)
  · intro ser hbuf hgood
    rw [hlen']
    exact h.fits_of_good ser hbuf hgood
  · intro ser mem hmem hfits
    rw [hlen'] at hfits
    have hdist : (ser.append mem (bs ++ cs)).bufferOffset - ser.bufferOffset =
        BitVec.ofNat 32 (bs ++ cs).length := add_sub_cancel_left _ _
    rw [h.eq_append ser mem hmem hfits, hdist]
    generalize BitVec.ofNat 32 (bs ++ cs).length = length
    -- the mark still has the offset that the bytes were appended at
    have hmark := (hput length).eq_append
      { ser with buffer := (ser.append mem (bs ++ cs)).buffer } _ rfl
      (Fits.mono hfits (by rw [hlen, length_append]; exact Nat.le_add_right _ _))
    rw [putAtMark, hmark, append, append, append, hlen', store_store_of_length_eq _ _ (hlen length)]

end Appends

lemma appends_putBlock (source : List Byte) : Appends (putBlock source) source := by
  constructor
  · intro ser hbuf
    obtain ⟨mem, hmem⟩ := ne_none_iff_exists'.mp hbuf
    rw [putBlock, hmem]
    dsimp only
    split
    · exact some_ne_none _
    · exact some_ne_none mem
  · intro ser hbuf hgood
    obtain ⟨mem, hmem⟩ := ne_none_iff_exists'.mp hbuf
    rw [putBlock, hmem] at hgood
    dsimp only at hgood
    split at hgood
    next hle => exact ⟨(good_iff.mp hgood).1, hle⟩
    next => exact absurd rfl (good_iff.mp hgood).1
  · intro ser mem hmem hfits
    rw [putBlock, hmem]
    dsimp only
    rw [if_pos hfits.2, append]

variable {w : ℕ}

lemma appends_putIntegral (value : BitVec w) : Appends (putIntegral value) (wordBytes value) :=
  appends_putBlock (wordBytes value)

/-- The bytes of a collection: its length in bytes, the number of elements, and the elements. -/
def collectionBytes {w : ℕ} (elements : List (BitVec w)) : List Byte :=
  wordBytes (BitVec.ofNat 32 (8 + elements.length * (w / 8))) ++
    (wordBytes (BitVec.ofNat 32 elements.length) ++ elements.flatMap wordBytes)

lemma length_flatMap_wordBytes (elements : List (BitVec w)) :
    (elements.flatMap wordBytes).length = elements.length * (w / 8) := by
  induction elements with
  | nil => exact (Nat.zero_mul (w / 8)).symm
  | cons element elements ih =>
    rw [flatMap_cons, length_append, ih, length_wordBytes, length_cons,
      Nat.add_mul, Nat.one_mul, Nat.add_comm]

lemma length_collection (totalLen size : BitVec 32) (elements : List (BitVec w)) :
    (wordBytes totalLen ++ (wordBytes size ++ elements.flatMap wordBytes)).length =
      8 + elements.length * (w / 8) := by
  rw [length_append, length_append, length_wordBytes, length_wordBytes,
    length_flatMap_wordBytes, ← Nat.add_assoc]

lemma appends_putCollection (elements : List (BitVec w)) :
    Appends (putCollection elements) (collectionBytes elements) := by
  have hzeros := (appends_putIntegral (0 : BitVec 32)).comp (appends_putIntegral (0 : BitVec 32))
  have helements := hzeros.comp (Appends.foldl appends_putIntegral elements)
  have h := helements.patch
    (fun totalLen => (appends_putIntegral totalLen).comp
      (appends_putIntegral (BitVec.ofNat 32 elements.length)))
    (fun _ => by simp)
  rw [length_append, length_flatMap_wordBytes] at h
  exact h

lemma appends_skip (size : ℕ) : Appends (skip size) (List.replicate size 0) := by
  induction size using Nat.strong_induction_on with
  | _ size ih =>
    by_cases hsize : 0 < size
    · have h := (appends_putBlock (List.replicate (min size 8) 0)).comp
        (ih (size - min size 8) (by omega))
      rw [← replicate_add, Nat.add_sub_cancel' (Nat.min_le_left size 8)] at h
      have hskip : skip size = fun ser =>
          skip (size - min size 8) (ser.putBlock (List.replicate (min size 8) 0)) := by
        funext ser
        rw [skip, if_pos hsize]
      rw [hskip]
      exact h
    · have hskip : skip size = fun ser => ser := by
        funext ser
        rw [skip, if_neg hsize]
      obtain rfl : size = 0 := by omega
      rw [hskip]
      exact Appends.nil

/-- The number of bytes that fill a field of the given length up. -/
def paddingSize (padding rangeSize : BitVec 32) : ℕ :=
  if rangeSize % padding ≠ 0 then (padding - rangeSize % padding).toNat else 0

/-- The bytes of a field, filled up with zeros. -/
def paddedBytes (padding : BitVec 32) (bs : List Byte) : List Byte :=
  bs ++ List.replicate (paddingSize padding (BitVec.ofNat 32 bs.length)) 0

lemma appends_padFieldTo {field : Serializer → Serializer} (padding : BitVec 32)
    (h : Appends field bs) : Appends (padFieldTo padding field) (paddedBytes padding bs) := by
  have hpad : padFieldTo padding field = fun ser =>
      skip (paddingSize padding ((field ser).bufferOffset - ser.bufferOffset)) (field ser) := by
    funext ser
    unfold padFieldTo paddingSize
    dsimp only
    split
    · rfl
    · rw [skip, if_neg (lt_irrefl 0)]
  rw [hpad]
  exact h.measured fun rangeSize => appends_skip (paddingSize padding rangeSize)

variable (align : BitVec 32) (data : List Byte)

/-- The bytes of a string: its length, the data, a zero, and padding. -/
def stringBytes : List Byte :=
  paddedBytes align (wordBytes (BitVec.ofNat 32 data.length) ++ (data ++ [0]))

lemma appends_putRawString : Appends (putRawString align data) (stringBytes align data) :=
  appends_padFieldTo align
    ((appends_putIntegral _).comp ((appends_putBlock data).comp (appends_putIntegral 0)))

lemma appends_putString (string : List Byte) :
    Appends (putString string) (stringBytes 4 (shortened string)) :=
  appends_putRawString 4 (shortened string)

lemma shortened_of_lt {string : List Byte} (h : string.length < 2 ^ 32) :
    shortened string = string := by
  rw [shortened, Nat.mod_eq_of_lt h, take_length]

/-- More bytes than characters stand for a string. -/
lemma length_lt_length_stringBytes : data.length + 1 < (stringBytes align data).length := by
  unfold stringBytes paddedBytes
  simp
  omega

end Serializer

end Beegfs
