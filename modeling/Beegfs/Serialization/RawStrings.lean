import Beegfs.Serialization.Formats

/-!
# Strings stay inside the buffer

`RawStringDes` and `StdString` read a string that is filled up to a multiple of some alignment.
Whatever the buffer contains, they leave the deserializer bad, or the string lies inside the buffer
with its length and its terminating zero.  The greatest length is the exception: with it, the
terminator is looked up far behind the buffer.
-/

namespace Beegfs.Deserializer

open Bytes List

open Decoder

variable (align : BitVec 32)

/-- `RawStringDes` with an alignment, which is not zero. -/
def getRawStringAligned : DesM (List Byte) := padFieldTo align getRawString

/-- `StdString` with an alignment. -/
def getStdString : DesM (List Byte) := do
  let string ← getRawStringAligned align
  if !(← isGood) then
    return []
  return string

/-- A string with its length, filled up to a multiple of `align` bytes. -/
def alignedString : Grammar Byte (List Byte) := padded align (word 32 >>= stringData)

lemma refines_getRawStringAligned : Refines (getRawStringAligned align) (alignedString align) :=
  refines_padFieldTo align (refines_getIntegral.bind fun length =>
    (refines_getRawStringData length).returnIfBad [])

lemma refines_getStdString : Refines (getStdString align) (alignedString align) := by
  have h := (refines_getRawStringAligned align).bind fun string =>
    (Refines.pure string).returnIfBad []
  rwa [Grammar.bind_pure] at h

/-! ## The words of the format -/

variable {align : BitVec 32} {bs : List Byte}

/-- A field that is filled up begins with the field. -/
lemma exists_of_padded_accepts {α : Type} {G : Grammar Byte α} {a : α}
    (h : (padded align G).accepts a bs) :
    ∃ field padding, G.accepts a field ∧ bs = field ++ padding := by
  obtain ⟨⟨_, _⟩, field, padding, ⟨hfield, -⟩, hpadd, rfl⟩ := h
  refine ⟨field, padding, ?_, rfl⟩
  dsimp only at hpadd hfield
  split at hpadd
  · obtain ⟨-, -, -, -, ⟨rfl, -⟩, -⟩ := hpadd
    exact hfield
  · rw [hpadd.1]
    exact hfield

lemma padded_hazards_iff {α : Type} {G : Grammar Byte α} :
    (padded align G).hazards bs ↔ G.hazards bs := by
  constructor
  · rintro (h | ⟨⟨a, rangeSize⟩, _, _, _, h, _⟩)
    · exact h
    · have hharmless : Grammar.Harmless (if rangeSize % align ≠ 0 then do
          skipped (align - rangeSize % align).toNat
          return a
        else return a) :=
        ((Grammar.harmless_ofWords _).bind fun _ => Grammar.harmless_pure a).ite
          (Grammar.harmless_pure a)
      exact absurd h (hharmless _)
  · exact .inl

/-- The only hazard is the greatest length. -/
lemma alignedString_hazards_iff :
    (alignedString align).hazards bs ↔ bs = wordBytes (-1 : BitVec 32) := by
  rw [alignedString, padded_hazards_iff]
  constructor
  · rintro (h | ⟨_, _, bs', rfl, h, rfl⟩)
    · exact h.elim
    · unfold stringData at h
      split at h
      next hlength =>
        have hnil : bs' = [] := h
        rw [hlength, hnil, append_nil]
      next => exact h.elim
  · rintro rfl
    exact .inr ⟨-1, _, [], rfl, rfl, (append_nil _).symm⟩

lemma stringData_accepts {length : BitVec 32} {string : List Byte}
    (h : (stringData length).accepts string bs) :
    string.length = length.toNat ∧ bs = string ++ [0] := by
  unfold stringData at h
  split at h
  · exact h.elim
  · exact h

lemma string_ensures : string.Ensures fun string => string.length < 2 ^ 32 := by
  intro string bs h
  obtain ⟨_, _, ⟨length, _, _, rfl, hdata, rfl⟩, -⟩ := exists_of_padded_accepts h
  rw [(stringData_accepts hdata).1]
  exact length.isLt

/-! ## Safety -/

/-- The string that was read from `des` lies inside the buffer with its length, which is read first,
and its terminating zero. -/
structure StringInside (des : Deserializer) (string : List Byte) : Prop where
  length_field : (des.buffer.drop des.bufferOffset.toNat).take 4 =
    wordBytes (BitVec.ofNat 32 string.length)
  length_lt : string.length < 2 ^ 32
  le : des.bufferOffset.toNat + 4 + string.length + 1 ≤ des.bufferSize.toNat
  data_eq : (des.buffer.drop (des.bufferOffset.toNat + 4)).take (string.length + 1) = string ++ [0]

/-- Reading a string does not look at memory behind the buffer.  Afterwards the deserializer is bad,
or the string was inside the buffer, and so is the offset. -/
def ReadsInside (m : DesM (List Byte)) (des : Deserializer) : Prop :=
  ∃ string des', m des = .ok (string, des') ∧
    (des'.good = true → des.StringInside string ∧ des'.bufferOffset ≤ des'.bufferSize)

lemma StringInside.of_next {des : Deserializer} {string : List Byte}
    (h : (alignedString align).accepts string bs) (hnext : des.Next bs) :
    des.StringInside string := by
  obtain ⟨_, _, ⟨length, _, _, rfl, hdata, rfl⟩, rfl⟩ := exists_of_padded_accepts h
  obtain ⟨hlen, rfl⟩ := stringData_accepts hdata
  have hlength : BitVec.ofNat 32 string.length = length := by
    rw [hlen, BitVec.ofNat_toNat, BitVec.setWidth_eq]
  have hle := hnext.le
  obtain ⟨_, hrest⟩ := hnext.2
  have hfour : (wordBytes length).length = 4 := length_wordBytes length
  refine ⟨?_, hlen ▸ length.isLt, ?_, ?_⟩
  · rw [← hrest, hlength, append_assoc, append_assoc, take_left' hfour]
  · simp only [length_append, hfour, length_singleton] at hle
    omega
  · have htwo : (string ++ [0]).length = string.length + 1 := by
      rw [length_append, length_singleton]
    rw [← drop_drop, ← hrest, append_assoc, append_assoc,
      drop_left' hfour, append_assoc, ← append_assoc string, take_left' htwo]

lemma readsInside_iff {m : DesM (List Byte)}
    (hm : Refines m (alignedString align)) (des : Deserializer) :
    ReadsInside m des ↔ ¬ des.Next (wordBytes (-1 : BitVec 32)) := by
  have hfault : (∃ e, m des = .error e) ↔ des.Next (wordBytes (-1 : BitVec 32)) := by
    refine hm.fault.trans ⟨?_, fun h => ⟨_, alignedString_hazards_iff.mpr rfl, h⟩⟩
    rintro ⟨bs, hbs, hnext⟩
    rw [alignedString_hazards_iff] at hbs
    exact hbs ▸ hnext
  rw [← hfault]
  constructor
  · rintro ⟨_, _, hok, -⟩ ⟨e, herror⟩
    rw [hok] at herror
    nomatch herror
  · intro hnot
    cases hres : m des with
    | error e => exact absurd ⟨e, hres⟩ hnot
    | ok r =>
      refine ⟨r.1, r.2, hres, fun hgood => ?_⟩
      obtain ⟨bs, hbs, hnext, -⟩ := hm.sound hres hgood
      exact ⟨StringInside.of_next hbs hnext, BitVec.le_def.mpr (good_iff.mp hgood).2⟩

/-- Strings are read inside the buffer exactly if the length is not the greatest one. -/
theorem strings_readInside_iff (align : BitVec 32) (des : Deserializer) :
    (ReadsInside (getRawStringAligned align) des ↔ ¬ des.Next (wordBytes (-1 : BitVec 32))) ∧
      (ReadsInside (getStdString align) des ↔ ¬ des.Next (wordBytes (-1 : BitVec 32))) :=
  ⟨readsInside_iff (refines_getRawStringAligned align) des,
    readsInside_iff (refines_getStdString align) des⟩

/-- Eight bytes, of which the first four are the greatest length. -/
def greatestLength : Deserializer where
  buffer := [255, 255, 255, 255, 97, 98, 99, 0]
  bufferSize := 8
  bufferOffset := 0
  size_eq _ := rfl

/-- The terminator is looked up behind the eight bytes. -/
theorem strings_read_behind_buffer :
    getRawStringAligned 1 greatestLength = .error .outOfBounds ∧
      getStdString 4 greatestLength = .error .outOfBounds :=
  ⟨rfl, rfl⟩

end Beegfs.Deserializer
