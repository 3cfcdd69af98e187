import Beegfs.Serialization.Deserializer

/-!
# What the deserializer reads

Each function that reads from a deserializer refines a grammar: words are little-endian bytes,
collections and strings are what is said here.  Whatever else is in the buffer, a truncated value in
particular, leaves the deserializer bad.  There is one hazard: a string with the greatest length.
-/

namespace Beegfs

open Bytes Grammar Serializer List Nat

namespace Deserializer

open Decoder

/-! ## Words -/

/-- A word of `w` bits. -/
def word (w : ℕ) : Grammar Byte (BitVec w) := .ofWords fun value bs => bs = wordBytes value

/-- Bytes that do not matter. -/
def skipped (n : ℕ) : Grammar Byte Unit := .ofWords fun _ bs => bs.length = n

variable {α : Type}

lemma refines_setBad (a : α) : Refines (setBad >>= fun _ => pure a : DesM α) Grammar.fail :=
  Refines.fail fun des => ⟨a, des.bad, rfl, rfl⟩

variable {m : DesM α}

/-- A read of `n` bytes that fails if they are not complete. -/
lemma refines_block {n : ℕ} {value : List Byte → α} (default : α) (hm : ∀ des, m des =
      if des.bufferOffset.toNat + n ≤ des.bufferSize.toNat then
        .ok (value ((des.buffer.drop des.bufferOffset.toNat).take n), des.advance n)
      else .ok (default, des.bad.advance n)) :
    Refines m (.ofWords fun a bs => bs.length = n ∧ a = value bs) := by
  constructor
  · rintro des a bs ⟨rfl, rfl⟩ hnext
    rw [hm, if_pos hnext.le, ← prefix_iff_eq_take.mp hnext.2]
    rfl
  · intro des a des' h hgood
    rw [hm] at h
    split at h
    next hle =>
      obtain ⟨rfl, rfl⟩ := Prod.mk.inj (Except.ok.inj h)
      have hsize : des.bufferSize ≠ 0 := (good_iff.mp hgood).1
      have hlen : ((des.buffer.drop des.bufferOffset.toNat).take n).length = n := by
        rw [length_take, length_drop, ← des.size_eq hsize]
        omega
      refine ⟨_, ⟨hlen, rfl⟩, ⟨good_iff.mpr ⟨hsize, by omega⟩, take_prefix _ _⟩, ?_⟩
      rw [hlen]
      rfl
    next =>
      obtain ⟨-, rfl⟩ := Prod.mk.inj (Except.ok.inj h)
      nomatch hgood
  · intro des
    rw [hm]
    constructor
    · rintro ⟨e, he⟩
      split at he <;> nomatch he
    · rintro ⟨w, hw, _⟩
      exact hw.elim

/-! Integers have a whole number of bytes. -/

instance : Fact (8 ∣ 8) := ⟨by decide⟩

instance : Fact (8 ∣ 16) := ⟨by decide⟩

instance : Fact (8 ∣ 32) := ⟨by decide⟩

instance : Fact (8 ∣ 64) := ⟨by decide⟩

variable {w : ℕ}

lemma refines_getIntegral [Fact (8 ∣ w)] : Refines (getIntegral w) (word w) := by
  have h : Refines (getIntegral w)
      (.ofWords fun a bs => bs.length = w / 8 ∧ a = ofWordBytes w bs) := by
    refine refines_block (ofWordBytes w (List.replicate (w / 8) 0)) fun des => ?_
    rw [getIntegral, bind_apply, getBlock, length_replicate]
    by_cases hle : des.bufferOffset.toNat + w / 8 ≤ des.bufferSize.toNat
    · rw [if_pos hle, if_pos hle]
      rfl
    · rw [if_neg hle, if_neg hle]
      rfl
  refine h.congrWords (harmless_ofWords _) fun _ value bs _ => ?_
  constructor
  · rintro ⟨hlen, rfl⟩
    exact (wordBytes_ofWordBytes Fact.out hlen).symm
  · rintro rfl
    exact ⟨length_wordBytes value, (ofWordBytes_wordBytes Fact.out value).symm⟩

lemma refines_skip (n : ℕ) : Refines (skip n) (skipped n) := by
  have h : Refines (skip n) (.ofWords fun _ bs => bs.length = n ∧ () = ()) :=
    refines_block () fun des => rfl
  exact h.congrWords (harmless_ofWords _) fun _ _ _ _ => and_iff_left rfl

/-! ## Collections -/

/-- Values together with the number of bytes that stand for them. -/
def withLength {α : Type} (G : Grammar Byte α) : Grammar Byte (α × BitVec 32) where
  accepts r bs := G.accepts r.1 bs ∧ r.2 = BitVec.ofNat 32 bs.length
  hazards := G.hazards

lemma measured_apply (des : Deserializer) : measured m des = match m des with
      | .ok (a, des') => .ok ((a, des'.bufferOffset - des.bufferOffset), des')
      | .error e => .error e := by
  show (m >>= fun a => size >>= fun offset => pure (a, offset - des.bufferOffset)) des = _
  rw [bind_apply]
  cases m des with
  | error e => rfl
  | ok r => rfl

variable {G : Grammar Byte α}

lemma refines_measured (h : Refines m G) : Refines (measured m) (withLength G) := by
  have hdist : ∀ (des : Deserializer) n, (des.advance n).bufferOffset - des.bufferOffset =
      BitVec.ofNat 32 n := fun des n => add_sub_cancel_left _ _
  constructor
  · rintro des ⟨a, length⟩ bs ⟨hG, hlength⟩ hnext
    rw [measured_apply, h.complete hG hnext]
    rw [show length = _ from hlength, ← hdist des]
    rfl
  · rintro des ⟨a, length⟩ _ hm hgood
    rw [measured_apply] at hm
    cases hres : m des with
    | error e => rw [hres] at hm; nomatch hm
    | ok r =>
      rw [hres] at hm
      obtain ⟨hr, rfl⟩ := Prod.mk.inj (Except.ok.inj hm)
      obtain ⟨rfl, rfl⟩ := Prod.mk.inj hr
      obtain ⟨bs, hG, hnext, hdes'⟩ := h.sound hres hgood
      refine ⟨bs, ⟨hG, ?_⟩, hnext, hdes'⟩
      rw [hdes']
      exact hdist des _
  · intro des
    rw [measured_apply]
    refine Iff.trans ?_ h.fault
    cases m des with
    | error e => exact ⟨fun _ => ⟨e, rfl⟩, fun _ => ⟨e, rfl⟩⟩
    | ok r => exact ⟨fun ⟨_, he⟩ => absurd he nofun, fun ⟨_, he⟩ => absurd he nofun⟩

/-- Elements that are put behind the ones that were read before. -/
def elements (w n : ℕ) (value : List (BitVec w)) : Grammar Byte (List (BitVec w)) :=
  .ofWords fun value' bs => ∃ xs, xs.length = n ∧ value' = value ++ xs ∧ bs = xs.flatMap wordBytes

lemma refines_getElements [Fact (8 ∣ w)] (n : ℕ) (value : List (BitVec w)) :
    Refines (getElements w n value) (elements w n value) := by
  induction n generalizing value with
  | zero =>
    refine (Refines.pure value).congrWords (harmless_pure value) fun _ value' bs _ => ?_
    constructor
    · rintro ⟨rfl, rfl⟩
      exact ⟨[], rfl, (append_nil _).symm, rfl⟩
    · rintro ⟨xs, hxs, rfl, rfl⟩
      rw [length_eq_zero_iff.mp hxs]
      exact ⟨append_nil _, rfl⟩
  | succ n ih =>
    have h := refines_getIntegral.bind fun item =>
      (ih (value ++ [item])).returnIfBad value
    refine h.congrWords ((harmless_ofWords _).bind fun _ => harmless_ofWords _)
      fun _ value' bs _ => ?_
    constructor
    · rintro ⟨item, _, _, rfl, ⟨xs, hxs, rfl, rfl⟩, rfl⟩
      exact ⟨item :: xs, by rw [length_cons, hxs], append_assoc _ _ _, rfl⟩
    · rintro ⟨xs, hxs, rfl, rfl⟩
      obtain ⟨item, xs, rfl⟩ := exists_cons_of_length_eq_add_one hxs
      refine ⟨item, _, _, rfl, ⟨xs, Nat.succ.inj hxs, ?_, rfl⟩, rfl⟩
      rw [append_assoc]
      rfl

/-- A collection, as it is serialized. -/
def collection (w : ℕ) : Grammar Byte (List (BitVec w)) :=
  .ofWords fun value bs => bs = collectionBytes value

variable {des : Deserializer} {bs : List Byte}

lemma Next.length_lt (h : des.Next bs) : bs.length < 2 ^ 32 := by
  have hle := h.le
  omega

/-- The fields of a collection, before the total length was checked. -/
def collectionFields (w : ℕ) : Grammar Byte (BitVec 32 × List (BitVec w)) :=
  .ofWords fun r bs => bs =
    wordBytes r.1 ++ (wordBytes (BitVec.ofNat 32 r.2.length) ++ r.2.flatMap wordBytes)

lemma refines_collectionFields [Fact (8 ∣ w)] (hpos : 0 < w) (value : List (BitVec w)) :
    Refines (do
        let totalLen ← getIntegral 32
        let size ← getIntegral 32
        if !(← isGood) then
          return (totalLen, value)
        let value ← getElements w size.toNat []
        return (totalLen, value) : DesM (BitVec 32 × List (BitVec w))) (collectionFields w) := by
  have h := (refines_getIntegral (w := 32)).bind fun totalLen =>
    (refines_getIntegral (w := 32)).bind fun size =>
      ((refines_getElements size.toNat []).bind fun value =>
        Refines.pure (totalLen, value)).returnIfBad (totalLen, value)
  refine h.congrWords ?_ fun des r bs hnext => ?_
  · exact (harmless_ofWords _).bind fun _ => (harmless_ofWords _).bind fun _ =>
      (harmless_ofWords _).bind fun _ => harmless_pure _
  constructor
  · rintro ⟨totalLen, _, _, rfl, ⟨size, _, _, rfl,
      ⟨value, _, _, ⟨_, hsize, rfl, rfl⟩, ⟨rfl, rfl⟩, rfl⟩, rfl⟩, rfl⟩
    have hsize' : BitVec.ofNat 32 value.length = size := by
      rw [hsize, BitVec.ofNat_toNat, BitVec.setWidth_eq]
    rw [hsize', append_nil]
  · rintro rfl
    have hlt : r.2.length < 2 ^ 32 := by
      have hlen := hnext.length_lt
      have hle : r.2.length * 1 ≤ r.2.length * (w / 8) :=
        Nat.mul_le_mul_left _ (Nat.div_pos (le_of_dvd hpos Fact.out) (by decide))
      rw [length_collection] at hlen
      omega
    refine ⟨r.1, _, _, rfl, ⟨BitVec.ofNat 32 r.2.length, _, _, rfl,
      ⟨r.2, _, _, ⟨r.2, ?_, rfl, rfl⟩, ⟨rfl, rfl⟩, rfl⟩, rfl⟩, ?_⟩
    · rw [BitVec.toNat_ofNat, mod_eq_of_lt hlt]
    · rw [append_nil]

/-- What `getCollection` reads: the two lengths, elements as many as the second one says, and then
the first one must be the number of bytes. -/
lemma refines_getCollection [Fact (8 ∣ w)] (hpos : 0 < w) (value : List (BitVec w)) :
    Refines (getCollection w value) (collection w) := by
  have h := (refines_measured (refines_collectionFields hpos value)).bind fun r =>
    (Refines.ite (p := r.1.1 ≠ r.2) (fun _ => refines_setBad r.1.2)
      (fun _ => Refines.pure r.1.2)).returnIfBad r.1.2
  refine h.congrWords ?_ fun des value bs hnext => ?_
  · exact Harmless.bind (harmless_ofWords _) fun _ =>
      harmless_fail.ite (harmless_pure _)
  constructor
  · rintro ⟨⟨⟨totalLen, _⟩, length⟩, _, _, ⟨rfl, hlength⟩, hcheck, rfl⟩
    rw [length_collection] at hlength
    dsimp only at hcheck
    split at hcheck
    next => exact hcheck.elim
    next heq =>
      obtain ⟨rfl, rfl⟩ := hcheck
      rw [collectionBytes, ← hlength, ← not_not.mp heq, append_nil]
  · rintro rfl
    let totalLen := BitVec.ofNat 32 (8 + value.length * (w / 8))
    have hlength := length_collection totalLen (BitVec.ofNat 32 value.length) value
    refine ⟨((totalLen, value), totalLen), _, [], ⟨rfl, ?_⟩, ?_, (append_nil _).symm⟩
    · exact (congrArg (BitVec.ofNat 32) hlength).symm
    · dsimp only
      rw [if_neg (not_not.mpr rfl)]
      exact ⟨rfl, rfl⟩

/-! ## Strings -/

variable (padding : BitVec 32)

/-- Values that are filled up with bytes that do not matter. -/
def padded {α : Type} (G : Grammar Byte α) : Grammar Byte α := do
  let (a, rangeSize) ← withLength G
  if rangeSize % padding ≠ 0 then do
    skipped (padding - rangeSize % padding).toNat
    return a
  else
    return a

lemma refines_padFieldTo (h : Refines m G) : Refines (padFieldTo padding m) (padded padding G) :=
  (refines_measured h).bind fun r =>
    Refines.ite (fun _ => (refines_skip _).bind fun _ => Refines.pure r.1) fun _ => Refines.pure r.1

/-- The characters of a string of the given length and a terminating zero. -/
def terminated (length : BitVec 32) : Grammar Byte (List Byte) :=
  .ofWords fun string bs => string.length = length.toNat ∧ bs = string ++ [0]

/-- What follows the length of a string.  The greatest length must not occur: with the terminator,
it does not fit into an `unsigned`. -/
def stringData (length : BitVec 32) : Grammar Byte (List Byte) :=
  if length = -1 then .hazard else terminated length

/-- A string with its length, filled up to a multiple of four bytes. -/
def string : Grammar Byte (List Byte) := padded 4 (word 32 >>= stringData)

lemma padded_accepts {a : α}
    (h : G.accepts a bs) : (padded padding G).accepts a (paddedBytes padding bs) := by
  have hlength : (withLength G).accepts (a, BitVec.ofNat 32 bs.length) bs := ⟨h, rfl⟩
  refine accepts_bind hlength ?_
  unfold paddingSize
  dsimp only
  split
  · exact accepts_map (a := ()) (fun _ => a) length_replicate
  · exact ⟨rfl, rfl⟩

/-- A string that is serialized is in the format, unless it has the greatest length. -/
lemma string_accepts {data : List Byte} (h : data.length + 1 < 2 ^ 32) :
    string.accepts data (stringBytes 4 data) := by
  have hlen : (BitVec.ofNat 32 data.length).toNat = data.length := by
    rw [BitVec.toNat_ofNat, mod_eq_of_lt (by omega)]
  have hne : BitVec.ofNat 32 data.length ≠ -1 := by
    intro heq
    rw [heq] at hlen
    have hmax : (-1 : BitVec 32).toNat = 2 ^ 32 - 1 := rfl
    omega
  refine padded_accepts 4 (accepts_bind (F := stringData) rfl ?_)
  rw [stringData, if_neg hne]
  exact ⟨hlen.symm, rfl⟩

variable {length : BitVec 32}

lemma getRawStringData_apply {des' : Deserializer}
    (h : skip (length + 1).toNat des = .ok ((), des')) :
    getRawStringData length des =
      if des'.good then stringAt des.bufferOffset.toNat length.toNat des' else .ok ([], des') := by
  have hsize : size des = .ok (des.bufferOffset, des) := rfl
  have hisGood : isGood des' = (.ok (des'.good, des') : Except DecodeFault _) := rfl
  rw [getRawStringData, bind_of_eq_ok hsize, bind_of_eq_ok h, bind_of_eq_ok hisGood]
  cases des'.good with
  | true => rfl
  | false => rfl

/-- Where the characters and their terminator are complete, the string is read. -/
lemma getRawStringData_of_le
    (hle : des.bufferOffset.toNat + (length + 1).toNat ≤ des.bufferSize.toNat)
    (hsize : des.bufferSize ≠ 0) :
    getRawStringData length des =
      stringAt des.bufferOffset.toNat length.toNat (des.advance (length + 1).toNat) := by
  rw [getRawStringData_apply (if_pos hle), if_pos]
  refine good_iff.mpr ⟨hsize, ?_⟩
  rw [toNat_advance hle]
  exact hle

lemma getRawStringData_of_not_le
    (h : ¬ (des.bufferOffset.toNat + (length + 1).toNat ≤ des.bufferSize.toNat ∧
      des.bufferSize ≠ 0)) :
    ∃ des', getRawStringData length des = .ok ([], des') ∧ des'.good = false := by
  by_cases hle : des.bufferOffset.toNat + (length + 1).toNat ≤ des.bufferSize.toNat
  · have hbad : (des.advance (length + 1).toNat).good = false := by
      rw [Bool.eq_false_iff]
      exact fun hgood => h ⟨hle, (good_iff.mp hgood).1⟩
    exact ⟨_, by rw [getRawStringData_apply (if_pos hle), hbad]; rfl, hbad⟩
  · exact ⟨_, by rw [getRawStringData_apply (if_neg hle)]; rfl, rfl⟩

/-- With the greatest length, nothing is skipped, and the terminator is looked up behind every
buffer. -/
lemma refines_getRawStringData_neg_one : Refines (getRawStringData (-1)) hazard := by
  have hzero : (-1 + 1 : BitVec 32).toNat = 0 := rfl
  refine Refines.hazard (fun des hgood => ⟨.outOfBounds, ?_⟩) fun des hbad => ⟨[], ?_⟩
  · obtain ⟨hsize, hle⟩ := good_iff.mp hgood
    have hlen := des.size_eq hsize
    have hnone :
        (des.advance 0).buffer[des.bufferOffset.toNat + (-1 : BitVec 32).toNat]? = none := by
      refine List.getElem?_eq_none ?_
      show des.buffer.length ≤ des.bufferOffset.toNat + 4294967295
      omega
    rw [getRawStringData_of_le (by rw [hzero]; exact hle) hsize, hzero, stringAt, hnone]
  · apply getRawStringData_of_not_le
    rintro ⟨hle, hsize⟩
    exact absurd (good_iff.mpr ⟨hsize, hle⟩) (Bool.eq_false_iff.mp hbad)

lemma toNat_add_one_of_ne (hne : length ≠ -1) : (length + 1).toNat = length.toNat + 1 := by
  have hne' : length.toNat ≠ 4294967295 := fun h => hne (BitVec.eq_of_toNat_eq h)
  rw [BitVec.toNat_add, show (1 : BitVec 32).toNat = 1 from rfl, mod_eq_of_lt (by omega)]

/-- With any other length, the terminator is inside the buffer where the characters and the
terminator fit. -/
lemma exists_getRawStringData_of_le (hne : length ≠ -1)
    (hle : des.bufferOffset.toNat + (length + 1).toNat ≤ des.bufferSize.toNat)
    (hsize : des.bufferSize ≠ 0) :
    ∃ terminator, des.buffer[des.bufferOffset.toNat + length.toNat]? = some terminator ∧
      getRawStringData length des = .ok ((des.buffer.drop des.bufferOffset.toNat).take length.toNat,
          if terminator ≠ 0 then (des.advance (length + 1).toNat).bad
          else des.advance (length + 1).toNat) := by
  have hlt : des.bufferOffset.toNat + length.toNat < des.buffer.length := by
    rw [← des.size_eq hsize]
    rw [toNat_add_one_of_ne hne] at hle
    omega
  have hsome := List.getElem?_eq_getElem hlt
  refine ⟨_, hsome, ?_⟩
  rw [getRawStringData_of_le hle hsize]
  have hsome' : (des.advance (length + 1).toNat).buffer[des.bufferOffset.toNat + length.toNat]? =
      some _ := hsome
  rw [stringAt, hsome']
  rfl

lemma complete_getRawStringData (hne : length ≠ -1) :
    Complete (getRawStringData length) (terminated length) := by
  rintro _ string _ ⟨hlen, rfl⟩ hnext
  have hlen' : (string ++ [0]).length = (length + 1).toNat := by
    rw [length_append, hlen, toNat_add_one_of_ne hne, length_singleton]
  have hle := hnext.le
  rw [hlen'] at hle
  obtain ⟨terminator, hsome, hres⟩ := exists_getRawStringData_of_le hne hle (good_iff.mp hnext.1).1
  obtain ⟨_, hrest⟩ := hnext.2
  have hzero : terminator = 0 := by
    rw [← List.getElem?_drop, ← hrest, append_assoc, ← hlen,
      List.getElem?_append_right le_rfl, Nat.sub_self] at hsome
    exact (Option.some.inj hsome).symm
  rw [hres, hzero, hlen', ← hrest, append_assoc, ← hlen, take_left]
  rfl

/-- The characters and the terminator are the bytes that were skipped. -/
lemma take_append_terminator {l : List Byte} {n : ℕ} (h : l[n]? = some 0) :
    l.take n ++ [0] = l.take (n + 1) := by
  rw [take_add_one, h]
  rfl

lemma sound_getRawStringData (hne : length ≠ -1) {des' : Deserializer}
    {string : List Byte} (h : getRawStringData length des = .ok (string, des'))
    (hgood : des'.good = true) :
    ∃ bs, (terminated length).accepts string bs ∧ des.Next bs ∧ des' = des.advance bs.length := by
  by_cases hfits : des.bufferOffset.toNat + (length + 1).toNat ≤ des.bufferSize.toNat ∧
      des.bufferSize ≠ 0
  · obtain ⟨terminator, hsome, hres⟩ := exists_getRawStringData_of_le hne hfits.1 hfits.2
    rw [hres] at h
    obtain ⟨rfl, rfl⟩ := Prod.mk.inj (Except.ok.inj h)
    have hzero : terminator = 0 := by
      by_contra hne
      rw [if_pos hne] at hgood
      exact Bool.false_ne_true hgood
    rw [hzero, ← List.getElem?_drop] at hsome
    have hle : length.toNat + 1 ≤ (des.buffer.drop des.bufferOffset.toNat).length := by
      rw [length_drop, ← des.size_eq hfits.2, ← toNat_add_one_of_ne hne]
      omega
    have hlen := length_take_of_le (le_of_succ_le hle)
    refine ⟨_, ⟨hlen, rfl⟩, ⟨good_iff.mpr ⟨hfits.2, by omega⟩, ?_⟩, ?_⟩
    · rw [take_append_terminator hsome]
      exact take_prefix _ _
    · rw [if_neg (not_not.mpr hzero), length_append, hlen, toNat_add_one_of_ne hne]
      rfl
  · obtain ⟨_, hres, hbad⟩ := getRawStringData_of_not_le hfits
    rw [hres] at h
    obtain ⟨-, rfl⟩ := Prod.mk.inj (Except.ok.inj h)
    exact absurd hgood (Bool.eq_false_iff.mp hbad)

lemma refines_getRawStringData_of_ne (hne : length ≠ -1) :
    Refines (getRawStringData length) (terminated length) := by
  refine ⟨complete_getRawStringData hne, sound_getRawStringData hne, fun {des} => ?_⟩
  refine iff_of_false ?_ fun ⟨_, hw, _⟩ => hw
  rintro ⟨e, he⟩
  by_cases hfits : des.bufferOffset.toNat + (length + 1).toNat ≤ des.bufferSize.toNat ∧
      des.bufferSize ≠ 0
  · obtain ⟨_, _, hres⟩ := exists_getRawStringData_of_le hne hfits.1 hfits.2
    rw [hres] at he
    nomatch he
  · obtain ⟨_, hres, _⟩ := getRawStringData_of_not_le hfits
    rw [hres] at he
    nomatch he

lemma refines_getRawStringData (length : BitVec 32) :
    Refines (getRawStringData length) (stringData length) := by
  unfold stringData
  split
  next h => rw [h]; exact refines_getRawStringData_neg_one
  next h => exact refines_getRawStringData_of_ne h

lemma refines_getString : Refines getString string := by
  have hraw : Refines getRawString (word 32 >>= stringData) :=
    refines_getIntegral.bind fun length =>
      (refines_getRawStringData length).returnIfBad []
  have h := (refines_padFieldTo 4 hraw).bind fun string => (Refines.pure string).returnIfBad []
  rwa [bind_pure] at h

/-! ## Reading what was written -/

/-- A deserializer at an offset of a memory. -/
def ofMemory (mem : ℕ → Byte) (bufferSize bufferOffset : BitVec 32) : Deserializer where
  buffer := load mem 0 bufferSize.toNat
  bufferSize := bufferSize
  bufferOffset := bufferOffset
  size_eq _ := (length_load mem 0 bufferSize.toNat).symm

end Deserializer

variable {put : Serializer → Serializer}

open Deserializer in
/-- The bytes that were written come next for a reader that gets them. -/
lemma Serializer.Appends.next {bs : List Byte} {mem : ℕ → Byte}
    {size offset n : BitVec 32} (h : Appends put bs) (hne : bs ≠ [])
    (hgood : (put ⟨some mem, size, offset⟩).good = true)
    (hn : (put ⟨some mem, size, offset⟩).bufferOffset ≤ n) :
    ∃ mem', (put ⟨some mem, size, offset⟩).buffer = some mem' ∧ (ofMemory mem' n offset).Next bs ∧
      (ofMemory mem' n offset).advance bs.length =
        ofMemory mem' n (put ⟨some mem, size, offset⟩).bufferOffset := by
  have hfits := h.fits_of_good _ (Option.some_ne_none mem) hgood
  have hput := h.eq_append _ mem rfl hfits
  -- the bytes lie in the part of the memory that the reader gets
  have hle : offset.toNat + bs.length ≤ n.toNat := by
    rw [hput, BitVec.le_def, hfits.toNat_append] at hn
    exact hn
  have hpos := length_pos_iff.mpr hne
  refine ⟨_, congrArg Serializer.buffer hput, ⟨Deserializer.good_iff.mpr ⟨?_, ?_⟩,
    prefix_drop_load (load_eq fun _ hi => store_of_mem hi) hle⟩, ?_⟩
  · intro hn0
    have hzero : n.toNat = 0 := congrArg BitVec.toNat hn0
    omega
  · exact le_trans (Nat.le_add_right _ _) hle
  · rw [hput]
    rfl

open Decoder Deserializer in
/-- If the bytes that are written are in the format that is read, the value is found again, and
exactly these bytes are read. -/
lemma Serializer.Appends.read {α : Type} {bs : List Byte}
    {m : DesM α} {G : Grammar Byte α} {a : α} {mem : ℕ → Byte} {size offset n : BitVec 32}
    (h : Appends put bs) (hm : Refines m G) (ha : G.accepts a bs) (hne : bs ≠ [])
    (hgood : (put ⟨some mem, size, offset⟩).good = true)
    (hn : (put ⟨some mem, size, offset⟩).bufferOffset ≤ n) :
    ∃ mem', (put ⟨some mem, size, offset⟩).buffer = some mem' ∧ m (ofMemory mem' n offset) =
        .ok (a, ofMemory mem' n (put ⟨some mem, size, offset⟩).bufferOffset) := by
  obtain ⟨mem', hmem', hnext, hadvance⟩ := h.next hne hgood hn
  refine ⟨mem', hmem', ?_⟩
  rw [← hadvance]
  exact hm.complete ha hnext

end Beegfs
