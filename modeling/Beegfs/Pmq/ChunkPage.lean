import Beegfs.Pmq.Layout

/-!
# The pages of the chunk store

A chunk has a header with the number of its first message, the number of its messages and the place
of an array of offsets at its end; the messages lie one after the other in between.  Here is how
such a page is read, and that the persister's pages hold the messages that were packed into them.
-/

namespace Beegfs.Pmq

open Bytes Nat

/-! ## Reading a page -/

variable (page : Page)

def hdrMsn : Sn := ofWordBytes 64 (load page 0 8)

def hdrMsgcount : ℕ := (ofWordBytes 16 (load page 8 2)).toNat

def hdrMsgoffsetsOff : ℕ := (ofWordBytes 16 (load page 10 2)).toNat

/-- Entry `i` of the array of offsets at `msgoffsetsOff`. -/
def msgOffset (msgoffsetsOff i : ℕ) : ℕ :=
  (ofWordBytes 16 (load page (msgoffsetsOff + 2 * i) 2)).toNat

/-- The place of the array of offsets in a chunk of `count` messages. -/
def offsetsPlace (count : ℕ) : ℕ := chunkSize - 2 * (count + 1)

section Pages

variable (msg : ℕ → Message)

/-- The messages from `a` to `b` lie in memory one after the other, in a chunk at address `data`
that begins with message `a`. -/
def Packed (a b : ℕ) (memory : ℕ → Byte) (data : ℕ) : Prop :=
  ∀ i, a ≤ i → i < b → ∀ j, j < (msg i).size → memory (data + offsetIn msg a i + j) = (msg i).data j

/-- The page holds the messages from `a` to `b`. -/
structure PageHolds (a b : ℕ) (page : Page) : Prop where
  msn : hdrMsn page = BitVec.ofNat 64 a
  msgcount : hdrMsgcount page = b - a
  msgoffsetsOff : hdrMsgoffsetsOff page = offsetsPlace (b - a)
  offsets : ∀ i, i ≤ b - a → msgOffset page (offsetsPlace (b - a)) i = offsetIn msg a (a + i)
  packed : Packed msg a b page 0

variable {msg} {a b : ℕ} {memory : ℕ → Byte} {data : ℕ} {offsets : ℕ → ℕ}

/-- A page does not depend on the bytes that are not read: those outside of it, and those of the
gaps. -/
lemma PageHolds.congr {page page' : Page} (h : PageHolds msg a b page)
    (hpage : ∀ i, i < chunkSize → page' i = page i) (hab : a ≤ b) (hb : b ≤ chunkEnd msg a) :
    PageHolds msg a b page' := by
  obtain ⟨hoff, hoffs⟩ := offsetIn_le hab hb
  rw [chunkSize] at hoff hoffs
  have hload : ∀ x n, x + n ≤ 65536 → load page' x n = load page x n := fun x n hx =>
    load_congr fun i hi => hpage (x + i) (by rw [chunkSize]; omega)
  refine ⟨?_, ?_, ?_, fun i hi => ?_, fun i hai hib j hj => ?_⟩
  · rw [hdrMsn, hload 0 8 (by decide)]
    exact h.msn
  · rw [hdrMsgcount, hload 8 2 (by decide)]
    exact h.msgcount
  · rw [hdrMsgoffsetsOff, hload 10 2 (by decide)]
    exact h.msgoffsetsOff
  · rw [msgOffset, hload _ 2 (by rw [offsetsPlace, chunkSize]; omega)]
    exact h.offsets i hi
  · rw [hpage]
    · exact h.packed i hai hib j hj
    · have hnext := (offsetIn_le (le_succ_of_le hai) (le_trans hib hb)).1
      rw [offsetIn_succ hai, chunkSize] at hnext
      rw [chunkSize]
      omega

/-! ## Finishing a page -/

/-- A word in memory is found again when no byte of it was changed. -/
lemma ofWordBytes_load {w : ℕ} (hw : 8 ∣ w) {mem : ℕ → Byte} {x : ℕ} {value : BitVec w}
    (h : ∀ i, i < w / 8 → mem (x + i) = (wordBytes value).getD i 0) :
    ofWordBytes w (load mem x (w / 8)) = value := by
  have hload : load mem x (wordBytes value).length = wordBytes value := by
    refine load_eq fun i hi => h i ?_
    rwa [length_wordBytes] at hi
  rw [length_wordBytes] at hload
  rw [hload, ofWordBytes_wordBytes hw]

section FinishPage

variable {msn : Sn} {count : ℕ}

lemma length_wordBytes_u16 (value : BitVec 16) : (wordBytes value).length = 2 :=
  length_wordBytes value

lemma length_wordBytes_u64 (value : BitVec 64) : (wordBytes value).length = 8 :=
  length_wordBytes value

lemma msgOffset_finishPage {i : ℕ} (hi : i ≤ count) (hlt : offsets i < 65536) :
    msgOffset (fun i => finishPage memory data msn count offsets (data + i))
      (offsetsPlace count) i = offsets i := by
  have hword : ofWordBytes 16
      (load (fun i => finishPage memory data msn count offsets (data + i))
        (offsetsPlace count + 2 * i) 2) = BitVec.ofNat 16 (offsets i) := by
    refine ofWordBytes_load (by decide) fun j hj => ?_
    have hdiv : (2 * i + j) / 2 = i := by omega
    have hmod : (2 * i + j) % 2 = j := by omega
    rw [Nat.add_assoc, ← Nat.add_assoc data, finishPage, offsetsPlace, copy_of_mem (by omega),
      Nat.zero_add, offsetsBytes, hdiv, hmod]
  rw [msgOffset, hword, BitVec.toNat_ofNat, mod_eq_of_lt hlt]

section Finished

variable (hlow : 16 ≤ offsets count) (hend : offsets count ≤ offsetsPlace count)

include hend in
/-- The messages stay as they were. -/
lemma finishPage_of_msg {x : ℕ} (hx : 16 ≤ x) (hlt : x < offsets count) :
    finishPage memory data msn count offsets (data + x) = memory (data + x) := by
  unfold offsetsPlace at hend
  rw [finishPage, copy_of_not_mem (by omega), copy_of_not_mem (by omega),
    store_of_not_mem (by rw [length_wordBytes_u16]; omega),
    store_of_not_mem (by rw [length_wordBytes_u16]; omega),
    store_of_not_mem (by rw [length_wordBytes_u64]; omega)]

include hlow hend

lemma hdrMsn_finishPage :
    hdrMsn (fun i => finishPage memory data msn count offsets (data + i)) = msn := by
  unfold offsetsPlace at hend
  refine ofWordBytes_load (by decide) fun i hi => ?_
  rw [Nat.zero_add, finishPage, copy_of_not_mem (by omega), copy_of_not_mem (by omega),
    store_of_not_mem (by omega), store_of_not_mem (by omega),
    store_of_mem (by rw [length_wordBytes_u64]; exact hi)]

lemma hdrMsgcount_finishPage (hcount : 2 * (count + 1) ≤ chunkSize) :
    hdrMsgcount (fun i => finishPage memory data msn count offsets (data + i)) = count := by
  unfold offsetsPlace at hend
  have hword : ofWordBytes 16
      (load (fun i => finishPage memory data msn count offsets (data + i)) 8 2) =
      BitVec.ofNat 16 count := by
    refine ofWordBytes_load (by decide) fun i hi => ?_
    rw [← Nat.add_assoc, finishPage, copy_of_not_mem (by omega), copy_of_not_mem (by omega),
      store_of_not_mem (by omega), store_of_mem (by rw [length_wordBytes_u16]; exact hi)]
  rw [chunkSize] at hcount
  rw [hdrMsgcount, hword, BitVec.toNat_ofNat, mod_eq_of_lt (by omega)]

lemma hdrMsgoffsetsOff_finishPage :
    hdrMsgoffsetsOff (fun i => finishPage memory data msn count offsets (data + i)) =
      offsetsPlace count := by
  have hword : ofWordBytes 16
      (load (fun i => finishPage memory data msn count offsets (data + i)) 10 2) =
      BitVec.ofNat 16 (offsetsPlace count) := by
    unfold offsetsPlace at hend ⊢
    refine ofWordBytes_load (by decide) fun i hi => ?_
    rw [← Nat.add_assoc, finishPage, copy_of_not_mem (by omega), copy_of_not_mem (by omega),
      store_of_mem (by rw [length_wordBytes_u16]; exact hi)]
  rw [hdrMsgoffsetsOff, hword, BitVec.toNat_ofNat]
  rw [offsetsPlace, chunkSize]
  omega

end Finished

/-- The page of a chunk that is finished holds its messages. -/
lemma finishPage_holds (hab : a ≤ b) (hb : b ≤ chunkEnd msg a)
    (hoffs : ∀ i, i ≤ b - a → offsets i = offsetIn msg a (a + i))
    (hpack : Packed msg a b memory data) :
    PageHolds msg a b fun i =>
      finishPage memory data (BitVec.ofNat 64 a) (b - a) offsets (data + i) := by
  obtain ⟨hoff, hcount⟩ := offsetIn_le hab hb
  have hlast : offsets (b - a) = offsetIn msg a b := by
    rw [hoffs (b - a) le_rfl, Nat.add_sub_cancel' hab]
  have hlow : 16 ≤ offsets (b - a) := hlast ▸ Nat.le_add_right 16 _
  have hend : offsets (b - a) ≤ offsetsPlace (b - a) := hlast ▸ hoff
  refine ⟨hdrMsn_finishPage hlow hend, hdrMsgcount_finishPage hlow hend hcount,
    hdrMsgoffsetsOff_finishPage hlow hend, fun i hi => ?_, fun i hai hib j hj => ?_⟩
  · have hlt : offsets i < 65536 := by
      have hle := (offsetIn_le (Nat.le_add_right a i) (by omega : a + i ≤ chunkEnd msg a)).1
      rw [chunkSize] at hle
      rw [hoffs i hi]
      omega
    rw [msgOffset_finishPage hi hlt, hoffs i hi]
  · have hnext : offsetIn msg a (i + 1) ≤ offsets (b - a) := by
      rw [hlast]
      exact offsetIn_mono msg a hib
    rw [offsetIn_succ hai] at hnext
    have hfirst : 16 ≤ offsetIn msg a i := Nat.le_add_right 16 _
    rw [Nat.zero_add, finishPage_of_msg hend (by omega) (by omega), ← Nat.add_assoc]
    exact hpack i hai hib j hj

end FinishPage

/-! ## Packing a message -/

section Copy

variable {slots : ℕ → Slot} {ssn : Sn} {dst n : ℕ}

/-- Only the bytes that are copied to are changed. -/
lemma copySlots_of_not_mem {k x : ℕ} (hx : x < dst ∨ dst + n * k ≤ x) :
    copySlots slots ssn memory dst n k x = memory x := by
  induction k with
  | zero => rfl
  | succ k ih =>
    rw [mul_succ] at hx
    rw [copySlots, copy_of_not_mem (by omega), ih (by omega)]

lemma copiedPerSlot_mul {m : Message} {t : ℕ} (ht : t < m.nslots) :
    copiedPerSlot m.size * t = slotSpace * t := by
  unfold copiedPerSlot
  split
  next h =>
    have hzero : t = 0 := by
      unfold MessageData.nslots nslotsReq slotSpace at ht
      unfold slotSpace at h
      omega
    rw [hzero, Nat.mul_zero, Nat.mul_zero]
  next => rfl

lemma size_le_bytesCopied (m : Message) : m.size ≤ bytesCopied m.size := by
  have hpos := m.size_pos
  unfold bytesCopied copiedPerSlot nslotsReq slotSpace
  split
  next h =>
    have hone : (m.size + 112 - 1) / 112 = 1 := by omega
    rw [hone, Nat.mul_one]
  next => omega

/-- The bytes of the message are copied. -/
lemma copySlots_holds {i : ℕ} {p : ℕ} (hp : p = slotPos msg i)
    (hslots : RingHolds msg slots i (i + 1)) {k : ℕ} (hk : k ≤ (msg i).nslots) {j : ℕ}
    (hj : j < copiedPerSlot (msg i).size * k) (hsize : j < (msg i).size) :
    copySlots slots (BitVec.ofNat 64 p) memory dst (copiedPerSlot (msg i).size) k (dst + j) =
      (msg i).data j := by
  induction k with
  | zero => nomatch hj
  | succ k ih =>
    have hmul := copiedPerSlot_mul hk
    have hn : copiedPerSlot (msg i).size ≤ slotSpace := by
      unfold copiedPerSlot
      split <;> omega
    rw [mul_succ] at hj
    rw [copySlots, slotFor_slotCount_add, hp]
    rcases Nat.lt_or_ge j (copiedPerSlot (msg i).size * k) with hlt | hge
    · rw [copy_of_not_mem (by omega)]
      exact hp ▸ ih (le_of_succ_le hk) hlt
    · obtain ⟨r, rfl⟩ := Nat.exists_eq_add_of_le hge
      have hpayl := (hslots i le_rfl (lt_succ_self i) k hk).payload r
      rw [MessageData.slotBytes, ← hmul] at hpayl
      rw [← Nat.add_assoc, copy_of_mem (by omega), Nat.zero_add, hpayl (by omega)]

end Copy

end Pages

end Beegfs.Pmq
