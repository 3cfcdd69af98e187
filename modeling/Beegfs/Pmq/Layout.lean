import Beegfs.Pmq.Enqueuer

/-!
# Where messages are

The queue numbers messages from zero on.  Which slots a message has, and which chunk it is packed
into, depends only on the messages before it: messages have consecutive slots, and a chunk is closed
when the next message does not fit.  Everything here is about a sequence `msg` of all messages there
will ever be, and the positions are natural numbers that do not wrap around.
-/

namespace Beegfs.Pmq

open Bytes BitVec Nat

/-- What is given to `pmq_enqueue_msg`. -/
structure MessageData where
  size : ℕ
  data : ℕ → Byte

namespace MessageData

variable (m : MessageData)

/-- The bytes of the message. -/
def bytes : List Byte := load m.data 0 m.size

/-- The number of slots of the message. -/
def nslots : ℕ := nslotsReq m.size

/-- The bytes of the message that are in its slot `t`. -/
def slotBytes (t : ℕ) : ℕ := min slotSpace (m.size - slotSpace * t)

/-- The slot is slot `t` of the message. -/
structure SlotHolds (t : ℕ) (slot : Slot) : Prop where
  flags : slot.flags = slotFlags t
  msgsize : slot.msgsize.toNat = m.size - slotSpace * t
  payload : ∀ j, j < m.slotBytes t → slot.payload j = m.data (slotSpace * t + j)

end MessageData

/-- A message that may be enqueued: it has at least one byte, and fits into a chunk. -/
structure Message extends MessageData where
  size_pos : 0 < size
  size_le : size ≤ 65516

instance : Inhabited Message := ⟨⟨⟨1, fun _ => 0⟩, by decide, by decide⟩⟩

namespace Message

variable (m : Message)

lemma nslots_pos : 0 < m.nslots := by
  have h := m.size_pos
  unfold MessageData.nslots nslotsReq slotSpace
  omega

lemma nslots_le : m.nslots ≤ 585 := by
  have h := m.size_le
  unfold MessageData.nslots nslotsReq slotSpace
  omega

end Message

section Layout

variable (msg : ℕ → Message)

/-! ## Slots -/

/-- The number of slots of the first messages: the slot at which a message starts. -/
def slotPos : ℕ → ℕ
  | 0 => 0
  | i + 1 => slotPos i + (msg i).nslots

/-- The slots of the messages from `a` to `b` are in a ring. -/
def RingHolds (slots : ℕ → Slot) (a b : ℕ) : Prop :=
  ∀ i, a ≤ i → i < b → ∀ t, t < (msg i).nslots →
    (msg i).SlotHolds t (slots ((slotPos msg i + t) % slotCount))

/-! ## Chunks -/

/-- The number of bytes of the first messages. -/
def bytesBefore : ℕ → ℕ
  | 0 => 0
  | i + 1 => bytesBefore i + (msg i).size

/-- The place of message `i` in a chunk that begins with message `a`, after the header. -/
def offsetIn (a i : ℕ) : ℕ := 16 + (bytesBefore msg i - bytesBefore msg a)

/-- Message `i` fits into a chunk that has the messages from `a` on. -/
def Fits (a i : ℕ) : Prop := offsetIn msg a i + (msg i).size ≤ chunkSize - (i - a + 2) * 2
  deriving Decidable

variable {msg}

lemma slotPos_succ (i : ℕ) : slotPos msg (i + 1) = slotPos msg i + (msg i).nslots := rfl

lemma slotPos_strictMono : StrictMono (slotPos msg) :=
  strictMono_nat_of_lt_succ fun i => Nat.lt_add_of_pos_right (msg i).nslots_pos

variable (msg) in
lemma slotPos_le {i j : ℕ} (h : i ≤ j) : slotPos msg i ≤ slotPos msg j :=
  slotPos_strictMono.monotone h

variable (msg) in
/-- Every message has a slot of its own. -/
lemma sub_add_slotPos_le {i j : ℕ} (h : i ≤ j) : j - i + slotPos msg i ≤ slotPos msg j := by
  have hle := slotPos_strictMono.add_le_nat (f := slotPos msg) (j - i) i
  rwa [Nat.sub_add_cancel h] at hle

lemma bytesBefore_succ (i : ℕ) : bytesBefore msg (i + 1) = bytesBefore msg i + (msg i).size := rfl

variable (msg) in
lemma bytesBefore_mono : Monotone (bytesBefore msg) :=
  monotone_nat_of_le_succ fun i => Nat.le_add_right (bytesBefore msg i) (msg i).size

variable (msg) in
/-- A chunk of messages from `a` to `b` has at most a third as many slots as it has bytes. -/
lemma three_mul_slotPos_le {a b : ℕ} (h : a ≤ b) :
    3 * slotPos msg b + bytesBefore msg a ≤
      3 * slotPos msg a + bytesBefore msg b + 2 * (b - a) := by
  induction b, h using le_induction with
  | base => omega
  | succ b hab ih =>
    -- A slot for each byte is the worst case, and then two more bytes are used for the offset.
    rw [slotPos_succ, bytesBefore_succ]
    unfold MessageData.nslots nslotsReq slotSpace
    omega

variable (a : ℕ)

@[simp] lemma offsetIn_self : offsetIn msg a a = 16 := by simp [offsetIn]

lemma offsetIn_succ {a i : ℕ} (h : a ≤ i) :
    offsetIn msg a (i + 1) = offsetIn msg a i + (msg i).size := by
  have hle := bytesBefore_mono msg h
  rw [offsetIn, offsetIn, bytesBefore_succ]
  omega

variable (msg) in
lemma offsetIn_mono {i j : ℕ} (h : i ≤ j) : offsetIn msg a i ≤ offsetIn msg a j := by
  have hle := bytesBefore_mono msg h
  rw [offsetIn, offsetIn]
  omega

/-- Every message fits into an empty chunk. -/
lemma fits_self : Fits msg a a := by
  have h := (msg a).size_le
  rw [Fits, offsetIn_self, chunkSize]
  omega

variable (msg) in
lemma exists_not_fits : ∃ i, a ≤ i ∧ ¬Fits msg a i := by
  refine ⟨a + chunkSize, Nat.le_add_right a chunkSize, ?_⟩
  rw [Fits, offsetIn, chunkSize]
  omega

variable (msg) in
/-- The first message that does not fit into the chunk that begins with message `a`. -/
def chunkEnd : ℕ := Nat.find (exists_not_fits msg a)

variable (msg) in
/-- The first message of each chunk. -/
def chunkStart : ℕ → ℕ
  | 0 => 0
  | j + 1 => chunkEnd msg (chunkStart j)

lemma chunkStart_succ (j : ℕ) : chunkStart msg (j + 1) = chunkEnd msg (chunkStart msg j) := rfl

variable (msg) in
lemma not_fits_chunkEnd : ¬Fits msg a (chunkEnd msg a) := (Nat.find_spec (exists_not_fits msg a)).2

lemma fits_of_lt_chunkEnd {a i : ℕ} (hai : a ≤ i) (hi : i < chunkEnd msg a) : Fits msg a i := by
  by_contra h
  exact Nat.find_min (exists_not_fits msg a) hi ⟨hai, h⟩

variable (msg) in
lemma lt_chunkEnd : a < chunkEnd msg a := by
  have hle := (Nat.find_spec (exists_not_fits msg a)).1
  refine lt_of_le_of_ne hle fun heq => not_fits_chunkEnd msg a ?_
  have hend : chunkEnd msg a = a := heq.symm
  rw [hend]
  exact fits_self a

/-- A message after a chunk's messages fits exactly if the chunk does not end there. -/
lemma fits_iff_lt_chunkEnd {a i : ℕ} (hai : a ≤ i) (hi : i ≤ chunkEnd msg a) :
    Fits msg a i ↔ i < chunkEnd msg a := by
  refine ⟨fun h => lt_of_le_of_ne hi fun heq => ?_, fits_of_lt_chunkEnd hai⟩
  rw [heq] at h
  exact not_fits_chunkEnd msg a h

lemma chunkStart_strictMono : StrictMono (chunkStart msg) :=
  strictMono_nat_of_lt_succ fun j => lt_chunkEnd msg (chunkStart msg j)

variable (msg) in
lemma chunkStart_le {i j : ℕ} (h : i ≤ j) : chunkStart msg i ≤ chunkStart msg j :=
  chunkStart_strictMono.monotone h

/-- The messages of a chunk end before its array of offsets. -/
lemma offsetIn_le {a i : ℕ} (hai : a ≤ i) (hi : i ≤ chunkEnd msg a) :
    offsetIn msg a i ≤ chunkSize - 2 * (i - a + 1) ∧ 2 * (i - a + 1) ≤ chunkSize := by
  rcases Nat.eq_or_lt_of_le hai with rfl | hlt
  · rw [offsetIn_self, chunkSize]
    omega
  · obtain ⟨j, rfl⟩ : ∃ j, i = j + 1 := ⟨i - 1, by omega⟩
    have hfits : Fits msg a j := fits_of_lt_chunkEnd (by omega) hi
    unfold Fits at hfits
    rw [offsetIn_succ (by omega)]
    have hpos := (msg j).size_pos
    omega

/-- The messages of one chunk have at most 21839 slots. -/
lemma slotPos_le_of_le_chunkEnd {a i : ℕ} (hai : a ≤ i) (hi : i ≤ chunkEnd msg a) :
    slotPos msg i ≤ slotPos msg a + 21839 := by
  have hslots := three_mul_slotPos_le msg hai
  obtain ⟨hoff, -⟩ := offsetIn_le hai hi
  rw [offsetIn, chunkSize] at hoff
  omega

end Layout

/-! ## The ring of slots

What the enqueuer writes to the ring, and what the persister finds there: a message keeps its slots
until the ring has gone round once. -/

open SeqNum

/-! ### Places in the rings -/

lemma slotFor_slotCount (p : ℕ) : slotFor slotCount (BitVec.ofNat 64 p) = p % slotCount :=
  slotFor_ofNat (k := 19) (by decide) p

lemma slotFor_slotCount_add (p i : ℕ) :
    slotFor slotCount (BitVec.ofNat 64 p + BitVec.ofNat 64 i) = (p + i) % slotCount := by
  rw [← ofNat_add, slotFor_slotCount]

lemma slotFor_numChunkBuffers (p : ℕ) : slotFor numChunkBuffers (BitVec.ofNat 64 p) = p % 2 :=
  slotFor_ofNat (k := 1) (by decide) p

lemma slotFor_chunkCount (cks : ChunkStore) (p : ℕ) :
    slotFor cks.chunkCount (BitVec.ofNat 64 p) = p % cks.chunkCount := by
  obtain ⟨e, he, _, _⟩ := cks.exists_chunkCount
  rw [he]
  exact slotFor_ofNat (by omega) p

/-! ### Writing a message -/

section Write

variable {m : Message} {slots : ℕ → Slot} {p : ℕ}

lemma writeSlot_of_ne {flags : BitVec 32} {msgsize : ℕ} {data : ℕ → Byte} {i n x : ℕ}
    (hx : x ≠ p % slotCount) :
    writeSlot slots (BitVec.ofNat 64 p) flags msgsize data i n x = slots x := by
  rw [writeSlot, slotFor_slotCount, Function.update_of_ne hx]

/-- The first `k` slots of `m` are at `p`, and the other slots are as they were in `slots`. -/
def WritesSlots (m : Message) (p k : ℕ) (slots slots' : ℕ → Slot) : Prop :=
  (∀ t, t < k → m.SlotHolds t (slots' ((p + t) % slotCount))) ∧
    ∀ x, (∀ t, t < k → x ≠ (p + t) % slotCount) → slots' x = slots x

/-- One more slot is written. -/
lemma WritesSlots.writeSlot {k n : ℕ} {slots' : ℕ → Slot} (h : WritesSlots m p k slots slots')
    (hk : k < slotCount) (hn : m.slotBytes k ≤ n) :
    WritesSlots m p (k + 1) slots (writeSlot slots' (BitVec.ofNat 64 p + BitVec.ofNat 64 k)
      (slotFlags k) (m.size - slotSpace * k) m.data (slotSpace * k) n) := by
  obtain ⟨hholds, hother⟩ := h
  rw [← ofNat_add]
  refine ⟨fun t ht => ?_, fun x hx => ?_⟩
  · rcases Nat.lt_succ_iff_lt_or_eq.mp ht with hlt | rfl
    · have hne : (p + t) % slotCount ≠ (p + k) % slotCount := mod_ne_mod (by omega) (by omega)
      rw [writeSlot_of_ne hne]
      exact hholds t hlt
    · have hsize := m.size_le
      rw [Pmq.writeSlot, slotFor_slotCount, Function.update_self]
      refine ⟨rfl, ?_, fun j hj => ?_⟩
      · rw [toNat_ofNat, mod_eq_of_lt (by omega)]
      · have hcopy : copy (slots' ((p + t) % slotCount)).payload 0 m.data (slotSpace * t) n
            (0 + j) = m.data (slotSpace * t + j) := copy_of_mem (hj.trans_le hn)
        rwa [Nat.zero_add] at hcopy
  · rw [writeSlot_of_ne (hx k (lt_succ_self k))]
    exact hother x fun t ht => hx t (lt_succ_of_lt ht)

lemma writesSlots_writeFullSlots (m : Message) (slots : ℕ → Slot) (p : ℕ) {k : ℕ}
    (hk : k ≤ m.size / slotSpace) :
    WritesSlots m p k slots (writeFullSlots slots (BitVec.ofNat 64 p) m.data m.size k) := by
  have hsize := m.size_le
  unfold slotSpace at hk
  induction k with
  | zero => exact ⟨nofun, fun x _ => rfl⟩
  | succ k ih =>
    refine (ih (by omega)).writeSlot ?_ (Nat.min_le_left _ _)
    unfold slotCount
    omega

lemma slotsWritten_eq (m : Message) : slotsWritten m.size = m.nslots := by
  unfold slotsWritten MessageData.nslots nslotsReq slotSpace
  split <;> omega

/-- All slots of the message are written, and no other ones. -/
lemma writesSlots_writeMsg (m : Message) (slots : ℕ → Slot) (p : ℕ) :
    WritesSlots m p m.nslots slots (writeMsg slots (BitVec.ofNat 64 p) m.data m.size) := by
  have hfull := writesSlots_writeFullSlots m slots p le_rfl
  have hsize := m.size_le
  rw [← slotsWritten_eq m]
  unfold writeMsg slotsWritten
  by_cases h : slotSpace * (m.size / slotSpace) < m.size
  · rw [if_pos h, if_pos h]
    refine hfull.writeSlot ?_ (Nat.min_le_right _ _)
    unfold slotCount slotSpace
    omega
  · rw [if_neg h, if_neg h]
    exact hfull

end Write

/-! ### What the ring holds -/

section Ring

variable {msg : ℕ → Message} {slots : ℕ → Slot} {a b c : ℕ}

lemma RingHolds.mono {a' b' : ℕ} (h : RingHolds msg slots a b) (ha : a ≤ a') (hb : b' ≤ b) :
    RingHolds msg slots a' b' :=
  fun i hi hi' => h i (ha.trans hi) (hi'.trans_le hb)

/-- The slots of a message lie between its start and that of the next one. -/
lemma slotPos_add_lt {i t : ℕ} (ht : t < (msg i).nslots) (hi : i < b) :
    slotPos msg i + t < slotPos msg b := by
  have hle := slotPos_le msg hi
  rw [slotPos_succ] at hle
  omega

variable (h : RingHolds msg slots a b)

include h

/-- The next message may be written when the ring has room for it after the messages that it
holds. -/
lemma RingHolds.writeMsg (hab : a ≤ b) (hroom : slotPos msg (b + 1) ≤ slotPos msg a + slotCount) :
    RingHolds msg (writeMsg slots (BitVec.ofNat 64 (slotPos msg b)) (msg b).data (msg b).size) a
      (b + 1) := by
  obtain ⟨hholds, hother⟩ := writesSlots_writeMsg (msg b) slots (slotPos msg b)
  intro i hai hib t ht
  rcases Nat.lt_succ_iff_lt_or_eq.mp hib with hlt | rfl
  · rw [hother]
    · exact h i hai hlt t ht
    · intro t' ht'
      have hbef := slotPos_add_lt ht hlt
      have hstart := slotPos_le msg hai
      have hend := slotPos_add_lt ht' (lt_succ_self b)
      rw [succ_eq_add_one] at hend
      exact mod_ne_mod (by omega) (by omega)
  · exact hholds t ht

/-- The leader of a message is found at its position. -/
lemma RingHolds.leader {i : ℕ} (hai : a ≤ i) (hib : i < b) :
    (slots (slotPos msg i % slotCount)).isLeader = true ∧
      (slots (slotPos msg i % slotCount)).msgsize.toNat = (msg i).size := by
  obtain ⟨hflags, hsize, _⟩ := h i hai hib 0 (msg i).nslots_pos
  rw [Nat.add_zero] at hflags hsize
  refine ⟨?_, hsize⟩
  rw [Slot.isLeader, hflags]
  decide

/-- The slots of one message have one leader. -/
lemma countLeaders_msg {i : ℕ} (hai : a ≤ i) (hib : i < b) (n : ℕ)
    {p : ℕ} (hp : p + n = slotPos msg i) {k : ℕ} (hk : k ≤ (msg i).nslots) (hpos : 0 < k) :
    countLeaders slots (BitVec.ofNat 64 p) (n + k) =
      countLeaders slots (BitVec.ofNat 64 p) n + 1 := by
  induction k with
  | zero => nomatch hpos
  | succ k ih =>
    have hflags := (h i hai hib k hk).flags
    rw [← hp] at hflags
    rw [← Nat.add_assoc, countLeaders, slotFor_slotCount_add, Slot.isLeader, ← Nat.add_assoc,
      hflags]
    rcases Nat.eq_zero_or_pos k with rfl | hkpos
    · rfl
    · have hzero : slotFlags k = 0 := if_neg (Nat.pos_iff_ne_zero.mp hkpos)
      rw [hzero, ih (le_of_succ_le hk) hkpos]
      rfl

/-- Counting the leaders counts the messages. -/
lemma RingHolds.countLeaders (hac : a ≤ c) (hcb : c ≤ b) :
    countLeaders slots (BitVec.ofNat 64 (slotPos msg a)) (slotPos msg c - slotPos msg a) =
      c - a := by
  induction c, hac using le_induction with
  | base =>
    rw [Nat.sub_self, Nat.sub_self]
    rfl
  | succ c hac ih =>
    have hle := slotPos_le msg hac
    have hsplit : slotPos msg (c + 1) - slotPos msg a =
        slotPos msg c - slotPos msg a + (msg c).nslots := by
      rw [slotPos_succ]
      omega
    rw [hsplit, countLeaders_msg h hac hcb _ (by omega) le_rfl (msg c).nslots_pos]
    omega

end Ring

end Beegfs.Pmq
