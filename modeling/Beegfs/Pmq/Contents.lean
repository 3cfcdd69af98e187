import Beegfs.Pmq.Packing

/-!
# What a queue holds

The messages that a queue has on the disk, with their numbers: those of the chunks that are not
discarded, and then those in `wal.dat`.  When the files hold the messages between some positions,
then these are what is read from them, in order, each of them once and with its bytes.
-/

namespace Beegfs.Pmq

open SeqNum BitVec List Nat

open Bytes

/-! ## Reading the files -/

/-- The messages of a chunk. -/
def chunkMessages (page : Page) : List (Sn × List Byte) :=
  (List.range (hdrMsgcount page)).map fun i =>
    let offset := msgOffset page (hdrMsgoffsetsOff page)
    (hdrMsn page + BitVec.ofNat 64 i, load page (offset i) (offset (i + 1) - offset i))

/-- The payloads of the slots from `ssn` on, one after the other. -/
def slotStream (slots : ℕ → Slot) (ssn : Sn) : ℕ → Byte := fun j =>
  (slots (slotFor slotCount (ssn + BitVec.ofNat 64 (j / slotSpace)))).payload (j % slotSpace)

/-- The messages in the slots from `ssn` to `walSsn`, which are numbered from `msn` on. -/
def slotMessages (slots : ℕ → Slot) (walSsn : Sn) : ℕ → Sn → Sn → List (Sn × List Byte)
  | 0, _, _ => []
  | fuel + 1, ssn, msn =>
    if ssn = walSsn then
      []
    else
      let size := (slots (slotFor slotCount ssn)).msgsize.toNat
      (msn, load (slotStream slots ssn) 0 size) ::
        slotMessages slots walSsn fuel (ssn + BitVec.ofNat 64 (nslotsReq size)) (msn + 1)

/-- The messages in a chunk store of `chunkCount` chunks and in `wal.dat`. -/
def diskMessages (chunkCount : ℕ) (pc : PersistCursors) (chunks : ℕ → Page) (slots : ℕ → Slot) :
    List (Sn × List Byte) :=
  ((List.range (pc.cksCsn - pc.cksDiscardCsn).toNat).flatMap fun k =>
    chunkMessages (chunks (slotFor chunkCount (pc.cksDiscardCsn + BitVec.ofNat 64 k)))) ++
  slotMessages slots pc.walSsn (pc.walSsn - pc.cksSsn).toNat pc.cksSsn pc.cksMsn

/-- The messages of the list from `a` to `b`, with their numbers. -/
def numbered (enqueued : List MessageData) (a b : ℕ) : List (Sn × List Byte) :=
  (List.range' a (b - a)).filterMap fun i => enqueued[i]?.map fun m => (BitVec.ofNat 64 i, m.bytes)

/-- The number of messages that are packed into the first `d` chunks. -/
def messagesBefore (enqueued : List MessageData) (d : ℕ) : ℕ :=
  (List.range enqueued.length).countP fun i => (packing (enqueued.take (i + 1))).chunk < d

/-! ## What is read -/

section Contents

variable {msg : ℕ → Message} {cks : ChunkStore}

variable (msg) in
/-- Message `i` with its number. -/
def entry (i : ℕ) : Sn × List Byte := (BitVec.ofNat 64 i, (msg i).bytes)

lemma PageHolds.chunkMessages_eq {a b : ℕ} {page : Page} (h : PageHolds msg a b page) :
    chunkMessages page = (List.range' a (b - a)).map (entry msg) := by
  rw [chunkMessages, h.msgcount, List.range'_eq_map_range, map_map]
  refine map_congr_left fun i hi => ?_
  have hi' : i < b - a := mem_range.mp hi
  have hsize : offsetIn msg a (a + (i + 1)) - offsetIn msg a (a + i) = (msg (a + i)).size := by
    rw [← Nat.add_assoc, offsetIn_succ (Nat.le_add_right a i), Nat.add_sub_cancel_left]
  simp only [h.msn, h.msgoffsetsOff, h.offsets i hi'.le, h.offsets (i + 1) hi', hsize,
    Function.comp_apply, entry, ← ofNat_add, MessageData.bytes, Prod.mk.injEq, true_and]
  refine load_congr fun j hj => ?_
  have hpack := h.packed (a + i) (Nat.le_add_right a i) (by omega) j hj
  rwa [Nat.zero_add] at hpack ⊢

variable {slots : ℕ → Slot}

/-- The slots of a message are read as its bytes. -/
lemma load_slotStream {i : ℕ}
    (h : ∀ t, t < (msg i).nslots → (msg i).SlotHolds t (slots ((slotPos msg i + t) % slotCount))) :
    load (slotStream slots (BitVec.ofNat 64 (slotPos msg i))) 0 (msg i).size = (msg i).bytes := by
  refine load_congr fun j hj => ?_
  have ht : j / slotSpace < (msg i).nslots := by
    unfold MessageData.nslots nslotsReq slotSpace
    omega
  have hpayl := (h _ ht).payload (j % slotSpace) (by
    have hmod := div_add_mod j slotSpace
    have hlt := mod_lt j (by decide : 0 < slotSpace)
    rw [MessageData.slotBytes]
    omega)
  rw [div_add_mod] at hpayl
  rw [Nat.zero_add, slotStream, slotFor_slotCount_add]
  exact hpayl

/-- Reading the slots of messages gives the messages. -/
lemma RingHolds.slotMessages_eq {i w fuel : ℕ} (h : RingHolds msg slots i w)
    (hle : i ≤ w) (hring : slotPos msg w ≤ slotPos msg i + slotCount) (hfuel : w - i ≤ fuel) :
    slotMessages slots (BitVec.ofNat 64 (slotPos msg w)) fuel (BitVec.ofNat 64 (slotPos msg i))
      (BitVec.ofNat 64 i) = (List.range' i (w - i)).map (entry msg) := by
  induction fuel generalizing i with
  | zero =>
    rw [le_zero.mp hfuel]
    rfl
  | succ fuel ih =>
    rw [slotMessages]
    rcases Nat.eq_or_lt_of_le hle with rfl | hlt
    · rw [if_pos rfl, Nat.sub_self]
      rfl
    · have hpos : slotPos msg i < slotPos msg w := slotPos_strictMono hlt
      have hne : BitVec.ofNat 64 (slotPos msg i) ≠ BitVec.ofNat 64 (slotPos msg w) := by
        unfold slotCount at hring
        rw [Ne, ofNat_inj ⟨by omega, by omega⟩]
        exact hpos.ne
      have hslots := h i le_rfl hlt
      have hleader := hslots 0 (msg i).nslots_pos
      have hsize : (slots (slotPos msg i % slotCount)).msgsize.toNat = (msg i).size :=
        hleader.msgsize
      have hnext : slotPos msg (i + 1) = slotPos msg i + (msg i).nslots := slotPos_succ i
      rw [if_neg hne, slotFor_slotCount]
      simp only [hsize]
      rw [load_slotStream hslots, ofNat_add_one, ← ofNat_add]
      have hrest := ih (i := i + 1) (h.mono (Nat.le_add_right i 1) le_rfl) hlt (by omega) (by omega)
      have hrange : List.range' i (w - i) = i :: List.range' (i + 1) (w - (i + 1)) := by
        rw [← List.range'_succ, sub_add_eq, Nat.sub_add_cancel (Nat.sub_pos_of_lt hlt)]
      rw [hrange]
      exact congrArg _ hrest

variable (msg) in
/-- The messages of consecutive chunks are consecutive. -/
lemma flatMap_chunks (d k : ℕ) :
    ((List.range k).flatMap fun j => (List.range' (chunkStart msg (d + j))
      (chunkStart msg (d + j + 1) - chunkStart msg (d + j))).map (entry msg)) =
      (List.range' (chunkStart msg d) (chunkStart msg (d + k) - chunkStart msg d)).map
        (entry msg) := by
  induction k with
  | zero => simp
  | succ k ih =>
    have hle := chunkStart_le msg (Nat.le_add_right d k)
    have hlt := chunkStart_le msg (Nat.le_add_right (d + k) 1)
    rw [range_succ, flatMap_append, ih, flatMap_singleton, ← map_append, ← Nat.add_assoc]
    congr 1
    have hsum : chunkStart msg (d + k + 1) - chunkStart msg d =
        (chunkStart msg (d + k) - chunkStart msg d) +
          (chunkStart msg (d + k + 1) - chunkStart msg (d + k)) := by
      omega
    rw [hsum, ← List.range'_append_1, Nat.add_sub_cancel' hle]

/-- The files hold the messages from the oldest chunk to `walled`. -/
lemma diskMessages_eq {r : Marks} {chunks : ℕ → Page}
    (hchs : ∀ j, r.discarded ≤ j → j < r.stored →
      PageHolds msg (chunkStart msg j) (chunkStart msg (j + 1)) (chunks (j % cks.chunkCount)))
    (hslots : RingHolds msg slots (chunkStart msg r.stored) r.walled)
    (hd : r.discarded ≤ r.stored) (hs : r.stored ≤ r.discarded + cks.chunkCount)
    (hw : chunkStart msg r.stored ≤ r.walled)
    (hring : slotPos msg r.walled ≤ slotPos msg (chunkStart msg r.stored) + slotCount) :
    diskMessages cks.chunkCount (r.cursors msg) chunks slots =
      (List.range' (chunkStart msg r.discarded) (r.walled - chunkStart msg r.discarded)).map
        (entry msg) := by
  have hcount := cks.chunkCount_le
  have hpos := slotPos_le msg hw
  have hstart := chunkStart_le msg hd
  have hwal := hslots.slotMessages_eq hw hring (le_sub_of_add_le (sub_add_slotPos_le msg hw))
  have hchunkpart : ∀ k, k < r.stored - r.discarded → chunkMessages (chunks (slotFor cks.chunkCount
        (BitVec.ofNat 64 r.discarded + BitVec.ofNat 64 k))) =
      (List.range' (chunkStart msg (r.discarded + k))
        (chunkStart msg (r.discarded + k + 1) - chunkStart msg (r.discarded + k))).map
          (entry msg) := by
    intro k hk
    rw [← ofNat_add, slotFor_chunkCount]
    exact (hchs _ (Nat.le_add_right _ _) (by omega)).chunkMessages_eq
  unfold diskMessages Marks.cursors
  rw [toNat_sub hd (by omega), toNat_sub hpos (by unfold slotCount at hring; omega), hwal]
  have hflat := flatMap_chunks msg r.discarded (r.stored - r.discarded)
  rw [Nat.add_sub_cancel' hd] at hflat
  rw [flatMap_congr fun k hk => hchunkpart k (mem_range.mp hk), hflat, ← map_append]
  congr 1
  have hsum : r.walled - chunkStart msg r.discarded =
      (chunkStart msg r.stored - chunkStart msg r.discarded) +
        (r.walled - chunkStart msg r.stored) := by
    omega
  rw [hsum, ← List.range'_append_1, Nat.add_sub_cancel' hstart]

/-! ## The same, in terms of the list of messages -/

lemma numbered_firstMessages {n a b : ℕ} (hb : b ≤ n) :
    numbered (firstMessages msg n) a b = (List.range' a (b - a)).map (entry msg) := by
  rw [← filterMap_eq_map]
  refine filterMap_congr fun i hi => ?_
  obtain ⟨_, _⟩ := mem_range'_1.mp hi
  rw [getElem?_firstMessages msg (by omega)]
  rfl

lemma messagesBefore_firstMessages {n d : ℕ} (hd : chunkStart msg d ≤ n) :
    messagesBefore (firstMessages msg n) d = chunkStart msg d := by
  have hlt : ∀ i, i < n → ((packing ((firstMessages msg n).take (i + 1))).chunk < d ↔
      i < chunkStart msg d) := by
    intro i hi
    have hat := packing_at msg (i + 1)
    have hstart : chunkStart msg (packing (firstMessages msg (i + 1))).chunk ≤ i := by
      rcases packing_started (firstMessages msg (i + 1)) with hzero | hpos
      · rw [hzero]
        exact zero_le i
      · rw [hat.count] at hpos
        omega
    rw [take_firstMessages msg hi]
    constructor
    · intro hlt
      exact lt_of_lt_of_le hat.le_end (chunkStart_le msg hlt)
    · intro hlt
      exact chunkStart_strictMono.lt_iff_lt.mp (hstart.trans_lt hlt)
  rw [messagesBefore, length_firstMessages,
    countP_congr (q := fun i => decide (i < chunkStart msg d)) fun i hi => by
      simpa using hlt i (mem_range.mp hi)]
  have hsum : n = chunkStart msg d + (n - chunkStart msg d) := by omega
  rw [hsum, range_add, countP_append, countP_eq_length.mpr, countP_eq_zero.mpr,
    length_range, Nat.add_zero]
  · simp
  · simp

end Contents

end Beegfs.Pmq
