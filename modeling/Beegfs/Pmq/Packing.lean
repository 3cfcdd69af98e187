import Beegfs.Pmq.Invariant

/-!
# The messages enqueued so far

The positions of `Layout` are about all messages there will ever be.  What is known of a queue is
the list of the messages that were enqueued, and this file computes from the list where the slots of
its messages are (`slotsBefore`) and how they are packed into chunks (`packing`).
-/

namespace Beegfs.Pmq

open List Nat

section Packing

variable (msg : ℕ → Message)

/-! ## Lists of messages -/

/-- The first `n` messages. -/
def firstMessages (n : ℕ) : List MessageData := (List.range n).map fun i => (msg i).toMessageData

@[simp] lemma length_firstMessages (n : ℕ) : (firstMessages msg n).length = n := by
  simp [firstMessages]

lemma firstMessages_succ (n : ℕ) :
    firstMessages msg (n + 1) = firstMessages msg n ++ [(msg n).toMessageData] := by
  simp [firstMessages, range_succ]

lemma getElem?_firstMessages {n i : ℕ} (hi : i < n) :
    (firstMessages msg n)[i]? = some (msg i).toMessageData := by
  simp [firstMessages, hi]

lemma take_firstMessages {n i : ℕ} (hi : i ≤ n) :
    (firstMessages msg n).take i = firstMessages msg i := by
  rw [firstMessages, ← map_take, take_range, Nat.min_eq_left hi, firstMessages]

/-- The message is one that may be enqueued. -/
def MessageData.Valid (m : MessageData) : Prop := 0 < m.size ∧ m.size ≤ 65516
  deriving Decidable

lemma Message.valid (m : Message) : m.Valid := ⟨m.size_pos, m.size_le⟩

/-- Every list of messages can be continued. -/
lemma exists_firstMessages {enqueued : List MessageData} (h : ∀ m ∈ enqueued, m.Valid) :
    ∃ msg, enqueued = firstMessages msg enqueued.length := by
  refine ⟨fun i => if hi : i < enqueued.length then
    ⟨enqueued[i], (h _ (getElem_mem hi)).1, (h _ (getElem_mem hi)).2⟩ else default, ?_⟩
  refine ext_getElem (length_firstMessages _ _).symm fun i hi _ => ?_
  simp [firstMessages, hi]

/-- The messages that continue a list with one more message. -/
lemma eq_firstMessages_of_append {msg : ℕ → Message} {enqueued : List MessageData} {m : MessageData}
    (h : enqueued ++ [m] = firstMessages msg (enqueued ++ [m]).length) :
    enqueued = firstMessages msg enqueued.length ∧ m = (msg enqueued.length).toMessageData := by
  rw [length_append, length_singleton, firstMessages_succ] at h
  obtain ⟨henq, hm⟩ := append_inj' h rfl
  exact ⟨henq, List.cons.inj hm |>.1⟩

/-- The slot at which message `i` starts, or will start. -/
def slotsBefore (enqueued : List MessageData) (i : ℕ) : ℕ :=
  ((enqueued.take i).map MessageData.nslots).sum

lemma slotsBefore_firstMessages {n i : ℕ} (hi : i ≤ n) :
    slotsBefore (firstMessages msg n) i = slotPos msg i := by
  rw [slotsBefore, take_firstMessages msg hi]
  induction i with
  | zero => rfl
  | succ i ih =>
    rw [firstMessages_succ, map_append, List.sum_append, ih (le_of_succ_le hi)]
    rfl

end Packing

/-! ## Chunks -/

/-- A chunk that is being filled: its number, how many messages it has, and how many bytes of it are
used. -/
structure Packing where
  chunk : ℕ
  count : ℕ
  used : ℕ
deriving DecidableEq

namespace Packing

variable (pk : Packing) (size : ℕ)

/-- A message of the size fits, together with its offset and the final one. -/
def fits : Bool := pk.used + size ≤ chunkSize - (pk.count + 2) * 2

/-- The chunk that a message of the size is packed into. -/
def room : Packing := if pk.fits size then pk else ⟨pk.chunk + 1, 0, 16⟩

/-- The chunk after a message of the size was packed. -/
def add : Packing :=
  let pk := pk.room size
  ⟨pk.chunk, pk.count + 1, pk.used + size⟩

/-- A message of the size is not copied past the end of the chunk that it is packed into. -/
def CopiedInside : Prop :=
  (pk.room size).used + bytesCopied size ≤ chunkSize
  deriving Decidable

variable {pk : Packing} {size : ℕ}

lemma add_of_fits (h : pk.used + size ≤ chunkSize - (pk.count + 2) * 2) :
    pk.add size = ⟨pk.chunk, pk.count + 1, pk.used + size⟩ := by
  have hroom : pk.room size = pk := if_pos (decide_eq_true h)
  rw [add, hroom]

lemma add_of_not_fits (h : ¬pk.used + size ≤ chunkSize - (pk.count + 2) * 2) :
    pk.add size = ⟨pk.chunk + 1, 1, 16 + size⟩ := by
  have hroom : pk.room size = ⟨pk.chunk + 1, 0, 16⟩ :=
    if_neg (Bool.not_eq_true _ ▸ decide_eq_false h)
  rw [add, hroom]

end Packing

/-- The last chunk when the messages are packed one after the other. -/
def packing (enqueued : List MessageData) : Packing :=
  enqueued.foldl (fun pk m => pk.add m.size) ⟨0, 0, 16⟩

section Positions

variable {msg : ℕ → Message} {n : ℕ} {pk : Packing}

variable (msg n pk) in
/-- The chunk is the one that the first `n` messages leave. -/
structure Packing.At : Prop where
  start_le : chunkStart msg pk.chunk ≤ n
  le_end : n ≤ chunkStart msg (pk.chunk + 1)
  count : pk.count = n - chunkStart msg pk.chunk
  used : pk.used = offsetIn msg (chunkStart msg pk.chunk) n

/-- The chunk that the next message is packed into. -/
lemma Packing.At.room (h : pk.At msg n) :
    (pk.room (msg n).size).At msg n ∧ n < chunkStart msg ((pk.room (msg n).size).chunk + 1) := by
  have hfits := fits_iff_lt_chunkEnd h.start_le h.le_end
  rw [Fits, ← h.used, ← h.count, ← chunkStart_succ] at hfits
  rw [Packing.room, Packing.fits, decide_eq_decide.mpr hfits]
  by_cases hlt : n < chunkStart msg (pk.chunk + 1)
  · rw [decide_eq_true hlt]
    exact ⟨h, hlt⟩
  · have hn : n = chunkStart msg (pk.chunk + 1) := Nat.le_antisymm h.le_end (Nat.le_of_not_lt hlt)
    have hend : n < chunkStart msg (pk.chunk + 1 + 1) := by
      rw [hn]
      exact chunkStart_strictMono (lt_succ_self _)
    rw [decide_eq_false hlt]
    refine ⟨⟨hn.ge, hend.le, ?_, ?_⟩, hend⟩
    · simp [← hn]
    · simp [← hn]

lemma Packing.At.add (h : pk.At msg n) : (pk.add (msg n).size).At msg (n + 1) := by
  obtain ⟨hroom, hlt⟩ := h.room
  refine ⟨le_succ_of_le hroom.start_le, hlt, ?_, ?_⟩
  · change (pk.room (msg n).size).count + 1 = n + 1 - chunkStart msg (pk.room (msg n).size).chunk
    have hle := hroom.start_le
    rw [hroom.count]
    omega
  · change (pk.room (msg n).size).used + (msg n).size = _
    rw [hroom.used]
    exact (offsetIn_succ hroom.start_le).symm

variable (msg) in
/-- Packing a list agrees with the chunks of the messages that continue it. -/
lemma packing_at (n : ℕ) : (packing (firstMessages msg n)).At msg n := by
  induction n with
  | zero => exact ⟨Nat.le_refl 0, zero_le _, rfl, rfl⟩
  | succ n ih =>
    rw [firstMessages_succ, packing, foldl_append]
    exact ih.add

/-- The last chunk is not empty, unless there are no messages at all. -/
lemma packing_started (enqueued : List MessageData) :
    (packing enqueued).chunk = 0 ∨ 0 < (packing enqueued).count := by
  induction enqueued using List.reverseRecOn with
  | nil => exact .inl rfl
  | append_singleton enqueued m _ =>
    rw [packing, foldl_append]
    exact .inr (succ_pos _)

/-- The last chunk is that of `packing`. -/
lemma eq_packing_chunk {K : ℕ} (hK : K = 0 ∨ chunkStart msg K < n)
    (hK' : n ≤ chunkStart msg (K + 1)) : K = (packing (firstMessages msg n)).chunk := by
  have hat := packing_at msg n
  -- There is one chunk that is the last of the first `n` messages.
  have hle : ∀ {a b : ℕ}, (a = 0 ∨ chunkStart msg a < n) → n ≤ chunkStart msg (b + 1) → a ≤ b := by
    rintro a b (rfl | ha) hb
    · exact zero_le b
    · exact le_of_lt_succ (chunkStart_strictMono.lt_iff_lt.mp (ha.trans_le hb))
  refine Nat.le_antisymm (hle hK hat.le_end) (hle ?_ hK')
  rcases packing_started (firstMessages msg n) with hzero | hpos
  · exact .inl hzero
  · rw [hat.count] at hpos
    exact .inr (Nat.lt_of_sub_pos hpos)

/-- One more message is copied inside its chunk. -/
lemma Inside.succ (h : Inside msg n)
    (hn : (packing (firstMessages msg n)).CopiedInside (msg n).size) : Inside msg (n + 1) := by
  obtain ⟨hat, hlt⟩ := (packing_at msg n).room
  intro j i hji hij hi
  rcases Nat.lt_succ_iff_lt_or_eq.mp hi with hi | rfl
  · exact h j i hji hij hi
  · -- Message `n` is in one chunk only.
    have hj : j = ((packing (firstMessages msg i)).room (msg i).size).chunk := by
      have h1 := chunkStart_strictMono.lt_iff_lt.mp (hji.trans_lt hlt)
      have h2 := chunkStart_strictMono.lt_iff_lt.mp (hat.start_le.trans_lt hij)
      omega
    rw [hj, ← hat.used]
    exact hn

end Positions

end Beegfs.Pmq
