import Beegfs.Pmq.PersisterSpec

/-!
# How chunks are built

The persister packs messages into chunks exactly as `chunkStart` says, and writes chunks to the disk
only when it needs their memory.
-/

namespace Beegfs.Pmq

open SeqNum Function List

open Bytes

section Chunks

variable {msg : ℕ → Message} {n c K j : ℕ} {cq : ChunkQueue}

/-! ## The chunk queue, one step at a time -/

/-- The two chunks in memory do not overlap. -/
lemma bufferData_ne {i : ℕ} (hij : i % 2 ≠ j % 2) {x : ℕ} (hx : x < chunkSize) :
    bufferData (i % 2) + x < bufferData (j % 2) ∨
      bufferData (j % 2) + chunkSize ≤ bufferData (i % 2) + x := by
  unfold bufferData
  rw [chunkSize] at hx ⊢
  omega

/-- A chunk in memory stays finished when neither its bytes nor what is known of it change. -/
lemma Finished.congr {cq' : ChunkQueue} (h : Finished msg j cq)
    (hchunk : cq'.chunks (j % 2) = cq.chunks (j % 2)) (hmemory : ∀ x, x < chunkSize →
      cq'.memory (bufferData (j % 2) + x) = cq.memory (bufferData (j % 2) + x)) :
    Finished msg j cq' := by
  refine ⟨hchunk ▸ h.lastMsn, hchunk ▸ h.lastSsn, ?_⟩
  exact h.page.congr hmemory (Nat.le_of_lt (lt_chunkEnd msg _)) le_rfl

/-- The place of the next message in the current chunk. -/
lemma Building.offset_eq (h : Building msg c K cq) :
    cq.offsets cq.msgCount = offsetIn msg (chunkStart msg K) c := by
  rw [h.msgCount, h.offsets _ le_rfl, Nat.add_sub_cancel' h.start_le]

/-- The code's test is the one that the chunks are defined by. -/
lemma Building.msgFits_eq (h : Building msg c K cq) :
    cq.msgFits (msg c).size = decide (c < chunkStart msg (K + 1)) := by
  rw [ChunkQueue.msgFits, h.offset_eq, h.msgCount]
  exact decide_eq_decide.mpr (fits_iff_lt_chunkEnd h.start_le h.le_end)

/-- The current chunk is finished when the next message does not fit. -/
lemma Building.finish (h : Building msg c K cq) (hend : c = chunkStart msg (K + 1)) :
    Finished msg K (finishChunkBuffer cq) := by
  have hchunk : (finishChunkBuffer cq).chunks (K % 2) =
      { cq.chunks (K % 2) with lastMsn := cq.cqMsn, lastSsn := cq.cqSsn } := by
    unfold finishChunkBuffer
    rw [h.ckBuffer]
    exact update_self _ _ _
  refine ⟨?_, ?_, ?_⟩
  · rw [hchunk, ← hend]
    exact h.cqMsn
  · rw [hchunk, ← hend]
    exact h.cqSsn
  · have hholds := finishPage_holds h.start_le h.le_end h.offsets h.packed
    rw [← h.msn, ← h.msgCount] at hholds
    rw [HoldsChunk, ← hend]
    unfold ChunkQueue.page finishChunkBuffer
    rw [h.ckBuffer]
    exact hholds

/-- Finishing one chunk leaves the other. -/
lemma Finished.finish (h : Finished msg j cq) (hK : Building msg c K cq)
    (hne : j % 2 ≠ K % 2) : Finished msg j (finishChunkBuffer cq) := by
  obtain ⟨hoff, hcount⟩ := offsetIn_le hK.start_le hK.le_end
  rw [← hK.msgCount] at hcount
  refine h.congr ?_ fun x hx => ?_
  · unfold finishChunkBuffer
    rw [hK.ckBuffer]
    exact update_of_ne hne _ _
  · have hout := bufferData_ne hne hx
    rw [chunkSize] at hoff hcount hout
    unfold finishChunkBuffer
    rw [hK.ckBuffer]
    change finishPage _ _ _ _ _ _ = _
    rw [finishPage, copy_of_not_mem (by rw [chunkSize]; omega),
      copy_of_not_mem (by rw [chunkSize]; omega),
      store_of_not_mem (by rw [length_wordBytes_u16]; omega),
      store_of_not_mem (by rw [length_wordBytes_u16]; omega),
      store_of_not_mem (by rw [length_wordBytes_u64]; omega)]

/-- The next chunk is empty. -/
lemma building_reset (hmsn : cq.cqMsn = BitVec.ofNat 64 (chunkStart msg K))
    (hcsn : cq.cqCsn = BitVec.ofNat 64 K)
    (hssn : cq.cqSsn = BitVec.ofNat 64 (slotPos msg (chunkStart msg K))) :
    Building msg (chunkStart msg K) K (resetChunkBuffer cq) := by
  have hindex : slotFor numChunkBuffers cq.cqCsn = K % 2 := by
    rw [hcsn, slotFor_numChunkBuffers]
  refine ⟨hmsn, hcsn, hssn, le_rfl, Nat.le_of_lt (lt_chunkEnd msg _), hindex, ?_, ?_,
    fun i hi => ?_, fun i hi hi' => absurd hi' (Nat.not_lt.mpr hi)⟩
  · unfold resetChunkBuffer
    rw [hindex]
    simp only [update_self, hmsn]
  · rw [Nat.sub_self]
    rfl
  · rw [Nat.sub_self, Nat.le_zero] at hi
    rw [hi, Nat.add_zero, offsetIn_self]
    rfl

/-- The next message is packed into the current chunk. -/
lemma Building.appendMsg {slots : ℕ → Slot} (h : Building msg c K cq)
    (hslots : RingHolds msg slots c (c + 1)) (hlt : c < chunkStart msg (K + 1)) :
    Building msg (c + 1) K (appendMsg slots (msg c).size cq) := by
  have hstart := h.start_le
  have hoffset := h.offset_eq
  have hsucc : c + 1 - chunkStart msg K = c - chunkStart msg K + 1 := by omega
  refine ⟨?_, h.cqCsn, ?_, by omega, hlt, h.ckBuffer, h.msn, ?_, fun i hi => ?_,
    fun i hi hi' j hj => ?_⟩
  · change cq.cqMsn + 1 = _
    rw [h.cqMsn, ofNat_add_one]
  · change cq.cqSsn + BitVec.ofNat 64 (nslotsReq (msg c).size) = _
    rw [h.cqSsn, ← BitVec.ofNat_add]
    rfl
  · change cq.msgCount + 1 = _
    rw [h.msgCount, hsucc]
  · change Function.update cq.offsets (cq.msgCount + 1)
      ((cq.offsets cq.msgCount + (msg c).size) % 2 ^ 16) i = _
    rw [h.msgCount]
    rcases Nat.lt_or_ge i (c - chunkStart msg K + 1) with hlt' | hge
    · rw [update_of_ne hlt'.ne]
      exact h.offsets i (by omega)
    · have hi' : i = c - chunkStart msg K + 1 := by omega
      have hnext : chunkStart msg K + (c - chunkStart msg K + 1) = c + 1 := by omega
      have hle := (offsetIn_le (by omega : chunkStart msg K ≤ c + 1) hlt).1
      rw [chunkSize] at hle
      rw [hi', update_self, ← h.msgCount, hoffset, h.msgCount, hnext,
        ← offsetIn_succ hstart, Nat.mod_eq_of_lt (by omega)]
  · change copySlots slots cq.cqSsn cq.memory (bufferData cq.ckBuffer + cq.offsets cq.msgCount)
      (copiedPerSlot (msg c).size) (nslotsReq (msg c).size) _ = _
    rw [h.cqSsn, h.ckBuffer, hoffset]
    rcases Nat.lt_succ_iff_lt_or_eq.mp hi' with hlt' | rfl
    · have hbef := offsetIn_mono msg (chunkStart msg K) hlt'
      rw [offsetIn_succ hi] at hbef
      rw [copySlots_of_not_mem (by omega)]
      exact h.packed i hi hlt' j hj
    · exact copySlots_holds rfl hslots le_rfl (hj.trans_le (size_le_bytesCopied (msg i))) hj

/-- A message that stays inside of its chunk does not overrun. -/
lemma Building.not_overruns (h : Building msg c K cq) (hlt : c < chunkStart msg (K + 1))
    (hinside : Inside msg n) (hn : c < n) : cq.overruns (msg c).size = false := by
  have hcop := hinside _ c h.start_le hlt hn
  rw [ChunkQueue.overruns, h.ckBuffer, h.offset_eq, decide_eq_false_iff_not]
  unfold bufferData numChunkBuffers
  rw [chunkSize] at hcop ⊢
  omega

/-- Packing a message leaves the other chunk in memory, if it stays inside of its own. -/
lemma Finished.appendMsg {slots : ℕ → Slot} (h : Finished msg j cq)
    (hK : Building msg c K cq) (hne : j % 2 ≠ K % 2) (hlt : c < chunkStart msg (K + 1))
    (hinside : Inside msg n) (hn : c < n) :
    Finished msg j (appendMsg slots (msg c).size cq) := by
  refine h.congr rfl fun x hx => ?_
  have hcop : _ + copiedPerSlot (msg c).size * nslotsReq (msg c).size ≤ _ :=
    hinside _ c hK.start_le hlt hn
  have hbufs := bufferData_ne hne hx
  change copySlots slots cq.cqSsn cq.memory (bufferData cq.ckBuffer + cq.offsets cq.msgCount)
    (copiedPerSlot (msg c).size) (nslotsReq (msg c).size) _ = _
  rw [hK.ckBuffer, hK.offset_eq]
  exact copySlots_of_not_mem (by omega)

/-! ## Switching to the next chunk -/

variable {cks : ChunkStore} {p pub : Marks} {q : Pmq}

variable (msg n cks p pub q) in
/-- A call gets on to message `c'`, in a chunk of `Next`; `full` is why a file operation can fail in
it. -/
def Builds (c' : ℕ) (Next : ℕ → Prop) (full : Prop) (m : PmqM Bool) : Prop :=
  Runs q m
    (fun q' => Kept q q' ∧ ∃ K' p' pub', Working msg cks n c' K' p' pub' q' ∧ Next K' ∧
      Moved p pub p' pub' ∧ CommitsWhenFull msg cks p q.persister p' q'.persister)
    (fun _ => full) (Crashed msg cks n pub.walled)

/-- The next chunk is begun; only when both chunks in memory are in use, something is written. -/
lemma beginCurrentChunkBuffer_spec (hinside : Inside msg n) (hq : Sized cks q)
    (h : Disk msg cks n p pub q.persister)
    (hmsn : q.chunkQueue.cqMsn = BitVec.ofNat 64 (chunkStart msg K))
    (hcsn : q.chunkQueue.cqCsn = BitVec.ofNat 64 K)
    (hssn : q.chunkQueue.cqSsn = BitVec.ofNat 64 (slotPos msg (chunkStart msg K)))
    (hfin : ∀ j, p.stored ≤ j → j < K → Finished msg j q.chunkQueue)
    (hsto : p.stored ≤ K) (hbufs : K ≤ p.stored + 2) (hn : chunkStart msg K ≤ n) :
    Builds msg n cks p pub q (chunkStart msg K) (· = K) (K = p.stored + 2)
      beginCurrentChunkBuffer := by
  have hdist : (q.chunkQueue.cqCsn - q.persister.persistCursors.cksCsn).toNat = K - p.stored := by
    rw [hcsn, h.cursors]
    exact toNat_sub hsto (by omega)
  unfold Builds beginCurrentChunkBuffer makeChunkBufferFree
  refine wp_seq (T := fun q' => Persisted q q' ∧ ∃ p' pub', Disk msg cks n p' pub' q'.persister ∧
    p'.stored ≤ K ∧ K ≤ p'.stored + 1 ∧ Moved p pub p' pub' ∧
    CommitsWhenFull msg cks p q.persister p' q'.persister) ?_ fun q1 _ h1 => ?_
  · rw [Runs, wp_bind, wp_get, wp_ite]
    refine ⟨fun hfull => ?_, fun hfree => ?_⟩
    · unfold numChunkBuffers at hfull
      refine Runs.mono (persistFinishedChunkBuffers_spec hq h hcsn hsto hbufs hfin hn)
        (fun q' h' => ?_) (fun _ _ _ => by omega) fun _ h' => h'
      obtain ⟨hq', p', pub', hdisk, _, hmoved, hcom⟩ := h'
      exact ⟨hq', p', pub', hdisk, by omega, by omega, hmoved, hcom⟩
    · unfold numChunkBuffers at hfree
      exact ⟨suffix_refl _, Persisted.refl q, p, pub, h, hsto, by omega, Moved.refl p pub,
        .inl ⟨rfl, rfl⟩⟩
  · obtain ⟨hq1, p1, pub1, hdisk1, hsto1, hbufs1, hmov1, hcom1⟩ := h1
    rw [← hq1.chunkQueue] at hmsn hcsn hssn hfin
    have hkept : Kept q { q1 with chunkQueue := resetChunkBuffer q1.chunkQueue } :=
      hq1.toKept.trans ⟨rfl, rfl, rfl, rfl, rfl⟩
    refine ⟨suffix_refl _, hkept, K, p1, pub1, ?_, rfl, hmov1, hcom1⟩
    refine ⟨hkept.sized hq, hn, hinside, building_reset hmsn hcsn hssn, fun j hj hjK => ?_, hsto1,
      hbufs1, hdisk1⟩
    refine (hfin j (hmov1.stored.trans hj) hjK).congr (update_of_ne ?_ _ _) fun _ _ => rfl
    rw [hcsn, slotFor_numChunkBuffers]
    omega

variable (h : Working msg cks n c K p pub q)

include h

/-- The current chunk is finished when a message does not fit, and the next one is begun. -/
lemma switchToNextChunkBuffer_spec (hend : c = chunkStart msg (K + 1)) (hn : c < n) :
    Builds msg n cks p pub q c (· = K + 1) (chunkStart msg (p.stored + 2) < n)
      switchToNextChunkBuffer := by
  have hK := h.building
  have hle := h.le_stored
  have hsto := h.stored_le
  unfold Builds Runs switchToNextChunkBuffer finalizeCurrentChunkBuffer
  rw [wp_bind, wp_bind, wp_get, wp_bind]
  refine wp_pmqAssert ?_ ?_
  · rw [beq_iff_eq, hK.cqMsn, hK.ckBuffer, hK.msn, hK.msgCount, ← BitVec.ofNat_add,
      Nat.add_sub_cancel' hK.start_le]
  have hkept : Kept q { q with
      chunkQueue := { finishChunkBuffer q.chunkQueue with cqCsn := q.chunkQueue.cqCsn + 1 } } :=
    ⟨rfl, rfl, rfl, rfl, rfl⟩
  have hfin : ∀ j, p.stored ≤ j → j < K + 1 → Finished msg j
      { finishChunkBuffer q.chunkQueue with cqCsn := q.chunkQueue.cqCsn + 1 } := by
    intro j hj hjK
    have hfinish : Finished msg j (finishChunkBuffer q.chunkQueue) := by
      rcases Nat.lt_succ_iff_lt_or_eq.mp hjK with hlt | rfl
      · exact (h.finished j hj hlt).finish hK (by omega)
      · exact hK.finish hend
    exact hfinish.congr rfl fun _ _ => rfl
  have hbegin := beginCurrentChunkBuffer_spec h.inside (hkept.sized h.sized) h.disk
    (hend ▸ hK.cqMsn) (by rw [hK.cqCsn, ofNat_add_one]) (hend ▸ hK.cqSsn) hfin
    (by omega) (by omega) (by omega)
  refine wp_seq (Runs.mono hbegin (fun _ h' => h') (fun _ _ hfull => ?_) fun _ h' => h') ?_
  · rw [← hfull]
    omega
  · rintro _ - ⟨hq', _, p', pub', hwork, rfl, hmoved, hcom⟩
    have hK' := hwork.building
    rw [Runs, wp_bind, wp_get, wp_bind]
    refine wp_pmqAssert ?_
      ⟨suffix_refl _, hkept.trans hq', _, p', pub', hend ▸ hwork, rfl, hmoved, hcom⟩
    rw [beq_iff_eq, hK'.ckBuffer, hK'.msn, hK'.cqMsn]

/-- There is room for the next message in the current chunk. -/
lemma makeRoomForMsg_spec (hn : c < n) :
    Builds msg n cks p pub q c (fun K' => c < chunkStart msg (K' + 1))
      (chunkStart msg (p.stored + 2) < n) (makeRoomForMsg (msg c).size) := by
  unfold Builds Runs makeRoomForMsg
  rw [wp_bind, wp_get, h.building.msgFits_eq, wp_ite, decide_eq_true_eq]
  refine ⟨fun hlt => ?_, fun hfull => ?_⟩
  · exact ⟨suffix_refl _, Kept.refl q, K, p, pub, h, hlt, Moved.refl p pub, .inl ⟨rfl, rfl⟩⟩
  · have hend : c = chunkStart msg (K + 1) :=
      Nat.le_antisymm h.building.le_end (Nat.not_lt.mp hfull)
    refine Runs.mono (switchToNextChunkBuffer_spec h hend hn) (fun q' h' => ?_) (fun _ _ h' => h')
      fun _ h' => h'
    obtain ⟨hq', _, p', pub', hwork, rfl, hmoved, hcom⟩ := h'
    refine ⟨hq', K + 1, p', pub', hwork, ?_, hmoved, hcom⟩
    rw [hend]
    exact chunkStart_strictMono (Nat.lt_succ_self _)

/-! ## Compaction -/

/-- The next message is packed. -/
lemma Working.appendMsg (hn : c < n)
    (hring : RingHolds msg q.slots c n) (hlt : c < chunkStart msg (K + 1)) :
    Working msg cks n (c + 1) K p pub
      { q with chunkQueue := appendMsg q.slots (msg c).size q.chunkQueue } := by
  have hle := h.le_stored
  refine { h with
    sized := ⟨h.sized.chunkStore, h.sized.slotsfileSizeBytes⟩
    c_le := hn
    building := h.building.appendMsg (hring.mono le_rfl hn) hlt
    finished := fun j hj hjK => ?_ }
  exact (h.finished j hj hjK).appendMsg h.building (by omega) hlt h.inside hn

/-- All messages are packed. -/
lemma compactLoop_spec {fuel : ℕ}
    (hring : RingHolds msg q.slots c n) (hroom : slotPos msg n ≤ slotPos msg c + slotCount)
    (hfuel : slotPos msg n < slotPos msg c + fuel) :
    Builds msg n cks p pub q n (fun K' => K' = K ∧ c = n ∨ chunkStart msg K' < n)
      (chunkStart msg (p.stored + 2) < n) (compactLoop (BitVec.ofNat 64 (slotPos msg n)) fuel) := by
  induction fuel generalizing q c K p pub with
  | zero =>
    have hle := slotPos_le msg h.c_le
    omega
  | succ fuel ih =>
    have hle := slotPos_le msg h.c_le
    have hnear : SeqNum.Near 64 (slotPos msg c) (slotPos msg n) := by
      unfold slotCount at hroom
      constructor <;> omega
    rw [Builds, Runs, compactLoop, wp_bind, wp_get, h.building.cqSsn, ge_ofNat hnear, wp_ite,
      decide_eq_true_eq]
    refine ⟨fun hdone => ?_, fun hmore => ?_⟩
    · have hc : c = n := Nat.le_antisymm h.c_le (slotPos_strictMono.le_iff_le.mp hdone)
      subst hc
      exact ⟨suffix_refl _, Kept.refl q, K, p, pub, h, .inl ⟨rfl, rfl⟩, Moved.refl p pub,
        .inl ⟨rfl, rfl⟩⟩
    · have hn : c < n := slotPos_strictMono.lt_iff_lt.mp (Nat.not_le.mp hmore)
      obtain ⟨hleader, hsize⟩ := hring.leader le_rfl hn
      have hnext := slotPos_le msg hn
      rw [slotPos_succ] at hnext
      simp only [slotFor_slotCount, hleader, hsize, Bool.not_true, Bool.false_eq_true, if_false]
      refine wp_seq (makeRoomForMsg_spec h hn) ?_
      rintro q1 - ⟨hq1, _, _, _, h1, hlt, hmov1, hcom1⟩
      rw [← hq1.slots] at hring
      have havail : (BitVec.ofNat 64 (slotPos msg n) - q1.chunkQueue.cqSsn).toNat =
          slotPos msg n - slotPos msg c := by
        rw [h1.building.cqSsn]
        unfold slotCount at hroom
        exact toNat_sub hle (by omega)
      have henough : ¬nslotsReq (msg c).size > slotPos msg n - slotPos msg c := by
        change ¬(msg c).nslots > _
        omega
      rw [Runs, wp_bind, wp_get, havail, if_neg henough, wp_bind, wp_get,
        h1.building.not_overruns hlt h.inside hn, if_neg Bool.false_ne_true, wp_bind]
      have hkept : Kept q { q1 with
          chunkQueue := Pmq.appendMsg q1.slots (msg c).size q1.chunkQueue } :=
        hq1.trans ⟨rfl, rfl, rfl, rfl, rfl⟩
      have hpos := (msg c).nslots_pos
      refine Runs.mono (ih (h1.appendMsg hn hring hlt) (hring.mono (Nat.le_succ c) le_rfl)
        ?_ ?_) (fun q' h' => ?_) (fun _ _ h' => ?_) (Crashed.mono hmov1.pub_walled)
      · rw [slotPos_succ]
        omega
      · rw [slotPos_succ]
        omega
      · obtain ⟨hq', K', p', pub', hwork, hK', hmov', hcom'⟩ := h'
        refine ⟨hkept.trans hq', K', p', pub', hwork, .inr ?_, hmov1.trans hmov',
          hcom1.trans hmov1 hmov'.stored hcom'⟩
        rcases hK' with ⟨rfl, hc⟩ | hK'
        · exact h1.building.start_le.trans_lt hn
        · exact hK'
      · exact lt_of_le_of_lt (chunkStart_le msg (Nat.add_le_add_right hmov1.stored 2)) h'

/-- `pmq_compact` packs all messages. -/
lemma compact_spec (hring : RingHolds msg q.slots c n)
    (hroom : slotPos msg n ≤ slotPos msg c + slotCount) :
    Builds msg n cks p pub q n (fun K' => K' = K ∧ c = n ∨ chunkStart msg K' < n)
      (chunkStart msg (p.stored + 2) < n) (compact (BitVec.ofNat 64 (slotPos msg n))) := by
  have hle := slotPos_le msg h.c_le
  unfold Builds Runs compact
  rw [wp_bind, wp_get, h.building.cqSsn]
  refine compactLoop_spec h hring hroom ?_
  unfold slotCount at hroom
  rw [toNat_sub hle (by omega)]
  omega

end Chunks

end Beegfs.Pmq
