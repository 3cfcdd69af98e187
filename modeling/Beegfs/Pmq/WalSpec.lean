import Beegfs.Pmq.ChunkSpec

/-!
# How slots are written to the disk

After the finished chunks, the slots of the messages that do not make a whole chunk are written to
`wal.dat`.  They are written to places that no committed record refers to, because the ring of slots
holds all messages that are in no committed chunk.
-/

namespace Beegfs.Pmq

open List

/-! ## Ranges of a ring -/

section Range

variable {lo hi x : ℕ}

/-- The places from the first one of a range on are in it, up to its end or to the end of the
ring. -/
lemma exists_mem_range (hle : lo ≤ hi) (hx : lo % slotCount ≤ x)
    (hx' : x < hi % slotCount ∨ hi % slotCount < lo % slotCount ∧ x < slotCount) :
    ∃ s, lo ≤ s ∧ s < hi ∧ s % slotCount = x := by
  refine ⟨lo - lo % slotCount + x, ?_⟩
  unfold slotCount at *
  omega

/-- All places of a range are in its block, or in one of its two blocks if it wraps around. -/
lemma mem_block (hlt : hi < lo + slotCount) {s : ℕ} (hlo : lo ≤ s) (hhi : s < hi) :
    if lo % slotCount ≤ hi % slotCount then
      lo % slotCount ≤ s % slotCount ∧ s % slotCount < hi % slotCount
    else lo % slotCount ≤ s % slotCount ∨ s % slotCount < hi % slotCount := by
  unfold slotCount at *
  split_ifs <;> omega

end Range

section Wal

variable {msg : ℕ → Message} {cks : ChunkStore} {n : ℕ} {p pub : Marks} {q : Pmq}
  {per : Persister}

/-! ## Writing a block -/

/-- Slots of messages that are not in `wal.dat` yet may be written. -/
lemma Disk.writeSlots (h : Disk msg cks n p pub per) {slots : ℕ → Slot} {start count : ℕ}
    (hblock : ∀ x, start ≤ x → x < start + count →
      ∃ s, slotPos msg p.walled ≤ s ∧ s < slotPos msg n ∧ s % slotCount = x) :
    Disk msg cks n p pub (per.writeSlots slots start count) := by
  refine h.slotsFile fun i hi hiw t ht P halways => halways.write fun hmem => ?_
  obtain ⟨s, _, _, hmod⟩ := hblock _ hmem.1 hmem.2
  have hbef := slotPos_add_lt ht hiw
  have hfirst := slotPos_le msg hi
  have hring := h.ring
  exact absurd hmod.symm (SeqNum.mod_ne_mod (by omega) (by omega))

/-- A block is written, or a part of it. -/
lemma pwriteSlots_spec {start count : ℕ} (h : Disk msg cks n p pub q.persister)
    (hblock : ∀ x, start ≤ x → x < start + count →
      ∃ s, slotPos msg p.walled ≤ s ∧ s < slotPos msg n ∧ s % slotCount = x) :
    Runs q (pwriteSlots start count) (fun q' => Persisted q q' ∧ Disk msg cks n p pub q'.persister ∧
        q'.persister.commits = q.persister.commits ∧ ∀ x, q'.persister.slotsFile.contents x =
          if start ≤ x ∧ x < start + count then q.slots x else q.persister.slotsFile.contents x)
      (fun q' => Persisted q q' ∧ Disk msg cks n p pub q'.persister)
      (Crashed msg cks n pub.walled) := by
  unfold Runs pwriteSlots
  rw [wp_bind, wp_get, wp_ite]
  refine ⟨fun hzero => ?_, fun _ => ?_⟩
  · refine ⟨suffix_refl _, Persisted.refl q, h, rfl, fun x => ?_⟩
    rw [if_neg (by omega)]
  · refine wp_fileOp (fun q' hq' hper => ?_) (fun written q' hq' hper => ?_) fun q' _ hper => ?_
    · refine ⟨hq', ?_, ?_, fun x => ?_⟩
      · rw [hper]
        exact h.writeSlots hblock
      · rw [hper]
        rfl
      · rw [hper]
        exact DurableFile.contents_write _ _ _
    · refine ⟨hq', ?_⟩
      rw [hper]
      exact h.writeSlots fun x hx hx' => hblock x hx (by omega)
    · exact (hper ▸ h).crashed

/-- A range of slots is written, in two blocks when it wraps around. -/
lemma persistSlots_spec (h : Disk msg cks n p pub q.persister)
    (hroom : slotPos msg n < slotPos msg p.walled + slotCount) :
    Runs q (persistSlots (BitVec.ofNat 64 (slotPos msg p.walled)) (BitVec.ofNat 64 (slotPos msg n)))
      (fun q' => Persisted q q' ∧ Disk msg cks n p pub q'.persister ∧
        q'.persister.commits = q.persister.commits ∧
        ∀ s, slotPos msg p.walled ≤ s → s < slotPos msg n →
          q'.persister.slotsFile.contents (s % slotCount) = q.slots (s % slotCount))
      (fun q' => Persisted q q' ∧ Disk msg cks n p pub q'.persister)
      (Crashed msg cks n pub.walled) := by
  have hle := slotPos_le msg h.walled_le
  unfold Runs persistSlots
  rw [slotFor_slotCount, slotFor_slotCount]
  rw [wp_ite]
  refine ⟨fun hmod => ?_, fun hmod => ?_⟩
  · refine (pwriteSlots_spec h fun x hx hx' => ?_).mono (fun q' h' => ?_) (fun _ _ h' => h')
      fun _ h' => h'
    · exact exists_mem_range hle hx (.inl (by omega))
    · obtain ⟨hq', hdisk, hcom, hcont⟩ := h'
      refine ⟨hq', hdisk, hcom, fun s hs hs' => ?_⟩
      have hmem := mem_block hroom hs hs'
      rw [if_pos hmod] at hmem
      rw [hcont, if_pos (by omega)]
  · have hwraps := Nat.not_le.mp hmod
    refine wp_seq (pwriteSlots_spec h fun x hx hx' => ?_) ?_
    · exact exists_mem_range hle hx (.inr ⟨hwraps, by omega⟩)
    · rintro _ - ⟨hq1, hdisk1, hcom1, hcont1⟩
      refine (pwriteSlots_spec hdisk1 fun x _ hx' => ?_).mono (fun q' h' => ?_)
        (fun q' _ h' => ⟨hq1.trans h'.1, h'.2⟩) fun _ h' => h'
      · -- the second part begins with the ring
        refine ⟨slotPos msg n - slotPos msg n % slotCount + x, ?_⟩
        unfold slotCount at *
        omega
      · obtain ⟨hq', hdisk, hcom, hcont⟩ := h'
        refine ⟨hq1.trans hq', hdisk, hcom.trans hcom1, fun s hs hs' => ?_⟩
        have hlt : s % slotCount < slotCount := Nat.mod_lt _ (by decide)
        rw [hcont, hq1.slots]
        split
        · rfl
        · have hmem := mem_block hroom hs hs'
          rw [if_neg hmod] at hmem
          rw [hcont1, if_pos (by omega)]

/-! ## The end of `wal.dat` -/

/-- The end of `wal.dat` may be moved to messages that are in it. -/
lemma Disk.setWalled (h : Disk msg cks n p pub per) {w : ℕ} (hw : p.walled ≤ w) (hn : w ≤ n)
    (hwal : WalHolds msg per.slotsFile (chunkStart msg p.stored) w) :
    Disk msg cks n { p with walled := w } pub
      { per with persistCursors := Marks.cursors msg { p with walled := w } } := by
  refine { h with
    cursors := rfl
    pub_walled := h.pub_walled.trans hw
    walled_le := hn
    wal := hwal
    records := fun record hrec => ?_ }
  obtain ⟨r, hr, hbtw, hprom⟩ := h.records record hrec
  exact ⟨r, hr, { hbtw with walled := hbtw.walled.trans hw }, ⟨hprom.chunks, hprom.wal⟩⟩

/-- Messages that are in a chunk need not be in `wal.dat`. -/
lemma Disk.clearWal (h : Disk msg cks n p pub per)
    (hnear : slotPos msg n ≤ slotPos msg p.walled + slotCount) :
    Disk msg cks n { p with walled := max p.walled (chunkStart msg p.stored) } pub
      { per with persistCursors := clearWal per.persistCursors } := by
  have hle := slotPos_le msg h.stored_msgs_le
  have hle' := slotPos_le msg h.walled_le
  have hback := slotPos_le msg (chunkStart_le msg h.pub_stored)
  have hring := h.ring
  unfold slotCount at hnear hring
  have hnear' : SeqNum.Near 64 (slotPos msg p.walled) (slotPos msg (chunkStart msg p.stored)) := by
    constructor <;> omega
  have hcurs : Pmq.clearWal per.persistCursors =
      Marks.cursors msg { p with walled := max p.walled (chunkStart msg p.stored) } := by
    rw [h.cursors]
    unfold Pmq.clearWal
    simp only [Marks.cursors, SeqNum.lt_ofNat (by decide : 0 < 64) hnear', decide_eq_true_eq,
      slotPos_strictMono.lt_iff_lt]
    split
    next hlt => rw [Nat.max_eq_right hlt.le]
    next hge => rw [Nat.max_eq_left (Nat.not_lt.mp hge)]
  rw [hcurs]
  refine h.setWalled (Nat.le_max_left _ _) (Nat.max_le.mpr ⟨h.walled_le, h.stored_msgs_le⟩) ?_
  intro i hi hi'
  exact h.wal i hi (by omega)

variable (h : Disk msg cks n p pub q.persister)

include h

/-- All messages are in `wal.dat` or a chunk. -/
lemma Disk.advanceWal (hring : RingHolds msg q.slots p.walled n)
    (hroom : slotPos msg n < slotPos msg p.walled + slotCount)
    (hwal : WalHolds msg q.persister.slotsFile p.walled n) :
    Disk msg cks n { p with walled := n } pub
      (advanceWal (BitVec.ofNat 64 (slotPos msg n)) q).persister := by
  have hle := slotPos_le msg h.walled_le
  have hcurs : (Pmq.advanceWal (BitVec.ofNat 64 (slotPos msg n)) q).persister =
      { q.persister with persistCursors := Marks.cursors msg { p with walled := n } } := by
    unfold slotCount at hroom
    unfold Pmq.advanceWal
    simp only [h.cursors, Marks.cursors]
    rw [SeqNum.toNat_sub hle (by omega), hring.countLeaders h.walled_le le_rfl,
      ← BitVec.ofNat_add, Nat.add_sub_cancel' h.walled_le]
  rw [hcurs]
  refine h.setWalled h.walled_le le_rfl fun i hi hi' t ht => ?_
  rcases Nat.lt_or_ge i p.walled with hlt | hge
  · exact h.wal i hi hlt t ht
  · exact hwal i hge hi' t ht

/-- The messages that are not in `wal.dat` are written to it. -/
lemma extendWal_spec (hring : RingHolds msg q.slots p.walled n)
    (hroom : slotPos msg n < slotPos msg p.walled + slotCount) :
    Runs q (extendWal (BitVec.ofNat 64 (slotPos msg n)))
      (fun q' => Persisted q q' ∧ Disk msg cks n { p with walled := n } pub q'.persister ∧
        q'.persister.commits = q.persister.commits)
      (fun q' => Persisted q q' ∧ Disk msg cks n p pub q'.persister)
      (Crashed msg cks n pub.walled) := by
  have hle := slotPos_le msg h.walled_le
  have hssn : q.persister.persistCursors.walSsn = BitVec.ofNat 64 (slotPos msg p.walled) := by
    rw [h.cursors]
    rfl
  have hrange : Disk msg cks n p pub { q.persister with
      walRanges := (BitVec.ofNat 64 (slotPos msg p.walled), BitVec.ofNat 64 (slotPos msg n)) ::
        q.persister.walRanges } := by
    refine { h with walRanges := fun range hmem => ?_, records := fun record hrec => ?_ }
    · rcases mem_cons.mp hmem with rfl | hmem
      · unfold slotCount at hroom ⊢
        rw [SeqNum.toNat_sub hle (by omega)]
        omega
      · exact h.walRanges range hmem
    · obtain ⟨r, hr, hbtw, hprom⟩ := h.records record hrec
      exact ⟨r, hr, hbtw, ⟨hprom.chunks, hprom.wal⟩⟩
  unfold Runs extendWal fsyncSlotsFile
  rw [wp_bind, wp_get, hssn, wp_bind]
  refine wp_seq ((persistSlots_spec hrange hroom).mono (fun _ h' => h')
    (fun q' _ h' => ⟨(persisted_update _ _ _).trans h'.1, h'.2⟩) fun _ h' => h') ?_
  rintro q1 - ⟨hq1, hdisk1, hcom1, hcont1⟩
  have hq1' : Persisted q q1 := (persisted_update _ _ _).trans hq1
  refine wp_fileOp_seq (fun q2 _ hper2 => (hper2 ▸ hdisk1).crashed)
    (fun _ q2 hq2 hper2 => ⟨hq1'.trans hq2, hper2 ▸ hdisk1⟩) fun q2 hq2 hper2 => ?_
  have hkept := hq1'.trans hq2
  have hdisk2 : Disk msg cks n p pub q2.persister := by
    rw [hper2]
    exact hdisk1.fsyncSlotsFile
  refine ⟨suffix_refl _, hkept.trans (persisted_update _ _ _),
    hdisk2.advanceWal (hkept.slots ▸ hring) hroom fun i hi hi' t ht => ?_, ?_⟩
  · have hfirst := slotPos_le msg hi
    rw [hper2]
    refine DurableFile.always_fsync ?_
    rw [hcont1 _ (by omega) (slotPos_add_lt ht hi')]
    exact hring i hi hi' t ht
  · change q2.persister.commits = _
    rw [hper2]
    exact hcom1

/-- The messages that are in no chunk are written to `wal.dat`.  The ring holds them, and they are
those of one chunk. -/
lemma persistUnpersistedSlots_spec {s : ℕ}
    (hring : RingHolds msg q.slots (chunkStart msg p.stored) n)
    (hchunk : n ≤ chunkStart msg (p.stored + 1))
    (hnear : slotPos msg n ≤ slotPos msg p.walled + slotCount)
    (hs : s = slotPos msg n ∨ s ≤ slotPos msg (chunkStart msg p.stored))
    (hs' : slotPos msg n ≤ s + slotCount) :
    Runs q (persistUnpersistedSlots (BitVec.ofNat 64 s))
      (fun q' => Persisted q q' ∧ ∃ w, p.walled ≤ w ∧ chunkStart msg p.stored ≤ w ∧
        (s = slotPos msg n → w = n) ∧ Disk msg cks n { p with walled := w } pub q'.persister ∧
        q'.persister.commits = q.persister.commits)
      (fun q' => Persisted q q' ∧ ∃ w, p.walled ≤ w ∧ chunkStart msg p.stored ≤ w ∧
        Disk msg cks n { p with walled := w } pub q'.persister)
      (Crashed msg cks n pub.walled) := by
  have hclear := h.clearWal hnear
  obtain ⟨w, hw⟩ : ∃ w, w = max p.walled (chunkStart msg p.stored) := ⟨_, rfl⟩
  have hw1 : p.walled ≤ w := hw ▸ Nat.le_max_left _ _
  have hw2 : chunkStart msg p.stored ≤ w := hw ▸ Nat.le_max_right _ _
  have hpos2 := slotPos_le msg hw2
  have hpack := slotPos_le_of_le_chunkEnd h.stored_msgs_le hchunk
  rw [← hw] at hclear
  have hwn : slotPos msg w ≤ slotPos msg n := slotPos_le msg hclear.walled_le
  have hcmp : SeqNum.Near 64 (slotPos msg w) s := by
    unfold slotCount at hnear hs'
    constructor <;> omega
  have hssn : (clearWal q.persister.persistCursors).walSsn =
      BitVec.ofNat 64 (slotPos msg w) := congrArg PersistCursors.walSsn hclear.cursors
  unfold Runs persistUnpersistedSlots
  rw [wp_bind, wp_modify, wp_bind, wp_get, hssn, SeqNum.ge_ofNat hcmp, wp_ite, decide_eq_true_eq]
  refine ⟨fun hdone => ?_, fun hmore => ?_⟩
  · refine ⟨suffix_refl _, persisted_update _ _ _, w, hw1, hw2, fun heq => ?_, hclear, rfl⟩
    rw [heq] at hdone
    exact Nat.le_antisymm hclear.walled_le (slotPos_strictMono.le_iff_le.mp hdone)
  · have heq : s = slotPos msg n := by omega
    subst heq
    have hextend := extendWal_spec
      (q := { q with persister.persistCursors := clearWal q.persister.persistCursors })
      hclear (hring.mono hw2 le_rfl)
    refine (hextend ?_).mono (fun q' h' => ?_) (fun q' _ h' => ?_) fun _ h' => h'
    · change slotPos msg n < slotPos msg w + 512 * 1024
      omega
    · exact ⟨(persisted_update _ _ _).trans h'.1, n, h.walled_le, h.stored_msgs_le, fun _ => rfl,
        h'.2.1, h'.2.2⟩
    · exact ⟨(persisted_update _ _ _).trans h'.1, w, hw1, hw2, h'.2⟩

end Wal

end Beegfs.Pmq
