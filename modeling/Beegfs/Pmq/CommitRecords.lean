import Beegfs.Pmq.Session

/-!
# Commit records that can be loaded

A commit record is loaded only if its cursors are in order.  The last commit of `pmq_persist` is
made when all of them have been advanced.  When the chunk store becomes full before that, a commit
is made in the middle, where `cks_msn` has been advanced but `wal_msn` has not, so that the record
is rejected.
-/

namespace Beegfs.Pmq

open SeqNum List Nat

/-- The files of the queue, with the contents that a crash has left. -/
def diskImage (q : Pmq) (chunks : ℕ → Page) (slots : ℕ → Slot) (record : CommitRecord) :
    DiskImage where
  chunks := chunks
  chunksSize := q.chunkStore.capacityBytes.toNat
  slots := slots
  slotsSize := q.slotsfileSizeBytes.toNat
  state := record

/-- All records that were written so far pass the checks, and the queue can be opened with them. -/
def Session.CommitsLoadable (s : Session) : Prop :=
  ∀ record ∈ s.pmq.persister.commits, record.isLoadable = true ∧
    ∀ chunks slots, (initLoadexisting (s.pmq.diskImage chunks slots record)).isSome = true

/-- The chunk store has room for all chunks that the call finishes, without any being discarded. -/
def Session.StoreHasRoom (s : Session) (call : Call) : Prop :=
  mustPersist s.pmq call.op = true → (BitVec.ofNat 64 (packing s.enqueued).chunk -
      s.pmq.persister.persistCursors.cksDiscardCsn).toNat ≤ s.pmq.chunkStore.chunkCount

section Loadable

variable {msg : ℕ → Message} {cks : ChunkStore} {r : Marks} {v : Positions} {q : Pmq} {s : Session}
  {call : Call}

/-! ## The checks, in terms of positions -/

lemma initChunkStoreSize_capacityBytes : initChunkStoreSize cks.capacityBytes = some cks :=
  dif_pos ⟨cks.isPowerOf2, cks.atLeast⟩

/-- A loadable record is all that is needed to open the files. -/
lemma Sized.initLoadexisting_isSome (h : Sized cks q) {record : CommitRecord}
    (hrec : record = r.record msg cks) (hload : record.isLoadable = true) (chunks : ℕ → Page)
    (slots : ℕ → Slot) : (initLoadexisting (q.diskImage chunks slots record)).isSome = true := by
  have hslots : q.slotsfileSizeBytes = record.slotsfileSizeBytes := by
    rw [h.slotsfileSizeBytes, hrec]
    rfl
  have hsize : record.chunkfileSizeBytes = cks.capacityBytes := by
    rw [hrec]
    rfl
  unfold initLoadexisting diskImage
  simp [hload, hslots, hsize, initChunkStoreSize_capacityBytes, h.chunkStore]

/-- The room in the chunk store, in terms of positions. -/
lemma Inv.storeHasRoom_iff (h : Inv msg cks v s.pmq) (hs : s.enqueued = firstMessages msg v.n)
    (hpers : mustPersist s.pmq call.op = true) :
    s.StoreHasRoom call ↔ (packing s.enqueued).chunk ≤ v.p.discarded + cks.chunkCount := by
  obtain ⟨hle, hle'⟩ := h.packing_chunk
  have hd := h.working.disk.discarded_le
  have hsto := h.working.disk.stored_le
  have hcount := cks.chunkCount_le
  unfold slotCount at hle'
  have hdist : (BitVec.ofNat 64 (packing s.enqueued).chunk -
      s.pmq.persister.persistCursors.cksDiscardCsn).toNat =
      (packing s.enqueued).chunk - v.p.discarded := by
    rw [h.working.disk.cursors, hs]
    exact toNat_sub (hd.trans hle) (by omega)
  rw [Session.StoreHasRoom, h.working.sized.chunkStore]
  simp only [hpers, forall_const]
  omega

/-! ## One call -/

/-- The record that a call commits last is loadable: the messages up to `walled` are in chunks or in
`wal.dat`. -/
lemma Inv.isLoadable (h : Inv msg cks v q) : (v.p.record msg cks).isLoadable = true := by
  have hring := h.working.disk.ring
  have hw := h.walled
  have hn := slotPos_le msg h.working.disk.walled_le
  have hsto := slotPos_le msg (chunkStart_le msg h.working.disk.pub_stored)
  have hwal : slotPos msg v.p.walled ≤ slotPos msg (chunkStart msg v.p.stored) +
    slotCount := by omega
  have hd := h.working.disk.discarded_le
  have hs := h.working.disk.stored_le
  have hcount := cks.chunkCount_le
  have hpos := slotPos_le msg hw
  have hmsgs := sub_add_slotPos_le msg hw
  have hslots : (BitVec.ofNat 64 (slotCount * slotSize)).toNat = slotCount * slotSize := rfl
  have hsmall : slotCount = 524288 := rfl
  unfold CommitRecord.isLoadable Marks.record
  simp only [Bool.and_eq_true, decide_eq_true_eq, beq_iff_eq]
  rw [le_ofNat ⟨by omega, by omega⟩, le_ofNat ⟨by omega, by omega⟩,
    le_ofNat ⟨by omega, by omega⟩, toNat_sub hd (by omega), toNat_sub hpos (by omega), hslots]
  simp only [decide_eq_true_eq]
  refine ⟨⟨⟨⟨⟨⟨hd, hpos⟩, hw⟩, mod_eq_zero_of_dvd cks.dvd_capacityBytes⟩, ?_⟩, by decide⟩, ?_⟩
  · exact sub_le_of_le_add (Nat.add_comm _ _ ▸ hs)
  · exact sub_le_of_le_add (Nat.add_comm _ _ ▸ hwal)

open Session

/-- A call that keeps all records loadable is one for which the chunk store has room. -/
lemma Session.commitsLoadable_step (h : s.Healthy cks) (hcopies : s.CopiesInside call)
    (hio : AllOk call.io) (hload : s.CommitsLoadable) :
    (s.step call).CommitsLoadable ↔ s.StoreHasRoom call := by
  obtain ⟨msg, hmsg⟩ := exists_firstMessages (h.sound.valid_step hcopies)
  have hs := enqueued_of_step hmsg
  obtain ⟨v, hinv, hn, _, _, _, hwalled⟩ := h.settled msg hs
  rw [← hn] at hs
  rcases step_spec h.running hcopies (.inl hio.noFail) hmsg hs hinv with ⟨v', hv'⟩ | hcrash
  · have hsame : ∀ record chunks slots, (s.step call).pmq.diskImage chunks slots record =
        s.pmq.diskImage chunks slots record := by
      intro record chunks slots
      have hsized := hv'.inv.working.sized
      have hsized' := hinv.working.sized
      rw [diskImage, diskImage, hsized.chunkStore, hsized.slotsfileSizeBytes, hsized'.chunkStore,
        hsized'.slotsfileSizeBytes]
    rcases hv'.commits hio.noFail with ⟨hpers, hper, _⟩ | ⟨hpers, _, hcom⟩
    · refine ⟨fun _ hpers' => absurd (hpers.symm.trans hpers') (by simp), fun _ => ?_⟩
      intro record hrec
      rw [hper] at hrec
      simp only [hsame]
      exact hload record hrec
    · have hchunk := eq_packing_chunk hcom.started hcom.le_end
      rw [hinv.storeHasRoom_iff hs hpers, hs, ← hchunk]
      rcases hcom.commits with ⟨hle, heq⟩ | ⟨hlt, hfull⟩
      · refine ⟨fun _ => hle, fun _ record hrec => ?_⟩
        rw [heq, mem_cons] at hrec
        rcases hrec with rfl | hrec
        · refine ⟨hv'.inv.isLoadable, fun chunks slots => ?_⟩
          exact hv'.inv.working.sized.initLoadexisting_isSome rfl hv'.inv.isLoadable chunks slots
        · simp only [hsame]
          exact hload record hrec
      · -- a record that was committed while the chunk store was full is not loadable
        obtain ⟨r, hsto, hw, hmem⟩ := hfull
        have hp' := hcom.started
        refine ⟨fun hload' => ?_, fun hle => absurd hlt (Nat.not_lt.mpr hle)⟩
        have hbeh : v.p.walled < chunkStart msg r.stored :=
          hwalled.trans_lt (chunkStart_strictMono (by omega))
        have hle := chunkStart_le msg (Nat.le_of_lt (hsto ▸ hlt : r.stored < v'.p.stored))
        have hring := hinv.working.disk.ring
        have hpub := chunkStart_le msg hinv.working.disk.pub_stored
        have hslots := sub_add_slotPos_le msg (hpub.trans hinv.working.disk.stored_msgs_le)
        have hstart := hinv.walled
        unfold slotCount at hring
        -- It is rejected because `wal_msn` is behind `cks_msn`.
        have hmsn : le (r.record msg cks).cksMsn (r.record msg cks).walMsn = false := by
          unfold Marks.record
          rw [hw, le_ofNat ⟨by omega, by omega⟩]
          exact decide_eq_false (Nat.not_le.mpr hbeh)
        have hnot : (r.record msg cks).isLoadable = false := by
          unfold CommitRecord.isLoadable
          rw [hmsn]
          simp
        cases hnot.symm.trans (hload' _ hmem).1
  · exact absurd hcrash.mem_io hio.not_crash

/-! ## All calls -/

lemma Session.commitsLoadable_start (cks : ChunkStore) : (start cks).CommitsLoadable := by
  obtain ⟨hinv, hcom⟩ := inv_create (fun _ => default) cks
  intro record hrec
  change record ∈ (create cks).persister.commits at hrec
  rw [hcom, mem_singleton] at hrec
  subst hrec
  exact ⟨hinv.isLoadable, hinv.working.sized.initLoadexisting_isSome rfl hinv.isLoadable⟩

/-- In a run without errors, in which no message is copied past the end of its chunk, all commit
records are loadable if and only if the chunk store has room for the chunks of each call. -/
theorem commits_loadable_iff (cks : ChunkStore) (calls : List Call)
    (hio : ∀ call ∈ calls, AllOk call.io)
    (hinside : EveryStep step Session.CopiesInside (start cks) calls) :
    EveryState step Session.CommitsLoadable (start cks) calls ↔
      EveryStep step Session.StoreHasRoom (start cks) calls := by
  refine everyState_iff_of_everyStep (I := fun s : Session => s.Healthy cks)
    (fun s call hcall hs => ?_) (fun s call hcall hs hload => ?_)
    (healthy_start cks) (commitsLoadable_start cks) (hinside.and (everyStep_of_forall hio))
  · exact hs.step hcall.1 hcall.2
  · exact commitsLoadable_step hs hcall.1 hcall.2 hload

/-- Persisting an empty queue. -/
theorem commits_loadable_iff_sync :
    let calls : List Call := [⟨.sync, []⟩]
    (∀ call ∈ calls, AllOk call.io) ∧ EveryStep step Session.CopiesInside (start .smallest) calls ∧
      EveryState step Session.CommitsLoadable (start .smallest) calls := by
  intro calls
  have hio : ∀ call ∈ calls, AllOk call.io := by
    simp [calls, AllOk]
  have hroom : (start .smallest).StoreHasRoom ⟨.sync, []⟩ := by
    have hinv := (inv_create (fun _ => default) .smallest).1
    exact (hinv.storeHasRoom_iff (s := start .smallest) rfl rfl).mpr (zero_le _)
  have hinside : EveryStep step Session.CopiesInside (start .smallest) calls := ⟨trivial, trivial⟩
  exact ⟨hio, hinside, (commits_loadable_iff .smallest calls hio hinside).mpr ⟨hroom, trivial⟩⟩

/-! ## A record that is not loadable -/

/-- A message that leaves no room for a second one in its chunk. -/
def halfChunkMessage : Message := ⟨⟨32761, fun _ => 0⟩, by decide, by decide⟩

/-- `n` such messages. -/
def halfChunkCalls (n : ℕ) : List Call :=
  List.replicate n ⟨.enqueue halfChunkMessage.toMessageData, []⟩

lemma firstMessages_const (m : Message) (n : ℕ) :
    List.replicate n m.toMessageData = firstMessages (fun _ => m) n := by
  simp [firstMessages]

lemma slotPos_const (m : Message) (n : ℕ) : slotPos (fun _ => m) n = n * m.nslots := by
  induction n with
  | zero => rw [Nat.zero_mul]; rfl
  | succ n ih => rw [slotPos_succ, ih, succ_mul]

/-- Each of the messages has a chunk of its own. -/
lemma packing_halfChunkMessages (n : ℕ) :
    packing (List.replicate (n + 1) halfChunkMessage.toMessageData) = ⟨n, 1, 16 + 32761⟩ := by
  induction n with
  | zero => exact Packing.add_of_fits (by decide)
  | succ n ih =>
    rw [replicate_succ', packing, foldl_append, ← packing, ih]
    refine Packing.add_of_not_fits ?_
    change ¬16 + 32761 + 32761 ≤ 65536 - (1 + 2) * 2
    decide

/-- None of them is copied past the end of its chunk. -/
lemma copiedInside_halfChunkMessages (n : ℕ) :
    (packing (List.replicate n halfChunkMessage.toMessageData)).CopiedInside 32761 := by
  cases n with
  | zero => decide
  | succ n =>
    have hfull : (⟨n, 1, 16 + 32761⟩ : Packing).fits 32761 = false := by
      refine decide_eq_false ?_
      change ¬16 + 32761 + 32761 ≤ 65536 - (1 + 2) * 2
      decide
    have hinside : 16 + bytesCopied 32761 ≤ chunkSize := by decide
    rw [packing_halfChunkMessages, Packing.CopiedInside, Packing.room, hfull]
    exact hinside

/-- As long as the messages fit into the ring, nothing is written to the files. -/
lemma halfChunkCalls_run (cks : ChunkStore) {n : ℕ} (hn : n ≤ 1026) :
    let s := runFrom step (start cks) (halfChunkCalls n)
    s.Healthy cks ∧ s.CommitsLoadable ∧
      s.enqueued = List.replicate n halfChunkMessage.toMessageData ∧
      s.pmq.persister = (create cks).persister := by
  induction n with
  | zero => exact ⟨healthy_start cks, commitsLoadable_start cks, rfl, rfl⟩
  | succ n ih =>
    obtain ⟨hs, hload, henq, hper⟩ := ih (le_of_succ_le hn)
    have hsucc : halfChunkCalls (n + 1) =
        halfChunkCalls n ++ [⟨.enqueue halfChunkMessage.toMessageData, []⟩] :=
      replicate_succ'
    rw [hsucc, runFrom_concat]
    generalize runFrom step (start cks) (halfChunkCalls n) = s at *
    obtain ⟨v, hinv, hv, _⟩ := hs.sound.running hs.running (fun _ => halfChunkMessage) (by
      rw [henq, length_replicate]
      exact firstMessages_const halfChunkMessage n)
    have hfree : mustPersist s.pmq (.enqueue halfChunkMessage.toMessageData) = false := by
      refine (hinv.enoughRoom_iff halfChunkMessage.nslots_le).mp ?_
      rw [henq, length_replicate] at hv
      have hslots : halfChunkMessage.nslots = 293 := rfl
      rw [EnoughRoom, slotPos_const, hslots, slotCount]
      omega
    generalize hcall : (⟨.enqueue halfChunkMessage.toMessageData, []⟩ : Call) = call
    have hcopies : s.CopiesInside call := by
      rw [CopiesInside, ← hcall, henq]
      exact ⟨halfChunkMessage.valid, copiedInside_halfChunkMessages n⟩
    have hio : AllOk call.io := hcall ▸ (by rintro _ ⟨⟩)
    have hfree' : mustPersist s.pmq call.op = false := hcall ▸ hfree
    have hroom : s.StoreHasRoom call := fun hpers => absurd (hfree'.symm.trans hpers) (by simp)
    obtain ⟨msg, hmsg⟩ := exists_firstMessages (hs.sound.valid_step hcopies)
    obtain ⟨v, _, _, _, ⟨_, hv'⟩ | hv'⟩ :=
      hs.sound.step_spec hs.running hcopies (.inl hio.noFail) hmsg
    · refine ⟨hs.step hcopies hio, (commitsLoadable_step hs hcopies hio hload).mpr hroom, ?_, ?_⟩
      · rw [hv'.enqueued hio.noFail, replicate_succ', ← henq, ← hcall]
        rfl
      · rw [← hper]
        rcases hv'.commits hio.noFail with ⟨_, hper, _⟩ | ⟨hpers', _⟩
        · exact hper
        · cases hfree'.symm.trans hpers'
    · exact absurd hv'.mem_io hio.not_crash

/-- With 1026 such messages in a store of 1024 chunks, `pmq_sync` commits a record that is not
loadable. -/
theorem commits_loadable_fails :
    ¬(runFrom step (start .smallest) (halfChunkCalls 1026 ++ [⟨.sync, []⟩])).CommitsLoadable := by
  intro hload'
  obtain ⟨hs, hload, henq, hper⟩ := halfChunkCalls_run .smallest le_rfl
  rw [runFrom_concat] at hload'
  generalize runFrom step (start .smallest) (halfChunkCalls 1026) = s at *
  have hiff : (s.step ⟨.sync, []⟩).CommitsLoadable ↔ s.StoreHasRoom ⟨.sync, []⟩ :=
    commitsLoadable_step hs trivial (nofun) hload
  obtain ⟨v, hinv, _⟩ := hs.sound.running hs.running (fun _ => halfChunkMessage) (by
    rw [henq, length_replicate]
    exact firstMessages_const halfChunkMessage 1026)
  have hdisc : s.pmq.persister.persistCursors.cksDiscardCsn = 0 := by
    rw [hper, (inv_create (fun _ => default) .smallest).1.working.disk.cursors]
    rfl
  have hle := hiff.mp hload' rfl
  rw [henq, packing_halfChunkMessages 1025, hdisc, hinv.working.sized.chunkStore] at hle
  nomatch hle

end Loadable

end Beegfs.Pmq
