import Beegfs.Pmq.WalSpec

/-!
# What the calls of the message queue do

`pmq_sync` and `pmq_enqueue_msg` keep the invariant of the queue.  When file operations may fail,
this needs that the messages to be packed do not need the memory of a chunk that is not yet written.
-/

namespace Beegfs.Pmq

open BitVec List Nat

section Calls

variable {msg : ℕ → Message} {cks : ChunkStore} {n c K : ℕ} {p pub : Marks} {q : Pmq}

/-! ## Persisting -/

variable (msg cks) in
/-- What `pmq_persist` leaves when it fails: all messages are packed, and the persister's positions
have only advanced. -/
def PersistFailed (n : ℕ) (p pub : Marks) (q q' : Pmq) : Prop :=
  Kept q q' ∧ ∃ K' p' pub', Working msg cks n n K' p' pub' q' ∧
    (K' = 0 ∨ chunkStart msg K' < n) ∧ chunkStart msg p'.stored ≤ p'.walled ∧
    p.walled ≤ p'.walled ∧ pub.stored ≤ pub'.stored ∧ pub.walled ≤ pub'.walled

variable (msg cks) in
/-- The commits of a call that has persisted `n` messages: the last one leaves room in the chunk
store, and it is the only one unless the store became full. -/
structure CommitsAfter (n : ℕ) (p p' : Marks) (commits commits' : List CommitRecord) : Prop where
  room : p'.stored + 256 ≤ p'.discarded + cks.chunkCount
  started : p'.stored = 0 ∨ chunkStart msg p'.stored < n
  le_end : n ≤ chunkStart msg (p'.stored + 1)
  walled_le : p'.walled ≤ n
  commits : (p'.stored ≤ p.discarded + cks.chunkCount ∧ commits' = p'.record msg cks :: commits) ∨
    (p.discarded + cks.chunkCount < p'.stored ∧ FullCommit msg cks p commits')

variable (msg cks) in
/-- What `pmq_persist` leaves when it succeeds: all finished chunks are in the store, the messages
before slot `s` are on the disk, and all of this is committed. -/
def PersistDone (n : ℕ) (p : Marks) (s : ℕ) (q q' : Pmq) : Prop :=
  Kept q q' ∧ ∃ p', Working msg cks n n p'.stored p' p' q' ∧
    (p'.stored = 0 ∨ chunkStart msg p'.stored < n) ∧ chunkStart msg p'.stored ≤ p'.walled ∧
    p.stored ≤ p'.stored ∧ p.walled ≤ p'.walled ∧ (s = slotPos msg n → p'.walled = n) ∧
    CommitsAfter msg cks n p p' q.persister.commits q'.persister.commits

/-- The persister's positions may advance as far as the finished chunks. -/
lemma Working.persisted {p' pub' : Marks} {q' : Pmq} (h : Working msg cks n c K p pub q)
    (hq : Persisted q q') (hdisk : Disk msg cks n p' pub' q'.persister)
    (hsto : p.stored ≤ p'.stored) (hle : p'.stored ≤ K) : Working msg cks n c K p' pub' q' where
  sized := hq.sized h.sized
  c_le := h.c_le
  inside := h.inside
  building := hq.chunkQueue ▸ h.building
  finished j hj hjK := hq.chunkQueue ▸ h.finished j (hsto.trans hj) hjK
  stored_le := hle
  le_stored := h.le_stored.trans (succ_le_succ hsto)
  disk := hdisk

/-- `pmq_persist` packs all messages and has those before slot `s` on the disk. -/
lemma persist_spec {s : ℕ} (h : Working msg cks n c K p pub q)
    (hstarted : K = 0 ∨ chunkStart msg K < c) (hwal : chunkStart msg p.stored ≤ p.walled)
    (hring : RingHolds msg q.slots (chunkStart msg pub.stored) n)
    (hs : s = slotPos msg n ∨ s + 21839 ≤ slotPos msg n) (hs' : slotPos msg n ≤ s + slotCount)
    (hio : NoFail q.io ∨ n ≤ chunkStart msg (p.stored + 2)) :
    Runs q (persist (BitVec.ofNat 64 s) (BitVec.ofNat 64 (slotPos msg n)))
      (PersistDone msg cks n p s q) (PersistFailed msg cks n p pub q)
      (Crashed msg cks n pub.walled) := by
  have hsto := chunkStart_le msg h.disk.pub_stored
  have hcur := chunkStart_le msg h.stored_le
  have hpos := slotPos_le msg (hsto.trans hwal)
  have hpos' := slotPos_le msg (le_trans (hsto.trans hcur) h.building.start_le)
  have hroom := h.disk.ring
  have hcompact := compact_spec h (hring.mono (by have := h.building.start_le; omega) le_rfl)
    (by omega)
  refine wp_seq (Runs.mono hcompact (fun _ h' => h') (fun q' hfail hmore => ?_) fun _ h' => h') ?_
  · rcases hio with hio | hio
    · exact absurd hio hfail
    · omega
  rintro _ hio1 ⟨hq1, K1, _, _, h1, hK1, hmov1, hcom1⟩
  have hstart1 : K1 = 0 ∨ chunkStart msg K1 < n := by
    rcases hK1 with ⟨rfl, rfl⟩ | hK1
    · exact hstarted
    · exact .inr hK1
  have hpack := slotPos_le_of_le_chunkEnd h1.building.start_le h1.building.le_end
  refine wp_seq (Runs.mono (persistFinishedChunkBuffers_spec h1.sized h1.disk h1.building.cqCsn
    h1.stored_le (le_succ_of_le h1.le_stored) h1.finished h1.building.start_le)
    (fun _ h' => h') (fun q' hfail h' => ?_) (Crashed.mono hmov1.pub_walled)) ?_
  · obtain ⟨hq', p', pub', hdisk', hlt, hmov'⟩ := h'
    have hmoved := hmov1.trans hmov'
    have hsame : p'.stored = p.stored := by
      rcases hio with hio | hio
      · exact absurd (hio.suffix hio1) hfail
      · have hK : K1 < p.stored + 2 := by
          rcases hstart1 with hzero | hlt'
          · omega
          · exact chunkStart_strictMono.lt_iff_lt.mp (hlt'.trans_le hio)
        have := hmoved.stored
        omega
    refine ⟨hq1.trans hq'.toKept, K1, p', pub', h1.persisted hq' hdisk' hmov'.stored
      hlt.le, hstart1, ?_, ?_, hmoved.pub_stored, hmoved.pub_walled⟩
    · rw [hsame, hmoved.walled]
      exact hwal
    · exact Nat.le_of_eq hmoved.walled.symm
  rintro q2 - ⟨hq2, p2, pub2, h2, hsto2, hmov2, hcom2⟩
  have hkept2 := hq1.trans hq2.toKept
  have hmoved := hmov1.trans hmov2
  have hcom := hcom1.trans hmov1 hmov2.stored hcom2
  have hwork2 := h1.persisted hq2 h2 hmov2.stored (Nat.le_of_eq hsto2)
  have hring2 : RingHolds msg q2.slots (chunkStart msg p2.stored) n := by
    rw [hkept2.slots]
    exact hring.mono (hsto.trans (chunkStart_le msg hmoved.stored)) le_rfl
  rw [← hsto2] at hpack hstart1
  refine wp_seq ((persistUnpersistedSlots_spec h2 hring2 ?_ ?_ ?_ hs').mono (fun _ h' => h')
    (fun q' _ h' => ?_) (Crashed.mono hmoved.pub_walled)) ?_
  · rw [hsto2]
    exact h1.building.le_end
  · rw [hmoved.walled]
    omega
  · omega
  · obtain ⟨hq', w, hw, hw', hdisk'⟩ := h'
    refine ⟨hkept2.trans hq'.toKept, K1, _, pub2, hwork2.persisted hq' hdisk' le_rfl
      (Nat.le_of_eq hsto2), hsto2 ▸ hstart1, hw', ?_, hmoved.pub_stored, hmoved.pub_walled⟩
    rw [← hmoved.walled]
    exact hw
  rintro _ - ⟨hq3, w, hw, hw', hwn, h3, hcom3⟩
  have hkept3 := hkept2.trans hq3.toKept
  have hwork3 := hwork2.persisted hq3 h3 le_rfl (Nat.le_of_eq hsto2)
  rw [← hsto2] at hwork3
  rw [hmoved.walled] at hw
  refine (commit_spec hwork3.sized h3).mono (fun q' h' => ?_) (fun q' _ h' => ?_)
    (Crashed.mono hmoved.pub_walled)
  · obtain ⟨hq', hdisk', hcom'⟩ := h'
    refine ⟨hkept3.trans hq'.toKept, Marks.committed cks { p2 with walled := w },
      hwork3.persisted hq' hdisk' le_rfl le_rfl, hstart1, hw',
      hmoved.stored, hw, hwn, Marks.stored_add_lt h3.stored_le, hstart1,
      hwork3.building.le_end, h3.walled_le, ?_⟩
    rw [hcom', hcom3]
    rcases hcom with ⟨hd, hcom⟩ | ⟨hlt, _, r, hr, hr', hmem⟩
    · rw [hcom]
      exact .inl ⟨hd ▸ h2.stored_le, rfl⟩
    · exact .inr ⟨hlt, r, hr, hr', mem_cons_of_mem _ hmem⟩
  · exact ⟨hkept3.trans h'.1.toKept, p2.stored, { p2 with walled := w }, pub2,
      hwork3.persisted h'.1 h'.2 le_rfl le_rfl, hstart1, hw', hw,
      hmoved.pub_stored, hmoved.pub_walled⟩

/-! ## Syncing -/

variable {v : Positions}

section

variable (h : Inv msg cks v q)

include h

lemma Inv.nd_le_n : v.nd ≤ v.n := by
  have hsto := chunkStart_le msg h.working.disk.pub_stored
  have hn := h.working.disk.stored_msgs_le
  exact h.nd_le.trans (hsto.trans hn)

/-- The ring holds all messages that are in no committed chunk. -/
lemma Inv.ring_pub : RingHolds msg q.slots (chunkStart msg v.pub.stored) v.n :=
  h.ring.mono h.nd_le le_rfl

/-- The enqueuer's cursors do not matter to the persister. -/
lemma Inv.kept {q' : Pmq} (hq : Kept q q') {c K : ℕ} {p pub : Marks}
    (hwork : Working msg cks v.n c K p pub q') (hstarted : K = 0 ∨ chunkStart msg K < c)
    (hwal : chunkStart msg p.stored ≤ p.walled) (hpub : v.pub.stored ≤ pub.stored) :
    Inv msg cks { v with c := c, K := K, p := p, pub := pub } q' where
  working := hwork
  started := hstarted
  walled := hwal
  cursors := hq.inQueueCursors.trans h.cursors
  pubCursors := by
    rw [hq.pubInQueueCursors]
    exact h.pubCursors
  nd_le := h.nd_le.trans (chunkStart_le msg hpub)
  ring := by
    rw [hq.slots]
    exact h.ring

variable (msg cks v) in
/-- What a failed call leaves. -/
def CallFailed (q' : Pmq) : Prop :=
  ∃ v', Inv msg cks v' q' ∧ v'.n = v.n ∧ v.pub.walled ≤ v'.pub.walled

variable (msg cks v) in
/-- What a call leaves that has persisted the messages before slot `s`. -/
def CallPersisted (s : ℕ) (q q' : Pmq) : Prop :=
  ∃ p', Inv msg cks { v with c := v.n, K := p'.stored, p := p', pub := p' } q' ∧
    v.p.walled ≤ p'.walled ∧ (s = slotPos msg v.n → p'.walled = v.n) ∧
    CommitsAfter msg cks v.n v.p p' q.persister.commits q'.persister.commits

/-- Persisting keeps the invariant. -/
lemma Inv.persist_spec {s : ℕ} (hs : s = slotPos msg v.n ∨ s + 21839 ≤ slotPos msg v.n)
    (hs' : slotPos msg v.n ≤ s + slotCount)
    (hio : NoFail q.io ∨ v.n ≤ chunkStart msg (v.p.stored + 2)) :
    Runs q (persist (BitVec.ofNat 64 s) (BitVec.ofNat 64 (slotPos msg v.n)))
      (CallPersisted msg cks v s q) (CallFailed msg cks v) (Crashed msg cks v.n v.pub.walled) := by
  have hsto := h.working.disk.pub_stored
  refine (Pmq.persist_spec h.working h.started h.walled h.ring_pub hs hs' hio).mono
    (fun q' h' => ?_) (fun q' _ h' => ?_) fun _ h' => h'
  · obtain ⟨hq', p', hwork, hstarted, hwal, hle, hw, hwn, hcom⟩ := h'
    exact ⟨p', h.kept hq' hwork hstarted hwal (hsto.trans hle), hw, hwn, hcom⟩
  · obtain ⟨hq', _, p', _, hwork, hstarted, hwal, _, hpub, hpub'⟩ := h'
    exact ⟨_, h.kept hq' hwork hstarted hwal hpub, rfl, hpub'⟩

/-- `pmq_sync` has all messages on the disk when it returns `true`. -/
lemma sync_spec (hio : NoFail q.io ∨ v.n ≤ chunkStart msg (v.p.stored + 2)) :
    Runs q sync (CallPersisted msg cks v (slotPos msg v.n) q) (CallFailed msg cks v)
      (Crashed msg cks v.n v.pub.walled) := by
  obtain ⟨nd, hnd, hpub, hroom⟩ := h.pubCursors
  have hle := slotPos_le msg (hnd.trans h.nd_le_n)
  have hnear : SeqNum.Near 64 (slotPos msg nd) (slotPos msg v.n) := by
    unfold slotCount at hroom
    constructor <;> omega
  unfold Runs sync
  rw [wp_bind, wp_get, wp_bind, hpub]
  refine wp_pmqAssert ?_ ?_
  · simp only [inQueueAt, SeqNum.le_ofNat hnear, decide_eq_true_eq]
    exact hle
  · exact h.persist_spec (.inl rfl) (Nat.le_add_right _ _) hio

end

/-! ## Making room -/

/-- The test for room, in terms of positions. -/
lemma hasRoom_eq {nd s : ℕ} (hcurs : q.inQueueCursors = inQueueAt msg n nd)
    (hle : slotPos msg nd ≤ s) (hs : s ≤ slotPos msg nd + 2 ^ 63) :
    hasRoom q (BitVec.ofNat 64 s) = decide (s ≤ slotPos msg nd + slotCount) := by
  have hdist : (BitVec.ofNat 64 s - q.inQueueCursors.ssnDisk).toNat = s - slotPos msg nd := by
    rw [hcurs]
    exact SeqNum.toNat_sub hle (by omega)
  rw [hasRoom, decide_eq_decide]
  omega

/-- The enqueuer may learn of all chunks that are committed. -/
lemma Inv.refresh {nd : ℕ} (h : Inv msg cks v q) (pc : PersistCursors)
    (hmsn : pc.cksMsn = BitVec.ofNat 64 nd) (hssn : pc.cksSsn = BitVec.ofNat 64 (slotPos msg nd))
    (hle : v.nd ≤ nd) (hnd : nd ≤ chunkStart msg v.pub.stored) :
    Inv msg cks { v with nd := nd } (refreshDiskCursors pc q) := by
  refine { h with
    working := { h.working with
      sized := ⟨h.working.sized.chunkStore, h.working.sized.slotsfileSizeBytes⟩ }
    cursors := ?_
    pubCursors := ?_
    nd_le := hnd
    ring := h.ring.mono hle le_rfl }
  · unfold refreshDiskCursors
    simp only [h.cursors, inQueueAt, hmsn, hssn]
  · obtain ⟨nd', hnd', hpub, hroom⟩ := h.pubCursors
    exact ⟨nd', hnd'.trans hle, hpub, hroom⟩

/-- The ring always has the messages of the enqueuer. -/
lemma Inv.room (h : Inv msg cks v q) : slotPos msg v.n ≤ slotPos msg v.nd + slotCount := by
  obtain ⟨nd, hnd, _, _⟩ := h.pubCursors
  have hle := slotPos_le msg hnd
  omega

variable (msg v) in
/-- The published cursors tell of enough room for `k` more slots, so that nothing is persisted. -/
def EnoughRoom (k : ℕ) : Prop :=
  slotPos msg v.n + k ≤ slotPos msg (chunkStart msg v.pub.stored) + slotCount

variable (msg cks v) in
/-- What a call that needs `k` slots leaves when it has persisted nothing, or all messages. -/
def CallDone (k : ℕ) (v' : Positions) (q q' : Pmq) : Prop :=
  Inv msg cks v' q' ∧ v.pub.walled ≤ v'.pub.walled ∧
    (EnoughRoom msg v k ∧ q'.persister = q.persister ∧ v'.p = v.p ∧ v'.pub = v.pub ∨
      ¬EnoughRoom msg v k ∧ v'.pub = v'.p ∧
        CommitsAfter msg cks v.n v.p v'.p q.persister.commits q'.persister.commits)

variable (msg cks v) in
/-- The call leaves room for `k` more slots. -/
def RoomMade (k : ℕ) (q q' : Pmq) : Prop :=
  ∃ v', CallDone msg cks v k v' q q' ∧ v'.n = v.n ∧
    slotPos msg v.n + k ≤ slotPos msg v'.nd + slotCount

/-- There is room for the next message after all messages were persisted. -/
lemma flushInputSlots_spec {k : ℕ} (h : Inv msg cks v q) (hk : k ≤ 585)
    (hfull : ¬EnoughRoom msg v k) (hio : NoFail q.io ∨ v.n ≤ chunkStart msg (v.p.stored + 2)) :
    Runs q (flushInputSlots (BitVec.ofNat 64 (slotPos msg v.n + k))) (RoomMade msg cks v k q)
      (CallFailed msg cks v) (Crashed msg cks v.n v.pub.walled) := by
  have hssn : q.inQueueCursors.ssnMem = BitVec.ofNat 64 (slotPos msg v.n) := by
    rw [h.cursors]
    rfl
  have hcount : slotCount ≤ slotPos msg v.n + k := by
    unfold EnoughRoom at hfull
    omega
  unfold Runs flushInputSlots
  rw [wp_bind, wp_get, hssn, SeqNum.ofNat_sub hcount]
  refine wp_seq (h.persist_spec (.inr ?_) ?_ hio) ?_
  · unfold slotCount at hcount ⊢
    omega
  · omega
  rintro q1 - ⟨p', h1, hw, _, hcom⟩
  have hpack := slotPos_le_of_le_chunkEnd h1.working.building.start_le h1.working.building.le_end
  have hcurs := h1.working.disk.cursors
  have hrefr := h1.refresh q1.persister.persistCursors (by rw [hcurs]; rfl)
    (by rw [hcurs]; rfl) h1.nd_le le_rfl
  have hstart : slotPos msg (chunkStart msg p'.stored) ≤ slotPos msg v.n :=
    slotPos_le msg h1.working.building.start_le
  rw [Runs, wp_bind, wp_modify, wp_bind, wp_get, wp_bind]
  have hroom : slotPos msg v.n + k ≤ slotPos msg (chunkStart msg p'.stored) + slotCount := by
    change slotPos msg v.n ≤ slotPos msg (chunkStart msg p'.stored) + 21839 at hpack
    unfold slotCount
    omega
  refine wp_pmqAssert ?_ ⟨suffix_refl _, _, ⟨hrefr, ?_, .inr ⟨hfull, rfl, hcom⟩⟩, rfl, hroom⟩
  · have hbound : slotPos msg v.n + k ≤ slotPos msg (chunkStart msg p'.stored) + 2 ^ 63 :=
      hroom.trans (Nat.add_le_add_left (by decide) _)
    exact (hasRoom_eq hrefr.cursors (le_add_right_of_le hstart) hbound).trans (decide_eq_true hroom)
  · exact h.working.disk.pub_walled.trans hw

/-- `pmq_prepare_input_slots` makes room for the next message. -/
lemma prepareInputSlots_spec {k : ℕ} (h : Inv msg cks v q) (hk : k ≤ 585)
    (hio : EnoughRoom msg v k ∨ NoFail q.io ∨ v.n ≤ chunkStart msg (v.p.stored + 2)) :
    Runs q (prepareInputSlots k) (RoomMade msg cks v k q)
      (CallFailed msg cks v) (Crashed msg cks v.n v.pub.walled) := by
  have hroom := h.room
  have hssn : q.inQueueCursors.ssnMem = BitVec.ofNat 64 (slotPos msg v.n) := by
    rw [h.cursors]
    rfl
  have hpub := h.working.disk.pubCursors
  have hrefr := h.refresh q.persister.pubPersistCursors (by rw [hpub]; rfl) (by rw [hpub]; rfl)
    h.nd_le le_rfl
  have hback := slotPos_le msg h.nd_le
  have hnd := slotPos_le msg h.nd_le_n
  have hsto : slotPos msg (chunkStart msg v.pub.stored) ≤ slotPos msg v.n :=
    slotPos_le msg hrefr.nd_le_n
  unfold Runs prepareInputSlots
  rw [wp_bind, wp_get, hssn, ← ofNat_add, wp_bind]
  have hsmall : slotCount = 524288 := rfl
  refine wp_pmqAssert ?_ ?_
  · rw [hasRoom_eq h.cursors hnd (by omega)]
    exact decide_eq_true hroom
  rw [hasRoom_eq h.cursors (by omega) (by omega), wp_ite, decide_eq_true_eq]
  refine ⟨fun hfree => ?_, fun _ => ?_⟩
  · refine ⟨suffix_refl _, v, ⟨h, le_rfl, .inl ⟨?_, rfl, rfl, rfl⟩⟩, rfl, hfree⟩
    unfold EnoughRoom
    omega
  have hbound : slotPos msg v.n + k ≤ slotPos msg (chunkStart msg v.pub.stored) + 2 ^ 63 := by
    omega
  rw [wp_bind, wp_modify, wp_bind, wp_get,
    hasRoom_eq hrefr.cursors (le_add_right_of_le hsto) hbound, wp_ite, decide_eq_true_eq]
  refine ⟨fun hfree => ?_, fun hfull => ?_⟩
  · exact ⟨suffix_refl _, _, ⟨hrefr, le_rfl, .inl ⟨hfree, rfl, rfl, rfl⟩⟩, rfl, hfree⟩
  · have hio' : NoFail q.io ∨ v.n ≤ chunkStart msg (v.p.stored + 2) := hio.resolve_left hfull
    exact (flushInputSlots_spec hrefr hk hfull hio').mono (fun _ h' => h') (fun _ _ h' => h')
      fun _ h' => h'

/-! ## Enqueuing -/

/-- One more message does not matter to the files, as long as the ring has room for it. -/
lemma Disk.enqueue {per : Persister} (h : Disk msg cks n p pub per)
    (hroom : slotPos msg (n + 1) ≤ slotPos msg (chunkStart msg pub.stored) + slotCount) :
    Disk msg cks (n + 1) p pub per where
  __ := h
  stored_msgs_le := le_succ_of_le h.stored_msgs_le
  walled_le := le_succ_of_le h.walled_le
  ring := hroom

/-- One more message does not matter to the persister. -/
lemma Working.enqueue (h : Working msg cks n c K p pub q) (hinside : Inside msg (n + 1))
    (hroom : slotPos msg (n + 1) ≤ slotPos msg (chunkStart msg pub.stored) + slotCount) :
    Working msg cks (n + 1) c K p pub q where
  __ := h
  c_le := le_succ_of_le h.c_le
  inside := hinside
  disk := h.disk.enqueue hroom

/-- The queue after the message was written to the ring. -/
def serialized (m : Message) (q : Pmq) : Pmq :=
  let ic := { q.inQueueCursors with
    msn := q.inQueueCursors.msn + 1
    ssnMem := q.inQueueCursors.ssnMem + BitVec.ofNat 64 (slotsWritten m.size) }
  { q with
    slots := writeMsg q.slots q.inQueueCursors.ssnMem m.data m.size
    inQueueCursors := ic
    pubInQueueCursors := ic }

/-- Writing the next message to the ring keeps the invariant when there is room for it. -/
lemma Inv.serialized (h : Inv msg cks v q) (hinside : Inside msg (v.n + 1))
    (hroom : slotPos msg (v.n + 1) ≤ slotPos msg v.nd + slotCount) :
    Inv msg cks { v with n := v.n + 1 } (serialized (msg v.n) q) := by
  have hback := slotPos_le msg h.nd_le
  have hcurs : (Pmq.serialized (msg v.n) q).inQueueCursors = inQueueAt msg (v.n + 1) v.nd := by
    unfold Pmq.serialized
    simp only [h.cursors, inQueueAt, slotsWritten_eq, SeqNum.ofNat_add_one, ← ofNat_add]
    rfl
  have hslots : (Pmq.serialized (msg v.n) q).slots =
      writeMsg q.slots (BitVec.ofNat 64 (slotPos msg v.n)) (msg v.n).data (msg v.n).size := by
    unfold Pmq.serialized
    rw [h.cursors]
    rfl
  have hwork := h.working.enqueue hinside (hroom.trans (by omega))
  refine ⟨⟨⟨hwork.sized.chunkStore, hwork.sized.slotsfileSizeBytes⟩, hwork.c_le,
    hinside, hwork.building, hwork.finished, hwork.stored_le, hwork.le_stored, hwork.disk⟩,
    h.started, h.walled, hcurs, ⟨v.nd, le_rfl, hcurs, hroom⟩, h.nd_le, ?_⟩
  rw [hslots]
  exact h.ring.writeMsg h.nd_le_n hroom

/-- `pmq_serialize_msg` only writes the message when there is room for it. -/
lemma serializeMsg_spec {m : Message} {Q : Unit → Pmq → Prop} {E : Halt → Pmq → Prop}
    (h : Inv msg cks v q) (hroom : slotPos msg v.n + m.nslots ≤ slotPos msg v.nd + slotCount)
    (hQ : Q () (serialized m q)) : Wp (serializeMsg m.data m.size) q Q E := by
  have hbound : slotPos msg v.n + m.nslots ≤ slotPos msg v.nd + 2 ^ 63 :=
    hroom.trans (Nat.add_le_add_left (by decide) _)
  have hcurs : (serialized m q).inQueueCursors =
      { inQueueAt msg v.n v.nd with
        msn := BitVec.ofNat 64 v.n + 1
        ssnMem := BitVec.ofNat 64 (slotPos msg v.n + m.nslots) } := by
    unfold serialized
    simp only [h.cursors, inQueueAt, slotsWritten_eq, ← ofNat_add]
  have hdist : hasRoom (serialized m q) (serialized m q).inQueueCursors.ssnMem =
      hasRoom q (BitVec.ofNat 64 (slotPos msg v.n + m.nslots)) := by
    unfold hasRoom
    rw [hcurs, h.cursors]
  unfold serializeMsg
  change Wp (pmqAssert (hasRoom (serialized m q) (serialized m q).inQueueCursors.ssnMem))
    (serialized m q) Q E
  rw [hdist, hasRoom_eq h.cursors (le_add_right_of_le (slotPos_le msg h.nd_le_n)) hbound]
  exact wp_pmqAssert (decide_eq_true hroom) hQ

/-- `pmq_enqueue_msg` appends a message when it returns `true`. -/
lemma enqueueMsg_spec (m : Message) (h : Inv msg cks v q)
    (hio : EnoughRoom msg v m.nslots ∨ NoFail q.io ∨ v.n ≤ chunkStart msg (v.p.stored + 2)) :
    Runs q (enqueueMsg m.data m.size)
      (fun q' => msg v.n = m → Inside msg (v.n + 1) → ∃ v',
        CallDone msg cks v m.nslots v' q q' ∧ v'.n = v.n + 1)
      (CallFailed msg cks v) (Crashed msg cks v.n v.pub.walled) := by
  unfold Runs enqueueMsg
  rw [wp_bind]
  refine wp_pmqAssert (decide_eq_true m.size_pos) ?_
  refine wp_seq (prepareInputSlots_spec h m.nslots_le hio) ?_
  rintro _ - ⟨_, ⟨h1, hwal, hcom⟩, hn, hroom⟩
  rw [← hn] at hroom ⊢
  rw [Runs, wp_bind]
  refine serializeMsg_spec h1 hroom ⟨suffix_refl _, ?_⟩
  rintro rfl hinside
  exact ⟨_, ⟨h1.serialized hinside hroom, hwal, hcom⟩, rfl⟩

end Calls

/-! ## Opening a queue

A queue is opened with files to which nothing is pending, and with all cursors at the positions of
the commit record.  The chunk queue begins with the chunk after those in the store, so the messages
that are only in `wal.dat` are packed again. -/

section Opening

variable {msg : ℕ → Message} {cks : ChunkStore} {n : ℕ} {p r : Marks} {q : Pmq}

/-- The persister is where its only commit record says. -/
lemma disk_of_record {per : Persister} (hcurs : per.persistCursors = r.cursors msg)
    (hpub : per.pubPersistCursors = r.cursors msg) (hranges : per.walRanges = [])
    (hrec : per.stateFile.Always () (· = r.record msg cks)) (hprom : Promised msg cks r per)
    (hdisc : r.discarded ≤ r.stored) (hsto : r.stored ≤ r.discarded + cks.chunkCount)
    (hmsgs : chunkStart msg r.stored ≤ n) (hwal : r.walled ≤ n)
    (hring : slotPos msg n ≤ slotPos msg (chunkStart msg r.stored) + slotCount) :
    Disk msg cks n r r per where
  cursors := hcurs
  pubCursors := hpub
  pub_discarded := rfl
  pub_stored := le_rfl
  pub_walled := le_rfl
  discarded_le := hdisc
  stored_le := hsto
  stored_msgs_le := hmsgs
  walled_le := hwal
  ring := hring
  chunks j hdj hjk := (hprom.chunks j hdj hjk).contents
  wal := hprom.wal
  walRanges range hrange := by
    rw [hranges] at hrange
    cases hrange
  durable := hrec.survives DurableFile.survives_synced
  records record hsurvives :=
    ⟨r, hrec record hsurvives, ⟨le_rfl, le_rfl, le_rfl, le_rfl, le_rfl, hdisc⟩, hprom⟩

variable {E : Halt → Pmq → Prop}

/-- No chunk is written when the chunk queue is set up. -/
lemma wp_initChunkQueue {Q : Bool → Pmq → Prop}
    (h : ∀ q', Kept q q' → q'.persister = q.persister → q'.chunkQueue = resetChunkBuffer
        { q.chunkQueue with
          cqCsn := q.persister.persistCursors.cksCsn
          cqSsn := q.persister.persistCursors.cksSsn
          cqMsn := q.persister.persistCursors.cksMsn
          msgCount := 0 } → Q true q') :
    Wp initChunkQueue q Q E := by
  unfold initChunkQueue beginCurrentChunkBuffer makeChunkBufferFree
  rw [wp_bind, wp_modify, wp_bind, wp_bind, wp_get, wp_ite]
  refine ⟨fun hfull => ?_, fun _ => ?_⟩
  · exact absurd hfull (by simp [numChunkBuffers])
  · exact h _ ⟨rfl, rfl, rfl, rfl, rfl⟩ rfl rfl

/-- The chunk queue begins after the stored chunks. -/
lemma initChunkQueue_spec (hinside : Inside msg n) (hq : Sized cks q)
    (h : Disk msg cks n p p q.persister) :
    Wp initChunkQueue q
      (fun result q' => result = true ∧ Kept q q' ∧ q'.persister = q.persister ∧
        Working msg cks n (chunkStart msg p.stored) p.stored p p q')
      fun _ _ => False := by
  have hcurs := h.cursors
  refine wp_initChunkQueue fun q' hq' hper hchs => ?_
  refine ⟨rfl, hq', hper, hq'.sized hq, h.stored_msgs_le, hinside, ?_,
    fun j hj hj' => absurd hj (Nat.not_le.mpr hj'), le_rfl, le_succ _, hper ▸ h⟩
  rw [hchs, hcurs]
  exact building_reset rfl rfl rfl

/-! ### A new queue -/

/-- A file operation succeeds when no other outcome is given. -/
lemma wp_fileOp_nil {Q : Bool → Pmq → Prop}
    {done : Persister → Persister} {failed : ℕ → Persister → Persister} (hio : q.io = [])
    (hdone : ∀ q', Persisted q q' → q'.io = [] → q'.persister = done q.persister → Q true q') :
    Wp (fileOp done failed) q Q E := by
  unfold fileOp nextOutcome
  rw [wp_bind, wp_modifyGet, hio]
  exact hdone _ (persisted_update _ _ _) rfl rfl

open Marks

variable (msg) in
/-- The first commit record has all positions at zero. -/
lemma commitRecord_blank (hq : Sized cks q)
    (hcurs : q.persister.persistCursors = (blank cks).persister.persistCursors) :
    commitRecord q = record msg cks ⟨0, 0, 0⟩ := by
  have hle := cks.le_chunkCount
  have hdiscard : computeNextDiscardCsn q = 0 := by
    unfold computeNextDiscardCsn
    rw [hcurs, hq.chunkStore]
    have hzero : ((0 : Sn) - 0).toNat = 0 := rfl
    refine if_pos (lt_of_eq_of_lt hzero ?_)
    unfold ChunkStore.chunksHighWatermark
    omega
  unfold commitRecord
  rw [hdiscard, hcurs, hq.chunkStore, hq.slotsfileSizeBytes]
  rfl

variable (msg cks) in
/-- The first commit. -/
lemma commit_blank_spec :
    Wp commit (blank cks) (fun result q' => result = true ∧ Persisted (blank cks) q' ∧
        Disk msg cks 0 ⟨0, 0, 0⟩ ⟨0, 0, 0⟩ q'.persister ∧
        q'.persister.commits = [record msg cks ⟨0, 0, 0⟩])
      fun _ _ => False := by
  unfold commit fsyncChunkFile pwriteState fsyncStateFile
  rw [wp_bind]
  refine wp_fileOp_nil rfl fun q1 hq1 hio1 hper1 => ?_
  have hcurs : q1.persister.persistCursors = (blank cks).persister.persistCursors := by
    rw [hper1]
  rw [if_neg (by decide), wp_bind, wp_get, wp_bind]
  refine wp_fileOp_nil hio1 fun q2 hq2 hio2 hper2 => ?_
  rw [if_neg (by decide), wp_bind]
  refine wp_fileOp_nil hio2 fun q3 hq3 hio3 hper3 => ?_
  rw [commitRecord_blank msg (hq1.sized ⟨rfl, rfl⟩) hcurs] at hper2 ⊢
  rw [hper2, hper1] at hper3
  have hpublished : (publish (record msg cks ⟨0, 0, 0⟩).cksDiscardCsn q3).persister =
      { q3.persister with
        persistCursors := cursors msg ⟨0, 0, 0⟩
        pubPersistCursors := cursors msg ⟨0, 0, 0⟩ } := by
    unfold publish
    rw [hper3]
    rfl
  refine ⟨rfl, ((hq1.trans hq2).trans hq3).trans (persisted_update _ _ _), ?_, ?_⟩
  · change Disk msg cks 0 _ _ (publish (record msg cks ⟨0, 0, 0⟩).cksDiscardCsn q3).persister
    rw [hpublished]
    refine disk_of_record rfl rfl ?_ ?_ ⟨nofun, nofun⟩
      le_rfl (zero_le _) le_rfl
      le_rfl (zero_le _)
    · rw [hper3]
      rfl
    · rw [hper3]
      exact DurableFile.always_fsync rfl
  · change (publish (record msg cks ⟨0, 0, 0⟩).cksDiscardCsn q3).persister.commits = _
    rw [hpublished, hper3]
    rfl

/-- The state that a program leaves that does not stop. -/
lemma stateAfter_of_wp {α : Type} {program : PmqM α} {Q : α → Pmq → Prop} {P : Pmq → Prop}
    (h : Wp program q Q fun _ _ => False) (hQ : ∀ a q', Q a q' → P q') :
    P (stateAfter program q) := by
  unfold Wp at h
  unfold stateAfter
  cases hres : program q with
  | ok a q' =>
    rw [hres] at h
    exact hQ a q' h
  | error e q' =>
    rw [hres] at h
    exact h.elim

/-- A new queue is at the beginning of every sequence of messages. -/
lemma inv_create (msg : ℕ → Message) (cks : ChunkStore) :
    Inv msg cks ⟨0, 0, 0, 0, ⟨0, 0, 0⟩, ⟨0, 0, 0⟩⟩ (create cks) ∧
      (create cks).persister.commits = [record msg cks ⟨0, 0, 0⟩] := by
  have hwp : Wp initCreatenew (blank cks)
      (fun _ q' => Kept (blank cks) q' ∧ Working msg cks 0 0 0 ⟨0, 0, 0⟩ ⟨0, 0, 0⟩ q' ∧
        q'.persister.commits = [record msg cks ⟨0, 0, 0⟩])
      fun _ _ => False := by
    refine (commit_blank_spec msg cks).bind ?_ fun _ _ h => h
    rintro _ _ ⟨rfl, hq1, hdisk, hcom⟩
    have hinside : Inside msg 0 := fun _ _ _ _ hi => absurd hi (Nat.not_lt_zero _)
    refine (initChunkQueue_spec hinside (hq1.sized ⟨rfl, rfl⟩) hdisk).mono ?_ fun _ _ h => h
    rintro _ _ ⟨-, hq2, hper, hwork⟩
    exact ⟨hq1.toKept.trans hq2, hwork, hper ▸ hcom⟩
  refine stateAfter_of_wp (P := fun q' => Inv msg cks ⟨0, 0, 0, 0, ⟨0, 0, 0⟩, ⟨0, 0, 0⟩⟩ q' ∧
    q'.persister.commits = [record msg cks ⟨0, 0, 0⟩]) hwp ?_
  rintro _ q' ⟨hq', hwork, hcom⟩
  refine ⟨⟨hwork, .inl rfl, le_rfl, ?_, ⟨0, le_rfl, ?_, zero_le _⟩, le_rfl, nofun⟩, hcom⟩
  · rw [hq'.inQueueCursors]
    rfl
  · rw [hq'.pubInQueueCursors]
    rfl

end Opening

end Beegfs.Pmq
