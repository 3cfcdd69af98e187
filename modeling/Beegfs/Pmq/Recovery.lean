import Beegfs.Pmq.CommitRecords
import Beegfs.Pmq.Contents

/-!
# Recovery after a crash

What a crash leaves of the files is a commit record, and chunks and slots of which each may be as it
was when it was last synced, or have any of the values that were written since.  If the record is
loadable, the queue that is opened has all messages that the record tells of, and goes on after
them.
-/

namespace Beegfs.Pmq

open DurableFile Option

/-- The files may be found like this after a crash.  They are as long as they were made. -/
structure Survives (cks : ChunkStore) (q : Pmq) (img : DiskImage) : Prop where
  chunks : q.persister.chunkFile.Survives img.chunks
  slots : q.persister.slotsFile.Survives img.slots
  state : q.persister.stateFile.MaySurvive () img.state
  chunksSize : img.chunksSize = cks.capacityBytes.toNat
  slotsSize : img.slotsSize = slotCount * slotSize

/-- The messages that a queue has on the disk when it was just opened. -/
def openedMessages (q : Pmq) : List (Sn × List Byte) :=
  diskMessages q.chunkStore.chunkCount q.persister.persistCursors q.persister.chunkFile.contents
    q.slots

/-- The queue that was opened has the messages from the first one of chunk `d`, the oldest one that
is not discarded, to message `w`, and numbers the next message `w`. -/
structure Recovered (enqueued : List MessageData) (record : CommitRecord) (d w : ℕ) (q : Pmq) :
    Prop where
  cksDiscardCsn : record.cksDiscardCsn = BitVec.ofNat 64 d
  d_le : d ≤ (packing enqueued).chunk + 1
  walMsn : record.walMsn = BitVec.ofNat 64 w
  w_le : w ≤ enqueued.length
  messages : q.openedMessages = numbered enqueued (messagesBefore enqueued d) w
  msn : q.inQueueCursors.msn = BitVec.ofNat 64 w

/-- Whatever a crash leaves, the queue is recovered from it if the commit record is loadable, and
has all messages that were there when `pmq_sync` last returned `true`, or has discarded them. -/
def Session.Recovers (cks : ChunkStore) (s : Session) : Prop :=
  ∀ img, Survives cks s.pmq img → img.state.isLoadable = true →
    ∃ q d w, initLoadexisting img = some q ∧ Recovered s.enqueued img.state d w q ∧ s.synced ≤ w

section Recovery

variable {msg : ℕ → Message} {cks : ChunkStore} {n : ℕ} {p pub r : Marks} {v : Positions}
  {q : Pmq} {s : Session} {call : Call} {img : DiskImage}

/-! ## Opening the files -/

/-- The files that are opened have what the record promises. -/
lemma Promised.loadedCursors {per : Persister} (h : Promised msg cks r per)
    (hchs : per.chunkFile.Survives img.chunks) (hslots : per.slotsFile.Survives img.slots) :
    Promised msg cks r (loadedCursors img cks).persister where
  chunks j hdj hjk := always_ofImage ((h.chunks j hdj hjk).survives hchs)
  wal i hi hiw t ht := always_ofImage ((h.wal i hi hiw t ht).survives hslots)

/-- A loadable record is one of those that may survive, with its cursors in order. -/
lemma Disk.exists_record (h : Disk msg cks n p pub q.persister) (hn : n ≤ pub.walled + slotCount)
    (himg : Survives cks q img) (hload : img.state.isLoadable = true) :
    ∃ r : Marks, img.state = r.record msg cks ∧ pub.Between r p ∧
      Promised msg cks r q.persister ∧ chunkStart msg r.stored ≤ r.walled ∧
      slotPos msg r.walled ≤ slotPos msg (chunkStart msg r.stored) + slotCount := by
  obtain ⟨r, hr, hbtw, hprom⟩ := h.records img.state himg.state
  have hring := h.ring
  have hpos := slotPos_le msg (chunkStart_le msg hbtw.pub_stored)
  have hwal := hbtw.walled.trans h.walled_le
  have hpos' := slotPos_le msg hwal
  have hsto := le_trans (chunkStart_le msg hbtw.stored) h.stored_msgs_le
  have hpub := hbtw.pub_walled
  have hmsgs := sub_add_slotPos_le msg hsto
  refine ⟨r, hr, hbtw, hprom, ?_, by omega⟩
  have hle : SeqNum.le (r.record msg cks).cksMsn (r.record msg cks).walMsn = true := by
    rw [hr, CommitRecord.isLoadable] at hload
    simp only [Bool.and_eq_true] at hload
    exact hload.1.1.1.1.2
  unfold slotCount at hn hring
  unfold Marks.record at hle
  rw [SeqNum.le_ofNat ⟨by omega, by omega⟩] at hle
  exact of_decide_eq_true hle

/-- The queue that is opened is at the positions of the record. -/
lemma Disk.initLoadexisting_spec (h : Disk msg cks n p pub q.persister)
    (hn : n ≤ pub.walled + slotCount) (hinside : Inside msg n) (himg : Survives cks q img)
    (hload : img.state.isLoadable = true) :
    ∃ r q', initLoadexisting img = some q' ∧ img.state = r.record msg cks ∧ pub.Between r p ∧
      chunkStart msg r.stored ≤ r.walled ∧
      q'.inQueueCursors = inQueueAt msg r.walled (chunkStart msg r.stored) ∧
      Working msg cks r.walled (chunkStart msg r.stored) r.stored r r q' ∧
      RingHolds msg q'.slots (chunkStart msg r.stored) r.walled := by
  obtain ⟨r, hr, hbtw, hprom, hw, hring⟩ := h.exists_record hn himg hload
  have hloaded := hprom.loadedCursors himg.chunks himg.slots
  have hsto := h.stored_le
  have hslots : img.slotsSize = img.state.slotsfileSizeBytes.toNat := by
    rw [himg.slotsSize, hr]
    rfl
  have hsize : img.state.chunkfileSizeBytes = cks.capacityBytes := by
    rw [hr]
    rfl
  have hopen : initLoadexisting img = some (stateAfter initChunkQueue (loadedCursors img cks)) := by
    unfold initLoadexisting
    simp [hload, hslots, hsize, initChunkStoreSize_capacityBytes, himg.chunksSize]
  have hdisk : Disk msg cks r.walled r r (loadedCursors img cks).persister := by
    refine disk_of_record ?_ ?_ rfl ?_ hloaded hbtw.discarded_le ?_ hw le_rfl hring
    · unfold loadedCursors
      rw [hr]
      rfl
    · unfold loadedCursors
      rw [hr]
      rfl
    · exact always_ofImage hr
    · have := hbtw.stored
      have := hbtw.discarded
      omega
  have hsized : Sized cks (loadedCursors img cks) := by
    refine ⟨rfl, ?_⟩
    unfold loadedCursors
    rw [hr]
    rfl
  refine ⟨r, _, hopen, hr, hbtw, hw, ?_⟩
  refine stateAfter_of_wp (P := fun q' =>
    q'.inQueueCursors = inQueueAt msg r.walled (chunkStart msg r.stored) ∧
      Working msg cks r.walled (chunkStart msg r.stored) r.stored r r q' ∧
      RingHolds msg q'.slots (chunkStart msg r.stored) r.walled)
    (initChunkQueue_spec (hinside.mono (hbtw.walled.trans h.walled_le)) hsized hdisk) ?_
  rintro _ q' ⟨-, hkept, -, hwork⟩
  refine ⟨?_, hwork, ?_⟩
  · rw [hkept.inQueueCursors]
    unfold loadedCursors
    rw [hr]
    rfl
  · rw [hkept.slots]
    intro i hi hiw t ht
    exact (hloaded.wal i hi hiw t ht).contents

/-! ## One call -/

open Session

variable (cks) in
/-- What is known of a session in which nothing fails, but the machine may have crashed. -/
structure Session.Recoverable (s : Session) : Prop where
  sound : s.Sound cks
  settled : s.halted = none → s.Settled cks
  crashed : s.halted = some .crash → ∀ msg, s.enqueued = firstMessages msg s.enqueued.length →
    Inside msg s.enqueued.length ∧ ∃ p pub, Disk msg cks s.enqueued.length p pub s.pmq.persister ∧
      s.synced ≤ pub.walled ∧ s.enqueued.length ≤ pub.walled + slotCount

lemma Session.recoverable_start (cks : ChunkStore) : (start cks).Recoverable cks where
  sound := sound_start cks
  settled _ := settled_start cks
  crashed h := nomatch h

/-- All messages that are not on the disk are in the ring. -/
lemma Inv.n_le (h : Inv msg cks v q) (hpub : v.pub = v.p) : v.n ≤ v.pub.walled + slotCount := by
  have hring := h.working.disk.ring
  have hwal := h.walled
  have hle := h.working.disk.stored_msgs_le
  rw [← hpub] at hwal hle
  have hmsgs := slotPos_strictMono.add_le_nat (f := slotPos msg)
    (v.n - chunkStart msg v.pub.stored) (chunkStart msg v.pub.stored)
  rw [Nat.sub_add_cancel hle] at hmsgs
  omega

lemma Session.Recoverable.step (h : s.Recoverable cks) (hcall : s.CopiesInside call)
    (hio : NoFail call.io) : (s.step call).Recoverable cks := by
  rcases h.sound.halted with hrun | hcrash
  · refine ⟨h.sound.step hcall (.inl hio),
      fun hrun' => (h.settled hrun).step hrun hrun' hcall hio, fun hcrash msg hmsg => ?_⟩
    have hs := enqueued_of_step hmsg
    obtain ⟨v, hinv, hn, hsyn, hpub, _⟩ := h.settled hrun msg hs
    rw [← hn] at hs
    rcases step_spec hrun hcall (.inl hio) hmsg hs hinv with ⟨v', hv'⟩ | hv'
    · nomatch hcrash.symm.trans hv'.halted
    · obtain ⟨p, pub, hdisk, hle⟩ := hv'.crashed
      have hring := hinv.n_le hpub
      rw [hv'.enqueued, hv'.synced, ← hn]
      exact ⟨hinv.working.inside, p, pub, hdisk, hsyn.trans hle, by omega⟩
  · have hstep : s.step call = s := by
      rw [Session.step, hcrash]
    rw [hstep]
    exact h

/-- A session in which nothing fails is recovered, whether the machine has crashed or crashes
now. -/
lemma Session.Recoverable.recovers (h : s.Recoverable cks) : s.Recovers cks := by
  intro img himg hload
  obtain ⟨msg, hmsg⟩ := exists_firstMessages h.sound.valid
  have hdisk : Inside msg s.enqueued.length ∧
      ∃ p pub, Disk msg cks s.enqueued.length p pub s.pmq.persister ∧
        s.synced ≤ pub.walled ∧ s.enqueued.length ≤ pub.walled + slotCount := by
    rcases h.sound.halted with hrun | hcrash
    · obtain ⟨v, hinv, hn, hsyn, hpub, _⟩ := h.settled hrun msg hmsg
      have hring := hinv.n_le hpub
      rw [← hn]
      exact ⟨hinv.working.inside, v.p, v.pub, hinv.working.disk, hsyn, hring⟩
    · exact h.crashed hcrash msg hmsg
  obtain ⟨hinside, p, pub, hdisk, hsyn, hn⟩ := hdisk
  obtain ⟨r, q', hopen, hr, hbtw, hw, hcurs, hwork, hring⟩ :=
    hdisk.initLoadexisting_spec hn hinside himg hload
  have hwal := hbtw.walled.trans hdisk.walled_le
  have hstart := chunkStart_le msg hbtw.discarded_le
  refine ⟨q', r.discarded, r.walled, hopen, ?_, hsyn.trans hbtw.pub_walled⟩
  rw [hmsg]
  refine ⟨?_, ?_, ?_, ?_, ?_, ?_⟩
  · rw [hr]
    rfl
  · have hle := le_trans (chunkStart_le msg (hbtw.discarded_le.trans hbtw.stored))
      (hdisk.stored_msgs_le.trans (packing_at msg _).le_end)
    exact chunkStart_strictMono.le_iff_le.mp hle
  · rw [hr]
    rfl
  · rw [length_firstMessages]
    exact hwal
  · rw [openedMessages, hwork.sized.chunkStore, hwork.disk.cursors, diskMessages_eq
        hwork.disk.chunks hring
        hwork.disk.discarded_le hwork.disk.stored_le hw hwork.disk.ring,
      numbered_firstMessages hwal, messagesBefore_firstMessages (by omega)]
  · rw [hcurs]
    rfl

/-! ## All calls -/

/-- In every state of a run in which nothing fails, but the machine may crash at any file operation,
the queue is recovered, as long as no message is copied past the end of its chunk. -/
theorem recovers_after_crash (cks : ChunkStore) (calls : List Call)
    (hio : ∀ call ∈ calls, NoFail call.io)
    (hinside : EveryStep step Session.CopiesInside (start cks) calls) :
    EveryState step (Session.Recovers cks) (start cks) calls :=
  everyState_of_everyStep (I := Session.Recoverable cks)
    (fun _ _ hcall hs => hs.step hcall.1 hcall.2) (fun _ hs => hs.recovers)
    (recoverable_start cks) (hinside.and (everyStep_of_forall hio))

/-- A run in which the machine crashes while the first chunk is committed. -/
theorem recovers_after_crash_one :
    let calls : List Call := [⟨.enqueue ⟨1000, fun _ => 7⟩, []⟩, ⟨.sync, [.ok, .crash]⟩]
    (∀ call ∈ calls, NoFail call.io) ∧ EveryStep step Session.CopiesInside (start .smallest) calls ∧
      EveryState step (Session.Recovers .smallest) (start .smallest) calls := by
  intro calls
  have hio : ∀ call ∈ calls, NoFail call.io := by
    simp [calls, NoFail]
  have hinside : EveryStep step Session.CopiesInside (start .smallest) calls :=
    ⟨⟨by decide, by decide⟩, trivial, trivial⟩
  exact ⟨hio, hinside, recovers_after_crash .smallest calls hio hinside⟩

/-! ## A message that is lost -/

/-- What is read from the files does not depend on the chunk queue. -/
lemma openedMessages_of_initLoadexisting (hopen : initLoadexisting img = some q)
    (hsize : img.state.chunkfileSizeBytes = cks.capacityBytes) :
    q.openedMessages = diskMessages cks.chunkCount (loadedCursors img cks).persister.persistCursors
      img.chunks img.slots := by
  have hq : stateAfter initChunkQueue (loadedCursors img cks) = q := by
    simp only [initLoadexisting, hsize, initChunkStoreSize_capacityBytes, bind_eq_bind,
      bind_eq_some_iff, some_inj, pure_def] at hopen
    obtain ⟨_, _, _, _, _, rfl, _, _, hq⟩ := hopen
    exact hq
  have hkept : Wp initChunkQueue (loadedCursors img cks)
      (fun _ q' => Kept (loadedCursors img cks) q' ∧
        q'.persister = (loadedCursors img cks).persister) fun _ _ => False :=
    wp_initChunkQueue fun q' hq' hper _ => ⟨hq', hper⟩
  rw [← hq]
  refine stateAfter_of_wp (P := fun q' => q'.openedMessages = _) hkept fun _ q' hq' => ?_
  rw [openedMessages, hq'.1.chunkStore, hq'.1.slots, hq'.2]
  rfl

/-- Two chunks of one message each, the first of them committed, and then two messages for the third
chunk, the second of which is copied 14 bytes past the end of the chunk. -/
def overrunCalls : List Call :=
  [⟨.enqueue ⟨65516, fun _ => 1⟩, []⟩, ⟨.enqueue ⟨300, fun _ => 2⟩, []⟩, ⟨.sync, []⟩,
    ⟨.enqueue ⟨65310, fun _ => 3⟩, []⟩, ⟨.enqueue ⟨200, fun _ => 4⟩, []⟩, ⟨.sync, []⟩]

/-- The header of the second chunk is overwritten in memory before the chunk is written, so that the
message in it is not found. -/
lemma overrunCalls_run :
    let s := runFrom step (start .smallest) overrunCalls
    let per := s.pmq.persister
    let img := s.pmq.diskImage per.chunkFile.contents per.slotsFile.contents
      (per.stateFile.synced ())
    s.synced = 4 ∧ s.enqueued.length = 4 ∧ (packing s.enqueued).chunk = 2 ∧
      (numbered s.enqueued (messagesBefore s.enqueued 0) 4).length = 4 ∧
      img.chunksSize = ChunkStore.smallest.capacityBytes.toNat ∧
      img.slotsSize = slotCount * slotSize ∧ img.state.isLoadable = true ∧
      img.state.cksDiscardCsn = 0 ∧
      img.state.chunkfileSizeBytes = ChunkStore.smallest.capacityBytes ∧
      (diskMessages ChunkStore.smallest.chunkCount
        (loadedCursors img .smallest).persister.persistCursors img.chunks
        img.slots).length = 3 := by
  decide +kernel

/-- Without a crash, opening the files again finds only three of the four messages. -/
theorem recovers_after_crash_fails :
    ¬(runFrom step (start .smallest) overrunCalls).Recovers .smallest := by
  intro hrecovers
  have hrun := overrunCalls_run
  generalize runFrom step (start .smallest) overrunCalls = s at *
  obtain ⟨hsyn, hlen, hchunk, hnum, hchs, hslots, hload, hdisc, hsize, hmessages⟩ := hrun
  obtain ⟨q, d, w, hopen, hrecov, hle⟩ := hrecovers _
    ⟨survives_contents, survives_contents, .inl rfl, hchs, hslots⟩ hload
  -- The record is the one before any chunk is discarded, and has all four messages.
  have hd : d = 0 := by
    have hle := hrecov.d_le
    have hzero : BitVec.ofNat 64 d = BitVec.ofNat 64 0 := hrecov.cksDiscardCsn.symm.trans hdisc
    exact (SeqNum.ofNat_inj ⟨by omega, by omega⟩).mp hzero
  have hfour : w = 4 := by
    have hle := hrecov.w_le
    omega
  have hread := hrecov.messages
  rw [openedMessages_of_initLoadexisting hopen hsize, hd, hfour] at hread
  rw [hread, hnum] at hmessages
  cases hmessages

end Recovery

end Beegfs.Pmq
