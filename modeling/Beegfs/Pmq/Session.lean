import Beegfs.Lib.Run
import Beegfs.Pmq.Packing
import Beegfs.Pmq.CallSpec

/-!
# Sequences of calls

A `Session` is a queue together with what its user knows of it: the messages that were enqueued, and
how many of them were there when `pmq_sync` last returned `true`.  One step is one call, for which
it is given how each of its file operations ends.  After a crash, or when an assertion is violated,
nothing happens any more.

`Session.Sound` holds in all states that are reached by calls that are `Safe`, as long as no message
is copied past the end of its chunk: either none of the call's file operations fails, or the
messages that it packs end in one of the two chunks that memory has room for.
-/

namespace Beegfs.Pmq

open List

/-- What the user of the queue may call. -/
inductive Op
  | enqueue (m : MessageData)
  | sync

/-- The function that is called. -/
def Op.program : Op → PmqM Bool
  | enqueue m => enqueueMsg m.data m.size
  | sync => Pmq.sync

/-- A call, and how its file operations end. -/
structure Call where
  op : Op
  io : List IoOutcome

/-- A queue since it was created. -/
structure Session where
  pmq : Pmq
  halted : Option Halt
  enqueued : List MessageData
  synced : ℕ

namespace Session

/-- A new queue. -/
def start (cks : ChunkStore) : Session := ⟨create cks, none, [], 0⟩

/-- What the user knows after the call returned `true`. -/
def returned (s : Session) : Op → Session
  | .enqueue m => { s with enqueued := s.enqueued ++ [m] }
  | .sync => { s with synced := s.enqueued.length }

/-- One call. -/
def step (s : Session) (call : Call) : Session :=
  match s.halted with
  | some _ => s
  | none =>
    match call.op.program { s.pmq with io := call.io } with
    | .ok true q => { s with pmq := q }.returned call.op
    | .ok false q => { s with pmq := q }
    | .error halt q => { s with pmq := q, halted := some halt }

end Session

/-- The call has to persist messages, because it is `pmq_sync` or the ring is full. -/
def mustPersist (q : Pmq) : Op → Bool
  | .enqueue m =>
    slotCount < (q.inQueueCursors.ssnMem + BitVec.ofNat 64 m.nslots -
      q.persister.pubPersistCursors.cksSsn).toNat
  | .sync => true

/-- The number of chunks from the first one that is not stored to the last one, which is not
finished. -/
def Session.unstoredChunks (s : Session) : ℕ :=
  (BitVec.ofNat 64 (packing s.enqueued).chunk - s.pmq.persister.persistCursors.cksCsn).toNat

/-- None of the file operations of the call fails, or it does not need the memory of a chunk that is
not stored. -/
def Session.Safe (s : Session) (call : Call) : Prop :=
  NoFail call.io ∨ mustPersist s.pmq call.op = false ∨ s.unstoredChunks ≤ 1

/-- A message that is enqueued is valid, and is not copied past the end of its chunk when it is
packed. -/
def Session.CopiesInside (s : Session) (call : Call) : Prop :=
  match call.op with
  | .enqueue m => m.Valid ∧ (packing s.enqueued).CopiedInside m.size
  | .sync => True

section Steps

variable {msg : ℕ → Message} {cks : ChunkStore} {v : Positions} {q : Pmq} {s : Session}
  {call : Call}

/-! ## The conditions, in terms of positions -/

lemma Inv.setIo (h : Inv msg cks v q) (io : List IoOutcome) : Inv msg cks v { q with io := io } :=
  { h with
    working := { h.working with
      sized := ⟨h.working.sized.chunkStore, h.working.sized.slotsfileSizeBytes⟩ } }

/-- A message for which there is not enough room makes the queue persist. -/
lemma Inv.enoughRoom_iff (h : Inv msg cks v q) {m : MessageData} (hm : m.nslots ≤ 585) :
    EnoughRoom msg v m.nslots ↔ mustPersist q (.enqueue m) = false := by
  have hring := h.working.disk.ring
  have hle : slotPos msg (chunkStart msg v.pub.stored) ≤ slotPos msg v.n :=
    slotPos_le msg (le_trans (chunkStart_le msg h.working.disk.pub_stored)
      h.working.disk.stored_msgs_le)
  have hdist : (q.inQueueCursors.ssnMem + BitVec.ofNat 64 m.nslots -
      q.persister.pubPersistCursors.cksSsn).toNat =
      slotPos msg v.n + m.nslots - slotPos msg (chunkStart msg v.pub.stored) := by
    rw [h.cursors, h.working.disk.pubCursors]
    change (BitVec.ofNat 64 (slotPos msg v.n) + BitVec.ofNat 64 m.nslots -
      BitVec.ofNat 64 (slotPos msg (chunkStart msg v.pub.stored))).toNat = _
    rw [← BitVec.ofNat_add]
    refine SeqNum.toNat_sub (Nat.le_add_right_of_le hle) ?_
    unfold slotCount at hring
    omega
  rw [mustPersist, decide_eq_false_iff_not, EnoughRoom]
  omega

/-- The last chunk is after those that are stored, and at most as many are not stored as the ring
has slots. -/
lemma Inv.packing_chunk (h : Inv msg cks v q) :
    v.p.stored ≤ (packing (firstMessages msg v.n)).chunk ∧
      (packing (firstMessages msg v.n)).chunk ≤ v.p.stored + slotCount := by
  have hat := packing_at msg v.n
  constructor
  · rcases h.started with hzero | hlt
    · have hle := h.working.stored_le
      omega
    · have hn := hlt.trans_le (h.working.c_le.trans hat.le_end)
      exact h.working.stored_le.trans (Nat.le_of_lt_succ (chunkStart_strictMono.lt_iff_lt.mp hn))
  · by_contra hlt
    have hchs := chunkStart_strictMono.add_le_nat (f := chunkStart msg)
      ((packing (firstMessages msg v.n)).chunk - v.p.stored) v.p.stored
    rw [Nat.sub_add_cancel (by omega)] at hchs
    have hslots := sub_add_slotPos_le msg h.working.disk.stored_msgs_le
    have hring := h.working.disk.ring
    have hsto := slotPos_le msg (chunkStart_le msg h.working.disk.pub_stored)
    have hstart := hat.start_le
    omega

open Session

/-- What `Safe` is about, in terms of positions. -/
lemma Inv.safe (h : Inv msg cks v s.pmq) (hs : s.enqueued = firstMessages msg v.n)
    (hsafe : s.Safe call) :
    NoFail call.io ∨ mustPersist s.pmq call.op = false ∨ v.n ≤ chunkStart msg (v.p.stored + 2) := by
  refine hsafe.imp_right (Or.imp_right fun hchs => ?_)
  obtain ⟨hle, hle'⟩ := h.packing_chunk
  unfold slotCount at hle'
  rw [unstoredChunks, h.working.disk.cursors, hs] at hchs
  have hchs := (SeqNum.toNat_sub hle (by omega)).symm.trans_le hchs
  exact le_trans (packing_at msg v.n).le_end (chunkStart_le msg (by omega))

/-! ## One call -/

variable (msg cks v) in
/-- What a call leaves that returns. -/
structure Advanced (s : Session) (call : Call) (v' : Positions) (s' : Session) : Prop where
  halted : s'.halted = none
  inv : Inv msg cks v' s'.pmq
  n_eq : v'.n = s'.enqueued.length
  enqueued : NoFail call.io → s'.enqueued = (s.returned call.op).enqueued
  synced : s.synced ≤ v.pub.walled → s'.synced ≤ v'.pub.walled
  commits : NoFail call.io →
    mustPersist s.pmq call.op = false ∧ s'.pmq.persister = s.pmq.persister ∧ v'.p = v.p ∧
        v'.pub = v.pub ∨ mustPersist s.pmq call.op = true ∧ v'.pub = v'.p ∧
        CommitsAfter msg cks v.n v.p v'.p s.pmq.persister.commits s'.pmq.persister.commits

variable (msg cks v) in
/-- What a call leaves in which the machine crashes. -/
structure Interrupted (s : Session) (call : Call) (s' : Session) : Prop where
  halted : s'.halted = some .crash
  mem_io : .crash ∈ call.io
  enqueued : s'.enqueued = s.enqueued
  synced : s'.synced = s.synced
  crashed : Crashed msg cks v.n v.pub.walled s'.pmq

/-- The session after a call, from what is known of the call. -/
lemma Session.step_of_wp {T F P : Pmq → Prop} (hrun : s.halted = none)
    (h : Runs { s.pmq with io := call.io } call.op.program T F P) :
    (∃ q, T q ∧ s.step call = { s with pmq := q }.returned call.op) ∨
      (∃ q, ¬NoFail call.io ∧ F q ∧ s.step call = { s with pmq := q }) ∨
      ∃ q, .crash ∈ call.io ∧ P q ∧ s.step call = { s with pmq := q, halted := some .crash } := by
  unfold Runs Wp at h
  rw [step, hrun]
  cases hres : call.op.program { s.pmq with io := call.io } with
  | ok result q =>
    rw [hres] at h
    cases result with
    | true => exact .inl ⟨q, h.2, rfl⟩
    | false => exact .inr (.inl ⟨q, h.1, h.2, rfl⟩)
  | error halt q =>
    rw [hres] at h
    obtain ⟨rfl, hmem, hP⟩ := h
    exact .inr (.inr ⟨q, hmem, hP, rfl⟩)

variable (call) in
/-- What a call that is `Safe` does, for each of the messages that may come next. -/
lemma Inv.call_spec (h : Inv msg cks v s.pmq) (hs : s.enqueued = firstMessages msg v.n)
    (hcopies : s.CopiesInside call) (hsafe : s.Safe call) :
    Runs { s.pmq with io := call.io } call.op.program
      (fun q => (∀ m, call.op = .enqueue m → (msg v.n).toMessageData = m) →
        ∃ v', Inv msg cks v' q ∧ v.pub.walled ≤ v'.pub.walled ∧
          (call.op = .sync → v'.n = v.n ∧ v'.pub.walled = v.n) ∧
          (∀ m, call.op = .enqueue m → v'.n = v.n + 1) ∧
          (mustPersist s.pmq call.op = false ∧ q.persister = s.pmq.persister ∧ v'.p = v.p ∧
              v'.pub = v.pub ∨ mustPersist s.pmq call.op = true ∧ v'.pub = v'.p ∧
              CommitsAfter msg cks v.n v.p v'.p s.pmq.persister.commits q.persister.commits))
      (CallFailed msg cks v) (Crashed msg cks v.n v.pub.walled) := by
  have hsafe' := h.safe hs hsafe
  have h' := h.setIo call.io
  cases hcall : call.op with
  | sync =>
    rw [hcall] at hsafe'
    refine (sync_spec h' (by simpa [mustPersist] using hsafe')).mono (fun q hq _ => ?_)
      (fun _ _ hq => hq) fun _ hq => hq
    obtain ⟨_, hinv, hw, hwn, hcom⟩ := hq
    refine ⟨_, hinv, h.working.disk.pub_walled.trans hw, fun _ => ⟨rfl, hwn rfl⟩, ?_,
      .inr ⟨rfl, rfl, hcom⟩⟩
    rintro m ⟨⟩
  | enqueue m =>
    rw [CopiesInside, hcall] at hcopies
    rw [hcall] at hsafe'
    let m' : Message := ⟨m, hcopies.1.1, hcopies.1.2⟩
    have hroom := h.enoughRoom_iff (m := m) m'.nslots_le
    refine (enqueueMsg_spec m' h' ?_).mono (fun q hq hm => ?_) (fun _ _ hq => hq) fun _ hq => hq
    · rcases hsafe' with hio | hpers | hn
      · exact .inr (.inl hio)
      · exact .inl (hroom.mpr hpers)
      · exact .inr (.inr hn)
    · have hnext : msg v.n = m' := by
        have heq := hm m rfl
        cases hmsg : msg v.n
        rw [hmsg] at heq
        cases heq
        rfl
      have hinside : Inside msg (v.n + 1) := h.working.inside.succ (by
        rw [← hs, hnext]
        exact hcopies.2)
      obtain ⟨v', ⟨hinv, hw, hcom⟩, hn⟩ := hq hnext hinside
      refine ⟨v', hinv, hw, fun hsync => (nomatch hsync), fun _ _ => hn, ?_⟩
      rcases hcom with ⟨henough, hper, hp⟩ | ⟨henough, hpub, hcom⟩
      · exact .inl ⟨hroom.mp henough, hper, hp⟩
      · exact .inr ⟨Bool.eq_true_of_not_eq_false (henough ∘ hroom.mpr), hpub, hcom⟩

/-- A call that is `Safe` advances the session or ends in a crash. -/
lemma Session.step_spec (hrun : s.halted = none) (hcopies : s.CopiesInside call)
    (hsafe : s.Safe call)
    (hmsg : (s.step call).enqueued = firstMessages msg (s.step call).enqueued.length)
    (hs : s.enqueued = firstMessages msg v.n) (h : Inv msg cks v s.pmq) :
    (∃ v', Advanced msg cks v s call v' (s.step call)) ∨
      Interrupted msg cks v s call (s.step call) := by
  have hn : v.n = s.enqueued.length := by rw [hs, length_firstMessages]
  rcases step_of_wp hrun (h.call_spec call hs hcopies hsafe) with
    ⟨q, hq, hstep⟩ | ⟨q, hfail, ⟨v', hinv, hn', hw⟩, hstep⟩ | ⟨q, hcrash, hq, hstep⟩
  · rw [hstep] at hmsg ⊢
    cases hcall : call.op with
    | sync =>
      rw [hcall] at hq
      obtain ⟨v', hinv, hw, hsync, _, hcom⟩ := hq nofun
      obtain ⟨hn', hwn⟩ := hsync rfl
      refine .inl ⟨v', hrun, hinv, hn'.trans hn, fun _ => ?_, fun _ => ?_, fun _ => ?_⟩
      · rw [hcall]
        rfl
      · change s.enqueued.length ≤ _
        rw [hwn, hn]
      · rw [hcall]
        exact hcom
    | enqueue m =>
      rw [hcall] at hmsg hq
      obtain ⟨_, hm⟩ := eq_firstMessages_of_append hmsg
      obtain ⟨v', hinv, hw, _, henq, hcom⟩ := hq fun m' hm' => by
        cases hm'
        rw [hn]
        exact hm.symm
      refine .inl ⟨v', hrun, hinv, ?_, fun _ => ?_, fun hle => hle.trans hw, fun _ => ?_⟩
      · change v'.n = (s.enqueued ++ [m]).length
        rw [henq m rfl, hn, length_append, length_singleton]
      · rw [hcall]
        rfl
      · rw [hcall]
        exact hcom
  · rw [hstep]
    exact .inl ⟨v', hrun, hinv, hn'.trans hn, fun hio => absurd hio hfail,
      fun hle => hle.trans hw, fun hio => absurd hio hfail⟩
  · rw [hstep]
    exact .inr ⟨rfl, hcrash, rfl, rfl, hq⟩

/-- A call does not change the messages that were enqueued before, and adds only its own. -/
lemma Session.enqueued_step (s : Session) (call : Call) :
    (s.step call).enqueued = s.enqueued ∨
      ∃ m, call.op = .enqueue m ∧ (s.step call).enqueued = s.enqueued ++ [m] := by
  unfold step
  cases s.halted with
  | some _ => exact .inl rfl
  | none =>
    cases call.op.program { s.pmq with io := call.io } with
    | error _ _ => exact .inl rfl
    | ok result q =>
      cases result with
      | false => exact .inl rfl
      | true =>
        cases hcall : call.op with
        | sync => exact .inl rfl
        | enqueue m => exact .inr ⟨m, rfl, rfl⟩

lemma Session.enqueued_of_step
    (hmsg : (s.step call).enqueued = firstMessages msg (s.step call).enqueued.length) :
    s.enqueued = firstMessages msg s.enqueued.length := by
  rcases s.enqueued_step call with heq | ⟨m, _, heq⟩
  · rw [heq] at hmsg
    exact hmsg
  · rw [heq] at hmsg
    exact (eq_firstMessages_of_append hmsg).1

/-! ## All calls -/

variable (cks) in
/-- What is known of a session whose calls are all `Safe`: the queue is at some positions in every
sequence of messages that begins with those that were enqueued, or the machine has crashed. -/
structure Session.Sound (s : Session) : Prop where
  valid : ∀ m ∈ s.enqueued, m.Valid
  halted : s.halted = none ∨ s.halted = some .crash
  running : s.halted = none → ∀ msg, s.enqueued = firstMessages msg s.enqueued.length →
    ∃ v, Inv msg cks v s.pmq ∧ v.n = s.enqueued.length ∧ s.synced ≤ v.pub.walled
  crashed : s.halted = some .crash → ∀ msg, s.enqueued = firstMessages msg s.enqueued.length →
    Crashed msg cks s.enqueued.length s.synced s.pmq

lemma Session.sound_start (cks : ChunkStore) : (start cks).Sound cks where
  valid := nofun
  halted := .inl rfl
  running _ msg _ := ⟨_, (inv_create msg cks).1, rfl, Nat.le_refl 0⟩
  crashed h := nomatch h

lemma Session.Sound.valid_step (h : s.Sound cks) (hcopies : s.CopiesInside call) :
    ∀ m ∈ (s.step call).enqueued, m.Valid := by
  intro m hm
  rcases s.enqueued_step call with heq | ⟨m', hcall, heq⟩
  · exact h.valid m (heq ▸ hm)
  · rw [heq, mem_append, mem_singleton] at hm
    rcases hm with hm | rfl
    · exact h.valid m hm
    · rw [CopiesInside, hcall] at hcopies
      exact hcopies.1

/-- What a call does in a session that is sound. -/
lemma Session.Sound.step_spec (h : s.Sound cks) (hrun : s.halted = none)
    (hcopies : s.CopiesInside call) (hsafe : s.Safe call)
    (hmsg : (s.step call).enqueued = firstMessages msg (s.step call).enqueued.length) :
    ∃ v, s.enqueued = firstMessages msg v.n ∧ Inv msg cks v s.pmq ∧ s.synced ≤ v.pub.walled ∧
      ((∃ v', Advanced msg cks v s call v' (s.step call)) ∨
        Interrupted msg cks v s call (s.step call)) := by
  have hs := enqueued_of_step hmsg
  obtain ⟨v, hinv, hn, hsyn⟩ := h.running hrun msg hs
  rw [← hn] at hs
  exact ⟨v, hs, hinv, hsyn, Session.step_spec hrun hcopies hsafe hmsg hs hinv⟩

/-- A session goes on, unless the machine crashes. -/
lemma Session.Sound.halted_step (h : s.Sound cks) (hrun : s.halted = none)
    (hcopies : s.CopiesInside call) (hsafe : s.Safe call) :
    (s.step call).halted = none ∨ .crash ∈ call.io ∧ (s.step call).halted = some .crash := by
  obtain ⟨_, hmsg⟩ := exists_firstMessages (h.valid_step hcopies)
  obtain ⟨v, _, _, _, ⟨_, hv'⟩ | hv'⟩ := h.step_spec hrun hcopies hsafe hmsg
  · exact .inl hv'.halted
  · exact .inr ⟨hv'.mem_io, hv'.halted⟩

/-- A session stays sound. -/
lemma Session.Sound.step (h : s.Sound cks) (hcopies : s.CopiesInside call) (hsafe : s.Safe call) :
    (s.step call).Sound cks := by
  rcases h.halted with hrun | hcrash
  · refine ⟨h.valid_step hcopies, ?_, fun hrun' msg hmsg => ?_, fun hcrash msg hmsg => ?_⟩
    · exact (h.halted_step hrun hcopies hsafe).imp_right And.right
    · obtain ⟨v, _, _, hsyn, ⟨v', hv'⟩ | hv'⟩ := h.step_spec hrun hcopies hsafe hmsg
      · exact ⟨v', hv'.inv, hv'.n_eq, hv'.synced hsyn⟩
      · nomatch hrun'.symm.trans hv'.halted
    · obtain ⟨v, hs, _, hsyn, ⟨v', hv'⟩ | hv'⟩ := h.step_spec hrun hcopies hsafe hmsg
      · nomatch hcrash.symm.trans hv'.halted
      · rw [hv'.enqueued, hv'.synced, hs, length_firstMessages]
        exact hv'.crashed.mono hsyn
  · have hstep : s.step call = s := by
      rw [Session.step, hcrash]
    rw [hstep]
    exact h

/-! ## Calls in which nothing fails -/

variable (cks) in
/-- Between two calls in which no file operation fails, all that the persister has done is
committed, the chunk store has room for 256 chunks, and `wal.dat` has messages of one chunk only. -/
def Session.Settled (s : Session) : Prop :=
  ∀ msg, s.enqueued = firstMessages msg s.enqueued.length →
    ∃ v, Inv msg cks v s.pmq ∧ v.n = s.enqueued.length ∧ s.synced ≤ v.pub.walled ∧ v.pub = v.p ∧
      v.p.stored + 256 ≤ v.p.discarded + cks.chunkCount ∧
      v.p.walled ≤ chunkStart msg (v.p.stored + 1)

lemma Session.settled_start (cks : ChunkStore) : (start cks).Settled cks := by
  intro msg _
  have hcount := cks.le_chunkCount
  exact ⟨_, (inv_create msg cks).1, rfl, le_rfl, rfl,
    by change 0 + 256 ≤ 0 + cks.chunkCount; omega, Nat.zero_le _⟩

lemma Session.Settled.step (h : s.Settled cks) (hrun : s.halted = none)
    (hrun' : (s.step call).halted = none) (hcopies : s.CopiesInside call) (hio : NoFail call.io) :
    (s.step call).Settled cks := by
  intro msg hmsg
  have hs := enqueued_of_step hmsg
  obtain ⟨v, hinv, hn, hsyn, hpub, hroom, hwal⟩ := h msg hs
  rw [← hn] at hs
  rcases step_spec hrun hcopies (.inl hio) hmsg hs hinv with ⟨v', hv'⟩ | hcrash
  · refine ⟨v', hv'.inv, hv'.n_eq, hv'.synced hsyn, ?_⟩
    rcases hv'.commits hio with ⟨_, _, hp, hpub'⟩ | ⟨_, hpub', hcom⟩
    · rw [hp, hpub']
      exact ⟨hpub, hroom, hwal⟩
    · exact ⟨hpub', hcom.room, hcom.walled_le.trans hcom.le_end⟩
  · nomatch hrun'.symm.trans hcrash.halted

/-- No file operation fails, and the machine does not crash. -/
def AllOk (io : List IoOutcome) : Prop := ∀ outcome ∈ io, outcome = .ok

lemma AllOk.noFail {io : List IoOutcome} (h : AllOk io) : NoFail io :=
  fun _ hmem => nomatch h _ hmem

lemma AllOk.not_crash {io : List IoOutcome} (h : AllOk io) : IoOutcome.crash ∉ io :=
  fun hmem => nomatch h _ hmem

variable (cks) in
/-- What is known of a session without errors. -/
structure Session.Healthy (s : Session) : Prop where
  sound : s.Sound cks
  running : s.halted = none
  settled : s.Settled cks

lemma Session.healthy_start (cks : ChunkStore) : (start cks).Healthy cks :=
  ⟨sound_start cks, rfl, settled_start cks⟩

/-- Without errors a session goes on. -/
lemma Session.Healthy.step (h : s.Healthy cks) (hcopies : s.CopiesInside call)
    (hio : AllOk call.io) :
    (s.step call).Healthy cks := by
  have hsafe : s.Safe call := .inl hio.noFail
  have hrun := (h.sound.halted_step h.running hcopies hsafe).resolve_right
    fun hcrash => hio.not_crash hcrash.1
  exact ⟨h.sound.step hcopies hsafe, hrun, h.settled.step h.running hrun hcopies hio.noFail⟩

end Steps

end Beegfs.Pmq
