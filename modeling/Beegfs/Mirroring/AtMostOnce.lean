import Beegfs.Lib.Run
import Beegfs.Mirroring.MirrorSession

/-!
# Mirrored requests are executed at most once

A client draws increasing numbers for its requests and sends each of them any number of times until
it releases the number.  Requests and responses may be lost, and a response may come while a request
is sent again.  `MirrorSystem.executed_at_most_once` says that no number is executed twice, that a
request which is sent again gets the response that was stored for it, and that the server hands out
bases above all numbers that it has slots for.
-/

namespace Beegfs

open MirrorSession List Nat

/-- A client and the session that a metadata server has for it. -/
structure MirrorSystem (R : Type) where
  /-- The last number that the client drew; 0 if it has no base yet. -/
  sequence : ℕ
  inFlight : List MirroredRequest
  released : List ℕ
  /-- The bases with which the server answered requests without a number. -/
  bases : List ℕ
  session : MirrorSession R
  /-- The numbers of the requests in `executeLocally`, and their slots. -/
  executing : List (ℕ × ℕ)
  /-- The numbers for which `executeLocally` was called. -/
  executed : List ℕ
  /-- The responses that `finishOperation` stored. -/
  finished : List (ℕ × R)

/-- What the threads of the client and the workers of the server do. -/
inductive MirrorEvent (R : Type) where
  | applyBase (base : ℕ)
  | draw (sequenceNumberDone : ℕ) (isSelectiveAck : Bool)
  | deliver (request : MirroredRequest)
  | finish (seqNo : ℕ) (response : R)
  | release (seqNo : ℕ)

namespace MirrorSystem

variable {R : Type}

/-- The system when the client is mounted.  The session may have slots of an earlier mount. -/
def mounted (session : MirrorSession R) : MirrorSystem R :=
  { sequence := 0, inFlight := [], released := [], bases := [], session, executing := [],
    executed := [], finished := [] }

variable (s : MirrorSystem R)

/-- A request comes to the server. -/
def deliver (request : MirroredRequest) : MirrorSystem R :=
  let (received, session) := s.session.receive request
  match received with
  | .newSeqNoBase base => { s with session, bases := base :: s.bases }
  | .answered _ | .tryAgain => { s with session }
  | .execute ident =>
    { s with
      session
      executing := (request.sequenceNumber, ident) :: s.executing
      executed := request.sequenceNumber :: s.executed }

/-- The operation of a number is finished. -/
def finish (seqNo : ℕ) (response : R) : MirrorSystem R :=
  match s.executing.find? fun p => p.1 = seqNo with
  | none => s
  | some (_, ident) =>
    { s with
      session := s.session.store ident response
      executing := s.executing.filter fun p => p.1 ≠ seqNo
      finished := (seqNo, response) :: s.finished }

/-- The system after an event. -/
def step : MirrorEvent R → MirrorSystem R
  | .applyBase base => { s with sequence := if s.sequence < base then base else s.sequence }
  | .draw sequenceNumberDone isSelectiveAck =>
    { s with
      sequence := s.sequence + 1
      inFlight := ⟨s.sequence + 1, sequenceNumberDone, isSelectiveAck⟩ :: s.inFlight }
  | .deliver request => s.deliver request
  | .finish seqNo response => s.finish seqNo response
  | .release seqNo =>
    { s with
      inFlight := s.inFlight.filter fun q => q.sequenceNumber ≠ seqNo
      released := seqNo :: s.released }

/-- What may happen: a base is applied that the server answered with; numbers are drawn when there
is a base, with acknowledgements of released numbers, or of numbers below all that are in flight;
the server gets requests without a number or those in flight; and it finishes what it executes. -/
def MayHappen : MirrorEvent R → Prop
  | .applyBase base => base ∈ s.bases
  | .draw sequenceNumberDone isSelectiveAck => s.sequence ≠ 0 ∧
    if isSelectiveAck then sequenceNumberDone ∈ s.released
    else sequenceNumberDone ≤ s.sequence ∧ ∀ q ∈ s.inFlight, sequenceNumberDone < q.sequenceNumber
  | .deliver request => request.sequenceNumber = 0 ∨ request ∈ s.inFlight
  | .finish seqNo _ => ∃ p ∈ s.executing, p.1 = seqNo
  | .release seqNo => ∃ q ∈ s.inFlight, q.sequenceNumber = seqNo

instance (s : MirrorSystem R) : (event : MirrorEvent R) → Decidable (s.MayHappen event)
  | .applyBase base => inferInstanceAs (Decidable (base ∈ s.bases))
  | .draw sequenceNumberDone isSelectiveAck => inferInstanceAs (Decidable (s.sequence ≠ 0 ∧
      if isSelectiveAck then sequenceNumberDone ∈ s.released
      else
        sequenceNumberDone ≤ s.sequence ∧ ∀ q ∈ s.inFlight, sequenceNumberDone < q.sequenceNumber))
  | .deliver request => inferInstanceAs (Decidable (_ ∨ request ∈ s.inFlight))
  | .finish seqNo _ => inferInstanceAs (Decidable (∃ p ∈ s.executing, p.1 = seqNo))
  | .release seqNo => inferInstanceAs (Decidable (∃ q ∈ s.inFlight, q.sequenceNumber = seqNo))

/-- How the server treats the next event: a request that was executed is answered with its response,
once that is stored, and with the advice to try again before; a request without a number changes no
slot; and no number is drawn that has a slot. -/
def TreatedRight : MirrorEvent R → Prop
  | .deliver request =>
    if request.sequenceNumber = 0 then
      (s.session.receive request).2 = s.session ∧
        ∃ base, (s.session.receive request).1 = .newSeqNoBase base ∧
          ∀ slot ∈ s.session.mirrorProcessState, slot.seqNo < base
    else
      (∀ response, (request.sequenceNumber, response) ∈ s.finished →
        (s.session.receive request).1 = .answered response) ∧ (request.sequenceNumber ∈ s.executed →
        (∀ response, (request.sequenceNumber, response) ∉ s.finished) →
          (s.session.receive request).1 = .tryAgain)
  | .draw _ _ => ∀ slot ∈ s.session.mirrorProcessState, slot.seqNo ≠ s.sequence + 1
  | .applyBase _ | .finish _ _ | .release _ => True

/-! ## The invariant -/

/-- The numbers of the client. -/
structure ClientInv : Prop where
  unset : s.sequence = 0 → s.inFlight = [] ∧
    ∀ base ∈ s.bases, ∀ slot ∈ s.session.mirrorProcessState, slot.seqNo < base
  keys : s.sequence ≠ 0 → ∀ slot ∈ s.session.mirrorProcessState, slot.seqNo ≤ s.sequence
  numbers : ∀ q ∈ s.inFlight, 0 < q.sequenceNumber ∧ q.sequenceNumber ≤ s.sequence
  past : ∀ n ∈ s.released, n ≤ s.sequence
  parted : ∀ q ∈ s.inFlight, q.sequenceNumber ∉ s.released
  acks : ∀ q ∈ s.inFlight, if q.isSelectiveAck then q.sequenceNumberDone ∈ s.released
    else ∀ p ∈ s.inFlight, q.sequenceNumberDone < p.sequenceNumber
  executed : ∀ n ∈ s.executed, n ∈ s.released ∨ ∃ q ∈ s.inFlight, q.sequenceNumber = n

/-- The slot of a number that was executed. -/
structure SlotOf (session : MirrorSession R) (executing : List (ℕ × ℕ)) (finished : List (ℕ × R))
    (seqNo : ℕ) (slot : MirrorStateSlot R) : Prop where
  found : session.find seqNo = some slot
  response : ∀ response, (seqNo, response) ∈ finished ↔ slot.response = some response
  running : slot.response = none → (seqNo, slot.ident) ∈ executing

/-- The slots of the server. -/
structure ServerInv : Prop where
  once : s.executed.Nodup
  slots : ∀ q ∈ s.inFlight, q.sequenceNumber ∈ s.executed →
    ∃ slot, SlotOf s.session s.executing s.finished q.sequenceNumber slot
  unused : ∀ q ∈ s.inFlight, q.sequenceNumber ∉ s.executed → s.session.find q.sequenceNumber = none
  running : ∀ p ∈ s.executing, p.1 ∈ s.executed ∧ p.2 < s.session.nextIdent ∧
    (∀ response, (p.1, response) ∉ s.finished) ∧
    ∀ slot ∈ s.session.mirrorProcessState, slot.ident = p.2 → slot.seqNo = p.1
  runningOnce : (s.executing.map Prod.fst).Nodup
  finished : ∀ p ∈ s.finished, p.1 ∈ s.executed

structure Inv : Prop extends ClientInv s, ServerInv s

variable {s : MirrorSystem R} {request : MirroredRequest}

/-! ## Acknowledgements -/

/-- An acknowledgement removes no slot of a number in flight. -/
lemma ClientInv.find_acknowledged (h : s.ClientInv) (hreq : request ∈ s.inFlight)
    {q : MirroredRequest} (hq : q ∈ s.inFlight) :
    (s.session.acknowledged request).find q.sequenceNumber = s.session.find q.sequenceNumber := by
  rw [MirrorSession.find, MirrorSession.find, MirrorSession.acknowledged, MirrorSession.keep,
    ← List.head?_filter, ← List.head?_filter, filter_filter]
  refine congrArg List.head? (filter_congr fun slot _ => ?_)
  by_cases hseqNo : slot.seqNo = q.sequenceNumber
  swap
  · rw [decide_eq_false hseqNo, Bool.false_and]
  rw [decide_eq_true hseqNo, Bool.true_and]
  have hack := h.acks request hreq
  cases hsel : request.isSelectiveAck with
  | true =>
    rw [hsel] at hack
    rw [if_pos rfl, decide_eq_true_eq, hseqNo]
    intro heq
    exact h.parted q hq (heq ▸ hack)
  | false =>
    rw [hsel] at hack
    rw [if_neg (by decide), decide_eq_true_eq, hseqNo]
    exact hack q hq

/-- A request without a number is answered with a base. -/
lemma receive_zero (hzero : request.sequenceNumber = 0) :
    s.session.receive request = (.newSeqNoBase s.session.getSeqNoBase, s.session) := if_pos hzero

section

variable (h : s.Inv)

include h

/-- Whether a request in flight is executed, and how it is answered otherwise. -/
lemma Inv.receive_cases (hreq : request ∈ s.inFlight) :
    (request.sequenceNumber ∉ s.executed ∧
      s.session.receive request = (.execute s.session.nextIdent,
        (s.session.acknowledged request).add request.sequenceNumber)) ∨
    ∃ slot, SlotOf s.session s.executing s.finished request.sequenceNumber slot ∧
      s.session.receive request = (match slot.response with
        | some response => .answered response
        | none => .tryAgain, s.session.acknowledged request) := by
  have hseqNo : request.sequenceNumber ≠ 0 := Nat.ne_of_gt (h.numbers request hreq).1
  have hfind := h.find_acknowledged hreq hreq
  by_cases hexec : request.sequenceNumber ∈ s.executed
  · obtain ⟨slot, hslot⟩ := h.slots request hreq hexec
    rw [hslot.found] at hfind
    refine .inr ⟨slot, hslot, ?_⟩
    rw [receive, if_neg hseqNo, acquire_eq, MirrorSession.insert, hfind]
    rcases slot with ⟨seqNo, ident, _ | response⟩ <;> rfl
  · rw [h.unused request hreq hexec] at hfind
    refine .inl ⟨hexec, ?_⟩
    rw [receive, if_neg hseqNo, acquire_eq, MirrorSession.insert, hfind]
    rfl

/-- The server treats everything right that may happen. -/
lemma Inv.treatedRight {event : MirrorEvent R} (hmay : s.MayHappen event) :
    s.TreatedRight event := by
  cases event with
  | applyBase _ => trivial
  | finish _ _ => trivial
  | release _ => trivial
  | draw _ _ =>
    intro slot hslot heq
    have hle := h.keys hmay.1 slot hslot
    omega
  | deliver request =>
    by_cases hzero : request.sequenceNumber = 0
    · rw [TreatedRight, if_pos hzero, receive_zero hzero]
      exact ⟨rfl, _, rfl, fun slot hslot => lt_getSeqNoBase hslot⟩
    · rw [TreatedRight, if_neg hzero]
      have hreq : request ∈ s.inFlight := hmay.resolve_left hzero
      rcases h.receive_cases hreq with ⟨hnot, hrecv⟩ | ⟨slot, hslot, hrecv⟩
      · exact ⟨fun response hmem => absurd (h.finished _ hmem) hnot, fun hexec => absurd hexec hnot⟩
      · rw [hrecv]
        refine ⟨fun response hmem => ?_, fun _ hnone => ?_⟩
        · rw [(hslot.response response).mp hmem]
        · rcases hresp : slot.response with _ | response
          · rfl
          · exact absurd ((hslot.response response).mpr hresp) (hnone response)

/-! ## What the client does -/

lemma Inv.applyBase {base : ℕ} (hbase : base ∈ s.bases) : (s.step (.applyBase base)).Inv := by
  by_cases hlt : s.sequence < base
  · have hstep : s.step (.applyBase base) = { s with sequence := base } := by
      rw [step, if_pos hlt]
    rw [hstep]
    refine { h with
      unset := fun hzero => absurd hzero (Nat.ne_zero_of_lt hlt)
      keys := fun _ slot hslot => ?_
      numbers := fun q hq => ?_
      past := fun n hn => ?_ }
    · by_cases hunset : s.sequence = 0
      · exact Nat.le_of_lt ((h.unset hunset).2 base hbase slot hslot)
      · exact Nat.le_trans (h.keys hunset slot hslot) (Nat.le_of_lt hlt)
    · exact ⟨(h.numbers q hq).1, Nat.le_trans (h.numbers q hq).2 (Nat.le_of_lt hlt)⟩
    · exact Nat.le_trans (h.past n hn) (Nat.le_of_lt hlt)
  · have hstep : s.step (.applyBase base) = s := by
      rw [step, if_neg hlt]
    rw [hstep]
    exact h

/-- A number that was not drawn yet was not executed. -/
lemma Inv.not_mem_executed {n : ℕ} (hn : s.sequence < n) : n ∉ s.executed := by
  intro hmem
  rcases h.executed n hmem with hrel | ⟨q, hq, rfl⟩
  · exact Nat.not_lt_of_le (h.past n hrel) hn
  · exact Nat.not_lt_of_le (h.numbers q hq).2 hn

lemma Inv.draw {sequenceNumberDone : ℕ} {isSelectiveAck : Bool}
    (hmay : s.MayHappen (.draw sequenceNumberDone isSelectiveAck)) :
    (s.step (.draw sequenceNumberDone isSelectiveAck)).Inv := by
  have hnew : s.sequence + 1 ∉ s.executed := h.not_mem_executed (lt_succ_self _)
  refine ⟨⟨fun hzero => ?_, fun _ slot hslot => ?_, ?_, fun n hn => ?_, ?_, ?_, fun n hn => ?_⟩,
    ⟨h.once, ?_, ?_, h.running, h.runningOnce, h.finished⟩⟩
  · exact absurd hzero (succ_ne_zero _)
  · exact le_succ_of_le (h.keys hmay.1 slot hslot)
  · rintro q (_ | ⟨_, hq⟩)
    · exact ⟨succ_pos _, Nat.le_refl _⟩
    · exact ⟨(h.numbers q hq).1, le_succ_of_le (h.numbers q hq).2⟩
  · exact le_succ_of_le (h.past n hn)
  · rintro q (_ | ⟨_, hq⟩)
    · intro hmem
      exact not_succ_le_self _ (h.past _ hmem)
    · exact h.parted q hq
  · rintro q (_ | ⟨_, hq⟩)
    · cases isSelectiveAck with
      | true => exact hmay.2
      | false =>
        rintro p (_ | ⟨_, hp⟩)
        · exact lt_succ_of_le hmay.2.1
        · exact hmay.2.2 p hp
    · have hack := h.acks q hq
      cases hsel : q.isSelectiveAck with
      | true =>
        rw [hsel] at hack
        exact hack
      | false =>
        rw [hsel] at hack
        rintro p (_ | ⟨_, hp⟩)
        · exact lt_succ_of_le (Nat.le_trans (Nat.le_of_lt (hack q hq)) (h.numbers q hq).2)
        · exact hack p hp
  · rcases h.executed n hn with hrel | ⟨q, hq, hqn⟩
    · exact .inl hrel
    · exact .inr ⟨q, mem_cons_of_mem _ hq, hqn⟩
  · rintro q (_ | ⟨_, hq⟩)
    · exact fun hexec => absurd hexec hnew
    · exact h.slots q hq
  · rintro q (_ | ⟨_, hq⟩) hnot
    · refine List.find?_eq_none.mpr fun slot hslot heq => ?_
      exact not_succ_le_self _ (of_decide_eq_true heq ▸ h.keys hmay.1 slot hslot)
    · exact h.unused q hq hnot

lemma Inv.release {seqNo : ℕ} (hmay : ∃ q ∈ s.inFlight, q.sequenceNumber = seqNo) :
    (s.step (.release seqNo)).Inv := by
  have hold : ∀ {q}, q ∈ (s.step (.release seqNo)).inFlight →
      q ∈ s.inFlight ∧ q.sequenceNumber ≠ seqNo := by
    intro q hq
    have hmem := mem_filter.mp hq
    exact ⟨hmem.1, of_decide_eq_true hmem.2⟩
  refine ⟨⟨fun hzero => ?_, h.keys, fun q hq => h.numbers q (hold hq).1, ?_, fun q hq hmem => ?_,
    fun q hq => ?_, fun n hn => ?_⟩, ⟨h.once, fun q hq => h.slots q (hold hq).1,
    fun q hq => h.unused q (hold hq).1, h.running, h.runningOnce, h.finished⟩⟩
  · obtain ⟨hnil, hbases⟩ := h.unset hzero
    refine ⟨?_, hbases⟩
    change s.inFlight.filter _ = []
    rw [hnil, filter_nil]
  · obtain ⟨q, hq, rfl⟩ := hmay
    rintro n (_ | ⟨_, hn⟩)
    · exact (h.numbers q hq).2
    · exact h.past n hn
  · rcases mem_cons.mp hmem with heq | hmem
    · exact (hold hq).2 heq
    · exact h.parted q (hold hq).1 hmem
  · have hack := h.acks q (hold hq).1
    cases hsel : q.isSelectiveAck with
    | true =>
      rw [hsel] at hack
      exact mem_cons_of_mem _ hack
    | false =>
      rw [hsel] at hack
      intro p hp
      exact hack p (hold hp).1
  · rcases h.executed n hn with hrel | ⟨q, hq, rfl⟩
    · exact .inl (mem_cons_of_mem _ hrel)
    · by_cases heq : q.sequenceNumber = seqNo
      · rw [heq]
        exact .inl mem_cons_self
      · exact .inr ⟨q, mem_filter.mpr ⟨hq, decide_eq_true heq⟩, rfl⟩

/-! ## What the server does -/

end

/-- The slots that a request leaves were there before. -/
lemma mem_acknowledged {slot : MirrorStateSlot R}
    (hslot : slot ∈ (s.session.acknowledged request).mirrorProcessState) :
    slot ∈ s.session.mirrorProcessState := (mem_filter.mp hslot).1

/-- The numbers of the client are right for slots that have no other numbers. -/
lemma ClientInv.withSession (h : s.ClientInv) {session : MirrorSession R}
    (hslots : ∀ slot ∈ session.mirrorProcessState,
      ∃ old ∈ s.session.mirrorProcessState, slot.seqNo = old.seqNo) :
    { s with session }.ClientInv := by
  refine { h with
    unset := fun hunset => ⟨(h.unset hunset).1, fun base hbase slot hslot => ?_⟩
    keys := fun hset slot hslot => ?_ }
  · obtain ⟨old, hold, heq⟩ := hslots slot hslot
    rw [heq]
    exact (h.unset hunset).2 base hbase old hold
  · obtain ⟨old, hold, heq⟩ := hslots slot hslot
    rw [heq]
    exact h.keys hset old hold

/-- An answer leaves the slots of the numbers in flight. -/
lemma Inv.deliver_answer (h : s.Inv) (hreq : request ∈ s.inFlight) :
    { s with session := s.session.acknowledged request }.Inv := by
  refine ⟨h.withSession fun slot hslot => ⟨slot, mem_acknowledged hslot, rfl⟩, h.once,
    fun q hq hexec => ?_, fun q hq hnot => ?_, fun p hp => ?_, h.runningOnce, h.finished⟩
  · obtain ⟨slot, hslot⟩ := h.slots q hq hexec
    exact ⟨slot, (h.find_acknowledged hreq hq).trans hslot.found, hslot.response, hslot.running⟩
  · exact (h.find_acknowledged hreq hq).trans (h.unused q hq hnot)
  · obtain ⟨hexec, hident, hfin, hslots⟩ := h.running p hp
    exact ⟨hexec, hident, hfin, fun slot hslot => hslots slot (mem_acknowledged hslot)⟩

/-- A new slot for a number in flight. -/
lemma Inv.deliver_execute (h : s.Inv) (hreq : request ∈ s.inFlight)
    (hnot : request.sequenceNumber ∉ s.executed) :
    { s with
      session := s.session.add request.sequenceNumber
      executing := (request.sequenceNumber, s.session.nextIdent) :: s.executing
      executed := request.sequenceNumber :: s.executed }.Inv := by
  have hunfin : ∀ response, (request.sequenceNumber, response) ∉ s.finished := fun response hmem =>
    hnot (h.finished _ hmem)
  refine ⟨⟨fun hunset => ?_, ?_, h.numbers, h.past, h.parted, h.acks, ?_⟩,
    ⟨nodup_cons.mpr ⟨hnot, h.once⟩, fun q hq hexec => ?_, fun q hq hnotq => ?_, ?_,
      nodup_cons.mpr ⟨?_, h.runningOnce⟩, fun p hp => mem_cons_of_mem _ (h.finished p hp)⟩⟩
  · rw [(h.unset hunset).1] at hreq
    cases hreq
  · rintro hset slot (_ | ⟨_, hslot⟩)
    · exact (h.numbers request hreq).2
    · exact h.keys hset slot hslot
  · rintro n (_ | ⟨_, hn⟩)
    · exact .inr ⟨request, hreq, rfl⟩
    · exact h.executed n hn
  · by_cases heq : q.sequenceNumber = request.sequenceNumber
    · rw [heq]
      refine ⟨_, find_add_self _, fun response => ?_, fun _ => mem_cons_self⟩
      exact iff_of_false (hunfin response) nofun
    · obtain ⟨slot, hslot⟩ := h.slots q hq ((mem_cons.mp hexec).resolve_left heq)
      exact ⟨slot, (find_add_of_ne (Ne.symm heq)).trans hslot.found, hslot.response,
        fun hnone => mem_cons_of_mem _ (hslot.running hnone)⟩
  · obtain ⟨hne, hnotOld⟩ := not_or.mp (mt mem_cons.mpr hnotq)
    exact (find_add_of_ne (Ne.symm hne)).trans (h.unused q hq hnotOld)
  · rintro p (_ | ⟨_, hp⟩)
    · refine ⟨mem_cons_self, lt_succ_self _, hunfin, ?_⟩
      rintro slot (_ | ⟨_, hslot⟩) hident
      · rfl
      · exact absurd hident (Nat.ne_of_lt (s.session.fresh slot hslot))
    · obtain ⟨hexec, hident, hfin, hslots⟩ := h.running p hp
      refine ⟨mem_cons_of_mem _ hexec, lt_succ_of_lt hident, hfin, ?_⟩
      rintro slot (_ | ⟨_, hslot⟩) heq
      · exact absurd heq (Nat.ne_of_gt hident)
      · exact hslots slot hslot heq
  · intro hmem
    obtain ⟨p, hp, heq⟩ := mem_map.mp hmem
    have hexec := (h.running p hp).1
    rw [heq] at hexec
    exact hnot hexec

open MirrorSystem

lemma Inv.deliver (h : s.Inv) (hmay : request.sequenceNumber = 0 ∨ request ∈ s.inFlight) :
    (s.deliver request).Inv := by
  rcases hmay with hzero | hreq
  · -- A request without a number changes no slot.
    rw [MirrorSystem.deliver, receive_zero hzero]
    refine { h with unset := fun hunset => ⟨(h.unset hunset).1, ?_⟩ }
    rintro base (_ | ⟨_, hbase⟩)
    · exact fun slot hslot => lt_getSeqNoBase hslot
    · exact (h.unset hunset).2 base hbase
  · rcases h.receive_cases hreq with ⟨hnot, hrecv⟩ | ⟨slot, -, hrecv⟩
    · rw [MirrorSystem.deliver, hrecv]
      exact (h.deliver_answer hreq).deliver_execute hreq hnot
    · rw [MirrorSystem.deliver, hrecv]
      rcases slot.response with _ | response
      · exact h.deliver_answer hreq
      · exact h.deliver_answer hreq

/-- The operation that is finished is the only one of its number. -/
lemma ServerInv.find_executing (h : s.ServerInv) {p : ℕ × ℕ} (hp : p ∈ s.executing) :
    s.executing.find? (fun p' => p'.1 = p.1) = some p := by
  rcases hfind : s.executing.find? fun p' => p'.1 = p.1 with _ | p'
  · exact absurd rfl (of_decide_eq_false (Bool.not_eq_true _ ▸ List.find?_eq_none.mp hfind p hp))
  · have hsome := List.find?_some hfind
    rw [hfind, inj_on_of_nodup_map h.runningOnce (mem_of_find?_eq_some hfind) hp
      (of_decide_eq_true hsome)]

lemma Inv.finish (h : s.Inv) {seqNo : ℕ} (hmay : ∃ p ∈ s.executing, p.1 = seqNo) (response : R) :
    (s.finish seqNo response).Inv := by
  obtain ⟨⟨seqNo, ident⟩, hp, rfl⟩ := hmay
  obtain ⟨hexec, -, hunfin, hslots⟩ := h.running _ hp
  have hslot : ∀ {slot}, slot ∈ (s.session.store ident response).mirrorProcessState →
      ∃ old ∈ s.session.mirrorProcessState, slot.seqNo = old.seqNo ∧ slot.ident = old.ident := by
    intro slot hslot
    obtain ⟨old, hold, rfl⟩ := mem_map.mp hslot
    refine ⟨old, hold, ?_⟩
    split_ifs <;> exact ⟨rfl, rfl⟩
  rw [MirrorSystem.finish, h.find_executing hp]
  refine ⟨{ h.withSession fun slot hmem => ?_ with }, h.once, fun q hq hq' => ?_,
    fun q hq hnot => ?_, fun p' hp' => ?_, ?_, ?_⟩
  · obtain ⟨old, hold, heq, -⟩ := hslot hmem
    exact ⟨old, hold, heq⟩
  · obtain ⟨slot, hof⟩ := h.slots q hq hq'
    have hfound : (s.session.store ident response).find q.sequenceNumber = _ :=
      find_store ident response _
    rw [hof.found, Option.map_some] at hfound
    by_cases heq : q.sequenceNumber = seqNo
    · -- The slot of the operation has no response yet, so it is the one that is running.
      rw [heq] at hof hfound ⊢
      have hnone : slot.response = none := by
        rcases hresp : slot.response with _ | r
        · rfl
        · exact absurd ((hof.response r).mpr hresp) (hunfin r)
      have hident : slot.ident = ident := by
        have hsame := h.find_executing (hof.running hnone)
        rw [h.find_executing hp] at hsame
        exact (Prod.mk.inj (Option.some.inj hsame)).2.symm
      rw [if_pos hident] at hfound
      refine ⟨_, hfound, fun r => ?_, nofun⟩
      constructor
      · intro hmem
        rcases mem_cons.mp hmem with hhead | hmem
        · exact congrArg some (Prod.mk.inj hhead).2.symm
        · exact absurd hmem (hunfin r)
      · intro hr
        rw [← Option.some.inj hr]
        exact mem_cons_self
    · have hmem := find_eq_some hof.found
      rw [if_neg fun hident => heq (hmem.2.symm.trans (hslots slot hmem.1 hident))] at hfound
      refine ⟨slot, hfound, fun r => ?_, fun hnone => ?_⟩
      · rw [← hof.response r, mem_cons]
        exact or_iff_right fun hhead => heq (Prod.mk.inj hhead).1
      · exact mem_filter.mpr ⟨hof.running hnone, decide_eq_true heq⟩
  · have hfound : (s.session.store ident response).find q.sequenceNumber = _ :=
      find_store ident response _
    rw [h.unused q hq hnot] at hfound
    exact hfound
  · have hold := mem_filter.mp hp'
    obtain ⟨hexec', hident', hunfin', hslots'⟩ := h.running p' hold.1
    refine ⟨hexec', hident', fun r hmem => ?_, fun slot hmem heq => ?_⟩
    · rcases mem_cons.mp hmem with heq | hmem
      · exact of_decide_eq_true hold.2 (Prod.mk.inj heq).1
      · exact hunfin' r hmem
    · obtain ⟨old, hmem, hseq, hident⟩ := hslot hmem
      rw [hseq]
      exact hslots' old hmem (hident.symm.trans heq)
  · exact (filter_sublist.map _).nodup h.runningOnce
  · rintro p' (_ | ⟨_, hp'⟩)
    · exact hexec
    · exact h.finished p' hp'

/-! ## Runs -/

lemma Inv.step (h : s.Inv) {event : MirrorEvent R} (hmay : s.MayHappen event) :
    (s.step event).Inv := by
  cases event with
  | applyBase base => exact h.applyBase hmay
  | draw sequenceNumberDone isSelectiveAck => exact h.draw hmay
  | deliver request => exact h.deliver hmay
  | finish seqNo response => exact h.finish hmay response
  | release seqNo => exact h.release hmay

lemma inv_mounted (session : MirrorSession R) : (mounted session).Inv where
  unset _ := ⟨rfl, nofun⟩
  keys hset := absurd rfl hset
  numbers := nofun
  past := nofun
  parted := nofun
  acks := nofun
  executed := nofun
  once := nodup_nil
  slots := nofun
  unused := nofun
  running := nofun
  runningOnce := nodup_nil
  finished := nofun

/-- In every run of a client and its server, whatever slots there are at first, no number is
executed twice, and every event is treated right. -/
theorem executed_at_most_once (session : MirrorSession R) {events : List (MirrorEvent R)}
    (hmay : EveryStep step MayHappen (mounted session) events) :
    EveryState step (fun s => s.executed.Nodup) (mounted session) events ∧
      EveryStep step TreatedRight (mounted session) events := by
  constructor
  · exact everyState_of_everyStep (I := Inv) (fun _ _ hevent h => Inv.step h hevent)
      (fun _ h => h.once) (inv_mounted session) hmay
  · exact hmay.imp_of_invariant (fun _ _ hevent h => h.step hevent)
      (fun _ _ hevent h => h.treatedRight hevent) (inv_mounted session)

/-- The slot of number 5 is left from an earlier mount.  Number 7 is sent before and after its
response is stored, and then released and acknowledged. -/
theorem executed_at_most_once_resend :
    let events : List (MirrorEvent ℕ) := [.deliver ⟨0, 0, false⟩, .applyBase 6, .draw 6 false,
      .deliver ⟨7, 6, false⟩, .deliver ⟨7, 6, false⟩, .finish 7 1, .deliver ⟨7, 6, false⟩,
      .release 7, .draw 7 true, .deliver ⟨8, 7, true⟩]
    let s := mounted ⟨[⟨5, 0, none⟩], 1, by decide, by decide⟩
    EveryState step (fun s => s.executed.Nodup) s events ∧ EveryStep step TreatedRight s events :=
  executed_at_most_once _ (by decide +kernel)

end MirrorSystem

end Beegfs
