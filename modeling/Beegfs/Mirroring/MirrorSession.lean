import Mathlib

/-!
# Slots for the responses to mirrored requests

A metadata server keeps, for each client, a slot for every sequence number that the client may still
send again.  A slot is made when the first request of its number comes, and it gets the response
when the request was executed.  Every request also says which numbers the client is done with, and
their slots are removed.
-/

namespace Beegfs

open List

/-- A slot for a number.  Workers hold pointers to slots, also to those that were removed, so slots
have an identity. -/
structure MirrorStateSlot (R : Type) where
  seqNo : ℕ
  ident : ℕ
  response : Option R
deriving DecidableEq

/-- The slots of a client, and the identity of the next new slot. -/
structure MirrorSession (R : Type) where
  mirrorProcessState : List (MirrorStateSlot R)
  nextIdent : ℕ
  distinct : (mirrorProcessState.map MirrorStateSlot.ident).Nodup
  fresh : ∀ slot ∈ mirrorProcessState, slot.ident < nextIdent

/-- A mirrored request, with the number that it acknowledges.  Fewer than `2 ^ 64` numbers are
used. -/
structure MirroredRequest where
  sequenceNumber : ℕ
  sequenceNumberDone : ℕ
  isSelectiveAck : Bool
deriving DecidableEq

/-- What becomes of a request: it is answered with a new base, with a stored response or with the
advice to try again, or it is executed with a slot for its response. -/
inductive Received (R : Type) where
  | newSeqNoBase (base : ℕ)
  | answered (response : R)
  | tryAgain
  | execute (ident : ℕ)
deriving DecidableEq

namespace MirrorSession

variable {R : Type} (session : MirrorSession R)

/-- The slots that are not removed. -/
def keep (p : MirrorStateSlot R → Bool) : MirrorSession R where
  mirrorProcessState := session.mirrorProcessState.filter p
  nextIdent := session.nextIdent
  distinct := (filter_sublist.map _).nodup session.distinct
  fresh slot hslot := session.fresh slot (mem_filter.mp hslot).1

variable (seqNo : ℕ)

/-- The slot of a number. -/
def find : Option (MirrorStateSlot R) :=
  session.mirrorProcessState.find? fun slot => slot.seqNo = seqNo

/-- A new slot. -/
def add : MirrorSession R where
  mirrorProcessState := ⟨seqNo, session.nextIdent, none⟩ :: session.mirrorProcessState
  nextIdent := session.nextIdent + 1
  distinct := by
    refine nodup_cons.mpr ⟨fun hmem => ?_, session.distinct⟩
    obtain ⟨slot, hslot, hident⟩ := mem_map.mp hmem
    exact Nat.ne_of_lt (session.fresh slot hslot) hident
  fresh slot hslot := by
    rcases mem_cons.mp hslot with rfl | hslot
    · exact Nat.lt_succ_self _
    · exact Nat.lt_succ_of_lt (session.fresh slot hslot)

/-- `mirrorProcessState.insert`: the slot of a number, and whether it is new. -/
def insert : MirrorStateSlot R × Bool × MirrorSession R :=
  match session.find seqNo with
  | some slot => (slot, false, session)
  | none => (⟨seqNo, session.nextIdent, none⟩, true, session.add seqNo)

/-- `acquireMirrorStateSlot` -/
def acquireMirrorStateSlot (endSeqno thisSeqno : ℕ) : MirrorStateSlot R × Bool × MirrorSession R :=
  (session.keep fun slot => endSeqno + 1 ≤ slot.seqNo).insert thisSeqno

/-- `acquireMirrorStateSlotSelective` -/
def acquireMirrorStateSlotSelective (finishedSeqno thisSeqno : ℕ) :
    MirrorStateSlot R × Bool × MirrorSession R :=
  (session.keep fun slot => slot.seqNo ≠ finishedSeqno).insert thisSeqno

/-- `getSeqNoBase` -/
def getSeqNoBase : ℕ :=
  if session.mirrorProcessState.isEmpty then 1
  else (session.mirrorProcessState.map MirrorStateSlot.seqNo).foldr max 0 + 1

/-- `processIncoming` up to the point where the request is executed or answered. -/
def receive (request : MirroredRequest) : Received R × MirrorSession R :=
  if request.sequenceNumber = 0 then (.newSeqNoBase session.getSeqNoBase, session)
  else
    let (mirrorState, isNewState, session) :=
      if request.isSelectiveAck then
        session.acquireMirrorStateSlotSelective request.sequenceNumberDone request.sequenceNumber
      else session.acquireMirrorStateSlot request.sequenceNumberDone request.sequenceNumber
    if isNewState then (.execute mirrorState.ident, session)
    else
      match mirrorState.response with
      | some response => (.answered response, session)
      | none => (.tryAgain, session)

/-- `finishOperation` stores the response in the slot, if that was not removed. -/
def store (ident : ℕ) (response : R) : MirrorSession R where
  mirrorProcessState := session.mirrorProcessState.map fun slot =>
    if slot.ident = ident then { slot with response := some response } else slot
  nextIdent := session.nextIdent
  distinct := by
    rw [map_map]
    refine (congrArg List.Nodup (map_congr_left fun slot _ => ?_)).mpr session.distinct
    change (if slot.ident = ident then { slot with response := some response } else slot).ident = _
    split_ifs <;> rfl
  fresh slot hslot := by
    obtain ⟨old, hold, rfl⟩ := mem_map.mp hslot
    have hlt := session.fresh old hold
    split_ifs <;> exact hlt

variable {session} {request : MirroredRequest}

/-- The slots that the acknowledgement of a request leaves. -/
def acknowledged (session : MirrorSession R) (request : MirroredRequest) : MirrorSession R :=
  session.keep fun slot =>
    if request.isSelectiveAck then slot.seqNo ≠ request.sequenceNumberDone
    else request.sequenceNumberDone + 1 ≤ slot.seqNo

variable {seqNo : ℕ} {slot : MirrorStateSlot R}

lemma find_eq_some (h : session.find seqNo = some slot) :
    slot ∈ session.mirrorProcessState ∧ slot.seqNo = seqNo := by
  have hsome := List.find?_some h
  exact ⟨mem_of_find?_eq_some h, of_decide_eq_true hsome⟩

@[simp] lemma find_add_self (seqNo : ℕ) :
    (session.add seqNo).find seqNo = some ⟨seqNo, session.nextIdent, none⟩ := by
  simp [find, add]

lemma find_add_of_ne {other : ℕ} (hne : seqNo ≠ other) :
    (session.add seqNo).find other = session.find other := by
  simp [find, add, hne]

lemma find_store (ident : ℕ) (response : R) (seqNo : ℕ) :
    (session.store ident response).find seqNo = (session.find seqNo).map fun slot =>
      if slot.ident = ident then { slot with response := some response } else slot := by
  rw [find, store, List.find?_map]
  refine congrArg (Option.map _) (congrArg (List.find? · _) (funext fun slot => ?_))
  change decide ((if slot.ident = ident then { slot with response := some response }
    else slot).seqNo = seqNo) = _
  split_ifs <;> rfl

/-- The slot of a number, after the acknowledgement of its request. -/
lemma acquire_eq :
    (if request.isSelectiveAck then
      session.acquireMirrorStateSlotSelective request.sequenceNumberDone request.sequenceNumber
    else session.acquireMirrorStateSlot request.sequenceNumberDone request.sequenceNumber) =
      (session.acknowledged request).insert request.sequenceNumber := by
  cases hack : request.isSelectiveAck <;>
    simp [acquireMirrorStateSlot, acquireMirrorStateSlotSelective, acknowledged, hack]

/-- The base is above all numbers that have slots. -/
lemma lt_getSeqNoBase (hslot : slot ∈ session.mirrorProcessState) :
    slot.seqNo < session.getSeqNoBase := by
  have hmax : ∀ {l : List ℕ} {a : ℕ}, a ∈ l → a ≤ l.foldr max 0 := by
    intro l a ha
    induction l with
    | nil => cases ha
    | cons b l ih =>
      rcases mem_cons.mp ha with rfl | ha
      · exact Nat.le_max_left ..
      · exact Nat.le_trans (ih ha) (Nat.le_max_right ..)
  have hne : ¬session.mirrorProcessState.isEmpty = true := by
    rw [List.isEmpty_iff]
    exact ne_nil_of_mem hslot
  rw [getSeqNoBase, if_neg hne]
  exact Nat.lt_succ_of_le (hmax (mem_map_of_mem hslot))

end MirrorSession

end Beegfs
