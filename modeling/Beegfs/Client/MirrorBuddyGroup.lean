import Beegfs.Client.SeqNoHeap

/-!
# Sequence numbers of a mirror buddy group

The operations of `MirrorBuddyGroup.c`: a request to a buddy group draws the next number, and it
takes along the acknowledgement of a number that was released (a selective one), or of all numbers
below those in flight.  Numbers that were released wait for their acknowledgement in a ring.
-/

namespace Beegfs

open List Nat

/-- A group, and the handles of its callers. -/
structure MirrorBuddyGroup (H : Type) extends SeqNoHeap H where
  sequence : ℕ
  slotsAvail : ℕ
  inFlightCapacity : ℕ
  finishedSeqNums : ℕ → ℕ
  firstFinishedIndex : ℕ
  finishedCount : ℕ

/-- What `acquireSequenceNumber` returns. -/
inductive AcquireResult where
  | ok (seqNo acknowledgeSeq : ℕ) (isSelective : Bool)
  | noEntry
  | again
  | interrupted
deriving DecidableEq

namespace MirrorBuddyGroup

variable {H : Type}

/-! ## Operations -/

/-- `MirrorBuddyGroup_constructFromTargetIDs`.  Both buffers are allocated and not initialised. -/
def construct (doneBufferSize : ℕ) (seqNoInFlight : ℕ → BuddySequenceNumber H)
    (finishedSeqNums : ℕ → ℕ) (handles : H → Option ℕ) : Option (MirrorBuddyGroup H) :=
  if doneBufferSize = 0 then none
  else some
    { sequence := 0
      slotsAvail := doneBufferSize
      seqNoInFlight
      inFlightSize := 0
      inFlightCapacity := doneBufferSize
      finishedSeqNums
      firstFinishedIndex := 0
      finishedCount := 0
      handles }

variable (g : MirrorBuddyGroup H)

/-- `MirrorBuddyGroup_setSeqNoBase` -/
def setSeqNoBase (seqNoBase : ℕ) : MirrorBuddyGroup H :=
  if g.sequence < seqNoBase then { g with sequence := seqNoBase } else g

/-- The first finished number is taken out of the ring. -/
def takeFinished : MirrorBuddyGroup H :=
  { g with
    firstFinishedIndex := (g.firstFinishedIndex + 1) % g.inFlightCapacity
    finishedCount := g.finishedCount - 1 }

/-- The number is added to the ring. -/
def addFinished (value : ℕ) : MirrorBuddyGroup H :=
  if g.finishedCount < g.inFlightCapacity then
    let nextFinishedIndex := (g.firstFinishedIndex + (g.finishedCount + 1) - 1) % g.inFlightCapacity
    { g with
      finishedCount := g.finishedCount + 1
      finishedSeqNums := Function.update g.finishedSeqNums nextFinishedIndex value }
  else
    let firstFinishedIndex := (g.firstFinishedIndex + 1) % g.inFlightCapacity
    { g with
      firstFinishedIndex
      finishedSeqNums := Function.update g.finishedSeqNums firstFinishedIndex value }

variable [DecidableEq H] (g : MirrorBuddyGroup H)

/-- The next number is drawn and appended to the heap. -/
def draw (handle : H) : MirrorBuddyGroup H :=
  let seqNo := (g.sequence + 1) % 2 ^ 64
  { g with
    toSeqNoHeap := g.append handle seqNo
    sequence := seqNo
    slotsAvail := g.slotsAvail - 1 }

/-- `MirrorBuddyGroup_acquireSequenceNumber`.  A caller that waits for a slot either gets it later,
or is interrupted. -/
def acquireSequenceNumber (handle : H) (allowWait : Bool) : AcquireResult × MirrorBuddyGroup H :=
  if g.slotsAvail = 0 then (if allowWait then .interrupted else .again, g)
  else if g.sequence = 0 then
    (.noEntry, { g with handles := Function.update g.handles handle none })
  else
    let g := g.draw handle
    if 0 < g.finishedCount then
      (.ok g.sequence (g.finishedSeqNums g.firstFinishedIndex) true, g.takeFinished)
    else (.ok g.sequence (((g.seqNoInFlight 0).value + 2 ^ 64 - 1) % 2 ^ 64) false, g)

/-- `MirrorBuddyGroup_releaseSequenceNumber` -/
def releaseSequenceNumber (handle : H) : MirrorBuddyGroup H :=
  match g.handles handle with
  -- A null pointer would be followed here; callers do not release handles that they do not have.
  | none => g
  | some slot =>
    let g := g.addFinished (g.seqNoInFlight slot).value
    { g with
      toSeqNoHeap := g.removeAt slot
      slotsAvail := g.slotsAvail + 1 }

/-! ## The ring -/

/-- The numbers in the ring, the one that is next to be acknowledged first. -/
def finished : List ℕ :=
  (List.range g.finishedCount).map fun k =>
    g.finishedSeqNums ((g.firstFinishedIndex + k) % g.inFlightCapacity)

variable {g}

omit [DecidableEq H]

lemma finished_takeFinished (hcount : 0 < g.finishedCount)
    (hfirst : g.firstFinishedIndex < g.inFlightCapacity) :
    g.finished = g.finishedSeqNums g.firstFinishedIndex :: g.takeFinished.finished := by
  obtain ⟨count, hc⟩ := exists_eq_succ_of_ne_zero hcount.ne'
  have htake : g.takeFinished.finishedCount = count := by
    rw [takeFinished, hc]
    rfl
  rw [finished, hc, range_succ_eq_map, map_cons, Nat.add_zero, mod_eq_of_lt hfirst,
    finished, htake, map_map]
  congr 1
  refine map_congr_left fun k _ => congrArg g.finishedSeqNums ?_
  change (g.firstFinishedIndex + (k + 1)) % g.inFlightCapacity =
    ((g.firstFinishedIndex + 1) % g.inFlightCapacity + k) % g.inFlightCapacity
  rw [mod_add_mod, Nat.add_assoc, Nat.add_comm 1 k]

/-- As long as there is room in the ring, nothing in it is overwritten. -/
lemma addFinished_eq (hcount : g.finishedCount < g.inFlightCapacity) (value : ℕ) :
    g.addFinished value = { g with
      finishedCount := g.finishedCount + 1
      finishedSeqNums := Function.update g.finishedSeqNums
        ((g.firstFinishedIndex + g.finishedCount) % g.inFlightCapacity) value } := if_pos hcount

lemma finished_addFinished (hcount : g.finishedCount < g.inFlightCapacity) (value : ℕ) :
    (g.addFinished value).finished = g.finished ++ [value] := by
  rw [addFinished_eq hcount, finished, range_succ, map_append]
  congr 1
  · refine map_congr_left fun k hk => Function.update_of_ne ?_ _ _
    have hlt := mem_range.mp hk
    -- Two places of the ring that are less than a round apart are different.
    intro heq
    have hmod : k % g.inFlightCapacity = g.finishedCount % g.inFlightCapacity :=
      Nat.ModEq.add_left_cancel' g.firstFinishedIndex heq
    rw [mod_eq_of_lt hcount, mod_eq_of_lt (hlt.trans hcount)] at hmod
    exact Nat.ne_of_lt hlt hmod
  · exact congrArg (fun v => [v]) (Function.update_self _ _ _)

end MirrorBuddyGroup

end Beegfs
