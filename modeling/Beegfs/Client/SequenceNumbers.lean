import Beegfs.Lib.Run
import Beegfs.Client.MirrorBuddyGroup

/-!
# The sequence numbers of a client over whole runs

A history is a group together with the numbers that its callers have, the numbers that were released
and the acknowledgements that were handed out.  `SequenceHistory.safe_iff_keepsOrder` says that in
every run the numbers in flight are a heap and all acknowledgements are safe if and only if no
release breaks the order of the heap.
-/

namespace Beegfs

open MirrorBuddyGroup SeqNoHeap List Nat

/-- A call of a client. -/
inductive SequenceCall (H : Type) where
  | acquire (handle : H) (allowWait : Bool)
  | release (handle : H)
deriving DecidableEq

/-- A group, the numbers that its callers have, the numbers released so far, and the
acknowledgements that were handed out: of all numbers up to one, or selective ones. -/
structure SequenceHistory (H : Type) where
  group : MirrorBuddyGroup H
  held : List (BuddySequenceNumber H)
  released : List ℕ
  acknowledged : List ℕ
  selective : List ℕ

namespace SequenceHistory

variable {H : Type} [DecidableEq H]

/-- The history before the first call. -/
def start (g : MirrorBuddyGroup H) : SequenceHistory H := ⟨g, [], [], [], []⟩

variable (t : SequenceHistory H)

/-- The history after a call. -/
def step : SequenceCall H → SequenceHistory H
  | .acquire handle allowWait =>
    let (result, group) := t.group.acquireSequenceNumber handle allowWait
    match result with
    | .ok seqNo acknowledgeSeq isSelective =>
      { group
        held := ⟨handle, seqNo⟩ :: t.held
        released := t.released
        acknowledged := if isSelective then t.acknowledged else t.acknowledged ++ [acknowledgeSeq]
        selective := if isSelective then t.selective ++ [acknowledgeSeq] else t.selective }
    | .noEntry | .again | .interrupted => { t with group }
  | .release handle =>
    { t with
      group := t.group.releaseSequenceNumber handle
      held := t.held.filter fun e => e.pSelf ≠ handle
      released := t.released ++ (t.held.filter fun e => e.pSelf = handle).map (·.value) }

/-- A handle is used for one number at a time, and released by its owner. -/
def MayCall : SequenceCall H → Prop
  | .acquire handle _ => ∀ e ∈ t.held, e.pSelf ≠ handle
  | .release handle => ∃ e ∈ t.held, e.pSelf = handle

/-- The call does not draw a number that does not fit into 64 bits. -/
def NoOverflow : SequenceCall H → Prop
  | .acquire _ _ => t.group.sequence + 1 < 2 ^ 64
  | .release _ => True

/-- A release keeps the heap in order. -/
def CallKeepsOrder : SequenceCall H → Prop
  | .acquire _ _ => True
  | .release handle => ∀ slot ∈ t.group.handles handle, t.group.KeepsOrder slot

instance (t : SequenceHistory H) : (call : SequenceCall H) → Decidable (t.MayCall call)
  | .acquire handle _ => inferInstanceAs (Decidable (∀ e ∈ t.held, e.pSelf ≠ handle))
  | .release handle => inferInstanceAs (Decidable (∃ e ∈ t.held, e.pSelf = handle))

instance (t : SequenceHistory H) : (call : SequenceCall H) → Decidable (t.NoOverflow call)
  | .acquire _ _ => inferInstanceAs (Decidable (_ < _))
  | .release _ => isTrue trivial

instance (t : SequenceHistory H) : (call : SequenceCall H) → Decidable (t.CallKeepsOrder call)
  | .acquire _ _ => isTrue trivial
  | .release handle =>
    inferInstanceAs (Decidable (∀ slot ∈ t.group.handles handle, t.group.KeepsOrder slot))

/-- The numbers in flight are a heap whose entries and handles point to each other, there is room
for all numbers, and the acknowledgements are safe. -/
structure Safe (n : ℕ) (t : SequenceHistory H) : Prop where
  heap : IsMinHeap t.group.values t.group.inFlightSize
  linked : ∀ i < t.group.inFlightSize, t.group.seqNoInFlight i ∈ t.held ∧
    t.group.handles (t.group.seqNoInFlight i).pSelf = some i
  room : t.group.inFlightSize + t.group.finishedCount ≤ n
  below : ∀ a ∈ t.acknowledged, ∀ e ∈ t.held, a < e.value
  fromReleased : ∀ a ∈ t.selective, a ∈ t.released
  once : t.selective.Nodup

/-! ## The invariant -/

/-- The lists of a history agree with the group. -/
structure Agrees (n : ℕ) (t : SequenceHistory H) : Prop where
  capacity : t.group.inFlightCapacity = n
  slots : t.group.slotsAvail + t.group.inFlightSize = n
  first : t.group.firstFinishedIndex < n
  sequence : 0 < t.group.sequence
  entries : (t.group.entries t.group.inFlightSize).Perm t.held
  linked : t.group.Linked t.group.inFlightSize
  drawn : ∀ a ∈ t.held.map (·.value) ++ t.released, 0 < a ∧ a ≤ t.group.sequence
  distinct : (t.held.map (·.value) ++ t.released).Nodup
  finished : t.released = t.selective ++ t.group.finished
  acknowledged : ∀ a ∈ t.acknowledged, a ≤ t.group.sequence

/-- What holds in every run, even if the heap is out of order. -/
structure Inv (n : ℕ) (t : SequenceHistory H) : Prop extends Agrees n t where
  room : t.group.inFlightSize + t.group.finishedCount ≤ n

variable {n : ℕ} {t : SequenceHistory H} {handle : H}

section

omit [DecidableEq H]

lemma Agrees.le_sequence (h : t.Agrees n) {e : BuddySequenceNumber H} (he : e ∈ t.held) :
    0 < e.value ∧ e.value ≤ t.group.sequence :=
  h.drawn _ (mem_append_left _ (mem_map_of_mem he))

lemma Inv.safe_iff (h : t.Inv n) : t.Safe n ↔ IsMinHeap t.group.values t.group.inFlightSize ∧
    ∀ a ∈ t.acknowledged, ∀ e ∈ t.held, a < e.value := by
  constructor
  · intro hsafe
    exact ⟨hsafe.heap, hsafe.below⟩
  · rintro ⟨hheap, hbelow⟩
    have hrel : t.released.Nodup := (nodup_append.mp h.distinct).2.1
    refine ⟨hheap, fun i hi => ⟨?_, h.linked i hi⟩, h.room, hbelow, fun a ha => ?_, ?_⟩
    · exact h.entries.mem_iff.mp (mem_entries.mpr ⟨i, hi, rfl⟩)
    · rw [h.finished]
      exact mem_append_left _ ha
    · rw [h.finished] at hrel
      exact (nodup_append.mp hrel).1

/-- The handle of an owner points to its entry. -/
lemma Agrees.exists_slot (h : t.Agrees n) (howner : ∃ e ∈ t.held, e.pSelf = handle) :
    ∃ slot < t.group.inFlightSize, t.group.handles handle = some slot ∧
      (t.group.seqNoInFlight slot).pSelf = handle := by
  obtain ⟨e, he, rfl⟩ := howner
  obtain ⟨slot, hslot, rfl⟩ := mem_entries.mp (h.entries.mem_iff.mpr he)
  exact ⟨slot, hslot, h.linked slot hslot, rfl⟩

/-- The first history of a group whose base is set. -/
lemma inv_start {n base : ℕ} (hbase : 0 < base) {seqNoInFlight : ℕ → BuddySequenceNumber H}
    {finishedSeqNums : ℕ → ℕ} {handles : H → Option ℕ} {g : MirrorBuddyGroup H}
    (hg : construct n seqNoInFlight finishedSeqNums handles = some g) :
    (start (g.setSeqNoBase base)).Inv n ∧ (start (g.setSeqNoBase base)).Safe n := by
  have hn : n ≠ 0 := by
    rintro rfl
    cases hg
  rw [construct, if_neg hn] at hg
  rw [← Option.some.inj hg, setSeqNoBase, if_pos hbase]
  have hinv : (start { (⟨⟨seqNoInFlight, 0, handles⟩, 0, n, n, finishedSeqNums, 0, 0⟩ :
      MirrorBuddyGroup H) with sequence := base }).Inv n :=
    { capacity := rfl
      slots := rfl
      first := Nat.pos_of_ne_zero hn
      sequence := hbase
      entries := List.Perm.nil
      linked := nofun
      drawn := nofun
      distinct := nodup_nil
      finished := rfl
      acknowledged := nofun
      room := zero_le n }
  exact ⟨hinv, hinv.safe_iff.mpr ⟨nofun, nofun⟩⟩

/-! ## Acknowledging numbers -/

/-- The history after a number was acknowledged selectively. -/
def acknowledgeFinished : SequenceHistory H :=
  { t with
    group := t.group.takeFinished
    selective := t.selective ++ [t.group.finishedSeqNums t.group.firstFinishedIndex] }

/-- The history after all numbers below the root of the heap were acknowledged. -/
def acknowledgeBelow : SequenceHistory H :=
  { t with acknowledged := t.acknowledged ++ [((t.group.values 0) + 2 ^ 64 - 1) % 2 ^ 64] }

lemma Agrees.acknowledgeFinished (h : t.Agrees n) (hcount : 0 < t.group.finishedCount) :
    t.acknowledgeFinished.Agrees n := by
  have hfirst : t.group.firstFinishedIndex < t.group.inFlightCapacity := by
    rw [h.capacity]
    exact h.first
  have hn : 0 < n := lt_of_le_of_lt (zero_le _) h.first
  refine { h with first := ?_, finished := ?_ }
  · change (t.group.firstFinishedIndex + 1) % t.group.inFlightCapacity < n
    rw [h.capacity]
    exact mod_lt _ hn
  · change t.released = (t.selective ++ [_]) ++ t.group.takeFinished.finished
    rw [append_assoc, h.finished, finished_takeFinished hcount hfirst]
    rfl

lemma Agrees.root (h : t.Agrees n) (hsize : 0 < t.group.inFlightSize) :
    0 < t.group.values 0 ∧ t.group.values 0 ≤ t.group.sequence :=
  h.le_sequence (h.entries.mem_iff.mp (mem_entries.mpr ⟨0, hsize, rfl⟩))

/-- The acknowledgement of what is below the root. -/
lemma acknowledgeBelow_eq {v : ℕ} (hpos : 0 < v) (hlt : v < 2 ^ 64) :
    (v + 2 ^ 64 - 1) % 2 ^ 64 = v - 1 := by
  omega

lemma Agrees.acknowledgeBelow (h : t.Agrees n) (hsize : 0 < t.group.inFlightSize)
    (hseq : t.group.sequence < 2 ^ 64) : t.acknowledgeBelow.Agrees n := by
  refine { h with acknowledged := fun a ha => ?_ }
  rcases mem_append.mp ha with ha | ha
  · exact h.acknowledged a ha
  · have hroot := h.root hsize
    rw [mem_singleton.mp ha, acknowledgeBelow_eq hroot.1 (hroot.2.trans_lt hseq)]
    exact (sub_le ..).trans hroot.2

end

/-! ## Drawing a number -/

/-- The history after a number was drawn, before its acknowledgement is chosen. -/
def draw (handle : H) : SequenceHistory H :=
  { t with
    group := t.group.draw handle
    held := ⟨handle, t.group.sequence + 1⟩ :: t.held }

lemma Agrees.draw (h : t.Agrees n) (hslots : t.group.slotsAvail ≠ 0)
    (hoverflow : t.group.sequence + 1 < 2 ^ 64) (hfree : ∀ e ∈ t.held, e.pSelf ≠ handle) :
    (t.draw handle).Agrees n := by
  have hseqNo : (t.group.sequence + 1) % 2 ^ 64 = t.group.sequence + 1 := mod_eq_of_lt hoverflow
  have hgroup : (t.draw handle).group.toSeqNoHeap =
      t.group.append handle (t.group.sequence + 1) := by
    change t.group.append handle ((t.group.sequence + 1) % 2 ^ 64) = _
    rw [hseqNo]
  have hnums : (t.draw handle).held.map (·.value) ++ (t.draw handle).released =
      (t.group.sequence + 1) :: (t.held.map (·.value) ++ t.released) := rfl
  have hsequence : (t.draw handle).group.sequence = t.group.sequence + 1 := hseqNo
  refine ⟨h.capacity, ?_, h.first, ?_, ?_, ?_, ?_, ?_, h.finished, ?_⟩
  · have hsize := h.slots
    change t.group.slotsAvail - 1 + (t.group.inFlightSize + 1) = n
    omega
  · rw [hsequence]
    exact succ_pos _
  · rw [hgroup]
    change ((t.group.append handle (t.group.sequence + 1)).entries
      (t.group.inFlightSize + 1)).Perm _
    rw [append_entries]
    exact (perm_append_singleton _ _).trans (h.entries.cons _)
  · rw [hgroup]
    intro i hi
    rcases Nat.lt_succ_iff_lt_or_eq.mp hi with hlt | rfl
    · rw [append_seqNoInFlight hlt]
      have hne := hfree _ (h.entries.mem_iff.mp (mem_entries.mpr ⟨i, hlt, rfl⟩))
      exact (Function.update_of_ne hne _ _).trans (h.linked i hlt)
    · rw [append_last]
      exact Function.update_self _ _ _
  · rw [hsequence]
    intro a ha
    rcases mem_cons.mp ha with rfl | ha
    · exact ⟨succ_pos _, le_rfl⟩
    · exact ⟨(h.drawn a ha).1, le_succ_of_le (h.drawn a ha).2⟩
  · rw [hnums, nodup_cons]
    exact ⟨fun hmem => not_succ_le_self _ (h.drawn _ hmem).2, h.distinct⟩
  · rw [hsequence]
    intro a ha
    exact le_succ_of_le (h.acknowledged a ha)

lemma step_acquire (allowWait : Bool) (hslots : t.group.slotsAvail ≠ 0)
    (hseq : 0 < t.group.sequence) (hoverflow : t.group.sequence + 1 < 2 ^ 64) :
    t.step (.acquire handle allowWait) =
      if 0 < t.group.finishedCount then (t.draw handle).acknowledgeFinished
      else (t.draw handle).acknowledgeBelow := by
  have hseqNo : (t.group.draw handle).sequence = t.group.sequence + 1 := mod_eq_of_lt hoverflow
  have hcount : (t.group.draw handle).finishedCount = t.group.finishedCount := rfl
  rw [step, acquireSequenceNumber, if_neg hslots, if_neg hseq.ne']
  split_ifs with hpos
  · simp only [hcount, if_pos hpos, hseqNo]
    rfl
  · simp only [hcount, if_neg hpos, hseqNo]
    rfl

/-- The number that is drawn is the greatest one. -/
lemma Safe.draw (hsafe : t.Safe n) (h : t.Inv n) (hoverflow : t.group.sequence + 1 < 2 ^ 64) :
    IsMinHeap (t.draw handle).group.values (t.draw handle).group.inFlightSize ∧
      ∀ a ∈ t.acknowledged, ∀ e ∈ (t.draw handle).held, a < e.value := by
  constructor
  · change IsMinHeap (t.group.append handle ((t.group.sequence + 1) % 2 ^ 64)).values _
    rw [mod_eq_of_lt hoverflow]
    have hvals : ∀ i < t.group.inFlightSize,
        (t.group.append handle (t.group.sequence + 1)).values i = t.group.values i := fun i hi =>
      congrArg BuddySequenceNumber.value (append_seqNoInFlight hi)
    have hlast : (t.group.append handle (t.group.sequence + 1)).values t.group.inFlightSize =
        t.group.sequence + 1 := congrArg BuddySequenceNumber.value (append_last handle _)
    refine (isMinHeap_succ_iff fun i hi => ?_).mpr ((isMinHeap_congr hvals).mpr hsafe.heap)
    rw [hvals i hi, hlast]
    exact le_succ_of_le (h.le_sequence (h.entries.mem_iff.mp (mem_entries.mpr ⟨i, hi, rfl⟩))).2
  · intro a ha e he
    rcases mem_cons.mp he with rfl | he
    · exact lt_succ_of_le (h.acknowledged a ha)
    · exact hsafe.below a ha e he

/-- An acquire keeps the invariant, and hands out a safe acknowledgement if the history is safe. -/
lemma Inv.acquire (h : t.Inv n) (hfree : ∀ e ∈ t.held, e.pSelf ≠ handle)
    (hoverflow : t.group.sequence + 1 < 2 ^ 64) (allowWait : Bool) :
    (t.step (.acquire handle allowWait)).Inv n ∧
      (t.Safe n → (t.step (.acquire handle allowWait)).Safe n) := by
  by_cases hslots : t.group.slotsAvail = 0
  · rw [step, acquireSequenceNumber, if_pos hslots]
    cases allowWait <;> exact ⟨h, id⟩
  · have hdraw : (t.draw handle).Agrees n := h.toAgrees.draw hslots hoverflow hfree
    have hseqNo : (t.draw handle).group.sequence < 2 ^ 64 := lt_of_le_of_lt (mod_le ..) hoverflow
    have hsize := h.slots
    have hroom := h.room
    rw [step_acquire allowWait hslots h.sequence hoverflow]
    split_ifs with hcount
    · have hinv : (t.draw handle).acknowledgeFinished.Inv n := by
        refine ⟨hdraw.acknowledgeFinished hcount, ?_⟩
        change t.group.inFlightSize + 1 + (t.group.finishedCount - 1) ≤ n
        omega
      exact ⟨hinv, fun hsafe => hinv.safe_iff.mpr (hsafe.draw h hoverflow)⟩
    · have hinv : (t.draw handle).acknowledgeBelow.Inv n := by
        refine ⟨hdraw.acknowledgeBelow (succ_pos _) hseqNo, ?_⟩
        change t.group.inFlightSize + 1 + t.group.finishedCount ≤ n
        omega
      refine ⟨hinv, fun hsafe => hinv.safe_iff.mpr ?_⟩
      obtain ⟨hheap, hbelow⟩ := hsafe.draw h hoverflow
      refine ⟨hheap, fun a ha e he => ?_⟩
      rcases mem_append.mp ha with ha | ha
      · exact hbelow a ha e he
      · -- The root is not greater than any number in flight.
        obtain ⟨i, hi, rfl⟩ := mem_entries.mp (hdraw.entries.mem_iff.mpr he)
        have hle := hheap.root_le hi
        have hroot := hdraw.root (succ_pos _)
        rw [mem_singleton.mp ha, acknowledgeBelow_eq hroot.1 (hroot.2.trans_lt hseqNo)]
        exact lt_of_lt_of_le (sub_lt hroot.1 Nat.one_pos) hle

/-! ## Releasing a number -/

/-- The history after the entry at `slot` was removed. -/
def removeAt (slot : ℕ) : SequenceHistory H :=
  let entry := t.group.seqNoInFlight slot
  { t with
    group := { t.group.addFinished entry.value with
      toSeqNoHeap := t.group.removeAt slot
      slotsAvail := t.group.slotsAvail + 1 }
    held := t.held.filter fun e => e.pSelf ≠ entry.pSelf
    released := t.released ++ [entry.value] }

section Release

variable {slot : ℕ} (h : t.Inv n) (hslot : slot < t.group.inFlightSize)

include h hslot

/-- The owner has one number, and the others keep theirs. -/
lemma Inv.held_perm : (t.group.seqNoInFlight slot :: (t.removeAt slot).held).Perm t.held ∧
    ((t.group.removeAt slot).entries (t.group.removeAt slot).inFlightSize).Perm
      (t.removeAt slot).held ∧
    t.held.filter (fun e => e.pSelf = (t.group.seqNoInFlight slot).pSelf) =
      [t.group.seqNoInFlight slot] := by
  obtain ⟨m, hm⟩ := exists_eq_add_one_of_ne_zero (Nat.ne_zero_of_lt hslot)
  obtain ⟨hsize, hperm⟩ := removeAt_entries hm hslot
  rw [← hm] at hperm
  have hheld := hperm.trans h.entries
  have howners := h.linked.nodup_owners
  rw [(hperm.map BuddySequenceNumber.pSelf).symm.nodup_iff, map_cons, nodup_cons] at howners
  have hother : ∀ e ∈ (t.group.removeAt slot).entries m,
      e.pSelf ≠ (t.group.seqNoInFlight slot).pSelf := fun e he heq =>
    howners.1 (heq ▸ mem_map_of_mem he)
  have hkept := hheld.filter fun e => e.pSelf ≠ (t.group.seqNoInFlight slot).pSelf
  rw [filter_cons_of_neg (by simp), filter_eq_self.mpr fun e he => by
    simpa using hother e he] at hkept
  have hown := hheld.filter fun e => e.pSelf = (t.group.seqNoInFlight slot).pSelf
  rw [filter_cons_of_pos (by simp), filter_eq_nil_iff.mpr fun e he => by
    simpa using hother e he] at hown
  rw [hsize]
  exact ⟨(hkept.symm.cons _).trans hheld, hkept, perm_singleton.mp hown.symm⟩

omit [DecidableEq H] in
lemma Inv.finishedCount_lt : t.group.finishedCount < t.group.inFlightCapacity := by
  have hroom := h.room
  rw [h.capacity]
  omega

open SequenceHistory

/-- A release removes the entry of the handle. -/
lemma Inv.step_release : t.step (.release (t.group.seqNoInFlight slot).pSelf) =
    t.removeAt slot := by
  have hpoints := h.linked slot hslot
  rw [step, (h.held_perm hslot).2.2, releaseSequenceNumber, hpoints]
  simp only [addFinished_eq (h.finishedCount_lt hslot)]
  rw [removeAt, addFinished_eq (h.finishedCount_lt hslot)]
  rfl

/-- A release keeps the invariant. -/
lemma Inv.removeAt : (t.removeAt slot).Inv n := by
  obtain ⟨m, hm⟩ := exists_eq_add_one_of_ne_zero (Nat.ne_zero_of_lt hslot)
  have hsize : (t.group.removeAt slot).inFlightSize = m := (removeAt_entries hm hslot).1
  have hslots := h.slots
  have hroom := h.room
  have hlink := h.linked
  rw [hm] at hslots hroom hlink
  -- The number moves from those that are held to those that were released.
  have hnums : ((t.removeAt slot).held.map (·.value) ++ (t.removeAt slot).released).Perm
      (t.held.map (·.value) ++ t.released) := by
    refine List.Perm.trans ?_ (((h.held_perm hslot).1.map (·.value)).append_right t.released)
    change (_ ++ (t.released ++ [(t.group.seqNoInFlight slot).value])).Perm _
    rw [← append_assoc]
    exact perm_append_singleton _ _
  have hfin := finished_addFinished (h.finishedCount_lt hslot) (t.group.seqNoInFlight slot).value
  rw [SequenceHistory.removeAt]
  rw [addFinished_eq (h.finishedCount_lt hslot)] at hfin ⊢
  refine { h with
    slots := ?_
    entries := (h.held_perm hslot).2.1
    linked := ?_
    drawn := fun a ha => h.drawn a (hnums.mem_iff.mp ha)
    distinct := hnums.nodup_iff.mpr h.distinct
    finished := ?_
    room := ?_ }
  · change t.group.slotsAvail + 1 + (t.group.removeAt slot).inFlightSize = n
    omega
  · rw [hsize]
    exact removeAt_linked hm hslot hlink
  · rw [h.finished, append_assoc]
    exact congrArg (t.selective ++ ·) hfin.symm
  · change (t.group.removeAt slot).inFlightSize + (t.group.finishedCount + 1) ≤ n
    omega

/-- A release leaves a heap exactly if it keeps the order. -/
lemma Inv.removeAt_safe_iff (hsafe : t.Safe n) :
    (t.removeAt slot).Safe n ↔ t.group.KeepsOrder slot := by
  obtain ⟨m, hm⟩ := exists_eq_add_one_of_ne_zero (Nat.ne_zero_of_lt hslot)
  have hsize : (t.group.removeAt slot).inFlightSize = m := (removeAt_entries hm hslot).1
  have hheap : IsMinHeap (t.removeAt slot).group.values (t.removeAt slot).group.inFlightSize ↔
      t.group.KeepsOrder slot := by
    change IsMinHeap (t.group.removeAt slot).values (t.group.removeAt slot).inFlightSize ↔ _
    rw [hsize]
    -- nothing that is moved on the way of the entry to the root may break the order
    obtain ⟨_, rfl, heq, -, -, hvals⟩ := removeAt_steps hm hslot
    rw [heq, isMinHeap_moveDown_iff (Nat.le_add_left ..), heapExcept_zero_iff, KeepsOrder, hm]
    refine forall₂_congr fun c hc => forall₂_congr fun i hi => forall₂_congr fun hpos _ => ?_
    rw [hvals i hpos (hi.trans hc), hvals c (hpos.trans hi) hc]
  rw [(h.removeAt hslot).safe_iff, hheap]
  refine and_iff_left fun a ha e he => hsafe.below a ha e ?_
  exact (mem_filter.mp he).1

end Release

/-! ## Runs -/

/-- A call keeps the invariant. -/
lemma Inv.step (h : t.Inv n) {call : SequenceCall H} (hmay : t.MayCall call)
    (hoverflow : t.NoOverflow call) : (t.step call).Inv n := by
  cases call with
  | acquire handle allowWait => exact (h.acquire hmay hoverflow allowWait).1
  | release handle =>
    obtain ⟨_, hslot, -, rfl⟩ := h.exists_slot hmay
    rw [h.step_release hslot]
    exact h.removeAt hslot

/-- A call keeps a safe history safe exactly if it keeps the order of the heap. -/
lemma Inv.step_safe_iff (h : t.Inv n) (hsafe : t.Safe n) {call : SequenceCall H}
    (hmay : t.MayCall call) (hoverflow : t.NoOverflow call) :
    (t.step call).Safe n ↔ t.CallKeepsOrder call := by
  cases call with
  | acquire handle allowWait =>
    exact iff_of_true ((h.acquire hmay hoverflow allowWait).2 hsafe) trivial
  | release handle =>
    obtain ⟨_, hslot, hpoints, rfl⟩ := h.exists_slot hmay
    rw [h.step_release hslot, h.removeAt_safe_iff hslot hsafe, CallKeepsOrder, hpoints]
    simp

/-- In every run of calls by owners that do not draw more numbers than there are, the numbers in
flight are a heap with links to its owners, and the acknowledgements are safe, in every state if and
only if every release keeps the order of the heap. -/
theorem safe_iff_keepsOrder {n base : ℕ} (hbase : 0 < base)
    {seqNoInFlight : ℕ → BuddySequenceNumber H} {finishedSeqNums : ℕ → ℕ} {handles : H → Option ℕ}
    {g : MirrorBuddyGroup H} (hg : construct n seqNoInFlight finishedSeqNums handles = some g)
    {calls : List (SequenceCall H)}
    (hmay : EveryStep step MayCall (start (g.setSeqNoBase base)) calls)
    (hoverflow : EveryStep step NoOverflow (start (g.setSeqNoBase base)) calls) :
    EveryState step (Safe n) (start (g.setSeqNoBase base)) calls ↔
      EveryStep step CallKeepsOrder (start (g.setSeqNoBase base)) calls :=
  everyState_iff_of_everyStep (I := Inv n) (D := fun t call => t.MayCall call ∧ t.NoOverflow call)
    (fun _ _ hcall hinv => hinv.step hcall.1 hcall.2)
    (fun _ _ hcall hinv hsafe => hinv.step_safe_iff hsafe hcall.1 hcall.2)
    (inv_start hbase hg).1 (inv_start hbase hg).2 (hmay.and hoverflow)

/-- A number is released before an older one, and drawn again. -/
theorem safe_releaseNewer :
    let g : MirrorBuddyGroup ℕ := ⟨⟨fun _ => ⟨0, 0⟩, 0, fun _ => none⟩, 0, 2, 2, fun _ => 0, 0, 0⟩
    EveryState step (Safe 2) (start (g.setSeqNoBase 1))
      [.acquire 0 false, .acquire 1 false, .acquire 2 false, .release 1, .acquire 2 true,
        .release 0] :=
  (safe_iff_keepsOrder Nat.one_pos rfl (by decide +kernel) (by decide +kernel)).mpr
    (by decide +kernel)

/-- With eight requests in flight, number 4 and all numbers below it are acknowledged while number 3
is in flight: releases of the handles 2 and 6 leave a heap in which number 3 is not above greater
numbers. -/
theorem acknowledged_in_flight :
    let g : MirrorBuddyGroup ℕ := ⟨⟨fun _ => ⟨0, 0⟩, 0, fun _ => none⟩, 0, 8, 8, fun _ => 0, 0, 0⟩
    let t := start (g.setSeqNoBase 1)
    let calls : List (SequenceCall ℕ) := [.acquire 0 true, .acquire 1 true, .acquire 2 true,
      .acquire 3 true, .release 2, .acquire 4 true, .acquire 5 true, .acquire 6 true,
      .acquire 7 true, .release 6, .acquire 8 true, .release 0, .acquire 9 true, .acquire 10 true]
    construct 8 (fun _ => ⟨0, 0⟩) (fun _ => 0) (fun _ => none) = some g ∧
      EveryStep step MayCall t calls ∧ EveryStep step NoOverflow t calls ∧
      4 ∈ (runFrom step t calls).acknowledged ∧ ⟨1, 3⟩ ∈ (runFrom step t calls).held :=
  ⟨rfl, by decide +kernel, by decide +kernel, by decide +kernel, by decide +kernel⟩

/-- A run from a safe state stays safe, whatever the capacity is, if no more than six numbers are
ever in flight. -/
theorem safe_of_size_le_six (hinv : t.Inv n) (hsafe : t.Safe n) {calls : List (SequenceCall H)}
    (hcalls : EveryStep step
      (fun t call => t.MayCall call ∧ t.NoOverflow call ∧ t.group.inFlightSize ≤ 6) t calls) :
    EveryState step (Safe n) t calls := by
  refine everyState_of_everyStep (I := fun t => t.Inv n ∧ t.Safe n) ?_ (fun _ h => h.2)
    ⟨hinv, hsafe⟩ hcalls
  rintro t call ⟨hmay, hoverflow, hsix⟩ ⟨hinv, hsafe⟩
  refine ⟨hinv.step hmay hoverflow, (hinv.step_safe_iff hsafe hmay hoverflow).mpr ?_⟩
  cases call with
  | acquire => trivial
  | release =>
    obtain ⟨_, hslot, hpoints, rfl⟩ := hinv.exists_slot hmay
    intro slot hmem
    obtain rfl := Option.some.inj (hpoints.symm.trans hmem)
    exact keepsOrder_of_size_le hsafe.heap hslot hsix

theorem safe_releaseOlder :
    let g : MirrorBuddyGroup ℕ := ⟨⟨fun _ => ⟨0, 0⟩, 0, fun _ => none⟩, 0, 8, 8, fun _ => 0, 0, 0⟩
    EveryState step (Safe 8) (start (g.setSeqNoBase 1))
      [.acquire 0 true, .acquire 1 true, .release 0] :=
  have h := inv_start Nat.one_pos rfl
  safe_of_size_le_six h.1 h.2 (by decide +kernel)

end SequenceHistory

end Beegfs
