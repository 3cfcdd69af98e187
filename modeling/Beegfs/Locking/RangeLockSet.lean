import Beegfs.Locking.LockDetails

/-!
# Sets of granted range locks

`exclRangeFLocks` and `sharedRangeFLocks` hold the granted range locks.  The loops that grant,
release and look up a range are the same for both, up to the order in which the set is kept: the
exclusive locks are ordered by their start alone, so that a loop stops at the first lock behind the
range in question.  `RangeComparator` collects what the loops and their proofs need of the order.

A set keeps a record of the locks that an insert refused because the comparator found an equal one:
these are locks that were granted and then dropped without notice.

The loops are specified by the bytes that a handle holds, `RangeLockSet.Held`, under the normal form
`RangeLockSet.NormalForm`, which they restore.  This file has the loops and the normal form; the
proofs about the loops follow in `RangeLockLoops`.
-/

namespace Beegfs

open RangeLockDetails

/-! ## Ranges -/

namespace RangeLockDetails

variable {a b d l : RangeLockDetails} {x : ℕ}

/-- The ranges that clients send. -/
def WF (d : RangeLockDetails) : Prop := d.start ≤ d.endPos ∧ d.endPos < 2 ^ 63
  deriving Decidable

/-- The bytes of the range. -/
def bytes (d : RangeLockDetails) : Set ℕ := Set.Icc d.start d.endPos

/-- The ranges have a common byte. -/
def Overlaps (a b : RangeLockDetails) : Prop :=
  Interval.Overlap a.start a.endPos b.start b.endPos
  deriving Decidable

/-- The ranges overlap or one continues the other. -/
def Touches (a b : RangeLockDetails) : Prop :=
  Interval.Touch a.start a.endPos b.start b.endPos
  deriving Decidable

instance (d : RangeLockDetails) (x : ℕ) : Decidable (x ∈ d.bytes) :=
  inferInstanceAs (Decidable (d.start ≤ x ∧ x ≤ d.endPos))

lemma mem_bytes : x ∈ d.bytes ↔ d.start ≤ x ∧ x ≤ d.endPos := Iff.rfl

lemma overlaps_def : a.Overlaps b ↔ b.start ≤ a.endPos ∧ a.start ≤ b.endPos := Iff.rfl

lemma touches_def : a.Touches b ↔ b.start ≤ a.endPos + 1 ∧ a.start ≤ b.endPos + 1 := Iff.rfl

lemma Overlaps.symm (h : a.Overlaps b) : b.Overlaps a := Interval.Overlap.symm h

lemma Touches.symm (h : a.Touches b) : b.Touches a := Interval.Touch.symm h

lemma Overlaps.touches (h : a.Overlaps b) : a.Touches b := Interval.Overlap.touch h

lemma overlaps_iff_exists (ha : a.WF) (hb : b.WF) : a.Overlaps b ↔ ∃ x, x ∈ a.bytes ∧ x ∈ b.bytes :=
  Interval.overlap_iff_exists ha.1 hb.1

lemma overlaps_of_mem (ha : x ∈ a.bytes) (hb : x ∈ b.bytes) : a.Overlaps b :=
  ⟨hb.1.trans ha.2, ha.1.trans hb.2⟩

lemma overlaps_of_start_eq (ha : a.WF) (hb : b.WF) (h : a.start = b.start) : a.Overlaps b :=
  overlaps_def.mpr ⟨h ▸ ha.1, h ▸ hb.1⟩

/-- A part of `b` overlaps only what `b` overlaps. -/
lemma Overlaps.mono (h : a.Overlaps d) (hs : b.start ≤ d.start) (he : d.endPos ≤ b.endPos) :
    a.Overlaps b := by
  rw [overlaps_def] at *
  omega

lemma Touches.mono (h : a.Touches d) (hs : b.start ≤ d.start) (he : d.endPos ≤ b.endPos) :
    a.Touches b := by
  rw [touches_def] at *
  omega

lemma overlaps_eq_true_iff : a.overlaps b = true ↔ a.Overlaps b := by
  simp only [overlaps, overlaps_def, Bool.not_eq_true', Bool.or_eq_false_iff,
    decide_eq_false_iff_not]
  omega

/-- The check for a conflict with the lock of another owner. -/
lemma conflict_eq_true_iff :
    (d.overlaps l && !d.equalsHandle l) = true ↔ l.handle ≠ d.handle ∧ d.Overlaps l := by
  rw [Bool.and_eq_true, overlaps_eq_true_iff, Bool.not_eq_true', equalsHandle_eq_false_iff, ne_comm,
    and_comm]

lemma wrap64_of_lt (h : x < 2 ^ 64) : wrap64 x = x := Nat.mod_eq_of_lt h

lemma isMergeable_eq_true_iff (ha : a.WF) (hb : b.WF) : a.isMergeable b = true ↔ a.Touches b := by
  have ha' := ha.2
  have hb' := hb.2
  rw [isMergeable, wrap64_of_lt (by omega), wrap64_of_lt (by omega), touches_def,
    Bool.not_eq_true', Bool.or_eq_false_iff, decide_eq_false_iff_not, decide_eq_false_iff_not]
  omega

/-- What `overlapsEx` tells about an overlap. -/
lemma overlapsEx_spec (d l : RangeLockDetails) : match d.overlapsEx l with
    | .none => ¬ d.Overlaps l
    | .equals => l.start = d.start ∧ l.endPos = d.endPos
    | .contains => d.Overlaps l ∧ d.start ≤ l.start ∧ l.endPos ≤ d.endPos ∧
        (d.start < l.start ∨ l.endPos < d.endPos)
    | .isContained => d.Overlaps l ∧ l.start ≤ d.start ∧ d.endPos ≤ l.endPos ∧
        (l.start < d.start ∨ d.endPos < l.endPos)
    | .startOverlap => d.start < l.start ∧ l.start ≤ d.endPos ∧ d.endPos < l.endPos
    | .endOverlap => l.start < d.start ∧ d.start ≤ l.endPos ∧ l.endPos < d.endPos := by
  unfold overlapsEx
  simp only [overlaps_def, Bool.or_eq_true, Bool.and_eq_true, decide_eq_true_eq]
  split_ifs with h1 h2 h3 h4 h5 <;> simp only <;> omega

lemma wrap64_pred (hx : 0 < x) (hlt : x < 2 ^ 63) : wrap64 (x + 2 ^ 64 - 1) = x - 1 := by
  have heq : x + 2 ^ 64 - 1 = (x - 1) + 2 ^ 64 := by omega
  rw [wrap64, heq, Nat.add_mod_right, Nat.mod_eq_of_lt (by omega)]

lemma split_eq (hd : d.WF) (hs : 0 < d.start) :
    l.split d = ({ l with endPos := d.start - 1 }, { l with start := d.endPos + 1 }) := by
  have hd1 := hd.1
  have hd2 := hd.2
  rw [split, wrap64_pred hs (by omega), wrap64_of_lt (by omega)]

lemma WF.merge (ha : a.WF) (hb : b.WF) : (a.merge b).WF := by
  obtain ⟨_, _⟩ := ha
  obtain ⟨_, _⟩ := hb
  refine ⟨?_, ?_⟩
  · change min a.start b.start ≤ max a.endPos b.endPos
    omega
  · change max a.endPos b.endPos < 2 ^ 63
    omega

/-- Merging with a range that touches gives the union. -/
lemma mem_bytes_merge (h : a.Touches b) : x ∈ (a.merge b).bytes ↔ x ∈ a.bytes ∨ x ∈ b.bytes :=
  Interval.mem_hull_iff h

end RangeLockDetails

/-! ## The sets and their loops -/

/-- The order of a set of range locks: what the set tells apart, and whether it is by start
alone. -/
class RangeComparator (lt : RangeLockDetails → RangeLockDetails → Bool) extends
    IsComparator lt where
  /-- Locks of these handles are told apart by their start only. -/
  competes : RangeHandle → RangeHandle → Prop
  competes_self : ∀ h, competes h h
  competes_symm : ∀ {h k}, competes h k → competes k h
  compEquiv_iff : ∀ {a b}, compEquiv lt a b = true ↔ competes a.handle b.handle ∧ a.start = b.start
  /-- Loops stop at the first lock that starts behind the range they look for. -/
  stopsEarly : Bool
  start_lt : stopsEarly = true → ∀ {a b}, lt a b = true → a.start < b.start

lemma compEquiv_mapComparatorExcl {a b : RangeLockDetails} :
    compEquiv mapComparatorExcl a b = true ↔ True ∧ a.start = b.start := by
  simp only [compEquiv, mapComparatorExcl, Bool.and_eq_true, Bool.not_eq_true',
    decide_eq_false_iff_not, true_and]
  omega

/-- The set of exclusive locks tells locks apart by their start only. -/
instance : RangeComparator mapComparatorExcl where
  competes _ _ := True
  competes_self _ := trivial
  competes_symm _ := trivial
  compEquiv_iff := compEquiv_mapComparatorExcl
  stopsEarly := true
  start_lt _ {a b} h := by
    simpa [mapComparatorExcl] using h

/-- The set of shared locks tells locks apart by handle and start. -/
instance : RangeComparator mapComparatorShared where
  competes h k := h = k
  competes_self _ := rfl
  competes_symm h := h.symm
  compEquiv_iff {a b} := by
    simp only [compEquiv, Bool.and_eq_true, Bool.not_eq_true', ← Bool.not_eq_true,
      mapComparatorShared_iff, handle, RangeHandle.mk.injEq]
    omega
  stopsEarly := false
  start_lt h := nomatch h

/-- A set of granted range locks. -/
structure RangeLockSet (lt : RangeLockDetails → RangeLockDetails → Bool) where
  locks : OrdSet lt
  /-- The locks that an insert did not store.  The source keeps no such record; nothing reads it. -/
  dropped : List RangeLockDetails
deriving DecidableEq

namespace RangeLockSet

variable {lt : RangeLockDetails → RangeLockDetails → Bool}

open OrdSet

/-- The set without locks. -/
def empty : RangeLockSet lt := ⟨OrdSet.empty, []⟩

variable (S : RangeLockSet lt)

/-- `erase(iter)`. -/
def erase (l : RangeLockDetails) : RangeLockSet lt := { S with locks := S.locks.erase l }

/-- The loop that erases the locks of the owners satisfying `p`. -/
def eraseIf (p : RangeLockDetails → Bool) : RangeLockSet lt := { S with locks := S.locks.eraseIf p }

variable [RangeComparator lt]

/-- `insert(lock)`, which does nothing if the comparator finds an equal lock. -/
def insert (l : RangeLockDetails) : RangeLockSet lt where
  locks := S.locks.insert l
  dropped := if S.locks.contains l then S.dropped ++ [l] else S.dropped

open RangeComparator

/-- The loop condition: there is a next lock, and it starts not behind `pos` if the order is by
start. -/
def inRange (lt : RangeLockDetails → RangeLockDetails → Bool) [RangeComparator lt]
    (l : RangeLockDetails) (pos : ℕ) : Bool :=
  !stopsEarly lt || l.start ≤ pos

/-- The loop that merges the locks of the owner into the new lock and erases them. -/
def mergeLoop (S : RangeLockSet lt) (d : RangeLockDetails) :
    List RangeLockDetails → RangeLockSet lt × RangeLockDetails
  | [] => (S, d)
  | l :: ls =>
    -- `+ 1`: also extensions are looked for, not only overlaps
    if !inRange lt l (wrap64 (d.endPos + 1)) then (S, d)
    else if d.equalsHandle l && d.isMergeable l then (S.erase l).mergeLoop (d.merge l) ls
    else S.mergeLoop d ls

/-- `flockRangeShared` and `flockRangeExclusive`: merges and inserts.  The second component is the
argument, which is passed by reference and takes in the merged ranges. -/
def grant (d : RangeLockDetails) : RangeLockSet lt × RangeLockDetails :=
  let merged := S.mergeLoop d S.locks.elems
  (merged.1.insert merged.2, merged.2)

/-- The loop of `flockRangeIsGranted` over one set. -/
def isGrantedLoop (lt : RangeLockDetails → RangeLockDetails → Bool) [RangeComparator lt]
    (d : RangeLockDetails) : List RangeLockDetails → Bool
  | [] => false
  | l :: ls =>
    if !inRange lt l d.endPos then false
    else if !d.equalsHandle l then isGrantedLoop lt d ls
    else match d.overlapsEx l with
    | .equals => true
    | .isContained => true
    | .contains => false
    | .startOverlap => false
    | .endOverlap => false
    | .none => isGrantedLoop lt d ls

/-- The loop of `flockRangeCheckConflictsEx` over one set of granted locks. -/
def conflictLoop (lt : RangeLockDetails → RangeLockDetails → Bool) [RangeComparator lt]
    (d : RangeLockDetails) : List RangeLockDetails → Bool
  | [] => false
  | l :: ls =>
    if !inRange lt l d.endPos then false
    else if d.overlaps l && !d.equalsHandle l then true
    else conflictLoop lt d ls

/-- What the loop of `flockRangeUnlock` over one set ends with. -/
structure Unlocked (lt : RangeLockDetails → RangeLockDetails → Bool) where
  set : RangeLockSet lt
  lockRemoved : Bool
  /-- The loop found a lock that covers the whole request and returned from the function. -/
  returned : Bool

/-- The loop of `flockRangeUnlock` over one set.  A remainder that is inserted again does not
overlap the request any more; the iteration may meet it later and then does nothing, so only the
locks present at the start are visited here. -/
def unlockLoop (S : RangeLockSet lt) (d : RangeLockDetails) (lockRemoved : Bool) :
    List RangeLockDetails → Unlocked lt
  | [] => ⟨S, lockRemoved, false⟩
  | l :: ls =>
    if !inRange lt l d.endPos then ⟨S, lockRemoved, false⟩
    else if !d.equalsHandle l then S.unlockLoop d lockRemoved ls
    else match d.overlapsEx l with
    | .equals => ⟨S.erase l, true, true⟩
    | .isContained =>
      if d.start = l.start || d.endPos = l.endPos then
        -- only one locked area remains
        ⟨(S.erase l).insert (l.trim d), true, true⟩
      else
        let areas := l.split d
        ⟨((S.erase l).insert areas.1).insert areas.2, true, true⟩
    | .contains => (S.erase l).unlockLoop d true ls
    | .startOverlap => ((S.erase l).insert (l.trim d)).unlockLoop d true ls
    | .endOverlap => ((S.erase l).insert (l.trim d)).unlockLoop d true ls
    | .none => S.unlockLoop d lockRemoved ls

/-! ## Bytes held and normal form -/

variable {S : RangeLockSet lt} {a b d l : RangeLockDetails} {h : RangeHandle} {x : ℕ}

/-- Erasing a stored lock removes that lock alone. -/
lemma mem_locks_erase (hl : l ∈ S.locks) : a ∈ (S.erase l).locks ↔ a ∈ S.locks ∧ a ≠ l := by
  refine mem_erase.trans (and_congr_right fun ha => ?_)
  rw [← Bool.not_eq_true]
  refine not_congr ⟨fun heq => (eq_of_compEquiv hl ha heq).symm, fun heq => ?_⟩
  rw [heq]
  exact compEquiv_self l

/-- The handle holds the byte. -/
def Held (h : RangeHandle) (x : ℕ) : Prop :=
  ∃ l ∈ S.locks, l.handle = h ∧ x ∈ l.bytes
  deriving Decidable

/-- The normal form: locks that the set could confuse do not overlap, locks of one handle do not
even touch, and no lock was dropped. -/
structure NormalForm : Prop where
  wf : ∀ l ∈ S.locks, l.WF
  apart : ∀ a ∈ S.locks, ∀ b ∈ S.locks, a ≠ b → competes lt a.handle b.handle → ¬ a.Overlaps b
  separate : ∀ a ∈ S.locks, ∀ b ∈ S.locks, a ≠ b → a.handle = b.handle → ¬ a.Touches b
  nothing_dropped : S.dropped = []

lemma normalForm_empty : (empty : RangeLockSet lt).NormalForm where
  wf l hl := absurd hl (OrdSet.not_mem_empty l)
  apart l hl := absurd hl (OrdSet.not_mem_empty l)
  separate l hl := absurd hl (OrdSet.not_mem_empty l)
  nothing_dropped := rfl

/-- The normal form survives the removal of locks. -/
lemma NormalForm.of_subset (hS : S.NormalForm) {T : RangeLockSet lt}
    (hsub : ∀ l ∈ T.locks, l ∈ S.locks) (hdr : T.dropped = S.dropped) : T.NormalForm where
  wf l hl := hS.wf l (hsub l hl)
  apart a ha b hb := hS.apart a (hsub a ha) b (hsub b hb)
  separate a ha b hb := hS.separate a (hsub a ha) b (hsub b hb)
  nothing_dropped := hdr.trans hS.nothing_dropped

/-- There is a byte between two locks of one handle. -/
lemma NormalForm.lt_or_lt (hS : S.NormalForm) {a b : RangeLockDetails} (ha : a ∈ S.locks)
    (hb : b ∈ S.locks) (hne : a ≠ b) (heq : a.handle = b.handle) :
    a.endPos + 1 < b.start ∨ b.endPos + 1 < a.start := by
  have hto := hS.separate a ha b hb hne heq
  rw [touches_def] at hto
  omega

lemma NormalForm.erase (hS : S.NormalForm) (l : RangeLockDetails) : (S.erase l).NormalForm :=
  hS.of_subset (fun _ ha => (mem_erase.mp ha).1) rfl

lemma NormalForm.eraseIf (hS : S.NormalForm) (p : RangeLockDetails → Bool) :
    (S.eraseIf p).NormalForm :=
  hS.of_subset (fun _ ha => (mem_eraseIf.mp ha).1) rfl

/-- A well-formed range that is apart from the stored ones is stored, and the normal form kept. -/
lemma NormalForm.insert (hS : S.NormalForm) (hd : d.WF)
    (hapart : ∀ l ∈ S.locks, competes lt d.handle l.handle → ¬ d.Overlaps l)
    (hsep : ∀ l ∈ S.locks, d.handle = l.handle → ¬ d.Touches l) :
    (S.insert d).NormalForm ∧ ∀ l, l ∈ (S.insert d).locks ↔ l = d ∨ l ∈ S.locks := by
  have hnew : S.locks.contains d = false := by
    rw [contains_eq_false_iff]
    intro l hl
    rw [← Bool.not_eq_true, compEquiv_iff]
    rintro ⟨hcomp, hstart⟩
    exact hapart l hl hcomp (RangeLockDetails.overlaps_of_start_eq hd (hS.wf l hl) hstart)
  have hmem : ∀ l, l ∈ (S.insert d).locks ↔ l = d ∨ l ∈ S.locks := fun l => mem_insert_iff hnew
  refine ⟨⟨?_, ?_, ?_, ?_⟩, hmem⟩
  · intro l hl
    rcases (hmem l).mp hl with rfl | hl
    · exact hd
    · exact hS.wf l hl
  · intro a ha b hb hne hcomp hov
    rcases (hmem a).mp ha with rfl | ha' <;> rcases (hmem b).mp hb with rfl | hb'
    · exact hne rfl
    · exact hapart b hb' hcomp hov
    · exact hapart a ha' (competes_symm hcomp) hov.symm
    · exact hS.apart a ha' b hb' hne hcomp hov
  · intro a ha b hb hne heq hto
    rcases (hmem a).mp ha with rfl | ha' <;> rcases (hmem b).mp hb with rfl | hb'
    · exact hne rfl
    · exact hsep b hb' heq hto
    · exact hsep a ha' heq.symm hto.symm
    · exact hS.separate a ha' b hb' hne heq hto
  · change (if S.locks.contains d = true then _ else _) = _
    rw [hnew]
    exact hS.nothing_dropped

end RangeLockSet

end Beegfs
