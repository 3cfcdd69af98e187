import Beegfs.Locking.RangeLockModes

/-!
# Range locks as a map from bytes to modes

What POSIX asks of range locks is stated for single bytes: a process holds each byte of the file in
no mode, shared or exclusive; an unlock clears a range of the map of its process, a lock sets it,
and nothing else changes.  The granted sets represent this map, and `flockRangeUnlock`,
`flockRangeShared` and `flockRangeExclusive` implement these two operations on it.

The representation has to be in the form that the loops rely on, `PosixForm`.  Part of it is that
exclusive locks of different handles do not overlap: the set of exclusive locks is ordered by the
start of the locks alone and would lose one of two locks with the same start.
-/

namespace Beegfs

open LockDetails RangeLockDetails

/-- How a process holds a byte. -/
inductive LockMode
  | none
  | shared
  | exclusive
deriving DecidableEq

/-- The modes of all bytes for all processes. -/
abbrev ByteLockMap := RangeHandle → ℕ → LockMode

/-- The bytes of a request get the mode `m` for its process. -/
def ByteLockMap.assign (map : ByteLockMap) (d : RangeLockDetails) (m : LockMode) : ByteLockMap :=
  fun h x => if h = d.handle ∧ x ∈ d.bytes then m else map h x

/-- The mode that a lock request asks for. -/
def RangeLockDetails.mode (d : RangeLockDetails) : LockMode :=
  if isExclusive d then .exclusive else .shared

namespace RangeLocks

variable {s : RangeLocks} {d : RangeLockDetails}

/-- The map that the granted sets stand for. -/
def byteMap (s : RangeLocks) : ByteLockMap := fun h x =>
  if s.HeldExcl h x then .exclusive else if s.HeldShared h x then .shared else .none

/-- The form of the granted sets on which the loops rely. -/
structure PosixForm (s : RangeLocks) : Prop extends HandleConsistent s where
  excl_wf : ∀ l ∈ s.exclRangeFLocks.locks, l.WF
  shared_wf : ∀ l ∈ s.sharedRangeFLocks.locks, l.WF
  /-- No byte is held exclusively by two handles. -/
  excl_exclusive : ∀ a ∈ s.exclRangeFLocks.locks, ∀ b ∈ s.exclRangeFLocks.locks,
    a.handle ≠ b.handle → ∀ x, ¬ (x ∈ a.bytes ∧ x ∈ b.bytes)
  excl_dropped : s.exclRangeFLocks.dropped = []
  shared_dropped : s.sharedRangeFLocks.dropped = []

lemma PosixForm.normal (hs : s.PosixForm) : s.Normal := by
  have hex : ∀ a ∈ s.exclRangeFLocks.locks, ∀ b ∈ s.exclRangeFLocks.locks, a ≠ b →
      a.handle = b.handle → ¬ a.Touches b :=
    fun a ha b hb hne heq => not_touches_of_lt (hs.excl a ha b hb hne heq)
  have hsh : ∀ a ∈ s.sharedRangeFLocks.locks, ∀ b ∈ s.sharedRangeFLocks.locks, a ≠ b →
      a.handle = b.handle → ¬ a.Touches b :=
    fun a ha b hb hne heq => not_touches_of_lt (hs.shared a ha b hb hne heq)
  refine ⟨⟨hs.excl_wf, fun a ha b hb hne _ hov => ?_, hex, hs.excl_dropped⟩,
    ⟨hs.shared_wf, fun a ha b hb hne heq hov => hsh a ha b hb hne heq hov.touches, hsh,
      hs.shared_dropped⟩⟩
  by_cases heq : a.handle = b.handle
  · exact hex a ha b hb hne heq hov.touches
  · obtain ⟨x, hx⟩ :=
      (overlaps_iff_exists (hs.excl_wf a ha) (hs.excl_wf b hb)).mp hov
    exact hs.excl_exclusive a ha b hb heq x hx

lemma Normal.posixForm (hn : s.Normal) (hmodes : ∀ h x, s.HeldExcl h x → ¬ s.HeldShared h x) :
    s.PosixForm where
  toHandleConsistent := hn.handleConsistent hmodes
  excl_wf := hn.excl.wf
  shared_wf := hn.shared.wf
  excl_exclusive a ha b hb hne _ hx :=
    hne (hn.heldExcl_unique ⟨a, ha, rfl, hx.1⟩ ⟨b, hb, rfl, hx.2⟩)
  excl_dropped := hn.excl.nothing_dropped
  shared_dropped := hn.shared.nothing_dropped

/-- The states of runs that do not mix modes have the form. -/
lemma Inv.posixForm (hs : s.Inv) (hx : s.Unmixed) : s.PosixForm := hs.toNormal.posixForm hx.held

lemma byteMap_ne_none_iff {h : RangeHandle} {x : ℕ} :
    s.byteMap h x ≠ .none ↔ s.HeldExcl h x ∨ s.HeldShared h x := by
  unfold byteMap
  by_cases hex : s.HeldExcl h x
  · simp [hex]
  · by_cases hsh : s.HeldShared h x <;> simp [hex, hsh]

/-- In the form, an unlock releases the range in both modes. -/
lemma PosixForm.held_flockRangeUnlock (hs : s.PosixForm) (hd : d.WF) (h : RangeHandle) (x : ℕ) :
    ((s.flockRangeUnlock d).1.HeldExcl h x ↔ s.HeldExcl h x ∧ ¬ (h = d.handle ∧ x ∈ d.bytes)) ∧
    ((s.flockRangeUnlock d).1.HeldShared h x ↔
      s.HeldShared h x ∧ ¬ (h = d.handle ∧ x ∈ d.bytes)) := by
  have hu := hs.normal.unlockSpec hd
  refine ⟨hu.heldExcl h x, fun hk => ⟨(hu.heldShared h x).1 hk, ?_⟩,
    fun hk => (hu.heldShared h x).2 hk.1 hk.2⟩
  rintro ⟨rfl, hx⟩
  exact (hs.normal.not_held_flockRangeUnlock (fun h x hh hk => hs.modes h x ⟨hh, hk⟩) hd x hx).2 hk

lemma PosixForm.flockRangeUnlock (hs : s.PosixForm) (hd : d.WF) :
    (s.flockRangeUnlock d).1.PosixForm := by
  have hu := hs.normal.unlockSpec hd
  refine Normal.posixForm ⟨hu.excl, hu.shared⟩ fun h x hh hk => hs.modes h x ⟨?_, ?_⟩
  · exact ((hs.held_flockRangeUnlock hd h x).1.mp hh).1
  · exact ((hs.held_flockRangeUnlock hd h x).2.mp hk).1

/-- The map after a step is determined by what handles hold. -/
lemma byteMap_eq_assign {r : RangeLocks} {m : LockMode}
    (hin : ∀ x ∈ d.bytes, r.byteMap d.handle x = m) (hout : ∀ h x, ¬ (h = d.handle ∧ x ∈ d.bytes) →
      (r.HeldExcl h x ↔ s.HeldExcl h x) ∧ (r.HeldShared h x ↔ s.HeldShared h x)) :
    r.byteMap = s.byteMap.assign d m := by
  funext h x
  unfold ByteLockMap.assign
  by_cases hcase : h = d.handle ∧ x ∈ d.bytes
  · rw [if_pos hcase, hcase.1]
    exact hin x hcase.2
  · rw [if_neg hcase]
    obtain ⟨hex, hsh⟩ := hout h x hcase
    simp only [byteMap, hex, hsh]

/-- The granted request in its mode, after the owner's unlock. -/
lemma PosixForm.grant (hs : s.PosixForm) (hd : d.WF) (hmode : isShared d = !isExclusive d)
    (hc : s.flockRangeCheckConflicts d = false) :
    (ops.grant (s.flockRangeUnlock d).1 d).PosixForm ∧
      (ops.grant (s.flockRangeUnlock d).1 d).byteMap = s.byteMap.assign d d.mode := by
  have hu := hs.held_flockRangeUnlock hd
  have hun := (hs.flockRangeUnlock hd).normal
  have hfree := hs.normal.free_flockRangeUnlock hd hc
  have hg := hun.granted hd hmode hfree
  have hin : ∀ x ∈ d.bytes, ¬ (s.flockRangeUnlock d).1.HeldExcl d.handle x ∧
      ¬ (s.flockRangeUnlock d).1.HeldShared d.handle x := fun x hx =>
    ⟨fun hh => ((hu _ x).1.mp hh).2 ⟨rfl, hx⟩, fun hk => ((hu _ x).2.mp hk).2 ⟨rfl, hx⟩⟩
  refine ⟨hg.normal.posixForm fun h x hh hk => ?_, byteMap_eq_assign (fun x hx => ?_)
    fun h x hout => ?_⟩
  · rcases (hg.heldExcl h x).mp hh with hh | ⟨hm, rfl, hx⟩
    · rcases (hg.heldShared h x).mp hk with hk | ⟨-, rfl, hx⟩
      · exact hs.modes h x ⟨((hu h x).1.mp hh).1, ((hu h x).2.mp hk).1⟩
      · exact (hin x hx).1 hh
    · rcases (hg.heldShared _ x).mp hk with hk | ⟨hm', -⟩
      · exact (hin x hx).2 hk
      · cases hm'.symm.trans hm
  · simp only [byteMap, mode, hg.heldExcl, hg.heldShared, hin x hx, hx, and_true, false_or]
    cases isExclusive d <;> rfl
  · have hout' : ∀ m : Prop, ¬ (m ∧ h = d.handle ∧ x ∈ d.bytes) := fun m hm => hout hm.2
    exact ⟨((hg.heldExcl h x).trans (or_iff_left (hout' _))).trans
        ((hu h x).1.trans (and_iff_left hout)),
      ((hg.heldShared h x).trans (or_iff_left (hout' _))).trans
        ((hu h x).2.trans (and_iff_left hout))⟩

/-- The granted sets implement the byte map: an unlock clears the range of its process and tells
whether there was anything to clear, a request without conflict sets it to its mode, nothing else
changes, and the form is kept. -/
theorem flockRange_refines_byteMap (s : RangeLocks) (hs : s.PosixForm) (d : RangeLockDetails)
    (hd : d.WF) :
    ((s.flockRangeUnlock d).1.PosixForm ∧
      (s.flockRangeUnlock d).1.byteMap = s.byteMap.assign d .none ∧
      ((s.flockRangeUnlock d).2 = true ↔ ∃ x ∈ d.bytes, s.byteMap d.handle x ≠ .none)) ∧
    (isLock d = true → ValidFlags d → s.flockRangeCheckConflicts d = false →
      (ops.grant (s.flockRangeUnlock d).1 d).PosixForm ∧
      (ops.grant (s.flockRangeUnlock d).1 d).byteMap = s.byteMap.assign d d.mode) := by
  refine ⟨⟨hs.flockRangeUnlock hd, byteMap_eq_assign (fun x hx => ?_) fun h x hout => ?_, ?_⟩,
    fun hl hflags hc => hs.grant hd (hflags hl) hc⟩
  · by_contra hne
    rcases byteMap_ne_none_iff.mp hne with hh | hk
    · exact ((hs.held_flockRangeUnlock hd _ x).1.mp hh).2 ⟨rfl, hx⟩
    · exact ((hs.held_flockRangeUnlock hd _ x).2.mp hk).2 ⟨rfl, hx⟩
  · exact ⟨(hs.held_flockRangeUnlock hd h x).1.trans (and_iff_left hout),
      (hs.held_flockRangeUnlock hd h x).2.trans (and_iff_left hout)⟩
  · rw [(hs.normal.unlockSpec hd).removed]
    refine exists_congr fun x => and_congr_right fun _ => ?_
    rw [byteMap_ne_none_iff]

/-- An unlock in the middle of a range splits it. -/
theorem flockRange_refines_byteMap_split :
    let held : RangeLockDetails := ⟨1, 7, "a", entryLockTypeExclusive, 0, 19⟩
    let d : RangeLockDetails := ⟨1, 7, "u", entryLockTypeUnlock, 5, 9⟩
    let s := ops.grant (empty.flockRangeUnlock held).1 held
    (s.flockRangeUnlock d).1.byteMap = s.byteMap.assign d .none ∧
      (s.flockRangeUnlock d).1.exclRangeFLocks.locks.elems =
        [⟨1, 7, "a", entryLockTypeExclusive, 0, 4⟩, ⟨1, 7, "a", entryLockTypeExclusive, 10, 19⟩] :=
  ⟨(flockRange_refines_byteMap _ ((inv_empty.posixForm unmixed_empty).grant (by decide) (by decide)
    (by decide)).1 _ (by decide)).1.2.1, by decide⟩

/-- If the exclusive locks of two processes overlap, the remainder of an unlocked range can have the
start of the other lock and is then lost: process 1 unlocks bytes 0 to 4 and loses bytes 5 to 9. -/
theorem unlock_drops_overlapped_exclusive :
    let s : RangeLocks :=
      { exclRangeFLocks := ⟨⟨[⟨1, 7, "a", entryLockTypeExclusive, 0, 9⟩,
          ⟨2, 7, "b", entryLockTypeExclusive, 5, 14⟩], by decide⟩, []⟩
        sharedRangeFLocks := RangeLockSet.empty
        queues := WaiterQueues.empty }
    let d : RangeLockDetails := ⟨1, 7, "u", entryLockTypeUnlock, 0, 4⟩
    s.HandleConsistent ∧ d.WF ∧ 7 ∉ d.bytes ∧ s.byteMap ⟨1, 7⟩ 7 = .exclusive ∧
      (s.flockRangeUnlock d).1.byteMap ⟨1, 7⟩ 7 = .none := by
  intro s d
  have hex : ∀ a ∈ s.exclRangeFLocks.locks.elems, ∀ b ∈ s.exclRangeFLocks.locks.elems,
      a ≠ b → a.handle = b.handle → a.endPos + 1 < b.start ∨ b.endPos + 1 < a.start := by
    decide
  refine ⟨⟨⟨hex, fun a ha => absurd ha (OrdSet.not_mem_empty a)⟩, fun h x hboth => ?_⟩, by decide,
    by decide, by decide, by decide⟩
  obtain ⟨-, l, hl, -⟩ := hboth
  exact OrdSet.not_mem_empty l hl

end RangeLocks

end Beegfs
