import Beegfs.Locking.RangeLockSet

/-!
# The loops over the sets of range locks

What granting, releasing and looking up a range do to the bytes that handles hold.  Each loop has a
description that is proved along the list of locks it visits: `Merged` for the merging loop before
an insert, `Released` for the loop of `flockRangeUnlock`.  Both rest on the same observation: in
normal form the locks of a handle are separate, so what the loop does with one of them has no
influence on what is to be done with the others.
-/

namespace Beegfs.RangeLockSet

open RangeLockDetails RangeComparator List

variable {lt : RangeLockDetails → RangeLockDetails → Bool} [RangeComparator lt]
variable {S : RangeLockSet lt} {a d l : RangeLockDetails}

/-! ## Granting a range -/

variable {ls : List RangeLockDetails}

/-- A loop that stops at `l` misses nothing: `l` and all later locks start behind `pos`. -/
lemma lt_start_of_not_inRange {pos : ℕ}
    (hsort : (l :: ls).Pairwise fun a b => lt a b = true) (hstop : inRange lt l pos = false) :
    ∀ a ∈ l :: ls, pos < a.start := by
  simp only [inRange, Bool.or_eq_false_iff, Bool.not_eq_false', decide_eq_false_iff_not] at hstop
  obtain ⟨hearly, _⟩ := hstop
  intro a ha
  rcases mem_cons.mp ha with rfl | ha
  · omega
  · have hlt := start_lt hearly ((pairwise_cons.mp hsort).1 a ha)
    omega

/-- A lock is not among those behind it. -/
lemma not_mem_of_sorted (hsort : (l :: ls).Pairwise fun a b => lt a b = true) : l ∉ ls := by
  intro hmem
  have hirr : lt l l = false := IsComparator.irrefl l
  rw [rel_of_pairwise_cons hsort hmem] at hirr
  exact Bool.false_ne_true hirr.symm

/-- What the merging loop over `ls` does: the owner's locks that touch the new range leave the set,
and the new range becomes its union with them. -/
structure Merged (S : RangeLockSet lt) (d : RangeLockDetails) (ls : List RangeLockDetails)
    (R : RangeLockSet lt × RangeLockDetails) : Prop where
  dropped : R.1.dropped = S.dropped
  wf : R.2.WF
  handle : R.2.handle = d.handle
  mem : ∀ a, a ∈ R.1.locks ↔ a ∈ S.locks ∧ ¬ (a ∈ ls ∧ a.handle = d.handle ∧ d.Touches a)
  bytes : ∀ x, x ∈ R.2.bytes ↔
    x ∈ d.bytes ∨ ∃ l ∈ ls, l.handle = d.handle ∧ d.Touches l ∧ x ∈ l.bytes
  separate : ∀ a ∈ S.locks, a.handle = d.handle → ¬ d.Touches a → ¬ R.2.Touches a

omit [RangeComparator lt] in
/-- If no lock of `ls` is to be merged, nothing happens. -/
lemma Merged.of_forall (hd : d.WF)
    (h : ∀ a ∈ ls, ¬ (a.handle = d.handle ∧ d.Touches a)) : Merged S d ls (S, d) where
  dropped := rfl
  wf := hd
  handle := rfl
  mem a := ⟨fun ha => ⟨ha, fun hm => h a hm.1 hm.2⟩, And.left⟩
  bytes _ := ⟨.inl, fun hx => hx.elim id fun ⟨l, hl, hown, hto, _⟩ => absurd ⟨hown, hto⟩ (h l hl)⟩
  separate _ _ _ := id

variable {R : RangeLockSet lt × RangeLockDetails}

omit [RangeComparator lt] in
/-- A lock that is not to be merged can be skipped. -/
lemma Merged.skip (hl : ¬ (l.handle = d.handle ∧ d.Touches l)) (h : Merged S d ls R) :
    Merged S d (l :: ls) R where
  dropped := h.dropped
  wf := h.wf
  handle := h.handle
  mem a := by
    rw [h.mem, mem_cons]
    refine and_congr_right fun _ => not_congr ⟨fun hm => ⟨.inr hm.1, hm.2⟩, fun hm => ?_⟩
    rcases hm.1 with rfl | hmem
    · exact absurd hm.2 hl
    · exact ⟨hmem, hm.2⟩
  bytes x := by
    rw [h.bytes, exists_mem_cons_iff]
    refine or_congr_right ⟨.inr, fun hx => hx.resolve_left fun hm => hl ⟨hm.1, hm.2.1⟩⟩
  separate := h.separate

section

variable (hS : S.NormalForm)

include hS

/-- Merging with one lock does not change which of the others are to be merged. -/
lemma NormalForm.touches_merge_iff (hl : l ∈ S.locks)
    (hto : d.Touches l) (ha : a ∈ S.locks) (hne : a ≠ l) (hown : a.handle = l.handle) :
    (d.merge l).Touches a ↔ d.Touches a := by
  constructor
  · intro h
    by_contra hda
    exact Interval.not_touch_hull hto hda (hS.separate l hl a ha hne.symm hown.symm)
      (hS.wf a ha).1 h
  · intro h
    exact (h.symm.mono (min_le_left _ _) (le_max_left _ _)).symm

/-- A lock that is to be merged is taken in and erased. -/
lemma Merged.take (hl : l ∈ S.locks) (hls : ∀ a ∈ ls, a ∈ S.locks) (hnot : l ∉ ls)
    (hown : l.handle = d.handle) (hto : d.Touches l)
    (h : Merged (S.erase l) (d.merge l) ls R) : Merged S d (l :: ls) R where
  dropped := h.dropped
  wf := h.wf
  handle := h.handle
  mem a := by
    rw [h.mem, mem_locks_erase hl, mem_cons]
    constructor
    · rintro ⟨⟨ha, hne⟩, hkeep⟩
      refine ⟨ha, fun ⟨hmem, haown, hda⟩ => ?_⟩
      have hmem' : a ∈ ls := hmem.resolve_left hne
      exact hkeep ⟨hmem', haown,
        (hS.touches_merge_iff hl hto ha hne (haown.trans hown.symm)).mpr hda⟩
    · rintro ⟨ha, hkeep⟩
      have hne : a ≠ l := by
        rintro rfl
        exact hkeep ⟨.inl rfl, hown, hto⟩
      refine ⟨⟨ha, hne⟩, fun ⟨hmem, haown, hda⟩ => hkeep ⟨.inr hmem, haown, ?_⟩⟩
      exact (hS.touches_merge_iff hl hto ha hne (haown.trans hown.symm)).mp hda
  bytes x := by
    rw [h.bytes, mem_bytes_merge hto, exists_mem_cons_iff, or_assoc]
    refine or_congr_right (or_congr ⟨fun hx => ⟨hown, hto, hx⟩, fun hx => hx.2.2⟩ ?_)
    refine exists_congr fun a => and_congr_right fun ha => and_congr_right fun haown => ?_
    have hne : a ≠ l := fun heq => hnot (heq ▸ ha)
    rw [hS.touches_merge_iff hl hto (hls a ha) hne (haown.trans hown.symm)]
  separate a ha haown hda := by
    have hne : a ≠ l := by
      rintro rfl
      exact hda hto
    refine h.separate a ((mem_locks_erase hl).mpr ⟨ha, hne⟩) haown ?_
    rwa [hS.touches_merge_iff hl hto ha hne (haown.trans hown.symm)]

/-- The merging loop does what `Merged` says. -/
lemma NormalForm.mergeLoop (hd : d.WF) (ls : List RangeLockDetails)
    (hls : ∀ a ∈ ls, a ∈ S.locks) (hsort : ls.Pairwise fun a b => lt a b = true) :
    Merged S d ls (S.mergeLoop d ls) := by
  induction ls generalizing S d with
  | nil => exact Merged.of_forall hd nofun
  | cons l ls ih =>
    obtain ⟨hl, hls'⟩ := forall_mem_cons.mp hls
    have hsort' := List.Pairwise.of_cons hsort
    have hd' := hd.2
    have hmerge : (d.equalsHandle l && d.isMergeable l) = true ↔
        l.handle = d.handle ∧ d.Touches l := by
      rw [Bool.and_eq_true, equalsHandle_iff, isMergeable_eq_true_iff hd (hS.wf l hl), eq_comm]
    rw [RangeLockSet.mergeLoop]
    split_ifs with hstop htake
    · rw [Bool.not_eq_true'] at hstop
      have hbeh := lt_start_of_not_inRange hsort hstop
      rw [wrap64_of_lt (by omega)] at hbeh
      refine Merged.of_forall hd fun a ha hm => ?_
      have hstart := hbeh a ha
      have hto := touches_def.mp hm.2
      omega
    · obtain ⟨hown, hto⟩ := hmerge.mp htake
      have hnot := not_mem_of_sorted hsort
      refine Merged.take hS hl hls' hnot hown hto
        (ih (hS.erase l) (hd.merge (hS.wf l hl)) (fun a ha => ?_) hsort')
      exact (mem_locks_erase hl).mpr ⟨hls' a ha, fun heq => hnot (heq ▸ ha)⟩
    · exact (ih hS hd hls' hsort').skip (mt hmerge.mpr htake)

/-- Granting a range that no competing lock of another handle overlaps adds its bytes and keeps the
normal form. -/
theorem NormalForm.grant (hd : d.WF) (hfree : ∀ l ∈ S.locks, competes lt d.handle l.handle →
      l.handle ≠ d.handle → ¬ d.Overlaps l) :
    (S.grant d).1.NormalForm ∧
      ∀ h x, (S.grant d).1.Held h x ↔ S.Held h x ∨ (h = d.handle ∧ x ∈ d.bytes) := by
  have hM := hS.mergeLoop hd S.locks.elems (fun a ha => ha) S.locks.sorted
  unfold RangeLockSet.grant
  generalize S.mergeLoop d S.locks.elems = R at hM
  have hR : R.1.NormalForm := hS.of_subset (fun l hl => ((hM.mem l).mp hl).1) hM.dropped
  have hown : ∀ l ∈ R.1.locks, l.handle = d.handle → ¬ R.2.Touches l := by
    intro l hl hlown
    obtain ⟨hlS, hnot⟩ := (hM.mem l).mp hl
    exact hM.separate l hlS hlown fun hto => hnot ⟨hlS, hlown, hto⟩
  have hapart : ∀ l ∈ R.1.locks, competes lt R.2.handle l.handle → ¬ R.2.Overlaps l := by
    intro l hl hcomp hov
    by_cases hlown : l.handle = d.handle
    · exact hown l hl hlown hov.touches
    -- a byte of the merged range is one of the request or of a lock of the owner
    have hlS : l ∈ S.locks := ((hM.mem l).mp hl).1
    obtain ⟨x, hxR, hxl⟩ := (overlaps_iff_exists hM.wf (hR.wf l hl)).mp hov
    rw [hM.handle] at hcomp
    rcases (hM.bytes x).mp hxR with hxd | ⟨m, hm, hmown, -, hxm⟩
    · exact hfree l hlS hcomp hlown (overlaps_of_mem hxd hxl)
    · refine hS.apart m hm l hlS ?_ (hmown ▸ hcomp) (overlaps_of_mem hxm hxl)
      rintro rfl
      exact hlown hmown
  obtain ⟨hnf, hmem⟩ := hR.insert hM.wf hapart fun l hl heq => hown l hl (heq.symm.trans hM.handle)
  refine ⟨hnf, fun h x => ?_⟩
  constructor
  · rintro ⟨l, hl, rfl, hx⟩
    rcases (hmem l).mp hl with rfl | hl
    · rcases (hM.bytes x).mp hx with hxd | ⟨m, hm, hmown, -, hxm⟩
      · exact .inr ⟨hM.handle, hxd⟩
      · exact .inl ⟨m, hm, hmown.trans hM.handle.symm, hxm⟩
    · exact .inl ⟨l, ((hM.mem l).mp hl).1, rfl, hx⟩
  · rintro (⟨l, hl, rfl, hx⟩ | ⟨rfl, hx⟩)
    · by_cases hmerg : l.handle = d.handle ∧ d.Touches l
      · exact ⟨R.2, (hmem _).mpr (.inl rfl), hM.handle.trans hmerg.1.symm,
          (hM.bytes x).mpr (.inr ⟨l, hl, hmerg.1, hmerg.2, hx⟩)⟩
      · exact ⟨l, (hmem l).mpr (.inr ((hM.mem l).mpr ⟨hl, fun hm => hmerg hm.2⟩)), rfl, hx⟩
    · exact ⟨R.2, (hmem _).mpr (.inl rfl), hM.handle, (hM.bytes x).mpr (.inl hx)⟩

/-! ## Releasing a range -/

/-- The request is cut out of the lock `l`: other locks stay, and of the bytes of `l` those outside
the request. -/
structure Cut (S : RangeLockSet lt) (l d : RangeLockDetails) (T : RangeLockSet lt) : Prop where
  normalForm : T.NormalForm
  keeps : ∀ a ∈ S.locks, a ≠ l → a ∈ T.locks
  held : ∀ h x, T.Held h x ↔ S.Held h x ∧ ¬ (h = l.handle ∧ x ∈ l.bytes ∧ x ∈ d.bytes)

variable {T : RangeLockSet lt}

section

variable (hl : l ∈ S.locks)

include hl

/-- `l` is replaced by locks `ps` that cover its bytes outside the request. -/
lemma NormalForm.cut_of_parts (hT : T.NormalForm) (ps : List RangeLockDetails)
    (hmem : ∀ a, a ∈ T.locks ↔ a ∈ ps ∨ (a ∈ S.locks ∧ a ≠ l)) (hps : ∀ p ∈ ps, p.handle = l.handle)
    (hbytes : ∀ x, (∃ p ∈ ps, x ∈ p.bytes) ↔ x ∈ l.bytes ∧ x ∉ d.bytes) : Cut S l d T := by
  refine ⟨hT, fun a ha hne => (hmem a).mpr (.inr ⟨ha, hne⟩), fun h x => ?_⟩
  constructor
  · rintro ⟨a, ha, rfl, hx⟩
    rcases (hmem a).mp ha with hp | ⟨haS, hne⟩
    · obtain ⟨hxl, hxd⟩ := (hbytes x).mp ⟨a, hp, hx⟩
      exact ⟨⟨l, hl, (hps a hp).symm, hxl⟩, fun hcut => hxd hcut.2.2⟩
    · refine ⟨⟨a, haS, rfl, hx⟩, fun hcut => ?_⟩
      exact hS.separate a haS l hl hne hcut.1 (overlaps_of_mem hx hcut.2.1).touches
  · rintro ⟨⟨a, ha, rfl, hx⟩, hkeep⟩
    by_cases heq : a = l
    · subst heq
      obtain ⟨p, hp, hxp⟩ := (hbytes x).mpr ⟨hx, fun hxd => hkeep ⟨rfl, hx, hxd⟩⟩
      exact ⟨p, (hmem p).mpr (.inl hp), hps p hp, hxp⟩
    · exact ⟨a, (hmem a).mpr (.inr ⟨ha, heq⟩), rfl, hx⟩

/-- A part of the erased lock `l` can be inserted: whatever `l` was apart from, its part is. -/
lemma NormalForm.insert_part
    (hT : T.NormalForm) {p : RangeLockDetails} (hp : p.WF) (hh : p.handle = l.handle)
    (hs : l.start ≤ p.start) (he : p.endPos ≤ l.endPos)
    (hsub : ∀ a ∈ T.locks, (a ∈ S.locks ∧ a ≠ l) ∨ ¬ p.Touches a) :
    (T.insert p).NormalForm ∧ ∀ a, a ∈ (T.insert p).locks ↔ a = p ∨ a ∈ T.locks := by
  refine hT.insert hp (fun a ha hcomp hov => ?_) fun a ha heq hto => ?_
  · rcases hsub a ha with ⟨haS, hne⟩ | hnot
    · exact hS.apart a haS l hl hne (competes_symm (hh ▸ hcomp)) (hov.symm.mono hs he)
    · exact hnot hov.touches
  · rcases hsub a ha with ⟨haS, hne⟩ | hnot
    · exact hS.separate a haS l hl hne (heq.symm.trans hh) (hto.symm.mono hs he)
    · exact hnot hto

/-- A lock within the request is erased. -/
lemma NormalForm.cut_erase (hs : d.start ≤ l.start)
    (he : l.endPos ≤ d.endPos) : Cut S l d (S.erase l) := by
  refine hS.cut_of_parts hl (hS.erase l) [] (fun a => ?_) nofun fun x => ?_
  · rw [mem_locks_erase hl]
    simp
  · simp only [not_mem_nil, false_and, exists_false, mem_bytes, false_iff]
    omega

/-- A lock of which one part remains is erased and the part inserted. -/
lemma NormalForm.cut_insert {p : RangeLockDetails}
    (hp : p.WF) (hh : p.handle = l.handle) (hs : l.start ≤ p.start) (he : p.endPos ≤ l.endPos)
    (hbytes : ∀ x, x ∈ p.bytes ↔ x ∈ l.bytes ∧ x ∉ d.bytes) : Cut S l d ((S.erase l).insert p) := by
  obtain ⟨hnf, hmem⟩ := hS.insert_part hl (hS.erase l) hp hh hs he
    fun a ha => .inl ((mem_locks_erase hl).mp ha)
  refine hS.cut_of_parts hl hnf [p] (fun a => ?_) (fun q hq => mem_singleton.mp hq ▸ hh) fun x => ?_
  · rw [hmem, mem_locks_erase hl, mem_singleton]
  · rw [← hbytes x]
    simp

/-- A lock around the request is split. -/
lemma NormalForm.cut_split (hd : d.WF) (hs : l.start < d.start) (he : d.endPos < l.endPos) :
    Cut S l d (((S.erase l).insert (l.split d).1).insert (l.split d).2) := by
  have hl2 := (hS.wf l hl).2
  have hd1 := hd.1
  rw [split_eq hd (by omega)]
  set p : RangeLockDetails := { l with endPos := d.start - 1 } with hp
  set q : RangeLockDetails := { l with start := d.endPos + 1 } with hq
  have hpWF : p.WF := by
    refine ⟨?_, ?_⟩ <;> simp only [hp] <;> omega
  have hqWF : q.WF := by
    refine ⟨?_, ?_⟩ <;> simp only [hq] <;> omega
  have hpq : ¬ q.Touches p := by
    rw [touches_def]
    simp only [hp, hq]
    omega
  obtain ⟨hnf, hmem⟩ := hS.insert_part hl (hS.erase l) hpWF rfl le_rfl
    (by simp only [hp]; omega) fun a ha => .inl ((mem_locks_erase hl).mp ha)
  obtain ⟨hnf', hmem'⟩ := hS.insert_part hl hnf hqWF rfl (by simp only [hq]; omega) le_rfl (by
    intro a ha
    rcases (hmem a).mp ha with rfl | ha
    · exact .inr hpq
    · exact .inl ((mem_locks_erase hl).mp ha))
  refine hS.cut_of_parts hl hnf' [q, p] (fun a => ?_) ?_ fun x => ?_
  · rw [hmem', hmem, mem_locks_erase hl]
    simp only [mem_cons, not_mem_nil, or_false, or_assoc]
  · intro r hr
    rcases mem_pair.mp hr with rfl | rfl <;> rfl
  · simp only [mem_cons, not_mem_nil, or_false, exists_eq_or_imp, exists_eq_left,
      mem_bytes, hp, hq]
    omega

/-- A lock of which the request covers one end is trimmed. -/
lemma NormalForm.cut_trim (hov : d.Overlaps l)
    (hside : (d.start ≤ l.start ∧ d.endPos < l.endPos) ∨
      (l.start < d.start ∧ l.endPos ≤ d.endPos)) :
    Cut S l d ((S.erase l).insert (l.trim d)) := by
  have hl2 := (hS.wf l hl).2
  obtain ⟨_, _⟩ := overlaps_def.mp hov
  rcases hside with ⟨hs, he⟩ | ⟨hs, he⟩
  · rw [trim, if_pos he, wrap64_of_lt (by omega)]
    refine hS.cut_insert hl ⟨?_, hl2⟩ rfl ?_ le_rfl fun x => ?_
    · exact he
    · change l.start ≤ d.endPos + 1
      omega
    · simp only [mem_bytes]
      omega
  · rw [trim, if_neg (by omega), wrap64_pred (by omega) (by omega)]
    refine hS.cut_insert hl ⟨?_, ?_⟩ rfl le_rfl ?_ fun x => ?_
    · change l.start ≤ d.start - 1
      omega
    · change d.start - 1 < 2 ^ 63
      omega
    · change d.start - 1 ≤ l.endPos
      omega
    · simp only [mem_bytes]
      omega

end

/-- What the loop of `flockRangeUnlock` over the locks `ls` does: the owner loses the bytes of the
request that these locks cover. -/
structure Released (S : RangeLockSet lt) (d : RangeLockDetails) (lockRemoved : Bool)
    (ls : List RangeLockDetails) (U : Unlocked lt) : Prop where
  normalForm : U.set.NormalForm
  held : ∀ h x, U.set.Held h x ↔ S.Held h x ∧
    ¬ (h = d.handle ∧ x ∈ d.bytes ∧ ∃ l ∈ ls, l.handle = d.handle ∧ x ∈ l.bytes)
  lockRemoved : U.lockRemoved = true ↔
    lockRemoved = true ∨ ∃ l ∈ ls, l.handle = d.handle ∧ d.Overlaps l
  covers : U.returned = true → ∀ x ∈ d.bytes, S.Held d.handle x
  unchanged : (∀ l ∈ ls, ¬ (l.handle = d.handle ∧ d.Overlaps l)) → U.set = S

variable {ls : List RangeLockDetails} {U : Unlocked lt} {removed : Bool}

/-- If no lock of `ls` is concerned, nothing happens. -/
lemma Released.of_forall (hnone : ∀ l ∈ ls, ¬ (l.handle = d.handle ∧ d.Overlaps l)) :
    Released S d removed ls ⟨S, removed, false⟩ where
  normalForm := hS
  held h x := by
    refine ⟨fun hx => ⟨hx, ?_⟩, And.left⟩
    rintro ⟨-, hxd, l, hl, hown, hxl⟩
    exact hnone l hl ⟨hown, overlaps_of_mem hxd hxl⟩
  lockRemoved := ⟨.inl, fun h => h.elim id fun ⟨l, hl, hm⟩ => absurd hm (hnone l hl)⟩
  covers h := nomatch h
  unchanged _ := rfl

end

/-- A lock that is not concerned can be skipped. -/
lemma Released.skip (hl : ¬ (l.handle = d.handle ∧ d.Overlaps l))
    (h : Released S d removed ls U) : Released S d removed (l :: ls) U where
  normalForm := h.normalForm
  held k x := by
    rw [h.held, exists_mem_cons_iff]
    refine and_congr_right fun _ => not_congr (and_congr_right fun _ =>
      and_congr_right fun hx => ?_)
    exact ⟨.inr, fun hm => hm.resolve_left fun hm =>
      hl ⟨hm.1, overlaps_of_mem hx hm.2⟩⟩
  lockRemoved := by
    rw [h.lockRemoved, exists_mem_cons_iff]
    exact or_congr_right ⟨.inr, fun hm => hm.resolve_left hl⟩
  covers := h.covers
  unchanged hnone := h.unchanged fun a ha => hnone a (mem_cons_of_mem l ha)

/-- The request is cut out of a lock of the owner, and the loop goes on. -/
lemma Released.cut (hcut : Cut S l d T) (hown : l.handle = d.handle)
    (hov : d.Overlaps l) (h : Released T d true ls U) : Released S d removed (l :: ls) U where
  normalForm := h.normalForm
  held k x := by
    rw [h.held, hcut.held, exists_mem_cons_iff, hown]
    generalize (∃ a ∈ ls, a.handle = d.handle ∧ x ∈ a.bytes) = later
    tauto
  lockRemoved := by
    rw [h.lockRemoved, exists_mem_cons_iff]
    exact iff_of_true (.inl rfl) (.inr (.inl ⟨hown, hov⟩))
  covers hr x hx := ((hcut.held _ _).mp (h.covers hr x hx)).1
  unchanged hnone := absurd ⟨hown, hov⟩ (hnone l mem_cons_self)

/-- A lock of the owner covers the whole request: the function returns, and no other lock of the
owner has a byte of the request. -/
lemma Released.of_covered (hl : l ∈ S.locks) (hd : d.WF)
    (hcut : Cut S l d T) (hown : l.handle = d.handle) (hs : l.start ≤ d.start)
    (he : d.endPos ≤ l.endPos) : Released S d removed (l :: ls) ⟨T, true, true⟩ := by
  have hin : ∀ x ∈ d.bytes, x ∈ l.bytes := fun x hx => ⟨hs.trans hx.1, hx.2.trans he⟩
  have hov : d.Overlaps l := overlaps_of_mem ⟨le_rfl, hd.1⟩ (hin _ ⟨le_rfl, hd.1⟩)
  refine ⟨hcut.normalForm, fun k x => ?_, ?_, fun _ x hx => ⟨l, hl, hown, hin x hx⟩,
    fun hnone => ?_⟩
  · rw [hcut.held, hown]
    refine and_congr_right fun _ => not_congr ⟨?_, ?_⟩
    · rintro ⟨hk, hxl, hxd⟩
      exact ⟨hk, hxd, l, mem_cons_self, hown, hxl⟩
    · rintro ⟨hk, hxd, -⟩
      exact ⟨hk, hin x hxd, hxd⟩
  · exact iff_of_true rfl (.inr ⟨l, mem_cons_self, hown, hov⟩)
  · exact absurd ⟨hown, hov⟩ (hnone l mem_cons_self)

section

variable (hS : S.NormalForm)

include hS

open Released

/-- The loop of `flockRangeUnlock` does what `Released` says. -/
lemma NormalForm.unlockLoop (hd : d.WF) (removed : Bool)
    (ls : List RangeLockDetails) (hls : ∀ a ∈ ls, a ∈ S.locks)
    (hsort : ls.Pairwise fun a b => lt a b = true) :
    Released S d removed ls (S.unlockLoop d removed ls) := by
  induction ls generalizing S removed with
  | nil => exact of_forall hS nofun
  | cons l ls ih =>
    obtain ⟨hl, hls'⟩ := forall_mem_cons.mp hls
    have hsort' := List.Pairwise.of_cons hsort
    have hnot := not_mem_of_sorted hsort
    -- after a cut the loop goes on with the other locks
    have hgo : ∀ T, Cut S l d T → Released T d true ls (T.unlockLoop d true ls) := fun T hcut =>
      ih hcut.normalForm true (fun a ha => hcut.keeps a (hls' a ha) fun heq => hnot (heq ▸ ha))
        hsort'
    rw [RangeLockSet.unlockLoop]
    cases hstop : inRange lt l d.endPos with
    | false =>
      refine of_forall hS fun a ha hm => ?_
      have hbeh := lt_start_of_not_inRange hsort hstop a ha
      have hov := overlaps_def.mp hm.2
      omega
    | true =>
      rw [Bool.not_true, if_neg Bool.false_ne_true]
      cases hhdl : d.equalsHandle l with
      | false =>
        rw [equalsHandle_eq_false_iff] at hhdl
        exact (ih hS removed hls' hsort').skip fun hm => hhdl hm.1.symm
      | true =>
        rw [Bool.not_true, if_neg Bool.false_ne_true]
        have hown : l.handle = d.handle := (equalsHandle_iff.mp hhdl).symm
        have hspec := overlapsEx_spec d l
        cases hex : d.overlapsEx l <;> rw [hex] at hspec <;> simp only at hspec ⊢
        case none => exact (ih hS removed hls' hsort').skip fun hm => hspec hm.2
        case equals =>
          exact of_covered hl hd (hS.cut_erase hl hspec.1.ge hspec.2.le) hown hspec.1.le hspec.2.ge
        case contains =>
          obtain ⟨hov, hs, he, -⟩ := hspec
          exact cut (hS.cut_erase hl hs he) hown hov (hgo _ (hS.cut_erase hl hs he))
        case isContained =>
          obtain ⟨hov, hs, he, _⟩ := hspec
          split_ifs with hside
          · rw [Bool.or_eq_true, decide_eq_true_eq, decide_eq_true_eq] at hside
            exact of_covered hl hd (hS.cut_trim hl hov (by omega)) hown hs he
          · rw [Bool.or_eq_true, decide_eq_true_eq, decide_eq_true_eq] at hside
            exact of_covered hl hd (hS.cut_split hl hd (by omega) (by omega)) hown hs he
        case startOverlap =>
          have hov : d.Overlaps l := overlaps_def.mpr (by omega)
          have hcut := hS.cut_trim hl hov (.inl ⟨hspec.1.le, hspec.2.2⟩)
          exact cut hcut hown hov (hgo _ hcut)
        case endOverlap =>
          have hov : d.Overlaps l := overlaps_def.mpr (by omega)
          have hcut := hS.cut_trim hl hov (.inr ⟨hspec.1, hspec.2.2.le⟩)
          exact cut hcut hown hov (hgo _ hcut)

/-- What the loop of `flockRangeUnlock` over a whole set does. -/
structure UnlockedAll (S : RangeLockSet lt) (d : RangeLockDetails) (lockRemoved : Bool)
    (U : Unlocked lt) : Prop where
  normalForm : U.set.NormalForm
  held : ∀ h x, U.set.Held h x ↔ S.Held h x ∧ ¬ (h = d.handle ∧ x ∈ d.bytes)
  lockRemoved : U.lockRemoved = true ↔ lockRemoved = true ∨ ∃ x ∈ d.bytes, S.Held d.handle x
  covers : U.returned = true → ∀ x ∈ d.bytes, S.Held d.handle x
  unchanged : (¬ ∃ x ∈ d.bytes, S.Held d.handle x) → U.set = S

theorem NormalForm.unlockedAll (hd : d.WF) (removed : Bool) :
    UnlockedAll S d removed (S.unlockLoop d removed S.locks.elems) := by
  have hR := hS.unlockLoop hd removed S.locks.elems (fun a ha => ha) S.locks.sorted
  have hov : (∃ l ∈ S.locks.elems, l.handle = d.handle ∧ d.Overlaps l) ↔
      ∃ x ∈ d.bytes, S.Held d.handle x := by
    constructor
    · rintro ⟨l, hl, hown, hov⟩
      obtain ⟨x, hxd, hxl⟩ := (overlaps_iff_exists hd (hS.wf l hl)).mp hov
      exact ⟨x, hxd, l, hl, hown, hxl⟩
    · rintro ⟨x, hxd, l, hl, hown, hxl⟩
      exact ⟨l, hl, hown, overlaps_of_mem hxd hxl⟩
  refine ⟨hR.normalForm, fun h x => ?_, ?_, hR.covers, fun hnone => ?_⟩
  · rw [hR.held]
    refine and_congr_right fun hheld => not_congr ⟨fun hm => ⟨hm.1, hm.2.1⟩, fun hm => ?_⟩
    obtain ⟨l, hl, hown, hxl⟩ := hheld
    exact ⟨hm.1, hm.2, l, hl, hown.trans hm.1, hxl⟩
  · rw [hR.lockRemoved, hov]
  · exact hR.unchanged fun l hl hm => hnone (hov.mp ⟨l, hl, hm⟩)

end

/-! ## Looking up a range -/

section

variable (hsep : ∀ a ∈ S.locks, ∀ b ∈ S.locks, a ≠ b → a.handle = b.handle → ¬ a.Touches b)

include hsep

/-- The first lock of the owner that overlaps the range decides, and rightly so: if another one
covered the range, the two would overlap. -/
lemma isGrantedLoop_iff_covered (hd : d.WF)
    (ls : List RangeLockDetails) (hls : ∀ a ∈ ls, a ∈ S.locks)
    (hsort : ls.Pairwise fun a b => lt a b = true) :
    isGrantedLoop lt d ls = true ↔
      ∃ l ∈ ls, l.handle = d.handle ∧ l.start ≤ d.start ∧ d.endPos ≤ l.endPos := by
  induction ls with
  | nil => simp [isGrantedLoop]
  | cons l ls ih =>
    obtain ⟨hl, hls'⟩ := forall_mem_cons.mp hls
    have ih' := ih hls' (List.Pairwise.of_cons hsort)
    have hd1 := hd.1
    have hskip : ¬ (l.handle = d.handle ∧ l.start ≤ d.start ∧ d.endPos ≤ l.endPos) →
        (isGrantedLoop lt d ls = true ↔
          ∃ a ∈ l :: ls, a.handle = d.handle ∧ a.start ≤ d.start ∧ d.endPos ≤ a.endPos) := by
      intro hnot
      rw [ih', exists_mem_cons_iff]
      exact ⟨.inr, fun hm => hm.resolve_left hnot⟩
    rw [isGrantedLoop]
    cases hstop : inRange lt l d.endPos with
    | false =>
      refine iff_of_false (by simp) ?_
      rintro ⟨a, ha, -, hs, -⟩
      have hbeh := lt_start_of_not_inRange hsort hstop a ha
      omega
    | true =>
      rw [Bool.not_true, if_neg Bool.false_ne_true]
      cases hhdl : d.equalsHandle l with
      | false =>
        rw [equalsHandle_eq_false_iff] at hhdl
        exact hskip fun hm => hhdl hm.1.symm
      | true =>
        rw [Bool.not_true, if_neg Bool.false_ne_true]
        have hown : l.handle = d.handle := (equalsHandle_iff.mp hhdl).symm
        have hnotCov : d.Overlaps l → (d.start < l.start ∨ l.endPos < d.endPos) →
            ¬ ∃ a ∈ l :: ls, a.handle = d.handle ∧ a.start ≤ d.start ∧ d.endPos ≤ a.endPos := by
          rintro hov _ ⟨a, ha, haown, hs, he⟩
          have hne : l ≠ a := by
            rintro rfl
            omega
          refine hsep l hl a (hls a ha) hne (hown.trans haown.symm) ?_
          exact (hov.symm.mono hs he).touches
        have hspec := overlapsEx_spec d l
        cases hex : d.overlapsEx l <;> rw [hex] at hspec <;> simp only at hspec ⊢
        case none =>
          refine hskip fun hm => hspec (overlaps_def.mpr ?_)
          omega
        case equals => exact iff_of_true trivial ⟨l, mem_cons_self, hown, hspec.1.le, hspec.2.ge⟩
        case isContained =>
          exact iff_of_true trivial ⟨l, mem_cons_self, hown, hspec.2.1, hspec.2.2.1⟩
        case contains => exact iff_of_false (by simp) (hnotCov hspec.1 hspec.2.2.2)
        case startOverlap =>
          refine iff_of_false (by simp) (hnotCov (overlaps_def.mpr ?_) ?_)
          · omega
          · exact .inl hspec.1
        case endOverlap =>
          refine iff_of_false (by simp) (hnotCov (overlaps_def.mpr ?_) ?_)
          · omega
          · exact .inr hspec.2.2

/-- The loop of `flockRangeIsGranted` tells whether the owner holds the whole range.  If the locks
of a handle do not touch, the bytes of a range that the owner holds completely lie in one lock: a
lock that ends within the range has a free byte behind it. -/
lemma isGrantedLoop_iff (hd : d.WF) :
    isGrantedLoop lt d S.locks.elems = true ↔ ∀ x ∈ d.bytes, S.Held d.handle x := by
  rw [isGrantedLoop_iff_covered hsep hd S.locks.elems (fun _ ha => ha) S.locks.sorted]
  constructor
  · rintro ⟨l, hl, hown, hs, he⟩ x hx
    exact ⟨l, hl, hown, hs.trans hx.1, hx.2.trans he⟩
  · intro hall
    obtain ⟨l, hl, hown, hxl⟩ := hall d.start ⟨le_rfl, hd.1⟩
    refine ⟨l, hl, hown, hxl.1, ?_⟩
    by_contra hlt
    have hxl2 := hxl.2
    obtain ⟨m, hm, hmown, hxm⟩ := hall (l.endPos + 1) ⟨by omega, by omega⟩
    have hne : l ≠ m := by
      rintro rfl
      exact absurd hxm.2 (by omega)
    have hle := hxl.1.trans (hxl.2.trans (Nat.le_of_succ_le hxm.2))
    exact hsep l hl m hm hne (hown.trans hmown.symm) ⟨hxm.1, Nat.le_succ_of_le hle⟩

end

lemma conflictLoop_iff (hsort : ls.Pairwise fun a b => lt a b = true) :
    conflictLoop lt d ls = true ↔ ∃ l ∈ ls, l.handle ≠ d.handle ∧ d.Overlaps l := by
  induction ls with
  | nil => simp [conflictLoop]
  | cons l ls ih =>
    rw [conflictLoop]
    split_ifs with hstop hconf
    · rw [Bool.not_eq_true'] at hstop
      refine iff_of_false (by simp) ?_
      rintro ⟨a, ha, -, hov⟩
      have hbeh := lt_start_of_not_inRange hsort hstop a ha
      have hov' := overlaps_def.mp hov
      omega
    · rw [conflict_eq_true_iff] at hconf
      exact iff_of_true rfl ⟨l, mem_cons_self, hconf⟩
    · rw [conflict_eq_true_iff] at hconf
      rw [ih (pairwise_cons.mp hsort).2, exists_mem_cons_iff]
      exact ⟨.inr, fun hm => hm.resolve_left hconf⟩

end Beegfs.RangeLockSet
