import Beegfs.Fsck.Contents

/-!
# Stripe patterns in the database

A file inode has a row of fixed size, with the first six targets of its stripe pattern.  The others
are in rows of a second table, seven in each, with the place of the first one in the pattern
(`rowLoop`).  The checks put a pattern together again with `StripeSet`.  The place is a number of 16
bits: with more than 65540 targets it wraps around, and a row is put at a wrong place.
-/

namespace Beegfs.Db

open Nat

/-! ## Rows -/

inductive FsckStripePatternType
  | invalid
  | raid0
  | buddyMirror
deriving DecidableEq

/-- What an inode has besides its identity, its size and its pattern, and what fsck only passes
on. -/
structure InodeAttribs where
  parentDirID : EntryID
  origParentEntryID : EntryID
  parentNodeID : ℕ
  origParentUID : ℕ
  uid : ℕ
  gid : ℕ
  usedBlocks : ℕ
  pathInfoFlags : ℕ
  isInlined : Bool
  readable : Bool
  isBuddyMirrored : Bool
  isMismirrored : Bool
deriving DecidableEq, Inhabited

/-- A file inode as fsck handles it outside of the database. -/
structure FsckFileInode where
  id : EntryID
  saveNodeID : ℕ
  saveInode : ℕ
  saveDevice : ℤ
  fileSize : ℕ
  numHardlinks : ℕ
  chunkSize : ℕ
  stripeTargets : List ℕ
  stripePatternType : FsckStripePatternType
  attribs : InodeAttribs
deriving DecidableEq

structure FileInode where
  id : EntryID
  saveNodeID : ℕ
  saveInode : ℕ
  saveDevice : ℤ
  fileSize : ℕ
  numHardlinks : ℕ
  chunkSize : ℕ
  /-- The first targets of the pattern. -/
  targets : Vector ℕ 6
  stripePatternType : FsckStripePatternType
  /-- The length of the pattern, in 20 bits. -/
  stripePatternSize : ℕ
  attribs : InodeAttribs
deriving DecidableEq

namespace FileInode

instance : Inhabited FileInode :=
  ⟨⟨default, 0, 0, 0, 0, 0, 0, .replicate 6 0, .invalid, 0, default⟩⟩

def pkey (inode : FileInode) : EntryID := inode.id

end FileInode

/-- Seven targets of a pattern, from the place `firstTargetIndex` on. -/
structure StripeTargets where
  id : EntryID
  targets : Vector ℕ 7
  /-- The place in the pattern, in 16 bits. -/
  firstTargetIndex : ℕ
deriving DecidableEq

namespace StripeTargets

instance : Inhabited StripeTargets := ⟨⟨default, .replicate 7 0, 0⟩⟩

def pkey (r : StripeTargets) : EntryID := r.id

end StripeTargets

/-! ## From patterns to rows -/

namespace FsckFileInode

/-- The variables of the loop of `insert`: the targets of the inode, those that were collected for
the next row and their place, and the rows that are complete. -/
structure RowLoop where
  targets : Vector ℕ 6
  extraTargets : Vector ℕ 7
  firstTargetIndex : ℕ
  rows : List StripeTargets

/-- The target at place `i` of the pattern. -/
def rowStep (id : EntryID) (i : ℕ) (s : RowLoop) (t : ℕ) : RowLoop :=
  if h : i < 6 then { s with targets := s.targets.set i t }
  else
    let offsetInPattern := (i - 6) % 7
    let firstTargetIndex := if offsetInPattern = 0 then i % 2 ^ 16 else s.firstTargetIndex
    let extraTargets := s.extraTargets.set offsetInPattern t (mod_lt _ (by decide))
    if offsetInPattern = 6 then
      { s with
        extraTargets
        firstTargetIndex := 0
        rows := s.rows ++ [⟨id, extraTargets, firstTargetIndex⟩] }
    else { s with extraTargets, firstTargetIndex }

def rowLoop (id : EntryID) : ℕ → List ℕ → RowLoop → RowLoop
  | _, [], s => s
  | i, t :: ts, s => rowLoop id (i + 1) ts (rowStep id i s t)

variable (f : FsckFileInode)

/-- The loop over all targets of the inode. -/
def loop : RowLoop := rowLoop f.id 0 f.stripeTargets ⟨.replicate 6 0, .replicate 7 0, 0, []⟩

/-- The row for the table of inodes. -/
def inodeRow : FileInode where
  id := f.id
  saveNodeID := f.saveNodeID
  saveInode := f.saveInode
  saveDevice := f.saveDevice
  fileSize := f.fileSize
  numHardlinks := f.numHardlinks
  chunkSize := f.chunkSize
  targets := f.loop.targets
  stripePatternType := f.stripePatternType
  stripePatternSize := f.stripeTargets.length % 2 ^ 20
  attribs := f.attribs

/-- The rows for the table of targets.  The last one may be incomplete. -/
def targetRows : List StripeTargets :=
  f.loop.rows ++
    if f.loop.firstTargetIndex ≠ 0 then [⟨f.id, f.loop.extraTargets, f.loop.firstTargetIndex⟩]
    else []

end FsckFileInode

/-! ## From rows to patterns -/

namespace StripeSet

/-- `add(inode)`: the targets of the inode, and room for the others. -/
def addInode (targets : List ℕ) (inode : FileInode) : List ℕ :=
  if targets.isEmpty then
    inode.targets.toList.take inode.stripePatternSize ++ .replicate (inode.stripePatternSize - 6) 0
  else targets

/-- `add(moreTargets)`: a row of targets, as far as the pattern goes.  The source writes behind the
end of the pattern if the row starts there; here nothing is written then. -/
def addTargets (targets : List ℕ) (r : StripeTargets) : List ℕ :=
  let count := min 7 (targets.length - r.firstTargetIndex)
  targets.take r.firstTargetIndex ++ r.targets.toList.take count ++
    targets.drop (r.firstTargetIndex + count)

end StripeSet

/-! ## What the loop computes -/

namespace FsckFileInode

variable {id : EntryID} {l : List ℕ} {i : ℕ} {s : RowLoop}

variable (id l i) in
/-- The loop has come to place `i` of the pattern `l`. -/
structure LoopAt (s : RowLoop) : Prop where
  targets : ∀ j (hj : j < 6), j < i → l[j]? = some s.targets[j]
  count : s.rows.length = (i - 6) / 7
  rows : ∀ k r, s.rows[k]? = some r → r.id = id ∧ r.firstTargetIndex = (6 + 7 * k) % 2 ^ 16 ∧
    ∀ j (hj : j < 7), l[6 + 7 * k + j]? = some r.targets[j]
  extra : ∀ j (hj : j < 7), j < (i - 6) % 7 → l[i - (i - 6) % 7 + j]? = some s.extraTargets[j]
  first : s.firstTargetIndex = if (i - 6) % 7 = 0 then 0 else (i - (i - 6) % 7) % 2 ^ 16

lemma loopAt_start (id : EntryID) (l : List ℕ) :
    LoopAt id l 0 ⟨.replicate 6 0, .replicate 7 0, 0, []⟩ := by
  exact ⟨nofun, rfl, nofun, nofun, rfl⟩

section

variable (h : LoopAt id l i s)

include h

/-- The first six targets are put into the inode. -/
lemma LoopAt.step_inode {t : ℕ} (ht : l[i]? = some t) (hi : i < 6) :
    LoopAt id l (i + 1) (rowStep id i s t) := by
  have hzero : i - 6 = 0 := by omega
  have hzero' : i + 1 - 6 = 0 := by omega
  have hfirst := h.first
  have hcount := h.count
  rw [hzero] at hfirst hcount
  rw [rowStep, dif_pos hi]
  refine ⟨fun j hj hlt => ?_, ?_, h.rows, fun j _ hlt => ?_, ?_⟩
  · rcases Nat.lt_or_eq_of_le (le_of_lt_succ hlt) with hlt | rfl
    · rw [Vector.getElem_set_ne _ _ (by omega)]
      exact h.targets j hj hlt
    · rw [Vector.getElem_set_self, ht]
  · rw [hzero']
    exact hcount
  · rw [hzero'] at hlt
    nomatch hlt
  · rw [hzero']
    exact hfirst

/-- The targets that are collected for a row, with the one at place `i`. -/
lemma LoopAt.extra_set {t : ℕ} (ht : l[i]? = some t) (hi : 6 ≤ i) {j : ℕ}
    (hj : j < 7) (hle : j ≤ (i - 6) % 7) :
    l[i - (i - 6) % 7 + j]? =
      some (s.extraTargets.set ((i - 6) % 7) t (mod_lt _ (by decide)))[j] := by
  rcases Nat.lt_or_eq_of_le hle with hlt | heq
  · rw [Vector.getElem_set_ne _ _ (by omega)]
    exact h.extra j hj hlt
  · have hplace : i - (i - 6) % 7 + j = i := by omega
    subst heq
    rw [Vector.getElem_set_self, hplace, ht]

/-- The place of the row that is collected. -/
lemma LoopAt.first_eq :
    (if (i - 6) % 7 = 0 then i % 2 ^ 16 else s.firstTargetIndex) = (i - (i - 6) % 7) % 2 ^ 16 := by
  split_ifs with hzero
  · rw [hzero, Nat.sub_zero]
  · rw [h.first, if_neg hzero]

/-- The last target of a row. -/
lemma LoopAt.step_row {t : ℕ} (ht : l[i]? = some t) (hi : 6 ≤ i)
    (hoff : (i - 6) % 7 = 6) : LoopAt id l (i + 1) (rowStep id i s t) := by
  have hnext : (i + 1 - 6) % 7 = 0 := by omega
  have hplace : i - (i - 6) % 7 = 6 + 7 * ((i - 6) / 7) := by omega
  rw [rowStep, dif_neg (by omega)]
  simp only [if_pos hoff]
  refine ⟨fun j hj hlt => h.targets j hj (by omega), ?_, fun k r hr => ?_, fun j hj hlt => ?_, ?_⟩
  · rw [List.length_append, h.count, List.length_singleton]
    omega
  · rcases Nat.lt_or_ge k s.rows.length with hlt | hge
    · rw [List.getElem?_append_left hlt] at hr
      exact h.rows k r hr
    · rw [List.getElem?_append_right hge] at hr
      obtain ⟨hk, rfl⟩ := List.getElem?_eq_some_iff.mp hr
      have hk : k = (i - 6) / 7 := by
        rw [List.length_singleton] at hk
        have hcount := h.count
        omega
      subst hk
      refine ⟨?_, ?_, fun j hj => ?_⟩
      · simp
      · simp only [List.getElem_singleton]
        rw [h.first_eq, hplace]
      · simp only [List.getElem_singleton]
        rw [← hplace]
        exact h.extra_set ht hi hj (by omega)
  · rw [hnext] at hlt
    nomatch hlt
  · rw [hnext]
    rfl

lemma LoopAt.step {t : ℕ} (ht : l[i]? = some t) : LoopAt id l (i + 1) (rowStep id i s t) := by
  rcases Nat.lt_or_ge i 6 with hi | hi
  · exact h.step_inode ht hi
  · by_cases hoff : (i - 6) % 7 = 6
    · exact h.step_row ht hi hoff
    · -- A further target of a row that is not complete with it.
      have hplace : i + 1 - (i + 1 - 6) % 7 = i - (i - 6) % 7 := by omega
      rw [rowStep, dif_neg (by omega)]
      simp only [if_neg hoff]
      refine ⟨fun j hj hlt => h.targets j hj (by omega), h.count.trans (by omega), h.rows,
        fun j hj hlt => ?_, ?_⟩
      · rw [hplace]
        exact h.extra_set ht hi hj (by omega)
      · refine h.first_eq.trans ?_
        rw [if_neg (by omega), hplace]

/-- The loop over the rest of the pattern. -/
lemma LoopAt.run {ts : List ℕ} (hts : l.drop i = ts) (hi : i ≤ l.length) :
    LoopAt id l l.length (rowLoop id i ts s) := by
  induction ts generalizing i s with
  | nil =>
    have hlen : i = l.length := Nat.le_antisymm hi (List.drop_eq_nil_iff.mp hts)
    rw [hlen] at h
    exact h
  | cons t ts ih =>
    have ht : l[i]? = some t := by
      rw [← List.head?_drop, hts]
      rfl
    obtain ⟨hlt, -⟩ := List.getElem?_eq_some_iff.mp ht
    refine ih (h.step ht) ?_ hlt
    rw [← List.tail_drop, hts]
    rfl

end

lemma loopAt_loop (f : FsckFileInode) : LoopAt f.id f.stripeTargets f.stripeTargets.length f.loop :=
  (loopAt_start f.id f.stripeTargets).run (List.drop_zero) (zero_le _)

/-- The inode has the first six targets. -/
lemma getElem?_stripeTargets (f : FsckFileInode) {j : ℕ} (hj : j < 6)
    (hlt : j < f.stripeTargets.length) :
    f.stripeTargets[j]? = some f.inodeRow.targets[j] := (loopAt_loop f).targets j hj hlt

variable (id l) in
/-- The row has the targets from place `6 + 7 * k` of the pattern on, as far as there are any. -/
structure IsRow (k : ℕ) (r : StripeTargets) : Prop where
  id : r.id = id
  first : r.firstTargetIndex = (6 + 7 * k) % 2 ^ 16
  value : ∀ j (hj : j < 7), 6 + 7 * k + j < l.length → l[6 + 7 * k + j]? = some r.targets[j]

variable {f : FsckFileInode}

/-- The rows of a pattern, unless its last row is incomplete and its place is taken for none. -/
lemma targetRows_spec (hlast : (f.stripeTargets.length - 6) % 7 = 0 ∨
      (f.stripeTargets.length - (f.stripeTargets.length - 6) % 7) % 2 ^ 16 ≠ 0) :
    f.targetRows.length = (f.stripeTargets.length - 6 + 6) / 7 ∧
      ∀ k r, f.targetRows[k]? = some r → IsRow f.id f.stripeTargets k r := by
  have h := loopAt_loop f
  have hcount := h.count
  have hrows : ∀ k r, f.loop.rows[k]? = some r → IsRow f.id f.stripeTargets k r := by
    intro k r hr
    obtain ⟨hid, hfirst, hvalue⟩ := h.rows k r hr
    exact ⟨hid, hfirst, fun j hj _ => hvalue j hj⟩
  rw [targetRows]
  by_cases hzero : (f.stripeTargets.length - 6) % 7 = 0
  · rw [if_neg (by simp [h.first, hzero]), List.append_nil]
    exact ⟨by omega, hrows⟩
  · have hne : f.loop.firstTargetIndex ≠ 0 := by
      rw [h.first, if_neg hzero]
      exact hlast.resolve_left hzero
    rw [if_pos hne]
    refine ⟨by rw [List.length_append, List.length_singleton]; omega, fun k r hr => ?_⟩
    rcases Nat.lt_or_ge k f.loop.rows.length with hlt | hge
    · rw [List.getElem?_append_left hlt] at hr
      exact hrows k r hr
    · rw [List.getElem?_append_right hge] at hr
      obtain ⟨hk, rfl⟩ := List.getElem?_eq_some_iff.mp hr
      rw [List.length_singleton] at hk
      have hplace : f.stripeTargets.length - (f.stripeTargets.length - 6) % 7 = 6 + 7 * k := by
        omega
      refine ⟨by simp, ?_, fun j hj hlt => ?_⟩
      · simp only [List.getElem_singleton]
        rw [h.first, if_neg hzero, hplace]
      · simp only [List.getElem_singleton]
        rw [← hplace]
        exact h.extra j hj (by omega)

/-- Every target of the rows is one of the pattern from place 6 on, or 0. -/
lemma rowLoop_values {P : ℕ → Prop} (ts : List ℕ) (hs : ∀ v ∈ s.extraTargets, P v)
    (hrows : ∀ r ∈ s.rows, ∀ v ∈ r.targets, P v) (hts : ∀ j v, 6 ≤ i + j → ts[j]? = some v → P v) :
    (∀ v ∈ (rowLoop id i ts s).extraTargets, P v) ∧
      ∀ r ∈ (rowLoop id i ts s).rows, ∀ v ∈ r.targets, P v := by
  induction ts generalizing i s with
  | nil => exact ⟨hs, hrows⟩
  | cons t ts ih =>
    have hrest : ∀ j v, 6 ≤ i + 1 + j → ts[j]? = some v → P v :=
      fun j v hj hv => hts (j + 1) v (by omega) hv
    rw [rowLoop, rowStep]
    split_ifs with hi
    · exact ih hs hrows hrest
    · have hset : ∀ v ∈ s.extraTargets.set ((i - 6) % 7) t (mod_lt _ (by decide)), P v := by
        intro v hv
        rcases Vector.mem_or_eq_of_mem_set hv with hv | rfl
        · exact hs v hv
        · exact hts 0 _ (by omega) rfl
      by_cases hoff : (i - 6) % 7 = 6
      · simp only [if_pos hoff]
        refine ih hset (fun r hr => ?_) hrest
        rcases List.mem_append.mp hr with hr | hr
        · exact hrows r hr
        · rw [List.mem_singleton.mp hr]
          exact hset
      · simp only [if_neg hoff]
        exact ih hset hrows hrest

lemma targetRows_values {P : ℕ → Prop} (hzero : P 0)
    (hts : ∀ j v, 6 ≤ j → f.stripeTargets[j]? = some v → P v) {r : StripeTargets}
    (hr : r ∈ f.targetRows) : ∀ v ∈ r.targets, P v := by
  have hreplicate : ∀ v ∈ Vector.replicate 7 0, P v := by
    intro v hv
    rw [Vector.eq_of_mem_replicate hv]
    exact hzero
  obtain ⟨hextra, hrows⟩ : (∀ v ∈ f.loop.extraTargets, P v) ∧ ∀ r ∈ f.loop.rows, ∀ v ∈ r.targets,
    P v :=
    rowLoop_values f.stripeTargets hreplicate nofun fun j v hj hv => hts j v (by omega) hv
  rcases List.mem_append.mp hr with hr | hr
  · exact hrows r hr
  · split_ifs at hr
    · rw [List.mem_singleton.mp hr]
      exact hextra
    · cases hr

end FsckFileInode

/-! ## Putting patterns together -/

namespace StripeSet

variable {targets : List ℕ} {r : StripeTargets} {p : ℕ}

lemma length_addTargets : (addTargets targets r).length = targets.length := by
  simp only [addTargets, List.length_append, List.length_take, List.length_drop,
    Vector.length_toList]
  omega

/-- A place that the row has a target for gets it. -/
lemma getElem?_addTargets {j : ℕ} (hj : j < 7) (hp : r.firstTargetIndex + j < targets.length) :
    (addTargets targets r)[r.firstTargetIndex + j]? = some r.targets[j] := by
  have hlen : (targets.take r.firstTargetIndex).length = r.firstTargetIndex := by
    rw [List.length_take]
    omega
  rw [addTargets, List.append_assoc, List.getElem?_append_right (by omega), hlen,
    List.getElem?_append_left, List.getElem?_take_of_lt (by omega)]
  · simp [hj]
  · rw [List.length_take, Vector.length_toList]
    omega

/-- The other places keep what they have. -/
lemma getElem?_addTargets_of_not (h : p < r.firstTargetIndex ∨ r.firstTargetIndex + 7 ≤ p) :
    (addTargets targets r)[p]? = targets[p]? := by
  rcases Nat.lt_or_ge p targets.length with hp | hp
  · rw [addTargets]
    rcases h with h | h
    · rw [List.append_assoc, List.getElem?_append_left (by rw [List.length_take]; omega),
        List.getElem?_take_of_lt h]
    · rw [List.getElem?_append_right (by simp; omega), List.getElem?_drop]
      congr 1
      simp
      omega
  · rw [List.getElem?_eq_none hp, List.getElem?_eq_none (length_addTargets.symm ▸ hp)]

variable {rows : List StripeTargets}

/-- Rows that agree on a place, one of which has it or which do not have to change it. -/
lemma getElem?_foldl_addTargets {v : ℕ} (hp : p < targets.length)
    (hrows : ∀ r ∈ rows, ∀ j (hj : j < 7), r.firstTargetIndex + j = p → r.targets[j] = v)
    (hsome : targets[p]? = some v ∨
      ∃ r ∈ rows, r.firstTargetIndex ≤ p ∧ p < r.firstTargetIndex + 7) :
    (rows.foldl addTargets targets)[p]? = some v := by
  induction rows generalizing targets with
  | nil =>
    rcases hsome with hsome | ⟨r, hr, -⟩
    · exact hsome
    · cases hr
  | cons r rest ih =>
    have hrest : ∀ r ∈ rest, ∀ j (hj : j < 7), r.firstTargetIndex + j = p → r.targets[j] = v :=
      fun r' hr' => hrows r' (List.mem_cons_of_mem _ hr')
    refine ih (by rwa [length_addTargets]) hrest ?_
    by_cases hcovers : r.firstTargetIndex ≤ p ∧ p < r.firstTargetIndex + 7
    · obtain ⟨j, rfl⟩ := Nat.exists_eq_add_of_le hcovers.1
      have hj : j < 7 := by omega
      left
      rw [getElem?_addTargets hj hp, hrows r List.mem_cons_self j hj rfl]
    · rcases hsome with hsome | ⟨r', hr', hcovers'⟩
      · left
        rw [getElem?_addTargets_of_not (by omega), hsome]
      · rcases List.mem_cons.mp hr' with rfl | hr'
        · exact absurd hcovers' hcovers
        · exact .inr ⟨r', hr', hcovers'⟩

/-- What is found at a place was there before, or is of a row. -/
lemma mem_of_getElem?_foldl_addTargets {v : ℕ} (h : (rows.foldl addTargets targets)[p]? = some v) :
    targets[p]? = some v ∨ ∃ r ∈ rows, v ∈ r.targets := by
  induction rows generalizing targets with
  | nil => exact .inl h
  | cons r rest ih =>
    rcases ih h with hold | ⟨r', hr', hv⟩
    · by_cases hcovers : r.firstTargetIndex ≤ p ∧ p < r.firstTargetIndex + 7
      · obtain ⟨j, rfl⟩ := Nat.exists_eq_add_of_le hcovers.1
        have hj : j < 7 := by omega
        have hp := (List.getElem?_eq_some_iff.mp hold).1
        rw [length_addTargets] at hp
        rw [getElem?_addTargets hj hp] at hold
        refine .inr ⟨r, List.mem_cons_self, ?_⟩
        rw [← Option.some.inj hold]
        exact Vector.getElem_mem hj
      · rw [getElem?_addTargets_of_not (by omega)] at hold
        exact .inl hold
    · exact .inr ⟨r', List.mem_cons_of_mem _ hr', hv⟩

lemma length_foldl_addTargets (rows : List StripeTargets) :
    (rows.foldl addTargets targets).length = targets.length := by
  induction rows generalizing targets with
  | nil => rfl
  | cons r rest ih => rw [List.foldl_cons, ih, length_addTargets]

lemma length_addInode_nil (inode : FileInode) :
    (addInode [] inode).length = inode.stripePatternSize := by
  simp only [addInode, List.isEmpty_nil, if_true, List.length_append, List.length_take,
    Vector.length_toList, List.length_replicate]
  omega

lemma getElem?_addInode_nil {inode : FileInode} (hp : p < 6) (hsize : p < inode.stripePatternSize) :
    (addInode [] inode)[p]? = some inode.targets[p] := by
  rw [addInode, List.isEmpty_nil, if_pos rfl, List.getElem?_append_left,
    List.getElem?_take_of_lt hsize]
  · simp [hp]
  · rw [List.length_take, Vector.length_toList]
    omega

/-- The places behind those of the inode are 0 at first. -/
lemma eq_zero_of_getElem?_addInode_nil {inode : FileInode} {v : ℕ} (hp : 6 ≤ p)
    (hv : (addInode [] inode)[p]? = some v) : v = 0 := by
  rw [addInode, List.isEmpty_nil, if_pos rfl, List.getElem?_append_right] at hv
  · exact List.eq_of_mem_replicate (List.mem_of_getElem? hv)
  · rw [List.length_take, Vector.length_toList]
    omega

/-- The rows of a pattern that is not too long, in any order and any number of times, are put
together to the pattern. -/
lemma foldl_addTargets_targetRows {f : FsckFileInode} (hlen : f.stripeTargets.length ≤ 65540)
    (hrows : ∀ r, r ∈ rows ↔ r ∈ f.targetRows) :
    rows.foldl addTargets (addInode [] f.inodeRow) = f.stripeTargets := by
  obtain ⟨_, htgtRows⟩ := FsckFileInode.targetRows_spec (f := f) (by omega)
  -- No row has a place that wraps around.
  have hfirst : ∀ k r, f.targetRows[k]? = some r → r.firstTargetIndex = 6 + 7 * k := by
    intro k r hr
    have hk := (List.getElem?_eq_some_iff.mp hr).1
    exact (htgtRows k r hr).first.trans (mod_eq_of_lt (by omega))
  have hsize : (addInode [] f.inodeRow).length = f.stripeTargets.length := by
    rw [length_addInode_nil]
    exact mod_eq_of_lt (by omega)
  refine List.ext_getElem? fun p => ?_
  rcases Nat.lt_or_ge p f.stripeTargets.length with hp | hp
  · obtain ⟨v, hv⟩ : ∃ v, f.stripeTargets[p]? = some v := ⟨_, List.getElem?_eq_getElem hp⟩
    rw [hv]
    refine getElem?_foldl_addTargets (by omega) (fun r hr j hj hplace => ?_) ?_
    · -- A row that has the place has the right target for it.
      obtain ⟨k, hk⟩ := List.mem_iff_getElem?.mp ((hrows r).mp hr)
      have hvalue := (htgtRows k r hk).value j hj (by have := hfirst k r hk; omega)
      rw [← hfirst k r hk, hplace, hv] at hvalue
      exact (Option.some.inj hvalue).symm
    · rcases Nat.lt_or_ge p 6 with hp6 | hp6
      · left
        have hsize' : p < f.inodeRow.stripePatternSize := by
          rw [← length_addInode_nil]
          omega
        rw [getElem?_addInode_nil hp6 hsize', ← hv, f.getElem?_stripeTargets hp6 hp]
      · right
        obtain ⟨r, hr⟩ : ∃ r, f.targetRows[(p - 6) / 7]? = some r :=
          ⟨_, List.getElem?_eq_getElem (by omega)⟩
        have hplace := hfirst _ r hr
        exact ⟨r, (hrows r).mpr (List.mem_of_getElem? hr), by omega, by omega⟩
  · rw [List.getElem?_eq_none hp, List.getElem?_eq_none]
    rw [length_foldl_addTargets]
    omega

end StripeSet

/-! ## The tables of file inodes

The inodes and the targets of the files are in two tables.  `Stores` says that they have the rows of
some files, and `Stores.pattern` that the rows of a file are put together to its stripe pattern
again. -/

/-- The two tables of the file inodes. -/
structure FileTables where
  inodes : Contents FileInode.pkey
  targets : Contents StripeTargets.pkey

namespace FileTables

/-- `UniqueInlinedInode` -/
def uniqueInlinedInode : GroupOps FileInode (EntryID × ℕ × ℕ × ℤ) FileInode ℤ where
  Acc := Unit
  init := ()
  key inode := (inode.id, inode.saveInode, inode.saveNodeID, inode.saveDevice)
  project inode := inode
  step _ acc := acc
  finish acc := (0, acc)
  finish_init _ := rfl

variable (t : FileTables)

/-- `getInodes` -/
def getInodes : Query FileInode := (t.inodes.query.group uniqueInlinedInode).select Prod.fst

/-- `getTargets` -/
def getTargets : Query StripeTargets := t.targets.query

/-- The inodes of a source with their rows of targets. -/
def withTargets (inodes : Query FileInode) : Query (FileInode × Option StripeTargets) :=
  inodes.leftJoin t.getTargets FileInode.id StripeTargets.id

/-- The tables have the rows of the files, which have different IDs. -/
structure Stores (files : List FsckFileInode) : Prop where
  distinct : files.Pairwise fun f g => f.id ≠ g.id
  inodes : t.inodes.rows.Perm (files.map FsckFileInode.inodeRow)
  targets : t.targets.rows.Perm (files.flatMap FsckFileInode.targetRows)

variable {t} {files : List FsckFileInode} {f : FsckFileInode}

lemma getInodes_exact : t.getInodes.Exact := t.inodes.query_exact

lemma getTargets_exact : t.getTargets.Exact := t.targets.query_exact

/-! ## Stored files -/

lemma Stores.inodes_distinct (h : t.Stores files) :
    t.inodes.rows.Pairwise fun a b => a.id ≠ b.id := by
  refine (h.inodes.pairwise_iff fun hab => hab.symm).mpr ?_
  rw [List.pairwise_map]
  exact h.distinct

/-- Inodes of different IDs are all delivered. -/
lemma Stores.getInodes_rows (h : t.Stores files) : t.getInodes.rows = t.inodes.rows := by
  have hgrps := GroupOps.rows_flatMap uniqueInlinedInode (g := fun inode : FileInode => [inode])
    (k := uniqueInlinedInode.key) (l := t.inodes.rows)
    (h.inodes_distinct.imp fun hne heq => hne (Prod.mk.inj heq).1) (by simp) (by simp)
    (fun a _ r hr => List.mem_singleton.mp hr)
  rw [List.flatMap_singleton'] at hgrps
  change (uniqueInlinedInode.rows t.inodes.rows).map Prod.fst = _
  rw [hgrps, List.map_map]
  exact List.map_id _

lemma ascending_getInodes (h : t.Stores files) : Ascending FileInode.id t.getInodes.rows := by
  rw [h.getInodes_rows]
  exact t.inodes.ascending_rows

lemma id_of_mem_targetRows {r : StripeTargets} (hr : r ∈ f.targetRows) : r.id = f.id := by
  rcases List.mem_append.mp hr with hr | hr
  · obtain ⟨k, hk⟩ := List.mem_iff_getElem?.mp hr
    exact ((FsckFileInode.loopAt_loop f).rows k r hk).1
  · split_ifs at hr
    · rw [List.mem_singleton.mp hr]
    · cases hr

/-- The rows of a file are put together to its pattern. -/
lemma Stores.pattern (h : t.Stores files) (hf : f ∈ files) (hlen : f.stripeTargets.length ≤ 65540) :
    (t.targets.rows.filter fun r => decide (r.id = f.id)).foldl StripeSet.addTargets
      (StripeSet.addInode [] f.inodeRow) = f.stripeTargets := by
  -- The rows of the table with the ID of a file are its rows.
  refine StripeSet.foldl_addTargets_targetRows hlen fun r => ?_
  rw [List.mem_filter, h.targets.mem_iff, List.mem_flatMap, decide_eq_true_eq]
  constructor
  · rintro ⟨⟨g, hg, hr⟩, hid⟩
    have hgf : g.id = f.id := (id_of_mem_targetRows hr).symm.trans hid
    rwa [List.inj_on_of_nodup_map (List.pairwise_map.mpr h.distinct) hg hf hgf] at hr
  · intro hr
    exact ⟨⟨f, hf, hr⟩, id_of_mem_targetRows hr⟩

end FileTables

end Beegfs.Db
