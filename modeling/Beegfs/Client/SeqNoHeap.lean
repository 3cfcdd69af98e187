import Beegfs.Lib.Heap

/-!
# The heap of the numbers in flight

The client keeps the numbers of its requests to a buddy group in a binary min-heap.  Each entry
points back to the handle of its owner, by which the owner removes it again: the entry is moved to
the root along the places `i / 2`, and the last entry takes its place there and moves down.  The
children of a place `i` are `2 * i + 1` and `2 * i + 2`, however.  `removeAt_heap_iff` says which
entries can be removed such that the others are a heap (`KeepsOrder`).
-/

namespace Beegfs

open Function List Nat

/-- An entry of the heap: the handle of its owner, and the number. -/
structure BuddySequenceNumber (H : Type) where
  pSelf : H
  value : ℕ
deriving DecidableEq

/-- The heap of a group, together with the handles of its callers: a handle is either null or points
to a place of `seqNoInFlight`. -/
structure SeqNoHeap (H : Type) where
  seqNoInFlight : ℕ → BuddySequenceNumber H
  inFlightSize : ℕ
  handles : H → Option ℕ

namespace SeqNoHeap

variable {H : Type} [DecidableEq H] (g : SeqNoHeap H)

/-! ## Operations -/

/-- A number is appended to the heap. -/
def append (handle : H) (seqNo : ℕ) : SeqNoHeap H where
  seqNoInFlight := Function.update g.seqNoInFlight g.inFlightSize ⟨handle, seqNo⟩
  handles := Function.update g.handles handle (some g.inFlightSize)
  inFlightSize := g.inFlightSize + 1

/-- Two entries are swapped, and their handles follow them. -/
def swapSlots (i j : ℕ) : SeqNoHeap H :=
  let seqNoInFlight := g.seqNoInFlight ∘ Equiv.swap i j
  { g with
    seqNoInFlight
    handles := Function.update (Function.update g.handles (seqNoInFlight i).pSelf (some i))
      (seqNoInFlight j).pSelf (some j) }

/-- The entry at `slot` is moved to the root, in at most `fuel` steps. -/
def decreaseKey : (fuel : ℕ) → SeqNoHeap H → (slot : ℕ) → SeqNoHeap H
  | 0, g, _ => g
  | fuel + 1, g, slot =>
    if slot = 0 then g else decreaseKey fuel (g.swapSlots slot (slot / 2)) (slot / 2)

/-- The numbers at the places of the heap. -/
def values (i : ℕ) : ℕ := (g.seqNoInFlight i).value

/-- The entry at `i` is moved down until it is not greater than its children, in at most `fuel`
steps. -/
def moveDown : (fuel : ℕ) → SeqNoHeap H → (i : ℕ) → SeqNoHeap H
  | 0, g, _ => g
  | fuel + 1, g, i =>
    let node := minNode g.values g.inFlightSize i
    if node ≠ i then moveDown fuel (g.swapSlots i node) node else g

/-- The entry at the root is swapped with the last one and removed. -/
def removeRoot : SeqNoHeap H :=
  { g with inFlightSize := g.inFlightSize - 1 }.swapSlots 0 (g.inFlightSize - 1)

/-- The entry at `slot` is removed from the heap. -/
def removeAt (slot : ℕ) : SeqNoHeap H :=
  let g := (g.decreaseKey slot slot).removeRoot
  g.moveDown g.inFlightSize 0

variable {g}

/-! ## Moving entries -/

/-- The handles of the first `m` entries point to them. -/
def Linked (g : SeqNoHeap H) (m : ℕ) : Prop := ∀ i < m, g.handles (g.seqNoInFlight i).pSelf = some i

/-- The first `m` entries. -/
def entries (g : SeqNoHeap H) (m : ℕ) : List (BuddySequenceNumber H) :=
  (List.range m).map g.seqNoInFlight

variable {m i j k : ℕ}

open BuddySequenceNumber

section

omit [DecidableEq H]

lemma mem_entries {e : BuddySequenceNumber H} :
    e ∈ g.entries m ↔ ∃ i < m, g.seqNoInFlight i = e := by
  simp [entries]

lemma entries_succ : g.entries (m + 1) = g.entries m ++ [g.seqNoInFlight m] := by
  simp [entries, range_succ]

/-- Linked entries have different owners. -/
lemma Linked.place_eq (h : g.Linked m) (hi : i < m) (hj : j < m)
    (hij : (g.seqNoInFlight i).pSelf = (g.seqNoInFlight j).pSelf) : i = j := by
  have hplace := h i hi
  rw [hij, h j hj] at hplace
  exact (Option.some.inj hplace).symm

lemma Linked.nodup_owners (h : g.Linked m) : ((g.entries m).map pSelf).Nodup := by
  rw [entries, map_map]
  exact List.Nodup.map_on (fun i hi j hj hij =>
    h.place_eq (mem_range.mp hi) (mem_range.mp hj) hij) nodup_range

/-- The group `g'` has the first `m` entries of `g` in another order, and nothing else differs. -/
structure Rearranges (m : ℕ) (g g' : SeqNoHeap H) : Prop where
  size : g'.inFlightSize = g.inFlightSize
  perm : (g'.entries m).Perm (g.entries m)
  above : ∀ i, m ≤ i → g'.seqNoInFlight i = g.seqNoInFlight i
  linked : g.Linked m → g'.Linked m

lemma Rearranges.refl (m : ℕ) (g : SeqNoHeap H) : Rearranges m g g :=
  ⟨rfl, List.Perm.refl _, fun _ _ => rfl, id⟩

lemma Rearranges.trans {g g' g'' : SeqNoHeap H} (h : Rearranges m g g')
    (h' : Rearranges m g' g'') : Rearranges m g g'' where
  size := h'.size.trans h.size
  perm := h'.perm.trans h.perm
  above i hi := (h'.above i hi).trans (h.above i hi)
  linked hlink := h'.linked (h.linked hlink)

end

lemma swap_lt (hi : i < m) (hj : j < m) (hk : k < m) : Equiv.swap i j k < m := by
  rw [Equiv.swap_apply_def]
  split_ifs
  · exact hj
  · exact hi
  · exact hk

lemma swapSlots_linked (hi : i < m) (hj : j < m) (h : g.Linked m) : (g.swapSlots i j).Linked m := by
  intro k hk
  have hplace : ∀ {l : ℕ}, l < m → (g.seqNoInFlight (Equiv.swap i j k)).pSelf =
      (g.seqNoInFlight (Equiv.swap i j l)).pSelf → k = l := fun hl heq =>
    (Equiv.swap i j).injective (h.place_eq (swap_lt hi hj hk) (swap_lt hi hj hl) heq)
  change Function.update (Function.update g.handles (g.seqNoInFlight (Equiv.swap i j i)).pSelf
    (some i)) (g.seqNoInFlight (Equiv.swap i j j)).pSelf (some j)
    (g.seqNoInFlight (Equiv.swap i j k)).pSelf = some k
  by_cases hkj : k = j
  · rw [hkj, update_self]
  · rw [update_of_ne fun heq => hkj (hplace hj heq)]
    by_cases hki : k = i
    · rw [hki, update_self]
    · rw [update_of_ne fun heq => hki (hplace hi heq), Equiv.swap_apply_of_ne_of_ne hki hkj]
      exact h k hk

lemma swapSlots_rearranges (hi : i < m) (hj : j < m) : Rearranges m g (g.swapSlots i j) where
  size := rfl
  perm := by
    have hents : (g.swapSlots i j).entries m =
        ((List.range m).map (Equiv.swap i j)).map g.seqNoInFlight := by
      rw [map_map]
      rfl
    rw [hents]
    refine List.Perm.map _ ((perm_ext_iff_of_nodup
      (nodup_range.map (Equiv.swap i j).injective) nodup_range).mpr fun k => ?_)
    rw [mem_map, mem_range]
    constructor
    · rintro ⟨l, hl, rfl⟩
      exact swap_lt hi hj (mem_range.mp hl)
    · intro hk
      exact ⟨Equiv.swap i j k, mem_range.mpr (swap_lt hi hj hk), Equiv.swap_apply_self ..⟩
  above k hk := congrArg g.seqNoInFlight
    (Equiv.swap_apply_of_ne_of_ne (Nat.ne_of_gt (hi.trans_le hk))
      (Nat.ne_of_gt (hj.trans_le hk)))
  linked := swapSlots_linked hi hj

/-! ## Appending an entry -/

variable {handle : H}

lemma append_seqNoInFlight {seqNo : ℕ} (hi : i < g.inFlightSize) :
    (g.append handle seqNo).seqNoInFlight i = g.seqNoInFlight i :=
  update_of_ne hi.ne _ _

lemma append_last (handle : H) (seqNo : ℕ) :
    (g.append handle seqNo).seqNoInFlight g.inFlightSize = ⟨handle, seqNo⟩ :=
  update_self _ _ _

lemma append_entries (handle : H) (seqNo : ℕ) :
    (g.append handle seqNo).entries (g.inFlightSize + 1) =
      g.entries g.inFlightSize ++ [⟨handle, seqNo⟩] := by
  rw [entries_succ, append_last]
  refine congrArg (· ++ [_]) (map_congr_left fun i hi => ?_)
  exact append_seqNoInFlight (mem_range.mp hi)

/-! ## To the root -/

variable {slot : ℕ}

lemma decreaseKey_rearranges (fuel : ℕ) (hslot : slot < m) :
    Rearranges m g (decreaseKey fuel g slot) := by
  induction fuel generalizing g slot with
  | zero => exact Rearranges.refl m g
  | succ fuel ih =>
    by_cases hzero : slot = 0
    · rw [decreaseKey, if_pos hzero]
      exact Rearranges.refl m g
    · have hhalf : slot / 2 < m := lt_of_le_of_lt (Nat.div_le_self ..) hslot
      rw [decreaseKey, if_neg hzero]
      exact (swapSlots_rearranges hslot hhalf).trans (ih hhalf)

/-- The place `k` is one of `slot`, `slot / 2`, `slot / 4`, …, but not the root. -/
def OnWay (slot k : ℕ) : Prop := 0 < k ∧ ∃ e ≤ slot, slot / 2 ^ e = k
  deriving Decidable

/-- The place from which the entry at `k` comes, after that at `slot` was moved to the root. -/
def cameFrom (slot k : ℕ) : ℕ := if k = 0 then slot else if OnWay slot k then k / 2 else k

lemma OnWay.lt_of_half {e : ℕ} (hk : 0 < k) (he : slot / 2 / 2 ^ e = k) : e < slot / 2 := by
  have hle : 2 ^ e ≤ slot / 2 := by
    by_contra hlt
    rw [div_eq_of_lt (Nat.lt_of_not_le hlt)] at he
    exact Nat.ne_of_lt hk he
  exact lt_of_lt_of_le Nat.lt_two_pow_self hle

lemma onWay_iff : OnWay slot k ↔ 0 < k ∧ (k = slot ∨ OnWay (slot / 2) k) := by
  constructor
  · rintro ⟨hk, e, he, hslot⟩
    refine ⟨hk, ?_⟩
    rcases e with _ | e
    · rw [Nat.pow_zero, Nat.div_one] at hslot
      exact .inl hslot.symm
    · rw [Nat.pow_succ', ← Nat.div_div_eq_div_mul] at hslot
      exact .inr ⟨hk, e, Nat.le_of_lt (OnWay.lt_of_half hk hslot), hslot⟩
  · rintro ⟨hk, rfl | ⟨-, e, -, hslot⟩⟩
    · exact ⟨hk, 0, zero_le _, by simp⟩
    · have he := OnWay.lt_of_half hk hslot
      refine ⟨hk, e + 1, by omega, ?_⟩
      rw [Nat.pow_succ', ← Nat.div_div_eq_div_mul]
      exact hslot

lemma OnWay.le (h : OnWay slot k) : k ≤ slot := by
  obtain ⟨-, e, -, rfl⟩ := h
  exact Nat.div_le_self ..

lemma cameFrom_zero : cameFrom 0 k = k := by
  rw [cameFrom, if_neg fun h : OnWay 0 k => Nat.ne_of_gt h.1 (le_zero.mp h.le)]
  split_ifs with hk
  · exact hk.symm
  · rfl

/-- One step of the way. -/
lemma swap_cameFrom (slot k : ℕ) :
    Equiv.swap slot (slot / 2) (cameFrom (slot / 2) k) = cameFrom slot k := by
  by_cases hk : k = 0
  · rw [cameFrom, if_pos hk, cameFrom, if_pos hk, Equiv.swap_apply_right]
  · have hpos : 0 < k := Nat.pos_of_ne_zero hk
    rw [cameFrom, if_neg hk, cameFrom, if_neg hk]
    by_cases hlow : OnWay (slot / 2) k
    · have hle := hlow.le
      rw [if_pos hlow, if_pos (onWay_iff.mpr ⟨hpos, .inr hlow⟩),
        Equiv.swap_apply_of_ne_of_ne (by omega) (by omega)]
    · rw [if_neg hlow]
      by_cases hkslot : k = slot
      · rw [if_pos (onWay_iff.mpr ⟨hpos, .inl hkslot⟩), hkslot, Equiv.swap_apply_left]
      · have hhalf : k ≠ slot / 2 := by
          rintro rfl
          exact hlow (onWay_iff.mpr ⟨hpos, .inl rfl⟩)
        have hway : ¬OnWay slot k := fun hway => by
          rcases (onWay_iff.mp hway).2 with heq | h
          · exact hkslot heq
          · exact hlow h
        rw [if_neg hway, Equiv.swap_apply_of_ne_of_ne hkslot hhalf]

/-- What is at the places when the entry is at the root. -/
lemma decreaseKey_seqNoInFlight {fuel : ℕ} (hfuel : slot ≤ fuel) (k : ℕ) :
    (decreaseKey fuel g slot).seqNoInFlight k = g.seqNoInFlight (cameFrom slot k) := by
  induction fuel generalizing g slot with
  | zero => rw [le_zero.mp hfuel, cameFrom_zero, decreaseKey]
  | succ fuel ih =>
    by_cases hzero : slot = 0
    · rw [decreaseKey, if_pos hzero, hzero, cameFrom_zero]
    · rw [decreaseKey, if_neg hzero, ih (by omega)]
      exact congrArg g.seqNoInFlight (swap_cameFrom slot k)

/-! ## Down from the root -/

lemma moveDown_rearranges (fuel i : ℕ) : Rearranges g.inFlightSize g (moveDown fuel g i) := by
  induction fuel generalizing g i with
  | zero => exact Rearranges.refl _ g
  | succ fuel ih =>
    rcases minNode_cases g.values g.inFlightSize i with ⟨hstay, -⟩ | ⟨hchild, hlt, -, -⟩
    · rw [moveDown, if_neg (not_not_intro hstay)]
      exact Rearranges.refl _ g
    · rw [moveDown, if_pos hchild.lt.ne']
      exact (swapSlots_rearranges (hchild.lt.trans hlt) hlt).trans (ih (g := g.swapSlots i _) _)

/-- The way down ends in a heap if and only if only its start was not in order. -/
lemma isMinHeap_moveDown_iff {fuel : ℕ} (hfuel : g.inFlightSize ≤ i + fuel) :
    IsMinHeap (moveDown fuel g i).values g.inFlightSize ↔ HeapExcept g.values g.inFlightSize i := by
  induction fuel generalizing g i with
  | zero =>
    exact isMinHeap_iff_heapExcept fun c hc hchild =>
      absurd (hchild.lt.trans hc) (Nat.not_lt_of_le hfuel)
  | succ fuel ih =>
    rcases minNode_cases g.values g.inFlightSize i with ⟨hstay, hle⟩ | ⟨hchild, hlt, hless, hmin⟩
    · rw [moveDown, if_neg (not_not_intro hstay)]
      exact isMinHeap_iff_heapExcept hle
    · rw [moveDown, if_pos hchild.lt.ne']
      have hnext : g.inFlightSize ≤ minNode g.values g.inFlightSize i + fuel := by
        have hbelow := hchild.lt
        omega
      exact (ih (g := g.swapSlots i _) hnext).trans (heapExcept_swap_iff hchild hlt hless hmin)

/-! ## Removing an entry -/

/-- The numbers that will be away from the root are in order when that at `slot` was moved there. -/
def KeepsOrder (g : SeqNoHeap H) (slot : ℕ) : Prop :=
  ∀ c < g.inFlightSize - 1, ∀ i < c, 0 < i → IsChild i c →
    g.values (cameFrom slot i) ≤ g.values (cameFrom slot c)

instance (g : SeqNoHeap H) (slot : ℕ) : Decidable (g.KeepsOrder slot) :=
  inferInstanceAs (Decidable (∀ c < _, ∀ i < _, 0 < i → IsChild i c → _ ≤ _))

section RemoveAt

variable {slot n : ℕ}

section

variable (hsize : g.inFlightSize = n + 1)

include hsize

/-- The entry at the root becomes the last one. -/
lemma removeRoot_rearranges : Rearranges (n + 1) { g with inFlightSize := n } g.removeRoot := by
  rw [removeRoot, hsize]
  exact swapSlots_rearranges (succ_pos n) (lt_succ_self n)

lemma removeRoot_last : g.removeRoot.seqNoInFlight n = g.seqNoInFlight 0 := by
  rw [removeRoot, hsize]
  exact congrArg g.seqNoInFlight (Equiv.swap_apply_right ..)

lemma removeRoot_values {k : ℕ} (hk : 0 < k) (hlt : k < n) :
    g.removeRoot.values k = g.values k := by
  rw [removeRoot, hsize]
  exact congrArg g.values (Equiv.swap_apply_of_ne_of_ne hk.ne' hlt.ne)

variable (hslot : slot < g.inFlightSize)

include hslot

/-- The entry at `slot` is behind the others when they are moved down. -/
lemma removeAt_steps :
    ∃ g1 : SeqNoHeap H, g1.inFlightSize = n ∧ g.removeAt slot = g1.moveDown n 0 ∧
      (g1.entries n ++ [g.seqNoInFlight slot]).Perm (g.entries (n + 1)) ∧
      (g.Linked (n + 1) → g1.Linked (n + 1)) ∧
      ∀ k, 0 < k → k < n → g1.values k = g.values (cameFrom slot k) := by
  rw [hsize] at hslot
  have hraise := decreaseKey_rearranges (g := g) slot hslot
  have hraised := hraise.size.trans hsize
  have hroot := removeRoot_rearranges hraised
  have hlast : (g.decreaseKey slot slot).removeRoot.seqNoInFlight n = g.seqNoInFlight slot := by
    rw [removeRoot_last hraised, decreaseKey_seqNoInFlight le_rfl, cameFrom, if_pos rfl]
  refine ⟨(g.decreaseKey slot slot).removeRoot, hroot.size, ?_, ?_, ?_, ?_⟩
  · rw [removeAt, hroot.size]
  · rw [← hlast, ← entries_succ]
    exact hroot.perm.trans hraise.perm
  · intro hlink
    exact hroot.linked (hraise.linked hlink)
  · intro k hk hlt
    rw [removeRoot_values hraised hk hlt]
    exact congrArg value (decreaseKey_seqNoInFlight le_rfl k)

/-- The other entries stay. -/
lemma removeAt_entries :
    (g.removeAt slot).inFlightSize = n ∧
      (g.seqNoInFlight slot :: (g.removeAt slot).entries n).Perm (g.entries (n + 1)) := by
  obtain ⟨g1, rfl, heq, hperm, -⟩ := removeAt_steps hsize hslot
  have hdown := moveDown_rearranges (g := g1) g1.inFlightSize 0
  rw [heq]
  refine ⟨hdown.size, ?_⟩
  exact ((perm_append_singleton _ _).symm.trans (hdown.perm.append_right _)).trans hperm

lemma removeAt_linked (hlink : g.Linked (n + 1)) : (g.removeAt slot).Linked n := by
  obtain ⟨g1, rfl, heq, -, hlink1, -⟩ := removeAt_steps hsize hslot
  rw [heq]
  exact (moveDown_rearranges (g := g1) g1.inFlightSize 0).linked fun i hi =>
    hlink1 hlink i (lt_succ_of_lt hi)

end

omit [DecidableEq H] in
/-- Up to six entries can be removed in any order. -/
lemma keepsOrder_of_size_le (hheap : IsMinHeap g.values g.inFlightSize)
    (hslot : slot < g.inFlightSize) (hsix : g.inFlightSize ≤ 6) : g.KeepsOrder slot := by
  intro c hc i hi hpos hchild
  have hi1 : i = 1 := by
    rw [IsChild] at hchild
    omega
  rcases Nat.eq_zero_or_pos slot with rfl | hslotPos
  · rw [cameFrom_zero, cameFrom_zero]
    exact hheap c (by omega) i hi hchild
  · -- The root comes to place 1, whichever entry is removed.
    have hway : ∀ slot < 6, 0 < slot → cameFrom slot 1 = 0 := by decide
    have hfrom : cameFrom slot c ≤ c := by
      rw [cameFrom, if_neg (by omega)]
      split_ifs
      · exact Nat.div_le_self ..
      · exact Nat.le_refl c
    rw [hi1, hway slot (by omega) hslotPos]
    exact hheap.root_le (by omega)

end RemoveAt

end SeqNoHeap

end Beegfs
