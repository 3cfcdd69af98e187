import Beegfs.Fsck.SetFragment

/-!
# Sorting and reading fragments

A set fills a fragment item by item, never to touch it again, and sorts it when it is read.
`Filling` is what is known of a fragment while it is filled, and `Sound` what is known of it from
then on.

Sorting rewrites the file below a window that may still be in the buffer.  A cursor reads from the
first item on, so that only a window that starts there is ever seen (`Window.whole`).  A fragment
that was just opened has a window on its last two items: of all fragments, those of two items in the
wrong order are then read as if they were not sorted.
-/

namespace Beegfs

open List

/-- `std::sort`, of which only this is known: items of one key may come in any order. -/
structure StdSort {α κ : Type} [LinearOrder κ] (pkey : α → κ) where
  sort : List α → List α
  perm : ∀ l, (sort l).Perm l
  ascending : ∀ l, Ascending pkey (sort l)

/-- Sorting by insertion, as `std::sort` does for short lists. -/
def StdSort.insertion {α κ : Type} [LinearOrder κ] (pkey : α → κ) : StdSort pkey where
  sort l := l.insertionSort fun a b => pkey a ≤ pkey b
  perm l := perm_insertionSort _ l
  ascending l :=
    haveI : Std.Total fun a b : α => pkey a ≤ pkey b := ⟨fun a b => le_total (pkey a) (pkey b)⟩
    haveI : IsTrans α fun a b => pkey a ≤ pkey b := ⟨fun _ _ _ => le_trans⟩
    pairwise_insertionSort _ l

namespace SetFragment

variable {α κ : Type} [Inhabited α] [LinearOrder κ] (lay : ItemLayout) (pkey : α → κ)

/-- Reads `n` items from item `i` on, one after the other, as a cursor does. -/
def readFrom : ℕ → ℕ → SetFragment α κ → List α × SetFragment α κ
  | _, 0, s => ([], s)
  | i, n + 1, s =>
    let next := s.item lay i
    let rest := readFrom (i + 1) n next.2
    (next.1.toList ++ rest.1, rest.2)

/-- All that a cursor delivers. -/
def readAll (s : SetFragment α κ) : List α × SetFragment α κ := s.readFrom lay 0 s.size

/-- The items of the fragment, with those that are in the buffer only. -/
def rows (s : SetFragment α κ) : List α := s.close.items

section Spec

variable {lay pkey} {s : SetFragment α κ} {l : List α}

/-! ## Fragments that are filled -/

variable (pkey) in
/-- A fragment that is being filled: what is in the buffer is still to be written, and the flag was
not written yet. -/
structure Filling (s : SetFragment α κ) (l : List α) : Prop where
  holds : s.Holds l
  buffer : s.firstDirtyItem = none → s.buffer = []
  config : s.file.config = none
  lastItemKey : ∀ d, l.getLast? = some d → s.lastItemKey = pkey d
  sorted : s.sorted = true → Ascending pkey l

omit [Inhabited α] in
lemma Filling.appendSafe (h : s.Filling pkey l) : s.AppendSafe := by
  rcases hd : s.firstDirtyItem with _ | d
  · exact .inl (h.buffer hd)
  · have hdirty := h.holds.dirty d hd
    right
    rw [h.holds.itemCount, hdirty.buffer, length_drop]
    omega

variable (lay pkey) in
lemma filling_empty : (openFile lay pkey .empty).Filling pkey [] := by
  refine ⟨openFile_holds lay pkey .empty, fun _ => rfl, rfl, nofun, fun _ => List.Pairwise.nil⟩

open SetFragment

lemma Filling.makeRoom (h : s.Filling pkey l) : s.makeRoom.Ready l ∧ s.makeRoom.Filling pkey l := by
  have hready := h.holds.makeRoom h.appendSafe
  refine ⟨hready, hready.toHolds, ?_, ?_, ?_, ?_⟩
  all_goals rw [SetFragment.makeRoom]
  all_goals split_ifs with hbef
  · intro _
    rcases hd : s.firstDirtyItem with _ | d
    · simp [flushBuffer_of_clean hd, h.buffer hd]
    · exact flushBuffer_buffer_of_dirty hd
  · exact h.buffer
  · simpa using h.config
  · exact h.config
  · simpa using h.lastItemKey
  · exact h.lastItemKey
  · simpa using h.sorted
  · exact h.sorted

variable (lay) in
lemma Filling.append (h : s.Filling pkey l) (d : α) :
    (s.append lay pkey d).Filling pkey (l ++ [d]) := by
  obtain ⟨-, hroom⟩ := h.makeRoom
  have hsorted : (s.makeRoom.push pkey d).sorted = true → Ascending pkey (l ++ [d]) := by
    intro hs
    rcases hlast : l.getLast? with _ | b
    · rw [List.getLast?_eq_none_iff.mp hlast]
      exact pairwise_singleton _ _
    · have hpos : 0 < s.makeRoom.itemCount := by
        rw [hroom.holds.itemCount]
        exact length_pos_of_mem (mem_of_getLast? hlast)
      simp only [push, hpos, true_and] at hs
      split_ifs at hs with hbef
      · rw [hroom.lastItemKey b hlast] at hs
        have hlt : pkey b < pkey d := of_decide_eq_true hs
        have hasc := hroom.sorted hbef
        exact hasc.concat fun c hc => (hasc.le_getLast hlast c hc).trans hlt.le
      · exact absurd hs hbef
  have hkey : ∀ c, (l ++ [d]).getLast? = some c → pkey d = pkey c := by
    intro c hc
    rw [List.getLast?_concat] at hc
    rw [Option.some.inj hc]
  have hholds : (s.append lay pkey d).Holds (l ++ [d]) := h.holds.append h.appendSafe d
  rw [SetFragment.append] at hholds ⊢
  split_ifs at hholds ⊢ with hfull
  · refine ⟨hholds, fun _ => flushBuffer_buffer_of_dirty rfl, ?_, ?_, ?_⟩
    · exact hroom.config
    · exact hkey
    · exact hsorted
  · exact ⟨hholds, by rintro ⟨⟩, hroom.config, hkey, hsorted⟩

/-! ## Fragments that were filled -/

variable (pkey) in
/-- Sorting the fragment is not seen through the window in its buffer. -/
def MaySort (s : SetFragment α κ) (l : List α) : Prop :=
  s.firstDirtyItem ≠ none ∨ s.buffer = [] ∨ 0 < s.firstBufferedItem ∨
    s.firstBufferedItem = 0 ∧ s.buffer = l ∧ Ascending pkey l

variable (pkey) in
/-- What the buffer has to do with the items `l` of the fragment. -/
inductive Window (s : SetFragment α κ) (l : List α) : Prop
  /-- It is a window on them. -/
  | holds (h : s.Holds l) (hsort : s.sorted = false → s.MaySort pkey l)
  /-- It is a window on the items behind the first one, from before they were sorted. -/
  | behind (hstored : s.Stored l) (hsorted : s.sorted = true) (hfirst : 0 < s.firstBufferedItem)
  /-- It has all items, and those of one key in the order from before they were sorted. -/
  | whole (hstored : s.Stored l) (hsorted : s.sorted = true) (hfirst : s.firstBufferedItem = 0)
      (hperm : s.buffer.Perm l) (hasc : Ascending pkey s.buffer)

variable (pkey) in
/-- A fragment of the items `l` that can be sorted and read. -/
structure Sound (s : SetFragment α κ) (l : List α) : Prop where
  sorted : s.sorted = true → Ascending pkey l
  config : s.file.config = some true → Ascending pkey l
  window : s.Window pkey l

omit [Inhabited α] in
lemma Filling.sound (h : s.Filling pkey l) : s.Sound pkey l := by
  refine ⟨h.sorted, fun hconf => ?_, .holds h.holds fun _ => ?_⟩
  · rw [h.config] at hconf
    cases hconf
  · by_cases hd : s.firstDirtyItem = none
    · exact .inr (.inl (h.buffer hd))
    · exact .inl hd

omit [LinearOrder κ] in
lemma Stored.flush (h : s.Stored l) : s.flush = s := flush_of_clean h.clean

lemma Sound.rows_eq (h : s.Sound pkey l) : s.rows = l := by
  rcases h.window with ⟨hholds, -⟩ | ⟨hstored, -, -⟩ | ⟨hstored, -, -, -, -⟩
  · exact hholds.close_items
  · rw [rows, close, hstored.flush]
    exact hstored.items
  · rw [rows, close, hstored.flush]
    exact hstored.items

omit [Inhabited α] in
lemma Sound.size_eq (h : s.Sound pkey l) : s.size = l.length := by
  rcases h.window with ⟨hholds, -⟩ | ⟨hstored, -, -⟩ | ⟨hstored, -, -, -, -⟩
  · exact hholds.itemCount
  · exact hstored.itemCount
  · exact hstored.itemCount

/-- Closing writes what is in the buffer, and the flag if there was something to write. -/
lemma Sound.flush (h : s.Sound pkey l) : s.flush.Sound pkey l := by
  rcases hd : s.firstDirtyItem with _ | d
  · rw [flush_of_clean hd]
    exact h
  · rcases h.window with ⟨hholds, -⟩ | ⟨hstored, -, -⟩ | ⟨hstored, -, -, -, -⟩
    · refine ⟨?_, ?_, .holds hholds.flush fun _ => .inr (.inl ?_)⟩
      · rw [flush_sorted]
        exact h.sorted
      · intro hconf
        refine h.sorted ?_
        simpa [SetFragment.flush, hd] using hconf
      · simp [SetFragment.flush, hd]
    · rw [hstored.clean] at hd
      cases hd
    · rw [hstored.clean] at hd
      cases hd

lemma Sound.stored_flush (h : s.Sound pkey l) : s.flush.Stored l := by
  refine ⟨?_, flush_firstDirtyItem s, h.rows_eq⟩
  rw [flush_itemCount]
  exact h.size_eq

/-! ## Opening a fragment again -/

variable (pkey) in
/-- The items are not just two in the wrong order. -/
def NotSwapped (l : List α) : Prop := l.length = 2 → Ascending pkey l
  deriving Decidable

omit [LinearOrder κ] in
lemma openFile_sorted {file : FragmentFile α} (h : (openFile lay pkey file).sorted = true) :
    file.items = [] ∨ file.config = some true := by
  rw [(openFile_flags file).1] at h
  rcases hconf : file.config with _ | b
  · left
    by_contra hne
    simp [unread, hconf, hne] at h
  · right
    simpa [unread, hconf] using h

/-- A fragment that is opened again is sound, unless it is one of two items in the wrong order. -/
lemma Sound.reopen (h : s.Sound pkey l) (hl : NotSwapped pkey l) :
    (openFile lay pkey s.close).Sound pkey l := by
  have hitems : s.close.items = l := h.rows_eq
  have hconf : s.close.config = some true → Ascending pkey l := h.flush.config
  refine ⟨fun hsorted => ?_, ?_, .holds ?_ fun _ => ?_⟩
  · rcases openFile_sorted hsorted with hnil | htrue
    · rw [← hitems, hnil]
      exact List.Pairwise.nil
    · exact hconf htrue
  · rw [(openFile_flags _).2]
    exact hconf
  · rw [← hitems]
    exact openFile_holds lay pkey s.close
  · obtain ⟨hfirst, hbuf⟩ := openFile_window lay pkey s.close
    rw [hitems] at hfirst hbuf
    rcases Nat.lt_or_ge 2 l.length with hlong | hshort
    · exact .inr (.inr (.inl (by omega)))
    · refine .inr (.inr (.inr ⟨by omega, ?_, ?_⟩))
      · rw [hbuf, Nat.sub_eq_zero_of_le hshort, drop_zero]
      · rcases hshort.lt_or_eq with hone | htwo
        · match l with
          | [] => exact List.Pairwise.nil
          | [_] => exact pairwise_singleton _ _
        · exact hl htwo

/-! ## Sorting -/

variable {sorter : StdSort pkey}

/-- The fragment with other items in its file, which are sorted. -/
def rewrite (s : SetFragment α κ) (l : List α) : SetFragment α κ :=
  { s with file := { s.file with items := l }, sorted := true }

lemma Sound.sort_of_not_sorted (h : s.Sound pkey l) (hsorted : s.sorted = false) :
    s.sort sorter.sort = s.flush.rewrite (sorter.sort l) := by
  have hstored := h.stored_flush
  have hread : s.flush.file.readBlock s.flush.size 0 = l := by
    rw [FragmentFile.readBlock, hstored.items, size, hstored.itemCount]
    simp
  have hwrite : s.flush.file.writeBlock (sorter.sort l) 0 =
      { s.flush.file with items := sorter.sort l } := by
    have hlen : (sorter.sort l).length = s.flush.file.items.length := by
      rw [hstored.items]
      exact (sorter.perm l).length_eq
    simp [FragmentFile.writeBlock, hlen]
  rw [sort, if_neg (by simp [hsorted])]
  simp only [hread, hwrite]
  exact flush_of_clean hstored.clean

omit [Inhabited α] [LinearOrder κ] in
lemma Stored.rewrite {l' : List α} (h : s.Stored l) (hl' : l'.Perm l) : (s.rewrite l').Stored l' :=
  ⟨h.itemCount.trans hl'.length_eq.symm, h.clean, rfl⟩

omit [Inhabited α] in
/-- What is seen of the sorted items through a window on the old ones. -/
lemma MaySort.rewrite {l' : List α} (hmay : s.MaySort pkey l) (hholds : s.Holds l)
    (hstored : s.Stored l) (hl' : l'.Perm l) : (s.rewrite l').Window pkey l' := by
  rcases hmay with hdirty | hnil | hfirst | ⟨hfirst, hbuf, hasc⟩
  · exact absurd hstored.clean hdirty
  · -- Nothing is seen of other items in the file through an empty buffer.
    refine .holds ⟨(hstored.rewrite hl').itemCount, ?_, ?_, fun _ => rfl, ?_⟩ nofun
    · rw [hl'.length_eq]
      exact hholds.start_le
    · change s.buffer <+: _
      rw [hnil]
      exact nil_prefix
    · intro d hd
      exact absurd hd (by simp [(hstored.rewrite hl').clean])
  · exact .behind (hstored.rewrite hl') rfl hfirst
  · refine .whole (hstored.rewrite hl') rfl hfirst ?_ ?_
    · change s.buffer.Perm l'
      rw [hbuf]
      exact hl'.symm
    · change Ascending pkey s.buffer
      rw [hbuf]
      exact hasc

omit [Inhabited α] in
lemma Window.holds_of_not_sorted (h : s.Window pkey l) (hsorted : s.sorted = false) :
    s.Holds l ∧ s.MaySort pkey l := by
  rcases h with ⟨hholds, hmay⟩ | ⟨-, htrue, -⟩ | ⟨-, htrue, -, -, -⟩
  · exact ⟨hholds, hmay hsorted⟩
  · nomatch hsorted.symm.trans htrue
  · nomatch hsorted.symm.trans htrue

variable (sorter) in
/-- Sorting a fragment leaves one of the same items in the order of their keys. -/
lemma Sound.sort (h : s.Sound pkey l) :
    ∃ l', l'.Perm l ∧ Ascending pkey l' ∧ (s.sort sorter.sort).Sound pkey l' := by
  rcases hsorted : s.sorted with _ | _
  · have hasc := sorter.ascending l
    have hstored := h.stored_flush
    obtain ⟨hholds, hmay⟩ := h.flush.window.holds_of_not_sorted ((flush_sorted s).trans hsorted)
    rw [h.sort_of_not_sorted hsorted]
    exact ⟨sorter.sort l, sorter.perm l, hasc, fun _ => hasc, fun _ => hasc,
      hmay.rewrite hholds hstored (sorter.perm l)⟩
  · rw [SetFragment.sort, flush_sorted, if_pos hsorted]
    exact ⟨l, List.Perm.refl l, h.sorted hsorted, h.flush⟩

/-! ## Reading -/

/-- The buffer has the last item. -/
def ReachesEnd (s : SetFragment α κ) (l : List α) : Prop :=
  l.length ≤ s.firstBufferedItem + s.buffer.length

section

omit [LinearOrder κ]

variable (lay) in
lemma Holds.readFrom (h : s.Holds l) {i n : ℕ} (hn : i + n = l.length) :
    (s.readFrom lay i n).1 = l.drop i ∧ (s.readFrom lay i n).2.Holds l ∧
      (0 < n ∨ s.ReachesEnd l → (s.readFrom lay i n).2.ReachesEnd l) := by
  induction n generalizing i s with
  | zero =>
    refine ⟨?_, h, fun hreach => hreach.resolve_left (Nat.lt_irrefl 0)⟩
    rw [drop_of_length_le (by omega)]
    rfl
  | succ n ih =>
    have hi : i < l.length := by omega
    obtain ⟨hitem, hholds⟩ : (s.item lay i).1 = _ ∧ (s.item lay i).2.Holds l := h.item hi
    obtain ⟨hrest, hholds', hreach⟩ := ih hholds (i := i + 1) (by omega)
    refine ⟨?_, hholds', fun _ => hreach ?_⟩
    · rw [readFrom]
      simp only [hitem, hrest]
      rw [List.getElem?_eq_getElem hi]
      exact (drop_eq_getElem_cons hi).symm
    · rcases Nat.eq_zero_or_pos n with rfl | hpos
      · right
        have hbuf : (s.item lay i).2.buffer[i - (s.item lay i).2.firstBufferedItem]? = l[i]? :=
          hitem
        rw [List.getElem?_eq_getElem hi] at hbuf
        have hlt := (List.getElem?_eq_some_iff.mp hbuf).1
        rw [ReachesEnd]
        omega
      · exact .inl hpos

variable (lay) in
lemma readFrom_flags (s : SetFragment α κ) (i n : ℕ) :
    (s.readFrom lay i n).2.sorted = s.sorted ∧
      (s.readFrom lay i n).2.file.config = s.file.config := by
  induction n generalizing i s with
  | zero => exact ⟨rfl, rfl⟩
  | succ n ih =>
    obtain ⟨hsorted, hconf⟩ := item_flags lay s i
    obtain ⟨hsort', hconf'⟩ := ih (s.item lay i).2 (i + 1)
    exact ⟨hsort'.trans hsorted, hconf'.trans hconf⟩

/-- A window on all items is never left. -/
lemma readFrom_of_whole {i n : ℕ} (hfirst : s.firstBufferedItem = 0)
    (hn : i + n = s.buffer.length) : s.readFrom lay i n = (s.buffer.drop i, s) := by
  induction n generalizing i with
  | zero =>
    rw [drop_of_length_le (by omega)]
    rfl
  | succ n ih =>
    have hi : i < s.buffer.length := by omega
    have hitem : s.item lay i = (s.buffer[i]?, s) := by
      rw [item, if_neg (by omega), hfirst]
      rfl
    rw [readFrom]
    simp only [hitem, ih (i := i + 1) (by omega)]
    rw [List.getElem?_eq_getElem hi, drop_eq_getElem_cons hi]
    rfl

variable (lay) in
/-- With the first item a window on the items in the file is read. -/
lemma Stored.readFrom (h : s.Stored l) (hfirst : 0 < s.firstBufferedItem) (hne : l ≠ []) :
    (s.readFrom lay 0 l.length).1 = l ∧ (s.readFrom lay 0 l.length).2.Holds l := by
  have hpos : 0 < l.length := length_pos_iff.mpr hne
  obtain ⟨n, hn⟩ := Nat.exists_eq_add_one.mpr hpos
  obtain ⟨hitem, hholds⟩ : (s.item lay 0).1 = _ ∧ (s.item lay 0).2.Holds l :=
    h.flushBuffer.item hpos (.inl hfirst)
  obtain ⟨hrest, hholds', -⟩ := hholds.readFrom lay (i := 1) (n := n) (by omega)
  rw [hn, SetFragment.readFrom]
  refine ⟨?_, hholds'⟩
  simp only [hitem, Nat.zero_add, hrest]
  rw [List.getElem?_eq_getElem hpos]
  exact (drop_eq_getElem_cons hpos).symm

end

lemma Sound.readAll_nil (h : s.Sound pkey []) : s.readAll lay = ([], s) := by
  rw [readAll, h.size_eq]
  rfl

variable (lay) in
/-- A cursor delivers all items in the order of their keys, if the fragment was sorted. -/
lemma Sound.readAll (h : s.Sound pkey l) (hasc : Ascending pkey l) :
    (s.readAll lay).1.Perm l ∧ Ascending pkey (s.readAll lay).1 ∧
      (s.readAll lay).2.Sound pkey l := by
  rcases eq_or_ne l [] with rfl | hne
  · rw [h.readAll_nil]
    exact ⟨List.Perm.refl [], List.Pairwise.nil, h⟩
  have hflag := (readFrom_flags lay s 0 l.length).1
  have hsize : s.readAll lay = s.readFrom lay 0 l.length := by rw [SetFragment.readAll, h.size_eq]
  rw [hsize]
  rcases h.window with ⟨hholds, hmay⟩ | ⟨hstored, htrue, hfirst⟩ | ⟨-, -, hfirst, hperm, hasc'⟩
  · obtain ⟨hrows, hr, hreach⟩ := hholds.readFrom lay (Nat.zero_add l.length)
    rw [hrows]
    refine ⟨List.Perm.refl l, hasc, fun _ => hasc, fun _ => hasc, .holds hr fun _ => ?_⟩
    -- a window to the end is on all items, or not on the first one
    have hready := hr.ready (hr.itemCount.le.trans (hreach (.inl (length_pos_iff.mpr hne))))
    rcases Nat.eq_zero_or_pos (s.readFrom lay 0 l.length).2.firstBufferedItem with hzero | hpos
    · refine .inr (.inr (.inr ⟨hzero, ?_, hasc⟩))
      rw [hready.buffer, hzero, drop_zero]
    · exact .inr (.inr (.inl hpos))
  · obtain ⟨hrows, hr⟩ := hstored.readFrom lay hfirst hne
    rw [hrows]
    refine ⟨List.Perm.refl l, hasc, fun _ => hasc, fun _ => hasc, .holds hr fun hfalse => ?_⟩
    nomatch htrue.symm.trans (hflag.symm.trans hfalse)
  · rw [readFrom_of_whole hfirst (by rw [hperm.length_eq, Nat.zero_add])]
    exact ⟨hperm, hasc', h⟩

end Spec

end SetFragment

end Beegfs
