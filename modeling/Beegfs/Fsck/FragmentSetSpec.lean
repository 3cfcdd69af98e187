import Beegfs.Fsck.FragmentSet

/-!
# The rows of a set

What the functions of a set do to its rows.  Sorting and merging leave the same rows, in one
fragment and in the order of their keys (`Sound.sort`), so that a cursor delivers them in that order
(`Sound.cursor`).
-/

namespace Beegfs.FragmentSet

open SetFragment List Nat

variable {α κ : Type}

lemma addFragment_perm (s : FragmentSet α κ) (id : ℕ) (f : SetFragment α κ) :
    (s.addFragment id f).openFragments.Perm ((id, f) :: s.openFragments) :=
  perm_orderedInsert _ _ _

lemma insertBySize_perm (p : ℕ × SetFragment α κ) (l : List (ℕ × SetFragment α κ)) :
    (insertBySize p l).Perm (p :: l) := by
  induction l with
  | nil => exact List.Perm.refl _
  | cons q rest ih =>
    rw [insertBySize]
    split_ifs
    · exact List.Perm.refl _
    · exact (ih.cons q).trans (List.Perm.swap p q rest)

lemma foldl_insertBySize_perm (l acc : List (ℕ × SetFragment α κ)) :
    (l.foldl (fun fragments p => insertBySize p fragments) acc).Perm (l ++ acc) := by
  induction l generalizing acc with
  | nil => exact List.Perm.refl _
  | cons p rest ih =>
    refine (ih (insertBySize p acc)).trans ?_
    refine ((insertBySize_perm p acc).append_left rest).trans ?_
    exact perm_middle

variable [Inhabited α] [LinearOrder κ] {K : SetKind α κ} {s : FragmentSet α κ}

/-- The rows of some fragments. -/
def rowsOf (fragments : List (ℕ × SetFragment α κ)) : List α := fragments.flatMap fun p => p.2.rows

/-- All rows of the set. -/
def rows (s : FragmentSet α κ) : List α := rowsOf s.openFragments

variable (K) in
/-- All fragments can be sorted and read, and none of them has the number of the next one. -/
structure Sound (s : FragmentSet α κ) : Prop where
  lt_nextID : ∀ p ∈ s.openFragments, p.1 < s.nextID
  fragment : ∀ p ∈ s.openFragments, p.2.Sound K.pkey p.2.rows
  nodup : (s.openFragments.map Prod.fst).Nodup

omit [LinearOrder κ] in
lemma rowsOf_perm {l l' : List (ℕ × SetFragment α κ)} (h : l.Perm l') :
    (rowsOf l).Perm (rowsOf l') := h.flatMap_right _

variable {t : FragmentSet α κ}

lemma Sound.of_perm (h : s.Sound K) (hnext : s.nextID ≤ t.nextID)
    (hperm : t.openFragments.Perm s.openFragments) : t.Sound K := by
  refine ⟨fun p hp => ?_, fun p hp => h.fragment p (hperm.mem_iff.mp hp), ?_⟩
  · exact (h.lt_nextID p (hperm.mem_iff.mp hp)).trans_le hnext
  · exact (hperm.map Prod.fst).nodup_iff.mpr h.nodup

lemma sound_empty : (empty : FragmentSet α κ).Sound K := ⟨nofun, nofun, nodup_nil⟩

lemma sound_clear : (clear : FragmentSet α κ).Sound K := ⟨nofun, nofun, nodup_nil⟩

lemma Sound.size_eq (h : s.Sound K) : s.size = s.rows.length := by
  rw [size, rows, rowsOf, length_flatMap]
  congr 1
  refine map_congr_left fun p hp => ?_
  exact (h.fragment p hp).size_eq

/-! ## Adding and changing fragments -/

variable {id : ℕ} {f : SetFragment α κ}

section

variable (h : s.Sound K)

include h

lemma Sound.addFragment (hid : id < s.nextID)
    (hnew : id ∉ s.openFragments.map Prod.fst) (hf : f.Sound K.pkey f.rows) :
    (s.addFragment id f).Sound K := by
  refine Sound.of_perm (s := { s with openFragments := (id, f) :: s.openFragments })
    ⟨?_, ?_, ?_⟩ le_rfl (addFragment_perm s id f)
  · exact forall_mem_cons.mpr ⟨hid, h.lt_nextID⟩
  · exact forall_mem_cons.mpr ⟨hf, h.fragment⟩
  · exact nodup_cons.mpr ⟨hnew, h.nodup⟩

/-- The number of the next fragment is not that of one of the set. -/
lemma Sound.nextID_notMem : s.nextID ∉ s.openFragments.map Prod.fst := by
  intro hmem
  obtain ⟨p, hp, _⟩ := mem_map.mp hmem
  exact absurd (h.lt_nextID p hp) (by omega)

lemma Sound.with_nextID : { s with nextID := s.nextID + 1 }.Sound K :=
  h.of_perm (le_succ _) (List.Perm.refl _)

lemma Sound.acceptFragment (hf : f.Sound K.pkey f.rows) :
    (s.acceptFragment f).Sound K ∧ (s.acceptFragment f).rows.Perm (f.rows ++ s.rows) :=
  ⟨h.with_nextID.addFragment (lt_succ_self _) h.nextID_notMem hf,
    rowsOf_perm (addFragment_perm _ _ _)⟩

lemma Sound.newFragment :
    (s.newFragment K).2.Sound K ∧ (s.newFragment K).2.openFragments.Perm
      (((s.newFragment K).1, .openFile K.layout K.pkey .empty) :: s.openFragments) ∧
      (s.newFragment K).2.rows.Perm s.rows := by
  have hempty := (filling_empty K.layout K.pkey).sound
  have hrows : (openFile K.layout K.pkey .empty).rows = [] := hempty.rows_eq
  have hnew : ¬s.openFragments.any (·.1 == s.nextID) := by
    intro hany
    obtain ⟨p, hp, heq⟩ := any_eq_true.mp hany
    exact h.nextID_notMem (mem_map.mpr ⟨p, hp, beq_iff_eq.mp heq⟩)
  rw [FragmentSet.newFragment, getFragment, if_neg hnew]
  refine ⟨h.with_nextID.addFragment (lt_succ_self _) h.nextID_notMem (hrows ▸ hempty),
    addFragment_perm _ _ _, (rowsOf_perm (addFragment_perm _ _ _)).trans ?_⟩
  exact List.Perm.refl _

/-- A fragment and the other ones: only it is changed or removed under its number. -/
lemma Sound.split (hf : (id, f) ∈ s.openFragments) :
    ∃ others, s.openFragments.Perm ((id, f) :: others) ∧
      (∀ change, (s.modifyFragment id change).openFragments.Perm ((id, change f) :: others)) ∧
      (s.removeFragment id).openFragments.Perm others := by
  obtain ⟨pre, post, hsplit⟩ := append_of_mem hf
  have hnodup := h.nodup
  rw [hsplit, map_append] at hnodup
  have hother : ∀ p ∈ pre ++ post, p.1 ≠ id := by
    intro p hp heq
    have hmid := (nodup_middle.mp hnodup)
    rw [← map_append] at hmid
    exact (nodup_cons.mp hmid).1 (mem_map.mpr ⟨p, hp, heq⟩)
  refine ⟨pre ++ post, ?_, fun change => ?_, ?_⟩
  · rw [hsplit]
    exact perm_middle
  · have hmap : ∀ l : List (ℕ × SetFragment α κ), (∀ p ∈ l, p.1 ≠ id) →
        (l.map fun p => if p.1 = id then (p.1, change p.2) else p) = l := by
      intro l hl
      refine (map_congr_left fun p hp => if_neg (hl p hp)).trans (map_id' l)
    rw [modifyFragment, hsplit, map_append, map_cons,
      hmap pre fun p hp => hother p (mem_append_left _ hp),
      hmap post fun p hp => hother p (mem_append_right _ hp), if_pos rfl]
    exact perm_middle
  · rw [removeFragment, hsplit, filter_append, filter_cons_of_neg (by simp),
      ← filter_append, filter_eq_self.mpr]
    intro p hp
    simpa using hother p hp

end

/-! ## Merging -/

variable (K) in
lemma mergedRows_spec (inputs : List (List α)) (htwo : 2 ≤ inputs.length)
    (hfour : inputs.length ≤ 4) (hasc : ∀ l ∈ inputs, Ascending K.pkey l) :
    (mergedRows K inputs).Perm inputs.flatten ∧ Ascending K.pkey (mergedRows K inputs) := by
  match inputs, htwo, hfour with
  | [a, b], _, _ =>
    have hexact : ((Query.fragment a).union (.fragment b) K.pkey).Exact := ⟨trivial, trivial⟩
    rw [mergedRows, Query.source_rows hexact]
    refine ⟨mergeRows_perm.trans ?_, ascending_mergeRows (hasc a (by simp)) (hasc b (by simp))⟩
    simp [Query.rows]
  | [a, b, c], _, _ =>
    have hexact : (((Query.fragment a).union (.fragment b) K.pkey).union (.fragment c)
        K.pkey).Exact := ⟨⟨trivial, trivial⟩, trivial⟩
    rw [mergedRows, Query.source_rows hexact]
    refine ⟨?_, ascending_mergeRows (ascending_mergeRows (hasc a (by simp)) (hasc b (by simp)))
      (hasc c (by simp))⟩
    refine mergeRows_perm.trans ((mergeRows_perm.append_right _).trans ?_)
    simp [Query.rows]
  | [a, b, c, d], _, _ =>
    have hexact : (((Query.fragment a).union (.fragment b) K.pkey).union
        ((Query.fragment c).union (.fragment d) K.pkey) K.pkey).Exact :=
      ⟨⟨trivial, trivial⟩, trivial, trivial⟩
    rw [mergedRows, Query.source_rows hexact]
    refine ⟨?_, ascending_mergeRows (ascending_mergeRows (hasc a (by simp)) (hasc b (by simp)))
      (ascending_mergeRows (hasc c (by simp)) (hasc d (by simp)))⟩
    refine mergeRows_perm.trans ((mergeRows_perm.append mergeRows_perm).trans ?_)
    simp [Query.rows]

lemma filling_appendAll {l : List α} (h : f.Filling K.pkey l) (rows : List α) :
    (appendAll K rows f).Filling K.pkey (l ++ rows) := by
  induction rows generalizing f l with
  | nil =>
    rw [append_nil]
    exact h
  | cons r rest ih =>
    have hrest := ih (h.append K.layout r)
    rw [append_assoc] at hrest
    exact hrest

variable (K) in
/-- A fragment of a number below `bound` whose rows are in the order of their keys. -/
structure Ordered (bound : ℕ) (p : ℕ × SetFragment α κ) : Prop where
  lt : p.1 < bound
  sound : p.2.Sound K.pkey p.2.rows
  ascending : Ascending K.pkey p.2.rows

/-- Appended rows are those of the fragment. -/
lemma sound_appendAll (rows : List α) :
    (appendAll K rows (.openFile K.layout K.pkey .empty)).flush.Sound K.pkey rows :=
  (filling_appendAll (filling_empty K.layout K.pkey) rows).sound.flush

lemma mergeFragments_spec {bound : ℕ} {inputs : List (ℕ × SetFragment α κ)}
    (htwo : 2 ≤ inputs.length) (hfour : inputs.length ≤ 4) (h : ∀ p ∈ inputs, Ordered K bound p) :
    (mergeFragments K inputs).Sound K.pkey (mergeFragments K inputs).rows ∧
      Ascending K.pkey (mergeFragments K inputs).rows ∧
      (mergeFragments K inputs).rows.Perm (rowsOf inputs) := by
  set read := inputs.map fun p => (p.2.readAll K.layout).1 with hread
  have hlen : read.length = inputs.length := length_map _
  have hasc : ∀ l ∈ read, Ascending K.pkey l := by
    intro l hl
    obtain ⟨p, hp, rfl⟩ := mem_map.mp hl
    exact ((h p hp).sound.readAll K.layout (h p hp).ascending).2.1
  have hperm : read.flatten.Perm (rowsOf inputs) := by
    refine List.Perm.flatMap_left _ fun p hp => ?_
    exact ((h p hp).sound.readAll K.layout (h p hp).ascending).1
  obtain ⟨hmerg, hmergAsc⟩ := mergedRows_spec K read (by omega) (by omega) hasc
  have hsound := sound_appendAll (K := K) (mergedRows K read)
  have hrows : (mergeFragments K inputs).rows = mergedRows K read := hsound.rows_eq
  rw [hrows]
  exact ⟨hsound, hmergAsc, hmerg.trans hperm⟩

/-- Merging goes on until one fragment is left, with the rows of all of them. -/
lemma mergeLoop_spec {fuel nextID : ℕ} {fragments : List (ℕ × SetFragment α κ)}
    (hne : fragments ≠ []) (hfuel : fragments.length ≤ fuel + 1)
    (h : ∀ p ∈ fragments, Ordered K nextID p) :
    ∃ p, (mergeLoop K fuel nextID fragments).2 = [p] ∧
      Ordered K (mergeLoop K fuel nextID fragments).1 p ∧ p.2.rows.Perm (rowsOf fragments) := by
  have hone : ∀ {fragments : List (ℕ × SetFragment α κ)} {nextID : ℕ}, fragments ≠ [] →
      fragments.length ≤ 1 → (∀ p ∈ fragments, Ordered K nextID p) →
      ∃ p, fragments = [p] ∧ Ordered K nextID p ∧ p.2.rows.Perm (rowsOf fragments) := by
    intro fragments nextID hne hle h
    match fragments with
    | [p] => exact ⟨p, rfl, h p (by simp), by simp [rowsOf]⟩
  induction fuel generalizing nextID fragments with
  | zero => exact hone hne hfuel h
  | succ fuel ih =>
    rw [mergeLoop]
    split_ifs with hle
    · exact hone hne hle h
    · have htake : (fragments.take 4).length = min 4 fragments.length := length_take
      obtain ⟨hsound, hasc, hrows⟩ := mergeFragments_spec (K := K) (by omega) (by omega)
        fun p (hp : p ∈ fragments.take 4) => h p (mem_of_mem_take hp)
      have hperm := insertBySize_perm (nextID, mergeFragments K (fragments.take 4))
        (fragments.drop 4)
      have hlen : (fragments.drop 4).length = fragments.length - 4 := length_drop
      set next := insertBySize (nextID, mergeFragments K (fragments.take 4)) (fragments.drop 4)
      have hnext : next.length = (fragments.drop 4).length + 1 := hperm.length_eq
      have hne' : next ≠ [] := ne_nil_of_length_pos (by omega)
      have hord : ∀ q ∈ next, Ordered K (nextID + 1) q := by
        intro q hq
        rcases mem_cons.mp (hperm.mem_iff.mp hq) with rfl | hq
        · exact ⟨lt_succ_self _, hsound, hasc⟩
        · have hold := h q (mem_of_mem_drop hq)
          exact ⟨hold.lt.trans (lt_succ_self _), hold.sound, hold.ascending⟩
      obtain ⟨p, hp, hord, hprows⟩ := ih hne' (by omega) hord
      refine ⟨p, hp, hord, hprows.trans ((rowsOf_perm hperm).trans ?_)⟩
      nth_rewrite 3 [← take_append_drop 4 fragments]
      rw [rowsOf, rowsOf, flatMap_append]
      exact hrows.append_right _

/-! ## Sorting and reading -/

variable (K) in
/-- The set has one fragment, and its rows are in the order of their keys. -/
def IsSorted (s : FragmentSet α κ) : Prop := ∃ p, s.openFragments = [p] ∧ Ordered K s.nextID p

lemma IsSorted.sound (h : s.IsSorted K) : s.Sound K := by
  obtain ⟨p, hp, hord⟩ := h
  refine ⟨?_, ?_, ?_⟩
  · rw [hp]
    exact forall_mem_singleton.mpr hord.lt
  · rw [hp]
    exact forall_mem_singleton.mpr hord.sound
  · rw [hp]
    exact nodup_singleton _

/-- The first part of `sort`: an empty set gets a fragment. -/
lemma Sound.withFragment (h : s.Sound K) :
    (if s.openFragments.isEmpty then (s.newFragment K).2 else s).Sound K ∧
      (if s.openFragments.isEmpty then (s.newFragment K).2 else s).openFragments ≠ [] ∧
      (if s.openFragments.isEmpty then (s.newFragment K).2 else s).rows.Perm s.rows := by
  split_ifs with hempty
  · obtain ⟨hsound, hperm, hrows⟩ := h.newFragment
    refine ⟨hsound, fun hnil => ?_, hrows⟩
    rw [hnil] at hperm
    cases hperm.length_eq
  · refine ⟨h, fun hnil => hempty ?_, List.Perm.refl _⟩
    rw [hnil]
    rfl

/-- Sorting leaves one fragment with the same rows. -/
lemma Sound.sort (h : s.Sound K) : (s.sort K).IsSorted K ∧ (s.sort K).rows.Perm s.rows := by
  obtain ⟨hsound, hne, hrows⟩ := h.withFragment
  rw [FragmentSet.sort]
  set t := if s.openFragments.isEmpty then (s.newFragment K).2 else s
  simp only [map_map]
  set sorted := t.openFragments.map
    ((fun p : ℕ × SetFragment α κ => (p.1, p.2.sort K.sorter.sort)) ∘ fun p => (p.1, p.2.flush))
    with hsorted
  -- Each fragment is sorted on its own first.
  have hfrag : ∀ p ∈ t.openFragments, Ordered K t.nextID (p.1, p.2.flush.sort K.sorter.sort) ∧
      (p.2.flush.sort K.sorter.sort).rows.Perm p.2.rows := by
    intro p hp
    obtain ⟨l, hl, hasc, hsnd'⟩ := (hsound.fragment p hp).flush.sort K.sorter
    obtain rfl := hsnd'.rows_eq
    exact ⟨⟨hsound.lt_nextID p hp, hsnd', hasc⟩, hl⟩
  have hord : ∀ q ∈ sorted, Ordered K t.nextID q := by
    intro q hq
    obtain ⟨p, hp, rfl⟩ := mem_map.mp hq
    exact (hfrag p hp).1
  have hperm : (rowsOf sorted).Perm s.rows := by
    refine List.Perm.trans ?_ hrows
    rw [rowsOf, flatMap_map]
    exact List.Perm.flatMap_left _ fun p hp => (hfrag p hp).2
  have hne' : sorted ≠ [] := by
    intro hnil
    exact hne (map_eq_nil_iff.mp hnil)
  split_ifs with hone
  · obtain ⟨p, hp⟩ := length_eq_one_iff.mp hone
    exact ⟨⟨p, hp, hord p (hp ▸ mem_singleton_self p)⟩, hperm⟩
  · have hbySize := foldl_insertBySize_perm sorted []
    rw [append_nil] at hbySize
    obtain ⟨p, hp, hp', hprows⟩ := mergeLoop_spec
      (fun hnil => hne' (List.Perm.eq_nil (hnil ▸ hbySize.symm))) (le_succ _)
      fun q hq => hord q (hbySize.mem_iff.mp hq)
    refine ⟨⟨p, hp, hp'⟩, ?_⟩
    rw [rows, hp, rowsOf, flatMap_singleton]
    exact hprows.trans ((rowsOf_perm hbySize).trans hperm)

/-- A cursor delivers all rows in the order of their keys. -/
lemma Sound.cursor (h : s.Sound K) :
    (s.cursor K).1.Perm s.rows ∧ Ascending K.pkey (s.cursor K).1 ∧ (s.cursor K).2.IsSorted K ∧
      (s.cursor K).2.rows.Perm s.rows := by
  obtain ⟨⟨⟨id, f⟩, hp, hord⟩, hrows⟩ := h.sort
  obtain ⟨hread, hasc, hsound⟩ := hord.sound.readAll K.layout hord.ascending
  have hsort : (s.sort K).rows = f.rows := by
    rw [rows, hp]
    exact append_nil _
  rw [hsort] at hrows
  rw [FragmentSet.cursor, hp]
  refine ⟨hread.trans hrows, hasc, ⟨_, rfl, hord.lt, ?_, ?_⟩, ?_⟩
  · rw [hsound.rows_eq]
    exact hsound
  · rw [hsound.rows_eq]
    exact hord.ascending
  · change (rowsOf [(id, (f.readAll K.layout).2)]).Perm _
    rw [rowsOf, flatMap_singleton, hsound.rows_eq]
    exact hrows

/-! ## Moving fragments -/

lemma foldl_acceptFragment (fragments : List (ℕ × SetFragment α κ))
    (hfrags : ∀ p ∈ fragments, p.2.Sound K.pkey p.2.rows) (h : s.Sound K) :
    (fragments.foldl (fun o p => o.acceptFragment p.2) s).Sound K ∧
      (fragments.foldl (fun o p => o.acceptFragment p.2) s).rows.Perm
        (rowsOf fragments ++ s.rows) := by
  induction fragments generalizing s with
  | nil => exact ⟨h, List.Perm.refl _⟩
  | cons p rest ih =>
    obtain ⟨haccept, hrows⟩ := h.acceptFragment (hfrags p (by simp))
    obtain ⟨hsound, hperm⟩ := ih (fun q hq => hfrags q (mem_cons_of_mem _ hq)) haccept
    refine ⟨hsound, hperm.trans ((hrows.append_left _).trans ?_)⟩
    rw [← append_assoc]
    exact perm_append_comm.append_right _

/-- The fragments that are moved are added to the other set. -/
lemma Sound.mergeInto (h : s.Sound K) (ht : t.Sound K) :
    (s.mergeInto t).1.Sound K ∧ (s.mergeInto t).1.rows = [] ∧ (s.mergeInto t).2.Sound K ∧
      (s.mergeInto t).2.rows.Perm (s.rows ++ t.rows) := by
  obtain ⟨hsound, hperm⟩ := foldl_acceptFragment s.openFragments h.fragment ht
  exact ⟨⟨nofun, nofun, nodup_nil⟩, rfl, hsound, hperm⟩

/-- A set that is opened again is sound, if none of its fragments is one of two rows in the wrong
order. -/
lemma Sound.reopen (h : s.Sound K)
    (hswap : ∀ p ∈ s.openFragments, SetFragment.NotSwapped K.pkey p.2.rows) :
    (s.reopen K).Sound K ∧ (s.reopen K).rows = s.rows := by
  have hfrag : ∀ p ∈ s.openFragments,
      (openFile K.layout K.pkey p.2.close).Sound K.pkey p.2.rows :=
    fun p hp => (h.fragment p hp).reopen (hswap p hp)
  refine ⟨⟨fun q hq => ?_, fun q hq => ?_, ?_⟩, ?_⟩
  · obtain ⟨p, hp, rfl⟩ := mem_map.mp hq
    exact h.lt_nextID p hp
  · obtain ⟨p, hp, rfl⟩ := mem_map.mp hq
    have hsound := hfrag p hp
    exact (hsound.rows_eq).symm ▸ hsound
  · rw [FragmentSet.reopen, map_map]
    exact h.nodup
  · rw [rows, rowsOf, FragmentSet.reopen, flatMap_map]
    exact flatMap_congr fun p hp => (hfrag p hp).rows_eq

/-! ## Unique rows -/

omit [Inhabited α] in
lemma uniqueFrom_sublist (key : κ) (rows : List α) : (uniqueFrom K key rows).Sublist rows := by
  induction rows generalizing key with
  | nil => exact List.Sublist.refl _
  | cons r rest ih =>
    rw [uniqueFrom]
    split_ifs
    · exact (ih key).cons r
    · exact (ih _).cons_cons r

omit [Inhabited α] in
lemma exists_mem_uniqueFrom (key : κ) {rows : List α} {r : α} (hr : r ∈ rows) :
    key = K.pkey r ∨ ∃ r' ∈ uniqueFrom K key rows, K.pkey r' = K.pkey r := by
  induction rows generalizing key with
  | nil => cases hr
  | cons b rest ih =>
    rw [uniqueFrom]
    split_ifs with heq
    · rcases mem_cons.mp hr with rfl | hr
      · exact .inl heq
      · exact ih key hr
    · right
      rcases mem_cons.mp hr with rfl | hr
      · exact ⟨r, mem_cons_self, rfl⟩
      · rcases ih (K.pkey b) hr with heq' | ⟨r', hr', heq'⟩
        · exact ⟨b, mem_cons_self, heq'⟩
        · exact ⟨r', mem_cons_of_mem _ hr', heq'⟩

/-- What is left of a set of one fragment when its rows were copied. -/
lemma IsSorted.copyUnique (h : s.IsSorted K)
    (hs : s.openFragments = [(id, f)]) {first : α} {rest : List α}
    (hasc : Ascending K.pkey (first :: rest)) :
    (s.copyUnique K id (first :: rest)).IsSorted K ∧
      (s.copyUnique K id (first :: rest)).rows = first :: uniqueFrom K (K.pkey first) rest := by
  obtain ⟨hsound, hperm, -⟩ := h.sound.newFragment
  set new := s.newFragment K
  set unique := first :: uniqueFrom K (K.pkey first) rest with huniq
  have hmem := hperm.mem_iff.mpr mem_cons_self
  obtain ⟨others, hsplit, hmodi, -⟩ := hsound.split hmem
  have hcop := sound_appendAll (K := K) unique
  set copied := (appendAll K unique (.openFile K.layout K.pkey .empty)).flush with hcopy
  set t := new.2.modifyFragment new.1 fun f => (appendAll K unique f).flush
  have hoth : others = [(id, f)] := by
    have := hsplit.symm.trans hperm
    rw [hs] at this
    exact perm_singleton.mp ((perm_cons _).mp this)
  have ht : t.openFragments.Perm [(new.1, copied), (id, f)] := by
    have hchg := hmodi fun f => (appendAll K unique f).flush
    rw [hoth] at hchg
    exact hchg
  have hne : new.1 ≠ id := by
    have hnodup := (hperm.map Prod.fst).nodup_iff.mp hsound.nodup
    rw [hs] at hnodup
    exact fun heq => (nodup_cons.mp hnodup).1 (by simp [heq])
  have hrem : (s.copyUnique K id (first :: rest)).openFragments = [(new.1, copied)] := by
    have hfilt := ht.filter fun p => p.1 != id
    rw [filter_cons_of_pos (by simpa using hne), filter_cons_of_neg (by simp)] at hfilt
    exact perm_singleton.mp hfilt
  have hlt : new.1 < (s.copyUnique K id (first :: rest)).nextID := hsound.lt_nextID _ hmem
  have huniqAsc : Ascending K.pkey unique :=
    List.Pairwise.sublist ((uniqueFrom_sublist _ rest).cons_cons first) hasc
  refine ⟨⟨_, hrem, hlt, ?_, ?_⟩, ?_⟩
  · exact hcop.rows_eq.symm ▸ hcop
  · exact hcop.rows_eq.symm ▸ huniqAsc
  · rw [rows, hrem, rowsOf, flatMap_singleton]
    exact hcop.rows_eq

/-- One row of each key is kept. -/
lemma Sound.makeUnique (h : s.Sound K) :
    (s.makeUnique K).IsSorted K ∧ (∀ r ∈ (s.makeUnique K).rows, r ∈ s.rows) ∧
      ∀ r ∈ s.rows, ∃ r' ∈ (s.makeUnique K).rows, K.pkey r' = K.pkey r := by
  obtain ⟨hread, hasc, hsorted, hrows⟩ := h.cursor
  obtain ⟨⟨⟨_, f⟩, hp, -⟩, -⟩ := h.sort
  rw [FragmentSet.cursor, hp] at hread hasc hsorted hrows
  rw [FragmentSet.makeUnique, hp]
  simp only at hread hasc hsorted hrows ⊢
  rcases hlist : (f.readAll K.layout).1 with _ | ⟨first, rest⟩
  · refine ⟨hsorted, fun r hr => hrows.mem_iff.mp hr, fun r hr => ?_⟩
    exact ⟨r, hrows.mem_iff.mpr hr, rfl⟩
  · rw [hlist] at hread hasc
    obtain ⟨huniq, heq⟩ := hsorted.copyUnique rfl hasc
    refine ⟨huniq, fun r hr => ?_, fun r hr => ?_⟩
    · rw [heq] at hr
      exact hread.mem_iff.mp (((uniqueFrom_sublist _ rest).cons_cons first).subset hr)
    · rw [heq]
      rcases mem_cons.mp (hread.mem_iff.mpr hr) with rfl | hmem
      · exact ⟨r, mem_cons_self, rfl⟩
      · rcases exists_mem_uniqueFrom (K := K) (K.pkey first) hmem with hfirst | ⟨r', hr', hkey⟩
        · exact ⟨first, mem_cons_self, hfirst⟩
        · exact ⟨r', mem_cons_of_mem _ hr', hkey⟩

/-! ## Buffers -/

variable (K) in
/-- The fragment that a buffer fills is one that is being filled. -/
def Filled (s : FragmentSet α κ) (current : Option ℕ) : Prop :=
  ∀ id, current = some id → ∃ f, (id, f) ∈ s.openFragments ∧ f.Filling K.pkey f.rows

lemma filled_none (s : FragmentSet α κ) : s.Filled K none := nofun

/-- A change of one fragment to one that is sound. -/
lemma Sound.modifyFragment (h : s.Sound K)
    (hf : (id, f) ∈ s.openFragments) (change : SetFragment α κ → SetFragment α κ) {l : List α}
    (hchg : (change f).Sound K.pkey l) :
    (s.modifyFragment id change).Sound K ∧
      (id, change f) ∈ (s.modifyFragment id change).openFragments ∧
      ∃ others, s.rows.Perm (f.rows ++ others) ∧
        (s.modifyFragment id change).rows.Perm (l ++ others) := by
  obtain ⟨others, hperm, hmodi, -⟩ := h.split hf
  have hrows := hchg.rows_eq
  have hold := h.of_perm (t := ⟨s.nextID, (id, f) :: others⟩) le_rfl hperm.symm
  refine ⟨?_, (hmodi change).mem_iff.mpr mem_cons_self, rowsOf others, rowsOf_perm hperm, ?_⟩
  · refine Sound.of_perm (s := ⟨s.nextID, (id, change f) :: others⟩) ⟨?_, ?_, ?_⟩ le_rfl
      (hmodi change)
    · exact forall_mem_cons.mpr (forall_mem_cons.mp hold.lt_nextID)
    · exact forall_mem_cons.mpr ⟨hrows.symm ▸ hchg, (forall_mem_cons.mp hold.fragment).2⟩
    · exact hold.nodup
  · rw [← hrows]
    exact rowsOf_perm (hmodi change)

variable {current : Option ℕ}

/-- Emptying a buffer leaves the rows as they are. -/
lemma Sound.bufferFlush (h : s.Sound K) (hfill : s.Filled K current) :
    (s.bufferFlush current).Sound K ∧ (s.bufferFlush current).rows.Perm s.rows := by
  rcases current with _ | id
  · exact ⟨h, List.Perm.refl _⟩
  · obtain ⟨f, hf, hfilling⟩ := hfill id rfl
    obtain ⟨hsound, -, _, hrows, hrows'⟩ := h.modifyFragment hf SetFragment.flush
      hfilling.sound.flush
    exact ⟨hsound, hrows'.trans hrows.symm⟩

lemma Sound.bufferFragment (h : s.Sound K) (hfill : s.Filled K current) :
    (s.bufferFragment K current).2.Sound K ∧
      (s.bufferFragment K current).2.Filled K (some (s.bufferFragment K current).1) ∧
      (s.bufferFragment K current).2.rows.Perm s.rows := by
  rcases current with _ | id
  · obtain ⟨hsound, hperm, hrows⟩ := h.newFragment
    refine ⟨hsound, fun id hid => ?_, hrows⟩
    obtain rfl := Option.some.inj hid
    have hempty := filling_empty K.layout K.pkey
    exact ⟨_, hperm.mem_iff.mpr mem_cons_self, hempty.sound.rows_eq.symm ▸ hempty⟩
  · exact ⟨h, hfill, List.Perm.refl _⟩

/-- A row that is appended to a buffer is added to the rows of the set. -/
lemma Sound.bufferAppend (h : s.Sound K) (hfill : s.Filled K current) (limit : ℕ) (data : α) :
    (s.bufferAppend K limit current data).1.Sound K ∧
      (s.bufferAppend K limit current data).1.Filled K (s.bufferAppend K limit current data).2 ∧
      (s.bufferAppend K limit current data).1.rows.Perm (data :: s.rows) := by
  obtain ⟨hcur, hfill', hrows⟩ := h.bufferFragment hfill
  rw [FragmentSet.bufferAppend]
  set t := (s.bufferFragment K current).2
  set id := (s.bufferFragment K current).1
  obtain ⟨f, hf, hfilling⟩ := hfill' id rfl
  have happ := hfilling.append K.layout data
  obtain ⟨hsound, hmem, _, hold, hnew⟩ := hcur.modifyFragment hf
    (fun f => f.append K.layout K.pkey data) happ.sound
  have hfill'' : (t.modifyFragment id fun f => f.append K.layout K.pkey data).Filled K
    (some id) := by
    intro id' hid'
    obtain rfl := Option.some.inj hid'
    exact ⟨_, hmem, happ.sound.rows_eq.symm ▸ happ⟩
  have hperm : (t.modifyFragment id fun f => f.append K.layout K.pkey data).rows.Perm
      (data :: s.rows) := by
    refine hnew.trans (List.Perm.trans ?_ ((hold.symm.trans hrows).cons data))
    rw [append_assoc]
    exact perm_middle
  split_ifs with hfull
  · obtain ⟨hflush, hflushRows⟩ := hsound.bufferFlush hfill''
    exact ⟨hflush, filled_none _, hflushRows.trans hperm⟩
  · exact ⟨hsound, hfill'', hperm⟩

/-! ## The rows of single fragments -/

/-- The rows of every fragment have the property. -/
def EveryFragment (P : List α → Prop) (s : FragmentSet α κ) : Prop :=
  ∀ p ∈ s.openFragments, P p.2.rows

instance (P : List α → Prop) [DecidablePred P] (s : FragmentSet α κ) :
    Decidable (s.EveryFragment P) := inferInstanceAs (Decidable (∀ p ∈ s.openFragments, _))

variable {P : List α → Prop}

lemma IsSorted.everyFragment (h : s.IsSorted K) : s.EveryFragment (Ascending K.pkey) := by
  obtain ⟨p, hp, hord⟩ := h
  rw [EveryFragment, hp]
  exact forall_mem_singleton.mpr hord.ascending

variable (h : s.EveryFragment P)

include h

lemma EveryFragment.bufferFlush (hsound : s.Sound K)
    (hfill : s.Filled K current) : (s.bufferFlush current).EveryFragment P := by
  rcases current with _ | id
  · exact h
  · obtain ⟨f, hf, hfilling⟩ := hfill id rfl
    obtain ⟨_, hperm, hmodi, -⟩ := hsound.split hf
    intro p hp
    rcases mem_cons.mp ((hmodi _).mem_iff.mp hp) with rfl | hp
    · rw [show f.flush.rows = f.rows from hfilling.sound.flush.rows_eq]
      exact h _ hf
    · exact h p (hperm.mem_iff.mpr (mem_cons_of_mem _ hp))

omit [LinearOrder κ] in
lemma EveryFragment.acceptFragment (hf : P f.rows) : (s.acceptFragment f).EveryFragment P := by
  intro p hp
  rcases mem_cons.mp ((addFragment_perm _ _ _).mem_iff.mp hp) with rfl | hp
  · exact hf
  · exact h p hp

omit [LinearOrder κ] in
lemma EveryFragment.mergeInto (ht : t.EveryFragment P) : (s.mergeInto t).2.EveryFragment P := by
  have hfold : ∀ fragments : List (ℕ × SetFragment α κ), (∀ p ∈ fragments, P p.2.rows) →
      ∀ t : FragmentSet α κ, t.EveryFragment P →
        (fragments.foldl (fun o p => o.acceptFragment p.2) t).EveryFragment P := by
    intro fragments
    induction fragments with
    | nil => exact fun _ t ht => ht
    | cons p rest ih =>
      intro hfrags t ht
      exact ih (fun q hq => hfrags q (mem_cons_of_mem _ hq)) _
        (ht.acceptFragment (hfrags p mem_cons_self))
  exact hfold s.openFragments h t ht

lemma EveryFragment.reopen (hsound : s.Sound K)
    (hswap : s.EveryFragment (SetFragment.NotSwapped K.pkey)) : (s.reopen K).EveryFragment P := by
  intro q hq
  obtain ⟨p, hp, rfl⟩ := mem_map.mp hq
  have hreopen : (openFile K.layout K.pkey p.2.close).Sound K.pkey p.2.rows :=
    (hsound.fragment p hp).reopen (hswap p hp)
  rw [hreopen.rows_eq]
  exact h p hp

end Beegfs.FragmentSet
