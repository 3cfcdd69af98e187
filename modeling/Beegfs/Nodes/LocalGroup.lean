import Beegfs.Lib.Run
import Beegfs.Nodes.MirrorBuddyGroupMapper

/-!
# The group of the local node

A mapper keeps the id of the group of the local node apart from the groups, and each operation
updates it for itself.  `MirrorBuddyGroupMapper.knowsLocalGroup_iff` says when it is right after
every operation of a run, and when `unmapMirrorBuddyGroup` tells whether it removed a group: no
update takes the local node out of its group, no unmapped id is unmapped while the local node is in
a group, and a list of all groups has the local node if it was in one, under an id that no later
entry uses.
-/

namespace Beegfs.Nodes

open OrdMap Option

namespace MirrorBuddyGroupMapper

/-! ## Operations of a server -/

/-- An operation with the id of the local node. -/
inductive LocalOp where
  | map (known : ℕ → Bool) (call : MapCall)
  | unmap (buddyGroupID : ℕ)
  | sync (buddyGroupIDs : List ℕ) (buddyGroups : List MirrorBuddyGroup)

variable (check : TargetCheck)

/-- The mapper after an operation. -/
def localStep (localNodeID : ℕ) (m : MirrorBuddyGroupMapper) : LocalOp → MirrorBuddyGroupMapper
  | .map known call => (m.mapMirrorBuddyGroup check known call).2
  | .unmap buddyGroupID => (m.unmapMirrorBuddyGroup buddyGroupID localNodeID).2
  | .sync buddyGroupIDs buddyGroups => m.syncGroupsFromLists buddyGroupIDs buddyGroups localNodeID

variable (localNodeID : ℕ)

/-- The arguments are 16-bit numbers, and a list of all groups has no id 0 and no target twice. -/
def LocalOp.Valid : LocalOp → Prop
  | .map _ call => call.localNodeID = localNodeID ∧ call.buddyGroupID < 65536 ∧
      ∀ t, call.group.Has t → t < 65536
  | .unmap _ => True
  | .sync buddyGroupIDs buddyGroups => buddyGroupIDs.length = buddyGroups.length ∧
      (buddyGroups.flatMap fun g => [g.firstTargetID, g.secondTargetID]).Nodup ∧
      (∀ id ∈ buddyGroupIDs, id ≠ 0 ∧ id < 65536) ∧
      ∀ g ∈ buddyGroups, ∀ t, g.Has t → t ≠ 0 ∧ t < 65536

variable (m : MirrorBuddyGroupMapper)

/-- The stored id is the one of the group of the local node. -/
def KnowsLocalGroup : Prop := m.localGroupID = m.getBuddyGroupID localNodeID

/-- `unmapMirrorBuddyGroup` tells whether the id was mapped, and removes that group only. -/
def UnmapsOne : LocalOp → Prop
  | .unmap id => ((m.unmapMirrorBuddyGroup id localNodeID).1 = true ↔
        ∃ g, (id, g) ∈ m.mirrorBuddyGroups) ∧
      ∀ i g, (i, g) ∈ (m.unmapMirrorBuddyGroup id localNodeID).2.mirrorBuddyGroups ↔
        i ≠ id ∧ (i, g) ∈ m.mirrorBuddyGroups
  | _ => True

/-! ## When the group is known -/

/-- The call passes all checks. -/
structure Accepts (known : ℕ → Bool) (call : MapCall) : Prop where
  update : call.allowUpdate = true ∨ call.buddyGroupID = 0 ∨
    ∀ g, (call.buddyGroupID, g) ∉ m.mirrorBuddyGroups
  differ : call.primaryTargetID ≠ call.secondaryTargetID
  known : ∀ t, call.group.Has t → check.error (known t) = none
  free : ∀ i g t, (i, g) ∈ m.mirrorBuddyGroups → g.Has t → call.group.Has t → i = call.buddyGroupID

/-- No group has the target. -/
def InNoGroup (targetID : ℕ) : Prop := ∀ i g, (i, g) ∈ m.mirrorBuddyGroups → ¬ g.Has targetID

/-- No later entry has the id of this one. -/
def IsLast (entries : List (ℕ × MirrorBuddyGroup)) (e : ℕ × MirrorBuddyGroup) : Prop :=
  (entries.reverse.find? fun f => f.1 = e.1) = some e

/-- The operation does not lose the group of the local node. -/
def KeepsTrack (localNodeID : ℕ) (m : MirrorBuddyGroupMapper) : LocalOp → Prop
  | .map known call => m.Accepts check known call →
      ∀ g, (call.buddyGroupID, g) ∈ m.mirrorBuddyGroups → g.Has localNodeID →
        call.group.Has localNodeID
  | .unmap id => (∃ g, (id, g) ∈ m.mirrorBuddyGroups) ∨ m.InNoGroup localNodeID
  | .sync ids groups =>
      ((∀ e ∈ ids.zip groups, ¬ e.2.Has localNodeID) → m.InNoGroup localNodeID) ∧
      ∀ e ∈ ids.zip groups, e.2.Has localNodeID → IsLast (ids.zip groups) e

variable {m : MirrorBuddyGroupMapper} {check : TargetCheck} {t localNodeID : ℕ}

section Valid

variable (hvalid : GroupsValid m.mirrorBuddyGroups)

include hvalid

/-- The group of a target. -/
lemma getBuddyGroupID_eq_iff {i : ℕ} :
    m.getBuddyGroupID t = i ↔
      (∃ g, (i, g) ∈ m.mirrorBuddyGroups ∧ g.Has t) ∨ (i = 0 ∧ m.InNoGroup t) := by
  constructor
  · rintro rfl
    by_cases hnone : m.InNoGroup t
    · exact .inr ⟨getBuddyGroupID_eq_zero fun hmem => hnone _ _ hmem, hnone⟩
    · simp only [InNoGroup, not_forall, not_not] at hnone
      obtain ⟨i, g, hmem, hhas⟩ := hnone
      rw [getBuddyGroupID_eq hvalid hmem hhas]
      exact .inl ⟨g, hmem, hhas⟩
  · rintro (⟨g, hmem, hhas⟩ | ⟨rfl, hnone⟩)
    · exact getBuddyGroupID_eq hvalid hmem hhas
    · exact getBuddyGroupID_eq_zero fun hmem => hnone _ _ hmem

lemma getBuddyGroupID_eq_zero_iff : m.getBuddyGroupID t = 0 ↔ m.InNoGroup t := by
  rw [getBuddyGroupID_eq_iff hvalid]
  constructor
  · rintro (⟨g, hmem, -⟩ | ⟨-, hnone⟩)
    · exact absurd rfl (hvalid.notZero hmem)
    · exact hnone
  · exact fun hnone => .inr ⟨rfl, hnone⟩

/-! ## Mapping a group -/

variable {known : ℕ → Bool} {call : MapCall}

/-- The checks of `mapMirrorBuddyGroup` are passed by the calls that it accepts. -/
lemma refusal_eq_none_iff : m.refusal check known call = none ↔ m.Accepts check known call := by
  have hfind : (m.mirrorBuddyGroups.find call.buddyGroupID).isSome ↔
      ∃ g, (call.buddyGroupID, g) ∈ m.mirrorBuddyGroups := by
    rw [isSome_iff_exists]
    exact exists_congr fun g => find_eq_some_iff
  have hnotInUse : ∀ {t}, ¬ m.isInUse t call.buddyGroupID = true ↔
      ∀ i g, (i, g) ∈ m.mirrorBuddyGroups → g.Has t → i = call.buddyGroupID := by
    intro t
    rw [Bool.not_eq_true, isInUse_eq_false_iff hvalid]
  rw [refusal]
  constructor
  · intro hnone
    split_ifs at hnone with hexists hsame hfirst hsecond
    · split at hnone <;> cases hnone
    · split at hnone <;> cases hnone
    · split at hnone
      · cases hnone
      · cases hnone
      · rename_i hprim hsec
        refine ⟨?_, hsame, ?_, ?_⟩
        · grind
        · rintro t (rfl | rfl)
          · exact hprim
          · exact hsec
        · rintro i g t hmem hhas (rfl | rfl)
          · exact hnotInUse.mp hfirst i g hmem hhas
          · exact hnotInUse.mp hsecond i g hmem hhas
  · intro hacc
    have hexists : ¬ (call.buddyGroupID ≠ 0 ∧ ¬ call.allowUpdate ∧
        (m.mirrorBuddyGroups.find call.buddyGroupID).isSome) := by
      have := hacc.update
      grind
    have hprim : check.error (known call.primaryTargetID) = none := hacc.known _ (.inl rfl)
    have hsec : check.error (known call.secondaryTargetID) = none := hacc.known _ (.inr rfl)
    have hfirst := hnotInUse.mpr fun i g hmem hhas => hacc.free i g _ hmem hhas (.inl rfl)
    have hsecond := hnotInUse.mpr fun i g hmem hhas => hacc.free i g _ hmem hhas (.inr rfl)
    rw [if_neg hexists, if_neg hacc.differ, hprim, hsec]
    exact (if_neg hfirst).trans (if_neg hsecond)

lemma mapMirrorBuddyGroup_of_accepts (hacc : m.Accepts check known call) :
    (m.mapMirrorBuddyGroup check known call).2 = m.store call := by
  rw [mapMirrorBuddyGroup, (refusal_eq_none_iff hvalid).mpr hacc]

lemma mapMirrorBuddyGroup_of_not_accepts (hrefu : ¬ m.Accepts check known call) :
    (m.mapMirrorBuddyGroup check known call).2 = m := by
  rw [mapMirrorBuddyGroup]
  rcases hrefusal : m.refusal check known call with _ | error
  · exact absurd ((refusal_eq_none_iff hvalid).mp hrefusal) hrefu
  · rfl

variable (hbdd : GroupsBounded m.mirrorBuddyGroups) (hknows : KnowsLocalGroup localNodeID m)
  (hlocal : call.localNodeID = localNodeID)

include hbdd hknows hlocal

lemma map_knows_iff :
    KnowsLocalGroup localNodeID (m.mapMirrorBuddyGroup check known call).2 ↔
      KeepsTrack check localNodeID m (.map known call) := by
  by_cases hacc : m.Accepts check known call
  · -- the local group is known if the local node was not taken out of it
    rw [mapMirrorBuddyGroup_of_accepts hvalid hacc, KeepsTrack, forall_prop_of_true hacc]
    have hval' := store_valid hvalid hbdd hacc.differ hacc.free
    have hsto : ∀ {g}, (m.storeID call, g) ∈ m.mirrorBuddyGroups → m.storeID call =
      call.buddyGroupID := by
      intro g hmem
      rw [storeID] at hmem ⊢
      split_ifs at hmem ⊢ with hzero
      · rcases generateID_cases hbdd.id_lt with hfree | hnone
        · exact absurd hmem (hfree.2.2 g)
        · exact absurd hnone.1 (generateID_ne_zero hvalid hbdd)
      · rfl
    rw [KnowsLocalGroup, eq_comm, getBuddyGroupID_eq_iff hval']
    by_cases hhas : call.group.Has localNodeID
    · refine iff_of_true (.inl ⟨call.group, ?_, hhas⟩) fun _ _ _ => hhas
      rw [store, hlocal, if_pos hhas]
      exact mem_set.mpr (.inl ⟨rfl, rfl⟩)
    · -- The stored id stays, so the question is whether the group of the local node is still there.
      rw [store, hlocal, if_neg hhas]
      have hold : m.getBuddyGroupID localNodeID = m.localGroupID := hknows.symm
      rcases (getBuddyGroupID_eq_iff hvalid).mp hold with ⟨g, hmem, hg⟩ | ⟨hzero, hnone⟩
      · by_cases hid : m.localGroupID = m.storeID call
        · refine iff_of_false ?_ fun hkeeps => hhas (hkeeps g ?_ hg)
          · rintro (⟨g', hmem', hg'⟩ | ⟨hzero, -⟩)
            · rcases mem_set.mp hmem' with ⟨-, rfl⟩ | ⟨hne, -⟩
              · exact hhas hg'
              · exact hne hid
            · exact hvalid.notZero hmem hzero
          · rw [hid] at hmem
            rwa [hsto hmem] at hmem
        · refine iff_of_true (.inl ⟨g, mem_set.mpr (.inr ⟨hid, hmem⟩), hg⟩) ?_
          intro g' hmem' hg'
          have hsame : call.buddyGroupID = m.localGroupID := hvalid.one hmem' hmem hg' hg
          rw [storeID, if_neg (hvalid.notZero hmem')] at hid
          exact absurd hsame.symm hid
      · refine iff_of_true (.inr ⟨hzero, ?_⟩) fun g hmem hg => absurd hg (hnone _ g hmem)
        intro i g hmem
        rcases mem_set.mp hmem with ⟨-, rfl⟩ | ⟨-, hmem⟩
        · exact hhas
        · exact hnone i g hmem
  · rw [mapMirrorBuddyGroup_of_not_accepts hvalid hacc]
    exact iff_of_true hknows fun h => absurd h hacc

end Valid

/-! ## Unmapping a group -/

variable {id : ℕ}

/-- With a local group, an id is erased after it was stored. -/
lemma unmapMirrorBuddyGroup_fst :
    (m.unmapMirrorBuddyGroup id localNodeID).1 = true ↔
      m.localGroupID ≠ 0 ∨ ∃ g, (id, g) ∈ m.mirrorBuddyGroups := by
  rw [unmapMirrorBuddyGroup]
  rw [isSome_iff_exists]
  simp only [find_eq_some_iff]
  split_ifs with hlocal
  · refine iff_of_true ⟨_, mem_set.mpr (.inl ⟨rfl, rfl⟩)⟩ (.inl hlocal)
  · rw [or_iff_right hlocal]

/-- Unmapping a group keeps the local group known. -/
lemma unmap_knows (hvalid : GroupsValid m.mirrorBuddyGroups)
    (hknows : KnowsLocalGroup localNodeID m) (hlocal : localNodeID ≠ 0) :
    KnowsLocalGroup localNodeID (m.unmapMirrorBuddyGroup id localNodeID).2 := by
  have hmem : ∀ {i g}, (i, g) ∈ (m.unmapMirrorBuddyGroup id localNodeID).2.mirrorBuddyGroups ↔
      i ≠ id ∧ (i, g) ∈ m.mirrorBuddyGroups := mem_unmapMirrorBuddyGroup
  have hval' := hvalid.mono fun i g h => (hmem.mp h).2
  have hlocalID : (m.unmapMirrorBuddyGroup id localNodeID).2.localGroupID =
      if m.localGroupID ≠ 0 ∧ ((m.mirrorBuddyGroups.find id).getD {}).Has localNodeID then 0
      else m.localGroupID := rfl
  rw [KnowsLocalGroup, eq_comm, getBuddyGroupID_eq_iff hval', hlocalID]
  rcases (getBuddyGroupID_eq_iff hvalid).mp hknows.symm with ⟨g, hsto, hg⟩ | ⟨hzero, hnone⟩
  · by_cases hid : m.localGroupID = id
    · -- The group of the local node is removed.
      rw [hid] at hsto
      rw [find_eq_some_iff.mpr hsto, if_pos ⟨hid ▸ hvalid.notZero hsto, hg⟩]
      refine .inr ⟨rfl, fun i g' hmem' hg' => ?_⟩
      exact (hmem.mp hmem').1 (hvalid.one (hmem.mp hmem').2 hsto hg' hg)
    · have hother : ¬ ((m.mirrorBuddyGroups.find id).getD {}).Has localNodeID := by
        rcases hfind : m.mirrorBuddyGroups.find id with _ | g'
        · rintro (h | h) <;> exact hlocal h.symm
        · intro hg'
          exact hid (hvalid.one hsto (find_eq_some_iff.mp hfind) hg hg')
      rw [if_neg fun h => hother h.2]
      exact .inl ⟨g, hmem.mpr ⟨hid, hsto⟩, hg⟩
  · rw [if_neg fun h => h.1 hzero]
    exact .inr ⟨hzero, fun i g hmem' => hnone i g (hmem.mp hmem').2⟩

/-! ## Lists of all groups -/

/-- The last entry with an id is stored, and the last one with the local node is the local group. -/
lemma newGroups_spec (localNodeID : ℕ) (entries : List (ℕ × MirrorBuddyGroup)) :
    (∀ i g, (i, g) ∈ (newGroups localNodeID entries).1 ↔ IsLast entries (i, g)) ∧
    (newGroups localNodeID entries).2 =
      ((entries.reverse.find? fun e => e.2.Has localNodeID).map Prod.fst).getD 0 := by
  -- The induction is on the entries that are stored already.
  induction entries using List.reverseRecOn with
  | nil =>
    refine ⟨fun i g => iff_of_false (not_mem_empty _) ?_, rfl⟩
    exact nofun
  | append_singleton entries e ih =>
    obtain ⟨hgrps, hlocal⟩ := ih
    rw [newGroups, List.foldl_append, List.foldl_cons, List.foldl_nil, ← newGroups]
    constructor
    · intro i g
      rw [mem_set, hgrps, IsLast, IsLast]
      obtain ⟨j, h⟩ := e
      by_cases hij : j = i
      · simp [hij, eq_comm]
      · simp [hij, Ne.symm hij]
    · by_cases hhas : e.2.Has localNodeID
      · simp [hhas]
      · simp [hhas, hlocal]

/-- Different entries have no target in common. -/
def TargetsDisjoint (entries : List (ℕ × MirrorBuddyGroup)) : Prop :=
  entries.Pairwise fun e f => ∀ t, e.2.Has t → ¬ f.2.Has t

variable {ids : List ℕ} {groups : List MirrorBuddyGroup}
  (hop : (LocalOp.sync ids groups).Valid localNodeID)

include hop in
/-- The valid arguments as one list of entries. -/
lemma entries_of_valid :
    TargetsDisjoint (ids.zip groups) ∧ ∀ e ∈ ids.zip groups,
      e.1 ≠ 0 ∧ e.1 < 65536 ∧ e.2.firstTargetID ≠ e.2.secondTargetID ∧
        ∀ t, e.2.Has t → t < 65536 := by
  obtain ⟨hlen, hnodup, hids, htgts⟩ := hop
  obtain ⟨hself, hpairs⟩ := List.nodup_flatMap.mp hnodup
  constructor
  · have hsnd : (ids.zip groups).map Prod.snd = groups := List.map_snd_zip hlen.ge
    rw [← hsnd, List.pairwise_map] at hpairs
    refine hpairs.imp fun {e f} hdisj t he hf => ?_
    refine hdisj (a := t) ?_ ?_
    · rcases he with rfl | rfl <;> simp
    · rcases hf with rfl | rfl <;> simp
  · intro e he
    have hmem := List.of_mem_zip he
    refine ⟨(hids _ hmem.1).1, (hids _ hmem.1).2, ?_, fun t ht => (htgts _ hmem.2 t ht).2⟩
    simpa using hself _ hmem.2

variable {entries : List (ℕ × MirrorBuddyGroup)} {e f : ℕ × MirrorBuddyGroup}

lemma TargetsDisjoint.eq_of_has (h : TargetsDisjoint entries) (he : e ∈ entries)
    (hf : f ∈ entries) (het : e.2.Has t) (hft : f.2.Has t) : e = f := by
  by_contra hne
  have : Std.Symm fun e f : ℕ × MirrorBuddyGroup => ∀ t, e.2.Has t → ¬ f.2.Has t :=
    ⟨fun e f hef t hf he => hef t he hf⟩
  exact List.Pairwise.forall h he hf hne t het hft

lemma mem_of_isLast (h : IsLast entries e) : e ∈ entries :=
  List.mem_reverse.mp (List.mem_of_find?_eq_some h)

include hop

/-- The map of valid arguments is valid. -/
lemma newGroups_valid :
    GroupsValid (newGroups localNodeID (ids.zip groups)).1 ∧
      GroupsBounded (newGroups localNodeID (ids.zip groups)).1 := by
  obtain ⟨hdisj, hents⟩ := entries_of_valid hop
  have hmem : ∀ {i g}, (i, g) ∈ (newGroups localNodeID (ids.zip groups)).1 →
      (i, g) ∈ ids.zip groups :=
    fun h => mem_of_isLast (((newGroups_spec localNodeID _).1 _ _).mp h)
  refine ⟨⟨?_, ?_, ?_⟩, ⟨?_, ?_⟩⟩
  · intro i j g h t hi hj hg hh
    exact congrArg Prod.fst (hdisj.eq_of_has (hmem hi) (hmem hj) hg hh)
  · exact fun hi => (hents _ (hmem hi)).2.2.1
  · exact fun hi => (hents _ (hmem hi)).1
  · exact fun hi => (hents _ (hmem hi)).2.1
  · exact fun hi => (hents _ (hmem hi)).2.2.2 _

lemma sync_knows_iff (hvalid : GroupsValid m.mirrorBuddyGroups)
    (hknows : KnowsLocalGroup localNodeID m) :
    KnowsLocalGroup localNodeID (m.syncGroupsFromLists ids groups localNodeID) ↔
      KeepsTrack check localNodeID m (.sync ids groups) := by
  obtain ⟨hdisj, hents⟩ := entries_of_valid hop
  obtain ⟨hgrps, hlocal⟩ := newGroups_spec localNodeID (ids.zip groups)
  have hlocalID : (m.syncGroupsFromLists ids groups localNodeID).localGroupID =
      if (newGroups localNodeID (ids.zip groups)).2 ≠ 0
      then (newGroups localNodeID (ids.zip groups)).2 else m.localGroupID := rfl
  have hval' : GroupsValid (m.syncGroupsFromLists ids groups localNodeID).mirrorBuddyGroups :=
    (newGroups_valid hop).1
  have hmem : ∀ {i g}, (i, g) ∈ (m.syncGroupsFromLists ids groups localNodeID).mirrorBuddyGroups ↔
      IsLast (ids.zip groups) (i, g) := hgrps _ _
  rw [KnowsLocalGroup, eq_comm, hlocalID, KeepsTrack]
  by_cases hin : ∃ e ∈ ids.zip groups, e.2.Has localNodeID
  · -- The one entry with the local node is stored unless a later one has its id.
    obtain ⟨⟨i, g⟩, he, hg⟩ := hin
    have huniq : ∀ f ∈ ids.zip groups, f.2.Has localNodeID → f = (i, g) :=
      fun f hf hfg => hdisj.eq_of_has hf he hfg hg
    have hi : (newGroups localNodeID (ids.zip groups)).2 = i := by
      rw [hlocal]
      rcases hfind : (ids.zip groups).reverse.find? fun e => e.2.Has localNodeID with _ | f
      · exact absurd (decide_eq_true hg)
          (List.find?_eq_none.mp hfind (i, g) (List.mem_reverse.mpr he))
      · have hfound := List.find?_some hfind
        rw [hfind, huniq f (List.mem_reverse.mp (List.mem_of_find?_eq_some hfind))
          (of_decide_eq_true hfound), map_some, getD_some]
    have hi0 : i ≠ 0 := (hents _ he).1
    rw [hi, if_pos hi0, getBuddyGroupID_eq_iff hval']
    constructor
    · rintro (⟨g', hmem', hg'⟩ | ⟨hzero, -⟩)
      · refine ⟨fun hnone => absurd hg (hnone _ he), fun f hf hfg => ?_⟩
        rw [huniq f hf hfg, ← huniq (i, g') (mem_of_isLast (hmem.mp hmem')) hg']
        exact hmem.mp hmem'
      · exact absurd hzero hi0
    · rintro ⟨-, hlast⟩
      exact .inl ⟨g, hmem.mpr (hlast (i, g) he hg), hg⟩
  · -- The id of the old group stays.
    have hnone : ∀ e ∈ ids.zip groups, ¬ e.2.Has localNodeID := fun e he hg => hin ⟨e, he, hg⟩
    have hzero : (newGroups localNodeID (ids.zip groups)).2 = 0 := by
      have hfind : ((ids.zip groups).reverse.find? fun e => e.2.Has localNodeID) = none := by
        rw [List.find?_eq_none]
        intro e he
        simpa using hnone e (List.mem_reverse.mp he)
      rw [hlocal, hfind, map_none, getD_none]
    have hnoGrp : (m.syncGroupsFromLists ids groups localNodeID).InNoGroup localNodeID :=
      fun i g hmem' => hnone (i, g) (mem_of_isLast (hmem.mp hmem'))
    rw [(getBuddyGroupID_eq_zero_iff hval').mpr hnoGrp, hzero, if_neg (not_not.mpr rfl),
      and_iff_left fun e he hg => absurd hg (hnone e he), hknows, eq_comm,
      getBuddyGroupID_eq_zero_iff hvalid]
    exact ⟨fun h _ => h, fun h => h hnone⟩

omit hop

/-! ## Runs -/

/-- What is known of the groups whatever the local group is. -/
def GroupsOk (m : MirrorBuddyGroupMapper) : Prop :=
  GroupsValid m.mirrorBuddyGroups ∧ GroupsBounded m.mirrorBuddyGroups

lemma localStep_groupsOk {op : LocalOp} (h : m.GroupsOk)
    (hop : op.Valid localNodeID) : (m.localStep check localNodeID op).GroupsOk := by
  cases op with
  | map known call =>
    rw [localStep]
    by_cases hacc : m.Accepts check known call
    · rw [mapMirrorBuddyGroup_of_accepts h.1 hacc]
      exact ⟨store_valid h.1 h.2 hacc.differ hacc.free, store_bounded h.2 hop.2.1 hop.2.2⟩
    · rw [mapMirrorBuddyGroup_of_not_accepts h.1 hacc]
      exact h
  | unmap id =>
    have hsub : ∀ i g, (i, g) ∈ (m.unmapMirrorBuddyGroup id localNodeID).2.mirrorBuddyGroups →
        (i, g) ∈ m.mirrorBuddyGroups := fun i g h => (mem_unmapMirrorBuddyGroup.mp h).2
    exact ⟨h.1.mono hsub, h.2.mono hsub⟩
  | sync ids groups => exact newGroups_valid hop

lemma empty_groupsOk : empty.GroupsOk := ⟨groupsValid_empty, groupsBounded_empty⟩

/-- The local group is known after every operation of a run, and every unmap operation tells what it
did, if and only if no operation of the run loses the group of the local node. -/
theorem knowsLocalGroup_iff (check : TargetCheck) {localNodeID : ℕ} (hlocal : localNodeID ≠ 0)
    {ops : List LocalOp} (hops : ∀ op ∈ ops, op.Valid localNodeID) :
    EveryStep (localStep check localNodeID)
        (fun m op => KnowsLocalGroup localNodeID (m.localStep check localNodeID op) ∧
          UnmapsOne localNodeID m op) empty ops ↔
      EveryStep (localStep check localNodeID) (KeepsTrack check localNodeID) empty ops := by
  refine everyStep_iff_everyStep (I := GroupsOk) (P := KnowsLocalGroup localNodeID) ?_ ?_
    empty_groupsOk rfl hops
  · intro m op hop h
    exact localStep_groupsOk h hop
  · intro m op hop h hknows
    cases op with
    | map known call =>
      rw [and_iff_left (show UnmapsOne localNodeID m (.map known call) from trivial)]
      exact map_knows_iff h.1 h.2 hknows hop.1
    | unmap id =>
      have hzero : m.localGroupID = 0 ↔ m.InNoGroup localNodeID := by
        rw [hknows, getBuddyGroupID_eq_zero_iff h.1]
      refine (and_iff_right (unmap_knows h.1 hknows hlocal)).trans ?_
      rw [UnmapsOne, unmapMirrorBuddyGroup_fst, and_iff_left fun i g => mem_unmapMirrorBuddyGroup,
        KeepsTrack]
      tauto
    | sync ids groups =>
      rw [and_iff_left (show UnmapsOne localNodeID m (.sync ids groups) from trivial)]
      exact sync_knows_iff hop h.1 hknows

/-- The local node changes its group by unmapping the old one, and from a list by being in it. -/
theorem knowsLocalGroup_regrouped :
    EveryStep (localStep .nowhere 1)
      (fun m op => KnowsLocalGroup 1 (m.localStep .nowhere 1 op) ∧ UnmapsOne 1 m op) empty
      [.map (fun _ => true) ⟨0, 1, 2, 1, true⟩, .unmap 1, .map (fun _ => true) ⟨7, 1, 3, 1, true⟩,
        .sync [5] [⟨1, 2⟩], .map (fun _ => true) ⟨5, 4, 1, 1, true⟩] := by
  refine (knowsLocalGroup_iff .nowhere (by decide) ?_).mpr ⟨?_, ?_, ?_, ?_, ?_, trivial⟩
  · simp [LocalOp.Valid, MapCall.group, MirrorBuddyGroup.Has, or_imp, forall_and]
  · exact fun _ g hmem => absurd hmem (not_mem_empty _)
  · exact .inl ⟨⟨1, 2⟩, List.mem_cons_self⟩
  · exact fun _ _ _ _ => .inl rfl
  · exact ⟨fun hnone => absurd (.inl rfl) (hnone (5, ⟨1, 2⟩) List.mem_cons_self),
      fun e he _ => List.mem_singleton.mp he ▸ rfl⟩
  · exact fun _ _ _ _ => .inr rfl

/-- An update takes node 1 out of its group, a list without node 1 replaces all groups, and an id
without a group is unmapped. -/
theorem localGroup_stale :
    let grouped := empty.localStep .nowhere 1 (.map (fun _ => true) ⟨1, 1, 2, 1, true⟩)
    let updated := grouped.localStep .nowhere 1 (.map (fun _ => true) ⟨1, 3, 2, 1, true⟩)
    let synced := grouped.localStep .nowhere 1 (.sync [1] [⟨3, 2⟩])
    (updated.localGroupID = 1 ∧ updated.getBuddyGroupID 1 = 0) ∧
      (synced.localGroupID = 1 ∧ synced.getBuddyGroupID 1 = 0) ∧
      (grouped.mirrorBuddyGroups.find 9 = none ∧ (grouped.unmapMirrorBuddyGroup 9 1).1 = true) := by
  decide

end MirrorBuddyGroupMapper

end Beegfs.Nodes
