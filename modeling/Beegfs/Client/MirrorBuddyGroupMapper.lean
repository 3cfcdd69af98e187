import Beegfs.Client.MirrorBuddyGroup
import Beegfs.Lib.OrdMap

/-!
# The buddy groups that a client knows

`MirrorBuddyGroupMapper_addGroup` of the client constructs a group and inserts it into a tree.  The
insertion does nothing if the tree has an element with the same key, so that a permitted update of a
group has no effect but the loss of the new object.
-/

namespace Beegfs.GroupMapper

variable {H : Type}

/-- A group at its place in memory, with its targets. -/
structure GroupObject (H : Type) extends MirrorBuddyGroup H where
  address : ℕ
  firstTargetID : ℕ
  secondTargetID : ℕ

/-- The values of `FhgfsOpsErr` that `addGroup` returns. -/
inductive AddResult where
  | success
  | inval
  | exists
  | unknownTarget
  | inUse
  | outOfMem
deriving DecidableEq

/-- A call of `addGroup`.  `memory` is what the allocator hands out, with contents of any kind. -/
structure AddCall (H : Type) where
  connMaxInternodeNum : ℕ
  /-- The node IDs of the targets, for storage nodes only. -/
  targetMapper : Option (ℕ → ℕ)
  buddyGroupID : ℕ
  primaryTargetID : ℕ
  secondaryTargetID : ℕ
  allowUpdate : Bool
  memory : GroupObject H

/-- `MirrorBuddyGroup_constructFromTargetIDs` -/
def AddCall.construct (call : AddCall H) : Option (GroupObject H) :=
  (MirrorBuddyGroup.construct call.connMaxInternodeNum call.memory.seqNoInFlight
    call.memory.finishedSeqNums call.memory.handles).map fun group =>
      ⟨group, call.memory.address, call.primaryTargetID, call.secondaryTargetID⟩

/-- At least one of the targets is unknown. -/
def AddCall.unknownTarget (call : AddCall H) : Bool :=
  call.targetMapper.any fun getNodeID =>
    getNodeID call.primaryTargetID == 0 || getNodeID call.secondaryTargetID == 0

variable (m : OrdMap ℕ (GroupObject H))

/-- `_MirrorBuddyGroupMapper_insert` -/
def insert (groupID : ℕ) (group : GroupObject H) : Bool × OrdMap ℕ (GroupObject H) :=
  if (m.find groupID).isSome then (false, m) else (true, m.set groupID group)

/-- `__MirrorBuddyGroupMapper_getBuddyGroupIDUnlocked` -/
def getBuddyGroupIDUnlocked (targetID : ℕ) : ℕ :=
  ((m.entries.find? fun e => e.2.firstTargetID == targetID || e.2.secondTargetID == targetID).map
    Prod.fst).getD 0

/-- The target belongs to a group with another ID. -/
def inOtherGroup (groupID targetID : ℕ) : Bool :=
  getBuddyGroupIDUnlocked m targetID != 0 && getBuddyGroupIDUnlocked m targetID != groupID

/-- `MirrorBuddyGroupMapper_addGroup`, with the object that was allocated. -/
def addGroup (call : AddCall H) : AddResult × OrdMap ℕ (GroupObject H) × Option (GroupObject H) :=
  if call.buddyGroupID = 0 then (.inval, m, none)
  else if !call.allowUpdate && (m.find call.buddyGroupID).isSome then (.exists, m, none)
  else if call.unknownTarget then (.unknownTarget, m, none)
  else if inOtherGroup m call.buddyGroupID call.primaryTargetID ||
      inOtherGroup m call.buddyGroupID call.secondaryTargetID then (.inUse, m, none)
  else match call.construct with
    | none => (.outOfMem, m, none)
    -- The result of the insertion is ignored.
    | some group => (.success, (insert m call.buddyGroupID group).2, some group)

/-- After `success` the group is as it was asked for, with the numbers that it had before, the
others are unchanged, and the object that was allocated is one of the map. -/
def AddsGroup (call : AddCall H)
    (res : AddResult × OrdMap ℕ (GroupObject H) × Option (GroupObject H)) : Prop :=
  res.1 = .success →
    (∃ group, (call.buddyGroupID, group) ∈ res.2.1 ∧ group.firstTargetID = call.primaryTargetID ∧
      group.secondTargetID = call.secondaryTargetID ∧ ∀ old, (call.buddyGroupID, old) ∈ m →
        group.toMirrorBuddyGroup = old.toMirrorBuddyGroup) ∧
    (∀ id group, id ≠ call.buddyGroupID → ((id, group) ∈ res.2.1 ↔ (id, group) ∈ m)) ∧
    ∀ new ∈ res.2.2, ∃ e ∈ res.2.1.entries, e.2.address = new.address

/-- The call updates a group that exists, and nothing is wrong with it. -/
def IsUpdate (call : AddCall H) : Prop :=
  (m.find call.buddyGroupID).isSome ∧ call.allowUpdate ∧ call.buddyGroupID ≠ 0 ∧
    ¬call.unknownTarget ∧ ¬inOtherGroup m call.buddyGroupID call.primaryTargetID ∧
    ¬inOtherGroup m call.buddyGroupID call.secondaryTargetID ∧ call.connMaxInternodeNum ≠ 0

variable {m} {call : AddCall H}

lemma construct_eq_some {group : GroupObject H} (h : call.construct = some group) :
    call.connMaxInternodeNum ≠ 0 ∧ group.address = call.memory.address ∧
      group.firstTargetID = call.primaryTargetID ∧
      group.secondTargetID = call.secondaryTargetID := by
  obtain ⟨_, hgrp', rfl⟩ := Option.map_eq_some_iff.mp h
  rw [MirrorBuddyGroup.construct] at hgrp'
  split_ifs at hgrp' with hzero
  exact ⟨hzero, rfl, rfl, rfl⟩

lemma IsUpdate.addGroup_eq (h : IsUpdate m call) : ∃ group, call.construct = some group ∧
    addGroup m call = (.success, m, some group) := by
  obtain ⟨hsome, hallow, hzero, hunk, hfirst, hsnd, hmax⟩ := h
  simp [addGroup, AddCall.construct, MirrorBuddyGroup.construct, insert, hsome, hallow, hzero,
    hunk, hfirst, hsnd, hmax]

/-- `addGroup` does what its result says for all calls but the updates. -/
theorem addsGroup_iff_not_isUpdate (m : OrdMap ℕ (GroupObject H)) (call : AddCall H)
    (hfresh : ∀ e ∈ m.entries, e.2.address ≠ call.memory.address) :
    AddsGroup m call (addGroup m call) ↔ ¬IsUpdate m call := by
  constructor
  · intro h hupdate
    obtain ⟨group, hgroup, hadd⟩ := hupdate.addGroup_eq
    rw [hadd] at h
    obtain ⟨e, he, haddress⟩ := (h rfl).2.2 group rfl
    exact hfresh e he (haddress.trans (construct_eq_some hgroup).2.1)
  · intro h
    unfold addGroup
    split_ifs with hzero hexists hunk hother
    iterate 4 exact nofun
    cases hgroup : call.construct with
    | none => exact nofun
    | some group =>
      obtain ⟨hmax, -, hfirst, hsnd⟩ := construct_eq_some hgroup
      rw [Bool.or_eq_true, not_or] at hother
      have hnone : ¬(m.find call.buddyGroupID).isSome := fun hsome =>
        h ⟨hsome, by simpa [hsome] using hexists, hzero, hunk, hother.1, hother.2, hmax⟩
      have hmem : (call.buddyGroupID, group) ∈ m.set call.buddyGroupID group :=
        OrdMap.mem_set.mpr (.inl ⟨rfl, rfl⟩)
      change AddsGroup m call (.success, (insert m call.buddyGroupID group).2, some group)
      rw [insert, if_neg hnone]
      refine fun _ => ⟨⟨group, hmem, hfirst, hsnd, fun old hold => ?_⟩, fun id other hid => ?_, ?_⟩
      · rw [OrdMap.find_eq_some_iff.mpr hold] at hnone
        exact absurd rfl hnone
      · simp [hid]
      · rintro _ ⟨⟩
        exact ⟨_, hmem, rfl⟩

/-- A group for storage targets, from memory that has the given address. -/
def addCall (address primaryTargetID secondaryTargetID : ℕ) : AddCall Unit :=
  ⟨4, none, 1, primaryTargetID, secondaryTargetID, true,
    ⟨⟨⟨fun _ => ⟨(), 0⟩, 0, fun _ => none⟩, 0, 0, 0, fun _ => 0, 0, 0⟩, address, 0, 0⟩⟩

/-- A second group, with other targets. -/
theorem addsGroup_second :
    let m := (addGroup .empty (addCall 1 101 102)).2.1
    let call := { addCall 2 103 104 with buddyGroupID := 2 }
    (∀ e ∈ m.entries, e.2.address ≠ call.memory.address) ∧ AddsGroup m call (addGroup m call) := by
  intro m call
  have hfresh : ∀ e ∈ m.entries, e.2.address ≠ call.memory.address := by
    rintro _ (_ | ⟨_, ⟨⟩⟩)
    exact Nat.ne_of_beq_eq_false rfl
  exact ⟨hfresh, (addsGroup_iff_not_isUpdate m call hfresh).mpr fun h => Bool.false_ne_true h.1⟩

/-- The second call exchanges the targets of the group that the first one has added. -/
theorem not_addsGroup_exchanged :
    ¬AddsGroup (addGroup .empty (addCall 1 101 102)).2.1 (addCall 2 102 101)
      (addGroup (addGroup .empty (addCall 1 101 102)).2.1 (addCall 2 102 101)) := by
  intro h
  obtain ⟨group, hmem, hfirst, -⟩ := (h (by decide)).1
  have heq : group.firstTargetID = 101 := by
    rcases hmem with _ | ⟨_, ⟨⟩⟩
    rfl
  exact absurd (heq.symm.trans hfirst) (by decide)

end Beegfs.GroupMapper
