import Beegfs.Lib.Run
import Beegfs.Storage.FileStores

/-!
# Concurrent references on one file

`referenceFile`, `openFile`, `releaseFile` and `closeFile` run under the read lock of `MetaStore`,
and each look into a store is a step of its own.  The inlined flag of the caller's `EntryInfo`
decides which stores are asked; it may be outdated.  The inode can be loaded from disk whenever it
is asked for.

`StoreSystem.oneCopy_of_current` says when the inode of the file is in one store only: the callers
must have the current flag, and an inode must not be de-inlined while it is referenced in its
directory's store.  `StoreSystem.opens_of_keepsLoaded` says when an open does not fail: between its
look into the global store and its reference there the last reference must not be released.
-/

namespace Beegfs

open FileStores List Option

variable {Dir : Type} [DecidableEq Dir]

/-- A caller of `referenceFile` or `openFile`. -/
inductive StoreCall (Dir : Type) where
  /-- `openFile` has seen the inode in the global store. -/
  | found (info : EntryInfo Dir)
  /-- The global store did not have the inode. -/
  | absent (info : EntryInfo Dir)
  /-- The inode is referenced in the directory's store, but it is not inlined. -/
  | misplaced (info : EntryInfo Dir)
  /-- That reference is released, and the caller waits for the write lock. -/
  | retrying (info : EntryInfo Dir)
  /-- The call has returned the inode; its `EntryInfo` has the parent `d`. -/
  | holds (d : Dir)
  | failed
  | released

/-- The call holds the read lock. -/
def StoreCall.isInside : StoreCall Dir → Bool
  | found _ | absent _ | misplaced _ => true
  | _ => false

def StoreCall.isFound : StoreCall Dir → Bool
  | found _ => true
  | _ => false

/-- The stores, whether the inode on disk is inlined (then into a dentry of `parent`), and the
callers. -/
structure StoreSystem (Dir : Type) where
  stores : FileStores Dir
  isInlined : Bool
  parent : Dir
  calls : List (StoreCall Dir)

/-- A call arrives, takes its next step, or releases the inode; or the inode is de-inlined. -/
inductive StoreAction (Dir : Type) where
  | referenceFile (info : EntryInfo Dir)
  | openFile (info : EntryInfo Dir)
  | proceed (i : ℕ)
  | release (i : ℕ)
  | deinline

namespace StoreSystem

variable (s : StoreSystem Dir)

/-- Nobody uses the file. -/
def start (isInlined : Bool) (parent : Dir) : StoreSystem Dir :=
  ⟨⟨none, fun _ => none, fun _ => 0⟩, isInlined, parent, []⟩

def setCall (i : ℕ) (call : StoreCall Dir) (stores : FileStores Dir) : StoreSystem Dir :=
  { s with stores := stores, calls := s.calls.set i call }

/-- `InodeFileStore::referenceFileInode` of the global store. -/
def referenceGlobal (loads : Bool) : Option (FileStores Dir) :=
  (acquire loads s.stores.global).map fun c => { s.stores with global := some c }

/-- The reference that ends a call. -/
def finish (i : ℕ) (d : Dir) (stores : Option (FileStores Dir)) : StoreSystem Dir :=
  stores.elim (s.setCall i .failed s.stores) (s.setCall i (.holds d))

/-- `tryReferenceFileWriteLocked` and `tryOpenFileWriteLocked`. -/
def referenceWriteLocked (d : Dir) : Option (FileStores Dir) :=
  let stores := if s.stores.global.isSome then s.stores else s.stores.moveReferenceToMetaFileStore d
  { s with stores := stores }.referenceGlobal true

/-- The next step of a call. -/
def proceed (i : ℕ) : StoreCall Dir → StoreSystem Dir
  | .found info => s.finish i info.parent (s.referenceGlobal false)
  | .absent info =>
    if !info.isInlined then s.finish i info.parent (s.referenceGlobal true)
    else match acquire true (s.stores.perDir info.parent) with
      | none => s.setCall i .failed s.stores
      | some c =>
        s.setCall i (if s.isInlined then .holds info.parent else .misplaced info)
          ((s.stores.referenceDir info.parent).setPerDir info.parent
            (some { c with numParentRefs := c.numParentRefs + 1 }))
  | .misplaced info =>
    s.setCall i (.retrying info) ((s.stores.setPerDir info.parent (release
      ((s.stores.perDir info.parent).map fun c =>
        { c with numParentRefs := c.numParentRefs - 1 }))).releaseDir info.parent)
  | .retrying info =>
    -- the write lock is granted when no other call is inside
    if s.calls.any StoreCall.isInside then s
    else s.finish i info.parent (s.referenceWriteLocked info.parent)
  | _ => s

/-- One step. -/
def step : StoreAction Dir → StoreSystem Dir
  | .referenceFile info =>
    match s.referenceGlobal (!info.isInlined) with
    | some stores => { s with stores := stores, calls := s.calls ++ [.holds info.parent] }
    | none => { s with calls := s.calls ++ [.absent info] }
  | .openFile info =>
    { s with calls := s.calls ++ [if s.stores.global.isSome then .found info else .absent info] }
  | .proceed i => s.calls[i]?.elim s (s.proceed i)
  | .release i =>
    match s.calls[i]? with
    | some (.holds d) => s.setCall i .released (s.stores.releaseFile d true)
    | _ => s
  | .deinline => if s.calls.any StoreCall.isInside then s else { s with isInlined := false }

/-! ## Opens do not fail -/

/-- No open is between its look into the global store and its reference there when the last
reference is released. -/
def KeepsLoaded : StoreAction Dir → Prop
  | .release _ => s.stores.global.map Copy.refCount = some 1 → ∀ c ∈ s.calls, !c.isFound
  | _ => True

instance : ∀ action : StoreAction Dir, Decidable (s.KeepsLoaded action)
  | .release _ => inferInstanceAs (Decidable (_ → ∀ c ∈ s.calls, _))
  | .referenceFile _ | .openFile _ | .proceed _ | .deinline => isTrue trivial

/-- No call has failed. -/
def Opens : Prop := ∀ c ∈ s.calls, c ≠ .failed

/-- No call has failed, and an inode that was found is still loaded. -/
structure Found : Prop where
  opens : s.Opens
  loaded : ∀ c ∈ s.calls, c.isFound → s.stores.global.isSome

variable {s} {i : ℕ} {c : StoreCall Dir} {stores : FileStores Dir} {info : EntryInfo Dir}

section

omit [DecidableEq Dir]

lemma mem_arrived (c' : StoreCall Dir) (h : c' ∈ s.calls ++ [c]) : c' ∈ s.calls ∨ c' = c := by
  simpa using h

/-- A call arrives or goes on, and the global store still has what it had. -/
lemma Found.update (h : s.Found) {calls : List (StoreCall Dir)}
    (hcalls : ∀ c' ∈ calls, c' ∈ s.calls ∨ c' = c) (hc : c ≠ .failed)
    (hfound : c.isFound → stores.global.isSome)
    (hkeep : (∃ c' ∈ s.calls, c'.isFound) → s.stores.global.isSome → stores.global.isSome) :
    Found { s with stores := stores, calls := calls } := by
  constructor
  · intro c' hc'
    rcases hcalls c' hc' with hmem | rfl
    · exact h.opens c' hmem
    · exact hc
  · intro c' hc' hf
    rcases hcalls c' hc' with hmem | rfl
    · exact hkeep ⟨c', hmem, hf⟩ (h.loaded c' hmem hf)
    · exact hfound hf

lemma Found.setCall (h : s.Found) (i : ℕ) (hc : c ≠ .failed) (hfound : c.isFound = false)
    (hkeep : s.stores.global.isSome → stores.global.isSome) : (s.setCall i c stores).Found := by
  refine h.update (fun _ => mem_or_eq_of_mem_set) hc (fun hf => ?_) fun _ => hkeep
  rw [hfound] at hf
  cases hf

/-- A reference in the global store succeeds if the inode is there or may be loaded. -/
lemma exists_referenceGlobal {loads : Bool} (h : s.stores.global.isSome ∨ loads) :
    ∃ stores, s.referenceGlobal loads = some stores ∧ stores.global.isSome := by
  cases hg : s.stores.global with
  | some c => exact ⟨_, by rw [referenceGlobal, hg]; rfl, rfl⟩
  | none =>
    have hloads : loads = true := by simpa [hg] using h
    exact ⟨_, by rw [referenceGlobal, hg, hloads]; rfl, rfl⟩

lemma Found.finish (h : s.Found) (i : ℕ) (d : Dir) {result : Option (FileStores Dir)}
    (hresult : ∃ stores, result = some stores ∧ stores.global.isSome) :
    (s.finish i d result).Found := by
  obtain ⟨stores, rfl, hg⟩ := hresult
  exact h.setCall i nofun rfl fun _ => hg

end

lemma Found.proceed (h : s.Found) (hc : s.calls[i]? = some c) : (s.proceed i c).Found := by
  cases c with
  | found info =>
    exact h.finish i _ (exists_referenceGlobal (.inl (h.loaded _ (mem_of_getElem? hc) rfl)))
  | absent info =>
    simp only [StoreSystem.proceed]
    split
    · exact h.finish i _ (exists_referenceGlobal (.inr rfl))
    split
    · rename_i hnone
      cases hp : s.stores.perDir info.parent with
      | none => rw [hp] at hnone; cases hnone
      | some c => rw [hp] at hnone; cases hnone
    · cases s.isInlined <;> exact h.setCall i (by simp) rfl id
  | misplaced info => exact h.setCall i (by simp) rfl id
  | retrying info =>
    simp only [StoreSystem.proceed]
    split
    · exact h
    · exact h.finish i _ (exists_referenceGlobal (.inr rfl))
  | holds d => exact h
  | failed => exact h
  | released => exact h

lemma Found.step (h : s.Found) (action : StoreAction Dir) (hk : s.KeepsLoaded action) :
    (s.step action).Found := by
  cases action with
  | referenceFile info =>
    simp only [StoreSystem.step]
    split
    · rename_i stores hstos
      obtain ⟨c, -, rfl⟩ := map_eq_some_iff.mp hstos
      exact h.update mem_arrived nofun nofun fun _ _ => rfl
    · exact h.update mem_arrived nofun nofun fun _ => id
  | openFile info =>
    simp only [StoreSystem.step]
    split
    · rename_i hg
      exact h.update mem_arrived nofun (fun _ => hg) fun _ => id
    · exact h.update mem_arrived nofun nofun fun _ => id
  | proceed i =>
    simp only [StoreSystem.step]
    cases hc : s.calls[i]? with
    | none => exact h
    | some c => exact h.proceed hc
  | release i =>
    simp only [StoreSystem.step]
    split
    · refine h.update (fun _ => mem_or_eq_of_mem_set) nofun nofun fun hfound hg => ?_
      obtain ⟨c', hmem, hf⟩ := hfound
      obtain ⟨c, hcopy⟩ := isSome_iff_exists.mp hg
      have hcount : c.refCount ≠ 1 := by
        intro hone
        have hnone := hk (by rw [hcopy, map_some, hone]) c' hmem
        rw [hf] at hnone
        cases hnone
      have hpos := c.pos
      have hmore : 1 < c.refCount := by omega
      rw [releaseFile, hcopy, FileStores.release, dif_pos hmore]
      rfl
    · exact h
  | deinline =>
    simp only [StoreSystem.step]
    split
    · exact h
    · exact ⟨h.opens, h.loaded⟩

/-- If the last reference is never released while an open is between its two looks into the global
store, then every open returns the inode. -/
theorem opens_of_keepsLoaded (isInlined : Bool) (parent : Dir) (actions : List (StoreAction Dir))
    (h : EveryStep step KeepsLoaded (start isInlined parent) actions) :
    EveryState step Opens (start isInlined parent) actions :=
  everyState_of_everyStep (I := Found)
    (fun _ action hk hs => hs.step action hk) (fun _ hs => hs.opens)
    ⟨by simp [Opens, start], by simp [start]⟩ h

/-- Two opens of a file whose inode is not inlined; the first one is closed at the end. -/
theorem opens_two :
    let actions : List (StoreAction Unit) :=
      [.openFile ⟨(), false⟩, .proceed 0, .openFile ⟨(), false⟩, .proceed 1, .release 0]
    EveryStep step KeepsLoaded (start false ()) actions ∧
      EveryState step Opens (start false ()) actions :=
  ⟨by decide, opens_of_keepsLoaded false () _ (by decide)⟩

/-- The first open is closed between the two steps of the second one, and the second one fails. -/
theorem open_fails_after_close :
    (runFrom step (start false ()) [.openFile ⟨(), false⟩, .proceed 0, .openFile ⟨(), false⟩,
      .release 0, .proceed 1]).calls[1]? = some .failed := rfl

/-! ## One copy of the inode -/

/-- The inode in the global store, or in the one of a directory. -/
def copy? (stores : FileStores Dir) : Option Dir → Option Copy
  | none => stores.global
  | some d => stores.perDir d

variable (s)

/-- The inode is in one store only. -/
def OneCopy : Prop := ∀ p q, (copy? s.stores p).isSome → (copy? s.stores q).isSome → p = q

/-- The store in which the inode belongs. -/
def home : Option Dir := if s.isInlined then some s.parent else none

/-- The `EntryInfo` says where the inode is on disk. -/
def Current (info : EntryInfo Dir) : Prop :=
  info.isInlined = s.isInlined ∧ (s.isInlined → info.parent = s.parent)

/-- Calls have the current flag, and an inode is not de-inlined while its directory's store has
it. -/
def KeepsPlace : StoreAction Dir → Prop
  | .referenceFile info | .openFile info => s.Current info
  | .deinline => (s.stores.perDir s.parent).isNone
  | _ => True

instance : ∀ action : StoreAction Dir, Decidable (s.KeepsPlace action)
  | .referenceFile _ | .openFile _ => inferInstanceAs (Decidable (_ ∧ (_ → _)))
  | .deinline => inferInstanceAs (Decidable (_ = true))
  | .proceed _ | .release _ => isTrue trivial

/-- The call knows where the inode is. -/
def Knows : StoreCall Dir → Prop
  | .found info | .absent info => s.Current info
  | .misplaced _ | .retrying _ => False
  | _ => True

/-- The inode is only in the store in which it belongs, and the calls that run know that. -/
structure Placed : Prop where
  copies : ∀ p, (copy? s.stores p).isSome → p = s.home
  calls : ∀ c ∈ s.calls, s.Knows c

variable {s}

section

omit [DecidableEq Dir]

lemma Placed.update (h : s.Placed) {calls : List (StoreCall Dir)}
    (hcalls : ∀ c' ∈ calls, c' ∈ s.calls ∨ c' = c) (hc : s.Knows c)
    (hcopies : ∀ p, (copy? stores p).isSome → (copy? s.stores p).isSome ∨ p = s.home) :
    Placed { s with stores := stores, calls := calls } := by
  constructor
  · intro p hp
    exact (hcopies p hp).elim (h.copies p) id
  · intro c' hc'
    rcases hcalls c' hc' with hmem | rfl
    · exact h.calls c' hmem
    · exact hc

/-- A reference in the global store, by a call that may load the inode there. -/
lemma copies_referenceGlobal {loads : Bool} (hloads : loads → s.home = none)
    (h : s.referenceGlobal loads = some stores) (p : Option Dir)
    (hp : (copy? stores p).isSome) : (copy? s.stores p).isSome ∨ p = s.home := by
  obtain ⟨c, hc, rfl⟩ := map_eq_some_iff.mp h
  cases p with
  | some d => exact .inl hp
  | none =>
    cases hg : s.stores.global with
    | some c0 => exact .inl (by rw [copy?, hg]; rfl)
    | none =>
      rw [hg] at hc
      exact .inr (hloads (ite_none_right_eq_some.mp hc).1).symm

lemma Placed.finish (h : s.Placed) (i : ℕ) (d : Dir) {loads : Bool}
    (hloads : loads → s.home = none) : (s.finish i d (s.referenceGlobal loads)).Placed := by
  cases hres : s.referenceGlobal loads with
  | none => exact h.update (fun _ => mem_or_eq_of_mem_set) trivial fun _ => .inl
  | some stores =>
    exact h.update (fun _ => mem_or_eq_of_mem_set) trivial (copies_referenceGlobal hloads hres)

lemma Current.home_eq (h : s.Current info) (hinfo : info.isInlined = false) : s.home = none := by
  rw [home, ← h.1, hinfo]
  rfl

end

lemma Placed.proceed (h : s.Placed) (hc : s.calls[i]? = some c) : (s.proceed i c).Placed := by
  have hknows := h.calls c (mem_of_getElem? hc)
  cases c with
  | found info => exact h.finish i _ (by simp)
  | absent info =>
    simp only [StoreSystem.proceed]
    split
    · rename_i hinfo
      exact h.finish i _ fun _ => hknows.home_eq (by simpa using hinfo)
    rename_i hinfo
    have hinl : s.isInlined = true := hknows.1.symm.trans (by simpa using hinfo)
    rw [hinl]
    split
    · exact h.update (fun _ => mem_or_eq_of_mem_set) trivial fun _ => .inl
    · refine h.update (fun _ => mem_or_eq_of_mem_set) trivial fun p hp => ?_
      by_cases hpd : p = some info.parent
      · exact .inr (by rw [hpd, home, hinl, if_pos rfl, hknows.2 hinl])
      · cases p with
        | none => exact .inl hp
        | some d =>
          have hne : d ≠ info.parent := fun hd => hpd (congrArg some hd)
          exact .inl (by simpa [copy?, setPerDir, referenceDir, hne] using hp)
  | misplaced info => exact hknows.elim
  | retrying info => exact hknows.elim
  | holds d => exact h
  | failed => exact h
  | released => exact h

/-- A release adds no copy. -/
lemma copies_releaseFile (d : Dir) (p : Option Dir)
    (hp : (copy? (s.stores.releaseFile d true) p).isSome) : (copy? s.stores p).isSome := by
  have hrelease : ∀ copy : Option Copy, (FileStores.release copy).isSome → copy.isSome := by
    rintro (_ | c) h
    · exact h
    · rfl
  unfold releaseFile at hp
  split at hp
  · cases p with
    | none => exact hrelease _ hp
    | some d' => exact hp
  · cases p with
    | none => exact hp
    | some d' =>
      by_cases hd : d' = d
      · have hmap := hrelease _ (by simpa [copy?, setPerDir, releaseDir, hd] using hp)
        rw [hd]
        exact isSome_map.symm.trans hmap
      · simpa [copy?, setPerDir, releaseDir, hd] using hp

lemma Placed.step (h : s.Placed) (action : StoreAction Dir) (hk : s.KeepsPlace action) :
    (s.step action).Placed := by
  cases action with
  | referenceFile info =>
    simp only [StoreSystem.step]
    split
    · rename_i stores hstos
      refine h.update mem_arrived trivial (copies_referenceGlobal (fun hloads => ?_) hstos)
      exact Current.home_eq hk (by simpa using hloads)
    · exact h.update mem_arrived hk fun _ => .inl
  | openFile info =>
    simp only [StoreSystem.step]
    split
    · exact h.update mem_arrived hk fun _ => .inl
    · exact h.update mem_arrived hk fun _ => .inl
  | proceed i =>
    simp only [StoreSystem.step]
    cases hc : s.calls[i]? with
    | none => exact h
    | some c => exact h.proceed hc
  | release i =>
    simp only [StoreSystem.step]
    split
    · exact h.update (fun _ => mem_or_eq_of_mem_set) trivial fun p hp =>
        .inl (copies_releaseFile _ p hp)
    · exact h
  | deinline =>
    simp only [StoreSystem.step]
    split
    · exact h
    rename_i hinsd
    constructor
    · intro p hp
      have hhome := h.copies p hp
      cases hinl : s.isInlined with
      | false => rwa [home, hinl] at hhome
      | true =>
        rw [home, hinl] at hhome
        rw [hhome] at hp
        have hnone : (s.stores.perDir s.parent).isNone := hk
        exact absurd hp (by simpa [copy?] using hnone)
    · intro c hc
      have hknows := h.calls c hc
      cases c with
      | found info => exact absurd (any_eq_true.mpr ⟨_, hc, rfl⟩) hinsd
      | absent info => exact absurd (any_eq_true.mpr ⟨_, hc, rfl⟩) hinsd
      | _ => exact hknows

/-- If the callers know whether the inode is inlined, and no inode is de-inlined while it is
referenced in its directory's store, then the inode is in one store only. -/
theorem oneCopy_of_current (isInlined : Bool) (parent : Dir) (actions : List (StoreAction Dir))
    (h : EveryStep step KeepsPlace (start isInlined parent) actions) :
    EveryState step OneCopy (start isInlined parent) actions :=
  everyState_of_everyStep (I := Placed)
    (fun _ action hk hs => hs.step action hk)
    (fun _ hs p q hp hq => (hs.copies p hp).trans (hs.copies q hq).symm)
    ⟨fun p hp => (by cases p <;> cases hp), by simp [start]⟩ h

/-- Two references on a file, which is de-inlined after they are released. -/
theorem oneCopy_two :
    let actions : List (StoreAction Unit) := [.referenceFile ⟨(), true⟩, .proceed 0,
      .openFile ⟨(), true⟩, .proceed 1, .release 0, .release 1, .deinline, .openFile ⟨(), false⟩,
      .proceed 2]
    EveryStep step KeepsPlace (start true ()) actions ∧
      EveryState step OneCopy (start true ()) actions :=
  ⟨by decide, oneCopy_of_current true () _ (by decide)⟩

/-- An outdated flag leads to the directory's store while the inode is in the global store. -/
theorem two_copies_by_outdated_flag :
    let s := runFrom step (start false ()) [.openFile ⟨(), true⟩, .referenceFile ⟨(), false⟩,
      .proceed 0]
    s.stores.global.isSome ∧ (s.stores.perDir ()).isSome := ⟨rfl, rfl⟩

end StoreSystem

end Beegfs
