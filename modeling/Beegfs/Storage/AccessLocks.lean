import Beegfs.Storage.FileAccess

/-!
# Which state changes honour the open sessions

When the requests carry the inlined flag that the inode has, a file has at most one copy of its
inode in memory, its counters are the numbers of open readers and of the other open sessions, and
its state is the one on disk.  The access locks are then honoured in every state of a run if and
only if no state change sets `READ_LOCK` alone while the sessions that read are all `READWRITE`
sessions: those count as writers only, so `checkAccessFlagTransition` does not see them.
-/

namespace Beegfs.FileAccess

open FileState Bool List Session

namespace MetaFile

/-! ## One copy of the inode -/

/-- A store with at most one copy of the inode. -/
def only (store : Store) (inode : Option MemInode) : Store → Option MemInode :=
  fun other => if other = store then inode else none

@[simp] lemma only_self (store : Store) (inode : Option MemInode) :
    only store inode store = inode := if_pos rfl

@[simp] lemma update_only (store : Store) (inode inode' : Option MemInode) :
    Function.update (only store inode) store inode' = only store inode' := by
  funext other
  by_cases h : other = store <;> simp [only, h]

/-- The copy of an inode that is loaded while there are references. -/
def copyOf (state : FileState) (reads writes refs : ℕ) : Option MemInode :=
  if refs = 0 then none else some ⟨state, reads, writes, refs⟩

@[simp] lemma copyOf_succ (state : FileState) (reads writes refs : ℕ) :
    copyOf state reads writes (refs + 1) = some ⟨state, reads, writes, refs + 1⟩ :=
  if_neg (Nat.succ_ne_zero refs)

/-- The store of an inode. -/
def home (isInlined : Bool) : Store := if isInlined then .perDir else .global

end MetaFile

open MetaFile

/-! ## The invariant -/

/-- The request has a reference on the inode. -/
def Call.references : Call → Bool
  | opening .. | misplaced _ | stateReferenced .. | stateDone => true
  | _ => false

/-- The request works on the inode's own store. -/
def Call.Placed (isInlined : Bool) : Call → Prop
  | opening _ store | stateReferenced store _ => store = home isInlined
  | misplaced _ | retrying _ => False
  | stateLocked inlined _ => inlined = isInlined
  | _ => True

/-- The session is open and counted by `numSessionsRead`. -/
def Session.isReader (session : Session) : Bool :=
  session.isOpen && decide (session.flags.access = .read)

/-- The session is open and counted by `numSessionsWrite`. -/
def Session.isWriter (session : Session) : Bool :=
  session.isOpen && !decide (session.flags.access = .read)

/-- The request carries the inlined flag of the inode. -/
def Action.Current (isInlined : Bool) : Action → Prop
  | openFile inlined _ | setFileState inlined _ => inlined = isInlined
  | _ => True

namespace MetaFile

open Session

/-- The number of references on the inode. -/
def refs (s : MetaFile) : ℕ := s.sessions.countP isOpen + s.calls.countP Call.references

/-- There is one copy of the inode while it is referenced, it has the state on disk, and it counts
the open sessions. -/
structure Consistent (s : MetaFile) : Prop where
  inodes : s.inodes = only (home s.isInlined) (copyOf s.disk (s.sessions.countP isReader)
    (s.sessions.countP isWriter) s.refs)
  placed : ∀ c ∈ s.calls, c.Placed s.isInlined
  sessions : ∀ t ∈ s.sessions, t.store = home s.isInlined

lemma consistent_start (isInlined : Bool) (state : FileState) :
    (start isInlined state).Consistent := by
  refine ⟨?_, by simp [start], by simp [start]⟩
  funext store
  simp [start, only, copyOf, refs]

/-- The inode that is referenced `refs` times and counts the sessions. -/
def countingInode (state : FileState) (sessions : List Session) (refs : ℕ) : MemInode :=
  ⟨state, sessions.countP isReader, sessions.countP isWriter, refs⟩

/-- The copies of the inode in memory while there are `refs` references. -/
def copies (isInlined : Bool) (state : FileState) (sessions : List Session) (refs : ℕ) :
    Store → Option MemInode :=
  only (home isInlined) (copyOf state (sessions.countP isReader)
    (sessions.countP isWriter) refs)

/-- An element of a list is replaced. -/
lemma countP_set_add {α : Type*} {l : List α} {i : ℕ} {a b : α} {p : α → Bool}
    (h : l[i]? = some a) : (l.set i b).countP p + (p a).toNat = l.countP p + (p b).toNat := by
  obtain ⟨hi, rfl⟩ := List.getElem?_eq_some_iff.mp h
  have hpos : p l[i] = true → 0 < l.countP p := fun hp =>
    countP_pos_iff.mpr ⟨l[i], getElem_mem hi, hp⟩
  rw [countP_set hi]
  cases hp : p l[i] <;> cases p b <;> simp_all

/-- Readers and writers are the open sessions. -/
lemma readers_add_writers (sessions : List Session) :
    sessions.countP isReader + sessions.countP isWriter = sessions.countP isOpen := by
  induction sessions with
  | nil => rfl
  | cons t sessions ih =>
    obtain ⟨⟨access, -⟩, -, isOpen⟩ := t
    cases isOpen <;> cases access <;>
      simp [isReader, isWriter] at ih ⊢ <;> omega

/-- A session is counted when it is opened. -/
lemma incNumSessions_eq (sessions : List Session) (state : FileState) (n : ℕ) (flags : OpenFlags)
    (store : Store) :
    (countingInode state sessions n).incNumSessions flags =
      countingInode state (sessions ++ [⟨flags, store, true⟩]) n := by
  obtain ⟨access, -⟩ := flags
  cases access <;>
    simp [countingInode, MemInode.incNumSessions, isReader, isWriter]

variable {sessions : List Session}

/-- A session is no longer counted when it is closed. -/
lemma decNumSessions_eq {j : ℕ} {t : Session} (ht : sessions[j]? = some t)
    (hopen : t.isOpen) (state : FileState) (n : ℕ) :
    (countingInode state sessions n).decNumSessions t.flags =
      countingInode state (sessions.set j { t with isOpen := false }) n := by
  have hrdrs := countP_set_add (b := { t with isOpen := false }) (p := isReader) ht
  have hwrs := countP_set_add (b := { t with isOpen := false }) (p := isWriter) ht
  by_cases hread : t.flags.access = .read
  all_goals
    simp [isReader, isWriter, hopen, hread] at hrdrs hwrs
    simp [countingInode, MemInode.decNumSessions, hread]
    omega

section Copy

variable {s : MetaFile} {sessions : List Session} {refs : ℕ}
  (h : s.inodes = copies s.isInlined s.disk sessions (refs + 1))
include h

lemma inodes_home :
    s.inodes (home s.isInlined) = some (countingInode s.disk sessions (refs + 1)) := by
  rw [h, copies, only_self]
  rfl

lemma setInode_home (inode : Option MemInode) :
    s.setInode (home s.isInlined) inode = { s with inodes := only (home s.isInlined) inode } := by
  rw [setInode, h, copies, update_only]

lemma decreaseInodeRefCount_eq :
    s.decreaseInodeRefCount (home s.isInlined) =
      { s with inodes := copies s.isInlined s.disk sessions refs } := by
  simp only [decreaseInodeRefCount, inodes_home h, setInode_home h, countingInode]
  cases refs with
  | zero => rfl
  | succ refs =>
    rfl

lemma releasedStore_eq : s.releasedStore = home s.isInlined := by
  cases hinl : s.isInlined <;> simp [releasedStore, h, copies, only, home, hinl]

end Copy

/-! ## Which states the sessions respect -/

/-- The open sessions respect a state. -/
def Respected (state : FileState) (sessions : List Session) : Prop :=
  ∀ session ∈ sessions, session.isOpen → (isReadLocked state → ¬session.flags.access.canRead) ∧
      (isWriteLocked state → ¬session.flags.access.canWrite)

/-- The set of `value` does not shut out readers that are not counted: when `value` has `READ_LOCK`
without `WRITE_LOCK` and a `READWRITE` session is open, a `READ` session is open too. -/
def ShutsOutCounted (sessions : List Session) (value : FileState) : Prop :=
  isReadLocked value → ¬isWriteLocked value →
    (∃ t ∈ sessions, t.isOpen ∧ t.flags.access = .readWrite) →
      ∃ t ∈ sessions, t.isOpen ∧ t.flags.access = .read
  deriving Decidable

/-- An open session that reads and writes has found no lock. -/
lemma Respected.unlocked {state : FileState}
    (h : Respected state sessions) {t : Session} (ht : t ∈ sessions) (hopen : t.isOpen)
    (haccess : t.flags.access = .readWrite) : ¬isReadLocked state ∧ ¬isWriteLocked state := by
  obtain ⟨hread, hwrite⟩ := h t ht hopen
  rw [haccess] at hread hwrite
  exact ⟨fun hlock => hread hlock rfl, fun hlock => hwrite hlock rfl⟩

/-- The sessions that a state change does not see are the `READWRITE` sessions that it shuts out
from reading. -/
lemma respected_transition_iff {state value : FileState} (h : Respected state sessions) :
    ((isReadLocked value ≠ isReadLocked state → sessions.countP isReader = 0) →
      (isWriteLocked value ≠ isWriteLocked state → sessions.countP isWriter = 0) →
        Respected value sessions) ↔ ShutsOutCounted sessions value := by
  constructor
  · rintro hset hread hwrite ⟨t, ht, hopen, haccess⟩
    by_contra hnone
    obtain ⟨-, hnwrite⟩ := h.unlocked ht hopen haccess
    have hrdrs : sessions.countP isReader = 0 := by
      refine countP_eq_zero.mpr fun t' ht' hreader => hnone ⟨t', ht', ?_⟩
      simpa [isReader] using hreader
    have hvalue : Respected value sessions :=
      hset (fun _ => hrdrs) fun hne => absurd (by simp_all) hne
    exact (hvalue.unlocked ht hopen haccess).1 hread
  · intro hsafe hrdrs hwrs t ht hopen
    obtain ⟨hread, hwrite⟩ := h t ht hopen
    have hnwrite : isWriteLocked value → ¬t.flags.access.canWrite := by
      intro hlock hcan
      have hchg : isWriteLocked value ≠ isWriteLocked state := by
        intro hsame
        exact hwrite (hsame ▸ hlock) hcan
      have hwriter : t.isWriter := by
        cases haccess : t.flags.access <;>
          simp_all [isWriter, Access.canWrite]
      exact countP_eq_zero.mp (hwrs hchg) t ht hwriter
    refine ⟨fun hlock hcan => ?_, hnwrite⟩
    have hchg : isReadLocked value ≠ isReadLocked state := by
      intro hsame
      exact hread (hsame ▸ hlock) hcan
    -- a `READ` session is counted; next to a `READWRITE` session there is one
    obtain ⟨t', ht', hopen', hread'⟩ :
        ∃ t' ∈ sessions, t'.isOpen ∧ t'.flags.access = .read := by
      cases haccess : t.flags.access with
      | read => exact ⟨t, ht, hopen, haccess⟩
      | write => exact absurd hcan (by rw [haccess]; exact Bool.false_ne_true)
      | readWrite =>
        refine hsafe hlock (fun hlock' => hnwrite hlock' ?_) ⟨t, ht, hopen, haccess⟩
        rw [haccess]
        rfl
    exact countP_eq_zero.mp (hrdrs hchg) t' ht' (by simp [isReader, hopen', hread'])

end MetaFile

/-- The next step of the request does not shut out readers that are not counted. -/
def Call.Safe (sessions : List Session) : Call → Prop
  | stateReferenced _ value => ShutsOutCounted sessions value
  | _ => True

namespace MetaFile

/-- No state change shuts out readers that are not counted. -/
def ReadLockSafe (s : MetaFile) : Action → Prop
  | .proceed i => ∀ c ∈ s.calls[i]?, c.Safe s.sessions
  | _ => True

instance (sessions : List Session) : (c : Call) → Decidable (c.Safe sessions)
  | .stateReferenced _ value => inferInstanceAs (Decidable (ShutsOutCounted sessions value))
  | .opening .. | .misplaced _ | .retrying _ | .stateLocked .. | .stateDone | .stateReleased
  | .returned => isTrue trivial

instance (s : MetaFile) : (a : Action) → Decidable (s.ReadLockSafe a)
  | .proceed i => inferInstanceAs (Decidable (∀ c ∈ s.calls[i]?, c.Safe s.sessions))
  | .openFile .. | .setFileState .. | .closeFile _ => isTrue trivial

instance (isInlined : Bool) : (a : Action) → Decidable (a.Current isInlined)
  | .openFile inlined _ | .setFileState inlined _ =>
    inferInstanceAs (Decidable (inlined = isInlined))
  | .proceed _ | .closeFile _ => isTrue trivial

/-! ## What the steps do -/

/-- The step leaves a consistent file, and it honours the locks if and only if it is safe. -/
structure Keeps (s s' : MetaFile) (safe : Prop) : Prop where
  consistent : s'.Consistent
  honours : Respected s.disk s.sessions → (Respected s'.disk s'.sessions ↔ safe)

section Step

variable {s : MetaFile} {i : ℕ} {c c' : Call}

lemma refs_set (hc : s.calls[i]? = some c) (c' : Call) :
    s.sessions.countP isOpen + (s.calls.set i c').countP Call.references +
      c.references.toNat = s.refs + c'.references.toNat := by
  have hset := countP_set_add (b := c') (p := Call.references) hc
  unfold refs
  omega

lemma refs_append (s : MetaFile) (c' : Call) :
    s.sessions.countP isOpen + (s.calls ++ [c']).countP Call.references =
      s.refs + c'.references.toNat := by
  rw [countP_append, countP_singleton, refs]
  cases c'.references <;> simp [Nat.add_assoc]

section

variable (h : s.Consistent)

include h

lemma Consistent.placed_set (hc' : c'.Placed s.isInlined) :
    ∀ d ∈ s.calls.set i c', d.Placed s.isInlined := by
  intro d hd
  rcases mem_or_eq_of_mem_set hd with hd | rfl
  · exact h.placed d hd
  · exact hc'

lemma Consistent.placed_append (hc' : c'.Placed s.isInlined) :
    ∀ d ∈ s.calls ++ [c'], d.Placed s.isInlined := by
  intro d hd
  rcases mem_append.mp hd with hd | hd
  · exact h.placed d hd
  · rw [mem_singleton.mp hd]
    exact hc'

lemma Consistent.keeps_self : s.Keeps s True := ⟨h, fun hs => iff_of_true hs trivial⟩

/-- A step that changes the references on the inode only. -/
lemma Consistent.keeps_calls {inodes : Store → Option MemInode}
    {lockRefs refs : ℕ} {calls : List Call}
    (hrefs : s.sessions.countP isOpen + calls.countP Call.references = refs)
    (hinos : inodes = copies s.isInlined s.disk s.sessions refs)
    (hplac : ∀ c ∈ calls, c.Placed s.isInlined) :
    s.Keeps { s with inodes := inodes, lockRefs := lockRefs, calls := calls } True :=
  ⟨⟨hinos.trans (congrArg _ hrefs.symm), hplac, h.sessions⟩, fun hs => iff_of_true hs trivial⟩

/-- An inode that is referenced is in memory. -/
lemma Consistent.referenced (hrefs : 0 < s.refs) :
    ∃ refs, s.refs = refs + 1 ∧ s.inodes = copies s.isInlined s.disk s.sessions (refs + 1) := by
  obtain ⟨refs, hsucc⟩ := Nat.exists_eq_succ_of_ne_zero (Nat.pos_iff_ne_zero.mp hrefs)
  exact ⟨refs, hsucc, h.inodes.trans (congrArg (copies _ _ _) hsucc)⟩

end

lemma refs_pos_of_call (hc : s.calls[i]? = some c) (hrefers : c.references) : 0 < s.refs :=
  Nat.add_pos_right _ (countP_pos_iff.mpr ⟨c, mem_of_getElem? hc, hrefers⟩)

variable (h : s.Consistent)

include h

lemma Consistent.reference :
    s.reference (home s.isInlined) =
      { s with inodes := copies s.isInlined s.disk s.sessions (s.refs + 1) } := by
  have hinos : s.inodes = copies s.isInlined s.disk s.sessions s.refs := h.inodes
  cases hrefs : s.refs with
  | zero =>
    rw [hrefs] at hinos
    have hnone : s.inodes (home s.isInlined) = none := by rw [hinos, copies, only_self]; rfl
    have hsum := readers_add_writers s.sessions
    unfold refs at hrefs
    have hrdrs : s.sessions.countP isReader = 0 := by omega
    have hwrs : s.sessions.countP isWriter = 0 := by omega
    simp only [MetaFile.reference, hnone, setInode, copies, hrdrs, hwrs, copyOf_succ]
    rw [hinos, copies, update_only]
  | succ refs =>
    rw [hrefs] at hinos
    simp only [MetaFile.reference, inodes_home hinos, setInode_home hinos, copies, copyOf_succ]
    rfl

/-- Where the inode is looked for. -/
lemma Consistent.openStore?_eq {store : Store}
    (hstore : s.openStore? s.isInlined = some store) : store = home s.isInlined := by
  unfold openStore? at hstore
  rw [h.inodes] at hstore
  cases hinl : s.isInlined <;> simp [hinl, only, home] at hstore ⊢ <;> grind

/-- An open is blocked by the state, or its session is added. -/
lemma Consistent.openReferenced {flags : OpenFlags}
    (hc : s.calls[i]? = some (.opening flags (home s.isInlined))) :
    s.Keeps (s.openReferenced i flags (home s.isInlined)) True := by
  obtain ⟨refs, hrefs, hinos⟩ := h.referenced (refs_pos_of_call hc rfl)
  have hset := refs_set hc .returned
  simp only [Call.references, toNat_true, toNat_false, hrefs] at hset
  have hhome : ¬(home s.isInlined = .perDir && !s.isInlined) := by
    cases s.isInlined <;> simp [home]
  unfold MetaFile.openReferenced checkAccessAndOpen
  simp only [inodes_home hinos, setInode_home hinos, decreaseInodeRefCount_eq hinos]
  by_cases hblocks : (countingInode s.disk s.sessions (refs + 1)).blocksOpen flags
  · rw [if_pos hblocks]
    exact h.keeps_calls (Nat.add_right_cancel hset) rfl (h.placed_set trivial)
  · rw [if_neg hblocks, incNumSessions_eq s.sessions s.disk (refs + 1) flags (home s.isInlined)]
    simp only [if_neg hhome, addSession, setCall]
    refine ⟨⟨?_, h.placed_set trivial, fun t ht => ?_⟩, fun hs => iff_of_true ?_ trivial⟩
    · refine Eq.trans (b := copies s.isInlined s.disk _ (refs + 1)) ?_
        (congrArg (copies s.isInlined s.disk _) ?_)
      · rfl
      · simp only [MetaFile.refs, countP_append, countP_singleton, if_true]
        omega
    · rcases mem_append.mp ht with ht | ht
      · exact h.sessions t ht
      · rw [mem_singleton.mp ht]
    · intro t ht hopen
      rcases mem_append.mp ht with ht | ht
      · exact hs t ht hopen
      · -- an open that is not blocked respects the locks
        have hunlocked : isUnlocked s.disk → ¬isReadLocked s.disk ∧ ¬isWriteLocked s.disk := by
          intro hu
          have hflags : getAccessFlags s.disk = getAccessFlags 0 := beq_iff_eq.mp hu
          obtain ⟨hread, hwrite⟩ := locks_eq_of_getAccessFlags_eq hflags
          rw [hread, hwrite]
          decide
        unfold MemInode.blocksOpen countingInode at hblocks
        grind

/-- A state change sets the state or is refused. -/
lemma Consistent.stateReferenced {value : FileState}
    (hc : s.calls[i]? = some (.stateReferenced (home s.isInlined) value)) :
    s.Keeps (s.proceed i (.stateReferenced (home s.isInlined) value))
      (ShutsOutCounted s.sessions value) := by
  obtain ⟨refs, hrefs, hinos⟩ := h.referenced (refs_pos_of_call hc rfl)
  have hset := refs_set hc .stateDone
  simp only [Call.references, toNat_true, Nat.add_right_cancel_iff] at hset
  simp only [MetaFile.proceed, setInodeState, inodes_home hinos, setInode_home hinos]
  by_cases hcheck : (countingInode s.disk s.sessions (refs + 1)).checkAccessFlagTransition value
  · obtain ⟨hrdrs, hwrs⟩ := checkAccessFlagTransition_iff.mp hcheck
    rw [if_pos hcheck]
    refine ⟨⟨?_, h.placed_set trivial, h.sessions⟩, fun hs => ?_⟩
    · exact (congrArg (only _) (copyOf_succ value _ _ refs).symm).trans
        (congrArg (copies s.isInlined value s.sessions) (hset.trans hrefs).symm)
    · rw [← respected_transition_iff hs]
      exact ⟨fun hvalue _ _ => hvalue, fun hvalue => hvalue hrdrs hwrs⟩
  · rw [if_neg hcheck]
    refine ⟨(h.keeps_calls hset h.inodes (h.placed_set trivial)).consistent, fun hs => ?_⟩
    rw [← respected_transition_iff hs]
    exact iff_of_true hs fun hrdrs hwrs =>
      absurd (checkAccessFlagTransition_iff.mpr ⟨hrdrs, hwrs⟩) hcheck

/-- The next step of a request. -/
lemma Consistent.proceed (hc : s.calls[i]? = some c) :
    s.Keeps (s.proceed i c) (c.Safe s.sessions) := by
  have hplac := h.placed c (mem_of_getElem? hc)
  cases c with
  | opening flags store =>
    obtain rfl : store = home s.isInlined := hplac
    exact h.openReferenced hc
  | misplaced flags => exact hplac.elim
  | retrying flags => exact hplac.elim
  | stateLocked inlined value =>
    obtain rfl : inlined = s.isInlined := hplac
    have hstore : s.stateStore s.isInlined = home s.isInlined := by
      rw [stateStore, h.inodes]
      cases s.isInlined <;> simp [only, home]
    simp only [MetaFile.proceed, hstore, h.reference]
    exact h.keeps_calls (refs_set hc _) rfl (h.placed_set rfl)
  | stateReferenced store value =>
    obtain rfl : store = home s.isInlined := hplac
    exact h.stateReferenced hc
  | stateDone =>
    obtain ⟨_, hrefs, hinos⟩ := h.referenced (refs_pos_of_call hc rfl)
    have hset := (refs_set hc .stateReleased).trans hrefs
    simp only [MetaFile.proceed, releasedStore_eq hinos, decreaseInodeRefCount_eq hinos]
    exact h.keeps_calls (Nat.add_right_cancel hset) rfl (h.placed_set trivial)
  | stateReleased => exact h.keeps_calls (refs_set hc .returned) h.inodes (h.placed_set trivial)
  | returned => exact h.keeps_self

/-- A session is closed. -/
lemma Consistent.closeSession {t : Session} (ht : s.sessions[i]? = some t)
    (hopen : t.isOpen) : s.Keeps (s.closeSession i t) True := by
  have hmem : t ∈ s.sessions := mem_of_getElem? ht
  have hstore := h.sessions t hmem
  obtain ⟨refs, hrefs, hinos⟩ :=
    h.referenced (Nat.add_pos_left (countP_pos_iff.mpr ⟨t, hmem, hopen⟩) _)
  have hset := countP_set_add (b := { t with isOpen := false }) (p := isOpen) ht
  simp only [hopen, toNat_true, toNat_false] at hset
  have hclosed : s.decNumSessionsAndStore t.store t.flags =
      { s with
        inodes := copies s.isInlined s.disk (s.sessions.set i { t with isOpen := false })
          (refs + 1) } := by
    simp only [hstore, decNumSessionsAndStore, inodes_home hinos, setInode_home hinos,
      decNumSessions_eq ht hopen, copies, copyOf_succ]
    rfl
  rw [MetaFile.closeSession, releasedStore_eq hinos, hclosed]
  rw [decreaseInodeRefCount_eq (s := { s with inodes := _ }) rfl]
  refine ⟨⟨?_, h.placed, fun t' ht' => ?_⟩, fun hs => iff_of_true (fun t' ht' hopen' => ?_) trivial⟩
  · refine congrArg (copies s.isInlined s.disk _) ?_
    simp only [MetaFile.refs] at hrefs ⊢
    omega
  · rcases mem_or_eq_of_mem_set ht' with ht' | rfl
    · exact h.sessions t' ht'
    · exact hstore
  · rcases mem_or_eq_of_mem_set ht' with ht' | rfl
    · exact hs t' ht' hopen'
    · nomatch hopen'

/-- A step whose request carries the inlined flag of the inode. -/
lemma Consistent.step {a : Action} (ha : a.Current s.isInlined) :
    s.Keeps (s.step a) (s.ReadLockSafe a) := by
  cases a with
  | openFile inlined flags =>
    obtain rfl : inlined = s.isInlined := ha
    cases hstore : s.openStore? s.isInlined with
    | none =>
      simp only [MetaFile.step, hstore]
      exact h.keeps_self
    | some store =>
      obtain rfl := h.openStore?_eq hstore
      simp only [MetaFile.step, hstore, h.reference]
      exact h.keeps_calls (refs_append s _) rfl (h.placed_append rfl)
  | setFileState inlined value =>
    exact h.keeps_calls (refs_append s _) h.inodes (h.placed_append ha)
  | proceed i =>
    cases hc : s.calls[i]? with
    | none => simpa [MetaFile.step, ReadLockSafe, hc] using h.keeps_self
    | some c => simpa [MetaFile.step, ReadLockSafe, hc] using h.proceed hc
  | closeFile i =>
    cases ht : s.sessions[i]? with
    | none =>
      simp only [MetaFile.step, ht]
      exact h.keeps_self
    | some t =>
      simp only [MetaFile.step, ht]
      split_ifs with hopen
      · exact h.closeSession ht hopen
      · exact h.keeps_self

/-- The copy in memory has the state on disk. -/
lemma Consistent.honoured_iff : s.Honoured ↔ Respected s.disk s.sessions := by
  have hstates : ∀ state ∈ s.states, state = s.disk := by
    intro state hstate
    rcases mem_cons.mp hstate with rfl | hmem
    · rfl
    · obtain ⟨_, -, hcopy⟩ := mem_filterMap.mp hmem
      obtain ⟨_, hinode, rfl⟩ := Option.map_eq_some_iff.mp hcopy
      rw [h.inodes, only, copyOf] at hinode
      split_ifs at hinode
      exact (congrArg MemInode.state (Option.some.inj hinode)).symm
  constructor
  · intro hs
    exact hs s.disk mem_cons_self
  · intro hs state hstate
    rw [hstates state hstate]
    exact hs

end Step

/-! ## Runs -/

/-- In a run whose requests carry the inlined flag of the inode, the access locks are honoured in
every state if and only if no state change sets `READ_LOCK` without `WRITE_LOCK` while a `READWRITE`
session and no `READ` session is open. -/
theorem honoured_iff_readLockSafe (isInlined : Bool) (state : FileState) (actions : List Action)
    (hcurrent : EveryStep step (fun s a => a.Current s.isInlined) (start isInlined state) actions) :
    EveryState step Honoured (start isInlined state) actions ↔
      EveryStep step ReadLockSafe (start isInlined state) actions := by
  have hstart : (start isInlined state).Honoured := by
    intro _ _ t ht
    nomatch ht
  refine everyState_iff_of_everyStep (I := Consistent) ?_ ?_
    (consistent_start isInlined state) hstart
    hcurrent
  · intro s a ha h
    exact (h.step ha).consistent
  · intro s a ha h hs
    rw [(h.step ha).consistent.honoured_iff]
    exact (h.step ha).honours (h.honoured_iff.mp hs)

/-- An inlined file is opened for reading, a state change to `READ_LOCK` is refused, and after the
close it succeeds. -/
theorem honoured_refused_readLock :
    EveryStep step (fun s a => a.Current s.isInlined) (start true 0)
        [.openFile true ⟨.read, false⟩, .proceed 0, .setFileState true readLock, .proceed 1,
          .proceed 1, .proceed 1, .closeFile 0, .setFileState true readLock, .proceed 2,
          .proceed 2] ∧ EveryState step Honoured (start true 0)
        [.openFile true ⟨.read, false⟩, .proceed 0, .setFileState true readLock, .proceed 1,
          .proceed 1, .proceed 1, .closeFile 0, .setFileState true readLock, .proceed 2,
          .proceed 2] :=
  ⟨by decide, (honoured_iff_readLockSafe true 0 _ (by decide)).mpr (by decide)⟩

/-- Two runs on an inlined file that end with `READ_LOCK` set under an open session that can read.
In the first the session is a `READWRITE` session, which `numSessionsRead` does not count.  In the
second the state change comes with the wrong inlined flag, so that it loads a second copy of the
inode, which counts no sessions. -/
theorem readLock_under_readers :
    ¬EveryState step Honoured (start true 0)
        [.openFile true ⟨.readWrite, false⟩, .proceed 0, .setFileState true readLock, .proceed 1,
          .proceed 1] ∧ ¬EveryState step Honoured (start true 0)
        [.openFile true ⟨.read, false⟩, .proceed 0, .setFileState false readLock, .proceed 1,
          .proceed 1] := by
  decide

end MetaFile

end Beegfs.FileAccess
