import Beegfs.Lib.Run

/-!
# File access locks and open sessions

A file carries a state byte with access locks: `READ_LOCK` blocks readers and `WRITE_LOCK` blocks
writers.  `FileInode::checkAccessAndOpen` looks at the state when a session is opened, and
`FileInode::checkAccessFlagTransition` looks at the sessions when the state is changed.  It knows
them by two counters, `numSessionsRead` and `numSessionsWrite`.

The inode of a file is loaded into one of two stores of `MetaStore`, the global one or the one of
the file's directory; which one depends on the inlined flag in the `EntryInfo` of the request.
Opens and state changes consist of several steps (reference the inode, do the work, release it)
between which the steps of other requests may run.  Saving an inode succeeds, and no session
bypasses the access check.
-/

namespace Beegfs.FileAccess

/-! ## The state byte -/

/-- `FileState`: access flags in the low five bits, data state above them. -/
abbrev FileState := BitVec 8

namespace FileState

/-- `AccessFlags::READ_LOCK`. -/
def readLock : FileState := 0x01

/-- `AccessFlags::WRITE_LOCK`. -/
def writeLock : FileState := 0x02

variable (raw : FileState)

/-- `FileState::getAccessFlags`. -/
def getAccessFlags : FileState := raw &&& 0x1F

/-- `FileState::isReadLocked`. -/
def isReadLocked : Bool := raw &&& readLock != 0

/-- `FileState::isWriteLocked`. -/
def isWriteLocked : Bool := raw &&& writeLock != 0

/-- `FileState::isUnlocked`. -/
def isUnlocked : Bool := getAccessFlags raw == 0

/-- `FileState::isFullyLocked`. -/
def isFullyLocked : Bool := isReadLocked raw && isWriteLocked raw

end FileState

open FileState

/-! ## The inode in memory -/

/-- The access mode of an open: `OPENFILE_ACCESS_READ`, `OPENFILE_ACCESS_WRITE` or
`OPENFILE_ACCESS_READWRITE`. -/
inductive Access where
  | read
  | write
  | readWrite
  deriving DecidableEq

/-- The session can read. -/
def Access.canRead : Access → Bool
  | read | readWrite => true
  | write => false

/-- The session can write. -/
def Access.canWrite : Access → Bool
  | write | readWrite => true
  | read => false

/-- The access flags of an open; `trunc` is `OPENFILE_ACCESS_TRUNC`. -/
structure OpenFlags where
  access : Access
  trunc : Bool
  deriving DecidableEq

/-- The part of a `FileInode` that decides about access, with the number of references that its
`FileInodeReferencer` counts.  No counter of 32 bits overflows. -/
structure MemInode where
  state : FileState
  numSessionsRead : ℕ
  numSessionsWrite : ℕ
  refCount : ℕ
  deriving DecidableEq

namespace MemInode

variable (inode : MemInode) (flags : OpenFlags)

/-- `FileInode::incNumSessionsUnlocked`: a session that reads and writes counts as a writer only. -/
def incNumSessions : MemInode :=
  if flags.access = .read then { inode with numSessionsRead := inode.numSessionsRead + 1 }
  else { inode with numSessionsWrite := inode.numSessionsWrite + 1 }

/-- The counters in `FileInode::decNumSessionsAndStore`; a counter that is zero stays. -/
def decNumSessions : MemInode :=
  if flags.access = .read then { inode with numSessionsRead := inode.numSessionsRead - 1 }
  else { inode with numSessionsWrite := inode.numSessionsWrite - 1 }

/-- `blockOpenRequest` in `FileInode::checkAccessAndOpen`. -/
def blocksOpen : Bool :=
  let readRequested := flags.access.canRead
  let writeRequested := flags.access.canWrite || flags.trunc
  !isUnlocked inode.state &&
    (isFullyLocked inode.state || (isReadLocked inode.state && readRequested) ||
      (isWriteLocked inode.state && writeRequested))

/-- `FileInode::checkAccessFlagTransition` from the inode's state to `newState`. -/
def checkAccessFlagTransition (newState : FileState) : Bool :=
  let oldFlags := getAccessFlags inode.state
  let newFlags := getAccessFlags newState
  let addedFlags := newFlags &&& ~~~oldFlags
  let removedFlags := oldFlags &&& ~~~newFlags
  if oldFlags == newFlags then true
  else if addedFlags &&& readLock != 0 && decide (0 < inode.numSessionsRead) then false
  else if addedFlags &&& writeLock != 0 && decide (0 < inode.numSessionsWrite) then false
  else if removedFlags &&& readLock != 0 && decide (0 < inode.numSessionsRead) then false
  else if removedFlags &&& writeLock != 0 && decide (0 < inode.numSessionsWrite) then false
  else true

end MemInode

/-! ## Stores, requests and sessions -/

/-- The two kinds of `InodeFileStore`: the one of `MetaStore` and the one of the directory. -/
inductive Store where
  | global
  | perDir
  deriving DecidableEq

/-- An open or a state change between two of its steps. -/
inductive Call where
  /-- `openFile` has referenced the inode in a store. -/
  | opening (flags : OpenFlags) (store : Store)
  /-- `openFile` has opened an inode in the directory's store that turns out not to be inlined. -/
  | misplaced (flags : OpenFlags)
  /-- `openFile` has closed it there and waits for the write lock of `tryOpenFileWriteLocked`. -/
  | retrying (flags : OpenFlags)
  /-- `setFileState` has put the inode into the `GlobalInodeLockStore`. -/
  | stateLocked (inlined : Bool) (value : FileState)
  /-- `setFileState` has referenced the inode in a store. -/
  | stateReferenced (store : Store) (value : FileState)
  /-- `setFileState` has set the state or was refused. -/
  | stateDone
  /-- `setFileState` has released the inode, but not yet its entry in the lock store. -/
  | stateReleased
  /-- The request has returned. -/
  | returned
  deriving DecidableEq

/-- The request holds the read lock of `MetaStore`. -/
def Call.holdsMetaStore : Call → Bool
  | retrying _ | returned => false
  | _ => true

/-- A session that was opened, with the store its inode is in. -/
structure Session where
  flags : OpenFlags
  store : Store
  isOpen : Bool
  deriving DecidableEq

/-- What a metadata server has of one file: whether its inode is inlined and its state on disk, the
copies of the inode in memory, the references in the `GlobalInodeLockStore`, the sessions and the
requests. -/
structure MetaFile where
  isInlined : Bool
  disk : FileState
  inodes : Store → Option MemInode
  lockRefs : ℕ
  sessions : List Session
  calls : List Call

/-- A request arrives, a request does its next step, or a session is closed.  `inlined` is the flag
in the request's `EntryInfo`. -/
inductive Action where
  | openFile (inlined : Bool) (flags : OpenFlags)
  | setFileState (inlined : Bool) (value : FileState)
  | proceed (i : ℕ)
  | closeFile (i : ℕ)

namespace MetaFile

variable (s : MetaFile)

/-- A file that nobody uses. -/
def start (isInlined : Bool) (state : FileState) : MetaFile where
  isInlined := isInlined
  disk := state
  inodes := fun _ => none
  lockRefs := 0
  sessions := []
  calls := []

variable (store : Store)

/-- Put a copy of the inode into a store, or take it out. -/
def setInode (inode : Option MemInode) : MetaFile :=
  { s with inodes := Function.update s.inodes store inode }

/-- The request `i` goes on as `call`. -/
def setCall (i : ℕ) (call : Call) : MetaFile := { s with calls := s.calls.set i call }

/-- `InodeFileStore::referenceFileInode` where the inode may be loaded. -/
def reference : MetaFile :=
  match s.inodes store with
  | some inode => s.setInode store (some { inode with refCount := inode.refCount + 1 })
  | none => s.setInode store (some ⟨s.disk, 0, 0, 1⟩)

/-- `InodeFileStore::decreaseInodeRefCountUnlocked`: the last reference unloads the inode. -/
def decreaseInodeRefCount : MetaFile :=
  match s.inodes store with
  | some inode =>
    if inode.refCount ≤ 1 then s.setInode store none
    else s.setInode store (some { inode with refCount := inode.refCount - 1 })
  | none => s

/-- The store whose reference `MetaStore::releaseFileUnlocked` and `MetaStore::closeFile` give back:
the global one is asked first, by the entry ID. -/
def releasedStore : Store := if (s.inodes .global).isSome then .global else .perDir

variable (flags : OpenFlags)

/-- `FileInode::decNumSessionsAndStore` on the copy in a store. -/
def decNumSessionsAndStore : MetaFile :=
  match s.inodes store with
  | some inode =>
    { s.setInode store (some (inode.decNumSessions flags)) with disk := inode.state }
  | none => s

/-- The store in which `MetaStore::openFile` references the inode.  An inode that is not in memory
is not loaded while the lock store has it. -/
def openStore? (inlined : Bool) : Option Store :=
  if (s.inodes .global).isSome then some .global
  else if !inlined then if s.lockRefs = 0 then some .global else none
  else if (s.inodes .perDir).isSome || s.lockRefs = 0 then some .perDir
  else none

/-- The store in which `MetaStore::setFileState` references the inode, by `referenceFileUnlocked`
without a look at the lock store. -/
def stateStore (inlined : Bool) : Store :=
  if (s.inodes .global).isSome || !inlined then .global else .perDir

/-- The session that an open leaves. -/
def addSession (store : Store) : MetaFile :=
  { s with sessions := s.sessions ++ [⟨flags, store, true⟩] }

/-- `InodeFileStore::openFile` after the inode is referenced; an open that is blocked releases
it. -/
def checkAccessAndOpen (store : Store) : Option MetaFile :=
  match s.inodes store with
  | none => none
  | some inode =>
    if inode.blocksOpen flags then none
    else some (s.setInode store (some (inode.incNumSessions flags)))

/-- `MetaStore::moveReferenceToMetaFileStoreUnlocked`, unless the inode is in the global store. -/
def moveReferenceToMetaFileStore : MetaFile :=
  if (s.inodes .global).isSome then s
  else
    { s with
      inodes := fun store => if store = .global then s.inodes .perDir else none
      sessions := s.sessions.map fun t => { t with store := .global } }

/-- `MetaStore::tryOpenFileWriteLocked`. -/
def tryOpenFileWriteLocked : MetaFile :=
  let moved := s.moveReferenceToMetaFileStore
  if (moved.inodes .global).isSome || moved.lockRefs = 0 then
    match (moved.reference .global).checkAccessAndOpen flags .global with
    | some opened => opened.addSession flags .global
    | none => moved
  else moved

/-- The next step of an open whose inode is referenced. -/
def openReferenced (i : ℕ) (flags : OpenFlags) (store : Store) : MetaFile :=
  match s.checkAccessAndOpen flags store with
  | none => (s.decreaseInodeRefCount store).setCall i .returned
  | some opened =>
    if store = .perDir && !s.isInlined then opened.setCall i (.misplaced flags)
    else (opened.addSession flags store).setCall i .returned

/-- `FileInode::setFileState` on the copy in a store. -/
def setInodeState (value : FileState) : MetaFile :=
  match s.inodes store with
  | some inode =>
    if inode.checkAccessFlagTransition value then
      { s.setInode store (some { inode with state := value }) with disk := value }
    else s
  | none => s

/-- The next step of a request. -/
def proceed (i : ℕ) : Call → MetaFile
  | .opening flags store => s.openReferenced i flags store
  | .misplaced flags =>
    ((s.decNumSessionsAndStore .perDir flags).decreaseInodeRefCount .perDir).setCall i
      (.retrying flags)
  | .retrying flags =>
    -- the write lock of `MetaStore` is granted when no other request is inside
    if s.calls.any Call.holdsMetaStore then s
    else (s.tryOpenFileWriteLocked flags).setCall i .returned
  | .stateLocked inlined value =>
    let store := s.stateStore inlined
    (s.reference store).setCall i (.stateReferenced store value)
  | .stateReferenced store value => (s.setInodeState store value).setCall i .stateDone
  | .stateDone => (s.decreaseInodeRefCount s.releasedStore).setCall i .stateReleased
  | .stateReleased => { s with lockRefs := s.lockRefs - 1 }.setCall i .returned
  | .returned => s

/-- `MetaStore::closeFile` of an open session. -/
def closeSession (i : ℕ) (session : Session) : MetaFile :=
  let closed := (s.decNumSessionsAndStore session.store session.flags).decreaseInodeRefCount
    s.releasedStore
  { closed with sessions := s.sessions.set i { session with isOpen := false } }

/-- One step of the server. -/
def step : Action → MetaFile
  | .openFile inlined flags =>
    match s.openStore? inlined with
    | some store =>
      let referenced := s.reference store
      { referenced with calls := s.calls ++ [.opening flags store] }
    | none => s
  | .setFileState inlined value =>
    { s with lockRefs := s.lockRefs + 1, calls := s.calls ++ [.stateLocked inlined value] }
  | .proceed i =>
    match s.calls[i]? with
    | some call => s.proceed i call
    | none => s
  | .closeFile i =>
    match s.sessions[i]? with
    | some session => if session.isOpen then s.closeSession i session else s
    | none => s

/-- The states that the file has: the one on disk and the ones of the copies in memory. -/
def states : List FileState :=
  s.disk :: [Store.global, Store.perDir].filterMap fun store =>
    (s.inodes store).map MemInode.state

/-- The access locks are honoured: no open session can read while the file has `READ_LOCK`, and none
can write while it has `WRITE_LOCK`. -/
def Honoured : Prop :=
  ∀ state ∈ s.states, ∀ session ∈ s.sessions, session.isOpen →
    (isReadLocked state → ¬session.flags.access.canRead) ∧
      (isWriteLocked state → ¬session.flags.access.canWrite)
  deriving Decidable

end MetaFile

/-! ## Locks and counters -/

section Locks

variable {inode : MemInode} {value : FileState} {flags : OpenFlags}

lemma isReadLocked_eq (raw : FileState) : isReadLocked raw = raw.getLsbD 0 := by
  revert raw
  decide +kernel

lemma isWriteLocked_eq (raw : FileState) : isWriteLocked raw = raw.getLsbD 1 := by
  revert raw
  decide +kernel

/-- The access flags that a transition adds. -/
lemma addedFlags_readLock (old new : FileState) :
    (getAccessFlags new &&& ~~~getAccessFlags old &&& readLock != 0) =
      (isReadLocked new && !isReadLocked old) := by
  change isReadLocked (getAccessFlags new &&& ~~~getAccessFlags old) = _
  simp [isReadLocked_eq, getAccessFlags]

lemma addedFlags_writeLock (old new : FileState) :
    (getAccessFlags new &&& ~~~getAccessFlags old &&& writeLock != 0) =
      (isWriteLocked new && !isWriteLocked old) := by
  change isWriteLocked (getAccessFlags new &&& ~~~getAccessFlags old) = _
  simp [isWriteLocked_eq, getAccessFlags]

/-- States with the same access flags have the same locks. -/
lemma locks_eq_of_getAccessFlags_eq {old new : FileState}
    (h : getAccessFlags old = getAccessFlags new) :
    isReadLocked old = isReadLocked new ∧ isWriteLocked old = isWriteLocked new := by
  have hread : ∀ raw, isReadLocked raw = isReadLocked (getAccessFlags raw) := by
    intro raw
    simp [isReadLocked_eq, getAccessFlags]
  have hwrite : ∀ raw, isWriteLocked raw = isWriteLocked (getAccessFlags raw) := by
    intro raw
    simp [isWriteLocked_eq, getAccessFlags]
  rw [hread old, hread new, hwrite old, hwrite new, h]
  exact ⟨rfl, rfl⟩

/-- Which transitions are allowed: a lock changes only while the counter of its sessions is zero. -/
lemma checkAccessFlagTransition_iff :
    inode.checkAccessFlagTransition value ↔
      (isReadLocked value ≠ isReadLocked inode.state → inode.numSessionsRead = 0) ∧
        (isWriteLocked value ≠ isWriteLocked inode.state → inode.numSessionsWrite = 0) := by
  unfold MemInode.checkAccessFlagTransition
  simp only [addedFlags_readLock, addedFlags_writeLock]
  by_cases hsame : getAccessFlags inode.state = getAccessFlags value
  · obtain ⟨hread, hwrite⟩ := locks_eq_of_getAccessFlags_eq hsame
    simp [hsame, hread, hwrite]
  · cases isReadLocked value <;> cases isReadLocked inode.state <;>
      cases isWriteLocked value <;> cases isWriteLocked inode.state <;> grind

end Locks

end Beegfs.FileAccess
