import Beegfs.Lib.OrdSet
import Beegfs.Lib.Interval

/-!
# Lock requests

`Locking.h`: the description of an entry lock (`flock`, append) and of a range lock (`fcntl`) as
clients send it and as the metadata server stores it, the predicates on the lock type flags, the
handles that own locks, the arithmetic on byte ranges and the comparators of the sets of granted
locks.

Entry locks belong to a client file descriptor, range locks to a client process.  Both kinds of
description answer the same questions about their flags, their lock ID and their owner; this is the
class `LockDetails`, over which the request handling of the two lock kinds is written.
-/

namespace Beegfs

/-! ## Lock type flags -/

/-- `ENTRYLOCKTYPE_UNLOCK`. -/
def entryLockTypeUnlock : UInt32 := 1

/-- `ENTRYLOCKTYPE_EXCLUSIVE`. -/
def entryLockTypeExclusive : UInt32 := 2

/-- `ENTRYLOCKTYPE_SHARED`. -/
def entryLockTypeShared : UInt32 := 4

/-- `ENTRYLOCKTYPE_NOWAIT`: the operation may not block if the lock is not available. -/
def entryLockTypeNowait : UInt32 := 8

/-- `ENTRYLOCKTYPE_CANCEL`: cancel all granted and pending locks for the given handle. -/
def entryLockTypeCancel : UInt32 := 16

/-- What the request handling reads from a lock description. -/
class LockDetails (δ : Type) where
  /-- The client that sent the request; `0` in a description that stands for no lock. -/
  clientNumID : δ → ℕ
  /-- The ID for the message that tells the client of a later grant, unique for each request. -/
  lockAckID : δ → String
  /-- The `ENTRYLOCKTYPE_...` flags, as the bits of the `int32_t`. -/
  lockTypeFlags : δ → UInt32
  /-- Whether two descriptions have the same owner. -/
  equalsHandle : δ → δ → Bool

namespace LockDetails

variable {δ : Type} [LockDetails δ] (d : δ)

/-- A description that stands for no lock has no client. -/
def isSet : Bool := clientNumID d != 0

def allowsWaiting : Bool := lockTypeFlags d &&& entryLockTypeNowait == 0

def isUnlock : Bool := lockTypeFlags d &&& entryLockTypeUnlock != 0

def isExclusive : Bool := lockTypeFlags d &&& entryLockTypeExclusive != 0

def isShared : Bool := lockTypeFlags d &&& entryLockTypeShared != 0

def isCancel : Bool := lockTypeFlags d &&& entryLockTypeCancel != 0

/-- A request that asks for a lock, and neither for an unlock nor for a cancel. -/
def isLock : Bool := !isCancel d && !isUnlock d

/-- The flags that clients send: cancel, unlock, or a lock that is either shared or exclusive, each
with or without `ENTRYLOCKTYPE_NOWAIT`. -/
def ValidFlags : Prop := isLock d = true → isShared d = !isExclusive d
  deriving Decidable

end LockDetails

/-! ## Entry locks -/

/-- `EntryLockDetails`.  Entry locks are treated per file descriptor: a process blocks itself when
it asks for a second exclusive lock through another descriptor. -/
structure EntryLockDetails where
  clientNumID : ℕ
  /-- Unique handle on the corresponding client. -/
  clientFD : ℤ
  /-- Process on the client, just informative. -/
  ownerPID : ℤ
  lockAckID : String
  lockTypeFlags : UInt32
deriving DecidableEq

/-- The owner of an entry lock. -/
structure EntryHandle where
  clientNumID : ℕ
  clientFD : ℤ
deriving DecidableEq

namespace EntryLockDetails

/-- The description that stands for no lock.  The source leaves all fields but the client
uninitialized; they are read only together with the client. -/
def unset : EntryLockDetails := ⟨0, 0, 0, "", 0⟩

def handle (d : EntryLockDetails) : EntryHandle := ⟨d.clientNumID, d.clientFD⟩

/-- Compares client and file descriptor. -/
def equalsHandle (d other : EntryLockDetails) : Bool :=
  d.clientFD == other.clientFD && d.clientNumID == other.clientNumID

instance : LockDetails EntryLockDetails where
  clientNumID := clientNumID
  lockAckID := lockAckID
  lockTypeFlags := lockTypeFlags
  equalsHandle := equalsHandle

lemma equalsHandle_iff {d other : EntryLockDetails} :
    d.equalsHandle other = true ↔ d.handle = other.handle := by
  simp [equalsHandle, handle, and_comm]

lemma equalsHandle_eq_false_iff {d other : EntryLockDetails} :
    d.equalsHandle other = false ↔ d.handle ≠ other.handle := by
  rw [← Bool.not_eq_true, equalsHandle_iff]

/-- `MapComparator`: order by file handle. -/
def mapComparator (a b : EntryLockDetails) : Bool :=
  a.clientFD < b.clientFD || (a.clientFD == b.clientFD && a.clientNumID < b.clientNumID)

instance : IsComparator mapComparator where
  irrefl a := by simp [mapComparator]
  trans {a b c} h₁ h₂ := by
    simp only [mapComparator, Bool.or_eq_true, Bool.and_eq_true, decide_eq_true_eq, beq_iff_eq] at *
    omega

/-- The set of granted shared locks tells locks apart by their handle. -/
lemma compEquiv_mapComparator {a b : EntryLockDetails} :
    compEquiv mapComparator a b = true ↔ a.handle = b.handle := by
  simp only [compEquiv, mapComparator, handle, EntryHandle.mk.injEq, Bool.and_eq_true,
    Bool.not_eq_true', Bool.or_eq_false_iff, Bool.and_eq_false_iff, decide_eq_false_iff_not,
    beq_eq_false_iff_ne]
  omega

end EntryLockDetails

/-! ## Range locks -/

/-- `RangeOverlapType`: how the range of a lock lies relative to the range of a request. -/
inductive RangeOverlapType
  | none
  /-- The ranges are equal. -/
  | equals
  /-- The first range wraps around the second. -/
  | contains
  /-- The first range is contained within the second. -/
  | isContained
  /-- The second range reaches over the end of the first. -/
  | startOverlap
  /-- The second range reaches over the start of the first. -/
  | endOverlap
deriving DecidableEq

/-- Reduction of the `uint64_t` arithmetic on file positions. -/
def wrap64 (n : ℕ) : ℕ := n % 2 ^ 64

/-- `RangeLockDetails`.  Range locks are treated per process, independent of file descriptors and
threads: a process cannot block itself. -/
structure RangeLockDetails where
  clientNumID : ℕ
  /-- Process on the client. -/
  ownerPID : ℤ
  lockAckID : String
  lockTypeFlags : UInt32
  start : ℕ
  /-- The source's `end`, inclusive. -/
  endPos : ℕ
deriving DecidableEq

/-- The owner of a range lock. -/
structure RangeHandle where
  clientNumID : ℕ
  ownerPID : ℤ
deriving DecidableEq

namespace RangeLockDetails

def handle (d : RangeLockDetails) : RangeHandle := ⟨d.clientNumID, d.ownerPID⟩

variable (d other : RangeLockDetails)

/-- Compares client and process. -/
def equalsHandle : Bool := d.ownerPID == other.ownerPID && d.clientNumID == other.clientNumID

instance : LockDetails RangeLockDetails where
  clientNumID := clientNumID
  lockAckID := lockAckID
  lockTypeFlags := lockTypeFlags
  equalsHandle := equalsHandle

lemma equalsHandle_iff {d other : RangeLockDetails} :
    d.equalsHandle other = true ↔ d.handle = other.handle := by
  simp [equalsHandle, handle, and_comm]

lemma equalsHandle_eq_false_iff {d other : RangeLockDetails} :
    d.equalsHandle other = false ↔ d.handle ≠ other.handle := by
  rw [← Bool.not_eq_true, equalsHandle_iff]

/-- Whether the ranges overlap or directly extend each other. -/
def isMergeable : Bool :=
  !(wrap64 (other.endPos + 1) < d.start || other.start > wrap64 (d.endPos + 1))

/-- Whether the ranges have common values. -/
def overlaps : Bool := !(other.endPos < d.start || other.start > d.endPos)

/-- How the range of `other` lies relative to the range of `d`. -/
def overlapsEx : RangeOverlapType :=
  if other.endPos < d.start || other.start > d.endPos then .none
  else if other.start = d.start && other.endPos = d.endPos then .equals
  else if d.start ≤ other.start && d.endPos ≥ other.endPos then .contains
  else if d.start ≥ other.start && d.endPos ≤ other.endPos then .isContained
  else if d.start < other.start then .startOverlap
  else .endOverlap

/-- Removes the part that overlaps with `trimmer`, which must lie over one end of the range. -/
def trim (d trimmer : RangeLockDetails) : RangeLockDetails :=
  if trimmer.endPos < d.endPos then { d with start := wrap64 (trimmer.endPos + 1) }
  else { d with endPos := wrap64 (trimmer.start + 2 ^ 64 - 1) }

/-- What remains on the left side of `splitter`, which must lie inside the range, and the
`outEndRegion` that remains on its right side. -/
def split (d splitter : RangeLockDetails) : RangeLockDetails × RangeLockDetails :=
  ({ d with endPos := wrap64 (splitter.start + 2 ^ 64 - 1) },
    { d with start := wrap64 (splitter.endPos + 1) })

/-- Extends the range by the range of `other`. -/
def merge : RangeLockDetails :=
  { d with start := min d.start other.start, endPos := max d.endPos other.endPos }

/-- `MapComparatorShared`: order by file handle, then range start. -/
def mapComparatorShared (a b : RangeLockDetails) : Bool :=
  if a.ownerPID < b.ownerPID then true
  else if a.ownerPID > b.ownerPID then false
  else if a.clientNumID < b.clientNumID then true
  else if a.clientNumID > b.clientNumID then false
  else a.start < b.start

/-- `MapComparatorExcl`: order by range start. -/
def mapComparatorExcl (a b : RangeLockDetails) : Bool := a.start < b.start

lemma mapComparatorShared_iff {a b : RangeLockDetails} :
    mapComparatorShared a b = true ↔ a.ownerPID < b.ownerPID ∨ (a.ownerPID = b.ownerPID ∧
      (a.clientNumID < b.clientNumID ∨ (a.clientNumID = b.clientNumID ∧ a.start < b.start))) := by
  unfold mapComparatorShared
  split_ifs <;> simp only [decide_eq_true_eq, true_iff, false_iff] <;> omega

instance : IsComparator mapComparatorShared where
  irrefl a := by
    rw [← Bool.not_eq_true, mapComparatorShared_iff]
    omega
  trans {a b c} h₁ h₂ := by
    rw [mapComparatorShared_iff] at *
    omega

instance : IsComparator mapComparatorExcl where
  irrefl a := by simp [mapComparatorExcl]
  trans {a b c} h₁ h₂ := by
    simp only [mapComparatorExcl, decide_eq_true_eq] at *
    omega

end RangeLockDetails

end Beegfs
