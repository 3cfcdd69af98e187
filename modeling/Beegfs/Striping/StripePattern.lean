import Beegfs.Lib.Word

/-!
# Stripe patterns

A stripe pattern says how the bytes of a file are spread over storage targets: the file is cut into
chunks of `chunkSize` bytes, and the chunks go to the targets in turn.  There are three classes of
patterns, with one common header.  `int64_t` and `size_t` values are words of 64 bits, `unsigned`
values words of 32 bits; an operation that the source performs on signed values is the signed
operation of words.
-/

namespace Beegfs

open BitVec

/-- `StripePatternType`. -/
inductive StripePatternType
  /-- `StripePatternType_Invalid` -/
  | invalid
  /-- `StripePatternType_Raid0` -/
  | raid0
  /-- `StripePatternType_Raid10` -/
  | raid10
  /-- `StripePatternType_BuddyMirror` -/
  | buddyMirror
  deriving DecidableEq, Repr

/-- `StripePatternHeader`, without the length, which is used while a pattern is serialized only. -/
structure StripePatternHeader where
  /-- The class of the pattern. -/
  type : StripePatternType
  /-- The number of bytes of a chunk. -/
  chunkSize : BitVec 32
  /-- The storage pool that the targets were taken from. -/
  storagePoolId : BitVec 16
  /-- Whether the storage pool is written when the pattern is serialized. -/
  hasPoolId : Bool
  deriving DecidableEq, Repr

/-- The members of the derived classes `Raid0Pattern`, `Raid10Pattern` and `BuddyMirrorPattern`. -/
inductive StripePatternContent
  | raid0 (stripeTargetIDs : List (BitVec 16)) (defaultNumTargets : BitVec 32)
  | raid10 (stripeTargetIDs mirrorTargetIDs : List (BitVec 16)) (defaultNumTargets : BitVec 32)
  | buddyMirror (mirrorBuddyGroupIDs : List (BitVec 16)) (defaultNumTargets : BitVec 32)
  deriving DecidableEq, Repr

/-- The type that the constructor of a derived class hands to the base class. -/
def StripePatternContent.type : StripePatternContent → StripePatternType
  | raid0 .. => .raid0
  | raid10 .. => .raid10
  | buddyMirror .. => .buddyMirror

/-- A `StripePattern`: the header of the base class and the members of the derived class. -/
structure StripePattern where
  /-- The members of the base class. -/
  header : StripePatternHeader
  /-- The members of the derived class. -/
  content : StripePatternContent
  /-- The type in the header is the one of the derived class. -/
  type_eq : header.type = content.type
  deriving DecidableEq

namespace StripePattern

variable (pattern : StripePattern) {pos : BitVec 64} {k : ℕ}

/-! ## Getters -/

def getPatternType : StripePatternType := pattern.header.type

def getChunkSize : BitVec 32 := pattern.header.chunkSize

def getStoragePoolId : BitVec 16 := pattern.header.storagePoolId

/-- The targets that the chunks go to; for mirrored buddy groups, the groups. -/
def getStripeTargetIDs : List (BitVec 16) :=
  match pattern.content with
  | .raid0 stripeTargetIDs _ => stripeTargetIDs
  | .raid10 stripeTargetIDs _ _ => stripeTargetIDs
  | .buddyMirror mirrorBuddyGroupIDs _ => mirrorBuddyGroupIDs

/-- The mirror targets, which only `Raid10Pattern` has. -/
def getMirrorTargetIDs : Option (List (BitVec 16)) :=
  match pattern.content with
  | .raid10 _ mirrorTargetIDs _ => some mirrorTargetIDs
  | _ => none

def getDefaultNumTargets : BitVec 32 :=
  match pattern.content with
  | .raid0 _ defaultNumTargets => defaultNumTargets
  | .raid10 _ _ defaultNumTargets => defaultNumTargets
  | .buddyMirror _ defaultNumTargets => defaultNumTargets

/-- `getStripeTargetIDs()->size()`, a `size_t`. -/
def getNumStripeTargetIDs : BitVec 64 := BitVec.ofNat 64 pattern.getStripeTargetIDs.length

/-- Start of the chunk that `pos` lies in; the remainder is kept in an `unsigned`. -/
def getChunkStart (pos : BitVec 64) : BitVec 64 :=
  let posModChunkSize : BitVec 32 := (pos &&& (pattern.getChunkSize - 1).setWidth 64).setWidth 32
  pos - posModChunkSize.setWidth 64

/-- Start of the chunk after the one that `pos` lies in. -/
def getNextChunkStart (pos : BitVec 64) : BitVec 64 :=
  pattern.getChunkStart pos + pattern.getChunkSize.setWidth 64

/-- Index of the target that the byte at `pos` is stored on; the division is a signed one, the
remainder an unsigned one. -/
def getStripeTargetIndex (pos : BitVec 64) : BitVec 64 :=
  pos.sdiv (pattern.getChunkSize.setWidth 64) % pattern.getNumStripeTargetIDs

/-! ## The getters in terms of numbers -/

lemma toNat_getNumStripeTargetIDs (hn : pattern.getStripeTargetIDs.length < 2 ^ 32) :
    pattern.getNumStripeTargetIDs.toNat = pattern.getStripeTargetIDs.length := by
  unfold getNumStripeTargetIDs
  rw [toNat_ofNat, Nat.mod_eq_of_lt (by omega)]

lemma toNat_getChunkStart (hk : pattern.getChunkSize.toNat = 2 ^ k) :
    (pattern.getChunkStart pos).toNat = pos.toNat - pos.toNat % pattern.getChunkSize.toNat := by
  have hmask := Word.toNat_and_sub_one (w := 64) (by decide) hk pos
  have hlt : pos.toNat % pattern.getChunkSize.toNat < 2 ^ 32 := by
    refine lt_of_lt_of_le (Nat.mod_lt _ ?_) pattern.getChunkSize.isLt.le
    rw [hk]
    exact Nat.two_pow_pos k
  -- cutting the remainder down to an `unsigned` loses nothing
  have hrem : (((pos &&& (pattern.getChunkSize - 1).setWidth 64).setWidth 32).setWidth 64).toNat =
      pos.toNat % pattern.getChunkSize.toNat := by
    rw [toNat_setWidth_of_le (by decide), toNat_setWidth, hmask, Nat.mod_eq_of_lt hlt]
  unfold getChunkStart
  rw [toNat_sub_of_le, hrem]
  rw [le_def, hrem]
  exact Nat.mod_le _ _

lemma toNat_setWidth_getChunkSize :
    (pattern.getChunkSize.setWidth 64).toNat = pattern.getChunkSize.toNat :=
  toNat_setWidth_of_le (by decide)

lemma toNat_getStripeTargetIndex (hn : pattern.getStripeTargetIDs.length < 2 ^ 32)
    (hpos : pos.toNat < 2 ^ 63) :
    (pattern.getStripeTargetIndex pos).toNat =
      pos.toNat / pattern.getChunkSize.toNat % pattern.getStripeTargetIDs.length := by
  have hsize : (pattern.getChunkSize.setWidth 64).msb = false := by
    refine Word.msb_eq_false_of_lt ?_
    rw [toNat_setWidth_getChunkSize]
    omega
  unfold getStripeTargetIndex
  rw [Word.sdiv_eq_udiv (Word.msb_eq_false_of_lt hpos) hsize, toNat_umod,
    toNat_udiv, toNat_setWidth_getChunkSize, pattern.toNat_getNumStripeTargetIDs hn]

end StripePattern

end Beegfs
