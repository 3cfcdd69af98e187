import Beegfs.Serialization.Formats
import Beegfs.Striping.StripePattern

/-!
# Serialized stripe patterns

A serialized stripe pattern is a header, whose first field is the length of the whole, and the
members of the derived class.  The storage pool may be missing in the header: formats of older
versions have none, and a flag in the type tells that it was left out.
-/

namespace Beegfs

open Bytes Grammar

/-- `StoragePoolStore::INVALID_POOL_ID`, also the value of a `StoragePoolId` by default. -/
def invalidPoolId : BitVec 16 := 0

/-- `StoragePoolStore::DEFAULT_POOL_ID`. -/
def defaultPoolId : BitVec 16 := 1

/-- `STRIPEPATTERN_DEFAULT_CHUNKSIZE`. -/
def stripePatternDefaultChunkSize : BitVec 32 := 1024 * 512

namespace StripePatternType

/-- The number of the type. -/
def toWord : StripePatternType → BitVec 32
  | invalid => 0
  | raid0 => 1
  | raid10 => 2
  | buddyMirror => 3

end StripePatternType

namespace StripePatternHeader

open Serializer

/-- `HasNoPoolFlag`. -/
def hasNoPoolFlag : BitVec 32 := 1 <<< 24

/-! ## Serializing -/

variable (header : StripePatternHeader)

def typeWithFlags : BitVec 32 :=
  header.type.toWord ||| (if header.hasPoolId then 0 else hasNoPoolFlag)

/-- The length is zero here. -/
def serialize (ser : Serializer) : Serializer :=
  let ser := ser.putIntegral (0 : BitVec 32)
  let ser := ser.putIntegral header.typeWithFlags
  let ser := ser.putIntegral header.chunkSize
  if header.hasPoolId then ser.putIntegral header.storagePoolId else ser

/-- The bytes of the header after the length. -/
def bytes : List Byte :=
  wordBytes header.typeWithFlags ++ (wordBytes header.chunkSize ++
    if header.hasPoolId then wordBytes header.storagePoolId else [])

lemma appends_serialize : Appends header.serialize (wordBytes (0 : BitVec 32) ++ header.bytes) := by
  have hpool : Appends
      (fun ser => if header.hasPoolId then ser.putIntegral header.storagePoolId else ser)
      (if header.hasPoolId then wordBytes header.storagePoolId else []) := by
    cases header.hasPoolId with
    | true => exact appends_putIntegral header.storagePoolId
    | false => exact Appends.nil
  exact (appends_putIntegral _).comp
    ((appends_putIntegral _).comp ((appends_putIntegral _).comp hpool))

end StripePatternHeader

namespace StripePatternContent

open Serializer

/-- `serializeContent` of the derived classes. -/
def serializeContent (content : StripePatternContent) (ser : Serializer) : Serializer :=
  match content with
  | raid0 stripeTargetIDs defaultNumTargets =>
    (ser.putIntegral defaultNumTargets).putCollection stripeTargetIDs
  | raid10 stripeTargetIDs mirrorTargetIDs defaultNumTargets =>
    ((ser.putIntegral defaultNumTargets).putCollection stripeTargetIDs).putCollection
      mirrorTargetIDs
  | buddyMirror mirrorBuddyGroupIDs defaultNumTargets =>
    (ser.putIntegral defaultNumTargets).putCollection mirrorBuddyGroupIDs

def bytes : StripePatternContent → List Byte
  | raid0 stripeTargetIDs defaultNumTargets =>
    wordBytes defaultNumTargets ++ collectionBytes stripeTargetIDs
  | raid10 stripeTargetIDs mirrorTargetIDs defaultNumTargets =>
    wordBytes defaultNumTargets ++
      (collectionBytes stripeTargetIDs ++ collectionBytes mirrorTargetIDs)
  | buddyMirror mirrorBuddyGroupIDs defaultNumTargets =>
    wordBytes defaultNumTargets ++ collectionBytes mirrorBuddyGroupIDs

lemma appends_serializeContent (content : StripePatternContent) :
    Appends content.serializeContent content.bytes := by
  cases content with
  | raid0 ids n => exact (appends_putIntegral n).comp (appends_putCollection ids)
  | raid10 ids mirrorIDs n =>
    exact (appends_putIntegral n).comp
      ((appends_putCollection ids).comp (appends_putCollection mirrorIDs))
  | buddyMirror ids n => exact (appends_putIntegral n).comp (appends_putCollection ids)

end StripePatternContent

namespace StripePattern

open Serializer

variable (pattern : StripePattern)

/-- `operator%` for serializers: the length is filled in at the end. -/
def serialize (ser : Serializer) : Serializer :=
  let lengthPos := ser
  let ser := pattern.header.serialize ser
  let ser := pattern.content.serializeContent ser
  putAtMark lengthPos (putIntegral (ser.bufferOffset - lengthPos.bufferOffset)) ser

/-- The bytes of a pattern, with the given length. -/
def bytes (length : BitVec 32) : List Byte :=
  wordBytes length ++ (pattern.header.bytes ++ pattern.content.bytes)

lemma appends_serialize : Appends pattern.serialize
      (pattern.bytes (BitVec.ofNat 32 (pattern.bytes 0).length)) := by
  have h := (pattern.header.appends_serialize.comp pattern.content.appends_serializeContent)
  rw [List.append_assoc] at h
  exact h.patch appends_putIntegral fun _ => by rw [length_wordBytes, length_wordBytes]

end StripePattern

/-! ## Deserializing -/

/-- A `StripePatternHeader` while it is read: the type is any number. -/
structure DecodedHeader where
  /-- The type, without the flag. -/
  type : BitVec 32
  chunkSize : BitVec 32
  storagePoolId : BitVec 16
  deriving DecidableEq, Repr

namespace StripePatternHeader

open Deserializer Decoder

variable (hasPoolId : Bool)

/-- `StripePatternHeader::serialize` for deserializers.  The storage pool is read only if neither
the caller nor the flag says that it is missing; otherwise it keeps the value of the constructor.
The length and the flag are not used afterwards. -/
def deserialize : DesM DecodedHeader := do
  let _length ← getIntegral 32
  let typeWithFlags ← getIntegral 32
  let type := typeWithFlags &&& ~~~ hasNoPoolFlag
  let chunkSize ← getIntegral 32
  if hasPoolId && typeWithFlags &&& hasNoPoolFlag == 0 then do
    let storagePoolId ← getIntegral 16
    return { type, chunkSize, storagePoolId }
  else
    return { type, chunkSize, storagePoolId := if hasPoolId then invalidPoolId else defaultPoolId }

/-- The format of the header. -/
def format : Grammar Byte DecodedHeader := do
  let _length ← word 32
  let typeWithFlags ← word 32
  let type := typeWithFlags &&& ~~~ hasNoPoolFlag
  let chunkSize ← word 32
  if hasPoolId && typeWithFlags &&& hasNoPoolFlag == 0 then do
    let storagePoolId ← word 16
    return { type, chunkSize, storagePoolId }
  else
    return { type, chunkSize, storagePoolId := if hasPoolId then invalidPoolId else defaultPoolId }

lemma refines_deserialize : Refines (deserialize hasPoolId) (format hasPoolId) :=
  refines_getIntegral.bind fun _ => refines_getIntegral.bind fun _ =>
    refines_getIntegral.bind fun _ =>
      Refines.ite (fun _ => refines_getIntegral.bind fun _ => Refines.pure _)
        fun _ => Refines.pure _

end StripePatternHeader

namespace StripePatternContent

open Deserializer Decoder

variable (type : BitVec 32)

/-- `deserializeContent` of the pattern that the `switch` over the type has created.  For a type
that is not handled there, no pattern was created. -/
def deserializeContent : DesM StripePatternContent :=
  if type = StripePatternType.raid0.toWord then do
    let defaultNumTargets ← getIntegral 32
    let stripeTargetIDs ← getCollection 16 []
    return raid0 stripeTargetIDs defaultNumTargets
  else if type = StripePatternType.raid10.toWord then do
    let defaultNumTargets ← getIntegral 32
    let stripeTargetIDs ← getCollection 16 []
    let mirrorTargetIDs ← getCollection 16 []
    return raid10 stripeTargetIDs mirrorTargetIDs defaultNumTargets
  else if type = StripePatternType.buddyMirror.toWord then do
    let defaultNumTargets ← getIntegral 32
    let mirrorBuddyGroupIDs ← getCollection 16 []
    return buddyMirror mirrorBuddyGroupIDs defaultNumTargets
  else
    throw .nullPattern

/-- The format of the members of the derived class for a type. -/
def format : Grammar Byte StripePatternContent :=
  if type = StripePatternType.raid0.toWord then do
    let defaultNumTargets ← word 32
    let stripeTargetIDs ← collection 16
    return raid0 stripeTargetIDs defaultNumTargets
  else if type = StripePatternType.raid10.toWord then do
    let defaultNumTargets ← word 32
    let stripeTargetIDs ← collection 16
    let mirrorTargetIDs ← collection 16
    return raid10 stripeTargetIDs mirrorTargetIDs defaultNumTargets
  else if type = StripePatternType.buddyMirror.toWord then do
    let defaultNumTargets ← word 32
    let mirrorBuddyGroupIDs ← collection 16
    return buddyMirror mirrorBuddyGroupIDs defaultNumTargets
  else
    .hazard

/-- The types that the `switch` creates a pattern for. -/
def KnownType : Prop :=
  type = StripePatternType.raid0.toWord ∨ type = StripePatternType.raid10.toWord ∨
    type = StripePatternType.buddyMirror.toWord

variable {type : BitVec 32}

lemma refines_deserializeContent (h : KnownType type) :
    Refines (deserializeContent type) (format type) := by
  have hids : Refines (getCollection 16 []) (collection 16) := refines_getCollection (by decide) []
  refine Refines.ite (fun _ => ?_) fun h1 => Refines.ite (fun _ => ?_) fun h2 =>
    Refines.ite (fun _ => ?_) fun h3 => ?_
  · exact refines_getIntegral.bind fun _ => hids.bind fun _ => Refines.pure _
  · exact refines_getIntegral.bind fun _ => hids.bind fun _ => hids.bind fun _ =>
      Refines.pure _
  · exact refines_getIntegral.bind fun _ => hids.bind fun _ => Refines.pure _
  · rcases h with h | h | h
    · exact absurd h h1
    · exact absurd h h2
    · exact absurd h h3

lemma deserializeContent_of_not_known (h : ¬ KnownType type) :
    deserializeContent type = throw .nullPattern := by
  unfold KnownType at h
  push Not at h
  rw [deserializeContent, if_neg h.1, if_neg h.2.1, if_neg h.2.2]

lemma format_of_not_known (h : ¬ KnownType type) : format type = hazard := by
  unfold KnownType at h
  push Not at h
  rw [format, if_neg h.1, if_neg h.2.1, if_neg h.2.2]

end StripePatternContent

namespace StripePattern

open Deserializer Decoder

/-- The constructor of a pattern. -/
def create (chunkSize : BitVec 32) (storagePoolId : Option (BitVec 16))
    (content : StripePatternContent) : StripePattern where
  header :=
    { type := content.type
      chunkSize := if chunkSize = 0 then stripePatternDefaultChunkSize else chunkSize
      storagePoolId := storagePoolId.getD defaultPoolId
      hasPoolId := storagePoolId.isSome }
  content := content
  type_eq := rfl

variable (hasPoolId : Bool)

open StripePatternContent

/-- `StripePattern::deserialize`; the result is `none` for a null pointer. -/
def deserialize : DesM (Option StripePattern) := do
  let header ← StripePatternHeader.deserialize hasPoolId
  if !(← isGood) || header.chunkSize == 0 then do
    setBad
    return none
  else
    let poolId := if hasPoolId then some header.storagePoolId else none
    if header.type = StripePatternType.invalid.toWord then do
      setBad
      return none
    else do
      let content ← deserializeContent header.type
      if !(← isGood) then do
        setBad
        return none
      else
        return some (create header.chunkSize poolId content)

/-- The format of a pattern.  A type that is not known is a hazard. -/
def format : Grammar Byte StripePattern := do
  let header ← StripePatternHeader.format hasPoolId
  if header.chunkSize = 0 then
    .fail
  else
    let poolId := if hasPoolId then some header.storagePoolId else none
    if header.type = StripePatternType.invalid.toWord then
      .fail
    else do
      let content ← StripePatternContent.format header.type
      return create header.chunkSize poolId content

/-- Decoding gives a pattern and a good deserializer, or none and a bad one, or runs into a type
that is not known. -/
lemma refines_deserialize :
    Refines (deserialize hasPoolId) (format hasPoolId >>= fun pattern => pure (some pattern)) := by
  rw [format, bind_assoc]
  refine (StripePatternHeader.refines_deserialize hasPoolId).bind fun header => ?_
  have hnone : ∀ des : Deserializer, ∃ pattern des',
      (setBad >>= fun _ => pure none : DesM (Option StripePattern)) des = .ok (pattern, des') ∧
        Cursor.good des' = false := fun des => ⟨none, des.bad, rfl, rfl⟩
  by_cases hchunk : header.chunkSize = 0
  · rw [if_pos hchunk, fail_bind]
    refine Refines.fail fun des => ⟨none, des.bad, ?_, rfl⟩
    rw [bind_apply, isGood, hchunk]
    cases Cursor.good des with
    | true => rfl
    | false => rfl
  · have hcond : (header.chunkSize == 0) = false := beq_eq_false_iff_ne.mpr hchunk
    rw [if_neg hchunk, hcond]
    simp only [Bool.or_false]
    by_cases hinv : header.type = StripePatternType.invalid.toWord
    · rw [if_pos hinv, if_pos hinv, fail_bind]
      exact (Refines.fail hnone).exitIfBad fun des _ => hnone des
    · rw [if_neg hinv, if_neg hinv, bind_assoc]
      by_cases hknown : StripePatternContent.KnownType header.type
      · refine Refines.exitIfBad ?_ fun des _ => hnone des
        refine (refines_deserializeContent hknown).bind fun content => ?_
        rw [pure_bind]
        exact Refines.exitIfBad (Refines.pure _) fun des _ => hnone des
      · rw [format_of_not_known hknown, hazard_bind, deserializeContent_of_not_known hknown]
        refine Refines.hazard (fun des hgood => ⟨.nullPattern, ?_⟩) fun des hbad => ?_
        · rw [bind_apply, isGood, hgood]
          rfl
        · refine ⟨none, des.bad, ?_, rfl⟩
          rw [bind_apply, isGood, hbad]
          rfl

/-- A pattern is returned only if the deserializer is good. -/
lemma good_of_deserialize_eq_some {hasPoolId : Bool} {des des' : Deserializer}
    {pattern : StripePattern} (h : deserialize hasPoolId des = .ok (some pattern, des')) :
    des'.good = true := by
  have hnone : ∀ des : Deserializer, (setBad >>= fun _ => pure none : DesM (Option StripePattern))
      des ≠ .ok (some pattern, des') := fun des => nofun
  obtain ⟨_, _, -, h⟩ := bind_eq_ok_iff.mp h
  obtain ⟨_, des2, -, h⟩ := bind_eq_ok_iff.mp h
  dsimp only at h
  split at h
  next => exact absurd h (hnone des2)
  next =>
    split at h
    next => exact absurd h (hnone des2)
    next =>
      obtain ⟨_, des3, -, h⟩ := bind_eq_ok_iff.mp h
      obtain ⟨g, _, hg, h⟩ := bind_eq_ok_iff.mp h
      obtain ⟨rfl, rfl⟩ := Prod.mk.inj (Except.ok.inj hg)
      split at h
      next => exact absurd h (hnone des3)
      next hgood =>
        obtain ⟨-, rfl⟩ := Prod.mk.inj (Except.ok.inj h)
        rwa [Bool.not_eq_true', Bool.not_eq_false] at hgood

end StripePattern

end Beegfs
