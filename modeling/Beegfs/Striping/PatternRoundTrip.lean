import Beegfs.Striping.PatternSerialization

/-!
# Stripe patterns survive being sent

A pattern that is serialized and then deserialized by a receiver that expects a storage pool comes
back with the same type, chunk size and targets, and all of its bytes are read.  The storage pool
comes back only if it was serialized: if it was left out, the pattern that is received is in the
invalid pool, and not in the default one.
-/

namespace Beegfs.StripePattern

open Bytes Grammar StripePatternType List

open Deserializer Decoder

variable {pattern : StripePattern}

/-! ## The bytes of a pattern in the format -/

/-- The pattern that is received. -/
def received (pattern : StripePattern) : StripePattern :=
  create pattern.getChunkSize
    (some (if pattern.header.hasPoolId then pattern.getStoragePoolId else invalidPoolId))
    pattern.content

variable (header : StripePatternHeader)

lemma typeWithFlags_and_not_flag :
    header.typeWithFlags &&& ~~~ StripePatternHeader.hasNoPoolFlag = header.type.toWord := by
  unfold StripePatternHeader.typeWithFlags
  cases header.type <;> cases header.hasPoolId <;> rfl

lemma typeWithFlags_and_flag :
    (header.typeWithFlags &&& StripePatternHeader.hasNoPoolFlag == 0) = header.hasPoolId := by
  unfold StripePatternHeader.typeWithFlags
  cases header.type <;> cases header.hasPoolId <;> rfl

lemma header_accepts (length : BitVec 32) : (StripePatternHeader.format true).accepts
      { type := header.type.toWord
        chunkSize := header.chunkSize
        storagePoolId := if header.hasPoolId then header.storagePoolId else invalidPoolId }
      (wordBytes length ++ header.bytes) := by
  refine accepts_bind rfl (accepts_bind rfl (accepts_bind rfl ?_))
  rw [typeWithFlags_and_not_flag, typeWithFlags_and_flag]
  cases header.hasPoolId with
  | true => exact accepts_map (G := word 16) _ rfl
  | false => exact ⟨rfl, rfl⟩

lemma content_accepts (content : StripePatternContent) :
    (StripePatternContent.format content.type.toWord).accepts content content.bytes := by
  cases content with
  | raid0 ids n => exact accepts_bind rfl (accepts_map (G := collection 16) _ rfl)
  | raid10 ids mirrorIDs n =>
    exact accepts_bind rfl (accepts_bind rfl (accepts_map (G := collection 16) _ rfl))
  | buddyMirror ids n =>
    exact accepts_bind rfl (accepts_map (G := collection 16) _ rfl)

lemma type_ne_invalid (content : StripePatternContent) : content.type.toWord ≠ invalid.toWord := by
  cases content with
  | raid0 => show raid0.toWord ≠ _; decide
  | raid10 => show raid10.toWord ≠ _; decide
  | buddyMirror => show buddyMirror.toWord ≠ _; decide

lemma format_accepts (hchunk : pattern.getChunkSize ≠ 0) (length : BitVec 32) :
    (format true).accepts pattern.received (pattern.bytes length) := by
  have hchk' : pattern.header.chunkSize ≠ 0 := hchunk
  rw [bytes, ← append_assoc]
  refine accepts_bind (header_accepts pattern.header length) ?_
  rw [pattern.type_eq, if_neg hchk', if_neg (type_ne_invalid pattern.content)]
  exact accepts_map _ (content_accepts pattern.content)

/-- A pattern without a storage pool is also in the format of older versions. -/
lemma format_accepts_of_not_hasPoolId (hpool : pattern.header.hasPoolId = false)
    (hchunk : pattern.getChunkSize ≠ 0) (length : BitVec 32) :
    (format false).accepts (create pattern.getChunkSize none pattern.content)
      (pattern.bytes length) := by
  have hhdr : (StripePatternHeader.format false).accepts
      ⟨pattern.header.type.toWord, pattern.header.chunkSize, defaultPoolId⟩
      (wordBytes length ++ pattern.header.bytes) := by
    refine accepts_bind rfl (accepts_bind rfl (accepts_bind rfl ?_))
    rw [typeWithFlags_and_not_flag, hpool]
    exact ⟨rfl, rfl⟩
  have hchk' : pattern.header.chunkSize ≠ 0 := hchunk
  rw [bytes, ← append_assoc]
  refine accepts_bind hhdr ?_
  rw [pattern.type_eq, if_neg hchk', if_neg (type_ne_invalid pattern.content)]
  exact accepts_map _ (content_accepts pattern.content)

/-! ## Sending a pattern -/

/-- Whatever buffer a pattern is serialized to, if it fits, then `decoded` is what a receiver reads
from the buffer, and what it reads is exactly what was written. -/
def ReceivedAs (pattern decoded : StripePattern) : Prop :=
  ∀ (mem : ℕ → Byte) (size offset n : BitVec 32),
    let ser := pattern.serialize { buffer := mem, bufferSize := size, bufferOffset := offset }
    ser.good = true → ser.bufferOffset ≤ n →
      ∃ mem', ser.buffer = some mem' ∧
        deserialize true (ofMemory mem' n offset) =
          .ok (some decoded, ofMemory mem' n ser.bufferOffset)

lemma receivedAs_received (hchunk : pattern.getChunkSize ≠ 0) :
    ReceivedAs pattern pattern.received := by
  intro mem size offset n ser hgood hn
  have hbytes := appends_serialize pattern
  generalize BitVec.ofNat 32 (pattern.bytes 0).length = length at hbytes
  have hne : pattern.bytes length ≠ [] := by
    rw [bytes, ← length_pos_iff, length_append, length_wordBytes]
    omega
  exact hbytes.read (refines_deserialize true)
    (accepts_map some (format_accepts hchunk length)) hne hgood hn

lemma ReceivedAs.unique {decoded1 decoded2 : StripePattern} {ser : Serializer}
    (h1 : ReceivedAs pattern decoded1) (h2 : ReceivedAs pattern decoded2)
    (hbuffer : ser.buffer ≠ none) (hgood : (pattern.serialize ser).good = true) :
    decoded1 = decoded2 := by
  obtain ⟨buffer, size, offset⟩ := ser
  obtain ⟨mem, rfl⟩ := Option.ne_none_iff_exists'.mp hbuffer
  obtain ⟨mem1, hmem1, hdes1⟩ := h1 mem size offset _ hgood (BitVec.le_refl _)
  obtain ⟨mem2, hmem2, hdes2⟩ := h2 mem size offset _ hgood (BitVec.le_refl _)
  obtain rfl : mem1 = mem2 := Option.some.inj (hmem1.symm.trans hmem2)
  rw [hdes1, Except.ok.injEq, Prod.mk.injEq] at hdes2
  exact Option.some.inj hdes2.1

/-! ## The round trip -/

/-- What a receiver should get: the same pattern, where a pattern without a storage pool is in the
default pool.  If the received pattern is sent again, it is received unchanged. -/
structure RoundTrip (pattern decoded : StripePattern) : Prop where
  receivedAs : ReceivedAs pattern decoded
  type_eq : decoded.getPatternType = pattern.getPatternType
  chunkSize_eq : decoded.getChunkSize = pattern.getChunkSize
  stripeTargetIDs_eq : decoded.getStripeTargetIDs = pattern.getStripeTargetIDs
  mirrorTargetIDs_eq : decoded.getMirrorTargetIDs = pattern.getMirrorTargetIDs
  defaultNumTargets_eq : decoded.getDefaultNumTargets = pattern.getDefaultNumTargets
  storagePoolId_eq : decoded.getStoragePoolId =
    if pattern.header.hasPoolId then pattern.getStoragePoolId else defaultPoolId
  again : ReceivedAs decoded decoded

lemma getChunkSize_received (hchunk : pattern.getChunkSize ≠ 0) :
    pattern.received.getChunkSize = pattern.getChunkSize := if_neg hchunk

lemma received_received (hchunk : pattern.getChunkSize ≠ 0) :
    pattern.received.received = pattern.received := by
  have h := getChunkSize_received hchunk
  show create pattern.received.getChunkSize _ _ = create pattern.getChunkSize _ _
  rw [h]
  rfl

/-- A pattern makes the round trip exactly if its storage pool is serialized. -/
theorem roundTrip_iff_hasPoolId (pattern : StripePattern) (hchunk : pattern.getChunkSize ≠ 0)
    (ser : Serializer) (hbuffer : ser.buffer ≠ none)
    (hgood : (pattern.serialize ser).good = true) :
    (∃ decoded, RoundTrip pattern decoded) ↔ pattern.header.hasPoolId = true := by
  have hrecv := receivedAs_received hchunk
  constructor
  · rintro ⟨decoded, h⟩
    obtain rfl := h.receivedAs.unique hrecv hbuffer hgood
    by_contra hpool
    have hid := h.storagePoolId_eq
    have hinv : pattern.received.getStoragePoolId = invalidPoolId := if_neg hpool
    rw [if_neg hpool, hinv] at hid
    nomatch hid
  · intro hpool
    have hchk' := getChunkSize_received hchunk
    refine ⟨pattern.received, hrecv, pattern.type_eq.symm, hchk', rfl, rfl, rfl, ?_, ?_⟩
    · have hid : pattern.received.getStoragePoolId = pattern.getStoragePoolId := if_pos hpool
      rw [if_pos hpool, hid]
    · have hagain := receivedAs_received (hchk'.trans_ne hchunk)
      rwa [received_received hchunk] at hagain

/-- Three mirrored buddy groups of the storage pool 7. -/
def threeGroups : StripePattern := create 0x80000 (some 7) (.buddyMirror [1, 2, 3] 4)

theorem roundTrip_threeGroups : ∃ decoded, RoundTrip threeGroups decoded :=
  (roundTrip_iff_hasPoolId threeGroups (by decide)
    { buffer := some fun _ => 0, bufferSize := 100, bufferOffset := 0 }
    nofun (by decide)).mpr rfl

/-- Two targets of an inode without a storage pool. -/
def twoTargets : StripePattern := create 0x80000 none (.raid0 [1, 2] 4)

/-- The pattern without a storage pool is in the default pool, but is received in the invalid
one. -/
theorem twoTargets_received_in_invalid_pool :
    twoTargets.getStoragePoolId = defaultPoolId ∧
      (let ser := twoTargets.serialize
        { buffer := some fun _ => 0, bufferSize := 100, bufferOffset := 0 }
      ser.good = true ∧ ser.buffer.map (fun mem =>
          (deserialize true (ofMemory mem ser.bufferOffset 0)).toOption.map
            fun r => r.1.map getStoragePoolId) =
        some (some (some invalidPoolId))) := by
  decide

end Beegfs.StripePattern
