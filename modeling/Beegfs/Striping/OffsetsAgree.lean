import Beegfs.Striping.FileInfoVec

/-!
# The places that map file offsets to chunk files agree

The bytes below a position that are stored on a target are counted by `storedBelow`, with the
target index that the stripe pattern gives to each offset.  The client's chunk offset, the server's
chunk offset, the lengths that a truncation sets and the lengths that an inode is loaded with are
all this count.
-/

namespace Beegfs

open RoundRobin MsgHelperTrunc FileInode FhgfsOpsRemoting BitVec Finset Nat

namespace StripePattern

variable {pattern : StripePattern} {pos : BitVec 64} {k : ℕ}

/-- The number of offsets below `pos` whose byte is stored on target `i`. -/
def storedBelow (pattern : StripePattern) (pos : BitVec 64) (i : ℕ) : ℕ :=
  ((Finset.range pos.toNat).filter fun p =>
    (pattern.getStripeTargetIndex (BitVec.ofNat 64 p)).toNat = i).card

/-- The chunks go to the targets in turn. -/
lemma storedBelow_eq_share (hn : pattern.getStripeTargetIDs.length < 2 ^ 32)
    (hpos : pos.toNat < 2 ^ 63) (i : ℕ) :
    pattern.storedBelow pos i =
      share pattern.getChunkSize.toNat pattern.getStripeTargetIDs.length i pos.toNat := by
  unfold storedBelow share members
  congr 1
  refine filter_congr fun p hp => ?_
  have hlt := mem_range.mp hp
  have hp' : (BitVec.ofNat 64 p).toNat = p := by
    rw [toNat_ofNat, mod_eq_of_lt (by omega)]
  rw [pattern.toNat_getStripeTargetIndex hn (by omega), hp']

end StripePattern

/-! ## Truncation -/

section Truncate

variable {pattern : StripePattern} {pos : BitVec 64} {k : ℕ}
  (hk : pattern.getChunkSize.toNat = 2 ^ k) (hn' : pattern.getStripeTargetIDs.length < 2 ^ 32)

include hk hn'

/-- The server's offset of a position, for the chunk size and the targets of a pattern. -/
lemma toNat_getNodeLocalOffset_of_pattern {idx : BitVec 64}
    (hn : 0 < pattern.getStripeTargetIDs.length) (hidx : idx.toNat =
      pos.toNat / pattern.getChunkSize.toNat % pattern.getStripeTargetIDs.length) :
    (getNodeLocalOffset pos (pattern.getChunkSize.setWidth 64)
        pattern.getNumStripeTargetIDs idx).toNat = pattern.getChunkSize.toNat *
          (pos.toNat / pattern.getChunkSize.toNat / pattern.getStripeTargetIDs.length) +
        pos.toNat % pattern.getChunkSize.toNat := by
  have hnum := pattern.toNat_getNumStripeTargetIDs hn'
  have hsize := pattern.toNat_setWidth_getChunkSize
  have hidx' : idx.toNat = pos.toNat / (pattern.getChunkSize.setWidth 64).toNat %
      pattern.getNumStripeTargetIDs.toNat := by
    rw [hnum]
    exact hidx
  rw [toNat_getNodeLocalOffset (hsize.trans hk) (hnum.symm ▸ hn) hidx', hsize, hnum]

variable {i : BitVec 64} (hpos : pos.toNat < 2 ^ 63)
  (hi : i.toNat < pattern.getStripeTargetIDs.length)

include hpos hi

/-- The length that a truncation gives to the chunk file of a target. -/
lemma toNat_getNodeLocalTruncPos :
    (getNodeLocalTruncPos pos pattern i).toNat =
      share pattern.getChunkSize.toNat pattern.getStripeTargetIDs.length i.toNat
        pos.toNat := by
  have hoff := toNat_getNodeLocalOffset_of_pattern hk hn' (zero_lt_of_lt hi)
    (pattern.toNat_getStripeTargetIndex hn' hpos)
  have hc : 0 < pattern.getChunkSize.toNat := hk ▸ Nat.two_pow_pos k
  have hmain := pattern.toNat_getStripeTargetIndex hn' hpos
  have hsize := pattern.toNat_setWidth_getChunkSize
  have hshare := share_eq (p := pos.toNat) hc hi
  have hle : share pattern.getChunkSize.toNat pattern.getStripeTargetIDs.length i.toNat
      pos.toNat ≤ pos.toNat := share_le
  unfold getNodeLocalTruncPos
  dsimp only
  generalize getNodeLocalOffset pos _ _ _ = off at hoff ⊢
  have hstart : (pattern.getChunkStart off).toNat = pattern.getChunkSize.toNat *
      (pos.toNat / pattern.getChunkSize.toNat / pattern.getStripeTargetIDs.length) := by
    rw [pattern.toNat_getChunkStart hk, hoff, mul_add_mod, mod_mod, Nat.add_sub_cancel]
  -- A target before that of `pos` has a whole chunk of the last stripe set, the target of `pos` has
  -- the part up to `pos`, and one behind it has nothing of the last stripe set.
  have htrunc : (if i < pattern.getStripeTargetIndex pos then pattern.getNextChunkStart off
      else if i = pattern.getStripeTargetIndex pos then off else pattern.getChunkStart off).toNat =
      share pattern.getChunkSize.toNat pattern.getStripeTargetIDs.length i.toNat pos.toNat := by
    unfold rowShare at hshare
    rw [← hmain] at hshare
    split_ifs with hlt heq
    · rw [if_pos (lt_def.mp hlt)] at hshare
      rw [StripePattern.getNextChunkStart, toNat_add_of_lt (by omega), hstart, hsize, hshare]
    · rw [heq, if_neg (lt_irrefl _), if_pos rfl] at hshare
      rw [heq, hoff, hshare]
    · rw [if_neg (fun h => hlt (lt_def.mpr h)),
        if_neg (fun h => heq (toNat_inj.mp h)), Nat.add_zero] at hshare
      rw [hstart, hshare]
  rw [if_neg, htrunc]
  -- the length is no negative number, so the maximum with zero is the length
  rw [Word.slt_iff_toNat_lt (Word.msb_eq_false_of_lt (by omega)) (by decide)]
  exact Nat.not_lt_zero _

end Truncate

/-! ## Agreement -/

/-- All places that map file offsets to chunk files agree for a pattern and a file of `pos` bytes,
or a position `pos` in a file. -/
structure OffsetsAgree (pattern : StripePattern) (pos : BitVec 64) : Prop where
  /-- Client and server compute the same offset in the chunk file that `pos` lies in. -/
  client_eq_server : ∀ idx : BitVec 64,
    idx.toNat = pos.toNat / pattern.getChunkSize.toNat % pattern.getStripeTargetIDs.length →
      getChunkOffset pos pattern.getChunkSize pattern.getNumStripeTargetIDs idx =
        getNodeLocalOffset pos (pattern.getChunkSize.setWidth 64)
          pattern.getNumStripeTargetIDs idx
  /-- This offset is the number of bytes below `pos` that are stored there. -/
  offset_eq : ∀ idx : BitVec 64,
    idx.toNat = pos.toNat / pattern.getChunkSize.toNat % pattern.getStripeTargetIDs.length →
      (getNodeLocalOffset pos (pattern.getChunkSize.setWidth 64)
        pattern.getNumStripeTargetIDs idx).toNat = pattern.storedBelow pos idx.toNat
  /-- A truncation to `pos` gives each chunk file the number of bytes below `pos` stored on it. -/
  truncPos_eq : ∀ i : BitVec 64, i.toNat < pattern.getStripeTargetIDs.length →
    (getNodeLocalTruncPos pos pattern i).toNat = pattern.storedBelow pos i.toNat
  /-- An inode of size `pos` is loaded with these lengths. -/
  fileInfoVec_eq : ∀ statData : StatData, statData.fileSize = pos →
    (initFileInfoVec pattern statData).map (fun info => info.getFileSize.toNat) =
      (List.range pattern.getStripeTargetIDs.length).map (pattern.storedBelow pos)
  /-- The client's quick path and its division path agree. -/
  divNumNodes_eq : MathTk.isPowerOfTwo (pattern.getNumStripeTargetIDs.setWidth 32) = true →
    ∀ x : BitVec 64, x.toNat < 2 ^ 63 → divNumNodesQuick x pattern.getNumStripeTargetIDs =
        divNumNodesSlow x pattern.getNumStripeTargetIDs
  /-- The inode's quick path and its division path agree. -/
  stripeSets_eq : MathTk.isPowerOfTwo (pattern.getNumStripeTargetIDs.setWidth 32) = true →
    stripeSetsQuick pos (pattern.getChunkSize.setWidth 64 * pattern.getNumStripeTargetIDs)
        pattern.getNumStripeTargetIDs = stripeSetsSlow pos
        (pattern.getChunkSize.setWidth 64 * pattern.getNumStripeTargetIDs)
        pattern.getNumStripeTargetIDs
  /-- The lengths of the chunk files sum up to `pos`. -/
  sum_eq : ∑ i ∈ Finset.range pattern.getStripeTargetIDs.length, pattern.storedBelow pos i =
    pos.toNat

/-- For chunks of a power of two bytes, at least one target, and positions that an `int64_t` holds,
all places that map file offsets to chunk files agree. -/
theorem offsets_agree (pattern : StripePattern) (pos : BitVec 64)
    (hk : ∃ k, pattern.getChunkSize.toNat = 2 ^ k) (hn : 0 < pattern.getStripeTargetIDs.length)
    (hn' : pattern.getStripeTargetIDs.length < 2 ^ 32) (hpos : pos.toNat < 2 ^ 63) :
    OffsetsAgree pattern pos := by
  obtain ⟨k, hk⟩ := hk
  have hnum := pattern.toNat_getNumStripeTargetIDs hn'
  have hnum0 : 0 < pattern.getNumStripeTargetIDs.toNat := hnum.symm ▸ hn
  have hnum1 : pattern.getNumStripeTargetIDs.toNat < 2 ^ 32 := hnum.symm ▸ hn'
  have hsto := StripePattern.storedBelow_eq_share hn' hpos
  have hc : 0 < pattern.getChunkSize.toNat := hk ▸ Nat.two_pow_pos k
  refine ⟨?_, ?_, ?_, ?_, ?_, ?_, ?_⟩
  · intro idx hidx
    exact getChunkOffset_eq_getNodeLocalOffset hk hnum0 hnum1 hpos (hnum.symm ▸ hidx)
  · intro idx hidx
    have hi : idx.toNat < pattern.getStripeTargetIDs.length := hidx ▸ mod_lt _ hn
    rw [toNat_getNodeLocalOffset_of_pattern hk hn' hn hidx, hsto, share_eq hc hi, hidx]
    simp [rowShare]
  · intro i hi
    rw [toNat_getNodeLocalTruncPos hk hn' hpos hi, hsto]
  · rintro _ rfl
    rw [map_getFileSize_initFileInfoVec hk hn hn' hpos]
    exact List.map_congr_left fun i _ => (hsto i).symm
  · intro hpow x hx
    exact divNumNodesQuick_eq_slow hnum0 hnum1 hpow hx
  · intro hpow
    exact stripeSetsQuick_eq_slow hk hnum0 hnum1 hpos hpow
  · rw [sum_congr rfl fun i _ => hsto i]
    exact sum_share hn

/-- A file of 200000 bytes in chunks of 64 KiB on three targets: the fourth chunk is on the first
target again. -/
theorem offsets_agree_three_targets :
    let pattern : StripePattern := ⟨⟨.raid0, 65536, 1, true⟩, .raid0 [11, 12, 13] 4, rfl⟩
    OffsetsAgree pattern 200000 ∧ (getNodeLocalTruncPos 200000 pattern 0).toNat = 68928 :=
  ⟨offsets_agree ⟨⟨.raid0, 65536, 1, true⟩, .raid0 [11, 12, 13] 4, rfl⟩ 200000 ⟨16, rfl⟩
    (by decide) (by decide) (by decide), by decide⟩

end Beegfs
