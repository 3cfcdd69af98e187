import Beegfs.Storage.StatData
import Beegfs.Striping.ChunkOffset

/-!
# Chunk file lengths of an inode

When an inode is loaded, `FileInode::initFileInfoVec` computes the length of each chunk file from
the size of the file: every target has its part of the complete stripe sets, and the last stripe set
is dealt out in one pass over the targets, with a counter that runs below zero behind the target
that the end of the file lies on.
-/

namespace Beegfs

open MathTk List Nat

/-- `DynamicFileAttribs`. -/
structure DynamicFileAttribs where
  storageVersion : BitVec 64
  fileSize : BitVec 64
  numBlocks : BitVec 64
  modificationTimeSecs : BitVec 64
  lastAccessTimeSecs : BitVec 64
  deriving DecidableEq, Repr

/-- `ChunkFileInfo`. -/
structure ChunkFileInfo where
  dynAttribs : DynamicFileAttribs
  chunkSize : BitVec 32
  chunkSizeLog2 : BitVec 32
  numCompleteChunks : BitVec 64
  deriving DecidableEq, Repr

namespace ChunkFileInfo

/-- The constructor of `ChunkFileInfo`. -/
def init (chunkSize chunkSizeLog2 : BitVec 32) (dynAttribs : DynamicFileAttribs) :
    ChunkFileInfo where
  dynAttribs := dynAttribs
  chunkSize := chunkSize
  chunkSizeLog2 := chunkSizeLog2
  numCompleteChunks := dynAttribs.fileSize.sshiftRight chunkSizeLog2.toNat

def getFileSize (info : ChunkFileInfo) : BitVec 64 := info.dynAttribs.fileSize

end ChunkFileInfo

namespace FileInode

/-- A file size in stripe sets. -/
structure StripeSets where
  /-- Length of the incomplete stripe set at the end of the file. -/
  lastStripeSetSize : BitVec 64
  /-- Length of the complete stripe sets on each target. -/
  fullLengthPerTarget : BitVec 64
  deriving DecidableEq, Repr

variable (fileSize stripeSetSize numTargets : BitVec 64)

/-- Quick path of `initFileInfoVec`, without division and modulo. -/
def stripeSetsQuick : StripeSets :=
  let lastStripeSetSize := fileSize &&& (stripeSetSize - 1)
  let stripeSetStart := fileSize - lastStripeSetSize
  ⟨lastStripeSetSize, stripeSetStart.sshiftRight (log2Int32 (numTargets.setWidth 32)).toNat⟩

/-- Slow path of `initFileInfoVec`; division and modulo are unsigned ones. -/
def stripeSetsSlow : StripeSets :=
  let lastStripeSetSize := fileSize % stripeSetSize
  let stripeSetStart := fileSize - lastStripeSetSize
  ⟨lastStripeSetSize, stripeSetStart / numTargets⟩

/-- The size of a file in stripe sets, by the quick path if the number of targets allows it. -/
def stripeSets : StripeSets :=
  if isPowerOfTwo (numTargets.setWidth 32) then
    stripeSetsQuick fileSize stripeSetSize numTargets
  else stripeSetsSlow fileSize stripeSetSize numTargets

/-- Length of a chunk file, from what is left of the last stripe set for its target and the ones
behind it; the comparisons are signed ones. -/
def targetFileLength (fullLengthPerTarget remainingLastSetSize : BitVec 64)
    (chunkSize : BitVec 32) : BitVec 64 :=
  if (0 : BitVec 64).slt remainingLastSetSize then
    fullLengthPerTarget +
      if remainingLastSetSize.slt (chunkSize.setWidth 64) then remainingLastSetSize
      else chunkSize.setWidth 64
  else fullLengthPerTarget

/-- The entry of one target. -/
def initFileInfo (statData : StatData) (chunkSize chunkSizeLog2 target : BitVec 32)
    (targetFileLength : BitVec 64) : ChunkFileInfo :=
  let usedBlocks :=
    if statData.getIsSparseFile then statData.getTargetChunkBlocks target
    else targetFileLength.sshiftRight StatData.blockShift
  .init chunkSize chunkSizeLog2
    ⟨0, targetFileLength, usedBlocks, statData.settableFileAttribs.modificationTimeSecs,
      statData.settableFileAttribs.lastAccessTimeSecs⟩

/-- The loop of `initFileInfoVec` over the `numLeft` targets from `target` on. -/
def initFileInfoVecLoop (statData : StatData) (chunkSize chunkSizeLog2 : BitVec 32)
    (fullLengthPerTarget : BitVec 64) : ℕ → BitVec 32 → BitVec 64 → List ChunkFileInfo
  | 0, _, _ => []
  | numLeft + 1, target, remainingLastSetSize =>
    initFileInfo statData chunkSize chunkSizeLog2 target
        (targetFileLength fullLengthPerTarget remainingLastSetSize chunkSize) ::
      initFileInfoVecLoop statData chunkSize chunkSizeLog2 fullLengthPerTarget numLeft (target + 1)
        (remainingLastSetSize - chunkSize.setWidth 64)

/-- `FileInode::initFileInfoVec` of an inode whose vector is still empty. -/
def initFileInfoVec (pattern : StripePattern) (statData : StatData) : List ChunkFileInfo :=
  let numTargets := pattern.getNumStripeTargetIDs
  let chunkSize := pattern.getChunkSize
  let chunkSizeLog2 := log2Int32 chunkSize
  let stripeSetSize := chunkSize.setWidth 64 * numTargets
  let sets := stripeSets statData.fileSize stripeSetSize numTargets
  initFileInfoVecLoop statData chunkSize chunkSizeLog2 sets.fullLengthPerTarget numTargets.toNat 0
    sets.lastStripeSetSize

/-! ## The stripe sets in terms of numbers -/

section StripeSets

variable {fileSize numTargets : BitVec 64} {chunkSize : BitVec 32} {k : ℕ}

/-- The size of a stripe set does not wrap. -/
lemma toNat_stripeSetSize (chunkSize : BitVec 32) (hn : numTargets.toNat < 2 ^ 32) :
    (chunkSize.setWidth 64 * numTargets).toNat = chunkSize.toNat * numTargets.toNat := by
  have hsize : (chunkSize.setWidth 64).toNat = chunkSize.toNat :=
    BitVec.toNat_setWidth_of_le (by decide)
  have hlt : chunkSize.toNat * numTargets.toNat < 2 ^ 32 * 2 ^ 32 :=
    Nat.mul_lt_mul'' chunkSize.isLt hn
  rw [BitVec.toNat_mul_of_lt (by rw [hsize]; exact hlt), hsize]

variable {setSize : BitVec 64}

lemma toNat_sub_umod :
    (fileSize - fileSize % setSize).toNat = fileSize.toNat - fileSize.toNat % setSize.toNat := by
  rw [BitVec.toNat_sub_of_le, BitVec.toNat_umod]
  exact mod_le _ _

/-- The complete stripe sets on a target, by the slow path. -/
lemma toNat_fullLengthPerTarget_slow (fileSize : BitVec 64) (hn : 0 < numTargets.toNat)
    (hset : setSize.toNat = chunkSize.toNat * numTargets.toNat) :
    (stripeSetsSlow fileSize setSize numTargets).fullLengthPerTarget.toNat =
      chunkSize.toNat * (fileSize.toNat / setSize.toNat) := by
  have hsub : fileSize.toNat - fileSize.toNat % setSize.toNat =
      numTargets.toNat * (chunkSize.toNat * (fileSize.toNat / setSize.toNat)) := by
    have hdiv := mod_add_div fileSize.toNat setSize.toNat
    have hcomm : numTargets.toNat * (chunkSize.toNat * (fileSize.toNat / setSize.toNat)) =
        setSize.toNat * (fileSize.toNat / setSize.toNat) := by
      rw [hset, Nat.mul_comm chunkSize.toNat numTargets.toNat, Nat.mul_assoc]
    omega
  unfold stripeSetsSlow
  rw [BitVec.toNat_udiv, toNat_sub_umod, hsub, Nat.mul_div_cancel_left _ hn]

lemma fullLengthPerTarget_slow_le (fileSize setSize numTargets : BitVec 64) :
    (stripeSetsSlow fileSize setSize numTargets).fullLengthPerTarget.toNat ≤ fileSize.toNat := by
  unfold stripeSetsSlow
  rw [BitVec.toNat_udiv, toNat_sub_umod]
  exact (Nat.div_le_self _ _).trans (sub_le _ _)

/-- The incomplete stripe set is the value that the counter of the loop starts with. -/
lemma toInt_lastStripeSetSize_slow (hsize : fileSize.toNat < 2 ^ 63)
    (setSize numTargets : BitVec 64) (chunkSize : ℕ) :
    (stripeSetsSlow fileSize setSize numTargets).lastStripeSetSize.toInt =
      ((fileSize.toNat % setSize.toNat : ℕ) : ℤ) - (0 : ℕ) * chunkSize := by
  have hle := mod_le fileSize.toNat setSize.toNat
  unfold stripeSetsSlow
  rw [BitVec.toInt_eq_toNat_of_lt]
  · simp
  · rw [BitVec.toNat_umod]
    omega

variable (hk : chunkSize.toNat = 2 ^ k)

include hk

/-- The two paths agree where the quick one is taken. -/
lemma stripeSetsQuick_eq_slow (hn : 0 < numTargets.toNat)
    (hn' : numTargets.toNat < 2 ^ 32) (hsize : fileSize.toNat < 2 ^ 63)
    (hpow : isPowerOfTwo (numTargets.setWidth 32) = true) :
    stripeSetsQuick fileSize (chunkSize.setWidth 64 * numTargets) numTargets =
      stripeSetsSlow fileSize (chunkSize.setWidth 64 * numTargets) numTargets := by
  have hwidth := toNat_setWidth_numNodes hn'
  have hpos : 0 < (numTargets.setWidth 32).toNat := hwidth.symm ▸ hn
  -- a power of two many targets make the size of a stripe set a power of two
  obtain ⟨l, hl⟩ := (isPowerOfTwo_iff hpos).mp hpow
  have hset : (chunkSize.setWidth 64 * numTargets).toNat = 2 ^ (k + l) := by
    rw [toNat_stripeSetSize chunkSize hn', hk, ← hwidth, hl, Nat.pow_add]
  have hlast : fileSize &&& (chunkSize.setWidth 64 * numTargets - 1) =
      fileSize % (chunkSize.setWidth 64 * numTargets) := by
    have hmask := Word.toNat_and_sub_one le_rfl hset fileSize
    rw [BitVec.setWidth_eq] at hmask
    rw [← BitVec.toNat_inj, hmask, BitVec.toNat_umod]
  have hstart : (fileSize - fileSize % (chunkSize.setWidth 64 * numTargets)).msb = false := by
    refine Word.msb_eq_false_of_lt ?_
    rw [toNat_sub_umod]
    omega
  unfold stripeSetsQuick stripeSetsSlow
  rw [hlast, StripeSets.mk.injEq]
  refine ⟨rfl, ?_⟩
  rw [← BitVec.toNat_inj, toNat_sshiftRight_log2Int32 hpos hpow hstart, hwidth, BitVec.toNat_udiv]

/-- Whichever path is taken, the stripe sets are those of the slow one. -/
lemma stripeSets_eq_slow (hn : 0 < numTargets.toNat)
    (hn' : numTargets.toNat < 2 ^ 32) (hsize : fileSize.toNat < 2 ^ 63) :
    stripeSets fileSize (chunkSize.setWidth 64 * numTargets) numTargets =
      stripeSetsSlow fileSize (chunkSize.setWidth 64 * numTargets) numTargets := by
  unfold stripeSets
  split_ifs with hpow
  · exact stripeSetsQuick_eq_slow hk hn hn' hsize hpow
  · rfl

end StripeSets

/-! ## The pass over the targets -/

section Loop

variable {statData : StatData} {chunkSize chunkSizeLog2 target : BitVec 32}
  {full remaining : BitVec 64} {last j numLeft : ℕ}
  (hrem : remaining.toInt = (last : ℤ) - j * chunkSize.toNat)

include hrem

/-- The length of the chunk file of the `j`-th target, when the counter has been lowered by a chunk
for each target before it. -/
lemma toNat_targetFileLength (hfull : full.toNat < 2 ^ 63) :
    (targetFileLength full remaining chunkSize).toNat =
      full.toNat + min (last - j * chunkSize.toNat) chunkSize.toNat := by
  have hsize : (chunkSize.setWidth 64).toNat = chunkSize.toNat :=
    BitVec.toNat_setWidth_of_le (by decide)
  have hsizeInt : (chunkSize.setWidth 64).toInt = chunkSize.toNat := by
    rw [BitVec.toInt_eq_toNat_of_lt (by omega), hsize]
  have hnat : 0 < remaining.toInt → remaining.toNat = last - j * chunkSize.toNat := by
    intro hpos
    have hlt := BitVec.toInt_pos_iff.mp hpos.le
    rw [BitVec.toInt_eq_toNat_of_lt hlt] at hrem
    omega
  have hlt : full.toNat + chunkSize.toNat < 2 ^ 64 := by omega
  have hzero : (0 : BitVec 64).toInt = 0 := by decide
  unfold targetFileLength
  simp only [BitVec.slt, decide_eq_true_eq, hzero, hsizeInt]
  split_ifs with hpos hless
  · rw [BitVec.toNat_add_of_lt (by rw [hnat hpos]; omega)]
    omega
  · rw [BitVec.toNat_add_of_lt (by rw [hsize]; exact hlt)]
    omega
  · omega

/-- Lowering the counter by a chunk does not leave the range of an `int64_t`. -/
lemma toInt_sub_chunkSize (hbound : (j + 1) * chunkSize.toNat < 2 ^ 63) :
    (remaining - chunkSize.setWidth 64).toInt = (last : ℤ) - (j + 1 : ℕ) * chunkSize.toNat := by
  have hsizeInt : (chunkSize.setWidth 64).toInt = chunkSize.toNat := by
    have hsize : (chunkSize.setWidth 64).toNat = chunkSize.toNat :=
      BitVec.toNat_setWidth_of_le (by decide)
    rw [BitVec.toInt_eq_toNat_of_lt (by omega), hsize]
  have hle := BitVec.toInt_lt (x := remaining)
  have hstep : ((j + 1 : ℕ) : ℤ) * chunkSize.toNat = j * chunkSize.toNat + chunkSize.toNat := by
    rw [cast_add, cast_one, add_mul, one_mul]
  rw [BitVec.toInt_sub, hrem, Int.bmod_eq_of_le (by omega) (by omega)]
  omega

/-- The lengths that the pass over the targets computes. -/
lemma map_getFileSize_initFileInfoVecLoop (hfull : full.toNat < 2 ^ 63)
    (hbound : (j + numLeft) * chunkSize.toNat < 2 ^ 63) :
    (initFileInfoVecLoop statData chunkSize chunkSizeLog2 full numLeft target remaining).map
        (fun info => info.getFileSize.toNat) = (List.range' j numLeft).map fun i =>
        full.toNat + min (last - i * chunkSize.toNat) chunkSize.toNat := by
  induction numLeft generalizing j target remaining with
  | zero => rfl
  | succ numLeft ih =>
    have hlen := toNat_targetFileLength hrem hfull
    have hnext : (j + 1) * chunkSize.toNat < 2 ^ 63 :=
      lt_of_le_of_lt (Nat.mul_le_mul_right _ (by omega)) hbound
    have hbound' : (j + 1 + numLeft) * chunkSize.toNat < 2 ^ 63 := by
      rw [Nat.add_assoc, Nat.add_comm 1 numLeft]
      exact hbound
    rw [initFileInfoVecLoop, map_cons, List.range'_succ, map_cons,
      ih (toInt_sub_chunkSize hrem hnext) hbound', ← hlen]
    rfl

end Loop

/-- The vector has one entry for each target, with the length that is the target's part of the
complete stripe sets and of the last one. -/
lemma map_getFileSize_initFileInfoVec {pattern : StripePattern} {statData : StatData} {k : ℕ}
    (hk : pattern.getChunkSize.toNat = 2 ^ k) (hn : 0 < pattern.getStripeTargetIDs.length)
    (hn' : pattern.getStripeTargetIDs.length < 2 ^ 32) (hsize : statData.fileSize.toNat < 2 ^ 63) :
    (initFileInfoVec pattern statData).map (fun info => info.getFileSize.toNat) =
      (List.range pattern.getStripeTargetIDs.length).map fun i =>
        RoundRobin.share pattern.getChunkSize.toNat pattern.getStripeTargetIDs.length i
          statData.fileSize.toNat := by
  have hnum := pattern.toNat_getNumStripeTargetIDs hn'
  have hpos : 0 < pattern.getNumStripeTargetIDs.toNat := hnum.symm ▸ hn
  have hlt : pattern.getNumStripeTargetIDs.toNat < 2 ^ 32 := hnum.symm ▸ hn'
  have hset := toNat_stripeSetSize pattern.getChunkSize hlt
  have hfull := toNat_fullLengthPerTarget_slow statData.fileSize hpos hset
  have hfullLt := lt_of_le_of_lt (fullLengthPerTarget_slow_le statData.fileSize
    (pattern.getChunkSize.setWidth 64 * pattern.getNumStripeTargetIDs)
    pattern.getNumStripeTargetIDs) hsize
  have hlast := toInt_lastStripeSetSize_slow hsize
    (pattern.getChunkSize.setWidth 64 * pattern.getNumStripeTargetIDs)
    pattern.getNumStripeTargetIDs pattern.getChunkSize.toNat
  have hbound : (0 + pattern.getNumStripeTargetIDs.toNat) * pattern.getChunkSize.toNat <
    2 ^ 63 := by
    rw [Nat.zero_add, Nat.mul_comm]
    have hsmall : pattern.getChunkSize.toNat ≤ 2 ^ 31 := by
      have hk' : 2 ^ k < 2 ^ 32 := hk ▸ pattern.getChunkSize.isLt
      rw [hk]
      exact Nat.pow_le_pow_right (by decide)
        (le_of_lt_succ ((Nat.pow_lt_pow_iff_right (by decide)).mp hk'))
    calc pattern.getChunkSize.toNat * pattern.getNumStripeTargetIDs.toNat
        ≤ 2 ^ 31 * pattern.getNumStripeTargetIDs.toNat := Nat.mul_le_mul_right _ hsmall
      _ < 2 ^ 31 * 2 ^ 32 := Nat.mul_lt_mul_of_pos_left hlt (by decide)
  unfold initFileInfoVec
  dsimp only
  rw [stripeSets_eq_slow hk hpos hlt hsize,
    map_getFileSize_initFileInfoVecLoop hlast hfullLt hbound, hfull, hset, hnum,
    ← range_eq_range']
  refine map_congr_left fun i hi => ?_
  rw [RoundRobin.share_eq_add_min (hk ▸ Nat.two_pow_pos k) (mem_range.mp hi)]

end FileInode

end Beegfs
