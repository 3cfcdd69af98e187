import Beegfs.Lib.RoundRobin
import Beegfs.Striping.StripePattern

/-!
# Offsets in chunk files

The bytes of a file that are stored on one target are the target's chunk file, in the order that
they have in the file.  The client computes the chunk file offset of a file position when it reads
and writes; the metadata server computes it when it truncates.  Both are modelled here on words, and
for the target that the position lies on both are `c * (pos / c / n) + pos % c`, for `n` targets
and chunks of `c` bytes.
-/

namespace Beegfs

open Word BitVec Nat

/-! ## Powers of two -/

namespace MathTk

/-- `MathTk::isPowerOfTwo`; the value must not be zero. -/
def isPowerOfTwo (value : BitVec 32) : Bool := value &&& (value - 1) == 0

/-- `MathTk::log2Int32`, the width of the word minus one minus the number of leading zero bits. -/
def log2Int32 (value : BitVec 32) : BitVec 32 := 31 - value.clz

lemma isPowerOfTwo_iff {value : BitVec 32} (h : 0 < value.toNat) :
    isPowerOfTwo value = true ↔ ∃ k, value.toNat = 2 ^ k := by
  rw [isPowerOfTwo, beq_iff_eq, ← toNat_inj, toNat_and, toNat_sub_one h]
  exact and_sub_one_eq_zero_iff_isPowerOfTwo h.ne'

/-- Shifting by the logarithm is dividing. -/
lemma toNat_sshiftRight_log2Int32 {value : BitVec 32} (h : 0 < value.toNat)
    (hpow : isPowerOfTwo value = true) {x : BitVec 64} (hx : x.msb = false) :
    (x.sshiftRight (log2Int32 value).toNat).toNat = x.toNat / value.toNat := by
  obtain ⟨k, hk⟩ := (isPowerOfTwo_iff h).mp hpow
  rw [log2Int32, toNat_thirty_one_sub_clz hk, toNat_sshiftRight_of_msb_false hx,
    shiftRight_eq_div_pow, hk]

end MathTk

/-! ## The client -/

namespace FhgfsOpsRemoting

/-- Division by the number of targets, quick path: bit shifting. -/
def divNumNodesQuick (stripeSetStart numNodes : BitVec 64) : BitVec 64 :=
  stripeSetStart.sshiftRight (MathTk.log2Int32 (numNodes.setWidth 32)).toNat

/-- Division by the number of targets, slow path: `do_div` with an `unsigned` base. -/
def divNumNodesSlow (stripeSetStart numNodes : BitVec 64) : BitVec 64 :=
  stripeSetStart / (numNodes.setWidth 32).setWidth 64

/-- `__FhgfsOpsRemoting_getChunkOffset`. -/
def getChunkOffset (pos : BitVec 64) (chunkSize : BitVec 32)
    (numNodes stripeNodeIndex : BitVec 64) : BitVec 64 :=
  let posModChunkSize := pos &&& (chunkSize - 1).setWidth 64
  let stripeSetStart := pos - posModChunkSize - stripeNodeIndex * chunkSize.setWidth 64
  let stripeSetStartDivNumNodes :=
    if MathTk.isPowerOfTwo (numNodes.setWidth 32) then divNumNodesQuick stripeSetStart numNodes
    else divNumNodesSlow stripeSetStart numNodes
  stripeSetStartDivNumNodes + posModChunkSize

end FhgfsOpsRemoting

/-! ## The metadata server -/

namespace MsgHelperTrunc

/-- `MsgHelperTrunc::getNodeLocalOffset`; the division by a `size_t` is an unsigned one. -/
def getNodeLocalOffset (pos chunkSize numNodes stripeNodeIndex : BitVec 64) : BitVec 64 :=
  let posModChunkSize := pos &&& (chunkSize - 1)
  let chunkStart := pos - posModChunkSize - stripeNodeIndex * chunkSize
  chunkStart / numNodes + posModChunkSize

/-- `MsgHelperTrunc::getNodeLocalTruncPos`: the length of the chunk file of a target when the file
is cut at `pos`. -/
def getNodeLocalTruncPos (pos : BitVec 64) (pattern : StripePattern)
    (stripeNodeIndex : BitVec 64) : BitVec 64 :=
  let numTargets := pattern.getNumStripeTargetIDs
  let mainNodeIndex := pattern.getStripeTargetIndex pos
  let mainNodeLocalOffset :=
    getNodeLocalOffset pos (pattern.getChunkSize.setWidth 64) numTargets mainNodeIndex
  let truncPos :=
    if stripeNodeIndex < mainNodeIndex then pattern.getNextChunkStart mainNodeLocalOffset
    else if stripeNodeIndex = mainNodeIndex then mainNodeLocalOffset
    else pattern.getChunkStart mainNodeLocalOffset
  if truncPos.slt 0 then 0 else truncPos

end MsgHelperTrunc

/-! ## The offsets in terms of numbers -/

section Offsets

variable {pos idx : BitVec 64} {n k : ℕ}

/-- The start of the stripe set that a position lies in, from the remainder and the index of its
chunk: nothing wraps, because the index is the one of the position. -/
lemma toNat_stripeSetStart {size posMod : BitVec 64} (hmod : posMod.toNat = pos.toNat % size.toNat)
    (hidx : idx.toNat = pos.toNat / size.toNat % n) :
    (pos - posMod - idx * size).toNat = size.toNat * (n * (pos.toNat / size.toNat / n)) := by
  have hle : idx.toNat * size.toNat ≤ pos.toNat - pos.toNat % size.toNat := by
    calc idx.toNat * size.toNat
        ≤ pos.toNat / size.toNat * size.toNat := by
          rw [hidx]
          exact Nat.mul_le_mul_right _ (mod_le _ _)
      _ = pos.toNat - pos.toNat % size.toNat := by
          have := mod_add_div' pos.toNat size.toNat
          omega
  have hmul : (idx * size).toNat = idx.toNat * size.toNat := toNat_mul_of_lt (by omega)
  have hsub : (pos - posMod).toNat = pos.toNat - pos.toNat % size.toNat := by
    rw [toNat_sub_of_le, hmod]
    rw [le_def, hmod]
    exact mod_le _ _
  have hle' : idx * size ≤ pos - posMod := by
    rw [le_def, hmul, hsub]
    exact hle
  rw [toNat_sub_of_le hle', hmul, hsub, hidx, RoundRobin.sub_mod_sub_mul]

/-- The offset that a quotient and a remainder make up stays below the position. -/
lemma offset_le (c n p : ℕ) : c * (p / c / n) + p % c ≤ p := by
  have hle : c * (p / c / n) ≤ c * (p / c) := Nat.mul_le_mul_left c (Nat.div_le_self _ _)
  have := mod_add_div p c
  omega

variable {numNodes : BitVec 64}

lemma toNat_setWidth_numNodes (hn : numNodes.toNat < 2 ^ 32) :
    (numNodes.setWidth 32).toNat = numNodes.toNat := by
  rw [toNat_setWidth, mod_eq_of_lt hn]

namespace FhgfsOpsRemoting

lemma toNat_divNumNodesSlow (hn : numNodes.toNat < 2 ^ 32) (x : BitVec 64) :
    (divNumNodesSlow x numNodes).toNat = x.toNat / numNodes.toNat := by
  rw [divNumNodesSlow, toNat_udiv, toNat_setWidth_of_le (by decide), toNat_setWidth_numNodes hn]

/-- The two paths of the division agree where the quick one is taken. -/
lemma divNumNodesQuick_eq_slow (hpos : 0 < numNodes.toNat) (hn : numNodes.toNat < 2 ^ 32)
    (hpow : MathTk.isPowerOfTwo (numNodes.setWidth 32) = true) {x : BitVec 64}
    (hx : x.toNat < 2 ^ 63) : divNumNodesQuick x numNodes = divNumNodesSlow x numNodes := by
  have hwidth := toNat_setWidth_numNodes hn
  rw [← toNat_inj, toNat_divNumNodesSlow hn, divNumNodesQuick,
    MathTk.toNat_sshiftRight_log2Int32 (hwidth.symm ▸ hpos) hpow (msb_eq_false_of_lt hx), hwidth]

end FhgfsOpsRemoting

namespace MsgHelperTrunc

/-- The server's offset of a position in the chunk file that it lies in. -/
lemma toNat_getNodeLocalOffset {size : BitVec 64} (hk : size.toNat = 2 ^ k)
    (hn : 0 < numNodes.toNat) (hidx : idx.toNat = pos.toNat / size.toNat % numNodes.toNat) :
    (getNodeLocalOffset pos size numNodes idx).toNat =
      size.toNat * (pos.toNat / size.toNat / numNodes.toNat) + pos.toNat % size.toNat := by
  have hmod : (pos &&& (size - 1)).toNat = pos.toNat % size.toNat := by
    have := toNat_and_sub_one le_rfl hk pos
    rwa [setWidth_eq] at this
  have hdiv : ((pos - (pos &&& (size - 1)) - idx * size) / numNodes).toNat =
      size.toNat * (pos.toNat / size.toNat / numNodes.toNat) := by
    rw [toNat_udiv, toNat_stripeSetStart hmod hidx, ← Nat.mul_assoc,
      Nat.mul_comm size.toNat, Nat.mul_assoc, Nat.mul_div_cancel_left _ hn]
  have hlt := lt_of_le_of_lt (offset_le size.toNat numNodes.toNat pos.toNat) pos.isLt
  unfold getNodeLocalOffset
  rw [toNat_add_of_lt (by rw [hdiv, hmod]; exact hlt), hdiv, hmod]

end MsgHelperTrunc

/-- The client and the server compute the same offset. -/
lemma getChunkOffset_eq_getNodeLocalOffset {chunkSize : BitVec 32}
    (hk : chunkSize.toNat = 2 ^ k) (hn : 0 < numNodes.toNat) (hn' : numNodes.toNat < 2 ^ 32)
    (hpos : pos.toNat < 2 ^ 63) (hidx : idx.toNat = pos.toNat / chunkSize.toNat % numNodes.toNat) :
    FhgfsOpsRemoting.getChunkOffset pos chunkSize numNodes idx =
      MsgHelperTrunc.getNodeLocalOffset pos (chunkSize.setWidth 64) numNodes idx := by
  have hsize : (chunkSize.setWidth 64).toNat = chunkSize.toNat := toNat_setWidth_of_le (by decide)
  have hpred : (chunkSize - 1).setWidth 64 = chunkSize.setWidth 64 - 1 := by
    have hc : 0 < chunkSize.toNat := hk ▸ Nat.two_pow_pos k
    rw [← toNat_inj, toNat_setWidth_of_le (by decide), toNat_sub_one hc,
      toNat_sub_one (hsize.symm ▸ hc), hsize]
  have hmod : (pos &&& (chunkSize.setWidth 64 - 1)).toNat =
      pos.toNat % (chunkSize.setWidth 64).toNat := by
    have := toNat_and_sub_one (w := 64) (by decide) hk pos
    rwa [hpred, ← hsize] at this
  have hstart := toNat_stripeSetStart hmod (hsize.symm ▸ hidx)
  have hle : (pos - (pos &&& (chunkSize.setWidth 64 - 1)) - idx * chunkSize.setWidth 64).toNat ≤
      pos.toNat := by
    rw [hstart, ← RoundRobin.sub_mod_sub_mul]
    omega
  unfold FhgfsOpsRemoting.getChunkOffset MsgHelperTrunc.getNodeLocalOffset
  dsimp only
  rw [hpred]
  congr 1
  have hslow := FhgfsOpsRemoting.toNat_divNumNodesSlow hn'
    (pos - (pos &&& (chunkSize.setWidth 64 - 1)) - idx * chunkSize.setWidth 64)
  split_ifs with hpow
  · rw [FhgfsOpsRemoting.divNumNodesQuick_eq_slow hn hn' hpow (hle.trans_lt hpos),
      ← toNat_inj, hslow, toNat_udiv]
  · rw [← toNat_inj, hslow, toNat_udiv]

end Offsets

end Beegfs
