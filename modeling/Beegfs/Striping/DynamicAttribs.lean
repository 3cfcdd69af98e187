import Beegfs.Storage.DiskMetaDataWriter
import Beegfs.Striping.FileInfoVec

/-!
# The size of a file from its chunk files

`StatData::updateDynamicFileAttribs` computes the size of a file from one of its chunk files, the
last one of those with the most chunks, which may be incomplete.  Holes in the file do not matter:
what is stored in a chunk file lies before the end that is computed.

With the size it sets the flag of sparse files.  The number of blocks that it compares the new size
to is read while the flag and the size are still the old ones, and is an estimate from the old size
if the flag was not set.
-/

namespace Beegfs

open RoundRobin BitVec List Nat

namespace ChunkFileInfo

variable (info : ChunkFileInfo)

def getStorageVersion : BitVec 64 := info.dynAttribs.storageVersion

def getNumBlocks : BitVec 64 := info.dynAttribs.numBlocks

/-- The complete chunks and the incomplete one. -/
def getNumChunks : BitVec 64 :=
  info.numCompleteChunks +
    if info.getFileSize &&& (info.chunkSize - 1).setWidth 64 ≠ 0 then 1 else 0

end ChunkFileInfo

namespace StatData

/-- `std::max` of two `int64_t`. -/
def maxInt64 (a b : BitVec 64) : BitVec 64 := if a.slt b then b else a

/-- `ChunksBlocksVec::setNumBlocks`: a target beyond the vector is ignored. -/
def setNumBlocks (chunkBlocksVec : List (BitVec 64)) (target : ℕ) (numBlocks : BitVec 64)
    (numStripeTargets : ℕ) : List (BitVec 64) :=
  (if chunkBlocksVec.isEmpty then .replicate numStripeTargets 0 else chunkBlocksVec).set target
    numBlocks

/-- What `updateDynamicFileAttribs` has found on the targets that it has visited. -/
structure TargetScan where
  lastMaxNumChunksIndex : ℕ
  maxNumChunks : BitVec 64
  newModificationTimeSecs : BitVec 64
  newLastAccessTimeSecs : BitVec 64
  chunkBlocksVec : List (BitVec 64)

/-- The loop over the targets from `target` on; the comparisons are signed ones. -/
def TargetScan.loop (numStripeTargets : ℕ) : List ChunkFileInfo → ℕ → TargetScan → TargetScan
  | [], _, scan => scan
  | info :: infos, target, scan =>
    let isMax := scan.maxNumChunks.sle info.getNumChunks
    loop numStripeTargets infos (target + 1)
      { lastMaxNumChunksIndex := if isMax then target else scan.lastMaxNumChunksIndex
        maxNumChunks := if isMax then info.getNumChunks else scan.maxNumChunks
        newModificationTimeSecs :=
          maxInt64 scan.newModificationTimeSecs info.dynAttribs.modificationTimeSecs
        newLastAccessTimeSecs :=
          maxInt64 scan.newLastAccessTimeSecs info.dynAttribs.lastAccessTimeSecs
        chunkBlocksVec :=
          setNumBlocks scan.chunkBlocksVec target info.getNumBlocks numStripeTargets }

variable (statData : StatData)

/-- The pass over all targets.  The times of the metadata server count unless all targets have sent
theirs. -/
def scanTargets (first : ChunkFileInfo) (rest : List ChunkFileInfo) (numStripeTargets : ℕ) :
    TargetScan :=
  let allValid := (first :: rest).countP (·.getStorageVersion != 0) = numStripeTargets
  let time (ofFirst ofServer : BitVec 64) := if allValid then ofFirst else maxInt64 ofFirst ofServer
  .loop numStripeTargets rest 1
    { lastMaxNumChunksIndex := 0
      maxNumChunks := first.getNumChunks
      newModificationTimeSecs := time first.dynAttribs.modificationTimeSecs
        statData.settableFileAttribs.modificationTimeSecs
      newLastAccessTimeSecs := time first.dynAttribs.lastAccessTimeSecs
        statData.settableFileAttribs.lastAccessTimeSecs
      chunkBlocksVec :=
        setNumBlocks statData.chunkBlocksVec 0 first.getNumBlocks numStripeTargets }

/-- The new size: every target before the last one with the most chunks has as many chunks as that
one, and every target behind it has one less. -/
def TargetScan.newFileSize (scan : TargetScan) (infos : List ChunkFileInfo) (first : ChunkFileInfo)
    (chunkSize : BitVec 32) : BitVec 64 :=
  if scan.maxNumChunks = 0 then 0
  else
    let index := BitVec.ofNat 64 scan.lastMaxNumChunksIndex
    index * scan.maxNumChunks * chunkSize.setWidth 64 +
        (BitVec.ofNat 64 infos.length - index - 1) * (scan.maxNumChunks - 1) *
          chunkSize.setWidth 64 + (infos.getD scan.lastMaxNumChunksIndex first).getFileSize

/-- The comparison with `STATDATA_SPARSE_GRACEBLOCKS`. -/
def FewBlocks (usedBlockSum newFileSize : BitVec 64) : Prop :=
  usedBlockSum + 8 < newFileSize.sshiftRight blockShift
  deriving Decidable

/-- `StatData::updateDynamicFileAttribs` at the time `now`. -/
def updateDynamicFileAttribs (fileInfoVec : List ChunkFileInfo) (stripePattern : StripePattern)
    (now : BitVec 64) : StatData :=
  match fileInfoVec with
  | [] => statData
  | first :: rest =>
    if (first :: rest).all (·.getStorageVersion == 0) then statData
    else
      let scan := statData.scanTargets first rest stripePattern.getNumStripeTargetIDs.toNat
      let newFileSize := scan.newFileSize (first :: rest) first stripePattern.getChunkSize
      let scanned := { statData with chunkBlocksVec := scan.chunkBlocksVec }
      { scanned with
        flags :=
          if scan.maxNumChunks = 0 then statData.flags
          else if FewBlocks scanned.getNumBlocks newFileSize then
            statData.flags ||| statDataFeatureSparseFile
          else statData.flags &&& ~~~ statDataFeatureSparseFile
        fileSize := newFileSize
        attribChangeTimeSecs :=
          if scan.newModificationTimeSecs ≠ statData.settableFileAttribs.modificationTimeSecs ∨
              newFileSize ≠ statData.fileSize then now
          else statData.attribChangeTimeSecs
        settableFileAttribs :=
          { statData.settableFileAttribs with
            modificationTimeSecs := scan.newModificationTimeSecs
            lastAccessTimeSecs := scan.newLastAccessTimeSecs } }

/-! ## The flag of sparse files -/

/-- The blocks that the chunk files report. -/
def reportedBlocks (infos : List ChunkFileInfo) : BitVec 64 := (infos.map (·.getNumBlocks)).sum

/-- The vector of blocks after those of `infos` were set, from `target` on. -/
def setBlocks (numStripeTargets : ℕ) : List ChunkFileInfo → ℕ → List (BitVec 64) → List (BitVec 64)
  | [], _, vec => vec
  | info :: infos, target, vec => setBlocks numStripeTargets infos (target + 1)
      (setNumBlocks vec target info.getNumBlocks numStripeTargets)

/-- The blocks that the state from before the call leads to: those of the recorded vector with the
reported ones written into it if the flag is set, and an estimate from the recorded size if not. -/
def knownBlocks (infos : List ChunkFileInfo) (numStripeTargets : ℕ) : BitVec 64 :=
  if statData.getIsSparseFile then (setBlocks numStripeTargets infos 0 statData.chunkBlocksVec).sum
  else (statData.fileSize + blockSize - 1).sshiftRight blockShift

lemma chunkBlocksVec_loop (n : ℕ) (infos : List ChunkFileInfo) (target : ℕ) (scan : TargetScan) :
    (scan.loop n infos target).chunkBlocksVec = setBlocks n infos target scan.chunkBlocksVec := by
  induction infos generalizing target scan with
  | nil => rfl
  | cons info infos ih => exact ih _ _

variable {infos : List ChunkFileInfo} {pattern : StripePattern} {now : BitVec 64}
  {updated : StatData}

lemma not_all_of_valid (h : ∃ info ∈ infos, info.getStorageVersion ≠ 0) :
    ¬infos.all (·.getStorageVersion == 0) = true := by
  simpa using h

/-- The flag that is set before the size and the number of blocks are compared. -/
lemma getIsSparseFile_flags (flags : BitVec 32) (p : Prop) [Decidable p] :
    (if p then flags ||| statDataFeatureSparseFile
      else flags &&& ~~~ statDataFeatureSparseFile) &&& statDataFeatureSparseFile ≠ 0 ↔ p := by
  split_ifs with h
  · exact iff_of_true (Word.or_and_self_ne_zero (by decide) _) h
  · rw [Word.and_not_and_self]
    exact iff_of_false (fun hne => hne rfl) h

/-- A vector with an entry for each target has the reported numbers afterwards. -/
lemma setBlocks_append (n : ℕ) (pre : List (BitVec 64)) {tail : List (BitVec 64)}
    (hlen : tail.length = infos.length) :
    setBlocks n infos pre.length (pre ++ tail) = pre ++ infos.map (·.getNumBlocks) := by
  induction infos generalizing pre tail with
  | nil => rw [eq_nil_of_length_eq_zero hlen, setBlocks, map_nil]
  | cons info infos ih =>
    obtain ⟨b, tail, rfl⟩ := exists_cons_of_length_eq_add_one hlen
    have hset : setNumBlocks (pre ++ b :: tail) pre.length info.getNumBlocks n =
        (pre ++ [info.getNumBlocks]) ++ tail := by simp [setNumBlocks]
    have hlength : pre.length + 1 = (pre ++ [info.getNumBlocks]).length := by simp
    rw [setBlocks, hset, hlength, ih _ (Nat.succ.inj hlen)]
    simp

/-- The flag is set if the blocks that are known are too few for the new size. -/
lemma getIsSparseFile_iff (hvalid : ∃ info ∈ infos, info.getStorageVersion ≠ 0)
    (hupdated : statData.updateDynamicFileAttribs infos pattern now = updated)
    (hsize : updated.fileSize ≠ 0) : updated.getIsSparseFile = true ↔
      FewBlocks (statData.knownBlocks infos pattern.getNumStripeTargetIDs.toNat)
        updated.fileSize := by
  cases infos with
  | nil => simp at hvalid
  | cons first rest =>
    rw [updateDynamicFileAttribs, if_neg (not_all_of_valid hvalid)] at hupdated
    subst hupdated
    have hmax : (statData.scanTargets first rest
        pattern.getNumStripeTargetIDs.toNat).maxNumChunks ≠ 0 := fun hzero => hsize (if_pos hzero)
    dsimp only
    rw [getIsSparseFile, bne_iff_ne, if_neg hmax, getIsSparseFile_flags, scanTargets,
      chunkBlocksVec_loop]
    rfl

/-- A new file. -/
def newStat : StatData := ⟨0, 0, 0, 0, 1, ⟨0, 0, 0, 0, 0⟩, 0, []⟩

/-- Two chunk files with one whole chunk each. -/
def wholeChunks : List ChunkFileInfo := .replicate 2 (.init 0x80000 19 ⟨1, 0x80000, 1024, 5, 5⟩)

def twoTargets : StripePattern := .create 0x80000 none (.raid0 [1, 2] 2)

variable {scan : TargetScan}

/-- The loop keeps the last one of the targets with the most chunks. -/
lemma lastMax_loop (n : ℕ) {num : ℕ → ℕ} (hnum : ∀ j, num j < 2 ^ 63) {t : ℕ}
    (hinfos : ∀ j info, infos[j]? = some info → info.getNumChunks.toNat = num (t + j))
    (hmax : scan.maxNumChunks.toNat = num scan.lastMaxNumChunksIndex)
    (h : LastMax num t scan.lastMaxNumChunksIndex) :
    (scan.loop n infos t).maxNumChunks.toNat = num (scan.loop n infos t).lastMaxNumChunksIndex ∧
      LastMax num (t + infos.length) (scan.loop n infos t).lastMaxNumChunksIndex := by
  induction infos generalizing t scan with
  | nil => exact ⟨hmax, h⟩
  | cons info infos ih =>
    have hinfo : info.getNumChunks.toNat = num t := hinfos 0 info rfl
    have hsle : scan.maxNumChunks.sle info.getNumChunks = true ↔
        num scan.lastMaxNumChunksIndex ≤ num t := by
      have hlt := hnum t
      have hlt' := hnum scan.lastMaxNumChunksIndex
      rw [sle_iff_toInt_le, toInt_eq_toNat_of_lt (by omega),
        toInt_eq_toNat_of_lt (by omega), hmax, hinfo, Int.ofNat_le]
    rw [length_cons, Nat.add_comm infos.length, ← Nat.add_assoc]
    refine ih (fun j info' hj => ?_) ?_ ?_
    · rw [hinfos (j + 1) info' hj, Nat.add_assoc, Nat.add_comm 1]
    · split_ifs with hle
      · exact hinfo
      · exact hmax
    · split_ifs with hle
      · exact h.next (hsle.mp hle)
      · exact h.skip (Nat.lt_of_not_le fun hle' => hle (hsle.mpr hle'))

/-- The size of the chunk file of target `i`. -/
def sizeOf (attribs : List DynamicFileAttribs) (i : ℕ) : ℕ := attribs[i]?.elim 0 (·.fileSize.toNat)

/-- The chunk files with the given attributes. -/
def chunkInfos (chunkSize : BitVec 32) (attribs : List DynamicFileAttribs) : List ChunkFileInfo :=
  attribs.map (.init chunkSize (MathTk.log2Int32 chunkSize))

variable {chunkSize : BitVec 32} {attribs : List DynamicFileAttribs}

lemma exists_valid_chunkInfos (h : ∃ a ∈ attribs, a.storageVersion ≠ 0)
    (hinfos : chunkInfos chunkSize attribs = infos) :
    ∃ info ∈ infos, info.getStorageVersion ≠ 0 := by
  obtain ⟨a, ha, hversion⟩ := h
  subst hinfos
  exact ⟨_, mem_map_of_mem ha, hversion⟩

/-- The lengths of files that have all bytes of the chunk files. -/
def fileEnds (chunkSize : BitVec 32) (attribs : List DynamicFileAttribs) : Set ℕ :=
  ends chunkSize.toNat attribs.length (sizeOf attribs)

variable {k : ℕ} (hk : chunkSize.toNat = 2 ^ k)
  (hends : 2 ^ 63 - 1 ∈ fileEnds chunkSize attribs)

include hk hends

/-- The chunk files of a file whose end is one of an `int64_t` are no larger. -/
lemma sizeOf_lt (i : ℕ) : sizeOf attribs i < 2 ^ 63 := by
  by_contra hge
  rcases Nat.lt_or_ge i attribs.length with hi | hi
  · have hlt := hends i hi (sizeOf attribs i - 1) (by omega)
    have hle := (position_strictMono (i := i) (hk ▸ Nat.two_pow_pos k : 0 < chunkSize.toNat)
      (zero_lt_of_lt hi)).le_apply (x := sizeOf attribs i - 1)
    omega
  · rw [sizeOf, List.getElem?_eq_none hi] at hge
    exact hge (Nat.two_pow_pos 63)

variable {first : ChunkFileInfo} {rest : List ChunkFileInfo}
  (hinfos : chunkInfos chunkSize attribs = first :: rest)

include hinfos

/-- The pass over the targets finds the last one with the most chunks. -/
lemma lastMax_scanTargets (n : ℕ) (hscan : statData.scanTargets first rest n = scan) :
    scan.maxNumChunks.toNat = blocks chunkSize.toNat (sizeOf attribs scan.lastMaxNumChunksIndex) ∧
      LastMax (fun i => blocks chunkSize.toNat (sizeOf attribs i)) attribs.length
        scan.lastMaxNumChunksIndex := by
  have hchs : ∀ j info, (first :: rest)[j]? = some info →
      info.getNumChunks.toNat = blocks chunkSize.toNat (sizeOf attribs j) := by
    intro j info hj
    have hlt := sizeOf_lt hk hends j
    rw [← hinfos, chunkInfos, List.getElem?_map] at hj
    obtain ⟨a, ha, rfl⟩ := Option.map_eq_some_iff.mp hj
    rw [sizeOf, ha] at hlt ⊢
    change a.fileSize.toNat < 2 ^ 63 at hlt
    change _ = blocks _ a.fileSize.toNat
    have hpos : 0 < chunkSize.toNat := hk ▸ Nat.two_pow_pos k
    have hdiv := MathTk.toNat_sshiftRight_log2Int32 hpos
      ((MathTk.isPowerOfTwo_iff hpos).mpr ⟨k, hk⟩) (Word.msb_eq_false_of_lt hlt)
    have hmod := Word.toNat_and_sub_one (by decide) hk a.fileSize
    have hle := Nat.div_le_self a.fileSize.toNat chunkSize.toNat
    have hbit : (if a.fileSize &&& (chunkSize - 1).setWidth 64 ≠ 0 then (1 : BitVec 64)
        else 0).toNat = if a.fileSize.toNat % chunkSize.toNat = 0 then 0 else 1 := by
      rw [← hmod]
      split_ifs with hne hzero hzero
      · exact absurd (toNat_inj.mp hzero) hne
      · rfl
      · rfl
      · exact absurd (congrArg BitVec.toNat (not_not.mp hne)) hzero
    unfold ChunkFileInfo.getNumChunks ChunkFileInfo.init ChunkFileInfo.getFileSize blocks
    rw [toNat_add_of_lt, hdiv, hbit]
    · rcases a.fileSize.toNat with _ | t
      · simp
      · simp only [Nat.succ_div, dvd_iff_mod_eq_zero, if_neg (succ_ne_zero t),
          Nat.add_sub_cancel]
        split_ifs <;> rfl
    · rw [hdiv, hbit]
      split_ifs <;> omega
  have hlen : attribs.length = 1 + rest.length := by
    rw [Nat.add_comm, ← length_cons, ← hinfos, chunkInfos, length_map]
  rw [hlen, ← hscan]
  refine lastMax_loop n (fun j => lt_of_le_of_lt blocks_le (sizeOf_lt hk hends j))
    (fun j info hj => ?_) (hchs 0 first rfl) .first
  rw [Nat.add_comm]
  exact hchs (j + 1) info hj

/-- The new size is the end of the last byte that is stored, and 0 if there is none. -/
lemma isLeast_newFileSize (n : ℕ) (hscan : statData.scanTargets first rest n = scan) :
    IsLeast (fileEnds chunkSize attribs)
      (scan.newFileSize (first :: rest) first chunkSize).toNat := by
  have hc : 0 < chunkSize.toNat := hk ▸ Nat.two_pow_pos k
  obtain ⟨hmax, hlast⟩ := statData.lastMax_scanTargets hk hends hinfos n hscan
  have hlen : (first :: rest).length = attribs.length := by
    rw [← hinfos, chunkInfos, length_map]
  by_cases hsize : sizeOf attribs scan.lastMaxNumChunksIndex = 0
  · rw [hsize] at hmax
    rw [TargetScan.newFileSize, if_pos (toNat_inj.mp hmax)]
    exact hlast.isLeast_zero hsize
  · have hleast := hlast.isLeast_position hc hsize
    have ha : sizeOf attribs scan.lastMaxNumChunksIndex =
        (attribs.get ⟨_, hlast.lt⟩).fileSize.toNat := by
      rw [sizeOf, List.getElem?_eq_getElem hlast.lt]
      rfl
    have hlt := hends _ hlast.lt _ (Nat.sub_one_lt hsize)
    rw [blocks, if_neg hsize] at hmax
    rw [ha] at hmax hsize hlt hleast
    have hget : ((first :: rest).getD scan.lastMaxNumChunksIndex first).getFileSize =
        (attribs.get ⟨_, hlast.lt⟩).fileSize := by
      rw [← hinfos, chunkInfos, getD_eq_getElem?_getD, List.getElem?_map,
        List.getElem?_eq_getElem hlast.lt]
      rfl
    generalize (attribs.get ⟨_, hlast.lt⟩).fileSize = size at *
    -- the formula gives the end of the last chunk file with the most chunks
    have hnew : scan.newFileSize (first :: rest) first chunkSize = BitVec.ofNat 64 (position
        chunkSize.toNat attribs.length scan.lastMaxNumChunksIndex (size.toNat - 1) + 1) := by
      obtain ⟨r, hr⟩ := Nat.exists_eq_add_of_lt hlast.lt
      have hcast : ∀ {w : ℕ} (x : BitVec w), x.setWidth 64 = (x.toNat : BitVec 64) := fun x =>
        (ofNat_toNat 64 x).symm
      have hsize' : size = ((chunkSize.toNat * ((size.toNat - 1) / chunkSize.toNat) +
          (size.toNat - 1) % chunkSize.toNat + 1 : ℕ) : BitVec 64) := by
        rw [div_add_mod, Nat.sub_add_cancel (Nat.pos_of_ne_zero hsize), ← hcast, setWidth_eq]
      have hmax' := hcast scan.maxNumChunks
      rw [setWidth_eq, hmax] at hmax'
      unfold TargetScan.newFileSize position
      rw [if_neg fun hzero => by rw [hzero] at hmax; exact absurd hmax (zero_ne_add_one _), hget,
        hmax', hcast, hlen]
      nth_rewrite 3 [hsize']
      simp only [← natCast_eq_ofNat, cast_add, cast_mul, cast_one]
      ring
    rw [hnew, toNat_ofNat, mod_eq_of_lt (by omega)]
    exact hleast

omit hk hends hinfos

lemma isLeast_fileSize (hk : pattern.getChunkSize.toNat = 2 ^ k)
    (hvalid : ∃ a ∈ attribs, a.storageVersion ≠ 0)
    (hinfos : chunkInfos pattern.getChunkSize attribs = infos)
    (hupdated : statData.updateDynamicFileAttribs infos pattern now = updated)
    (hends : 2 ^ 63 - 1 ∈ fileEnds pattern.getChunkSize attribs) :
    IsLeast (fileEnds pattern.getChunkSize attribs) updated.fileSize.toNat := by
  have hval' := exists_valid_chunkInfos hvalid hinfos
  cases infos with
  | nil => simp at hval'
  | cons first rest =>
    rw [updateDynamicFileAttribs, if_neg (not_all_of_valid hval')] at hupdated
    subst hupdated
    exact statData.isLeast_newFileSize hk hends hinfos _ rfl

lemma fewBlocks_iff {used size : BitVec 64} (h : size.toNat < 2 ^ 63) :
    FewBlocks used size ↔ (used + 8).toNat < size.toNat / 512 := by
  rw [FewBlocks, BitVec.lt_def, sshiftRight_eq_of_msb_false (Word.msb_eq_false_of_lt h),
    toNat_ushiftRight, Nat.shiftRight_eq_div_pow]
  rfl

/-- The size becomes the end of the last byte in a chunk file, wherever there are holes, and 0 if
there is no byte.  Of the chunk file sizes that an inode is loaded with it becomes the size of the
inode. -/
theorem fileSize_updateDynamicFileAttribs {pattern : StripePattern}
    (hk : pattern.getChunkSize.toNat = 2 ^ k) (hn : 0 < pattern.getStripeTargetIDs.length)
    (hn' : pattern.getStripeTargetIDs.length < 2 ^ 32)
    (hlen : attribs.length = pattern.getStripeTargetIDs.length)
    (hvalid : ∃ a ∈ attribs, a.storageVersion ≠ 0) {now : BitVec 64} {updated : StatData}
    (hupdated : statData.updateDynamicFileAttribs (chunkInfos pattern.getChunkSize attribs) pattern
      now = updated) :
    (2 ^ 63 - 1 ∈ fileEnds pattern.getChunkSize attribs →
      IsLeast (fileEnds pattern.getChunkSize attribs) updated.fileSize.toNat) ∧
    ∀ loaded : StatData, loaded.fileSize.toNat < 2 ^ 63 →
      attribs.map (·.fileSize) = (FileInode.initFileInfoVec pattern loaded).map (·.getFileSize) →
        updated.fileSize = loaded.fileSize := by
  have hleast := statData.isLeast_fileSize hk hvalid rfl hupdated
  refine ⟨hleast, fun loaded hsize hload => ?_⟩
  have hsizes := congrArg (List.map BitVec.toNat) hload
  rw [map_map, map_map] at hsizes
  have hsizes := hsizes.trans (FileInode.map_getFileSize_initFileInfoVec hk hn hn' hsize)
  have hends : fileEnds pattern.getChunkSize attribs =
      ends pattern.getChunkSize.toNat pattern.getStripeTargetIDs.length fun i =>
        share pattern.getChunkSize.toNat pattern.getStripeTargetIDs.length i
          loaded.fileSize.toNat := by
    rw [fileEnds, hlen]
    ext e
    refine forall₂_congr fun i hi => ?_
    have hi' := congrArg (·[i]?) hsizes
    simp only [List.getElem?_map, List.getElem?_range hi] at hi'
    obtain ⟨a, ha, hshare⟩ := Option.map_eq_some_iff.mp hi'
    rw [sizeOf, ha, ← hshare]
    rfl
  have hshare := isLeast_ends_share (p := loaded.fileSize.toNat)
    (hk ▸ Nat.two_pow_pos k : 0 < pattern.getChunkSize.toNat) hn
  rw [hends] at hleast
  exact toNat_inj.mp ((hleast fun i hi o ho =>
    lt_of_lt_of_le (hshare.1 i hi o ho) (le_sub_one_of_lt hsize)).unique hshare)

/-- A chunk file with a whole chunk, and one with half a chunk. -/
def chunkAndHalf : List DynamicFileAttribs := [⟨1, 0x80000, 1024, 5, 5⟩, ⟨0, 0x40000, 512, 5, 5⟩]

theorem fileSize_chunkAndHalf :
    (newStat.updateDynamicFileAttribs (chunkInfos twoTargets.getChunkSize chunkAndHalf) twoTargets
      7).fileSize = 0xC0000 :=
  (fileSize_updateDynamicFileAttribs newStat (k := 19) rfl (by decide) (by decide) rfl
    ⟨_, mem_cons_self, by decide⟩ rfl).2 { newStat with fileSize := 0xC0000 } (by decide)
    (by decide +kernel)

end StatData

end Beegfs
