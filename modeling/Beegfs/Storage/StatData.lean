import Mathlib

/-!
# Stat data of inodes

`StatData` holds what `stat()` reports about a file or a directory.  It is part of the inodes on
disk; the file size in it is what the lengths of the chunk files are computed from when an inode is
loaded.
-/

namespace Beegfs

/-- `SettableFileAttribs`. -/
structure SettableFileAttribs where
  mode : BitVec 32
  userID : BitVec 32
  groupID : BitVec 32
  /-- unix mtime -/
  modificationTimeSecs : BitVec 64
  /-- unix atime -/
  lastAccessTimeSecs : BitVec 64
  deriving DecidableEq, Repr

/-- `StatData`. -/
structure StatData where
  flags : BitVec 32
  fileSize : BitVec 64
  /-- real creation time -/
  creationTimeSecs : BitVec 64
  /-- unix ctime -/
  attribChangeTimeSecs : BitVec 64
  nlink : BitVec 32
  settableFileAttribs : SettableFileAttribs
  /-- incremented when internal metadata is modified -/
  metaVersion : BitVec 32
  /-- number of blocks of each chunk file -/
  chunkBlocksVec : List (BitVec 64)
  deriving DecidableEq, Repr

/-- `STATDATA_FEATURE_SPARSE_FILE`. -/
def statDataFeatureSparseFile : BitVec 32 := 1

namespace StatData

/-- `StatData::BLOCK_SHIFT`. -/
def blockShift : ℕ := 9

def getIsSparseFile (statData : StatData) : Bool :=
  statData.flags &&& statDataFeatureSparseFile != 0

/-- `ChunksBlocksVec::getNumBlocks`: zero for a target that the vector has no entry for. -/
def getTargetChunkBlocks (statData : StatData) (target : BitVec 32) : BitVec 64 :=
  if statData.chunkBlocksVec.isEmpty then 0
  else statData.chunkBlocksVec.getD target.toNat 0

end StatData

end Beegfs
