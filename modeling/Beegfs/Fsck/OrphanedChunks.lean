import Beegfs.Lib.BinarySearch
import Beegfs.Fsck.StripeRows

/-!
# The check of orphaned chunks

`findOrphanedChunks` joins the chunks with the inodes, whose stripe patterns are put together from
their rows by a group, and keeps the chunks whose target is not in the pattern of their file.  The
group is gone back to for each further chunk of a file.  `findOrphanedChunks_exact_iff` says that
the check is exact as long as no pattern has more than 65540 targets.
-/

namespace Beegfs.Db

open Bool List

/-! ## Rows -/

/-- A chunk as fsck handles it outside of the database. -/
structure FsckChunk where
  id : String
  targetID : ℕ
  savedPath : String
  fileSize : ℤ
  usedBlocks : ℤ
  creationTime : ℤ
  modificationTime : ℤ
  lastAccessTime : ℤ
  userID : ℕ
  groupID : ℕ
  buddyGroupID : ℕ
deriving DecidableEq

structure Chunk where
  id : EntryID
  targetID : ℕ
  buddyGroupID : ℕ
  savedPath : String
  fileSize : ℤ
  usedBlocks : ℤ
  uid : ℕ
  gid : ℕ
deriving DecidableEq, Inhabited

namespace Chunk

def pkey (c : Chunk) : EntryID ×ₗ ℕ ×ₗ ℕ := toLex (c.id, toLex (c.targetID, c.buddyGroupID))

/-- IDs of targets and groups have 16 bits outside of the database. -/
def toFsckChunk (c : Chunk) : FsckChunk where
  id := c.id.str
  targetID := c.targetID % 2 ^ 16
  savedPath := c.savedPath
  fileSize := c.fileSize
  usedBlocks := c.usedBlocks
  creationTime := 0
  modificationTime := 0
  lastAccessTime := 0
  userID := c.uid
  groupID := c.gid
  buddyGroupID := c.buddyGroupID % 2 ^ 16

lemma ascending_id {l : List Chunk} (h : Ascending pkey l) : Ascending Chunk.id l :=
  h.imp fun hle => by
    rcases Prod.Lex.toLex_le_toLex.mp hle with hlt | ⟨heq, -⟩
    · exact hlt.le
    · exact heq.le

/-- What a pattern of the type has for the chunk: its group, or its target. -/
def patternEntry (c : Chunk) : FsckStripePatternType → ℕ
  | .buddyMirror => c.buddyGroupID
  | .invalid | .raid0 => c.targetID

end Chunk

/-! ## The check -/

/-- `StripePatternGroup::step` -/
def addRow (acc : List ℕ) (p : FileInode × Option StripeTargets) : List ℕ :=
  match p.2 with
  | none => StripeSet.addInode acc p.1
  | some r => StripeSet.addTargets (StripeSet.addInode acc p.1) r

/-- `StripePatternGroup` -/
def stripePatternGroup :
    GroupOps (FileInode × Option StripeTargets) EntryID FileInode (List ℕ) where
  Acc := List ℕ
  init := []
  key p := p.1.id
  project p := p.1
  step p acc := addRow acc p
  finish acc := (acc.insertionSort (· ≤ ·), [])
  finish_init _ := rfl

open Chunk

/-- The tables that the check uses. -/
structure ChunkTables where
  files : FileTables
  chunks : Contents pkey
  events : EventSet

namespace ChunkTables

/-- `isOrphaned` -/
def isOrphaned (p : Chunk × Option (FileInode × List ℕ)) : Bool :=
  match p.2 with
  | none => true
  | some (inode, targets) => !binarySearch targets (p.1.patternEntry inode.stripePatternType)

variable (db : ChunkTables)

/-- The inodes with their patterns. -/
def patterns : Query (FileInode × List ℕ) :=
  (db.files.withTargets db.files.getInodes).group stripePatternGroup

/-- The chunks that are looked at. -/
def unmodifiedChunks : Query Chunk := ignoreByID db.chunks.query id db.events

/-- `findOrphanedChunks` -/
def findOrphanedChunks : Query FsckChunk :=
  (((db.unmodifiedChunks.leftJoin db.patterns Chunk.id fun p => p.1.id).filter isOrphaned).select
    Prod.fst).select toFsckChunk

/-- The chunks without a file, or that the pattern of their file does not have. -/
def orphanedChunks (files : List FsckFileInode) : List Chunk :=
  db.chunks.rows.filter fun c =>
    decide (∀ f ∈ files, f.id = c.id → c.patternEntry f.stripePatternType ∉ f.stripeTargets) &&
      decide (¬db.events.Modified c.id)

end ChunkTables

/-! ## Patterns -/

section Patterns

open StripeSet

lemma addInode_addTargets (acc : List ℕ) (inode : FileInode) (r : StripeTargets) :
    addInode (addTargets (addInode acc inode) r) inode = addTargets (addInode acc inode) r := by
  have hlen : (addTargets (addInode acc inode) r).length = (addInode acc inode).length :=
    length_addTargets
  rcases hnew : addTargets (addInode acc inode) r with _ | ⟨v, vs⟩
  · -- Then the pattern has no targets at all.
    rw [hnew] at hlen
    have hnil := eq_nil_of_length_eq_zero hlen.symm
    rcases acc with _ | ⟨v, vs⟩
    · exact hnil
    · cases hnil
  · rfl

/-- The rows of a file in the join are put together one after the other. -/
lemma foldl_addRow (inode : FileInode) (right : List StripeTargets) :
    (joinRow FileInode.id StripeTargets.id right inode).foldl addRow [] =
      (right.filter fun r => decide (r.id = inode.id)).foldl addTargets (addInode [] inode) := by
  have hfold : ∀ (rows : List StripeTargets) (acc : List ℕ), addInode acc inode = acc →
      (rows.map fun r => (inode, some r)).foldl addRow acc = rows.foldl addTargets acc := by
    intro rows
    induction rows with
    | nil => exact fun _ _ => rfl
    | cons r rest ih =>
      intro acc hacc
      have hstep : addRow acc (inode, some r) = addTargets (addInode acc inode) r := rfl
      rw [map_cons, foldl_cons, foldl_cons, hstep, ih _ (addInode_addTargets ..), hacc]
  rcases hfilt : right.filter fun r => decide (r.id = inode.id) with _ | ⟨r, rest⟩
  · rw [joinRow_of_nil hfilt, hfilt]
    rfl
  · have hstep : addRow [] (inode, some r) = addTargets (addInode [] inode) r := rfl
    rw [joinRow_of_cons hfilt, hfilt, foldl_cons, foldl_cons, hstep,
      hfold rest _ (addInode_addTargets ..)]

end Patterns

namespace ChunkTables

variable {db : ChunkTables} {files : List FsckFileInode}

/-- The row of an inode in the patterns. -/
def patternRow (db : ChunkTables) (inode : FileInode) : FileInode × List ℕ :=
  (inode, ((db.files.targets.rows.filter fun r => decide (r.id = inode.id)).foldl
    StripeSet.addTargets (StripeSet.addInode [] inode)).insertionSort (· ≤ ·))

open FileTables

lemma patterns_exact (h : db.files.Stores files) : db.patterns.Exact :=
  have hright := db.files.targets.ascending_rows
  ⟨getInodes_exact, getTargets_exact, ascending_getInodes h, hright,
    fun _ hb => not_matchesShown_of_mem hright (db.files.targets.mem_of_mem_ghosts hb)⟩

lemma patterns_rows (h : db.files.Stores files) :
    db.patterns.rows = db.files.inodes.rows.map db.patternRow := by
  change stripePatternGroup.rows (leftJoin FileInode.id StripeTargets.id db.files.getInodes.rows
    db.files.targets.rows) = _
  rw [h.getInodes_rows, leftJoin, GroupOps.rows_flatMap stripePatternGroup (k := FileInode.id)
    (p := id) h.inodes_distinct (fun _ _ => joinRow_ne_nil)
    (fun _ _ r hr => congrArg FileInode.id (mem_joinRow_fst hr)) fun _ _ r hr => mem_joinRow_fst hr]
  refine map_congr_left fun inode _ => ?_
  rw [patternRow, ← foldl_addRow]
  rfl

lemma unmodifiedChunks_rows : db.unmodifiedChunks.rows =
    db.chunks.rows.filter fun c => decide (¬db.events.Modified c.id) := ignoreByID_rows _ _ _

/-- What the check delivers for tables that store files. -/
lemma findOrphanedChunks_rows (h : db.files.Stores files) :
    db.findOrphanedChunks.source.rows = (db.unmodifiedChunks.rows.filter fun c =>
      isOrphaned (c, (db.files.inodes.rows.map db.patternRow).find? fun p =>
        decide (p.1.id = c.id))).map toFsckChunk := by
  have hchs : db.unmodifiedChunks.Exact :=
    ignoreByID_exact _ db.chunks.query_exact (ascending_id db.chunks.ascending_rows)
  have hleft : Ascending Chunk.id db.unmodifiedChunks.rows := by
    rw [unmodifiedChunks_rows]
    exact ascending_id (List.Pairwise.filter _ db.chunks.ascending_rows)
  have hright : Ascending (fun p : FileInode × List ℕ => p.1.id) db.patterns.rows := by
    rw [patterns_rows h]
    exact pairwise_map.mpr db.files.inodes.ascending_rows
  have hexact : db.findOrphanedChunks.Exact := by
    refine ⟨hchs, patterns_exact h, hleft, hright, fun p hp => not_matchesShown_of_mem hright ?_⟩
    exact mem_of_getLast? (Option.mem_toList.mp hp)
  have hdist : db.patterns.rows.Pairwise fun p q => p.1.id ≠ q.1.id := by
    rw [patterns_rows h]
    exact pairwise_map.mpr h.inodes_distinct
  have hjoin : leftJoin Chunk.id (fun p : FileInode × List ℕ => p.1.id) db.unmodifiedChunks.rows
      db.patterns.rows = _ := leftJoin_of_distinct hdist _
  rw [Query.source_rows hexact]
  change (((leftJoin Chunk.id (fun p => p.1.id) db.unmodifiedChunks.rows db.patterns.rows).filter
    isOrphaned).map Prod.fst).map toFsckChunk = _
  rw [hjoin, filter_map, map_map, map_map, patterns_rows h]
  rfl

/-- The check of one chunk. -/
lemma isOrphaned_find? (h : db.files.Stores files)
    (hlen : ∀ f ∈ files, f.stripeTargets.length ≤ 65540) (c : Chunk) :
    isOrphaned (c, (db.files.inodes.rows.map db.patternRow).find? fun p => decide (p.1.id = c.id)) =
      decide (∀ f ∈ files, f.id = c.id → c.patternEntry f.stripePatternType ∉ f.stripeTargets) := by
  rcases hfind : (db.files.inodes.rows.map db.patternRow).find? fun p => decide (p.1.id = c.id)
    with _ | p
  · have hnone : ∀ f ∈ files, f.id = c.id → c.patternEntry f.stripePatternType ∉
      f.stripeTargets := by
      intro f hf hid
      have hmem : db.patternRow f.inodeRow ∈ db.files.inodes.rows.map db.patternRow :=
        mem_map_of_mem (h.inodes.mem_iff.mpr (mem_map_of_mem hf))
      exact absurd (decide_eq_true hid) (List.find?_eq_none.mp hfind _ hmem)
    rw [hfind]
    exact (decide_eq_true hnone).symm
  · obtain ⟨_, hinode, rfl⟩ := mem_map.mp (mem_of_find?_eq_some hfind)
    obtain ⟨f, hf, rfl⟩ := mem_map.mp (h.inodes.mem_iff.mp hinode)
    have hfound := List.find?_some hfind
    have hid : f.id = c.id := of_decide_eq_true hfound
    have hrow : db.patternRow f.inodeRow = (f.inodeRow, f.stripeTargets.insertionSort (· ≤ ·)) :=
      congrArg (fun targets => (f.inodeRow, targets.insertionSort (· ≤ ·)))
        (h.pattern hf (hlen f hf))
    have hsearch := binarySearch_iff (x := c.patternEntry f.stripePatternType)
      (pairwise_insertionSort (· ≤ ·) f.stripeTargets)
    rw [mem_insertionSort] at hsearch
    rw [hfind, hrow]
    change (!binarySearch (f.stripeTargets.insertionSort (· ≤ ·))
      (c.patternEntry f.stripePatternType)) = _
    rw [Bool.eq_iff_iff, not_eq_true', eq_false_iff, decide_eq_true_eq, Ne, hsearch]
    constructor
    · intro hnot g hg hgid
      rw [inj_on_of_nodup_map (pairwise_map.mpr h.distinct) hg hf (hgid.trans hid.symm)]
      exact hnot
    · intro hnot
      exact hnot f hf hid

/-! ## A pattern that is too long -/

/-- A file with 65541 targets, of which only that at place 4 is target 7. -/
def wideFile : FsckFileInode :=
  { id := .onNodeOne
    saveNodeID := 1
    saveInode := 1
    saveDevice := 1
    fileSize := 0
    numHardlinks := 1
    chunkSize := 65536
    stripeTargets := [1, 1, 1, 1, 7] ++ List.replicate 65536 1
    stripePatternType := .raid0
    attribs := default }

lemma length_wideFile : wideFile.stripeTargets.length = 65541 := by
  rw [wideFile, length_append, length_replicate]
  rfl

lemma wideFile_value {j v : ℕ} (hj : 5 ≤ j) (hv : wideFile.stripeTargets[j]? = some v) : v = 1 := by
  rw [wideFile, List.getElem?_append_right (show [1, 1, 1, 1, 7].length ≤ j from hj)] at hv
  exact eq_of_mem_replicate (mem_of_getElem? hv)

/-- The target at place 4 is overwritten by the last row. -/
lemma not_mem_wideFile_pattern :
    7 ∉ wideFile.targetRows.foldl StripeSet.addTargets
      (StripeSet.addInode [] wideFile.inodeRow) := by
  obtain ⟨hcount, hrows⟩ := FsckFileInode.targetRows_spec (f := wideFile)
    (by rw [length_wideFile]; decide)
  rw [length_wideFile] at hcount
  have hsize : wideFile.inodeRow.stripePatternSize = 65541 := by
    change wideFile.stripeTargets.length % 2 ^ 20 = _
    rw [length_wideFile]
    rfl
  have hlen := StripeSet.length_addInode_nil wideFile.inodeRow
  have hvals : ∀ r ∈ wideFile.targetRows, ∀ v ∈ r.targets, v ≠ 7 := by
    intro r hr
    refine FsckFileInode.targetRows_values (by decide) (fun j v hj hv => ?_) hr
    rw [wideFile_value (by omega) hv]
    decide
  have hfour : (wideFile.targetRows.foldl StripeSet.addTargets
      (StripeSet.addInode [] wideFile.inodeRow))[4]? = some 1 := by
    refine StripeSet.getElem?_foldl_addTargets (by omega) (fun r hr j hj hplace => ?_) (.inr ?_)
    · obtain ⟨k, hk⟩ := mem_iff_getElem?.mp hr
      have hkLt := (List.getElem?_eq_some_iff.mp hk).1
      have hfirst := (hrows k r hk).first
      have hvalue := (hrows k r hk).value j hj (by rw [length_wideFile]; omega)
      exact wideFile_value (by omega) hvalue
    · obtain ⟨k, hk⟩ : ∃ k, k = 9362 := ⟨_, rfl⟩
      obtain ⟨r, hr⟩ : ∃ r, wideFile.targetRows[k]? = some r :=
        ⟨_, List.getElem?_eq_getElem (by omega)⟩
      have hfirst := (hrows k r hr).first
      exact ⟨r, mem_of_getElem? hr, by omega, by omega⟩
  intro hmem
  obtain ⟨p, hp⟩ := mem_iff_getElem?.mp hmem
  rcases StripeSet.mem_of_getElem?_foldl_addTargets hp with hinode | ⟨r, hr, hv⟩
  · -- Only place 4 of the inode is target 7.
    rcases Nat.lt_or_ge p 6 with hp6 | hp6
    · rw [StripeSet.getElem?_addInode_nil hp6 (by omega),
        ← FsckFileInode.getElem?_stripeTargets _ hp6 (by rw [length_wideFile]; omega)] at hinode
      have hplace : p = 4 := by
        rcases Nat.lt_or_ge p 5 with hp5 | hp5
        · have hall : ∀ p < 5, [1, 1, 1, 1, 7][p]? = some 7 → p = 4 := by decide
          rw [wideFile,
            List.getElem?_append_left (show p < [1, 1, 1, 1, 7].length from hp5)] at hinode
          exact hall p hp5 hinode
        · nomatch wideFile_value hp5 hinode
      rw [hplace, hfour] at hp
      nomatch Option.some.inj hp
    · nomatch StripeSet.eq_zero_of_getElem?_addInode_nil hp6 hinode
  · exact hvals r hr 7 hv rfl

/-- A chunk of the file on target 7. -/
def wideChunk : Chunk := ⟨wideFile.id, 7, 0, "", 0, 0, 0, 0⟩

lemma ascending_wideFile : Ascending StripeTargets.pkey wideFile.targetRows :=
  pairwise_of_forall_mem_list fun _ ha _ hb =>
    ((id_of_mem_targetRows ha).trans (id_of_mem_targetRows hb).symm).le

/-- The tables with the file and the chunk. -/
def wideTables : ChunkTables where
  files :=
    { inodes := .ofBase [wideFile.inodeRow] (ascending_singleton _ _)
      targets := .ofBase wideFile.targetRows ascending_wideFile }
  chunks := .ofBase [wideChunk] (ascending_singleton _ _)
  events := .empty

lemma rows_wideTables : wideTables.files.inodes.rows = [wideFile.inodeRow] ∧
    wideTables.files.targets.rows = wideFile.targetRows ∧ wideTables.chunks.rows = [wideChunk] :=
  ⟨Contents.rows_ofBase _, Contents.rows_ofBase _, Contents.rows_ofBase _⟩

lemma stores_wideTables : wideTables.files.Stores [wideFile] where
  distinct := pairwise_singleton _ _
  inodes := by
    rw [rows_wideTables.1]
    exact List.Perm.refl _
  targets := by
    rw [rows_wideTables.2.1, flatMap_singleton]

lemma mem_wideFile : 7 ∈ wideFile.stripeTargets := mem_append_left _ (by decide)

lemma orphanedChunks_wideTables : wideTables.orphanedChunks [wideFile] = [] := by
  rw [orphanedChunks, rows_wideTables.2.2, filter_eq_nil_iff]
  intro c hc
  rw [mem_singleton.mp hc, and_eq_true, decide_eq_true_eq]
  rintro ⟨hnone, -⟩
  exact hnone wideFile (mem_singleton_self _) rfl mem_wideFile

lemma findOrphanedChunks_wideTables :
    wideTables.findOrphanedChunks.source.rows = [wideChunk.toFsckChunk] := by
  rw [findOrphanedChunks_rows stores_wideTables, unmodifiedChunks_rows, rows_wideTables.2.2,
    rows_wideTables.1]
  have hrow : wideTables.patternRow wideFile.inodeRow = (wideFile.inodeRow,
      (wideFile.targetRows.foldl StripeSet.addTargets
        (StripeSet.addInode [] wideFile.inodeRow)).insertionSort (· ≤ ·)) := by
    have hall : (wideFile.targetRows.filter fun r => decide (r.id = wideFile.inodeRow.id)) =
        wideFile.targetRows :=
      filter_eq_self.mpr fun r hr => decide_eq_true (id_of_mem_targetRows hr)
    rw [patternRow, rows_wideTables.2.1, hall]
  have hchunk : ([wideChunk].filter fun c => decide (¬wideTables.events.Modified c.id)) =
      [wideChunk] := rfl
  have hfind : ([wideTables.patternRow wideFile.inodeRow].find? fun p =>
      decide (p.1.id = wideChunk.id)) = some (wideTables.patternRow wideFile.inodeRow) := by
    rw [List.find?_cons_of_pos]
    exact decide_eq_true rfl
  have horphaned : isOrphaned (wideChunk, some (wideTables.patternRow wideFile.inodeRow)) =
    true := by
    rw [hrow, isOrphaned, not_eq_true', eq_false_iff, Ne,
      binarySearch_iff (pairwise_insertionSort (· ≤ ·) _), mem_insertionSort]
    exact not_mem_wideFile_pattern
  rw [hchunk, map_singleton, filter_cons_of_pos]
  · rfl
  · rw [hfind, horphaned]

/-- A chunk of the file is reported as orphaned although the pattern has its target: the last row of
the targets starts at 65540, which is 4 in its 16 bits, and overwrites place 4. -/
theorem findOrphanedChunks_wideFile :
    wideTables.files.Stores [wideFile] ∧
      wideTables.findOrphanedChunks.source.rows = [wideChunk.toFsckChunk] ∧
      wideTables.orphanedChunks [wideFile] = [] :=
  ⟨stores_wideTables, findOrphanedChunks_wideTables, orphanedChunks_wideTables⟩

/-- The check delivers the orphaned chunks of all tables whose patterns have at most `n` targets if
and only if `n` is at most 65540. -/
theorem findOrphanedChunks_exact_iff (n : ℕ) :
    (∀ (db : ChunkTables) (files : List FsckFileInode), db.files.Stores files →
      (∀ f ∈ files, f.stripeTargets.length ≤ n) →
        db.findOrphanedChunks.source.rows = (db.orphanedChunks files).map toFsckChunk) ↔
      n ≤ 65540 := by
  constructor
  · intro hall
    by_contra hn
    have hrows := hall wideTables [wideFile] stores_wideTables fun f hf => by
      rw [mem_singleton.mp hf, length_wideFile]
      omega
    rw [findOrphanedChunks_wideTables, orphanedChunks_wideTables] at hrows
    cases hrows
  · intro hn db files hstos hlen
    rw [findOrphanedChunks_rows hstos, unmodifiedChunks_rows, filter_filter]
    refine congrArg (List.map toFsckChunk) (filter_congr fun c _ => ?_)
    rw [isOrphaned_find? hstos fun f hf => (hlen f hf).trans hn]

end ChunkTables

end Beegfs.Db
