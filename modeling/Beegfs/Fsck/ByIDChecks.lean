import Beegfs.Fsck.Contents

/-!
# The checks of dentry-by-ID files

A dentry with an inlined inode has a second file that is named after its ID.  fsck reads both kinds
of files into tables, and looks for the dentries without such a file and for the files without a
dentry.  Both checks are joins of the two tables.  The second one joins on the first fields of both
primary keys.  The first one joins on the saved device before the saved node, and on the whole inode
number, while the tables are in the order of the node before the device, and of the lower half of
the inode number: a file is missed (`Finds`) if one of a larger join key comes before it.
-/

namespace Beegfs.Db

open List

/-! ## Rows -/

/-- The name of a dentry: short, or at a place in a file of names. -/
inductive EntryName
  | inlined (text : String)
  | extended (fileID fileOffset : ℕ)
deriving DecidableEq

structure DirEntry where
  id : EntryID
  parentDirID : EntryID
  entryOwnerNodeID : ℕ
  inodeOwnerNodeID : ℕ
  saveNodeID : ℕ
  saveDevice : ℤ
  saveInode : ℕ
  name : EntryName
  seqNo : ℕ
  entryType : ℕ
  hasInlinedInode : Bool
  isBuddyMirrored : Bool
deriving DecidableEq

namespace DirEntry

instance : Inhabited DirEntry :=
  ⟨⟨default, default, 0, 0, 0, 0, 0, .inlined "", 0, 0, false, false⟩⟩

/-- The primary key has the lower 32 bits of the inode number only. -/
def pkey (d : DirEntry) : EntryID ×ₗ EntryID ×ₗ ℕ ×ₗ ℤ ×ₗ ℕ ×ₗ ℕ :=
  toLex (d.id, toLex (d.parentDirID, toLex (d.saveNodeID, toLex (d.saveDevice,
    toLex (d.saveInode % 2 ^ 32, d.seqNo)))))

/-- `JoinDirEntriesWithBrokenByIDFile` -/
def byIDKey (d : DirEntry) : EntryID ×ₗ EntryID ×ₗ ℤ ×ₗ ℕ ×ₗ ℕ :=
  toLex (d.id, toLex (d.parentDirID, toLex (d.saveDevice, toLex (d.saveNodeID, d.saveInode))))

/-- `JoinOrphanedFsIDs` -/
def orphanKey (d : DirEntry) : EntryID ×ₗ EntryID ×ₗ ℕ :=
  toLex (d.id, toLex (d.parentDirID, d.saveNodeID))

end DirEntry

/-- A dentry-by-ID file as fsck handles it outside of the database. -/
structure FsckFsID where
  id : String
  parentDirID : String
  saveNodeID : ℕ
  saveDevice : ℤ
  saveInode : ℕ
  isBuddyMirrored : Bool
deriving DecidableEq

structure FsID where
  id : EntryID
  parentDirID : EntryID
  saveNodeID : ℕ
  saveDevice : ℤ
  saveInode : ℕ
  isBuddyMirrored : Bool
deriving DecidableEq, Inhabited

namespace FsID

def pkey (f : FsID) : EntryID ×ₗ EntryID ×ₗ ℕ ×ₗ ℤ ×ₗ ℕ :=
  toLex (f.id, toLex (f.parentDirID, toLex (f.saveNodeID, toLex (f.saveDevice,
    f.saveInode % 2 ^ 32))))

/-- `JoinDirEntriesWithBrokenByIDFile` -/
def byIDKey (f : FsID) : EntryID ×ₗ EntryID ×ₗ ℤ ×ₗ ℕ ×ₗ ℕ :=
  toLex (f.id, toLex (f.parentDirID, toLex (f.saveDevice, toLex (f.saveNodeID, f.saveInode))))

/-- `JoinOrphanedFsIDs` -/
def orphanKey (f : FsID) : EntryID ×ₗ EntryID ×ₗ ℕ :=
  toLex (f.id, toLex (f.parentDirID, f.saveNodeID))

def toFsckFsID (f : FsID) : FsckFsID :=
  ⟨f.id.str, f.parentDirID.str, f.saveNodeID, f.saveDevice, f.saveInode, f.isBuddyMirrored⟩

end FsID

/-! ## Orders -/

section Orders

variable {α β γ : Type} [LinearOrder α] [LinearOrder β] [LinearOrder γ]

lemma toLex_le_of_imp {a a' : α} {x x' : β} {y y' : γ} (h : toLex (a, x) ≤ toLex (a', x'))
    (himp : x ≤ x' → y ≤ y') : toLex (a, y) ≤ toLex (a', y') := by
  rw [Prod.Lex.toLex_le_toLex] at *
  rcases h with hlt | ⟨heq, hle⟩
  · exact .inl hlt
  · exact .inr ⟨heq, himp hle⟩

lemma le_of_toLex_le {a a' : α} {x x' : β} (h : toLex (a, x) ≤ toLex (a', x')) : a ≤ a' := by
  rcases Prod.Lex.toLex_le_toLex.mp h with hlt | ⟨heq, -⟩
  · exact hlt.le
  · exact heq.le

end Orders

lemma DirEntry.ascending_id {l : List DirEntry} (h : Ascending pkey l) : Ascending DirEntry.id l :=
  h.imp fun hle => le_of_toLex_le hle

open FsID

lemma FsID.ascending_id {l : List FsID} (h : Ascending pkey l) : Ascending id l :=
  h.imp fun hle => le_of_toLex_le hle

lemma DirEntry.ascending_orphanKey {l : List DirEntry} (h : Ascending pkey l) :
    Ascending orphanKey l :=
  h.imp fun hle => toLex_le_of_imp hle fun hle => toLex_le_of_imp hle le_of_toLex_le

lemma FsID.ascending_orphanKey {l : List FsID} (h : Ascending pkey l) : Ascending orphanKey l :=
  h.imp fun hle => toLex_le_of_imp hle fun hle => toLex_le_of_imp hle le_of_toLex_le

/-! ## The checks -/

/-- The tables that the checks use. -/
structure ByIDTables where
  dentries : Contents DirEntry.pkey
  fsIDs : Contents pkey
  events : EventSet

namespace ByIDTables

variable (db : ByIDTables)

/-- The dentries that are looked at. -/
def unmodifiedDentries : Query DirEntry := ignoreByID db.dentries.query DirEntry.id db.events

/-- The dentry-by-ID files that are looked at. -/
def unmodifiedFsIDs : Query FsID := ignoreByID db.fsIDs.query id db.events

/-- A dentry that must have a dentry-by-ID file. -/
def needsFile (d : DirEntry) : Bool := d.hasInlinedInode && !d.parentDirID.isDisposalDir

/-- `findDirEntriesWithBrokenByIDFile` -/
def findDirEntriesWithBrokenByIDFile : Query DirEntry :=
  ((db.unmodifiedDentries.leftJoin db.fsIDs.query DirEntry.byIDKey byIDKey).filter
    fun p => needsFile p.1 && p.2.isNone).select Prod.fst

/-- `findOrphanedFsIDFiles` -/
def findOrphanedFsIDFiles : Query FsckFsID :=
  (((db.unmodifiedFsIDs.leftJoin db.dentries.query orphanKey DirEntry.orphanKey).filter
    fun p => p.2.isNone).select Prod.fst).select toFsckFsID

/-- The dentries that have no dentry-by-ID file although they must have one. -/
def brokenDentries : List DirEntry :=
  db.dentries.rows.filter fun d =>
    needsFile d && decide (∀ f ∈ db.fsIDs.rows, f.byIDKey ≠ d.byIDKey) &&
      decide (¬db.events.Modified d.id)

/-- The dentry-by-ID files without a dentry. -/
def orphanedFsIDs : List FsID :=
  db.fsIDs.rows.filter fun f =>
    decide (∀ d ∈ db.dentries.rows, d.orphanKey ≠ f.orphanKey) && decide (¬db.events.Modified f.id)

variable {db}

lemma unmodifiedDentries_exact : db.unmodifiedDentries.Exact :=
  ignoreByID_exact _ db.dentries.query_exact (DirEntry.ascending_id db.dentries.ascending_rows)

lemma unmodifiedFsIDs_exact : db.unmodifiedFsIDs.Exact :=
  ignoreByID_exact _ db.fsIDs.query_exact (ascending_id db.fsIDs.ascending_rows)

lemma unmodifiedDentries_rows : db.unmodifiedDentries.rows =
    db.dentries.rows.filter fun d => decide (¬db.events.Modified d.id) := ignoreByID_rows _ _ _

lemma unmodifiedFsIDs_rows : db.unmodifiedFsIDs.rows =
    db.fsIDs.rows.filter fun f => decide (¬db.events.Modified f.id) := ignoreByID_rows _ _ _

variable (db) in
/-- The second check delivers the dentry-by-ID files without a dentry. -/
lemma findOrphanedFsIDFiles_rows :
    db.findOrphanedFsIDFiles.source.rows = db.orphanedFsIDs.map toFsckFsID := by
  have hleft : Ascending orphanKey db.unmodifiedFsIDs.rows := by
    rw [unmodifiedFsIDs_rows]
    exact ascending_orphanKey (List.Pairwise.filter _ db.fsIDs.ascending_rows)
  have hright := DirEntry.ascending_orphanKey db.dentries.ascending_rows
  have hexact : db.findOrphanedFsIDFiles.Exact :=
    ⟨unmodifiedFsIDs_exact, db.dentries.query_exact, hleft, hright,
      fun _ hb => not_matchesShown_of_mem hright (db.dentries.mem_of_mem_ghosts hb)⟩
  have hunmatched : db.findOrphanedFsIDFiles.rows = (db.unmodifiedFsIDs.rows.filter fun f =>
      decide (∀ d ∈ db.dentries.rows, d.orphanKey ≠ f.orphanKey)).map toFsckFsID :=
    congrArg (List.map toFsckFsID) ((leftJoin_unmatched _ _).trans
      (filter_congr fun _ _ => decide_eq_decide.mpr Iff.rfl))
  rw [Query.source_rows hexact, hunmatched, unmodifiedFsIDs_rows, filter_filter, orphanedFsIDs]

variable (db) in
/-- The dentry has a dentry-by-ID file. -/
def HasFile (d : DirEntry) : Prop := ∃ f ∈ db.fsIDs.rows, f.byIDKey = d.byIDKey

variable (db) in
/-- The dentries that have a file are in the order of the join key behind all dentries before them,
other than neighbours of the same key. -/
def InJoinOrder : Prop := MergeOrder DirEntry.byIDKey db.HasFile db.unmodifiedDentries.rows

/-- What the first check delivers. -/
lemma findDirEntriesWithBrokenByIDFile_rows (hleft : db.InJoinOrder) :
    db.findDirEntriesWithBrokenByIDFile.source.rows = db.unmodifiedDentries.rows.filter fun d =>
      needsFile d && decide (¬Finds byIDKey d.byIDKey db.fsIDs.rows) := by
  have htracks := Tracks.ofMergeJoin (db.unmodifiedDentries.tracks unmodifiedDentries_exact)
    (db.fsIDs.query.tracks db.fsIDs.query_exact) hleft (fun _ h => h) (by
      rintro d - f ⟨hf, -⟩ hkey hnil
      have hmem := db.fsIDs.mem_of_mem_ghosts hf
      exact (rowsFrom_eq_nil_iff.mp (hnil ⟨f, hmem, hkey⟩) f hmem).ne hkey)
  have hrows := ((htracks.filter fun p => needsFile p.1 && p.2.isNone).select Prod.fst).rows_eq
  exact hrows.trans (mergeJoin_unmatched needsFile _ _)

/-- A dentry that is saved on the given node and device. -/
def dentryOn (node : ℕ) (device : ℤ) : DirEntry :=
  ⟨.onNodeOne, .root, 1, 1, node, device, 7, .inlined "f", 0, 2, true, false⟩

/-- The dentry-by-ID file of such a dentry. -/
def fsIDOn (node : ℕ) (device : ℤ) : FsID := ⟨.onNodeOne, .root, node, device, 7, false⟩

/-- The tables with one dentry and some dentry-by-ID files. -/
def oneDentry (d : DirEntry) (files : List FsID) (hfiles : Ascending pkey files) : ByIDTables where
  dentries := .ofBase [d] (ascending_singleton _ d)
  fsIDs := .ofBase files hfiles
  events := .empty

lemma unmodified_oneDentry {d : DirEntry} {files : List FsID} (hfiles : Ascending pkey files) :
    (oneDentry d files hfiles).unmodifiedDentries.rows = [d] ∧
      (oneDentry d files hfiles).fsIDs.rows = files := by
  refine ⟨?_, Contents.rows_ofBase hfiles⟩
  have hrows : (oneDentry d files hfiles).dentries.rows = [d] :=
    Contents.rows_ofBase (ascending_singleton _ d)
  rw [unmodifiedDentries_rows, hrows]
  rfl

/-- The first check misses no dentry: it delivers all those without their file, in their order. -/
theorem brokenDentries_sublist (hleft : db.InJoinOrder) :
    db.brokenDentries.Sublist db.findDirEntriesWithBrokenByIDFile.source.rows := by
  rw [findDirEntriesWithBrokenByIDFile_rows hleft, unmodifiedDentries_rows, filter_filter,
    brokenDentries]
  refine monotone_filter_right _ fun d hd => ?_
  simp only [Bool.and_eq_true, decide_eq_true_eq] at hd ⊢
  refine ⟨⟨hd.1.1, fun hfinds => ?_⟩, hd.2⟩
  obtain ⟨f, hf, hkey⟩ := hfinds.exists_mem
  exact hd.1.2 f hf hkey

theorem brokenDentries_sublist_oneDentry :
    let db := oneDentry (dentryOn 2 3) [fsIDOn 1 5] (by decide +kernel)
    db.brokenDentries.Sublist db.findDirEntriesWithBrokenByIDFile.source.rows := by
  refine brokenDentries_sublist ?_
  rw [InJoinOrder, (unmodified_oneDentry _).1]
  exact (ascending_singleton _ _).mergeOrder

end ByIDTables

end Beegfs.Db
