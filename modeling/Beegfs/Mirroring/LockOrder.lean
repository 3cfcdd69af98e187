import Beegfs.Mirroring.EntryLocks

/-!
# The order of entry locks

Locks are to be taken in one order: hash directories first, then directories, names and files, and
directories, names and files each in the order of their ids.  `lock_ordered` says that every message
keeps to it, but for two cases: a lookup with open that finds a directory with a smaller id than its
parent, and the removal of a directory that finds a file.
-/

namespace Beegfs.MetaLocks

open LockProgram List

/-! ## Ranks -/

section Level

variable {ID Name : Type} (isDir : ID → Bool)

/-- The place of directories and of files. -/
def idLevel (id : ID) : ℕ := bif isDir id then 1 else 3

/-- The place of the kind of a lock. -/
def level : EntryLock ID Name → ℕ
  | .hashDir _ => 0
  | .fileID id => idLevel isDir id
  | .parentName _ _ => 2

variable {isDir}

@[simp] lemma level_hashDir {hash : ℕ × ℕ} :
    level isDir (.hashDir hash : EntryLock ID Name) = 0 := rfl

@[simp] lemma level_parentName {parentID : ID} {name : Name} :
    level isDir (.parentName parentID name) = 2 := rfl

variable {id : ID}

@[simp] lemma level_fileID :
    level isDir (.fileID id : EntryLock ID Name) = idLevel isDir id := rfl

lemma idLevel_dir (h : isDir id = true) : idLevel isDir id = 1 := by rw [idLevel, h, cond]

lemma idLevel_file (h : isDir id = false) : idLevel isDir id = 3 := by
  rw [idLevel, h, cond]

end Level

variable {ID Name : Type} [LinearOrder ID] [OrderBot ID] [LinearOrder Name]

section Rank

/-- The place of a lock among those of its kind. -/
def key : EntryLock ID Name → ID ×ₗ WithBot Name
  | .hashDir _ => toLex (⊥, ⊥)
  | .fileID id => toLex (id, ⊥)
  | .parentName parentID name => toLex (parentID, name)

/-- The place of a lock. -/
def rank (isDir : ID → Bool) (lock : EntryLock ID Name) : ℕ ×ₗ ID ×ₗ WithBot Name :=
  toLex (level isDir lock, key lock)

variable {isDir : ID → Bool}

lemma rank_lt_of_level {a b : EntryLock ID Name} (h : level isDir a < level isDir b) :
    rank isDir a < rank isDir b :=
  Prod.Lex.toLex_lt_toLex.mpr (.inl h)

lemma rank_lt_of_key {a b : EntryLock ID Name} (h : level isDir a = level isDir b)
    (hkey : key a < key b) : rank isDir a < rank isDir b :=
  Prod.Lex.toLex_lt_toLex.mpr (.inr ⟨h, hkey⟩)

lemma rank_fileID_lt {a b : ID} (hkind : isDir a = isDir b) (h : a < b) :
    rank isDir (.fileID a : EntryLock ID Name) < rank isDir (.fileID b) := by
  refine rank_lt_of_key ?_ (Prod.Lex.toLex_lt_toLex.mpr (.inl h))
  rw [level_fileID, level_fileID, idLevel, idLevel, hkind]

lemma rank_parentName_lt {a b : ID ×ₗ Name} (h : a < b) :
    rank isDir (.parentName (ofLex a).1 (ofLex a).2) <
      rank isDir (.parentName (ofLex b).1 (ofLex b).2) := by
  refine rank_lt_of_key rfl ?_
  rcases Prod.Lex.lt_iff.mp h with h | ⟨heq, h⟩
  · exact Prod.Lex.toLex_lt_toLex.mpr (.inl h)
  · exact Prod.Lex.toLex_lt_toLex.mpr (.inr ⟨heq, WithBot.coe_lt_coe.mpr h⟩)

end Rank

/-! ## Consistent messages and answers -/

/-- The id of an entry in a directory fits its type, and is not the one of the directory. -/
def InfoOk (isDir : ID → Bool) (parentID : ID) (info : EntryInfo ID) : Prop :=
  match info.entryType with
  | .invalid => info.entryID = ⊥
  | .directory => isDir info.entryID = true ∧ info.entryID ≠ parentID
  | .file => isDir info.entryID = false

section InfoOk

omit [LinearOrder Name]

variable {isDir : ID → Bool} {parentID : ID} {info : EntryInfo ID} (h : InfoOk isDir parentID info)

include h

lemma InfoOk.of_invalid (htype : info.entryType = .invalid) : info.entryID = ⊥ := by
  rwa [InfoOk, htype] at h

lemma InfoOk.of_directory (htype : info.entryType = .directory) :
    isDir info.entryID = true ∧ info.entryID ≠ parentID := by
  rwa [InfoOk, htype] at h

lemma InfoOk.of_file (htype : info.entryType = .file) : isDir info.entryID = false := by
  rwa [InfoOk, htype] at h

end InfoOk

/-- Answers fit the types of the ids. -/
def AnswerOk (isDir : ID → Bool) : (q : Question ID Name) → q.Answer → Prop
  | .lookup parentID _, info => InfoOk isDir parentID info
  | .resyncRunning, _ => True
  | .dirExists _, _ => True

/-- The ids of a message fit their types. -/
def Msg.Valid (isDir : ID → Bool) : Msg ID Name → Prop
  | .lookupIntent msg => isDir msg.parentID = true ∧
    (msg.isCreate = true → isDir msg.entryID = false) ∧ InfoOk isDir msg.parentID msg.entryInfo ∧
    (msg.isRevalidate = false → msg.entryInfo.entryType = .invalid)
  | .rmDir parentID _ => isDir parentID = true
  | .mkDir parentID _ _ => isDir parentID = true
  | .mkFile parentID _ newEntryID => isDir parentID = true ∧ isDir newEntryID = false
  | .unlinkFile parentID _ => isDir parentID = true
  | .hardlink _ _ fromInfo toDirID _ => isDir toDirID = true ∧ isDir fromInfo.entryID = false
  | .renameV2 fromDirID _ toDirID _ => isDir fromDirID = true ∧ isDir toDirID = true
  | .setAttr _ => True
  | .moveFileInode parentID _ entryID => isDir parentID = true ∧ isDir entryID = false
  | .movingFileInsert _ toDirID _ newInodeID => isDir toDirID = true ∧
    ∀ id ∈ newInodeID, isDir id = false
  | .mkLocalDir _ _ => True
  | .rmLocalDir _ _ => True
  | .unlinkLocalFileInode _ _ => True
  | .syncHashDir _ _ => True
  | .syncContentDir dirInodeID fsIDs _ => isDir dirInodeID = true ∧ ∀ id ∈ fsIDs, isDir id = false

/-- The answer does not make the message take its locks out of order: a lookup with open does not
find a directory with a smaller id than its parent, and a directory to be removed is no file. -/
def InOrder : Msg ID Name → (q : Question ID Name) → q.Answer → Prop
  | .lookupIntent msg, .lookup _ _, diskEntryInfo => msg.isCreate = false → msg.isOpen = true →
    (msg.entry diskEntryInfo).2 = .directory → msg.parentID < (msg.entry diskEntryInfo).1
  | .rmDir _ _, .lookup _ _, (delEntryInfo : EntryInfo ID) => delEntryInfo.entryType ≠ .file
  | _, _, _ => True

/-! ## The methods keep to the order -/

section Ordered

variable {isDir : ID → Bool} {ok : (q : Question ID Name) → q.Answer → Prop}
  {held : List (EntryLock ID Name × Bool)} {rest : Program ID Name}

/-- A lock of a later kind than all that are held. -/
lemma ordered_acquire {lock : EntryLock ID Name} {write : Bool}
    (hheld : ∀ h ∈ held, level isDir h.1 < level isDir lock)
    (hrest : Ordered (rank isDir) ok ((lock, write) :: held) rest) :
    Ordered (rank isDir) ok held (acquire lock write rest) :=
  ⟨fun h hh => rank_lt_of_level (hheld h hh), hrest⟩

lemma ordered_names {from' to' : ID × Name} (hheld : ∀ h ∈ held, level isDir h.1 < 2)
    (hrest : ∀ held', (∀ h ∈ held', level isDir h.1 < 3) → Ordered (rank isDir) ok held' rest) :
    Ordered (rank isDir) ok held (acquireNames from' to' rest) := by
  refine ordered_acquirePair rank_parentName_lt rank_parentName_lt ?_
    fun held' hheld' => hrest held' ?_
  · exact fun h hh => ⟨rank_lt_of_level (hheld h hh), rank_lt_of_level (hheld h hh)⟩
  · intro h hh
    rcases hheld' h hh with heq | heq | hh
    · simp [heq]
    · simp [heq]
    · exact (hheld h hh).trans (by decide)

/-- Two ids of the same kind. -/
lemma ordered_pair {a b : ID} (hkind : isDir a = isDir b)
    (hheld : ∀ h ∈ held, level isDir h.1 < idLevel isDir a)
    (hrest : ∀ held', (∀ h ∈ held', level isDir h.1 ≤ idLevel isDir a) →
      Ordered (rank isDir) ok held' rest) :
    Ordered (rank isDir) ok held (acquirePair .fileID a b rest) := by
  have hlevel : idLevel isDir a = idLevel isDir b := by rw [idLevel, idLevel, hkind]
  refine ordered_acquirePair (rank_fileID_lt hkind) (rank_fileID_lt hkind.symm) ?_
    fun held' hheld' => hrest held' ?_
  · exact fun h hh => ⟨rank_lt_of_level (hheld h hh),
      rank_lt_of_level ((hheld h hh).trans_eq hlevel)⟩
  · intro h hh
    rcases hheld' h hh with heq | heq | hh
    · simp [heq]
    · simp [heq, hlevel]
    · exact (hheld h hh).le

/-! ### One method after the other -/

omit [LinearOrder Name] in
/-- The entry that a lookup locks has an id that fits its type. -/
lemma entry_ok {msg : LookupIntentMsg ID Name} (hbot : isDir ⊥ = false)
    (hvalid : (Msg.lookupIntent msg).Valid isDir) {diskEntryInfo : EntryInfo ID}
    (hdisk : InfoOk isDir msg.parentID diskEntryInfo) :
    ((msg.entry diskEntryInfo).2 = .directory → isDir (msg.entry diskEntryInfo).1 = true ∧
      (msg.entry diskEntryInfo).1 ≠ msg.parentID) ∧
    ((msg.entry diskEntryInfo).2 ≠ .directory → isDir (msg.entry diskEntryInfo).1 = false) := by
  have hok : ∀ info, InfoOk isDir msg.parentID info →
      (info.entryType = .directory → isDir info.entryID = true ∧ info.entryID ≠ msg.parentID) ∧
        (info.entryType ≠ .directory → isDir info.entryID = false) := by
    intro info hinfo
    refine ⟨hinfo.of_directory, fun hne => ?_⟩
    cases htype : info.entryType with
    | invalid => rw [hinfo.of_invalid htype, hbot]
    | directory => exact absurd htype hne
    | file => exact hinfo.of_file htype
  rw [LookupIntentMsg.entry]
  split_ifs with hfound hrevalidate
  · exact hok _ hdisk
  · exact hok _ hvalid.2.2.1
  · have hinv := hvalid.2.2.2 (eq_false_of_ne_true hrevalidate)
    exact ⟨fun hdir => absurd (hinv.symm.trans hdir) nofun, fun _ => hbot⟩

lemma lookupIntent_ordered {msg : LookupIntentMsg ID Name} (hbot : isDir ⊥ = false)
    (hvalid : (Msg.lookupIntent msg).Valid isDir) :
    Ordered (rank isDir) (fun q a => AnswerOk isDir q a ∧ InOrder (.lookupIntent msg) q a) []
      msg.lock := by
  have hpar : isDir msg.parentID = true := hvalid.1
  rw [LookupIntentMsg.lock]
  by_cases hcreate : msg.isCreate = true
  · rw [if_pos hcreate]
    refine ordered_acquire (by simp) (ordered_acquire ?_ (ordered_acquire ?_ trivial))
    · simp [idLevel_dir hpar]
    · simp [idLevel_dir hpar, idLevel_file (hvalid.2.1 hcreate)]
  rw [if_neg hcreate]
  refine ordered_acquire (by simp) fun diskEntryInfo hans => ?_
  obtain ⟨hdir, hfile⟩ := entry_ok hbot hvalid hans.1
  have hinOrder := hans.2 (eq_false_of_ne_true hcreate)
  dsimp only
  by_cases htype : (msg.entry diskEntryInfo).2 = .directory
  · -- Both are directories, so that their ids count.
    obtain ⟨hisDir, hne⟩ := hdir htype
    have hsame : isDir (msg.entry diskEntryInfo).1 = isDir msg.parentID := hisDir.trans hpar.symm
    by_cases hlt : (msg.entry diskEntryInfo).1 < msg.parentID
    · by_cases hopen : msg.isOpen = true
      · exact absurd hlt (hinOrder hopen htype).not_gt
      · rw [if_neg hopen, if_pos ⟨htype, hlt⟩]
        have hunl : unlock (.fileID msg.parentID : EntryLock ID Name)
            [(.fileID msg.parentID, false)] = [] := by simp [unlock]
        rw [Ordered, hunl]
        refine ordered_acquire (by simp) ⟨?_, trivial⟩
        simpa using rank_fileID_lt hsame hlt
    · have hgt : rank isDir (.fileID msg.parentID : EntryLock ID Name) <
          rank isDir (.fileID (msg.entry diskEntryInfo).1) :=
        rank_fileID_lt hsame.symm (lt_of_le_of_ne (not_lt.mp hlt) hne.symm)
      by_cases hopen : msg.isOpen = true
      · rw [if_pos hopen]
        exact ⟨by simpa using hgt, trivial⟩
      · rw [if_neg hopen, if_neg fun h => hlt h.2]
        exact ⟨by simpa using hgt, trivial⟩
  · -- A file comes after its directory.
    have hlevel : ∀ h ∈ [((.fileID msg.parentID : EntryLock ID Name), false)],
        level isDir h.1 < level isDir (.fileID (msg.entry diskEntryInfo).1 : EntryLock ID Name) :=
          by
      simp [idLevel_dir hpar, idLevel_file (hfile htype)]
    by_cases hopen : msg.isOpen = true
    · rw [if_pos hopen]
      exact ordered_acquire hlevel trivial
    · rw [if_neg hopen, if_neg fun h => htype h.1]
      exact ordered_acquire hlevel trivial

/-- A directory and a name in it, after at most a hash directory. -/
lemma ordered_dirName {dirID : ID} {name : Name} (hdir : isDir dirID = true)
    (hheld : ∀ h ∈ held, level isDir h.1 < 1)
    (hrest : ∀ held', (∀ h ∈ held', level isDir h.1 < 3) → Ordered (rank isDir) ok held' rest) :
    Ordered (rank isDir) ok held
      (acquire (.fileID dirID) true (acquire (.parentName dirID name) true rest)) := by
  have hheld' : ∀ h ∈ ((.fileID dirID : EntryLock ID Name), true) :: held, level isDir h.1 < 2 := by
    intro h hh
    rcases mem_cons.mp hh with rfl | hh
    · simp [idLevel_dir hdir]
    · exact (hheld h hh).trans (by decide)
  refine ordered_acquire (by simpa [idLevel_dir hdir] using hheld) (ordered_acquire hheld' ?_)
  refine hrest _ fun h hh => ?_
  rcases mem_cons.mp hh with rfl | hh
  · simp
  · exact (hheld' h hh).trans (by decide)

/-- A file, after everything else. -/
lemma ordered_file {id : ID} (hfile : isDir id = false) (hheld : ∀ h ∈ held, level isDir h.1 < 3) :
    Ordered (rank isDir) ok held (acquire (.fileID id) true done) :=
  ordered_acquire (by simpa [idLevel_file hfile] using hheld) trivial

/-- Two files, after everything else. -/
lemma ordered_files {a b : ID} (ha : isDir a = false) (hb : isDir b = false)
    (hheld : ∀ h ∈ held, level isDir h.1 < 3) :
    Ordered (rank isDir) ok held (acquirePair .fileID a b done) :=
  ordered_pair (ha.trans hb.symm) (by rwa [idLevel_file ha]) fun _ _ => trivial

/-- A hash directory comes first. -/
lemma ordered_hashDir {c : Bool} {hash : ℕ × ℕ}
    (hrest : ∀ held, (∀ h ∈ held, level isDir h.1 < 1) → Ordered (rank isDir) ok held rest) :
    Ordered (rank isDir) ok [] (acquireIf c (.hashDir hash) true rest) := by
  refine ordered_acquireIf (fun _ => ordered_acquire (by simp) (hrest _ ?_)) fun _ => hrest _ ?_
  · simp
  · simp

lemma dirNameFile_ordered {dirID id : ID} {name : Name} (hdir : isDir dirID = true)
    (hfile : isDir id = false) : Ordered (rank isDir) ok [] (dirNameFileLock dirID name id) :=
  ordered_dirName hdir (by simp) fun _ => ordered_file hfile

variable {inodeHash : ID → ℕ × ℕ}

lemma rmDir_ordered {parentID : ID} {delDirName : Name} (hok : ∀ q a, ok q a → AnswerOk isDir q a)
    (hnotFile : ∀ info : EntryInfo ID, ok (.lookup parentID delDirName) info →
      info.entryType ≠ .file) (hpar : isDir parentID = true) :
    Ordered (rank isDir) ok [] (rmDirLock inodeHash parentID delDirName) := by
  intro parentDir _
  rcases parentDir with _ | _
  · trivial
  intro (delEntryInfo : EntryInfo ID) hans running _
  refine ordered_hashDir fun held hheld => ?_
  split_ifs with hempty
  · exact ordered_dirName hpar hheld fun _ _ => trivial
  · have hinfo : InfoOk isDir parentID delEntryInfo := hok _ _ hans
    have hdel : isDir delEntryInfo.entryID = true := by
      cases htype : delEntryInfo.entryType with
      | invalid => exact absurd (hinfo.of_invalid htype) hempty
      | directory => exact (hinfo.of_directory htype).1
      | file => exact absurd htype (hnotFile delEntryInfo hans)
    refine ordered_pair (hdel.trans hpar.symm) (by rwa [idLevel_dir hdel])
      fun held' hheld' => ordered_acquire ?_ trivial
    rw [idLevel_dir hdel] at hheld'
    exact fun h hh => (hheld' h hh).trans_lt (by decide : 1 < 2)

variable {localGroup : ℕ} {fromDirID toDirID : ID}

lemma movingFileInsert_ordered {isLocallyGenerated : Bool} {newName : Name}
    {newInodeID : Option ID} (hok : ∀ q a, ok q a → AnswerOk isDir q a) (hto : isDir toDirID = true)
    (hnew : ∀ id ∈ newInodeID, isDir id = false) :
    Ordered (rank isDir) ok []
      (movingFileInsertLock isLocallyGenerated toDirID newName newInodeID) := by
  unfold movingFileInsertLock
  split_ifs
  · trivial
  refine ordered_dirName hto (by simp) fun held hheld dir _ => ?_
  rcases dir with _ | _
  · trivial
  rcases newInodeID with _ | newID
  · trivial
  intro (unlinkedInfo : EntryInfo ID) hans
  refine ordered_files (hnew newID rfl) ?_ hheld
  have hinfo : InfoOk isDir toDirID unlinkedInfo := hok _ _ hans
  split_ifs with hfile
  · exact hinfo.of_file hfile
  · exact hnew newID rfl

section LockOrder

omit [OrderBot ID] [LinearOrder Name]

lemma lockOrder_ascending (ids : List ID) : (lockOrder ids).Pairwise (· < ·) :=
  pairwise_map.mpr (OrdMap.ascending _)

lemma mem_lockOrder {ids : List ID} {id : ID} : id ∈ lockOrder ids ↔ id ∈ ids := by
  have hfold : ∀ (ids : List ID) (order : OrdMap ID Unit), (id, ()) ∈
      ids.foldl (fun order id => order.set id ()) order ↔ id ∈ ids ∨ (id, ()) ∈ order := by
    intro ids
    induction ids with
    | nil => simp
    | cons first ids ih =>
      intro order
      rw [foldl_cons, ih]
      by_cases hfirst : id = first
      · simp [hfirst]
      · simp [hfirst]
  rw [lockOrder, mem_map]
  constructor
  · rintro ⟨⟨_, _⟩, hmem, rfl⟩
    exact ((hfold ids .empty).mp hmem).resolve_right (OrdMap.not_mem_empty _)
  · intro hmem
    exact ⟨(id, ()), (hfold ids .empty).mpr (.inl hmem), rfl⟩

end LockOrder

/-- Directories in the order of their ids, after at most a hash directory. -/
lemma ordered_lockOrder {ids : List ID} (hdirs : ∀ id ∈ ids, isDir id = true)
    (hheld : ∀ h ∈ held, level isDir h.1 < 1)
    (hrest : ∀ held', (∀ h ∈ held', level isDir h.1 < 2) → Ordered (rank isDir) ok held' rest) :
    Ordered (rank isDir) ok held (acquireAll ((lockOrder ids).map .fileID) rest) := by
  have hdirs' : ∀ id ∈ lockOrder ids, isDir id = true := fun id hid => hdirs id
    (mem_lockOrder.mp hid)
  refine ordered_acquireAll ?_ ?_ (hrest _ ?_)
  · refine pairwise_map.mpr ((lockOrder_ascending ids).imp_of_mem fun ha hb hab => ?_)
    exact rank_fileID_lt ((hdirs' _ ha).trans (hdirs' _ hb).symm) hab
  · intro h hh lock hlock
    obtain ⟨id, hid, rfl⟩ := mem_map.mp hlock
    exact rank_lt_of_level ((hheld h hh).trans_eq (idLevel_dir (hdirs' id hid)).symm)
  · intro h hh
    rcases mem_append.mp hh with hh | hh
    · simp only [map_map, mem_reverse, mem_map] at hh
      obtain ⟨id, hid, rfl⟩ := hh
      simp [idLevel_dir (hdirs' id hid)]
    · exact (hheld h hh).trans (by decide)

lemma renameFiles_ordered {fromFileInfo toFileInfo : EntryInfo ID}
    (hfrom : InfoOk isDir fromDirID fromFileInfo) (hto : InfoOk isDir toDirID toFileInfo)
    (hheld : ∀ h ∈ held, level isDir h.1 < 3) :
    Ordered (rank isDir) ok held (renameFiles localGroup fromFileInfo toFileInfo) := by
  rw [renameFiles]
  split_ifs with hfile
  · dsimp only
    split
    · rename_i htoFile
      exact ordered_files (hfrom.of_file hfile) (hto.of_file (of_decide_eq_true htoFile).1) hheld
    · exact ordered_file (hfrom.of_file hfile) hheld
    · rename_i htoFile
      exact ordered_file (hto.of_file (of_decide_eq_true htoFile).1) hheld
    · trivial
  · trivial

lemma renameV2_ordered {oldName newName : Name} (hok : ∀ q a, ok q a → AnswerOk isDir q a)
    (hfrom : isDir fromDirID = true) (hto : isDir toDirID = true) :
    Ordered (rank isDir) ok []
      (renameV2Lock inodeHash localGroup fromDirID oldName toDirID newName) := by
  intro fromDir _
  rcases fromDir with _ | _
  · trivial
  intro toDir _
  rcases toDir with _ | _
  · trivial
  refine ⟨rfl, ?_⟩
  intro (fromFileInfo : EntryInfo ID) hfromAns (toFileInfo : EntryInfo ID) htoAns running _
  have hfromInfo : InfoOk isDir fromDirID fromFileInfo := hok _ _ hfromAns
  have htoInfo : InfoOk isDir toDirID toFileInfo := hok _ _ htoAns
  refine ordered_hashDir fun held hheld => ordered_lockOrder ?_ hheld fun held hheld => ?_
  · intro id hid
    rcases mem_append.mp hid with hid | hid
    · simp only [mem_cons, not_mem_nil, or_false] at hid
      rcases hid with rfl | rfl
      · exact hfrom
      · exact hto
    · split_ifs at hid with hdir
      · rw [mem_singleton.mp hid]
        exact (hfromInfo.of_directory hdir).1
      · nomatch hid
  · intro (check : EntryInfo ID) _
    dsimp only
    split_ifs
    · trivial
    · exact ordered_names hheld fun held hheld => renameFiles_ordered hfromInfo htoInfo hheld

/-- Every message takes its locks in order, given answers that do not make it break the order. -/
theorem lock_ordered (inodeHash : ID → ℕ × ℕ) (localGroup : ℕ) (hbot : isDir ⊥ = false)
    {msg : Msg ID Name} (hvalid : msg.Valid isDir) :
    Ordered (rank isDir) (fun q a => AnswerOk isDir q a ∧ InOrder msg q a) []
      (msg.lock inodeHash localGroup) := by
  have hok : ∀ (q : Question ID Name) (a : q.Answer), AnswerOk isDir q a ∧ InOrder msg q a →
      AnswerOk isDir q a := fun _ _ h => h.1
  cases msg with
  | lookupIntent msg => exact lookupIntent_ordered hbot hvalid
  | rmDir parentID delDirName => exact rmDir_ordered hok (fun _ h => h.2) hvalid
  | mkDir parentID newDirName entryID =>
    exact fun _ _ => ordered_hashDir fun held hheld => ordered_dirName hvalid hheld
      fun _ _ => trivial
  | mkFile parentID newName newEntryID => exact dirNameFile_ordered hvalid.1 hvalid.2
  | unlinkFile parentID delFileName =>
    intro (dentry : EntryInfo ID) hans running _
    refine ordered_hashDir fun held hheld => ordered_dirName hvalid hheld fun held hheld => ?_
    refine ordered_acquireIf (fun hfile => ?_) fun _ => trivial
    have hinfo : InfoOk isDir parentID dentry := hok _ _ hans
    exact ordered_file (hinfo.of_file (of_decide_eq_true hfile)) hheld
  | hardlink fromDirID fromName fromInfo toDirID toName =>
    refine ordered_acquire (by simp) (ordered_names ?_ fun held hheld => ?_)
    · simp [idLevel_dir hvalid.1]
    · exact ordered_acquireIf (fun _ => ordered_file hvalid.2 hheld) fun _ => trivial
  | renameV2 fromDirID oldName toDirID newName => exact renameV2_ordered hok hvalid.1 hvalid.2
  | setAttr entryID => exact ordered_acquire (by simp) trivial
  | moveFileInode parentID fileName entryID => exact dirNameFile_ordered hvalid.1 hvalid.2
  | movingFileInsert isLocallyGenerated toDirID newName newInodeID =>
    exact movingFileInsert_ordered hok hvalid.1 hvalid.2
  | mkLocalDir isLocallyGenerated entryID =>
    exact fun _ _ => ordered_hashDir fun _ _ => trivial
  | rmLocalDir isLocallyGenerated entryID =>
    intro running _
    refine ordered_hashDir
      fun held hheld => ordered_acquire (fun h hh => (hheld h hh).trans_le ?_) trivial
    rw [level_fileID, idLevel]
    cases isDir entryID <;> decide
  | unlinkLocalFileInode isLocallyGenerated entryID =>
    cases isLocallyGenerated with
    | true => trivial
    | false =>
      intro running _
      exact ordered_visitAll (by simp) (ordered_acquire (by simp) trivial)
  | syncHashDir hash entries =>
    refine ordered_acquire (by simp) (ordered_visitAll ?_ trivial)
    intro h hh lock hlock
    obtain ⟨id, -, rfl⟩ := mem_map.mp hlock
    rw [mem_singleton.mp hh]
    refine rank_lt_of_level ?_
    rw [level_fileID, level_hashDir, idLevel]
    cases isDir id <;> decide
  | syncContentDir dirInodeID fsIDs names =>
    refine ordered_acquire (by simp) (ordered_visitAll ?_ (ordered_visitAll ?_ trivial))
    · intro h hh lock hlock
      obtain ⟨id, hid, rfl⟩ := mem_map.mp hlock
      rw [mem_singleton.mp hh]
      exact rank_lt_of_level (by simp [idLevel_dir hvalid.1, idLevel_file (hvalid.2 id hid)])
    · intro h hh lock hlock
      obtain ⟨-, -, rfl⟩ := mem_map.mp hlock
      rw [mem_singleton.mp hh]
      exact rank_lt_of_level (by simp [idLevel_dir hvalid.1])

end Ordered

end Beegfs.MetaLocks
