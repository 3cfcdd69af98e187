import Beegfs.Mirroring.EntryChanges

/-!
# The locks of the changes

`lock` decides which locks a message needs from what it finds in the directories, before it holds
them.  This file has the locks that unlink and rename messages end up with, for what they have
found, and the conditions under which these are the locks of their changes (`Msg.changes_safe`).
-/

namespace Beegfs.MetaLocks

open LockProgram List

variable {ID Name : Type}

/-! ## The locks at the end of `lock` -/

/-- The locks of an unlink message, for the entry that it has found. -/
structure UnlinkLocked (inodeHash : ID → ℕ × ℕ) (parentID : ID) (name : Name)
    (dentry : EntryInfo ID)
    (running : Bool) (held : List (EntryLock ID Name × Bool)) : Prop where
  dir : (.fileID parentID, true) ∈ held
  name : (.parentName parentID name, true) ∈ held
  file : dentry.entryType = .file → (.fileID dentry.entryID, true) ∈ held
  hash : dentry.entryType = .file → running = true → dentry.isInlined = false →
    (.hashDir (inodeHash dentry.entryID), true) ∈ held

section Locks

variable [LinearOrder ID] [LinearOrder Name] (inodeHash : ID → ℕ × ℕ)

lemma unlinkFileLock_ends (parentID : ID) (name : Name) : Ends (fun held found => ∃ dentry running,
      found = [⟨.resyncRunning, running⟩, ⟨.lookup parentID name, dentry⟩] ∧
        UnlinkLocked inodeHash parentID name dentry running held) [] []
      (unlinkFileLock inodeHash parentID name) := by
  intro (dentry : EntryInfo ID) (running : Bool)
  refine ends_acquireIf fun held hheld hhash => ?_
  refine ends_acquireIf fun held' hheld' hfile => ?_
  refine ⟨dentry, running, rfl, ?_⟩
  exact {
    dir := hheld' (mem_cons_of_mem _ mem_cons_self)
    name := hheld' mem_cons_self
    file := fun htype => hfile (decide_eq_true htype)
    hash := fun htype hrun hinl => hheld' (mem_cons_of_mem _ (mem_cons_of_mem _
      (hhash (by simp [htype, hrun, hinl])))) }

variable (localGroup : ℕ) (fromDirID : ID) (oldName : Name)

/-- The locks of a rename message, for the entries that it has found. -/
structure RenameLocked
    (toDirID : ID) (newName : Name) (fromFileInfo toFileInfo : EntryInfo ID) (running : Bool)
    (held : List (EntryLock ID Name × Bool)) : Prop where
  fromDir : (.fileID fromDirID, true) ∈ held
  toDir : (.fileID toDirID, true) ∈ held
  fromName : (.parentName fromDirID oldName, true) ∈ held
  toName : (.parentName toDirID newName, true) ∈ held
  fromFile : fromFileInfo.entryType = .file → fromFileInfo.owner = localGroup →
    (.fileID fromFileInfo.entryID, true) ∈ held
  toFile : fromFileInfo.entryType = .file → toFileInfo.entryType = .file →
    toFileInfo.owner = localGroup → (.fileID toFileInfo.entryID, true) ∈ held
  hash : toFileInfo.entryType = .file → running = true → toFileInfo.isInlined = false →
    (.hashDir (inodeHash toFileInfo.entryID), true) ∈ held

/-- A rename has given up, or it has all locks for what it has found. -/
def RenameEnds (toDirID : ID) (newName : Name) (held : List (EntryLock ID Name × Bool))
    (found : Found ID Name) :
    Prop :=
  (⟨.dirExists fromDirID, false⟩ ∈ found ∨ ⟨.dirExists toDirID, false⟩ ∈ found) ∨
  ∃ fromFileInfo toFileInfo fromFileInfoCheck running,
    found = [⟨.lookup fromDirID oldName, fromFileInfoCheck⟩, ⟨.resyncRunning, running⟩,
      ⟨.lookup toDirID newName, toFileInfo⟩, ⟨.lookup fromDirID oldName, fromFileInfo⟩] ∧
    RenameLocked inodeHash localGroup fromDirID oldName toDirID newName fromFileInfo toFileInfo
      running held

/-- The file locks of a rename. -/
lemma renameFiles_ends {localGroup : ℕ} {fromFileInfo toFileInfo : EntryInfo ID}
    {held : List (EntryLock ID Name × Bool)} {found : Found ID Name}
    {post : List (EntryLock ID Name × Bool) → Found ID Name → Prop}
    (hpost : ∀ held', held ⊆ held' → (fromFileInfo.entryType = .file →
      (fromFileInfo.owner = localGroup → (.fileID fromFileInfo.entryID, true) ∈ held') ∧
      (toFileInfo.entryType = .file → toFileInfo.owner = localGroup →
        (.fileID toFileInfo.entryID, true) ∈ held')) → post held' found) :
    Ends post held found (renameFiles localGroup fromFileInfo toFileInfo) := by
  rw [renameFiles]
  by_cases hfile : fromFileInfo.entryType = .file
  · rw [if_pos hfile]
    dsimp only
    split
    · refine ends_acquirePair fun held' hheld hfrom hto => hpost held' hheld fun _ => ?_
      exact ⟨fun _ => hfrom, fun _ _ => hto⟩
    · rename_i hfrom hto
      refine hpost _ (subset_cons_self _ _) fun _ => ⟨fun _ => mem_cons_self, ?_⟩
      exact fun htype howner => absurd ⟨htype, howner⟩ (of_decide_eq_false hto)
    · rename_i hfrom hto
      refine hpost _ (subset_cons_self _ _) fun _ => ⟨?_, fun _ _ => mem_cons_self⟩
      exact fun howner => absurd howner (of_decide_eq_false hfrom)
    · rename_i hfrom hto
      refine hpost _ (List.Subset.refl held) fun _ => ⟨?_, ?_⟩
      · exact fun howner => absurd howner (of_decide_eq_false hfrom)
      · exact fun htype howner => absurd ⟨htype, howner⟩ (of_decide_eq_false hto)
  · rw [if_neg hfile]
    exact hpost _ (List.Subset.refl held) fun htype => absurd htype hfile

lemma renameV2Lock_ends (toDirID : ID) (newName : Name) :
    Ends (RenameEnds inodeHash localGroup fromDirID oldName toDirID newName) [] []
      (renameV2Lock inodeHash localGroup fromDirID oldName toDirID newName) := by
  intro (fromDir : Bool)
  cases fromDir with
  | false => exact .inl (.inl mem_cons_self)
  | true =>
    intro (toDir : Bool)
    cases toDir with
    | false => exact .inl (.inr mem_cons_self)
    | true =>
      refine ⟨rfl, ?_⟩
      intro (fromFileInfo : EntryInfo ID) (toFileInfo : EntryInfo ID) (running : Bool)
      refine ends_acquireIf fun held hheld hhash => ends_acquireAll fun held' hheld' hdirs => ?_
      intro (fromFileInfoCheck : EntryInfo ID)
      beta_reduce
      split_ifs with hcheck
      · trivial
      have hdir : ∀ id ∈ [fromDirID, toDirID], (.fileID id, true) ∈ held' := by
        intro id hid
        exact hdirs _ (mem_map_of_mem (mem_lockOrder.mpr (mem_append_left _ hid)))
      refine ends_acquirePair fun names hnames hfromName htoName => ?_
      refine renameFiles_ends fun files hfiles hfile => ?_
      refine .inr ⟨fromFileInfo, toFileInfo, fromFileInfoCheck, running, rfl, ?_⟩
      exact {
        fromDir := hfiles (hnames (hdir fromDirID mem_cons_self))
        toDir := hfiles (hnames (hdir toDirID (by simp)))
        fromName := hfiles hfromName
        toName := hfiles htoName
        fromFile := fun htype => (hfile htype).1
        toFile := fun htype => (hfile htype).2
        hash := fun htype hrun hinl => hfiles (hnames (hheld'
          (hhash (by simp [htype, hrun, hinl])))) }

end Locks

/-! ## The changes under these locks -/

section Changes

variable [LinearOrder ID] [OrderBot ID] {inodeHash : ID → ℕ × ℕ} {localGroup : ℕ}
    {disposal : DisposalDir ID Name}
  {now : Execution ID Name} {held : List (EntryLock ID Name × Bool)} {found : Found ID Name}

/-- What is found fits the server: inodes that are inlined in its directories are its own, and files
have an id. -/
structure Execution.Consistent (now : Execution ID Name) (localGroup : ℕ) : Prop where
  inlined : ∀ parentID name, now.dirExists parentID = true →
    (now.lookup parentID name).isInlined = true → (now.lookup parentID name).owner = localGroup
  fileID : ∀ parentID name, (now.lookup parentID name).entryType = .file →
    (now.lookup parentID name).entryID ≠ ⊥

/-- A resync that runs was already running in `lock`. -/
def ResyncCurrent (found : Found ID Name) (now : Execution ID Name) : Prop :=
  now.resyncRunning = true → ⟨.resyncRunning, true⟩ ∈ found

/-- What `lock` has found still holds when the message is executed.  A rename stays in the group,
and an inode that is unlinked for another group is not removed while a resync runs. -/
def Msg.Current (localGroup : ℕ) (found : Found ID Name) (now : Execution ID Name) :
    Msg ID Name → Prop
  | .unlinkFile parentID delFileName => ResyncCurrent found now ∧
    ∀ info : EntryInfo ID, ⟨.lookup parentID delFileName, info⟩ ∈ found →
      (now.lookup parentID delFileName).entryID = info.entryID →
      (now.lookup parentID delFileName).isInlined = info.isInlined
  | .unlinkLocalFileInode _ entryID => now.resyncRunning = true →
    1 < (now.inode entryID).numHardlinks ∨ (now.inode entryID).inUse = true
  | .renameV2 _ _ _ _ => now.toDirOwner = localGroup ∧ ResyncCurrent found now ∧
    (∀ id, now.dirExists id = true → ⟨.dirExists id, false⟩ ∉ found) ∧
    ∀ parentID name (info : EntryInfo ID), ⟨.lookup parentID name, info⟩ ∈ found →
      now.lookup parentID name = info
  | _ => True

section Rename

variable {fromDirID toDirID : ID} {oldName newName : Name} {running : Bool}
  (hlock : RenameLocked inodeHash localGroup fromDirID oldName toDirID newName
    (now.lookup fromDirID oldName) (now.lookup toDirID newName) running held)
  (hcons : now.Consistent localGroup) (hrun : now.resyncRunning = true → running = true)

include hlock hcons hrun

/-- The overwritten file of a renamed file. -/
lemma RenameLocked.overwritten (hfrom : (now.lookup fromDirID oldName).entryType = .file)
    (hto : (now.lookup toDirID newName).entryType = .file) (hdir : now.dirExists toDirID = true) :
    ∀ c ∈ unlinkOverwritten localGroup disposal now (now.lookup toDirID newName),
      c.Safe inodeHash disposal now held (now.lookup toDirID newName).entryID := by
  have hfile := hlock.toFile hfrom hto
  rw [unlinkOverwritten, unlinkRemoteFileInode]
  split_ifs with hinl howner
  · exact safe_unlinkFileInode (hfile (hcons.inlined toDirID newName hdir hinl)) nofun
  · refine safe_unlinkFileInode (hfile howner) fun h _ => .inr (.inr ?_)
    exact hlock.hash hto (hrun h) (Bool.eq_false_iff.mpr hinl)
  · exact nofun

lemma RenameLocked.renameFile_safe (hlocal : now.toDirOwner = localGroup)
    (hdir : now.dirExists fromDirID = true) :
    ∀ c ∈ renameFile localGroup disposal now fromDirID oldName toDirID newName,
      c.Safe inodeHash disposal now held (now.lookup toDirID newName).entryID := by
  rw [renameFile]
  split_ifs with htype huse htoDir hto hinl
  · exact nofun
  · exact nofun
  · exact nofun
  · exact nofun
  all_goals
    have hexists : now.dirExists toDirID = true := by
      by_contra hnot
      exact htoDir ⟨hlocal, by simpa using hnot⟩
    have hins : ∀ c ∈ remoteFileInsertAndUnlink localGroup disposal now
        (now.lookup fromDirID oldName) toDirID newName,
        c.Safe inodeHash disposal now held (now.lookup toDirID newName).entryID := by
      refine forall_mem_append.mpr ⟨?_, ?_⟩
      · split_ifs
        · exact safe_entry hlock.toDir hlock.toName
        · exact nofun
      · by_cases hinv : (now.lookup toDirID newName).entryType = .invalid
        · rw [if_pos hinv]
          exact nofun
        · have hfile : (now.lookup toDirID newName).entryType = .file := by
            cases hentry : (now.lookup toDirID newName).entryType with
            | invalid => exact absurd hentry hinv
            | directory => exact absurd hentry hto
            | file => rfl
          have hover : ∀ c ∈ unlinkOverwritten localGroup disposal now (now.lookup toDirID newName),
              c.Safe inodeHash disposal now held (now.lookup toDirID newName).entryID :=
            hlock.overwritten hcons hrun (not_not.mp htype) hfile hexists
          rw [unlinkOverwritten] at hover
          rw [if_neg hinv]
          split_ifs at hover ⊢
          · exact nofun
          · exact hover
          · exact absurd (decide_eq_true hlocal) ‹_›
          · exact hover
    refine forall_mem_append.mpr
      ⟨forall_mem_append.mpr ⟨hins, safe_entry hlock.fromDir hlock.fromName⟩, ?_⟩
  · intro c hc
    obtain rfl := mem_singleton.mp hc
    exact .inl (hlock.fromFile (not_not.mp htype) (hcons.inlined fromDirID oldName hdir hinl))
  · exact nofun

/-- A rename that has its locks for what is found. -/
lemma RenameLocked.safe (hlocal : now.toDirOwner = localGroup) :
    ∀ c ∈ renameV2Changes localGroup disposal now fromDirID oldName toDirID newName,
      c.Safe inodeHash disposal now held (now.lookup toDirID newName).entryID := by
  rw [renameV2Changes]
  split_ifs with hdir htype heq hdirectory
  · exact nofun
  · exact nofun
  · subst heq
    have hents : ∀ c ∈ [Change.dir fromDirID, .name fromDirID oldName, .name fromDirID newName],
        c.Safe inodeHash disposal now held (now.lookup fromDirID newName).entryID := by
      intro c hc
      rcases mem_cons.mp hc with rfl | hc
      · exact .inl hlock.fromDir
      · rcases mem_cons.mp hc with rfl | hc
        · exact .inl hlock.fromName
        · obtain rfl := mem_singleton.mp hc
          exact .inl hlock.toName
    rw [renameInSameDir]
    split_ifs with hfrom hto hsame hdirs
    · exact nofun
    · exact hents
    · exact nofun
    · exact nofun
    · have hfile : ∀ {t : EntryType}, t ≠ .invalid → t ≠ .directory → t = .file := by
        intro t hinv hdirectory
        cases t <;> simp_all
      obtain ⟨htoDir, hfromDir⟩ := not_or.mp hdirs
      intro c hc
      rcases mem_append.mp hc with hc | hc
      · exact hents c hc
      · exact hlock.overwritten hcons hrun (hfile hfrom hfromDir) (hfile hto htoDir)
          (by simpa using hdir) c hc
  · rw [renameDir]
    split_ifs with htype hself hexists htoDir
    · exact nofun
    · exact nofun
    · exact nofun
    · exact nofun
    · exact forall_mem_append.mpr ⟨safe_entry hlock.toDir hlock.toName,
        safe_entry hlock.fromDir hlock.fromName⟩
  · exact hlock.renameFile_safe hcons hrun hlocal (by simpa using hdir)

end Rename

lemma renameV2_safe {fromDirID toDirID : ID} {oldName newName : Name}
    (hends : RenameEnds inodeHash localGroup fromDirID oldName toDirID newName held found)
    (hcons : now.Consistent localGroup)
    (hcur : (Msg.renameV2 fromDirID oldName toDirID newName).Current localGroup found now) :
    ∀ c ∈ renameV2Changes localGroup disposal now fromDirID oldName toDirID newName,
      c.Safe inodeHash disposal now held (now.lookup toDirID newName).entryID := by
  obtain ⟨hlocal, hresync, hdirs, hlookup⟩ := hcur
  rcases hends with hgone | ⟨fromFileInfo, toFileInfo, check, running, rfl, hlock⟩
  · have hmissing : now.dirExists fromDirID = false ∨ now.dirExists toDirID = false := by
      refine hgone.imp (fun h => ?_) fun h => ?_
      · exact Bool.eq_false_iff.mpr fun hexists => hdirs _ hexists h
      · exact Bool.eq_false_iff.mpr fun hexists => hdirs _ hexists h
    have hnil : renameV2Changes localGroup disposal now fromDirID oldName toDirID newName = [] := by
      rw [renameV2Changes]
      by_cases hfrom : now.dirExists fromDirID = false
      · rw [hfrom]
        rfl
      · have hto : now.dirExists toDirID = false := hmissing.resolve_left hfrom
        split_ifs with hdir htype heq hdirectory
        · rfl
        · rfl
        · exact absurd (heq ▸ hto) hfrom
        · simp [renameDir, hlocal, hto]
        · simp [renameFile, hlocal, hto]
    rw [hnil]
    exact nofun
  · have hfrom : now.lookup fromDirID oldName = fromFileInfo := hlookup _ _ _ (by simp)
    have hto : now.lookup toDirID newName = toFileInfo := hlookup _ _ _ (by simp)
    subst hfrom hto
    refine hlock.safe hcons (fun h => ?_) hlocal
    rcases mem_cons.mp (hresync h) with h | h
    · cases h
    rcases mem_cons.mp h with h | h
    · cases h
      rfl
    rcases mem_cons.mp h with h | h
    · cases h
    · cases mem_singleton.mp h

/-- The changes of a message whose `lock` has ended. -/
lemma Msg.changes_safe [LinearOrder Name] {msg : Msg ID Name}
    (hends : ∀ post, Ends post [] [] (msg.lock inodeHash localGroup) → post held found)
    (hcons : now.Consistent localGroup) (hcur : msg.Current localGroup found now) :
    ∀ c ∈ msg.changes localGroup disposal found now,
      c.Safe inodeHash disposal now held (msg.unlinkedID now) := by
  cases msg with
  | unlinkFile parentID delFileName =>
    obtain ⟨dentry, running, hfound, hlock⟩ :=
      hends _ (unlinkFileLock_ends inodeHash parentID delFileName)
    obtain ⟨hresync, hinl⟩ := hcur
    subst hfound
    rw [Msg.changes, unlinkFileChanges, Msg.unlinkedID]
    split_ifs with hdir htype hne howner
    · exact nofun
    · exact nofun
    · exact nofun
    · -- The file is the one that was found, so its locks are held.
      have hid : (now.lookup parentID delFileName).entryID =
          if dentry.entryType = .file then dentry.entryID else ⊥ := not_not.mp hne
      have hfile : dentry.entryType = .file := by
        by_contra hfile
        rw [if_neg hfile] at hid
        exact hcons.fileID parentID delFileName (not_not.mp htype) hid
      rw [if_pos hfile] at hid
      intro c hc
      rcases mem_append.mp hc with hc | hc
      · exact safe_entry hlock.dir hlock.name c hc
      · refine safe_unlinkFileInode (hid ▸ hlock.file hfile) ?_ c hc
        intro hrun hnotInl
        have hsame := hinl dentry (mem_cons_of_mem _ mem_cons_self) hid
        have hrun' : running = true := by
          rcases mem_cons.mp (hresync hrun) with h | h
          · cases h
            rfl
          · cases mem_singleton.mp h
        exact .inr (.inr (hid ▸ hlock.hash hfile hrun' (hsame.symm.trans hnotInl)))
    · exact safe_entry hlock.dir hlock.name
  | unlinkLocalFileInode isLocallyGenerated entryID =>
    cases isLocallyGenerated with
    | true => exact nofun
    | false =>
      refine safe_unlinkFileInode (hends (fun held _ => (.fileID entryID, true) ∈ held) ?_) ?_
      · intro (running : Bool)
        cases running with
        | false => exact mem_cons_self
        | true => exact mem_cons_self
      intro hrun _
      exact (hcur hrun).imp_right .inl
  | renameV2 fromDirID oldName toDirID newName =>
    exact renameV2_safe (hends _ (renameV2Lock_ends inodeHash localGroup fromDirID oldName toDirID
      newName)) hcons hcur
  | _ => exact nofun

end Changes

end Beegfs.MetaLocks
