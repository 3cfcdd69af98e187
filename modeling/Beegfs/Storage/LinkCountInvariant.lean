import Beegfs.Storage.LinkCount

/-!
# The shapes of a file

A file goes through three shapes: its inode is inlined and all its names are hard links of the
dentry-by-ID file, or it has an inode file, or it is gone.  This file has what each operation does
to a file of each shape.
-/

namespace Beegfs.Links

open Option

section File

variable {ID : Type*} {useXAttrs : Bool}

/-- The inode in memory while there are references on it. -/
def memOf (n : ℕ) (isInlined : Bool) (refs : ℕ) (store : InodeStore ID) : Option (MemInode ID) :=
  if refs = 0 then none else some ⟨n, isInlined, refs, store⟩

@[simp] lemma memOf_zero (n : ℕ) (isInlined : Bool) (store : InodeStore ID) :
    memOf n isInlined 0 store = none := rfl

@[simp] lemma memOf_succ (n : ℕ) (isInlined : Bool) (refs : ℕ) (store : InodeStore ID) :
    memOf n isInlined (refs + 1) store = some ⟨n, isInlined, refs + 1, store⟩ := rfl

/-- A file with an inlined inode. -/
def inlinedFile (dir : ID) (n refs : ℕ) : FileRecord ID :=
  ⟨some (dir, n), none, 0, none, memOf n true refs (.perDir dir)⟩

/-- A file with an inode file. -/
def separateFile (n remote : ℕ) (disposal : Option Bool) (refs : ℕ) : FileRecord ID :=
  ⟨none, some n, remote, disposal, memOf n false refs .global⟩

/-- A file that was removed. -/
def goneFile (remote : ℕ) : FileRecord ID := ⟨none, none, remote, none, none⟩

/-- The shapes of a file with `n` names.  Only a file without names has a dentry in the disposal
directory, and only without extended attributes this can say that the inode is inlined. -/
inductive Sound (useXAttrs : Bool) : FileRecord ID → ℕ → Prop where
  | inlined {dir : ID} {n refs : ℕ} (hpos : 0 < n) (hlt : n < 2 ^ 32) :
    Sound useXAttrs (inlinedFile dir n refs) n
  | separate {n remote refs : ℕ} {disposal : Option Bool} (hlt : n < 2 ^ 32)
    (hnames : 0 < n → disposal = none) (hflag : disposal = some true → useXAttrs = false) :
    Sound useXAttrs (separateFile n remote disposal refs) n
  | gone {remote : ℕ} : Sound useXAttrs (goneFile remote) 0

lemma decLink_eq {n : ℕ} (hpos : 0 < n) (hlt : n < 2 ^ 32) : decLink n = n - 1 := by
  unfold decLink
  omega

lemma incLink_eq {n : ℕ} (hlt : n + 1 < 2 ^ 32) : incLink n = n + 1 := Nat.mod_eq_of_lt hlt

/-! ## What the operations do to a file -/

namespace FileRecord

variable {dir : ID} {n m refs remote : ℕ} {disposal : Option Bool} {subDir : Option ID}

/-- The inode is stored with a new link count, from memory or after it was loaded for this. -/
@[simp] lemma setLinkCount_inlinedFile :
    (inlinedFile dir n refs).setLinkCount useXAttrs ⟨n, true, refs, .perDir dir⟩ m =
      inlinedFile dir m refs := by
  cases refs <;> rfl

@[simp] lemma setLinkCount_separateFile :
    (separateFile n remote disposal refs : FileRecord ID).setLinkCount useXAttrs
    ⟨n, false, refs, .global⟩ m =
      separateFile m remote (if useXAttrs then disposal.map fun _ => false else disposal) refs := by
  cases refs <;> rfl

lemma closeFile_inlinedFile :
    (inlinedFile dir n refs).closeFile useXAttrs = inlinedFile dir n (refs - 1) := by
  rcases refs with _ | _ | refs <;> rfl

lemma closeFile_separateFile :
    (separateFile n remote disposal refs : FileRecord ID).closeFile useXAttrs =
      separateFile n remote
        (if useXAttrs && decide (refs ≠ 0) then disposal.map fun _ => false else disposal)
        (refs - 1) := by
  rcases refs with _ | _ | refs <;> cases useXAttrs <;> rfl

variable [DecidableEq ID]

@[simp] lemma loaded?_inlinedFile_zero : (inlinedFile dir n 0).loaded? subDir = none := rfl

open InodeStore

@[simp] lemma loaded?_inlinedFile :
    (inlinedFile dir n (refs + 1)).loaded? (some dir) = some ⟨n, true, refs + 1, .perDir dir⟩ := by
  simp [loaded?, inlinedFile, filter_some, isAskedIn]

@[simp] lemma loaded?_none_inlinedFile : (inlinedFile dir n refs).loaded? none = none := by
  cases refs <;> simp [loaded?, inlinedFile, filter_some, isAskedIn]

@[simp] lemma loaded?_separateFile_zero :
    (separateFile n remote disposal 0).loaded? subDir = none := rfl

@[simp] lemma loaded?_separateFile :
    (separateFile n remote disposal (refs + 1)).loaded? subDir =
      some ⟨n, false, refs + 1, .global⟩ := rfl

@[simp] lemma createFromEntryInfo_inlinedFile (inlined : Bool) :
    (inlinedFile dir n refs).createFromEntryInfo (some dir) inlined =
      some ⟨n, true, 0, .perDir dir⟩ := by
  cases inlined <;> simp [createFromEntryInfo, inlinedFile, filter_some]

@[simp] lemma createFromEntryInfo_separateFile (inlined : Bool) :
    (separateFile n remote disposal refs).createFromEntryInfo subDir inlined =
      some ⟨n, false, 0, .global⟩ := by
  cases inlined <;> rfl

@[simp] lemma hasIDFile_inlinedFile : (inlinedFile dir n refs).hasIDFile (some dir) := by
  simp [hasIDFile, inlinedFile]

@[simp] lemma removeDirEntryID_separateFile :
    (separateFile n remote disposal refs).removeDirEntryID subDir =
      separateFile n remote disposal refs := rfl

/-- A name goes away: others stay, or the file is removed, or it is open and gets a dentry in the
disposal directory. -/
def unlinked (fewer : FileRecord ID) (n remote refs : ℕ) (disposal : Bool) : Unlinked ID :=
  if 1 < n then ⟨fewer, .success, false, true⟩
  else if refs = 0 then ⟨goneFile remote, .success, true, true⟩
  else ⟨separateFile 0 remote (some disposal) refs, .success, false, true⟩

/-- The last name of an open file with an inlined inode goes away: the inode gets an inode file and
a dentry in the disposal directory. -/
lemma unlinkDirEntryWithInlinedInode_busy (unlinkName : Bool) :
    (inlinedFile dir 1 (refs + 1)).unlinkDirEntryWithInlinedInode useXAttrs (some dir) unlinkName =
      ⟨⟨none, some 0, 0, some (!useXAttrs), some ⟨0, false, refs + 1, .perDir dir⟩⟩, .inUse, false,
        true⟩ := by
  have hmoved : (inlinedFile dir 1 (refs + 1)).moveIDFile (some dir) =
      ⟨none, some 1, 0, some true, some ⟨1, true, refs + 1, .perDir dir⟩⟩ := by
    simp [moveIDFile, inlinedFile, filter_some]
  have hdec : decLink 1 = 0 := decLink_eq Nat.one_pos (by omega)
  cases useXAttrs <;>
    simp [unlinkDirEntryWithInlinedInode, hmoved, setLinkCount, storeUpdatedInode, hdec]

open Unlinked

/-- A name of a file with an inlined inode goes away, by an unlink or by a rename. -/
lemma unlink_inlinedFile (hpos : 0 < n) (hlt : n < 2 ^ 32) :
    let r := unlinked (inlinedFile dir (n - 1) refs) n 0 refs !useXAttrs
    (inlinedFile dir n refs).unlinkFile useXAttrs (some dir) true = r ∧
      (inlinedFile dir n refs).unlinkOverwritten useXAttrs dir true = r := by
  unfold unlinked unlinkFile unlinkOverwritten
  by_cases hn : 1 < n
  · have hdec := decLink_eq hpos hlt
    have hn2 : ¬n < 2 := by omega
    cases refs <;> simp [unlinkDirEntryWithInlinedInode, hn, hn2, hdec, finish]
  · obtain rfl : n = 1 := by omega
    cases refs with
    | zero =>
      have hrem : (inlinedFile dir 1 0).removeDirEntryID (some dir) = goneFile 0 := by
        rw [removeDirEntryID, if_pos hasIDFile_inlinedFile]
        rfl
      simp [unlinkDirEntryWithInlinedInode, hrem, finish]
    | succ refs =>
      simp [unlinkDirEntryWithInlinedInode_busy, finish, unlinkInodeLater,
        moveReferenceToMetaFileStore, loaded?, filter_some, isAskedIn, separateFile]

@[simp] lemma unlinkInodeLater_separateFile (wasInlined : Bool) :
    (separateFile n remote disposal (refs + 1)).unlinkInodeLater subDir wasInlined =
      some (separateFile n remote
        (if !wasInlined && n = 0 then disposal.or (some false) else disposal) (refs + 1)) := by
  simp only [unlinkInodeLater, moveReferenceToMetaFileStore, separateFile, loaded?, memOf_succ]
  cases wasInlined <;> by_cases hn : n = 0 <;> simp [hn, filter_some, isAskedIn]

@[simp] lemma unlinkStoredInode_separateFile :
    (separateFile n remote disposal 0).unlinkStoredInode subDir =
      ⟨⟨none, none, remote, disposal, none⟩, .success, true, true⟩ := by
  rfl

/-- A name of a file with an inode file goes away, by an unlink on this server, by an unlink on
another server or by a rename. -/
lemma unlink_separateFile (hpos : 0 < n) (hlt : n < 2 ^ 32) :
    let r := unlinked (separateFile (n - 1) remote none refs) n remote refs false
    (separateFile n remote none refs).unlinkFile useXAttrs (some dir) false = r ∧
      (separateFile n remote none refs).unlinkFileInode useXAttrs (some dir) = r := by
  have hdec := decLink_eq hpos hlt
  unfold unlinked unlinkFile unlinkDentryAndInode unlinkFileInode
  by_cases hn : 1 < n
  · have hn2 : ¬n < 2 := by omega
    cases refs <;> simp [finish, hn, hn2, hpos, hdec]
  · obtain rfl : n = 1 := by omega
    cases refs <;> simp [finish, hdec, goneFile]

/-- The disposal clean-up of a file whose disposal dentry says that the inode is not inlined. -/
lemma cleanUp_separate :
    (separateFile 0 remote none refs).unlinkFile useXAttrs (none : Option ID) false =
      if refs = 0 then ⟨goneFile remote, .success, true, true⟩
      else ⟨separateFile 0 remote (some false) refs, .inUse, false, true⟩ := by
  cases refs <;> simp [unlinkFile, unlinkDentryAndInode, finish, goneFile]

lemma undoLink_separateFile (hlt : n + 1 < 2 ^ 32) :
    (separateFile (n + 1) remote none refs).undoLink useXAttrs dir =
      separateFile n remote none refs := by
  have hdec : decLink (n + 1) = n := decLink_eq (Nat.succ_pos n) hlt
  cases refs <;> simp [undoLink, reference?, hdec]

lemma openFile_inlinedFile : (inlinedFile dir n refs).openFile = inlinedFile dir n (refs + 1) := by
  cases refs <;> simp [openFile, inlinedFile, createFromEntryInfo, filter_some]

lemma openFile_separateFile :
    (separateFile n remote disposal refs : FileRecord ID).openFile =
      separateFile n remote disposal (refs + 1) := by
  cases refs <;> rfl

end FileRecord

/-! ## What the operations do to the number of names -/

/-- An unlink of a file with `n` names leaves a file with one name less; the inode is handed out
when that was the last name and the file is not open. -/
structure Dropped (useXAttrs : Bool) (f : FileRecord ID) (n : ℕ) (r : Unlinked ID) : Prop where
  sound : Sound useXAttrs r.file (n - 1)
  success : r.res = .success
  removed : r.nameRemoved
  remote : r.file.remoteNames = f.remoteNames
  place : 1 < n → r.file.idFile.map Prod.fst = f.idFile.map Prod.fst
  out : r.outInode → n = 1 ∧ r.file.mem = none ∧ r.file.disposal = none

/-- What the dentry says about the place of the inode. -/
def FileRecord.IsAt (f : FileRecord ID) (dir : ID) (inlined : Bool) : Prop :=
  f.idFile.map Prod.fst = if inlined then some dir else none

variable {f : FileRecord ID} {n : ℕ} {dir : ID} {inlined : Bool}

open FileRecord

lemma dropped_unlinked {fewer : FileRecord ID} {refs : ℕ} {disposal : Bool} (hpos : 0 < n)
    (hfewer : 1 < n → Sound useXAttrs fewer (n - 1)) (hremote : fewer.remoteNames = f.remoteNames)
    (hplace : fewer.idFile.map Prod.fst = f.idFile.map Prod.fst)
    (hflag : disposal = true → useXAttrs = false) :
    Dropped useXAttrs f n (unlinked fewer n f.remoteNames refs disposal) := by
  unfold unlinked
  split_ifs with hn hrefs
  · exact ⟨hfewer hn, rfl, rfl, hremote, fun _ => hplace, nofun⟩
  · obtain rfl : n = 1 := by omega
    exact ⟨.gone, rfl, rfl, rfl, fun h => absurd h hn, fun _ => ⟨rfl, rfl, rfl⟩⟩
  · obtain rfl : n = 1 := by omega
    refine ⟨.separate (by omega) nofun fun h => ?_, rfl, rfl, rfl, fun h => absurd h hn, nofun⟩
    exact hflag (Option.some.inj h)

lemma dropped_separateFile {remote refs : ℕ} (hpos : 0 < n) (hlt : n < 2 ^ 32) :
    Dropped useXAttrs (separateFile n remote none refs : FileRecord ID) n
      (unlinked (separateFile (n - 1) remote none refs) n remote refs false) :=
  dropped_unlinked hpos (fun _ => .separate (by omega) (fun _ => rfl) (by simp)) rfl rfl (by simp)

variable (h : Sound useXAttrs f n)

include h

/-- A file with a name is not gone and has no dentry in the disposal directory. -/
lemma Sound.cases_of_pos (hpos : 0 < n) (hplace : f.IsAt dir inlined) :
    n < 2 ^ 32 ∧ ((inlined = true ∧ ∃ refs, f = inlinedFile dir n refs) ∨
      (inlined = false ∧ ∃ remote refs, f = separateFile n remote none refs)) := by
  cases h with
  | @inlined dir' n refs hpos' hlt =>
    cases inlined with
    | false => exact absurd hplace (by simp [FileRecord.IsAt, inlinedFile])
    | true =>
      obtain rfl : dir' = dir := by simpa [FileRecord.IsAt, inlinedFile] using hplace
      exact ⟨hlt, .inl ⟨rfl, refs, rfl⟩⟩
  | @separate n remote refs disposal hlt hnames hflag =>
    cases inlined with
    | false =>
      obtain rfl := hnames hpos
      exact ⟨hlt, .inr ⟨rfl, remote, refs, rfl⟩⟩
    | true => exact absurd hplace (by simp [FileRecord.IsAt, separateFile])
  | gone => nomatch hpos

/-- An operation that leaves the names of the file alone. -/
structure Kept (useXAttrs : Bool) (f : FileRecord ID) (n : ℕ) (f' : FileRecord ID) : Prop where
  sound : Sound useXAttrs f' n
  remote : f'.remoteNames = f.remoteNames
  place : f'.idFile.map Prod.fst = f.idFile.map Prod.fst
  disposal : f.disposal = none → f'.disposal = none

lemma Sound.closeFile : Kept useXAttrs f n (f.closeFile useXAttrs) := by
  cases h with
  | inlined hpos hlt =>
    rw [closeFile_inlinedFile]
    exact ⟨.inlined hpos hlt, rfl, rfl, fun _ => rfl⟩
  | @separate n remote refs disposal hlt hnames hflag =>
    rw [closeFile_separateFile]
    refine ⟨.separate hlt (fun hpos => ?_) (fun htrue => ?_), rfl, rfl, fun hnone => ?_⟩
    · simp [hnames hpos]
    · split_ifs at htrue with hsto
      · cases disposal <;> simp at htrue
      · exact hflag htrue
    · obtain rfl : disposal = none := hnone
      simp [separateFile]
  | gone => exact ⟨.gone, rfl, rfl, fun _ => rfl⟩

lemma Sound.useXAttrs_of_disposal (hdisp : f.disposal = some true) : useXAttrs = false := by
  cases h with
  | inlined => nomatch hdisp
  | separate hlt hnames hflag => exact hflag hdisp
  | gone => nomatch hdisp

lemma Sound.linkCounts : ∀ m ∈ f.linkCounts, m = n := by
  intro m hm
  cases h with
  | @inlined dir n refs hpos hlt =>
    cases refs <;> simpa [linkCounts, inlinedFile] using hm
  | @separate n remote refs disposal hlt hnames hflag =>
    cases refs <;> simpa [linkCounts, separateFile] using hm
  | gone => nomatch hm

variable [DecidableEq ID]

lemma Sound.unlink (hpos : 0 < n) (hplace : f.IsAt dir inlined) :
    Dropped useXAttrs f n (f.unlinkFile useXAttrs (some dir) inlined) ∧
      Dropped useXAttrs f n (f.unlinkOverwritten useXAttrs dir inlined) := by
  obtain ⟨hlt, ⟨rfl, refs, rfl⟩ | ⟨rfl, -, refs, rfl⟩⟩ := h.cases_of_pos hpos hplace
  · rw [(unlink_inlinedFile hpos hlt).1, (unlink_inlinedFile hpos hlt).2, and_self]
    exact dropped_unlinked hpos (fun _ => .inlined (by omega) (by omega)) rfl rfl (by simp)
  · rw [unlinkOverwritten, if_neg Bool.false_ne_true,
      (unlink_separateFile hpos hlt).1, (unlink_separateFile hpos hlt).2, and_self]
    exact dropped_separateFile hpos hlt

/-- A name on another server was removed. -/
lemma Sound.unlinkFileInode (hpos : 0 < n) (hremote : f.remoteNames ≠ 0) :
    Dropped useXAttrs { f with remoteNames := f.remoteNames - 1 } n
      ({ f with remoteNames := f.remoteNames - 1 }.unlinkFileInode useXAttrs (some dir)) := by
  cases h with
  | inlined => exact absurd rfl hremote
  | @separate n remote refs disposal hlt hnames hflag =>
    obtain rfl := hnames hpos
    have hfile : { (separateFile n remote none refs : FileRecord ID) with
        remoteNames := remote - 1 } = separateFile n (remote - 1) none refs := rfl
    rw [show (separateFile n remote none refs : FileRecord ID).remoteNames = remote from rfl, hfile,
      (unlink_separateFile hpos hlt).2]
    exact dropped_separateFile hpos hlt
  | gone => nomatch hpos

/-- A hard link in another directory.  The first one gives an inlined inode an inode file. -/
lemma Sound.makeNewHardlink (hpos : 0 < n) (hplace : f.IsAt dir inlined) (hlt : n + 1 < 2 ^ 32) :
    ∃ refs, f.makeNewHardlink useXAttrs dir inlined true =
      some (separateFile (n + 1) f.remoteNames none refs) := by
  have hinc := incLink_eq hlt
  have hone : 1 ≤ n := hpos
  obtain ⟨-, ⟨rfl, refs, rfl⟩ | ⟨rfl, remote, refs, rfl⟩⟩ := h.cases_of_pos hpos hplace
  · refine ⟨refs, ?_⟩
    have hmoved : ((inlinedFile dir n refs).deinlineFileInode useXAttrs
        dir).moveReferenceToMetaFileStore (some dir) = separateFile n 0 none refs := by
      cases refs <;>
        simp [deinlineFileInode, reference?, setLinkCount, storeUpdatedInode, removeDirEntryID,
          hasIDFile, moveReferenceToMetaFileStore, InodeStore.isAskedIn, inlinedFile, separateFile,
          loaded?, createFromEntryInfo, filter_some]
    cases refs <;> simp [makeNewHardlink, hmoved, reference?, hinc, hone] <;> rfl
  · refine ⟨refs, ?_⟩
    have hmoved : (separateFile n remote none refs).moveReferenceToMetaFileStore (some dir) =
        separateFile n remote none refs := by
      cases refs <;> simp [moveReferenceToMetaFileStore, InodeStore.isAskedIn, separateFile]
    cases refs <;> simp [makeNewHardlink, hmoved, reference?, hinc, hone] <;> rfl

/-- A hard link in the same directory is made for inlined inodes only. -/
lemma Sound.linkInSameDir (hpos : 0 < n) (hplace : f.IsAt dir inlined)
    (hlt : n + 1 < 2 ^ 32) (nameFree : Bool) :
    f.linkInSameDir useXAttrs dir inlined nameFree = none ∨
      f.remoteNames = 0 ∧ inlined = true ∧ ∃ refs, f.linkInSameDir useXAttrs dir inlined nameFree =
          some (inlinedFile dir (if nameFree then n + 1 else n) refs) := by
  obtain ⟨-, ⟨rfl, refs, rfl⟩ | ⟨rfl, -, refs, rfl⟩⟩ := h.cases_of_pos hpos hplace
  · refine .inr ⟨rfl, rfl, refs, ?_⟩
    have hinc := incLink_eq hlt
    have hdec : decLink (n + 1) = n := decLink_eq (Nat.succ_pos n) hlt
    cases refs <;> cases nameFree <;> simp [linkInSameDir, reference?, hinc, hdec]
  · exact .inl (by cases refs <;> simp [linkInSameDir, reference?])

lemma Sound.openFile : Kept useXAttrs f n f.openFile := by
  cases h with
  | inlined hpos hlt =>
    rw [openFile_inlinedFile]
    exact ⟨.inlined hpos hlt, rfl, rfl, fun _ => rfl⟩
  | separate hlt hnames hflag =>
    rw [openFile_separateFile]
    exact ⟨.separate hlt hnames hflag, rfl, rfl, id⟩
  | gone => exact ⟨.gone, rfl, rfl, fun _ => rfl⟩

/-- The disposal clean-up, unless the file is open and its disposal dentry says that the inode is
inlined. -/
lemma Sound.cleanUp {flag : Bool} (hdisp : f.disposal = some flag)
    (hbusy : flag = true → f.mem = none) :
    let r := { f with disposal := none }.unlinkFile useXAttrs none flag
    n = 0 ∧ Sound useXAttrs r.file 0 ∧ r.nameRemoved ∧ r.file.remoteNames = f.remoteNames ∧
      r.file.idFile = none ∧ f.idFile = none ∧
      (r.outInode → r.file.mem = none ∧ r.file.disposal = none) := by
  cases h with
  | inlined => nomatch hdisp
  | @separate n remote refs disposal hlt hnames hflag =>
    obtain rfl : disposal = some flag := hdisp
    obtain rfl : n = 0 := by
      by_contra hn
      nomatch hnames (Nat.pos_of_ne_zero hn)
    have hfile : { (separateFile 0 remote (some flag) refs : FileRecord ID) with
        disposal := none } = separateFile 0 remote none refs := rfl
    rw [hfile]
    cases flag with
    | false =>
      rw [cleanUp_separate]
      split_ifs with hrefs
      · exact ⟨rfl, .gone, rfl, rfl, rfl, rfl, fun _ => ⟨rfl, rfl⟩⟩
      · exact ⟨rfl, .separate hlt nofun nofun, rfl, rfl, rfl, rfl, nofun⟩
    | true =>
      obtain rfl : refs = 0 := by
        cases refs with
        | zero => rfl
        | succ refs => nomatch hbusy rfl
      exact ⟨rfl, .separate hlt nofun nofun, rfl, rfl, rfl, rfl, fun _ => ⟨rfl, rfl⟩⟩
  | gone => nomatch hdisp

end File

end Beegfs.Links
