import Beegfs.Storage.LinkCountInvariant

/-!
# When link counts match names

In every run the link counts are the numbers of names, and inodes are handed out once, when no name
is left and no session has them open, provided that no disposal clean-up meets an open file whose
disposal dentry still says that the inode is inlined.  With extended attributes there is no such
dentry.
-/

namespace Beegfs.Links

open Bool Function List

section Server

variable {ID Name : Type*} [DecidableEq ID] {useXAttrs : Bool}

/-- The number of names of a file on this server. -/
def localNames (dentries : List (Dentry ID Name)) (id : ID) : ℕ :=
  dentries.countP fun e => decide (e.id = id)

/-- One of the dentries differs in its name only. -/
def Dentry.IsLike (e : Dentry ID Name) (dentries : List (Dentry ID Name)) : Prop :=
  ∃ e' ∈ dentries, e'.id = e.id ∧ e'.dir = e.dir ∧ e'.inlined = e.inlined

omit [DecidableEq ID] in
lemma Dentry.isLike_of_mem {e : Dentry ID Name} {dentries : List (Dentry ID Name)}
    (he : e ∈ dentries) : e.IsLike dentries := ⟨e, he, rfl, rfl, rfl⟩

namespace Server

/-- Every file has a sound shape for its names, every dentry tells the place of the inode, and an
inode that was handed out has no name and no dentry in the disposal directory. -/
structure Inv (useXAttrs : Bool) (s : Server ID Name) : Prop where
  files : ∀ id f, s.files id = some f → Sound useXAttrs f (localNames s.dentries id + f.remoteNames)
  dentries : ∀ e ∈ s.dentries, ∃ f, s.files e.id = some f ∧ f.IsAt e.dir e.inlined
  handed : ∀ id ∈ s.handedOut, ∃ f, s.files id = some f ∧
    localNames s.dentries id + f.remoteNames = 0 ∧ f.disposal = none

lemma inv_start : (start : Server ID Name).Inv useXAttrs := ⟨nofun, nofun, nofun⟩

variable {s : Server ID Name} {id : ID} {f f' : FileRecord ID} {dentries : List (Dentry ID Name)}
  {handedOut : List ID}

variable (useXAttrs s id f' dentries) in
/-- The names fit to a file that has changed, and to the others as before. -/
structure Fits : Prop where
  sound : Sound useXAttrs f' (localNames dentries id + f'.remoteNames)
  others : ∀ id' ≠ id, localNames dentries id' = localNames s.dentries id'
  places : ∀ e ∈ dentries, if e.id = id then f'.IsAt e.dir e.inlined else e.IsLike s.dentries

/-- One file and the names of the server change. -/
lemma Inv.replace (h : s.Inv useXAttrs) (hfits : Fits useXAttrs s id f' dentries)
    (hhanded : ∀ i ∈ handedOut, if i = id then
        localNames dentries id + f'.remoteNames = 0 ∧ f'.disposal = none
      else i ∈ s.handedOut) :
    (Server.mk dentries (Function.update s.files id (some f')) handedOut).Inv useXAttrs := by
  refine ⟨fun i g hg => ?_, fun e he => ?_, fun i hi => ?_⟩
  · by_cases hid : i = id
    · subst hid
      obtain rfl : f' = g := by simpa using hg
      exact hfits.sound
    · have hg : s.files i = some g := by simpa [update_of_ne hid] using hg
      rw [hfits.others i hid]
      exact h.files i g hg
  · have hplace := hfits.places e he
    by_cases hid : e.id = id
    · rw [if_pos hid] at hplace
      exact ⟨f', by simp [hid], hplace⟩
    · rw [if_neg hid] at hplace
      obtain ⟨e', he', hid', hdir, hinl⟩ := hplace
      obtain ⟨g, hg, hat⟩ := h.dentries e' he'
      rw [hid'] at hg
      rw [hdir, hinl] at hat
      exact ⟨g, by simpa [update_of_ne hid] using hg, hat⟩
  · have hentry := hhanded i hi
    by_cases hid : i = id
    · rw [if_pos hid] at hentry
      subst hid
      exact ⟨f', by simp, hentry⟩
    · rw [if_neg hid] at hentry
      obtain ⟨g, hg, hnames, hdisp⟩ := h.handed i hentry
      refine ⟨g, by simpa [update_of_ne hid] using hg, ?_, hdisp⟩
      rw [hfits.others i hid]
      exact hnames

/-- An operation keeps the invariant, and an inode that it hands out was not handed out before, has
no names left and is not open. -/
structure Good (useXAttrs : Bool) (s s' : Server ID Name) : Prop where
  inv : s'.Inv useXAttrs
  once : ∀ id, s'.handedOut = id :: s.handedOut → id ∉ s.handedOut ∧ s'.numNames id = 0 ∧
    ∀ f ∈ s'.files id, f.mem = none

/-- Nothing is handed out. -/
lemma good_of_inv {s' : Server ID Name} (h : s'.Inv useXAttrs)
    (hsame : s'.handedOut = s.handedOut) : Good useXAttrs s s' := by
  refine ⟨h, fun id hid => ?_⟩
  rw [hsame] at hid
  exact absurd hid (cons_ne_self id s.handedOut).symm

open Dentry

section

variable (h : s.Inv useXAttrs)

include h

/-- The file is opened or closed. -/
lemma Inv.setFile (hf : s.files id = some f)
    (hkept : Kept useXAttrs f (localNames s.dentries id + f.remoteNames) f') :
    Good useXAttrs s (s.setFile id f') := by
  refine good_of_inv (h.replace ⟨?_, fun _ _ => rfl, fun e he => ?_⟩ fun i hi => ?_) rfl
  · rw [hkept.remote]
    exact hkept.sound
  · split_ifs with hid
    · obtain ⟨g, hg, hat⟩ := h.dentries e he
      rw [hid, hf] at hg
      obtain rfl : f = g := Option.some.inj hg
      exact hkept.place.trans hat
    · exact isLike_of_mem he
  · split_ifs with hid
    · subst hid
      obtain ⟨g, hg, hnames, hdisp⟩ := h.handed i hi
      obtain rfl : f = g := Option.some.inj (hf.symm.trans hg)
      rw [hkept.remote]
      exact ⟨hnames, hkept.disposal hdisp⟩
    · exact hi

/-- A file with a name was not handed out. -/
lemma Inv.fresh (hf : s.files id = some f)
    (hpos : 0 < localNames s.dentries id + f.remoteNames) : id ∉ s.handedOut := by
  intro hmem
  obtain ⟨g, hg, _, -⟩ := h.handed id hmem
  obtain rfl : f = g := Option.some.inj (hf.symm.trans hg)
  omega

/-- An unlink changes a file that was not handed out. -/
lemma Inv.apply {r : Unlinked ID} (hfresh : id ∉ s.handedOut)
    (hfits : Fits useXAttrs s id r.file dentries) {handOut : Bool}
    (hout : handOut → localNames dentries id + r.file.remoteNames = 0 ∧
      r.file.mem = none ∧ r.file.disposal = none) :
    Good useXAttrs s (s.applyUnlinked id r dentries handOut) := by
  refine ⟨h.replace hfits fun i hi => ?_, fun i hi => ?_⟩
  · cases handOut with
    | false =>
      have hid : i ≠ id := by
        rintro rfl
        exact hfresh hi
      rw [if_neg hid]
      exact hi
    | true =>
      obtain ⟨hnames, -, hdisp⟩ := hout rfl
      split_ifs with hid
      · exact ⟨hnames, hdisp⟩
      · exact (mem_cons.mp hi).resolve_left hid
  · cases handOut with
    | false => exact absurd hi (cons_ne_self i s.handedOut).symm
    | true =>
      obtain rfl : id = i := (List.cons.inj hi).1
      obtain ⟨hnames, hmem, -⟩ := hout rfl
      have hfile : (s.applyUnlinked id r dentries true).files id = some r.file := by
        simp [Server.applyUnlinked]
      refine ⟨hfresh, ?_, fun g hg => ?_⟩
      · rw [numNames, hfile]
        exact hnames
      · obtain rfl : r.file = g := Option.some.inj (hfile.symm.trans hg)
        exact hmem

/-- A file that was not handed out gets names. -/
lemma Inv.linked (hfresh : id ∉ s.handedOut)
    (hfits : Fits useXAttrs s id f' dentries) :
    Good useXAttrs s { s.setFile id f' with dentries := dentries } :=
  (h.apply hfresh hfits (by simp) :
    Good useXAttrs s (s.applyUnlinked id ⟨f', .success, false, true⟩ dentries false))

/-- A name of a file goes away. -/
lemma Inv.applyUnlinked (hf : s.files id = some f) {r : Unlinked ID} {n : ℕ}
    (hn : localNames s.dentries id + f.remoteNames = n) (hpos : 0 < n) {f0 : FileRecord ID}
    (hdrop : Dropped useXAttrs f0 n r) (hplace : f0.idFile = f.idFile)
    (hnames : localNames dentries id + r.file.remoteNames = n - 1)
    (hoth : ∀ id' ≠ id, localNames dentries id' = localNames s.dentries id')
    (hdents : ∀ e ∈ dentries, e.IsLike s.dentries)
    {handOut : Bool} (hout : handOut → r.outInode) :
    Good useXAttrs s (s.applyUnlinked id r dentries handOut) := by
  refine h.apply (h.fresh hf (by omega)) ⟨hnames ▸ hdrop.sound, hoth, fun e he => ?_⟩
    fun hhand => ?_
  · obtain ⟨e', he', hid', hdir, hinl⟩ := hdents e he
    split_ifs with hid
    · -- another name of the file is left, so its inode stays where it is
      obtain ⟨g, hg, hat⟩ := h.dentries e' he'
      rw [hid', hid, hf] at hg
      obtain rfl : f = g := Option.some.inj hg
      have hleft : 0 < localNames dentries id := countP_pos_iff.mpr ⟨e, he, by simpa using hid⟩
      rw [hdir, hinl] at hat
      exact (hdrop.place (by omega)).trans (hplace ▸ hat)
    · exact ⟨e', he', hid', hdir, hinl⟩
  · obtain ⟨_, hmem, hdisp⟩ := hdrop.out (hout hhand)
    exact ⟨by omega, hmem, hdisp⟩

end

/-! ## Names -/

section Names

variable {p : Dentry ID Name → Bool} {l : List (Dentry ID Name)} {e : Dentry ID Name}

omit [DecidableEq ID] in
/-- A dentry that is found is the one that is removed. -/
lemma find?_eraseP (h : l.find? p = some e) : ∃ before after, l = before ++ e :: after ∧
      l.eraseP p = before ++ after := by
  obtain ⟨hp, before, after, rfl, hbef⟩ := List.find?_eq_some_iff_append.mp h
  refine ⟨before, after, rfl, ?_⟩
  rw [eraseP_append_right _ fun a ha => by simpa using hbef a ha, eraseP_cons_of_pos hp]

lemma localNames_eraseP (h : l.find? p = some e) (id : ID) :
    localNames (l.eraseP p) id + (decide (e.id = id)).toNat = localNames l id := by
  obtain ⟨_, _, rfl, herase⟩ := find?_eraseP h
  rw [herase]
  simp only [localNames, countP_append, countP_cons]
  cases decide (e.id = id)
  · simp
  · simp
    omega

omit [DecidableEq ID] in
/-- The removal of another dentry does not change which one is found. -/
lemma find?_eraseP_of_not {q : Dentry ID Name → Bool}
    {o : Dentry ID Name} (h : l.find? q = some o) (ho : ¬p o) :
    (l.eraseP q).find? p = l.find? p := by
  obtain ⟨_, _, rfl, herase⟩ := find?_eraseP h
  rw [herase, List.find?_append, List.find?_append, List.find?_cons_of_neg ho]

lemma localNames_cons : localNames (e :: l) id = localNames l id + (decide (e.id = id)).toNat := by
  simp only [localNames, countP_cons]
  cases decide (e.id = id) <;> rfl

lemma localNames_unsetInodeInlined (l : List (Dentry ID Name)) (id i : ID) :
    localNames (l.map (unsetInodeInlined id)) i = localNames l i := by
  unfold localNames
  rw [countP_map]
  refine countP_congr fun e _ => ?_
  simp only [comp_apply, unsetInodeInlined]
  split_ifs <;> rfl

/-- A dentry gets another name. -/
lemma localNames_renamed (h : l.find? p = some e) (toName : Name) (id : ID) :
    localNames ({ e with name := toName } :: l.eraseP p) id = localNames l id := by
  rw [localNames_cons, ← localNames_eraseP h id]

omit [DecidableEq ID] in
lemma mem_renamed (h : l.find? p = some e) {toName : Name} {e' : Dentry ID Name}
    (he' : e' ∈ { e with name := toName } :: l.eraseP p) : e'.IsLike l := by
  rcases mem_cons.mp he' with rfl | he'
  · exact ⟨e, mem_of_find?_eq_some h, rfl, rfl, rfl⟩
  · exact isLike_of_mem (mem_of_mem_eraseP he')

lemma mem_unsetInodeInlined {id : ID} (he : e ∈ l.map (unsetInodeInlined id)) :
    if e.id = id then e.inlined = false else e ∈ l := by
  obtain ⟨e', he', rfl⟩ := mem_map.mp he
  by_cases hid : e'.id = id
  · simp [unsetInodeInlined, hid]
  · simpa [unsetInodeInlined, hid] using he'

end Names

variable [DecidableEq Name] {dir : ID} {name : Name} {e : Dentry ID Name}

section

variable (h : s.Inv useXAttrs)

include h

/-- A dentry of the server is found with its file. -/
lemma Inv.found (he : s.dentry? dir name = some e) :
    e ∈ s.dentries ∧ e.dir = dir ∧ ∃ f, s.files e.id = some f ∧ f.IsAt dir e.inlined ∧
      0 < localNames s.dentries e.id := by
  have hmem : e ∈ s.dentries := mem_of_find?_eq_some he
  have hat : e.isAt dir name := List.find?_some he
  obtain ⟨hdir, -⟩ : e.dir = dir ∧ e.name = name := by simpa [isAt] using hat
  obtain ⟨f, hf, hplace⟩ := h.dentries e hmem
  refine ⟨hmem, hdir, f, hf, hdir ▸ hplace, countP_pos_iff.mpr ⟨e, hmem, by simp⟩⟩

/-! ## Operations -/

lemma Inv.step_unlinkFile (dir : ID) (name : Name) :
    Good useXAttrs s (s.unlinkFile useXAttrs dir name) := by
  unfold Server.unlinkFile
  cases he : s.dentry? dir name with
  | none => exact good_of_inv h rfl
  | some e =>
    obtain ⟨_, _, f, hf, hplace, _⟩ := h.found he
    have hdrop := ((h.files e.id f hf).unlink (by omega) hplace).1
    simp only [hf, hdrop.removed, if_true]
    refine h.applyUnlinked hf rfl (by omega) hdrop rfl ?_ (fun i hi => ?_) (fun e' he' => ?_)
      fun hout => (and_eq_true_iff.mp hout).1
    · have herase := localNames_eraseP he e.id
      rw [hdrop.remote]
      simp at herase
      omega
    · have herase := localNames_eraseP he i
      simpa [Ne.symm hi] using herase
    · exact isLike_of_mem (mem_of_mem_eraseP he')

omit [DecidableEq Name] in
lemma Inv.step_unlinkRemoteName (id dir : ID) :
    Good useXAttrs s (s.unlinkRemoteName useXAttrs id dir) := by
  unfold unlinkRemoteName
  cases hf : s.files id with
  | none => exact good_of_inv h rfl
  | some f =>
    by_cases hremote : f.remoteNames = 0
    · simp only [hremote, if_true]
      exact good_of_inv h rfl
    · have hdrop : Dropped useXAttrs _ _ (FileRecord.unlinkFileInode useXAttrs _ (some dir)) :=
        (h.files id f hf).unlinkFileInode (by omega) hremote
      simp only [hremote, if_false]
      refine h.applyUnlinked hf rfl (by omega) hdrop rfl ?_ (fun _ _ => rfl)
        (fun _ => isLike_of_mem) fun hout => (and_eq_true_iff.mp hout).1
      have hleft : _ = f.remoteNames - 1 := hdrop.remote
      omega

omit [DecidableEq Name] in
lemma Inv.step_cleanUp {id : ID}
    (hsafe : ∀ f ∈ s.files id, useXAttrs = false → f.disposal = some true → f.mem = none) :
    Good useXAttrs s (s.cleanUp useXAttrs id) := by
  unfold cleanUp
  cases hf : s.files id with
  | none => exact good_of_inv h rfl
  | some f =>
    cases hdisp : f.disposal with
    | none =>
      simp only [hdisp]
      exact good_of_inv h rfl
    | some flag =>
      have hsound := h.files id f hf
      have hbusy : flag = true → f.mem = none := by
        rintro rfl
        exact hsafe f hf (hsound.useXAttrs_of_disposal hdisp) hdisp
      obtain ⟨hnames, hsnd', hrem, hremote, -, -, hout⟩ := hsound.cleanUp hdisp hbusy
      have hfresh : id ∉ s.handedOut := by
        intro hmem
        obtain ⟨g, hg, -, hnone⟩ := h.handed id hmem
        obtain rfl : f = g := Option.some.inj (hf.symm.trans hg)
        nomatch hdisp.symm.trans hnone
      simp only [hdisp, hrem, if_true]
      have hzero : localNames s.dentries id + f.remoteNames = 0 := hnames
      refine h.apply hfresh ⟨?_, fun _ _ => rfl, fun e he => ?_⟩ fun hhand => ?_
      · rw [hremote, hzero]
        exact hsnd'
      · split_ifs with hid
        · have hpos : 0 < localNames s.dentries id := countP_pos_iff.mpr ⟨e, he, by simpa using hid⟩
          omega
        · exact isLike_of_mem he
      · rw [hremote]
        exact ⟨hzero, hout (and_eq_true_iff.mp hhand).1⟩

omit [DecidableEq Name] in
/-- A dentry gets another name. -/
lemma Inv.renamed {p : Dentry ID Name → Bool} (he : s.dentries.find? p = some e) {toName : Name} :
    { s with dentries := { e with name := toName } :: s.dentries.eraseP p }.Inv useXAttrs := by
  refine ⟨fun i g hg => ?_, fun e' he' => ?_, fun i hi => ?_⟩
  · rw [localNames_renamed he]
    exact h.files i g hg
  · obtain ⟨e'', hmem, hid, hdir, hinl⟩ := mem_renamed he he'
    rw [← hid, ← hdir, ← hinl]
    exact h.dentries e'' hmem
  · obtain ⟨g, hg, hnames, hdisp⟩ := h.handed i hi
    exact ⟨g, hg, by rw [localNames_renamed he, hnames], hdisp⟩

lemma Inv.step_rename (dir : ID) (fromName toName : Name) :
    Good useXAttrs s (s.rename useXAttrs dir fromName toName) := by
  unfold Server.rename
  cases he : s.dentry? dir fromName with
  | none => exact good_of_inv h rfl
  | some e =>
    cases ho : s.dentry? dir toName with
    | none => exact good_of_inv (h.renamed he) rfl
    | some o =>
      by_cases hid : e.id = o.id
      · simp only [hid, if_true]
        exact good_of_inv h rfl
      · obtain ⟨_, _, g, hg, hoplace, _⟩ := h.found ho
        have hdrop := ((h.files o.id g hg).unlink (by omega) hoplace).2
        have hne : ¬o.isAt dir fromName := by
          intro hat
          obtain ⟨-, hfrom⟩ : o.dir = dir ∧ o.name = fromName := by simpa [isAt] using hat
          obtain ⟨-, hto⟩ : o.dir = dir ∧ o.name = toName := by
            simpa [isAt] using List.find?_some ho
          obtain rfl : fromName = toName := hfrom.symm.trans hto
          exact hid (congrArg Dentry.id (Option.some.inj (he.symm.trans ho)))
        have he' := (find?_eraseP_of_not ho hne).trans he
        simp only [hid, if_false, hg]
        refine h.applyUnlinked hg rfl (by omega) hdrop rfl ?_ (fun i hi => ?_)
          (fun e' hmem' => ?_)
          id
        · have herase := localNames_eraseP ho o.id
          rw [localNames_renamed he', hdrop.remote]
          simp at herase
          omega
        · have herase := localNames_eraseP ho i
          rw [localNames_renamed he']
          simpa [Ne.symm hi] using herase
        · obtain ⟨e'', hmem'', hsame⟩ := mem_renamed he' hmem'
          exact ⟨e'', mem_of_mem_eraseP hmem'', hsame⟩

lemma Inv.step_linkInSameDir {dir : ID} {fromName : Name} (toName : Name)
    (hlt : ∀ e ∈ s.dentry? dir fromName, s.numNames e.id + 1 < 2 ^ 32) :
    Good useXAttrs s (s.linkInSameDir useXAttrs dir fromName toName) := by
  unfold Server.linkInSameDir
  cases he : s.dentry? dir fromName with
  | none => exact good_of_inv h rfl
  | some e =>
    obtain ⟨hmem, _, f, hf, hplace, _⟩ := h.found he
    have hlt : localNames s.dentries e.id + f.remoteNames + 1 < 2 ^ 32 := by
      have hnames := hlt e he
      rwa [numNames, hf] at hnames
    simp only [hf]
    generalize hfree : (s.dentry? dir toName).isNone = nameFree
    obtain hnone | ⟨hremote, hinl, refs, hsome⟩ :=
      (h.files e.id f hf).linkInSameDir (by omega) hplace hlt nameFree
    · rw [hnone]
      exact good_of_inv h rfl
    · have hfresh := h.fresh hf (by omega)
      have hat : ∀ m, ∀ e' ∈ s.dentries, e'.id = e.id →
          (inlinedFile dir m refs).IsAt e'.dir e'.inlined := by
        intro m e' he' hid
        obtain ⟨g, hg, hplace'⟩ := h.dentries e' he'
        rw [hid, hf] at hg
        obtain rfl : f = g := Option.some.inj hg
        rw [hinl] at hplace
        exact hplace.symm.trans hplace'
      rw [hsome]
      cases nameFree with
      | false =>
        simp only [false_eq_true, if_false]
        refine h.linked hfresh ⟨?_, fun _ _ => rfl, fun e' he' => ?_⟩
        · rw [hremote]
          exact .inlined (by omega) (by omega)
        · split_ifs with hid
          · exact hat _ e' he' hid
          · exact isLike_of_mem he'
      | true =>
        simp only [if_true]
        refine h.linked hfresh ⟨?_, fun i hi => ?_, fun e' he' => ?_⟩
        · rw [localNames_cons, hremote]
          simp only [decide_true, toNat_true, Nat.add_zero]
          exact .inlined (by omega) (by omega)
        · simp [localNames_cons, Ne.symm hi]
        · rcases mem_cons.mp he' with rfl | he'
          · rw [if_pos rfl]
            exact hat _ e hmem rfl
          · split_ifs with hid
            · exact hat _ e' he' hid
            · exact isLike_of_mem he'

/-- A hard link that may go to another directory. -/
lemma Inv.step_makeNewHardlink {dir : ID} {name : Name}
    (hlt : ∀ e ∈ s.dentry? dir name, s.numNames e.id + 1 < 2 ^ 32)
    {make : FileRecord ID → Dentry ID Name → Option (FileRecord ID × List (Dentry ID Name))}
    (hmake : ∀ linked e made new, make linked e = some (made, new) →
      (∃ remote, made = { linked with remoteNames := remote } ∧
        localNames new e.id + remote = linked.remoteNames + 1) ∧
      ∀ e' ∈ new, e'.id = e.id ∧ e'.inlined = e.inlined) :
    Good useXAttrs s (s.makeNewHardlink useXAttrs dir name make) := by
  unfold Server.makeNewHardlink
  cases he : s.dentry? dir name with
  | none => exact good_of_inv h rfl
  | some e =>
    obtain ⟨_, _, f, hf, hplace, _⟩ := h.found he
    have hlt : localNames s.dentries e.id + f.remoteNames + 1 < 2 ^ 32 := by
      have hnames := hlt e he
      rwa [numNames, hf] at hnames
    obtain ⟨refs, hlink⟩ := (h.files e.id f hf).makeNewHardlink (by omega) hplace hlt
    simp only [hf, hlink]
    have hfresh := h.fresh hf (by omega)
    have hplaces : ∀ m remote, ∀ e' ∈ s.dentries.map (unsetInodeInlined e.id), if e'.id = e.id then
          (separateFile m remote none refs : FileRecord ID).IsAt e'.dir e'.inlined
        else e'.IsLike s.dentries := by
      intro m remote e' he'
      have hunset := mem_unsetInodeInlined he'
      split_ifs at hunset ⊢ with hid
      · rw [hunset]
        rfl
      · exact isLike_of_mem hunset
    cases hmk : make (separateFile (localNames s.dentries e.id + f.remoteNames + 1) f.remoteNames
        none refs) ⟨dir, name, e.id, false⟩ with
    | none =>
      simp only [FileRecord.undoLink_separateFile hlt]
      refine h.linked hfresh ⟨?_, fun i _ => localNames_unsetInodeInlined _ _ _, hplaces _ _⟩
      rw [localNames_unsetInodeInlined]
      exact .separate (by omega) (fun _ => rfl) nofun
    | some result =>
      obtain ⟨made, new⟩ := result
      obtain ⟨⟨remote, rfl, hnew⟩, hdents⟩ := hmake _ _ _ _ hmk
      have hnames : ∀ i, localNames (new ++ s.dentries.map (unsetInodeInlined e.id)) i =
          localNames new i + localNames s.dentries i := by
        intro i
        rw [← localNames_unsetInodeInlined s.dentries e.id i]
        exact countP_append
      refine h.linked hfresh ⟨?_, fun i hi => ?_, fun e' he' => ?_⟩
      · have hsum :
            localNames (new ++ s.dentries.map (unsetInodeInlined e.id)) e.id + remote =
            localNames s.dentries e.id + f.remoteNames + 1 := by
          rw [hnames]
          have hnew : localNames new e.id + remote = f.remoteNames + 1 := hnew
          omega
        rw [hsum]
        exact .separate hlt (fun _ => rfl) nofun
      · rw [hnames]
        have hzero : localNames new i = 0 := by
          refine countP_eq_zero.mpr fun e' he' hid => hi ?_
          rw [← (hdents e' he').1]
          exact (of_decide_eq_true hid).symm
        rw [hzero, Nat.zero_add]
      · rcases mem_append.mp he' with he' | he'
        · obtain ⟨hid, hflag⟩ := hdents e' he'
          rw [if_pos hid, hflag]
          rfl
        · exact hplaces _ _ e' he'

lemma Inv.step_createFile (dir : ID) (name : Name) (id : ID) :
    Good useXAttrs s (s.step useXAttrs (.createFile dir name id)) := by
  simp only [step]
  split_ifs with hexists
  · exact good_of_inv h rfl
  · obtain ⟨-, hnone⟩ : s.dentry? dir name = none ∧ s.files id = none := by simpa using hexists
    have hunused : ∀ e ∈ s.dentries, e.id ≠ id := by
      rintro e he rfl
      obtain ⟨f, hf, -⟩ := h.dentries e he
      nomatch hf.symm.trans hnone
    have hzero : localNames s.dentries id = 0 :=
      countP_eq_zero.mpr fun e he => by simpa using hunused e he
    have hfresh : id ∉ s.handedOut := by
      intro hmem
      obtain ⟨f, hf, -⟩ := h.handed id hmem
      nomatch hf.symm.trans hnone
    refine h.linked hfresh ⟨?_, fun i hi => ?_, fun e he => ?_⟩
    · change Sound useXAttrs (inlinedFile dir 1 0) (localNames _ id + 0)
      rw [localNames_cons, hzero]
      simp only [decide_true, toNat_true]
      exact .inlined (by omega) (by omega)
    · simp [localNames_cons, Ne.symm hi]
    · rcases mem_cons.mp he with rfl | he
      · rw [if_pos rfl]
        rfl
      · rw [if_neg (hunused e he)]
        exact isLike_of_mem he

end

/-- What an operation may not meet: a link count at its limit, and, in a disposal clean-up without
extended attributes, an open file whose disposal dentry says that the inode is inlined. -/
def Allowed (useXAttrs : Bool) (s : Server ID Name) : Op ID Name → Prop
  | .hardlink dir name _ _ | .hardlinkRemote dir name | .linkInSameDir dir name _ =>
    ∀ e ∈ s.dentry? dir name, s.numNames e.id + 1 < 2 ^ 32
  | .cleanUp id =>
    ∀ f ∈ s.files id, useXAttrs = false → f.disposal = some true → f.mem = none
  | _ => True

instance (useXAttrs : Bool) (s : Server ID Name) : (op : Op ID Name) → Decidable
    (s.Allowed useXAttrs op)
  | .hardlink dir name _ _ | .hardlinkRemote dir name | .linkInSameDir dir name _ =>
    inferInstanceAs (Decidable (∀ e ∈ s.dentry? dir name, s.numNames e.id + 1 < 2 ^ 32))
  | .cleanUp id =>
    inferInstanceAs (Decidable (∀ f ∈ s.files id, _ → f.disposal = some true → f.mem = none))
  | .createFile .. | .openFile _ | .closeFile _ | .unlinkFile .. | .unlinkRemoteName ..
  | .rename .. => isTrue trivial

lemma Inv.step (h : s.Inv useXAttrs) {op : Op ID Name} (hop : s.Allowed useXAttrs op) :
    Good useXAttrs s (s.step useXAttrs op) := by
  cases op with
  | createFile dir name id => exact h.step_createFile dir name id
  | openFile id | closeFile id =>
    cases hf : s.files id with
    | none =>
      simp only [Server.step, hf]
      exact good_of_inv h rfl
    | some f =>
      simp only [Server.step, hf]
      first
        | exact h.setFile hf (h.files id f hf).openFile
        | exact h.setFile hf (h.files id f hf).closeFile
  | hardlink dir name toDir toName =>
    rw [Server.step]
    refine h.step_makeNewHardlink hop fun linked e made new hmade => ?_
    split_ifs at hmade
    cases hmade
    refine ⟨⟨_, rfl, ?_⟩, fun e' he' => ?_⟩
    · simp [localNames, Nat.add_comm]
    · rw [mem_singleton.mp he']
      exact ⟨rfl, rfl⟩
  | hardlinkRemote dir name =>
    rw [Server.step]
    refine h.step_makeNewHardlink hop fun linked e made new hmade => ?_
    cases hmade
    exact ⟨⟨_, rfl, by simp [localNames]⟩, nofun⟩
  | linkInSameDir dir fromName toName => exact h.step_linkInSameDir toName hop
  | unlinkFile dir name => exact h.step_unlinkFile dir name
  | unlinkRemoteName id dir => exact h.step_unlinkRemoteName id dir
  | rename dir fromName toName => exact h.step_rename dir fromName toName
  | cleanUp id => exact h.step_cleanUp hop

/-! ## Runs -/

/-- In every run whose operations are allowed, after every operation the link count of each inode is
the number of its names, and an inode is handed out at most once, when it has no name left and no
session has it open. -/
theorem linkCounts_match_of_allowed (useXAttrs : Bool) (ops : List (Op ID Name))
    (hops : EveryStep (step useXAttrs) (Allowed useXAttrs) (start : Server ID Name) ops) :
    EveryStep (step useXAttrs)
      (fun s op => (s.step useXAttrs op).LinkCountsMatch ∧ s.HandsOutOnce useXAttrs op) start
      ops := by
  refine EveryStep.imp_of_invariant (I := Inv useXAttrs) ?_ ?_ inv_start hops
  · intro s op hop h
    exact (h.step hop).inv
  · intro s op hop h
    refine ⟨fun id f hf m hm => ?_, (h.step hop).once⟩
    rw [numNames, Option.mem_def.mp hf]
    exact ((h.step hop).inv.files id f hf).linkCounts m hm

/-- With extended attributes: a file is opened and linked, loses both names while it is open, meets
the disposal clean-up, is closed and cleaned up. -/
theorem linkCounts_match_open_file :
    EveryStep (step true) (Allowed true) (start : Server ℕ ℕ)
        [.createFile 0 0 1, .openFile 1, .hardlink 0 0 2 0, .unlinkFile 0 0, .unlinkFile 2 0,
          .cleanUp 1, .closeFile 1, .cleanUp 1] ∧ EveryStep (step true)
        (fun s op => (s.step true op).LinkCountsMatch ∧ s.HandsOutOnce true op)
        (start : Server ℕ ℕ)
        [.createFile 0 0 1, .openFile 1, .hardlink 0 0 2 0, .unlinkFile 0 0, .unlinkFile 2 0,
          .cleanUp 1, .closeFile 1, .cleanUp 1] :=
  ⟨by decide +kernel, linkCounts_match_of_allowed true _ (by decide +kernel)⟩

/-- Without extended attributes: a file with an inlined inode is unlinked while it is open, and the
disposal clean-up runs before it is closed.  The disposal dentry still says that the inode is
inlined, and the link count wraps from `0` to `2 ^ 32 - 1`. -/
theorem cleanUp_wraps_linkCount :
    ¬EveryStep (step false)
      (fun s op => (s.step false op).LinkCountsMatch ∧ s.HandsOutOnce false op)
      (start : Server ℕ ℕ)
      [.createFile 0 0 1, .openFile 1, .unlinkFile 0 0, .cleanUp 1] := by
  rintro ⟨-, -, -, ⟨hmatch, -⟩, -⟩
  have hwrapped := hmatch 1 _ rfl (2 ^ 32 - 1) (by decide +kernel)
  exact absurd hwrapped (by decide +kernel)

end Server

end Server

end Beegfs.Links
