import Beegfs.Pmq.Invariant

/-!
# What the persister does to the files

Every file operation leaves the files in a state from which the queue is recovered after a crash,
and the persister's positions advance only after the files do.  Each function of the persister has
one lemma that says where it leaves the positions, whether it returns `true` or `false`, and that a
crash in it is harmless.
-/

namespace Beegfs

open List Nat

open SeqNum DurableFile

namespace Pmq

/-! ## Outcomes of file operations -/

/-- No file operation fails. -/
def NoFail (io : List IoOutcome) : Prop := ∀ written, IoOutcome.fail written ∉ io

lemma NoFail.suffix {io io' : List IoOutcome} (h : NoFail io) (hsuf : io' <:+ io) : NoFail io' :=
  fun written hmem => h written (hsuf.subset hmem)

/-- The persister leaves the sizes of the files, the ring of slots and the enqueuer's cursors. -/
structure Kept (q q' : Pmq) : Prop where
  chunkStore : q'.chunkStore = q.chunkStore
  slotsfileSizeBytes : q'.slotsfileSizeBytes = q.slotsfileSizeBytes
  slots : q'.slots = q.slots
  inQueueCursors : q'.inQueueCursors = q.inQueueCursors
  pubInQueueCursors : q'.pubInQueueCursors = q.pubInQueueCursors

variable (q : Pmq)

lemma Kept.refl : Kept q q := ⟨rfl, rfl, rfl, rfl, rfl⟩

lemma Kept.trans {q q' q'' : Pmq} (h : Kept q q') (h' : Kept q' q'') : Kept q q'' where
  chunkStore := h'.chunkStore.trans h.chunkStore
  slotsfileSizeBytes := h'.slotsfileSizeBytes.trans h.slotsfileSizeBytes
  slots := h'.slots.trans h.slots
  inQueueCursors := h'.inQueueCursors.trans h.inQueueCursors
  pubInQueueCursors := h'.pubInQueueCursors.trans h.pubInQueueCursors

lemma Kept.sized {cks : ChunkStore} {q q' : Pmq} (h : Kept q q') (hq : Sized cks q) :
    Sized cks q' :=
  ⟨h.chunkStore.trans hq.chunkStore, h.slotsfileSizeBytes.trans hq.slotsfileSizeBytes⟩

/-- `q'` differs from `q` only in the persister's cursors and files. -/
structure Persisted (q q' : Pmq) : Prop extends Kept q q' where
  chunkQueue : q'.chunkQueue = q.chunkQueue

lemma Persisted.refl : Persisted q q := ⟨Kept.refl q, rfl⟩

lemma Persisted.trans {q q' q'' : Pmq} (h : Persisted q q') (h' : Persisted q' q'') :
    Persisted q q'' :=
  ⟨h.toKept.trans h'.toKept, h'.chunkQueue.trans h.chunkQueue⟩

lemma persisted_update (per : Persister) (io : List IoOutcome) :
    Persisted q { q with persister := per, io := io } :=
  ⟨⟨rfl, rfl, rfl, rfl, rfl⟩, rfl⟩

/-- The result of a call in `q`: when it returns `true`, the state meets `T`, and when it returns
`false`, a file operation has failed and the state meets `F`. -/
def Outcome (T F : Pmq → Prop) : Bool → Pmq → Prop
  | true, q' => q'.io <:+ q.io ∧ T q'
  | false, q' => ¬NoFail q.io ∧ F q'

/-- The program, begun in `q`, stops only at a crash, in a state that meets `P`. -/
def Halts (P : Pmq → Prop) (e : Halt) (q' : Pmq) : Prop := e = .crash ∧ .crash ∈ q.io ∧ P q'

/-- The call, begun in `q`, returns with an outcome of `T` and `F`, or stops at a crash with `P`. -/
def Runs (m : PmqM Bool) (T F P : Pmq → Prop) : Prop := Wp m q (Outcome q T F) (Halts q P)

section Rules

variable {q : Pmq} {E : Halt → Pmq → Prop} {T T' F F' P P' : Pmq → Prop} {f g : PmqM Bool}

/-- What is known of a call is weakened; that it has failed says that a file operation has. -/
lemma Runs.mono (h : Runs q f T F P) (hT : ∀ q', T q' → T' q')
    (hF : ∀ q', ¬NoFail q.io → F q' → F' q') (hP : ∀ q', P q' → P' q') : Runs q f T' F' P' := by
  refine Wp.mono h (fun result q' hres => ?_) fun _ q' h => ⟨h.1, h.2.1, hP q' h.2.2⟩
  cases result with
  | true => exact ⟨hres.1, hT q' hres.2⟩
  | false => exact ⟨hres.1, hF q' hres.1 hres.2⟩

lemma wp_pmqAssert {Q : Unit → Pmq → Prop} {c : Bool} (hc : c = true) (hQ : Q () q) :
    Wp (pmqAssert c) q Q E := by
  rw [pmqAssert, if_pos hc]
  exact hQ

/-- An outcome other than `ok` is in the list. -/
lemma mem_of_headD_eq {io : List IoOutcome} {outcome : IoOutcome} (h : io.headD .ok = outcome)
    (hne : outcome ≠ .ok) : outcome ∈ io := by
  cases io with
  | nil => exact absurd h.symm hne
  | cons first rest =>
    rw [← h]
    exact mem_cons_self

variable {failed : ℕ → Persister → Persister} {done : Persister → Persister}

/-- A file operation succeeds, fails, or is the last thing before a crash. -/
lemma wp_fileOp (hdone : ∀ q', Persisted q q' → q'.persister = done q.persister → T q')
    (hfailed : ∀ written q', Persisted q q' → q'.persister = failed written q.persister → F q')
    (hcrash : ∀ q', Persisted q q' → q'.persister = q.persister → P q') :
    Runs q (fileOp done failed) T F P := by
  unfold Runs fileOp nextOutcome
  rw [wp_bind, wp_modifyGet]
  have htail : q.io.tail <:+ q.io := tail_suffix q.io
  cases hq : q.io.headD .ok with
  | ok => exact ⟨htail, hdone _ (persisted_update _ _ _) rfl⟩
  | fail written =>
    refine ⟨fun h => h written ?_, hfailed written _ (persisted_update _ _ _) rfl⟩
    exact mem_of_headD_eq hq nofun
  | crash => exact ⟨rfl, mem_of_headD_eq hq (by decide), hcrash _ (persisted_update _ _ _) rfl⟩

/-- One call after the other, unless the first one fails. -/
lemma wp_seq (hf : Runs q f T F P) (hg : ∀ q', q'.io <:+ q.io → T q' → Runs q' g T' F P) :
    Runs q (do
      if !(← f) then
        return false
      g) T' F P := by
  rw [Runs, wp_bind]
  refine Wp.mono hf (fun result q' hres => ?_) fun _ _ h => h
  cases result with
  | true =>
    obtain ⟨hio, hT⟩ := hres
    refine Wp.mono (hg q' hio hT) (fun result q'' hres => ?_) fun e q'' h => ?_
    · cases result with
      | true => exact ⟨hres.1.trans hio, hres.2⟩
      | false => exact ⟨fun h => hres.1 (h.suffix hio), hres.2⟩
    · exact ⟨h.1, hio.subset h.2.1, h.2.2⟩
  | false => exact hres

lemma wp_fileOp_seq (hcrash : ∀ q', Persisted q q' → q'.persister = q.persister → P q')
    (hfailed : ∀ written q', Persisted q q' → q'.persister = failed written q.persister → F q')
    (hg : ∀ q', Persisted q q' → q'.persister = done q.persister → Runs q' g T F P) :
    Runs q (do
      if !(← fileOp done failed) then
        return false
      g) T F P :=
  wp_seq (wp_fileOp (fun _ hq' hper => And.intro hq' hper) hfailed hcrash)
    fun q' _ h => hg q' h.1 h.2

end Rules

/-! ## The files, one operation at a time -/

section Files

variable {msg : ℕ → Message} {cks : ChunkStore} {n : ℕ} {p pub r : Marks} {per : Persister}

section

variable (h : Disk msg cks n p pub per)

include h

/-- An operation on `chunks.dat` that does not touch the chunks that are stored. -/
lemma Disk.chunkFile {file : DurableFile ℕ Page} (hcont : ∀ j, p.discarded ≤ j → j < p.stored →
      file.contents (j % cks.chunkCount) = per.chunkFile.contents (j % cks.chunkCount))
    (halways : ∀ j, p.discarded ≤ j → j < p.stored → ∀ P : Page → Prop,
      per.chunkFile.Always (j % cks.chunkCount) P → file.Always (j % cks.chunkCount) P) :
    Disk msg cks n p pub { per with chunkFile := file } := by
  refine { h with chunks := fun j hdj hjk => ?_, records := fun record hrec => ?_ }
  · rw [hcont j hdj hjk]
    exact h.chunks j hdj hjk
  · obtain ⟨r, hr, hbtw, hprom⟩ := h.records record hrec
    refine ⟨r, hr, hbtw, fun j hdj hjk => ?_, hprom.wal⟩
    exact halways j (hbtw.discarded.trans hdj) (hjk.trans_le hbtw.stored) _ (hprom.chunks j hdj hjk)

/-- An operation on `wal.dat` that does not touch the slots of committed records. -/
lemma Disk.slotsFile {file : DurableFile ℕ Slot}
    (halways : ∀ i, chunkStart msg pub.stored ≤ i → i < p.walled → ∀ t, t < (msg i).nslots →
      ∀ P : Slot → Prop, per.slotsFile.Always ((slotPos msg i + t) % slotCount) P →
        file.Always ((slotPos msg i + t) % slotCount) P) :
    Disk msg cks n p pub { per with slotsFile := file } := by
  refine { h with wal := fun i hi hiw t ht => ?_, records := fun record hrec => ?_ }
  · exact halways i (le_trans (chunkStart_le msg h.pub_stored) hi) hiw t ht _ (h.wal i hi hiw t ht)
  · obtain ⟨r, hr, hbtw, hprom⟩ := h.records record hrec
    refine ⟨r, hr, hbtw, hprom.chunks, fun i hi hiw t ht => ?_⟩
    exact halways i (le_trans (chunkStart_le msg hbtw.pub_stored) hi)
      (hiw.trans_le hbtw.walled) t ht _ (hprom.wal i hi hiw t ht)

lemma Disk.fsyncChunkFile : Disk msg cks n p pub { per with chunkFile := per.chunkFile.fsync } :=
  h.chunkFile (fun _ _ _ => rfl) fun _ _ _ _ halways =>
    always_fsync halways.contents

lemma Disk.fsyncSlotsFile : Disk msg cks n p pub { per with slotsFile := per.slotsFile.fsync } :=
  h.slotsFile fun _ _ _ _ _ _ halways => always_fsync halways.contents

/-- The chunk after those in the store may be written, as long as the store is not full. -/
lemma Disk.writeChunk (hroom : p.stored < p.discarded + cks.chunkCount) (page : Page) :
    Disk msg cks n p pub (per.writeChunk (p.stored % cks.chunkCount) page) := by
  have hne : ∀ j, p.discarded ≤ j → j < p.stored →
      ¬j % cks.chunkCount = p.stored % cks.chunkCount :=
    fun j hdj hjk => mod_ne_mod hjk (by omega)
  refine h.chunkFile (fun j hdj hjk => ?_) fun j hdj hjk P halways => ?_
  · rw [contents_write, if_neg (hne j hdj hjk)]
  · exact halways.write fun heq => absurd heq (hne j hdj hjk)

/-- After the chunk was written, the store has one more. -/
lemma Disk.advance (hroom : p.stored < p.discarded + cks.chunkCount)
    (hle : chunkStart msg (p.stored + 1) ≤ n)
    (hpage : HoldsChunk msg p.stored (per.chunkFile.contents (p.stored % cks.chunkCount))) :
    Disk msg cks n { p with stored := p.stored + 1 } pub
      { per with persistCursors := Marks.cursors msg { p with stored := p.stored + 1 } } := by
  refine { h with
    cursors := rfl
    pub_stored := le_succ_of_le h.pub_stored
    discarded_le := le_succ_of_le h.discarded_le
    stored_le := hroom
    stored_msgs_le := hle
    chunks := fun j hdj hjk => ?_
    wal := fun i hi => h.wal i (le_trans (chunkStart_le msg (le_succ p.stored)) hi)
    records := fun record hrec => ?_ }
  · rcases Nat.lt_succ_iff_lt_or_eq.mp hjk with hlt | rfl
    · exact h.chunks j hdj hlt
    · exact hpage
  · obtain ⟨r, hr, hbtw, hprom⟩ := h.records record hrec
    exact ⟨r, hr, { hbtw with stored := le_succ_of_le hbtw.stored }, ⟨hprom.chunks, hprom.wal⟩⟩

end

/-! ## Commits -/

/-- The number of chunks that are discarded by a commit. -/
@[irreducible] def Marks.nextDiscard (cks : ChunkStore) (p : Marks) : ℕ :=
  if p.stored - p.discarded < cks.chunksHighWatermark then p.discarded
  else p.stored - cks.chunksLowWatermark

open ChunkStore

lemma Marks.le_nextDiscard (cks : ChunkStore) (h : p.discarded ≤ p.stored) :
    p.discarded ≤ p.nextDiscard cks ∧ p.nextDiscard cks ≤ p.stored := by
  unfold Marks.nextDiscard chunksHighWatermark chunksLowWatermark
  split <;> omega

/-- After a commit the store has room for at least 256 chunks. -/
lemma Marks.stored_add_lt (h : p.stored ≤ p.discarded + cks.chunkCount) :
    p.stored + 256 ≤ p.nextDiscard cks + cks.chunkCount := by
  have hcount := cks.le_chunkCount
  unfold Marks.nextDiscard chunksHighWatermark chunksLowWatermark
  split <;> omega

/-- The positions after a commit. -/
def Marks.committed (cks : ChunkStore) (p : Marks) : Marks :=
  { p with discarded := p.nextDiscard cks }

variable {q : Pmq} (hq : Sized cks q) (h : Disk msg cks n p pub q.persister)

include hq h in
lemma computeNextDiscardCsn_eq : computeNextDiscardCsn q = BitVec.ofNat 64 (p.nextDiscard cks) := by
  have hcount := cks.chunkCount_le
  have hle := h.stored_le
  have hdist : (q.persister.persistCursors.cksCsn -
      q.persister.persistCursors.cksDiscardCsn).toNat = p.stored - p.discarded := by
    rw [h.cursors]
    exact toNat_sub h.discarded_le (by omega)
  unfold computeNextDiscardCsn Marks.nextDiscard
  rw [hq.chunkStore]
  simp only [hdist]
  split
  · rw [h.cursors]
    rfl
  next hhigh =>
    rw [h.cursors]
    refine ofNat_sub ?_
    unfold chunksHighWatermark at hhigh
    unfold chunksLowWatermark
    omega

include hq h in
/-- A commit writes the record with the persister's positions. -/
lemma commitRecord_eq : commitRecord q = (p.committed cks).record msg cks := by
  unfold commitRecord
  rw [computeNextDiscardCsn_eq hq h, hq.slotsfileSizeBytes, hq.chunkStore, h.cursors]
  rfl

/-- The record may be written when the chunks that it promises are on the disk. -/
lemma Disk.writeRecord (h : Disk msg cks n p pub per)
    (hchs : ∀ j, p.discarded ≤ j → j < p.stored →
      per.chunkFile.Always (j % cks.chunkCount) (HoldsChunk msg j)) :
    Disk msg cks n p pub (per.writeState ((p.committed cks).record msg cks)) := by
  obtain ⟨hle, hle'⟩ := Marks.le_nextDiscard cks h.discarded_le
  have hprom : Promised msg cks (p.committed cks) per :=
    ⟨fun j hdj hjk => hchs j (hle.trans hdj) hjk, h.wal⟩
  refine { h with records := fun record hrec => ?_ }
  rcases hrec.of_write with hrec | ⟨_, rfl⟩
  · obtain ⟨r, hr, hbtw, hr'⟩ := h.records record hrec
    exact ⟨r, hr, hbtw, ⟨hr'.chunks, hr'.wal⟩⟩
  · exact ⟨p.committed cks, rfl, ⟨h.pub_stored, le_rfl, h.pub_walled, le_rfl, hle,
      hle'⟩, ⟨hprom.chunks, hprom.wal⟩⟩

/-- The record is on the disk, and is published. -/
lemma Disk.publish (h : Disk msg cks n p pub per) (hchs : ∀ j, p.discarded ≤ j → j < p.stored →
      per.chunkFile.Always (j % cks.chunkCount) (HoldsChunk msg j))
    (hstate : per.stateFile.contents () = (p.committed cks).record msg cks) :
    Disk msg cks n (p.committed cks) (p.committed cks) { per with
      stateFile := per.stateFile.fsync
      persistCursors := (p.committed cks).cursors msg
      pubPersistCursors := (p.committed cks).cursors msg } := by
  obtain ⟨hle, hle'⟩ := Marks.le_nextDiscard cks h.discarded_le
  have hroom := Marks.stored_add_lt h.stored_le
  refine { h with
    cursors := rfl
    pubCursors := rfl
    pub_discarded := rfl
    pub_stored := le_rfl
    pub_walled := le_rfl
    discarded_le := hle'
    stored_le := by change p.stored ≤ p.nextDiscard cks + cks.chunkCount; omega
    ring := ?_
    chunks := fun j hdj hjk => h.chunks j (hle.trans hdj) hjk
    durable := hstate
    records := fun record hrec => ?_ }
  · have hpos := slotPos_le msg (chunkStart_le msg h.pub_stored)
    have hring := h.ring
    change slotPos msg n ≤ slotPos msg (chunkStart msg p.stored) + slotCount
    omega
  · rcases hrec with rfl | hmem
    · refine ⟨p.committed cks, hstate, ⟨le_rfl, le_rfl, le_rfl, le_rfl,
        le_rfl, hle'⟩, ⟨fun j hdj hjk => hchs j (hle.trans hdj) hjk, h.wal⟩⟩
    · cases hmem

variable (msg cks n) in
/-- The files of a queue that has crashed: they were as the persister leaves them between two file
operations, and the first `w` messages were committed. -/
def Crashed (w : ℕ) (q : Pmq) : Prop := ∃ p pub, Disk msg cks n p pub q.persister ∧ w ≤ pub.walled

lemma Crashed.mono {w w' : ℕ} (hw : w' ≤ w) (q : Pmq) (h : Crashed msg cks n w q) :
    Crashed msg cks n w' q := by
  obtain ⟨p, pub, hdisk, hle⟩ := h
  exact ⟨p, pub, hdisk, hw.trans hle⟩

include h in
lemma Disk.crashed : Crashed msg cks n pub.walled q := ⟨p, pub, h, le_rfl⟩

include hq h in
/-- A commit leaves the positions of its record, or what was there before. -/
lemma commit_spec :
    Runs q commit
      (fun q' => Persisted q q' ∧ Disk msg cks n (p.committed cks) (p.committed cks) q'.persister ∧
        q'.persister.commits = (p.committed cks).record msg cks :: q.persister.commits)
      (fun q' => Persisted q q' ∧ Disk msg cks n p pub q'.persister)
      (Crashed msg cks n pub.walled) := by
  have hsyn := h.fsyncChunkFile
  have hchs : ∀ j, p.discarded ≤ j → j < p.stored →
      q.persister.chunkFile.fsync.Always (j % cks.chunkCount) (HoldsChunk msg j) :=
    fun j hdj hjk => always_fsync (h.chunks j hdj hjk)
  have hwrit := hsyn.writeRecord hchs
  refine wp_fileOp_seq (fun q1 _ hper1 => (hper1 ▸ h).crashed)
    (fun _ q1 hq1 hper1 => ⟨hq1, hper1 ▸ h⟩) fun q1 hq1 hper1 => ?_
  rw [← hper1] at hsyn hwrit
  rw [Runs, wp_bind, wp_get]
  simp only [commitRecord_eq (hq1.sized hq) hsyn]
  refine wp_fileOp_seq (fun q2 _ hper2 => (hper2 ▸ hsyn).crashed)
    (fun written q2 hq2 hper2 => ⟨hq1.trans hq2, ?_⟩) fun q2 hq2 hper2 => ?_
  · rw [hper2]
    split
    · exact hsyn
    · exact hwrit
  rw [← hper2] at hwrit
  refine wp_fileOp_seq (fun q3 _ hper3 => (hper3 ▸ hwrit).crashed)
    (fun written q3 hq3 hper3 => ⟨(hq1.trans hq2).trans hq3, hper3 ▸ hwrit⟩)
    fun q3 hq3 hper3 => ?_
  have hpub : (publish (BitVec.ofNat 64 (p.nextDiscard cks)) q3).persister =
      { q2.persister with
        stateFile := q2.persister.stateFile.fsync
        persistCursors := (p.committed cks).cursors msg
        pubPersistCursors := (p.committed cks).cursors msg } := by
    unfold publish
    rw [hper3]
    simp only [hwrit.cursors]
    rfl
  have hcont : q2.persister.stateFile.contents () = (p.committed cks).record msg cks := by
    rw [hper2]
    rfl
  have hchs2 : q2.persister.chunkFile = q.persister.chunkFile.fsync := by
    rw [hper2, hper1]
    rfl
  rw [← hchs2] at hchs
  refine ⟨suffix_refl _, ?_, ?_, ?_⟩
  · exact ((hq1.trans hq2).trans hq3).trans (persisted_update _ _ _)
  · change Disk msg cks n _ _ (publish (BitVec.ofNat 64 (p.nextDiscard cks)) q3).persister
    rw [hpub]
    exact hwrit.publish hchs hcont
  · change (publish (BitVec.ofNat 64 (p.nextDiscard cks)) q3).persister.commits = _
    rw [hpub, hper2, hper1]
    rfl

/-! ## Finished chunks -/

/-- What the persister does to its positions before it writes slots. -/
structure Moved (p pub p' pub' : Marks) : Prop where
  stored : p.stored ≤ p'.stored
  walled : p'.walled = p.walled
  pub_stored : pub.stored ≤ pub'.stored
  pub_walled : pub.walled ≤ pub'.walled

lemma Moved.refl (p pub : Marks) : Moved p pub p pub := ⟨le_rfl, rfl, le_rfl, le_rfl⟩

lemma Moved.trans {p' pub' p'' pub'' : Marks} (h : Moved p pub p' pub')
    (h' : Moved p' pub' p'' pub'') : Moved p pub p'' pub'' :=
  ⟨h.stored.trans h'.stored, h'.walled.trans h.walled,
    h.pub_stored.trans h'.pub_stored, h.pub_walled.trans h'.pub_walled⟩

variable (msg cks) in
/-- A commit was made because the chunk store was full. -/
def FullCommit (p : Marks) (commits : List CommitRecord) : Prop :=
  ∃ r : Marks, r.stored = p.discarded + cks.chunkCount ∧ r.walled = p.walled ∧
    r.record msg cks ∈ commits

variable (msg cks) in
/-- Commits are made only when the chunk store is full. -/
def CommitsWhenFull (p : Marks) (per : Persister) (p' : Marks) (per' : Persister) : Prop :=
  (p'.discarded = p.discarded ∧ per'.commits = per.commits) ∨
    (p.discarded + cks.chunkCount < p'.stored ∧ per.commits <:+ per'.commits ∧
      FullCommit msg cks p per'.commits)

lemma CommitsWhenFull.trans {p' pub' p'' : Marks} {per' per'' : Persister}
    (hmoved : Moved p pub p' pub') (h : CommitsWhenFull msg cks p per p' per')
    (hsto : p'.stored ≤ p''.stored) (h' : CommitsWhenFull msg cks p' per' p'' per'') :
    CommitsWhenFull msg cks p per p'' per'' := by
  rcases h with ⟨hd, hcom⟩ | ⟨hlt, hsuf, r, hr, hw, hmem⟩
  · rcases h' with ⟨hd', hcom'⟩ | ⟨hlt', hsuf', r', hr', hw', hmem'⟩
    · exact .inl ⟨hd'.trans hd, hcom'.trans hcom⟩
    · rw [hd] at hlt' hr'
      rw [hmoved.walled] at hw'
      rw [hcom] at hsuf'
      exact .inr ⟨hlt', hsuf', r', hr', hw', hmem'⟩
  · have hsuf' : per'.commits <:+ per''.commits := by
      rcases h' with ⟨_, hcom'⟩ | ⟨_, hsuf', _⟩
      · rw [hcom']
      · exact hsuf'
    exact .inr ⟨by omega, hsuf.trans hsuf', r, hr, hw, hsuf'.subset hmem⟩

lemma Disk.stored_dist (h : Disk msg cks n p pub per) :
    (BitVec.ofNat 64 p.stored - per.persistCursors.cksDiscardCsn).toNat =
      p.stored - p.discarded := by
  have hcount := cks.chunkCount_le
  have hle := h.stored_le
  rw [h.cursors]
  exact toNat_sub h.discarded_le (by omega)

include hq h in
/-- When the store is full, a commit makes room for the next chunk. -/
lemma discardIfFull_spec :
    Runs q (discardIfFull (BitVec.ofNat 64 p.stored))
      (fun q' => Persisted q q' ∧ ∃ p' pub', Disk msg cks n p' pub' q'.persister ∧
        p'.stored = p.stored ∧ p.stored < p'.discarded + cks.chunkCount ∧ Moved p pub p' pub' ∧
        ((p'.discarded = p.discarded ∧ q'.persister.commits = q.persister.commits) ∨
          (p.stored = p.discarded + cks.chunkCount ∧ q'.persister.commits =
            (p.committed cks).record msg cks :: q.persister.commits)))
      (fun q' => Persisted q q' ∧ Disk msg cks n p pub q'.persister)
      (Crashed msg cks n pub.walled) := by
  have hle := h.stored_le
  have hd := h.discarded_le
  have hroom := Marks.stored_add_lt hle
  unfold Runs discardIfFull
  rw [wp_bind, wp_get, h.stored_dist, hq.chunkStore, wp_ite]
  refine ⟨fun hfull => ?_, fun hfull => ?_⟩
  · refine (commit_spec hq h).mono (fun q' h' => ?_) (fun _ _ h' => h') fun _ h' => h'
    obtain ⟨hq', hdisk, hcom⟩ := h'
    refine ⟨hq', p.committed cks, p.committed cks, hdisk, rfl, ?_, ?_, .inr ⟨by omega, hcom⟩⟩
    · change p.stored < p.nextDiscard cks + cks.chunkCount
      omega
    · exact ⟨le_rfl, rfl, h.pub_stored, h.pub_walled⟩
  · refine ⟨suffix_refl _, Persisted.refl q, p, pub, h, rfl, ?_, Moved.refl p pub,
      .inl ⟨rfl, rfl⟩⟩
    omega

include h in
/-- The chunk is in the store, and the cursors say so. -/
lemma Disk.advanceChunkStore (hroom : p.stored < p.discarded + cks.chunkCount)
    (hfin : Finished msg p.stored q.chunkQueue) (hle : chunkStart msg (p.stored + 1) ≤ n)
    (hpage : q.persister.chunkFile.contents (p.stored % cks.chunkCount) =
      q.chunkQueue.page (p.stored % 2)) :
    Disk msg cks n { p with stored := p.stored + 1 } pub
      (advanceChunkStore (BitVec.ofNat 64 p.stored) q).persister := by
  have hcurs : (Pmq.advanceChunkStore (BitVec.ofNat 64 p.stored) q).persister =
      { q.persister with
        persistCursors := Marks.cursors msg { p with stored := p.stored + 1 } } := by
    unfold Pmq.advanceChunkStore
    rw [slotFor_numChunkBuffers]
    simp only [h.cursors, hfin.lastMsn, hfin.lastSsn, Marks.cursors, ofNat_add_one]
  rw [hcurs]
  refine h.advance hroom hle ?_
  rw [hpage]
  exact hfin.page

variable (msg cks n p pub q) in
/-- A call writes the chunks before chunk `K`; if a file operation fails, not all of them. -/
def WritesChunks (K : ℕ) (m : PmqM Bool) : Prop :=
  Runs q m
    (fun q' => Persisted q q' ∧ ∃ p' pub', Disk msg cks n p' pub' q'.persister ∧ p'.stored = K ∧
      Moved p pub p' pub' ∧ CommitsWhenFull msg cks p q.persister p' q'.persister)
    (fun q' => Persisted q q' ∧ ∃ p' pub', Disk msg cks n p' pub' q'.persister ∧ p'.stored < K ∧
      Moved p pub p' pub')
    (Crashed msg cks n pub.walled)

include hq h in
/-- The next chunk is written when it is finished. -/
lemma persistChunk_spec (hfin : Finished msg p.stored q.chunkQueue)
    (hle : chunkStart msg (p.stored + 1) ≤ n) :
    WritesChunks msg cks n p pub q (p.stored + 1) (persistChunk (BitVec.ofNat 64 p.stored)) := by
  have hsto := h.stored_le
  rw [WritesChunks, Runs, persistChunk, wp_bind, wp_get, wp_bind]
  refine wp_pmqAssert ?_ ?_
  · rw [h.stored_dist, hq.chunkStore, decide_eq_true_eq]
    omega
  refine wp_seq ((discardIfFull_spec hq h).mono (fun _ h' => h') (fun q' _ h' =>
    ⟨h'.1, p, pub, h'.2, lt_succ_self _, Moved.refl p pub⟩) fun _ h' => h') ?_
  rintro q1 - ⟨hq1, p1, pub1, h1, hsto1, hroom1, hmov1, hcom1⟩
  have hsized1 := hq1.sized hq
  have hd1 := h1.discarded_le
  rw [← hsto1] at hroom1 hfin hle ⊢
  rw [Runs, wp_bind, wp_get, wp_bind]
  refine wp_pmqAssert ?_ ?_
  · rw [h1.stored_dist, hsized1.chunkStore, decide_eq_true_eq]
    omega
  simp only [hsized1.chunkStore, slotFor_chunkCount, slotFor_numChunkBuffers]
  have h2 := h1.writeChunk hroom1
  refine wp_fileOp_seq (fun q2 _ hper2 => ?_) (fun written q2 hq2 hper2 => ?_)
    fun q2 hq2 hper2 => ?_
  · exact Crashed.mono hmov1.pub_walled q2 (hper2 ▸ h1).crashed
  · exact ⟨hq1.trans hq2, p1, pub1, hper2 ▸ h2 _, lt_succ_self _, hmov1⟩
  rw [← hq1.chunkQueue, ← hq2.chunkQueue] at hfin
  have hpage : q2.persister.chunkFile.contents (p1.stored % cks.chunkCount) =
      q2.chunkQueue.page (p1.stored % 2) := by
    rw [hper2, hq2.chunkQueue, Persister.writeChunk, contents_write, if_pos rfl]
  have hdisk2 : Disk msg cks n p1 pub1 q2.persister := hper2 ▸ h2 _
  have hcom2 : q2.persister.commits = q1.persister.commits := by
    rw [hper2]
    rfl
  refine ⟨suffix_refl _, (hq1.trans hq2).trans (persisted_update _ _ _),
    { p1 with stored := p1.stored + 1 }, pub1,
    hdisk2.advanceChunkStore hroom1 hfin hle hpage, rfl, ?_, ?_⟩
  · exact ⟨by change p.stored ≤ p1.stored + 1; omega, hmov1.walled, hmov1.pub_stored,
      hmov1.pub_walled⟩
  · change _ ∧ q2.persister.commits = _ ∨ _ ∧ _ <:+ q2.persister.commits ∧
      FullCommit _ _ _ q2.persister.commits
    rw [hcom2]
    rcases hcom1 with ⟨hd1, hcom1⟩ | ⟨hfull, hcom1⟩
    · exact .inl ⟨hd1, hcom1⟩
    · rw [hcom1]
      refine .inr ⟨?_, suffix_cons _ _, p.committed cks, hfull, rfl, mem_cons_self⟩
      change p.discarded + cks.chunkCount < p1.stored + 1
      omega

include hq h in
/-- The finished chunks are written one after the other. -/
lemma persistFinishedLoop_spec {turns : ℕ}
    (hfin : ∀ j, p.stored ≤ j → j < p.stored + turns → Finished msg j q.chunkQueue)
    (hle : chunkStart msg (p.stored + turns) ≤ n) :
    WritesChunks msg cks n p pub q (p.stored + turns)
      (persistFinishedLoop turns (BitVec.ofNat 64 p.stored)) := by
  induction turns generalizing q p pub with
  | zero =>
    exact ⟨suffix_refl _, Persisted.refl q, p, pub, h, rfl, Moved.refl p pub, .inl ⟨rfl, rfl⟩⟩
  | succ turns ih =>
    have hnext := hfin p.stored le_rfl (by omega)
    have hfirst := persistChunk_spec hq h hnext (le_trans (chunkStart_le msg (by omega)) hle)
    refine wp_seq (Runs.mono hfirst (fun _ h' => h') (fun q' _ h' => ?_) fun _ h' => h') ?_
    · obtain ⟨hq', p', pub', h', hsto', hmov'⟩ := h'
      exact ⟨hq', p', pub', h', by omega, hmov'⟩
    rintro _ - ⟨hq1, p1, _, h1, hsto1, hmov1, hcom1⟩
    have hturns : p.stored + (turns + 1) = p1.stored + turns := by omega
    rw [hturns] at hfin hle ⊢
    rw [ofNat_add_one, ← hsto1]
    refine Runs.mono (ih (hq1.sized hq) h1 (fun j hj hj' => ?_) hle) (fun q' h' => ?_)
      (fun q' _ h' => ?_) (Crashed.mono hmov1.pub_walled)
    · rw [hq1.chunkQueue]
      exact hfin j (hmov1.stored.trans hj) hj'
    · obtain ⟨hq', p', pub', h', hsto', hmov', hcom'⟩ := h'
      exact ⟨hq1.trans hq', p', pub', h', hsto', hmov1.trans hmov',
        hcom1.trans hmov1 hmov'.stored hcom'⟩
    · obtain ⟨hq', p', pub', h', hsto', hmov'⟩ := h'
      exact ⟨hq1.trans hq', p', pub', h', hsto', hmov1.trans hmov'⟩

include hq h in
/-- All finished chunks are written. -/
lemma persistFinishedChunkBuffers_spec {K : ℕ} (hK : q.chunkQueue.cqCsn = BitVec.ofNat 64 K)
    (hsto : p.stored ≤ K) (hbufs : K ≤ p.stored + numChunkBuffers)
    (hfin : ∀ j, p.stored ≤ j → j < K → Finished msg j q.chunkQueue)
    (hle : chunkStart msg K ≤ n) :
    WritesChunks msg cks n p pub q K persistFinishedChunkBuffers := by
  unfold numChunkBuffers at hbufs
  have hcsn : q.persister.persistCursors.cksCsn = BitVec.ofNat 64 p.stored := by
    rw [h.cursors]
    rfl
  have hdist : (q.chunkQueue.cqCsn - q.persister.persistCursors.cksCsn).toNat = K - p.stored := by
    rw [hK, hcsn]
    exact toNat_sub hsto (by omega)
  have hturns : K = p.stored + (K - p.stored) := by omega
  rw [WritesChunks, Runs, persistFinishedChunkBuffers, wp_bind, wp_get, wp_bind, hdist, hcsn]
  refine wp_pmqAssert ?_ ?_
  · rw [decide_eq_true_eq, numChunkBuffers]
    omega
  · rw [hturns] at hfin hle
    have hloop := persistFinishedLoop_spec hq h hfin hle
    rwa [← hturns] at hloop

end Files

end Pmq

end Beegfs
