import Beegfs.Lib.Run

/-!
# The cache of chunk directories

`ChunkStore` counts the references to the objects of directories.  A new object is also put into a
cache, which has a reference of its own, and sweeps take every n-th entry out of it again, from a
random one on.  With a limit below 3 the random start may be behind the last entry: then the sweep
leaves the cache, or removes nothing.
-/

namespace Beegfs

open List Nat

/-- The object of a directory, by its number, and the references to it. -/
structure ChunkDirReferencer where
  dir : ℕ
  refCount : ℕ

/-- The count is read as an `int`. -/
def ChunkDirReferencer.getRefCount (refer : ChunkDirReferencer) : ℕ := refer.refCount % 2 ^ 32

/-- A store.  Of the cache only the keys are used, which are in order.  The last four fields are not
used by the store. -/
structure ChunkStore (ID : Type) where
  dirs : ID → Option ChunkDirReferencer
  refCache : List ID
  /-- The directories that objects were made for. -/
  made : List ID
  freed : List ℕ
  /-- The objects that callers have of a directory, one for each reference. -/
  held : ID → List ℕ
  /-- An iterator was moved behind the end of the cache. -/
  pastEnd : Bool

inductive ChunkStoreCall (ID : Type) where
  | referenceDir (dirID : ID) (rand : ℕ)
  | releaseDir (dirID : ID)
  | cacheSweepAsync (rand : ℕ)

namespace ChunkStore

variable {ID : Type} [LinearOrder ID] (limit : ℕ) (s : ChunkStore ID) (dirID : ID)

def start : ChunkStore ID := ⟨fun _ => none, [], [], [], fun _ => [], false⟩

def setDir (refer : Option ChunkDirReferencer) : ChunkStore ID :=
  { s with dirs := fun id => if id = dirID then refer else s.dirs id }

/-- A directory that is not there, or has no reference, is reported as a bug. -/
def releaseDirUnlocked : ChunkStore ID :=
  match s.dirs dirID with
  | none => s
  | some refer =>
    let released := { refer with refCount := refer.refCount - 1 }
    if refer.getRefCount = 0 then s.setDir dirID none
    else if released.getRefCount = 0 then { s.setDir dirID none with freed := refer.dir :: s.freed }
    else s.setDir dirID (some released)

/-- The loop of a sweep, with the entries from the iterator on.  The release does not look at the
cache, from which the source erases the entry afterwards. -/
def sweepLoop (removeSkipNum : ℕ) : ℕ → List ID → ChunkStore ID → ChunkStore ID
  | _, [], s => s
  | i, id :: rest, s =>
    if i + 1 = removeSkipNum then
      sweepLoop removeSkipNum 0 rest
        (releaseDirUnlocked { s with refCache := s.refCache.erase id } id)
    else sweepLoop removeSkipNum (i + 1) rest s

/-- A sweep of a cache with too many entries.  The iterator is moved from the first one, without a
look at the end. -/
def sweep (cacheLimit removeSkipNum rand : ℕ) : ChunkStore ID :=
  let randStart := rand % removeSkipNum
  if s.refCache.length ≤ cacheLimit then s
  else if s.refCache.length < randStart then { s with pastEnd := true }
  else sweepLoop removeSkipNum (removeSkipNum - 1) (s.refCache.drop randStart) s

def cacheSweepUnlocked (isSyncSweep : Bool) (rand : ℕ) : ChunkStore ID :=
  if isSyncSweep then s.sweep limit 4 rand else s.sweep (limit - limit / 2) 3 rand

def reference (refer : ChunkDirReferencer) : ChunkStore ID :=
  s.setDir dirID (some { refer with refCount := refer.refCount + 1 })

/-- The directory gets into the cache, for which others are swept out before. -/
def cacheAddUnlocked (rand : ℕ) : ChunkStore ID :=
  let s := s.cacheSweepUnlocked limit true rand
  match s.dirs dirID with
  | some refer =>
    if s.refCache.contains dirID then s
    else { s.reference dirID refer with refCache := s.refCache.orderedInsert (· ≤ ·) dirID }
  | none => s

/-- The caller gets a reference. -/
def give (refer : ChunkDirReferencer) : ChunkStore ID :=
  { s.reference dirID refer with
    held := fun id => if id = dirID then refer.dir :: s.held id else s.held id }

def referenceDir (rand : ℕ) : ChunkStore ID :=
  match s.dirs dirID with
  | some refer => s.give dirID refer
  | none =>
    cacheAddUnlocked limit { s.give dirID ⟨s.made.length, 0⟩ with made := s.made ++ [dirID] }
      dirID rand

def releaseDir : ChunkStore ID :=
  releaseDirUnlocked
    { s with held := fun id => if id = dirID then (s.held id).tail else s.held id } dirID

def step : ChunkStoreCall ID → ChunkStore ID
  | .referenceDir dirID rand => s.referenceDir limit dirID rand
  | .releaseDir dirID => s.releaseDir dirID
  | .cacheSweepAsync rand => s.cacheSweepUnlocked limit false rand

/-- The references to a directory: those of the callers, and that of the cache. -/
def refs : ℕ := (s.held dirID).length + if s.refCache.contains dirID then 1 else 0

/-- A release belongs to a reference, and the references to a directory stay below `2 ^ 32`. -/
def Matches : ChunkStoreCall ID → Prop
  | .referenceDir dirID _ => s.refs dirID + 1 < 2 ^ 32
  | .releaseDir dirID => s.held dirID ≠ []
  | .cacheSweepAsync _ => True

instance (call : ChunkStoreCall ID) : Decidable (s.Matches call) := by
  cases call <;> unfold Matches <;> infer_instance

/-- Each directory with a reference has the object that all callers have, with their number as its
count, and the objects without one were freed once.  A reference to `pending` is to be released. -/
structure Sound (pending : Option ID) : Prop where
  inside : s.pastEnd = false
  cache_le : s.refCache.length ≤ limit + 1
  nodup : s.refCache.Nodup
  count : ∀ id, (s.dirs id).elim 0 (·.refCount) = s.refs id + if pending = some id then 1 else 0
  pos : ∀ id refer, s.dirs id = some refer → 0 < refer.refCount ∧ refer.refCount < 2 ^ 32
  owner : ∀ id refer, s.dirs id = some refer → s.made[refer.dir]? = some id
  same : ∀ id refer, s.dirs id = some refer → ∀ dir ∈ s.held id, dir = refer.dir
  freed : ∀ dir id, s.made[dir]? = some id → (dir ∈ s.freed ↔ (s.dirs id).map (·.dir) ≠ some dir)
  freed_lt : ∀ dir ∈ s.freed, dir < s.made.length
  once : s.freed.Nodup

variable {limit s dirID}

/-- The object of a directory gets the count of its references when these change. -/
lemma Sound.recount {pending pending' : Option ID} {refer : ChunkDirReferencer} {n : ℕ}
    {cache : List ID} {held : ID → List ℕ} (h : s.Sound limit pending)
    (hdir : s.dirs dirID = some refer) (hn : 0 < n ∧ n < 2 ^ 32)
    (hcache : cache.length ≤ limit + 1) (hnodup : cache.Nodup)
    (hheld : ∀ id, ∀ dir ∈ held id, dir ∈ s.held id ∨ id = dirID ∧ dir = refer.dir) :
    let new := { s.setDir dirID (some ⟨refer.dir, n⟩) with refCache := cache, held := held }
    (∀ id, (new.dirs id).elim 0 (·.refCount) = new.refs id + if pending' = some id then 1 else 0) →
      new.Sound limit pending' := by
  intro new hcount
  obtain ⟨hinside, -, -, -, hpos, howner, hsame, hfreed, hlt, honce⟩ := h
  refine ⟨hinside, hcache, hnodup, hcount, ?pos, ?owner, ?same, ?freed, hlt, honce⟩
  case pos | owner | same | freed => grind [setDir]

/-- One reference more than there is a holder for is released. -/
lemma Sound.release (h : s.Sound limit (some dirID)) :
    (s.releaseDirUnlocked dirID).Sound limit none ∧
      (s.releaseDirUnlocked dirID).held = s.held ∧
      (s.releaseDirUnlocked dirID).refCache = s.refCache := by
  have hdir := h.count dirID
  unfold releaseDirUnlocked
  split
  next hnone => simp [hnone] at hdir
  next refer hsome =>
    obtain ⟨hne, hint⟩ := h.pos dirID refer hsome
    have hless : refer.refCount - 1 < 2 ^ 32 := (sub_le _ 1).trans_lt hint
    simp only [ChunkDirReferencer.getRefCount, mod_eq_of_lt hint, mod_eq_of_lt hless]
    split_ifs with hzero hone
    · omega
    · -- the last reference, so that the object is freed
      have hlive : refer.dir ∉ s.freed := fun hmem =>
        (h.freed _ _ (h.owner dirID refer hsome)).mp hmem (congrArg _ hsome)
      obtain ⟨hinside, hcache, hnodup, hcount, hpos, howner, hsame, hfreed, hlt, honce⟩ := h
      unfold setDir
      refine ⟨⟨hinside, hcache, hnodup, ?count, ?pos, ?owner, ?same, ?freed, ?lt,
        nodup_cons.mpr ⟨hlive, honce⟩⟩, rfl, rfl⟩
      case count | same => grind [refs]
      case pos | owner | freed | lt => grind
    · refine ⟨h.recount hsome ⟨Nat.pos_of_ne_zero hone, hless⟩ h.cache_le h.nodup
        (fun id dir => .inl) fun id => ?_, rfl, rfl⟩
      have hcount := h.count id
      grind [setDir, refs]

lemma Sound.uncache (h : s.Sound limit none) (hmem : dirID ∈ s.refCache) :
    Sound limit { s with refCache := s.refCache.erase dirID } (some dirID) := by
  refine { h with
    cache_le := (length_erase_le ..).trans h.cache_le
    nodup := h.nodup.erase dirID
    count := fun id => ?_ }
  have hcount := h.count id
  grind [refs, h.nodup.mem_erase_iff]

/-- The loop removes an entry if the first one is to be removed. -/
lemma Sound.sweepLoop {n i : ℕ} {l : List ID} (h : s.Sound limit none) (hl : l.Nodup)
    (hmem : ∀ id ∈ l, id ∈ s.refCache) :
    (sweepLoop n i l s).Sound limit none ∧ (sweepLoop n i l s).held = s.held ∧
      (sweepLoop n i l s).refCache.length ≤ s.refCache.length ∧ (i + 1 = n → l ≠ [] →
        (sweepLoop n i l s).refCache.length < s.refCache.length) := by
  induction l generalizing s i with
  | nil => exact ⟨h, rfl, le_rfl, fun _ hne => absurd rfl hne⟩
  | cons id rest ih =>
    obtain ⟨hid, hrest⟩ := nodup_cons.mp hl
    obtain ⟨hin, hmem⟩ := forall_mem_cons.mp hmem
    rw [ChunkStore.sweepLoop]
    split_ifs with hi
    · obtain ⟨hsound, hheld, hcache⟩ := (h.uncache hin).release
      have hpos := length_pos_of_mem hin
      obtain ⟨hsound, hheld', hle, -⟩ := ih (i := 0) hsound hrest fun id' hid' => by
        rw [hcache, h.nodup.mem_erase_iff]
        exact ⟨fun heq => hid (heq ▸ hid'), hmem id' hid'⟩
      rw [hcache, length_erase_of_mem hin] at hle
      exact ⟨hsound, hheld'.trans hheld, by omega, fun _ _ => by omega⟩
    · obtain ⟨hsound, hheld, hle, -⟩ := ih (i := i + 1) h hrest hmem
      exact ⟨hsound, hheld, hle, fun h => absurd h hi⟩

/-- A sweep removes an entry if the random start is in every cache that has to be swept. -/
lemma Sound.sweep {n cacheLimit : ℕ} (h : s.Sound limit none) (hpos : 0 < n)
    (hn : n ≤ cacheLimit + 1) (rand : ℕ) : (s.sweep cacheLimit n rand).Sound limit none ∧
      (s.sweep cacheLimit n rand).held = s.held ∧
      ((s.sweep cacheLimit n rand).refCache.length ≤ cacheLimit ∨
        (s.sweep cacheLimit n rand).refCache.length < s.refCache.length) := by
  have hmod := mod_lt rand hpos
  unfold ChunkStore.sweep
  dsimp only
  split_ifs with hsmall hpast
  · exact ⟨h, rfl, .inl hsmall⟩
  · omega
  · obtain ⟨hsound, hheld, -, hlt⟩ := h.sweepLoop (h.nodup.sublist (drop_sublist _ _))
      fun _ => mem_of_mem_drop
    refine ⟨hsound, hheld, .inr (hlt (Nat.sub_add_cancel hpos) fun hnil => ?_)⟩
    have hlen := drop_eq_nil_iff.mp hnil
    omega

/-- The caller gets the object that is there. -/
lemma Sound.give {refer : ChunkDirReferencer} (h : s.Sound limit none)
    (hint : s.refs dirID + 1 < 2 ^ 32) (hdir : s.dirs dirID = some refer) :
    (s.give dirID refer).Sound limit none := by
  have hcount := h.count
  refine h.recount hdir ⟨succ_pos _, ?int⟩ h.cache_le h.nodup ?held ?count
  case int | held => grind
  case count =>
    unfold reference setDir
    grind [refs]

/-- The caller gets a new object. -/
lemma Sound.give_new (h : s.Sound limit none) (hdir : s.dirs dirID = none) :
    Sound limit { s.give dirID ⟨s.made.length, 0⟩ with made := s.made ++ [dirID] } none := by
  obtain ⟨hinside, hcache, hnodup, hcount, hpos, howner, hsame, hfreed, hlt, honce⟩ := h
  unfold ChunkStore.give reference setDir
  refine ⟨hinside, hcache, hnodup, ?count, ?pos, ?owner, ?same, ?freed, ?lt, honce⟩
  case count | same => grind [refs]
  case pos | owner | freed | lt => grind

lemma Sound.cacheAddUnlocked (h : s.Sound limit none) (hlimit : 3 ≤ limit)
    (hint : (s.held dirID).length + 1 < 2 ^ 32) (rand : ℕ) :
    (s.cacheAddUnlocked limit dirID rand).Sound limit none := by
  obtain ⟨hsound, hheld, hlen⟩ := h.sweep (n := 4) (by decide) (succ_le_succ hlimit) rand
  have hcache := h.cache_le
  unfold ChunkStore.cacheAddUnlocked cacheSweepUnlocked
  dsimp only
  rw [if_pos rfl]
  split
  next refer hdir =>
    split_ifs with hmem
    · exact hsound
    · have hcount := hsound.count
      refine hsound.recount hdir ⟨succ_pos _, ?int⟩ ?cache ?nodup (fun id dir => .inl) ?count
      case int => grind [refs]
      case cache =>
        rw [orderedInsert_length]
        omega
      case nodup =>
        refine (perm_orderedInsert _ dirID _).nodup_iff.mpr ?_
        exact nodup_cons.mpr ⟨mt contains_iff_mem.mpr hmem, hsound.nodup⟩
      case count =>
        unfold reference setDir
        grind [refs, mem_orderedInsert]
  next => exact hsound

lemma Sound.step (h : s.Sound limit none) (hlimit : 3 ≤ limit) {call : ChunkStoreCall ID}
    (hcall : s.Matches call) : (s.step limit call).Sound limit none := by
  cases call with
  | referenceDir dirID rand =>
    rw [ChunkStore.step, referenceDir]
    split
    next hdir => exact h.give hcall hdir
    next hdir =>
      refine (h.give_new hdir).cacheAddUnlocked hlimit ?_ rand
      grind [refs, ChunkStore.give, h.count dirID]
  | releaseDir dirID =>
    refine (Sound.release ?_).1
    refine { h with
      count := fun id => ?_
      same := fun id refer hdir dir hmem => h.same id refer hdir dir ?_ }
    · have hcount := h.count id
      have hne : 0 < (s.held dirID).length := length_pos_of_ne_nil hcall
      grind [refs]
    · grind [mem_of_mem_tail]
  | cacheSweepAsync rand => exact (h.sweep (by decide) (by omega) rand).1

/-- The store is right in every run whose releases belong to references, exactly if the limit is at
least 3. -/
theorem everyState_sound_iff (limit : ℕ) :
    (∀ (ID : Type) [LinearOrder ID] (calls : List (ChunkStoreCall ID)),
      EveryStep (step limit) Matches start calls →
        EveryState (step limit) (fun s => s.Sound limit none) start calls) ↔ 3 ≤ limit := by
  constructor
  · intro h
    by_contra hlimit
    have hfour := h ℕ [.referenceDir 0 0, .referenceDir 1 3, .referenceDir 2 3, .referenceDir 3 3]
    obtain rfl | rfl | rfl : limit = 0 ∨ limit = 1 ∨ limit = 2 := by omega
    · nomatch (hfour (by decide)).2.2.1.inside
    · nomatch (hfour (by decide)).2.2.2.1.inside
    · nomatch (hfour (by decide)).2.2.2.2.cache_le
  · intro hlimit ID _ calls hcalls
    refine everyState_of_everyStep (fun s call hcall h => h.step hlimit hcall) (fun s h => h) ?_
      hcalls
    constructor <;> simp [start, refs]

/-- With a limit of 0 the second directory that is referenced can lead out of the cache. -/
theorem not_sound_of_limit_zero :
    let calls : List (ChunkStoreCall ℕ) := [.referenceDir 0 0, .referenceDir 1 3]
    EveryStep (step 0) Matches start calls ∧
      ¬ EveryState (step 0) (fun s => s.Sound 0 none) start calls := by
  refine ⟨by decide, fun h => ?_⟩
  nomatch h.2.2.inside

end ChunkStore

end Beegfs
