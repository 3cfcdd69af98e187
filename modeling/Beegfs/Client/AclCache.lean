import Beegfs.Lib.Run

/-!
# The cache of NFSv4 ACLs

`BeeGFSNFS4Acl_resolveCache` looks for the ACL of a file in the client's cache; if it is not there
or is too old, the ACL is fetched from the server and installed, and the cache is read again.  Each
of these is a step of its own, without a lock.  A change through this client is stored on the server
and then takes the ACL out of the cache; other clients change it on the server only.

The file always has an ACL, and its values on the server are numbered.  Requests to the server are
single steps that succeed.
-/

namespace Beegfs

open List Nat

/-! ## The steps of checks and changes -/

/-- How far a permission check has got. -/
inductive AclCheckState
  /-- `BeeGFSNFS4Acl_cacheLookup` was a miss. -/
  | missed
  /-- `BeeGFSNFS4Acl_cachePopulate` has fetched this value. -/
  | fetched (version : ℕ)
  /-- The value was put into the cache. -/
  | installed
  /-- The check is decided by this value. -/
  | decided (version : ℕ)
  /-- `BEEGFS_NFS4ACL_RESOLVE_FALLBACK`: the check is decided by the mode bits. -/
  | fallback
  deriving DecidableEq

def AclCheckState.isFetched : AclCheckState → Bool
  | fetched _ => true
  | _ => false

/-- A check, with the time when it began and the value that the server had when the last change
through this client that was finished then was finished. -/
structure AclCheck where
  began : ℕ
  floor : ℕ
  state : AclCheckState
  deriving DecidableEq

/-- The server and one client. -/
structure AclSystem where
  /-- The clock of the client, in milliseconds. -/
  now : ℕ
  /-- The number of the server's value. -/
  server : ℕ
  /-- When the server's former values were replaced. -/
  replacedAt : ℕ → ℕ
  /-- The server's value when the last change through this client was finished. -/
  completed : ℕ
  /-- The cached value and `cached_at`. -/
  cache : Option (ℕ × ℕ)
  checks : List AclCheck

/-- A check begins or goes on, this client or another one stores a new value, a change through this
client is finished, or time passes. -/
inductive AclAction
  | begin
  | proceed (i : ℕ)
  | store
  | invalidateCache
  | tick

namespace AclSystem

def start : AclSystem := ⟨0, 0, fun _ => 0, 0, none, []⟩

variable (validity : ℕ) (s : AclSystem)

/-- `BeeGFSNFS4Acl_cacheLookup`, with which a check begins. -/
def cacheLookup : AclCheckState :=
  match s.cache with
  | some (version, cachedAt) =>
    if validity = 0 ∨ validity < s.now - cachedAt then .missed else .decided version
  | none => .missed

/-- What the next step of a check leads to. -/
def next (c : AclCheck) : AclCheckState :=
  match c.state, s.cache with
  | .missed, _ => .fetched s.server
  | .fetched _, _ => .installed
  -- the age of the entry is not looked at again
  | .installed, some (version, _) => .decided version
  | .installed, none => .fallback
  | state, _ => state

def proceed (i : ℕ) (c : AclCheck) : AclSystem :=
  { s with
    cache := match c.state with
      | .fetched version => some (version, s.now)
      | _ => s.cache
    checks := s.checks.set i { c with state := s.next c } }

def step : AclAction → AclSystem
  | .begin => { s with checks := s.checks ++ [⟨s.now, s.completed, s.cacheLookup validity⟩] }
  | .proceed i => s.checks[i]?.elim s (s.proceed i)
  | .store =>
    { s with server := s.server + 1, replacedAt := Function.update s.replacedAt s.server s.now }
  | .invalidateCache => { s with completed := s.server, cache := none }
  | .tick => { s with now := s.now + 1 }

/-! ## Checks by current values -/

/-- The server had the value at the time `t` or later. -/
def HadSince (version t : ℕ) : Prop :=
  version ≤ s.server ∧ (version < s.server → t ≤ s.replacedAt version)

/-- If the check is decided, then by a value that the server had when the last change through this
client was finished before the check or later, and that it had in the validity time before the check
or later. -/
def IsCurrent (c : AclCheck) : Prop :=
  match c.state with
  | .decided version => c.floor ≤ version ∧ s.HadSince version (c.began - validity)
  | .fallback => False
  | _ => True

/-- All checks are decided by current values. -/
def ChecksCurrent : Prop := ∀ c ∈ s.checks, s.IsCurrent validity c

/-- No change takes the ACL out of the cache while a check is between its fetch and its second look
into the cache, and no time passes while a check is between its fetch and its install. -/
def Undisturbed : AclAction → Prop
  | .invalidateCache => ∀ c ∈ s.checks, c.state ≠ .installed ∧ ¬c.state.isFetched
  | .tick => ∀ c ∈ s.checks, ¬c.state.isFetched
  | _ => True

instance : ∀ action : AclAction, Decidable (s.Undisturbed action)
  | .invalidateCache => inferInstanceAs (Decidable (∀ c ∈ s.checks, _ ∧ _))
  | .tick => inferInstanceAs (Decidable (∀ c ∈ s.checks, _))
  | .begin | .proceed _ | .store => isTrue trivial

instance (c : AclCheck) : Decidable (s.IsCurrent validity c) := by
  unfold IsCurrent HadSince
  cases c.state <;> infer_instance

instance : Decidable (s.ChecksCurrent validity) :=
  inferInstanceAs (Decidable (∀ c ∈ s.checks, s.IsCurrent validity c))

/-- What is known of a check on the way. -/
def CheckOk (c : AclCheck) : Prop :=
  match c.state with
  | .fetched version => s.completed ≤ version ∧ s.HadSince version s.now
  | .installed => ∃ entry ∈ s.cache, c.began ≤ entry.2
  | _ => s.IsCurrent validity c

/-- The cached value is not older than its time, nor than the last finished change. -/
structure Inv : Prop where
  completed_le : s.completed ≤ s.server
  cache : ∀ entry ∈ s.cache, entry.2 ≤ s.now ∧ s.completed ≤ entry.1 ∧ s.HadSince entry.1 entry.2
  checks : ∀ c ∈ s.checks, c.began ≤ s.now ∧ c.floor ≤ s.completed ∧ s.CheckOk validity c

variable {validity s} {i : ℕ} {c : AclCheck}

lemma HadSince.store {v t : ℕ} (h : s.HadSince v t) (ht : t ≤ s.now) :
    (s.step validity .store).HadSince v t := by
  refine ⟨le_succ_of_le h.1, fun _ => ?_⟩
  by_cases hv : v = s.server
  · simpa [step, hv] using ht
  · simpa [step, hv] using h.2 (Nat.lt_of_le_of_ne h.1 hv)

/-- A check is not affected by what other checks and changes do, unless it has fetched a value or
installed one. -/
lemma CheckOk.mono {s' : AclSystem} (h : s.CheckOk validity c) (hbegan : c.began ≤ s.now)
    (hhad : ∀ v t, t ≤ s.now → s.HadSince v t → s'.HadSince v t)
    (hfetch : c.state.isFetched → s'.completed = s.completed ∧ s'.now = s.now)
    (hinst : c.state = .installed → (∃ entry ∈ s.cache, c.began ≤ entry.2) →
      ∃ entry ∈ s'.cache, c.began ≤ entry.2) : s'.CheckOk validity c := by
  obtain ⟨began, _, state⟩ := c
  cases state with
  | fetched v =>
    obtain ⟨hcompl, hnow⟩ := hfetch rfl
    exact ⟨hcompl ▸ h.1, hnow ▸ hhad _ _ le_rfl h.2⟩
  | installed => exact hinst rfl h
  | decided v => exact ⟨h.1, hhad _ _ (Nat.le_trans (sub_le ..) hbegan) h.2⟩
  | missed => trivial
  | fallback => exact h

/-- An entry of the cache that is not older than `t` is current for a check that began then. -/
lemma Inv.isCurrent_of_cache (h : s.Inv validity) {entry : ℕ × ℕ} (hentry : entry ∈ s.cache)
    (hfloor : c.floor ≤ s.completed) (hage : c.began - validity ≤ entry.2) :
    s.IsCurrent validity { c with state := .decided entry.1 } := by
  obtain ⟨-, hcompl, hhad⟩ := h.cache entry hentry
  exact ⟨hfloor.trans hcompl, hhad.1, fun hlt => hage.trans (hhad.2 hlt)⟩

/-- The next state of a check that does not install a value. -/
lemma Inv.checkOk_next (h : s.Inv validity) (hc : c ∈ s.checks)
    (hstate : ∀ v, c.state ≠ .fetched v) : s.CheckOk validity { c with state := s.next c } := by
  obtain ⟨_, hfloor, hok⟩ := h.checks c hc
  obtain ⟨began, floor, state⟩ := c
  cases state with
  | missed => exact ⟨h.completed_le, Nat.le_refl _, fun hlt => absurd hlt (Nat.lt_irrefl _)⟩
  | fetched v => exact absurd rfl (hstate v)
  | installed =>
    obtain ⟨_, hentry, hle⟩ := hok
    rw [next, Option.mem_def.mp hentry]
    exact h.isCurrent_of_cache (c := ⟨began, floor, .installed⟩) hentry hfloor
      (Nat.le_trans (sub_le ..) hle)
  | decided v => exact hok
  | fallback => exact hok

lemma Inv.proceed (h : s.Inv validity) (hc : s.checks[i]? = some c) :
    (s.proceed i c).Inv validity := by
  have hmem := mem_of_getElem? hc
  obtain ⟨hbegan, hfloor, hok⟩ := h.checks c hmem
  unfold AclSystem.proceed
  split
  · rename_i v hstate
    rw [CheckOk, hstate] at hok
    refine ⟨h.completed_le, ?_, fun c' hc' => ?_⟩
    · rintro _ ⟨⟩
      exact ⟨Nat.le_refl _, hok⟩
    rcases mem_or_eq_of_mem_set hc' with hmem | rfl
    · obtain ⟨hbegan', hfloor', hok'⟩ := h.checks c' hmem
      exact ⟨hbegan', hfloor', hok'.mono hbegan' (fun _ _ _ => id) (fun _ => ⟨rfl, rfl⟩)
        fun _ _ => ⟨_, rfl, hbegan'⟩⟩
    · refine ⟨hbegan, hfloor, ?_⟩
      rw [next, hstate]
      exact ⟨_, rfl, hbegan⟩
  · rename_i hstate
    refine ⟨h.completed_le, h.cache, fun c' hc' => ?_⟩
    rcases mem_or_eq_of_mem_set hc' with hmem' | rfl
    · exact h.checks c' hmem'
    · exact ⟨hbegan, hfloor, h.checkOk_next hmem hstate⟩

lemma Inv.step (h : s.Inv validity) (action : AclAction) (hu : s.Undisturbed action) :
    (s.step validity action).Inv validity := by
  cases action with
  | begin =>
    refine ⟨h.completed_le, h.cache, fun c hc => ?_⟩
    rcases mem_append.mp hc with hc | hc
    · exact h.checks c hc
    · rw [mem_singleton.mp hc]
      refine ⟨Nat.le_refl _, Nat.le_refl _, ?_⟩
      unfold cacheLookup
      split
      · rename_i v t hcache
        split_ifs with hold
        · trivial
        · refine h.isCurrent_of_cache (c := ⟨s.now, s.completed, .missed⟩) hcache le_rfl ?_
          dsimp only
          omega
      · trivial
  | proceed i =>
    simp only [AclSystem.step]
    cases hc : s.checks[i]? with
    | none => exact h
    | some c => exact h.proceed hc
  | store =>
    refine ⟨le_succ_of_le h.completed_le, fun entry he => ?_, fun c hc => ?_⟩
    · obtain ⟨hle, hcompl, hhad⟩ := h.cache entry he
      exact ⟨hle, hcompl, hhad.store hle⟩
    · obtain ⟨hbegan, hfloor, hok⟩ := h.checks c hc
      exact ⟨hbegan, hfloor, hok.mono hbegan (fun _ _ ht hv => hv.store ht) (fun _ => ⟨rfl, rfl⟩)
        fun _ => id⟩
  | invalidateCache =>
    refine ⟨Nat.le_refl _, nofun, fun c hc => ?_⟩
    obtain ⟨hbegan, hfloor, hok⟩ := h.checks c hc
    obtain ⟨hinst, hfetch⟩ := hu c hc
    exact ⟨hbegan, hfloor.trans h.completed_le, hok.mono hbegan (fun _ _ _ => id)
      (fun hf => absurd hf hfetch) fun hc => absurd hc hinst⟩
  | tick =>
    refine ⟨h.completed_le, fun entry he => ?_, fun c hc => ?_⟩
    · obtain ⟨hle, hentry⟩ := h.cache entry he
      exact ⟨le_succ_of_le hle, hentry⟩
    · obtain ⟨hbegan, hfloor, hok⟩ := h.checks c hc
      exact ⟨le_succ_of_le hbegan, hfloor, hok.mono hbegan (fun _ _ _ => id)
        (fun hf => absurd hf (hu c hc)) fun _ => id⟩

end AclSystem

end Beegfs
