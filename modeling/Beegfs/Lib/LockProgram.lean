import Mathlib

/-!
# Programs that take locks, and deadlocks

A `LockProgram` is a procedure that acquires and releases locks one after the other.  In between it
asks questions whose answers are not under its control, and in a loop it may release everything and
start again.  `LockProgram.Ordered` says that it only asks for locks that come after all those it
holds, in the order given by `rank`, and `LockProgram.Ends` says what holds of the locks and answers
that it ends with.

The second part is about workers that wait.  `not_transGen_waitsFor` says that workers that ask for
locks in order do not wait for each other in a circle, and `not_transGen_of_layers` extends this to
workers that also wait for answers from other servers, if the servers do not wait in a circle.
-/

namespace Beegfs

open List

/-- A procedure that takes locks of `L`, and asks questions `q : Q` with answers in `A q`. -/
inductive LockProgram (L Q : Type) (A : Q → Type) where
  | done
  | acquire (lock : L) (write : Bool) (rest : LockProgram L Q A)
  | release (lock : L) (rest : LockProgram L Q A)
  | ask (q : Q) (next : A q → LockProgram L Q A)
  /-- A loop, which begins with no locks. -/
  | loop (body : LockProgram L Q A)
  /-- All locks are released and the loop starts again. -/
  | restart

namespace LockProgram

variable {L Q R : Type} {A : Q → Type}

/-- A lock that is taken under a condition. -/
def acquireIf (c : Bool) (lock : L) (write : Bool) (rest : LockProgram L Q A) : LockProgram L Q A :=
  if c then acquire lock write rest else rest

/-- Two locks that are taken for writing in the order of their keys, or one if the keys are
equal. -/
def acquirePair {α : Type} [LinearOrder α] (lock : α → L) (a b : α) (rest : LockProgram L Q A) :
    LockProgram L Q A :=
  if a < b then acquire (lock a) true (acquire (lock b) true rest)
  else if a = b then acquire (lock a) true rest
  else acquire (lock b) true (acquire (lock a) true rest)

/-- Locks that are taken for writing, in the order of the list. -/
def acquireAll (locks : List L) (rest : LockProgram L Q A) : LockProgram L Q A :=
  locks.foldr (fun lock => acquire lock true) rest

/-- Locks that are taken for writing one at a time. -/
def visitAll (locks : List L) (rest : LockProgram L Q A) : LockProgram L Q A :=
  locks.foldr (fun lock rest => acquire lock true (release lock rest)) rest

/-- What is held after a lock was released. -/
def unlock [DecidableEq L] (lock : L) (held : List (L × Bool)) : List (L × Bool) :=
  held.filter fun h => h.1 ≠ lock

section Ordered

variable [DecidableEq L] [Preorder R] (rank : L → R) (ok : (q : Q) → A q → Prop)

/-- Every lock that is asked for comes after all those that are held, if the answers are `ok`. -/
def Ordered : List (L × Bool) → LockProgram L Q A → Prop
  | _, .done => True
  | held, .acquire lock write rest =>
    (∀ h ∈ held, rank h.1 < rank lock) ∧ Ordered ((lock, write) :: held) rest
  | held, .release lock rest => Ordered (unlock lock held) rest
  | held, .ask q next => ∀ a, ok q a → Ordered held (next a)
  | held, .loop body => held = [] ∧ Ordered [] body
  | _, .restart => True

variable {rank ok} {held : List (L × Bool)} {rest : LockProgram L Q A}

lemma ordered_acquireIf {c : Bool} {lock : L} {write : Bool}
    (htrue : c = true → Ordered rank ok held (acquire lock write rest))
    (hfalse : c = false → Ordered rank ok held rest) :
    Ordered rank ok held (acquireIf c lock write rest) := by
  cases c with
  | true => exact htrue rfl
  | false => exact hfalse rfl

lemma ordered_acquirePair {α : Type} [LinearOrder α] {lock : α → L} {a b : α}
    (hab : a < b → rank (lock a) < rank (lock b)) (hba : b < a → rank (lock b) < rank (lock a))
    (hheld : ∀ h ∈ held, rank h.1 < rank (lock a) ∧ rank h.1 < rank (lock b))
    (hrest : ∀ held', (∀ h ∈ held', h.1 = lock a ∨ h.1 = lock b ∨ h ∈ held) →
      Ordered rank ok held' rest) : Ordered rank ok held (acquirePair lock a b rest) := by
  rw [acquirePair]
  split_ifs with hlt heq
  · refine ⟨fun h hh => (hheld h hh).1, fun h hh => ?_, hrest _ (by grind)⟩
    rcases mem_cons.mp hh with rfl | hh
    · exact hab hlt
    · exact (hheld h hh).2
  · exact ⟨fun h hh => (hheld h hh).1, hrest _ (by grind)⟩
  · refine ⟨fun h hh => (hheld h hh).2, fun h hh => ?_, hrest _ (by grind)⟩
    rcases mem_cons.mp hh with rfl | hh
    · exact hba (lt_of_le_of_ne (not_lt.mp hlt) (Ne.symm heq))
    · exact (hheld h hh).1

variable {locks : List L}

/-- Locks in ascending order. -/
lemma ordered_acquireAll (hsort : locks.Pairwise fun a b => rank a < rank b)
    (hheld : ∀ h ∈ held, ∀ lock ∈ locks, rank h.1 < rank lock)
    (hrest : Ordered rank ok ((locks.map fun lock => (lock, true)).reverse ++ held) rest) :
    Ordered rank ok held (acquireAll locks rest) := by
  induction locks generalizing held with
  | nil => exact hrest
  | cons lock locks ih =>
    obtain ⟨hlock, hsort⟩ := pairwise_cons.mp hsort
    refine ⟨fun h hh => hheld h hh lock mem_cons_self, ih hsort ?_ ?_⟩
    · intro h hh lock' hlock'
      rcases mem_cons.mp hh with rfl | hh
      · exact hlock lock' hlock'
      · exact hheld h hh lock' (mem_cons_of_mem lock hlock')
    · simpa using hrest

/-- Locks that come after what is held may be taken one at a time in any order. -/
lemma ordered_visitAll (hnotHeld : ∀ h ∈ held, ∀ lock ∈ locks, rank h.1 < rank lock)
    (hrest : Ordered rank ok held rest) : Ordered rank ok held (visitAll locks rest) := by
  induction locks with
  | nil => exact hrest
  | cons lock locks ih =>
    have hlock : ∀ h ∈ held, rank h.1 < rank lock := fun h hh => hnotHeld h hh lock mem_cons_self
    have hunl : unlock lock ((lock, true) :: held) = held := by
      rw [unlock, filter_cons_of_neg (by simp), filter_eq_self]
      intro h hh
      have hne : h.1 ≠ lock := fun heq => lt_irrefl _ (heq ▸ hlock h hh)
      simp [hne]
    refine ⟨hlock, ?_⟩
    rw [Ordered, hunl]
    exact ih fun h hh lock' hlock' => hnotHeld h hh lock' (mem_cons_of_mem lock hlock')

end Ordered

section Ends

variable [DecidableEq L]

/-- However the questions are answered, the program ends with locks and answers, newest first, that
satisfy `post`.  The answers are those since the loop has started. -/
def Ends (post : List (L × Bool) → List (Sigma A) → Prop) :
    List (L × Bool) → List (Sigma A) → LockProgram L Q A → Prop
  | held, found, .done => post held found
  | held, found, .acquire lock write rest => Ends post ((lock, write) :: held) found rest
  | held, found, .release lock rest => Ends post (unlock lock held) found rest
  | held, found, .ask q next => ∀ a, Ends post held (⟨q, a⟩ :: found) (next a)
  | held, _, .loop body => held = [] ∧ Ends post [] [] body
  | _, _, .restart => True

variable {post : List (L × Bool) → List (Sigma A) → Prop} {held : List (L × Bool)}
  {found : List (Sigma A)} {rest : LockProgram L Q A}

/-- More is held afterwards, with the lock if the condition was met. -/
lemma ends_acquireIf {c : Bool} {lock : L} {write : Bool}
    (hrest : ∀ held', held ⊆ held' → (c = true → (lock, write) ∈ held') →
      Ends post held' found rest) : Ends post held found (acquireIf c lock write rest) := by
  cases c with
  | true => exact hrest _ (subset_cons_self _ _) fun _ => mem_cons_self
  | false => exact hrest held (List.Subset.refl held) nofun

lemma ends_acquirePair {α : Type} [LinearOrder α] {lock : α → L} {a b : α}
    (hrest : ∀ held', held ⊆ held' → (lock a, true) ∈ held' → (lock b, true) ∈ held' →
      Ends post held' found rest) : Ends post held found (acquirePair lock a b rest) := by
  rw [acquirePair]
  split_ifs with hlt heq
  · exact hrest _ (by grind) (by grind) (by grind)
  · exact hrest _ (by grind) (by grind) (by grind)
  · exact hrest _ (by grind) (by grind) (by grind)

lemma ends_acquireAll {locks : List L}
    (hrest : ∀ held', held ⊆ held' → (∀ lock ∈ locks, (lock, true) ∈ held') →
      Ends post held' found rest) : Ends post held found (acquireAll locks rest) := by
  induction locks generalizing held with
  | nil => exact hrest held (List.Subset.refl held) nofun
  | cons lock locks ih =>
    refine ih fun held' hsub hmem => hrest held' (fun h hh => hsub (mem_cons_of_mem _ hh)) ?_
    intro lock' hlock'
    rcases mem_cons.mp hlock' with rfl | hlock'
    · exact hsub mem_cons_self
    · exact hmem lock' hlock'

end Ends

end LockProgram

/-! ## Deadlocks -/

section Deadlock

variable {ι L R G : Type}

/-- Two holders of a lock exclude each other, unless both only read. -/
def Excludes (write write' : Bool) : Prop := write = true ∨ write' = true
  deriving Decidable

/-- A worker wants a lock that another one holds. -/
def WaitsFor (wants : ι → Option (L × Bool)) (held : ι → List (L × Bool)) (i j : ι) : Prop :=
  ∃ lock write write', wants i = some (lock, write) ∧ (lock, write') ∈ held j ∧
    Excludes write write'

/-- The locks that two waiting workers want, in this order. -/
def WantsBefore [Preorder R] (rank : L → R) (wants : ι → Option (L × Bool)) (i j : ι) : Prop :=
  ∃ a b, wants i = some a ∧ wants j = some b ∧ rank a.1 < rank b.1

variable [Preorder R] {rank : L → R} {wants : ι → Option (L × Bool)} {held : ι → List (L × Bool)}

lemma WantsBefore.trans {i j k : ι} (hij : WantsBefore rank wants i j)
    (hjk : WantsBefore rank wants j k) : WantsBefore rank wants i k := by
  obtain ⟨a, b, ha, hb, hab⟩ := hij
  obtain ⟨b', c, hb', hc, hbc⟩ := hjk
  obtain rfl : b = b' := Option.some.inj (hb.symm.trans hb')
  exact ⟨a, c, ha, hc, hab.trans hbc⟩

lemma WantsBefore.irrefl {i : ι} : ¬ WantsBefore rank wants i i := by
  rintro ⟨a, b, ha, hb, hab⟩
  obtain rfl : a = b := Option.some.inj (ha.symm.trans hb)
  exact lt_irrefl _ hab

/-- A worker that waits for one that waits wants the smaller lock. -/
lemma WaitsFor.wantsBefore (hord : ∀ i a, wants i = some a → ∀ h ∈ held i, rank h.1 < rank a.1)
    {i j k : ι} (hij : WaitsFor wants held i j) (hjk : WaitsFor wants held j k) :
    WantsBefore rank wants i j := by
  obtain ⟨lock, _, write', hi, hheld, -⟩ := hij
  obtain ⟨_, _, -, hj, -, -⟩ := hjk
  exact ⟨_, _, hi, hj, hord j _ hj (lock, write') hheld⟩

/-- The layered rule: workers wait within a server for locks that they want in order, or for an
answer from another server, and the servers do not wait for each other in a circle. -/
lemma not_transGen_of_layers (before : ι → ι → Prop) (server : ι → G) {W A : ι → ι → Prop}
    {E : G → G → Prop} (hserver : ∀ i j, W i j → server i = server j)
    (hbef : ∀ i j k, W i j → W j k → before i j)
    (htrans : ∀ i j k, before i j → before j k → before i k) (hirrefl : ∀ i, ¬ before i i)
    (hA : ∀ i j, A i j → E (server i) (server j)) (hE : ∀ g, ¬ Relation.TransGen E g g) (i : ι) :
    ¬ Relation.TransGen (fun i j => W i j ∨ A i j) i i := by
  have hpath : ∀ j, Relation.TransGen (fun i j => W i j ∨ A i j) i j →
      Relation.TransGen E (server i) (server j) ∨
        (server i = server j ∧ (∃ k, W i k) ∧ ∀ k, W j k → before i j) := by
    intro j hij
    -- The induction is on the length of the path; its end decides whether a server was left.
    induction hij with
    | single hstep =>
      rcases hstep with hW | hA'
      · exact .inr ⟨hserver _ _ hW, ⟨_, hW⟩, fun k hk => hbef _ _ k hW hk⟩
      · exact .inl (Relation.TransGen.single (hA _ _ hA'))
    | tail _ hstep ih =>
      rcases ih with hleft | ⟨hsame, hfirst, hlast⟩
      · rcases hstep with hW | hA'
        · exact .inl (hserver _ _ hW ▸ hleft)
        · exact .inl (hleft.tail (hA _ _ hA'))
      · rcases hstep with hW | hA'
        · refine .inr ⟨hsame.trans (hserver _ _ hW), hfirst, fun k hk => ?_⟩
          exact htrans _ _ _ (hlast _ hW) (hbef _ _ k hW hk)
        · exact .inl (Relation.TransGen.single (hsame ▸ hA _ _ hA'))
  intro hcycle
  rcases hpath i hcycle with hE' | ⟨-, ⟨k, hk⟩, hlast⟩
  · exact hE _ hE'
  · exact hirrefl i (hlast k hk)

/-- A new edge closes no circle if there is no way back. -/
lemma not_transGen_insert {E : G → G → Prop} (hE : ∀ g, ¬ Relation.TransGen E g g) {x y : G}
    (hback : ¬ Relation.ReflTransGen E y x) (g : G) :
    ¬ Relation.TransGen (fun a b => E a b ∨ (a = x ∧ b = y)) g g := by
  have hpath : ∀ b, Relation.TransGen (fun a b => E a b ∨ (a = x ∧ b = y)) g b →
      Relation.TransGen E g b ∨ (Relation.ReflTransGen E g x ∧ Relation.ReflTransGen E y b) := by
    intro b hgb
    induction hgb with
    | single hstep =>
      rcases hstep with hstep | ⟨rfl, rfl⟩
      · exact .inl (Relation.TransGen.single hstep)
      · exact .inr ⟨Relation.ReflTransGen.refl, Relation.ReflTransGen.refl⟩
    | tail _ hstep ih =>
      rcases ih with hleft | ⟨hx, hy⟩
      · rcases hstep with hstep | ⟨rfl, rfl⟩
        · exact .inl (hleft.tail hstep)
        · exact .inr ⟨hleft.to_reflTransGen, Relation.ReflTransGen.refl⟩
      · rcases hstep with hstep | ⟨rfl, rfl⟩
        · exact .inr ⟨hx, hy.tail hstep⟩
        · exact absurd hy hback
  intro hcycle
  rcases hpath g hcycle with hcycle | ⟨hx, hy⟩
  · exact hE g hcycle
  · exact hback (hy.trans hx)

/-- Workers that want locks in order do not wait for each other in a circle. -/
lemma not_transGen_waitsFor (rank : L → R)
    (hord : ∀ i a, wants i = some a → ∀ h ∈ held i, rank h.1 < rank a.1) (i : ι) :
    ¬ Relation.TransGen (WaitsFor wants held) i i := by
  intro hcycle
  refine not_transGen_of_layers (WantsBefore rank wants) (fun _ => ()) (W := WaitsFor wants held)
    (A := fun _ _ => False) (E := fun _ _ => False) ?_ ?_ ?_ ?_ ?_ ?_ i
    (Relation.TransGen.mono (fun _ _ => .inl) _ _ hcycle)
  · exact fun _ _ _ => rfl
  · exact fun _ _ _ hij hjk => hij.wantsBefore hord hjk
  · exact fun _ _ _ => WantsBefore.trans
  · exact fun _ => WantsBefore.irrefl
  · exact fun _ _ hfalse => hfalse
  · intro g hg
    induction hg with
    | single h => exact h
    | tail _ h => exact h

end Deadlock

end Beegfs
