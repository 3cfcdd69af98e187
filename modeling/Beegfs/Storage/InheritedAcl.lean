import Mathlib

/-!
# Inherited NFSv4 ACLs

A new file or directory gets those entries of the ACL of its directory that are to be inherited,
with other inheritance flags.  What becomes of an entry over any number of directories depends only
on the flags that it had in the first one (`inherited_at_depth`).
-/

namespace Beegfs

/-- An entry of an ACL. -/
structure Nfs4ACE where
  type : BitVec 32
  flags : BitVec 32
  mask : BitVec 32
  who : String

namespace Nfs4ACE

/-! ## The flags -/

@[simp] abbrev fileInheritACE : BitVec 32 := 0x1
@[simp] abbrev directoryInheritACE : BitVec 32 := 0x2
@[simp] abbrev noPropagateInheritACE : BitVec 32 := 0x4
@[simp] abbrev inheritOnlyACE : BitVec 32 := 0x8
@[simp] abbrev inheritedACE : BitVec 32 := 0x80

/-- The flags that are about inheritance by something else. -/
@[simp] abbrev inheritanceFlags : BitVec 32 :=
  fileInheritACE ||| directoryInheritACE ||| noPropagateInheritACE ||| inheritOnlyACE

def hasFileInheritance (ace : Nfs4ACE) : Bool := ace.flags &&& fileInheritACE != 0

def hasDirectoryInheritance (ace : Nfs4ACE) : Bool := ace.flags &&& directoryInheritACE != 0

def hasInheritance (ace : Nfs4ACE) : Bool := ace.hasFileInheritance || ace.hasDirectoryInheritance

def hasNoPropagate (ace : Nfs4ACE) : Bool := ace.flags &&& noPropagateInheritACE != 0

def isInheritOnly (ace : Nfs4ACE) : Bool := ace.flags &&& inheritOnlyACE != 0

/-- The flags of an entry that is inherited. -/
def inheritedFlags (isDirectory : Bool) (ace : Nfs4ACE) : BitVec 32 :=
  let flags := ace.flags ||| inheritedACE
  let flags := if ace.hasNoPropagate || !isDirectory then flags &&& ~~~inheritanceFlags else flags
  if isDirectory && !ace.hasDirectoryInheritance && !ace.hasNoPropagate then
    flags ||| inheritOnlyACE
  else flags &&& ~~~inheritOnlyACE

/-- What an entry of a directory is in something that is made there: one round of the loop of
`createInheritedACL`. -/
def inherit (isDirectory : Bool) (ace : Nfs4ACE) : Option Nfs4ACE :=
  let shouldInherit := if isDirectory then ace.hasDirectoryInheritance || ace.hasFileInheritance
    else ace.hasFileInheritance
  if !ace.hasInheritance then none
  else if shouldInherit then
    if ace.hasNoPropagate && isDirectory && !ace.hasDirectoryInheritance then none
    else some { ace with flags := inheritedFlags isDirectory ace }
  else none

/-- The ACL of a new file or directory, from the one of its directory. -/
def createInheritedACL (acl : List Nfs4ACE) (isDirectory : Bool) : List Nfs4ACE :=
  acl.filterMap (inherit isDirectory)

/-- The ACL of the `n`-th directory, each made in the one before. -/
def directoryACL (acl : List Nfs4ACE) : ℕ → List Nfs4ACE
  | 0 => acl
  | n + 1 => createInheritedACL (directoryACL acl n) true

/-! ## What becomes of an entry -/

/-- What an entry is in the `n`-th directory. -/
def onDirectory : ℕ → Nfs4ACE → Option Nfs4ACE
  | 0, ace => some ace
  | n + 1, ace => (onDirectory n ace).bind (inherit true)

/-- What an entry is in a file that is made in the `n`-th directory. -/
def onFile (n : ℕ) (ace : Nfs4ACE) : Option Nfs4ACE := (onDirectory n ace).bind (inherit false)

/-- The entry is that entry, but for the flags of inheritance. -/
def ComesFrom (ace old : Nfs4ACE) : Prop :=
  ace.type = old.type ∧ ace.mask = old.mask ∧ ace.who = old.who ∧
    ace.flags &&& ~~~(inheritanceFlags ||| inheritedACE) =
      old.flags &&& ~~~(inheritanceFlags ||| inheritedACE)

variable (acl : List Nfs4ACE) (n : ℕ) (ace : Nfs4ACE) (dir : Bool)

lemma directoryACL_eq : directoryACL acl n = acl.filterMap (onDirectory n) := by
  induction n with
  | zero => exact List.filterMap_some.symm
  | succ n ih =>
    rw [directoryACL, ih, createInheritedACL, List.filterMap_filterMap]
    rfl

/-- An entry that does not propagate is inherited once, any other one as if its directory were the
first. -/
lemma inherit_inherit : (inherit true ace).bind (inherit dir) =
    if ace.hasNoPropagate then none else inherit dir ace := by
  cases hfile : ace.hasFileInheritance <;> cases hdir : ace.hasDirectoryInheritance <;>
    cases honce : ace.hasNoPropagate <;> cases dir <;>
    simp_all [inherit, hasInheritance, inheritedFlags, hasFileInheritance, hasDirectoryInheritance,
      hasNoPropagate, BitVec.and_or_distrib_right, BitVec.and_assoc, BitVec.or_assoc]

lemma onDirectory_bind : (onDirectory n ace).bind (inherit dir) =
    if n = 0 ∨ ace.hasNoPropagate = false then inherit dir ace else none := by
  induction n generalizing dir with
  | zero => rfl
  | succ n ih =>
    rw [onDirectory, ih]
    by_cases h : ace.hasNoPropagate = false
    · rw [if_pos (.inr h), if_pos (.inr h), inherit_inherit, if_neg (by simp [h])]
    · rw [if_neg (not_or.mpr ⟨Nat.succ_ne_zero n, h⟩)]
      split_ifs
      · rw [inherit_inherit, if_pos (Bool.eq_true_of_not_eq_false h)]
      · rfl

/-- What the flags say about an entry that is inherited once. -/
lemma inherit_spec :
    (∀ heir ∈ inherit dir ace, heir.ComesFrom ace ∧
        (dir = false → heir.flags = ace.flags &&& ~~~inheritanceFlags ||| inheritedACE)) ∧
      ((inherit false ace).isSome ↔ ace.hasFileInheritance) ∧
      ((∃ heir ∈ inherit true ace, heir.isInheritOnly = false) ↔ ace.hasDirectoryInheritance) := by
  cases hfile : ace.hasFileInheritance <;> cases hdir : ace.hasDirectoryInheritance <;>
    cases honce : ace.hasNoPropagate <;> cases dir <;>
    simp [inherit, hasInheritance, inheritedFlags, hfile, hdir, honce, isInheritOnly, ComesFrom,
      BitVec.and_or_distrib_right, BitVec.and_assoc, BitVec.or_assoc]

/-- An entry of a directory reaches the files of the `n`-th directory below exactly if files inherit
it and it propagates or `n` is 0, and it is in force in the `n`-th directory exactly if directories
inherit it and it propagates or `n` is 1. -/
theorem inherited_at_depth :
    directoryACL acl n = acl.filterMap (onDirectory n) ∧
      createInheritedACL (directoryACL acl n) false = acl.filterMap (onFile n) ∧
      ∀ ace, ((onFile n ace).isSome ↔
          ace.hasFileInheritance ∧ (n = 0 ∨ ace.hasNoPropagate = false)) ∧
        (∀ heir ∈ onFile n ace, heir.ComesFrom ace ∧
          heir.flags = ace.flags &&& ~~~inheritanceFlags ||| inheritedACE) ∧
        (∀ heir ∈ onDirectory n ace, heir.ComesFrom ace) ∧
        (n ≠ 0 → ((∃ heir ∈ onDirectory n ace, heir.isInheritOnly = false) ↔
          ace.hasDirectoryInheritance ∧ (n = 1 ∨ ace.hasNoPropagate = false))) := by
  refine ⟨directoryACL_eq acl n, ?_, fun ace => ?_⟩
  · rw [directoryACL_eq, createInheritedACL, List.filterMap_filterMap]
    rfl
  obtain ⟨hfile, hsome, -⟩ := inherit_spec ace false
  obtain ⟨hdir, -, hforce⟩ := inherit_spec ace true
  rw [onFile, onDirectory_bind]
  refine ⟨?_, ?_, ?_, ?_⟩
  · split_ifs with h
    · simp [hsome, h]
    · simp [h]
  · split_ifs with h
    · exact fun heir hheir => ⟨(hfile heir hheir).1, (hfile heir hheir).2 rfl⟩
    · nofun
  · cases n with
    | zero =>
      rintro heir ⟨⟩
      exact ⟨rfl, rfl, rfl, rfl⟩
    | succ n =>
      rw [onDirectory, onDirectory_bind]
      split_ifs
      · exact fun heir hheir => (hdir heir hheir).1
      · nofun
  · intro hn
    obtain ⟨n, rfl⟩ := Nat.exists_eq_succ_of_ne_zero hn
    rw [onDirectory, onDirectory_bind]
    split_ifs with h
    · rw [hforce]
      simp [h]
    · simp [h]

end Nfs4ACE

end Beegfs
