import Beegfs.Lib.OrdMap
import Beegfs.Lib.Run

/-!
# Removing a file session that is in use

`SessionFileStore::removeSession` marks a session that is in use, and the release of the last
reference shall take it out of the store and close its inode.  But a release of a marked session
does nothing unless there is one reference, so that a marked session with more of them is never
removed.
-/

namespace Beegfs

/-- `ObjectReferencer<SessionFile*>`, with what the store uses of the session.  The `int` does not
overflow. -/
structure SessionFileReferencer (I : Type) where
  refCount : ℤ
  inode : I
  accessFlags : ℕ
  useAsyncCleanup : Bool

/-- A store, with the calls of `performAsyncCleanup` that it has made. -/
structure SessionFileStore (I : Type) where
  sessions : OrdMap ℕ (SessionFileReferencer I)
  cleanups : List (I × ℕ)

inductive SessionCall where
  | reference
  | release
deriving DecidableEq

/-- The calls release the `k` references that there are and those that they take. -/
def ReleasesAll : ℤ → List SessionCall → Prop
  | k, [] => k = 0
  | k, .reference :: calls => 0 < k ∧ ReleasesAll (k + 1) calls
  | k, .release :: calls => 0 < k ∧ ReleasesAll (k - 1) calls

namespace SessionFileStore

variable {I : Type} (s : SessionFileStore I) (sessionID : ℕ)

def referenceSession : SessionFileStore I :=
  match s.sessions.find sessionID with
  | none => s
  | some refer =>
    { s with sessions := s.sessions.set sessionID { refer with refCount := refer.refCount + 1 } }

def releaseSession : SessionFileStore I :=
  match s.sessions.find sessionID with
  | none => s
  | some refer =>
    if refer.useAsyncCleanup then
      if refer.refCount = 1 then
        ⟨s.sessions.erase sessionID, s.cleanups ++ [(refer.inode, refer.accessFlags)]⟩
      else s
    else
      { s with sessions := s.sessions.set sessionID { refer with refCount := refer.refCount - 1 } }

/-- Whether the session could be removed, and the store. -/
def removeSession : Bool × SessionFileStore I :=
  match s.sessions.find sessionID with
  | none => (false, s)
  | some refer =>
    if refer.refCount ≠ 0 then
      (false,
        { s with sessions := s.sessions.set sessionID { refer with useAsyncCleanup := true } })
    else (true, { s with sessions := s.sessions.erase sessionID })

def step : SessionCall → SessionFileStore I
  | .reference => s.referenceSession sessionID
  | .release => s.releaseSession sessionID

/-- The session is in the store until the last of the calls, which removes it and closes its
inode. -/
def CleansUp (refer : SessionFileReferencer I) (calls : List SessionCall) : Prop :=
  let after := runFrom (step · sessionID) s
  (∀ n < calls.length, (∃ refer', (sessionID, refer') ∈ (after (calls.take n)).sessions) ∧
    (after (calls.take n)).cleanups = s.cleanups) ∧
  (∀ refer', ¬(sessionID, refer') ∈ (after calls).sessions) ∧
    (after calls).cleanups = s.cleanups ++ [(refer.inode, refer.accessFlags)]

/-- The session is marked and has more than one reference. -/
def Stuck : Prop :=
  ∃ refer, (sessionID, refer) ∈ s.sessions ∧ refer.useAsyncCleanup ∧ 1 < refer.refCount

variable {s} {sessionID}

lemma Stuck.step (h : s.Stuck sessionID) (call : SessionCall) :
    (s.step sessionID call).Stuck sessionID := by
  obtain ⟨refer, hmem, hmarked, hcount⟩ := h
  have hfind := OrdMap.find_eq_some_iff.mpr hmem
  cases call with
  | reference =>
    refine ⟨{ refer with refCount := refer.refCount + 1 }, ?_, hmarked,
      Int.lt_add_one_iff.mpr (Int.le_of_lt hcount)⟩
    simp [SessionFileStore.step, referenceSession, hfind]
  | release =>
    refine ⟨refer, ?_, hmarked, hcount⟩
    simpa [SessionFileStore.step, releaseSession, hfind, hmarked, Int.ne_of_gt hcount] using hmem

lemma Stuck.run (h : s.Stuck sessionID) (calls : List SessionCall) :
    (runFrom (SessionFileStore.step · sessionID) s calls).Stuck sessionID :=
  runFrom_induction (I := (Stuck · sessionID)) (V := fun _ => True)
    (fun _ call _ h => h.step call) h fun _ _ => trivial

/-- A session is removed with its last reference if and only if it had one when it was marked, and
no further one is taken. -/
theorem cleansUp_iff {refer : SessionFileReferencer I} (h : (sessionID, refer) ∈ s.sessions)
    {calls : List SessionCall} (hpos : 1 ≤ refer.refCount)
    (hcalls : ReleasesAll refer.refCount calls) :
    (s.removeSession sessionID).2.CleansUp sessionID refer calls ↔
      refer.refCount = 1 ∧ .reference ∉ calls := by
  have hfind := OrdMap.find_eq_some_iff.mpr h
  have hmem : (sessionID, { refer with useAsyncCleanup := true }) ∈
      (s.removeSession sessionID).2.sessions := by
    simp [removeSession, hfind, show refer.refCount ≠ 0 by omega]
  have hfind' := OrdMap.find_eq_some_iff.mpr hmem
  rcases Int.lt_or_eq_of_le hpos with hcount | hcount
  · refine iff_of_false (fun hclean => ?_) fun hone => Int.ne_of_gt hcount hone.1
    obtain ⟨refer', hmem', -⟩ := Stuck.run ⟨_, hmem, rfl, hcount⟩ calls
    exact hclean.2.1 refer' hmem'
  rw [← hcount] at hcalls
  match calls, hcalls with
  | [.release], _ =>
    refine iff_of_true ⟨fun n hn => ?_, fun refer' => ?_, ?_⟩ ⟨hcount.symm, by decide⟩
    · obtain rfl : n = 0 := Nat.lt_one_iff.mp hn
      exact ⟨⟨_, hmem⟩, rfl⟩
    all_goals simp [runFrom, step, releaseSession, hfind', ← hcount]
  | .release :: .reference :: _, hrest | .release :: .release :: _, hrest =>
    exact absurd hrest.2.1 (by decide)
  | .reference :: calls, _ =>
    refine iff_of_false (fun hclean => ?_) fun hone => hone.2 List.mem_cons_self
    have hstuck : ((s.removeSession sessionID).2.step sessionID .reference).Stuck sessionID :=
      ⟨{ refer with refCount := refer.refCount + 1, useAsyncCleanup := true },
        by simp [step, referenceSession, hfind'], rfl, by simp [← hcount]⟩
    obtain ⟨refer', hmem', -⟩ := hstuck.run calls
    exact hclean.2.1 refer' hmem'

/-- A session with the given number of references. -/
def openFile (refCount : ℤ) : SessionFileStore Unit := ⟨.set .empty 1 ⟨refCount, (), 2, false⟩, []⟩

theorem cleansUp_openFile :
    ReleasesAll 1 [.release] ∧
      ((openFile 1).removeSession 1).2.CleansUp 1 ⟨1, (), 2, false⟩ [.release] := by
  have hcalls : ReleasesAll 1 [.release] := ⟨by decide, rfl⟩
  exact ⟨hcalls, (cleansUp_iff (s := openFile 1) (OrdMap.mem_set.mpr (.inl ⟨rfl, rfl⟩)) (by decide)
    hcalls).mpr ⟨rfl, by decide⟩⟩

/-- Two references are released, and the session is still in the store. -/
theorem not_cleansUp_openFile :
    ReleasesAll 2 [.release, .release] ∧
      ¬((openFile 2).removeSession 1).2.CleansUp 1 ⟨2, (), 2, false⟩ [.release, .release] := by
  refine ⟨⟨by decide, by decide, rfl⟩, fun h => h.2.1 ⟨2, (), 2, true⟩ ?_⟩
  exact List.mem_singleton.mpr rfl

end SessionFileStore

end Beegfs
