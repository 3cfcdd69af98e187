import Mathlib

/-!
# Runs of a step function

A component that is called again and again is a step function `step : σ → ι → σ`: the state before a
call and the call's input give the state after it.  A run is a list of inputs, the first call first.
This file has the few rules by which a fact about one call becomes a fact about every run:
`runFrom_induction` for invariants, `everyState_of_everyStep` for invariants of runs whose steps
meet a condition, `everyState_iff_everyStep` for a property that one call keeps exactly under a
condition on the state before the call, and `outputs_eq_of_simulation` for two components that
cannot be told apart by what they return.
-/

namespace Beegfs

open List

section Run

variable {σ ι : Type*} (step : σ → ι → σ)

/-- The state reached from `s` after the inputs `is`. -/
def runFrom (s : σ) (is : List ι) : σ := is.foldl step s

/-- `P` holds in every state of the run from `s`, in `s` itself and after each input. -/
def EveryState (P : σ → Prop) (s : σ) : List ι → Prop
  | [] => P s
  | i :: is => P s ∧ EveryState P (step s i) is

/-- `C` holds of the state before and the input of every step of the run from `s`. -/
def EveryStep (C : σ → ι → Prop) (s : σ) : List ι → Prop
  | [] => True
  | i :: is => C s i ∧ EveryStep C (step s i) is

instance decidableEveryState {P : σ → Prop} [DecidablePred P] (s : σ) :
    (is : List ι) → Decidable (EveryState step P s is)
  | [] => inferInstanceAs (Decidable (P s))
  | i :: is =>
    haveI := decidableEveryState (P := P) (step s i) is
    inferInstanceAs (Decidable (_ ∧ _))

instance decidableEveryStep {C : σ → ι → Prop} [∀ s i, Decidable (C s i)] (s : σ) :
    (is : List ι) → Decidable (EveryStep step C s is)
  | [] => isTrue trivial
  | i :: is =>
    haveI := decidableEveryStep (C := C) (step s i) is
    inferInstanceAs (Decidable (_ ∧ _))

lemma runFrom_concat (s : σ) (is : List ι) (i : ι) :
    runFrom step s (is ++ [i]) = step (runFrom step s is) i := by
  rw [runFrom, foldl_append]
  rfl

variable {step} {I : σ → Prop} {V : ι → Prop} {s : σ} {is : List ι}

/-- The invariant rule: what holds at the start and is kept by every valid input holds in every
state that valid inputs reach. -/
lemma runFrom_induction (hstep : ∀ s i, V i → I s → I (step s i)) (hs : I s)
    (hV : ∀ i ∈ is, V i) : I (runFrom step s is) := by
  induction is generalizing s with
  | nil => exact hs
  | cons i is ih =>
    exact ih (hstep s i (hV i mem_cons_self) hs) fun j hj => hV j (mem_cons_of_mem i hj)

variable {C D : σ → ι → Prop}

/-- Two conditions on the steps of a run are one. -/
lemma EveryStep.and (hC : EveryStep step C s is)
    (hD : EveryStep step D s is) : EveryStep step (fun s i => C s i ∧ D s i) s is := by
  induction is generalizing s with
  | nil => trivial
  | cons i is ih => exact ⟨⟨hC.1, hD.1⟩, ih hC.2 hD.2⟩

variable {P : σ → Prop}

/-- The invariant rule for runs whose steps all meet the condition `C`: an invariant that such steps
keep holds in every state of the run, and with it whatever it implies. -/
lemma everyState_of_everyStep (hI : ∀ s i, C s i → I s → I (step s i)) (hP : ∀ s, I s → P s)
    (hs : I s) (hC : EveryStep step C s is) : EveryState step P s is := by
  induction is generalizing s with
  | nil => exact hP s hs
  | cons i is ih => exact ⟨hP s hs, ih (hI s i hC.1 hs) hC.2⟩

/-- Steps that keep an invariant under the condition `C` do what both imply. -/
lemma EveryStep.imp_of_invariant
    (hI : ∀ s i, C s i → I s → I (step s i)) (hD : ∀ s i, C s i → I s → D s i) (hs : I s)
    (hC : EveryStep step C s is) : EveryStep step D s is := by
  induction is generalizing s with
  | nil => trivial
  | cons i is ih => exact ⟨hD s i hC.1 hs, ih (hI s i hC.1 hs) hC.2⟩

/-- A condition on the inputs alone. -/
lemma everyStep_of_forall (hV : ∀ i ∈ is, V i) : EveryStep step (fun _ i => V i) s is := by
  induction is generalizing s with
  | nil => trivial
  | cons i is ih =>
    exact ⟨hV i mem_cons_self, ih fun j hj => hV j (mem_cons_of_mem i hj)⟩

/-- A property that steps which meet `D` keep exactly under the condition `C` holds in all states of
a run of such steps if and only if all its steps meet `C`.  `I` is what else is known of the states
reached. -/
theorem everyState_iff_of_everyStep (hI : ∀ s i, D s i → I s → I (step s i))
    (hP : ∀ s i, D s i → I s → P s → (P (step s i) ↔ C s i))
    (hs : I s) (hPs : P s) (hD : EveryStep step D s is) :
    EveryState step P s is ↔ EveryStep step C s is := by
  induction is generalizing s with
  | nil => simp [EveryState, EveryStep, hPs]
  | cons i is ih =>
    have hkeep : P (step s i) ↔ C s i := hP s i hD.1 hs hPs
    simp only [EveryState, EveryStep, hPs, true_and]
    constructor
    · intro h
      have hPi : P (step s i) := by
        cases is with
        | nil => exact h
        | cons j js => exact h.1
      exact ⟨hkeep.mp hPi, (ih (hI s i hD.1 hs) hPi hD.2).mp h⟩
    · rintro ⟨hC, hrest⟩
      exact (ih (hI s i hD.1 hs) (hkeep.mpr hC) hD.2).mpr hrest

/-- The rule for steps of which only the inputs are restricted. -/
theorem everyState_iff_everyStep
    (hI : ∀ s i, V i → I s → I (step s i)) (hP : ∀ s i, V i → I s → P s → (P (step s i) ↔ C s i))
    (hs : I s) (hPs : P s) (hV : ∀ i ∈ is, V i) : EveryState step P s is ↔ EveryStep step C s is :=
  everyState_iff_of_everyStep hI hP hs hPs (everyStep_of_forall hV)

/-- The rule for a property of the states after the steps, together with one of the steps. -/
theorem everyStep_iff_everyStep {Q : σ → ι → Prop} (hI : ∀ s i, V i → I s → I (step s i))
    (hPQ : ∀ s i, V i → I s → P s → ((P (step s i) ∧ Q s i) ↔ C s i))
    (hs : I s) (hPs : P s) (hV : ∀ i ∈ is, V i) :
    EveryStep step (fun s i => P (step s i) ∧ Q s i) s is ↔ EveryStep step C s is := by
  induction is generalizing s with
  | nil => exact Iff.rfl
  | cons i is ih =>
    have hVi : V i := hV i mem_cons_self
    have hrest : ∀ j ∈ is, V j := fun j hj => hV j (mem_cons_of_mem i hj)
    constructor
    · rintro ⟨hPi, h⟩
      exact ⟨(hPQ s i hVi hs hPs).mp hPi, (ih (hI s i hVi hs) hPi.1 hrest).mp h⟩
    · rintro ⟨hCi, h⟩
      have hPi := (hPQ s i hVi hs hPs).mpr hCi
      exact ⟨hPi, (ih (hI s i hVi hs) hPi.1 hrest).mpr h⟩

end Run

/-! ## Runs with outputs -/

section Outputs

variable {σ τ ι ω : Type*}

/-- The outputs of a run, the first call's first. -/
def outputs (step : σ → ι → ω × σ) (s : σ) : List ι → List ω
  | [] => []
  | i :: is => (step s i).1 :: outputs step (step s i).2 is

/-- The simulation rule: if one call of related states has the same output on both sides and leaves
related states, then so has every run. -/
theorem outputs_eq_of_simulation {step : σ → ι → ω × σ} {step' : τ → ι → ω × τ} {R : σ → τ → Prop}
    (hstep : ∀ s t i, R s t → (step s i).1 = (step' t i).1 ∧ R (step s i).2 (step' t i).2)
    {s : σ} {t : τ} (hst : R s t) (is : List ι) :
    outputs step s is = outputs step' t is ∧
      R (runFrom (fun s i => (step s i).2) s is) (runFrom (fun t i => (step' t i).2) t is) := by
  induction is generalizing s t with
  | nil => exact ⟨rfl, hst⟩
  | cons i is ih =>
    obtain ⟨hout, hnext⟩ := hstep s t i hst
    obtain ⟨houts, hlast⟩ := ih hnext
    exact ⟨congrArg₂ List.cons hout houts, hlast⟩

end Outputs

end Beegfs
