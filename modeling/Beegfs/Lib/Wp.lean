import Mathlib

/-!
# Programs with a state that may stop

A program here works on a state and returns a value, or it stops where it is, for a reason `ε`, and
leaves the state that it has reached.  `Wp m s Q E` says that the program `m`, begun in `s`, returns
a value and a state that meet `Q`, or stops with a reason and a state that meet `E`.  There is one
rule for each way to build a program, so that a program is verified by reading it from the first
step to the last, and one that replaces a call by what is known of it.
-/

namespace Beegfs

section Wp

variable {ε σ α β : Type}

/-- The program, begun in `s`, returns with `Q` or stops with `E`. -/
def Wp (m : EStateM ε σ α) (s : σ) (Q : α → σ → Prop) (E : ε → σ → Prop) : Prop :=
  match m s with
  | .ok a s' => Q a s'
  | .error e s' => E e s'

variable {m : EStateM ε σ α} {s : σ} {Q Q' : α → σ → Prop} {E E' : ε → σ → Prop}

@[simp] lemma wp_get {Q : σ → σ → Prop} : Wp get s Q E ↔ Q s s := Iff.rfl

@[simp] lemma wp_modify {Q : PUnit → σ → Prop} (f : σ → σ) :
    Wp (modify f : EStateM ε σ PUnit) s Q E ↔ Q ⟨⟩ (f s) := Iff.rfl

@[simp] lemma wp_modifyGet (f : σ → α × σ) : Wp (modifyGet f) s Q E ↔ Q (f s).1 (f s).2 := Iff.rfl

@[simp] lemma wp_bind {Q : β → σ → Prop} (m : EStateM ε σ α) (f : α → EStateM ε σ β) :
    Wp (m >>= f) s Q E ↔ Wp m s (fun a s' => Wp (f a) s' Q E) E := by
  have hrun : (m >>= f) s = EStateM.bind m f s := rfl
  unfold Wp
  rw [hrun, EStateM.bind]
  cases m s <;> rfl

lemma wp_ite {c : Prop} [Decidable c] {m m' : EStateM ε σ α} :
    Wp (if c then m else m') s Q E ↔ (c → Wp m s Q E) ∧ (¬c → Wp m' s Q E) := by
  split_ifs with h <;> simp [h]

/-- What is known of a call is weakened to what its caller needs. -/
lemma Wp.mono (h : Wp m s Q E) (hQ : ∀ a s', Q a s' → Q' a s') (hE : ∀ e s', E e s' → E' e s') :
    Wp m s Q' E' := by
  unfold Wp at h ⊢
  cases hm : m s with
  | ok a s' =>
    rw [hm] at h
    exact hQ a s' h
  | error e s' =>
    rw [hm] at h
    exact hE e s' h

/-- A call is replaced by what is known of it, and the rest of the program is verified from
there. -/
lemma Wp.bind {Q : α → σ → Prop} {R : β → σ → Prop} {f : α → EStateM ε σ β} (h : Wp m s Q E)
    (hf : ∀ a s', Q a s' → Wp (f a) s' R E') (hE : ∀ e s', E e s' → E' e s') :
    Wp (m >>= f) s R E' :=
  (wp_bind m f).mpr (h.mono hf hE)

end Wp

end Beegfs
