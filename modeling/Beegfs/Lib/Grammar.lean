import Mathlib

/-!
# Grammars and decoders

A grammar relates values to the words that stand for them.  It also names the hazards: words that
must not occur where a value is expected.  Grammars form a monad, so that a format whose later parts
depend on values of earlier parts is written down part by part.

A decoder reads a value at a cursor.  It refines a grammar if it reads the words of the grammar and
advances over them, leaves the cursor bad in all other cases, and fails on the hazards only.
-/

namespace Beegfs

open List

/-- Values, the words that stand for them, and words that must not occur in their place. -/
@[ext]
structure Grammar (τ α : Type) where
  /-- The word stands for the value. -/
  accepts : α → List τ → Prop
  /-- The word must not occur. -/
  hazards : List τ → Prop

namespace Grammar

variable {τ α β : Type} {a : α} {b : β} {v w : List τ}

/-! ## Composing grammars -/

instance : Monad (Grammar τ) where
  pure a :=
    { accepts := fun b w => b = a ∧ w = []
      hazards := fun _ => False }
  bind G F :=
    { accepts := fun b w => ∃ a v v', G.accepts a v ∧ (F a).accepts b v' ∧ w = v ++ v'
      hazards := fun w =>
        G.hazards w ∨ ∃ a v v', G.accepts a v ∧ (F a).hazards v' ∧ w = v ++ v' }

/-- The grammar without words. -/
def fail : Grammar τ α where
  accepts _ _ := False
  hazards _ := False

/-- A place that must not be reached. -/
def hazard : Grammar τ α where
  accepts _ _ := False
  hazards w := w = []

/-- Exactly the given words stand for the values. -/
def ofWords (word : α → List τ → Prop) : Grammar τ α where
  accepts := word
  hazards _ := False

/-- No word is a hazard. -/
def Harmless (G : Grammar τ α) : Prop := ∀ w, ¬ G.hazards w

lemma harmless_pure (a : α) : Harmless (pure a : Grammar τ α) := fun _ => id

lemma harmless_ofWords (word : α → List τ → Prop) : Harmless (ofWords word) := fun _ => id

lemma harmless_fail : Harmless (fail : Grammar τ α) := fun _ => id

variable {p : Prop} {G₁ G₂ : Grammar τ α}

lemma Harmless.ite [Decidable p] (h1 : G₁.Harmless)
    (h2 : G₂.Harmless) : (if p then G₁ else G₂).Harmless := by
  split
  · exact h1
  · exact h2

variable {G : Grammar τ α} {F : α → Grammar τ β}

lemma Harmless.bind (hG : G.Harmless) (hF : ∀ a, (F a).Harmless) : (G >>= F).Harmless := by
  rintro w (hw | ⟨a, v, v', _, hw, _⟩)
  · exact hG w hw
  · exact hF a v' hw

lemma accepts_bind (hG : G.accepts a v) (hF : (F a).accepts b w) : (G >>= F).accepts b (v ++ w) :=
  ⟨a, v, w, hG, hF, rfl⟩

lemma accepts_map (f : α → β) (hG : G.accepts a w) : (G >>= fun a => pure (f a)).accepts (f a) w :=
  ⟨a, w, [], hG, ⟨rfl, rfl⟩, (append_nil w).symm⟩

lemma accepts_ite [Decidable p] (h1 : p → G₁.accepts a v)
    (h2 : ¬ p → G₂.accepts a w) : (if p then G₁ else G₂).accepts a (if p then v else w) := by
  by_cases hp : p
  · rw [if_pos hp, if_pos hp]
    exact h1 hp
  · rw [if_neg hp, if_neg hp]
    exact h2 hp

lemma accepts_unless {c : Bool} (hc : c = true) (h : G₂.accepts a w) :
    (if (!c) = true then G₁ else G₂).accepts a w := by
  subst hc
  exact h

lemma bind_pure : (G >>= fun a => pure a) = G := by
  ext a w
  · constructor
    · rintro ⟨_, v, _, hG, ⟨rfl, rfl⟩, rfl⟩
      rwa [append_nil]
    · intro hG
      exact ⟨a, w, [], hG, ⟨rfl, rfl⟩, (append_nil w).symm⟩
  · constructor
    · rintro (hG | ⟨_, _, _, _, hpure, _⟩)
      · exact hG
      · exact hpure.elim
    · exact .inl

/-- All values of the grammar have a property. -/
def Ensures (G : Grammar τ α) (P : α → Prop) : Prop := ∀ a w, G.accepts a w → P a

variable {Q : α → Prop}

lemma Ensures.bind_of {P : β → Prop}
    (hG : G.Ensures Q) (hF : ∀ a, Q a → (F a).Ensures P) : (G >>= F).Ensures P := by
  rintro b _ ⟨a, v, v', ha, hb, rfl⟩
  exact hF a (hG a v ha) b v' hb

lemma Ensures.bind {P : β → Prop} (hF : ∀ a, (F a).Ensures P) : (G >>= F).Ensures P :=
  Ensures.bind_of (Q := fun _ => True) (fun _ _ _ => trivial) fun a _ => hF a

variable {P : α → Prop}

lemma ensures_pure (ha : P a) : (pure a : Grammar τ α).Ensures P := by
  rintro _ _ ⟨rfl, _⟩
  exact ha

lemma Ensures.ite [Decidable p]
    (h1 : G₁.Ensures P) (h2 : G₂.Ensures P) : (if p then G₁ else G₂).Ensures P := by
  split
  · exact h1
  · exact h2

lemma Ensures.and (hP : G.Ensures P) (hQ : G.Ensures Q) : G.Ensures fun a => P a ∧ Q a :=
  fun a w h => ⟨hP a w h, hQ a w h⟩

lemma ensures_fail : (fail : Grammar τ α).Ensures P := fun _ _ h => h.elim

lemma Ensures.unless {c : Bool} (h : c = true → G.Ensures P) :
    (if (!c) = true then fail else G).Ensures P := by
  cases c with
  | false => exact ensures_fail
  | true => exact h rfl

/-- Every hazard ends with a word of the language. -/
def HazardsEndIn (G : Grammar τ α) (language : List τ → Prop) : Prop :=
  ∀ w, G.hazards w → ∃ v, v <:+ w ∧ language v

section HazardsEndIn

variable {language : List τ → Prop} {G : Grammar τ α}

lemma Harmless.hazardsEndIn (h : G.Harmless) : G.HazardsEndIn language :=
  fun w hw => absurd hw (h w)

variable {F : α → Grammar τ β}

lemma HazardsEndIn.bind_of (hG : G.HazardsEndIn language) (hQ : G.Ensures Q)
    (hF : ∀ a, Q a → (F a).HazardsEndIn language) : (G >>= F).HazardsEndIn language := by
  rintro w (hw | ⟨a, v, v', ha, hv', rfl⟩)
  · exact hG w hw
  · obtain ⟨u, hu, hlanguage⟩ := hF a (hQ a v ha) v' hv'
    exact ⟨u, hu.trans (suffix_append v v'), hlanguage⟩

lemma HazardsEndIn.bind (hG : G.HazardsEndIn language) (hF : ∀ a, (F a).HazardsEndIn language) :
    (G >>= F).HazardsEndIn language :=
  hG.bind_of (Q := fun _ => True) (fun _ _ _ => trivial) fun a _ => hF a

lemma HazardsEndIn.ite {p : Prop} [Decidable p] {G₁ G₂ : Grammar τ α}
    (h1 : G₁.HazardsEndIn language) (h2 : G₂.HazardsEndIn language) :
    (if p then G₁ else G₂).HazardsEndIn language := by
  split
  · exact h1
  · exact h2

end HazardsEndIn

lemma pure_bind (a : α) (F : α → Grammar τ β) : (pure a >>= F) = F a := by
  ext b w
  · constructor
    · rintro ⟨_, _, v, ⟨rfl, rfl⟩, hF, rfl⟩
      exact hF
    · intro hF
      exact ⟨a, [], w, ⟨rfl, rfl⟩, hF, rfl⟩
  · constructor
    · rintro (hpure | ⟨_, _, v, ⟨rfl, rfl⟩, hF, rfl⟩)
      · exact hpure.elim
      · exact hF
    · intro hF
      exact .inr ⟨a, [], _, ⟨rfl, rfl⟩, hF, rfl⟩

lemma bind_assoc {γ : Type} (H : β → Grammar τ γ) : (G >>= F >>= H) = G >>= fun a => F a >>= H := by
  ext c w
  · constructor
    · rintro ⟨b, _, v3, ⟨a, v1, v2, hG, hF, rfl⟩, hH, rfl⟩
      exact ⟨a, v1, _, hG, ⟨b, v2, v3, hF, hH, rfl⟩, append_assoc _ _ _⟩
    · rintro ⟨a, v1, _, hG, ⟨b, v2, v3, hF, hH, rfl⟩, rfl⟩
      exact ⟨b, _, v3, ⟨a, v1, v2, hG, hF, rfl⟩, hH, (append_assoc _ _ _).symm⟩
  · constructor
    · rintro ((hG | ⟨a, v1, v2, hG, hF, rfl⟩) | ⟨b, _, v3, ⟨a, v1, v2, hG, hF, rfl⟩, hH, rfl⟩)
      · exact .inl hG
      · exact .inr ⟨a, v1, v2, hG, .inl hF, rfl⟩
      · exact .inr ⟨a, v1, _, hG, .inr ⟨b, v2, v3, hF, hH, rfl⟩, append_assoc _ _ _⟩
    · rintro (hG | ⟨a, v1, _, hG, hF | ⟨b, v2, v3, hF, hH, rfl⟩, rfl⟩)
      · exact .inl (.inl hG)
      · exact .inl (.inr ⟨a, v1, _, hG, hF, rfl⟩)
      · exact .inr ⟨b, _, v3, ⟨a, v1, v2, hG, hF, rfl⟩, hH, (append_assoc _ _ _).symm⟩

lemma fail_bind : (fail >>= F) = fail := by
  ext b w
  · exact ⟨fun ⟨_, _, _, h, _⟩ => h, False.elim⟩
  · exact ⟨fun h => h.elim id fun ⟨_, _, _, h, _⟩ => h, False.elim⟩

lemma hazard_bind : (hazard >>= F) = hazard := by
  ext b w
  · exact ⟨fun ⟨_, _, _, h, _⟩ => h, False.elim⟩
  · exact ⟨fun h => h.elim id fun ⟨_, _, _, h, _⟩ => h.elim, .inl⟩

end Grammar

/-! ## Cursors -/

/-- Positions in an input.  A cursor can be bad, and then nothing can be read any more. -/
class Cursor (σ : Type) (τ : outParam Type) where
  /-- Whether the cursor is still in the input. -/
  good : σ → Bool
  /-- The word is what comes next in the input. -/
  Next : σ → List τ → Prop
  /-- The cursor, moved on. -/
  advance : σ → ℕ → σ
  next_nil : ∀ s, Next s [] ↔ good s = true
  next_append : ∀ s v w, Next s (v ++ w) ↔ Next s v ∧ Next (advance s v.length) w
  advance_zero : ∀ s, advance s 0 = s
  advance_advance : ∀ s m n, advance (advance s m) n = advance s (m + n)

namespace Cursor

variable {σ τ : Type} [Cursor σ τ] {s : σ} {v w : List τ}

lemma good_of_next (h : Next s w) : good s = true := by
  rw [← nil_append w, next_append] at h
  exact (next_nil s).mp h.1

lemma good_advance (h : Next s w) : good (advance s w.length) = true := by
  rw [← append_nil w, next_append] at h
  exact (next_nil _).mp h.2

/-- Some word of the language comes next. -/
def Matches (s : σ) (language : List τ → Prop) : Prop := ∃ w, language w ∧ Next s w

end Cursor

/-! ## Decoders -/

open Cursor

/-- A function that reads a value at a cursor, or fails. -/
abbrev Decoder (ε σ α : Type) := StateT σ (Except ε) α

namespace Decoder

variable {ε σ τ α β : Type} {s s' : σ} {a : α} {b : β}

lemma bind_apply (m : Decoder ε σ α) (f : α → Decoder ε σ β) :
    (m >>= f) s = match m s with
      | .ok (a, s') => f a s'
      | .error e => .error e := by
  show (m s >>= fun r => f r.1 r.2) = _
  cases m s with
  | error e => rfl
  | ok r => rfl

variable {m : Decoder ε σ α} {f : α → Decoder ε σ β}

lemma bind_of_eq_ok (h : m s = .ok (a, s')) : (m >>= f) s = f a s' := by
  rw [bind_apply, h]

lemma bind_eq_ok_iff {r : β × σ} :
    (m >>= f) s = .ok r ↔ ∃ a s', m s = .ok (a, s') ∧ f a s' = .ok r := by
  rw [bind_apply]
  cases m s with
  | error e => simp
  | ok r =>
    constructor
    · intro h
      exact ⟨r.1, r.2, rfl, h⟩
    · rintro ⟨a, s', hr, h⟩
      rw [Except.ok.inj hr]
      exact h

lemma bind_eq_error_iff {e : ε} :
    (m >>= f) s = .error e ↔ m s = .error e ∨ ∃ a s', m s = .ok (a, s') ∧ f a s' = .error e := by
  rw [bind_apply]
  cases m s with
  | error e => simp
  | ok r =>
    constructor
    · intro h
      exact .inr ⟨r.1, r.2, rfl, h⟩
    · rintro (h | ⟨a, s', hr, h⟩)
      · nomatch h
      · rw [Except.ok.inj hr]
        exact h

/-- Whether the cursor is good. -/
def isGood [Cursor σ τ] : Decoder ε σ Bool := fun s => .ok (good s, s)

variable [Cursor σ τ]

/-- The decoder `m` returns at this cursor and leaves it bad. -/
def LeavesBad (m : Decoder ε σ α) (s : σ) : Prop := ∃ a s', m s = .ok (a, s') ∧ good s' = false

lemma LeavesBad.not_good (h : LeavesBad m s) (hm : m s = .ok (a, s')) : ¬good s' = true := by
  obtain ⟨_, _, hm', hbad⟩ := h
  rw [hm, Except.ok.injEq, Prod.mk.injEq] at hm'
  rw [hm'.2, hbad]
  exact Bool.false_ne_true

lemma LeavesBad.not_error (h : LeavesBad m s) : ¬∃ e, m s = .error e := by
  obtain ⟨a, _, hm, -⟩ := h
  rintro ⟨e, he⟩
  nomatch hm.symm.trans he

/-- The decoder `m` reads the words of the grammar. -/
def Complete (m : Decoder ε σ α) (G : Grammar τ α) : Prop :=
  ∀ ⦃s a w⦄, G.accepts a w → Next s w → m s = .ok (a, advance s w.length)

lemma Complete.bind {G : Grammar τ α}
    {F : α → Grammar τ β} (hm : Complete m G) (hf : ∀ a, Complete (f a) (F a)) :
    Complete (m >>= f) (G >>= F) := by
  rintro s b w ⟨a, v, v', hG, hF, rfl⟩ hnext
  obtain ⟨hv, hv'⟩ := (next_append s v v').mp hnext
  rw [bind_of_eq_ok (hm hG hv), hf a hF hv', advance_advance, length_append]

/-- The decoder `m` reads the words of the grammar, and nothing else. -/
structure Refines (m : Decoder ε σ α) (G : Grammar τ α) : Prop where
  complete : Complete m G
  sound : ∀ {s a s'}, m s = .ok (a, s') → good s' = true →
    ∃ w, G.accepts a w ∧ Next s w ∧ s' = advance s w.length
  fault : ∀ {s}, (∃ e, m s = .error e) ↔ Matches s G.hazards

variable {G : Grammar τ α} {F : α → Grammar τ β}

namespace Refines

protected lemma pure (a : α) : Refines (pure a : Decoder ε σ α) (pure a : Grammar τ α) := by
  constructor
  · rintro s b w ⟨rfl, rfl⟩ _
    rw [length_nil, advance_zero]
    rfl
  · intro s b s' h hgood
    obtain ⟨rfl, rfl⟩ := Prod.mk.inj (Except.ok.inj h)
    exact ⟨[], ⟨rfl, rfl⟩, (next_nil _).mpr hgood, (advance_zero _).symm⟩
  · intro s
    constructor
    · rintro ⟨e, he⟩
      nomatch he
    · rintro ⟨w, hw, _⟩
      exact hw.elim

/-- A word that is read after the word of the first decoder. -/
lemma exists_bind {s1 : σ} {v' : List τ} (hm : Refines m G) (hres : m s = .ok (a, s1))
    (hF : (F a).accepts b v') (hv' : Next s1 v') :
    ∃ w, (G >>= F).accepts b w ∧ Next s w ∧ advance s1 v'.length = advance s w.length := by
  obtain ⟨v, hG, hv, rfl⟩ := hm.sound hres (good_of_next hv')
  refine ⟨v ++ v', ⟨a, v, v', hG, hF, rfl⟩, (next_append s v v').mpr ⟨hv, hv'⟩, ?_⟩
  rw [advance_advance, length_append]

protected lemma bind (hm : Refines m G) (hf : ∀ a, Refines (f a) (F a)) :
    Refines (m >>= f) (G >>= F) := by
  constructor
  · exact hm.complete.bind fun a => (hf a).complete
  · intro s b s' h hgood
    obtain ⟨a, s1, hm1, hf1⟩ := bind_eq_ok_iff.mp h
    obtain ⟨v', hF, hv', rfl⟩ := (hf a).sound hf1 hgood
    exact hm.exists_bind hm1 hF hv'
  · intro s
    constructor
    · rintro ⟨e, he⟩
      rcases bind_eq_error_iff.mp he with he | ⟨a, s1, hm1, he⟩
      · obtain ⟨w, hw, hnext⟩ := hm.fault.mp ⟨e, he⟩
        exact ⟨w, .inl hw, hnext⟩
      · -- the second decoder fails at a good cursor only, so the first one has read a word
        obtain ⟨v', hF, hv'⟩ := (hf a).fault.mp ⟨e, he⟩
        obtain ⟨v, hG, hv, rfl⟩ := hm.sound hm1 (good_of_next hv')
        exact ⟨v ++ v', .inr ⟨a, v, v', hG, hF, rfl⟩, (next_append s v v').mpr ⟨hv, hv'⟩⟩
    · rintro ⟨w, hw | ⟨a, v, v', hG, hF, rfl⟩, hnext⟩
      · obtain ⟨e, he⟩ := hm.fault.mpr ⟨w, hw, hnext⟩
        exact ⟨e, bind_eq_error_iff.mpr (.inl he)⟩
      · obtain ⟨hv, hv'⟩ := (next_append s v v').mp hnext
        obtain ⟨e, he⟩ := (hf a).fault.mpr ⟨v', hF, hv'⟩
        exact ⟨e, bind_eq_error_iff.mpr (.inr ⟨a, _, hm.complete hG hv, he⟩)⟩

/-- Only the words that can come next at a cursor matter. -/
lemma congr {G' : Grammar τ α} (hm : Refines m G)
    (hacc : ∀ (s : σ) a w, Next s w → (G.accepts a w ↔ G'.accepts a w))
    (hhaz : ∀ (s : σ) w, Next s w → (G.hazards w ↔ G'.hazards w)) : Refines m G' := by
  constructor
  · intro s a w hw hnext
    exact hm.complete ((hacc s a w hnext).mpr hw) hnext
  · intro s a s' h hgood
    obtain ⟨w, hw, hnext, hs'⟩ := hm.sound h hgood
    exact ⟨w, (hacc s a w hnext).mp hw, hnext, hs'⟩
  · intro s
    rw [hm.fault]
    constructor
    · rintro ⟨w, hw, hnext⟩
      exact ⟨w, (hhaz s w hnext).mp hw, hnext⟩
    · rintro ⟨w, hw, hnext⟩
      exact ⟨w, (hhaz s w hnext).mpr hw, hnext⟩

lemma congrWords {word : α → List τ → Prop} (hm : Refines m G) (hG : G.Harmless)
    (h : ∀ (s : σ) a w, Next s w → (G.accepts a w ↔ word a w)) : Refines m (Grammar.ofWords word) :=
  hm.congr h fun _ w _ => iff_of_false (hG w) id

/-- A choice that does not depend on the cursor. -/
protected lemma ite {p : Prop} [Decidable p] {m₁ m₂ : Decoder ε σ α} {G₁ G₂ : Grammar τ α}
    (h₁ : p → Refines m₁ G₁) (h₂ : ¬ p → Refines m₂ G₂) :
    Refines (if p then m₁ else m₂) (if p then G₁ else G₂) := by
  split
  next hp => exact h₁ hp
  next hp => exact h₂ hp

/-- A decoder that always leaves the cursor bad. -/
lemma fail (h : ∀ s, LeavesBad m s) : Refines m Grammar.fail := by
  constructor
  · intro s a w hw
    exact hw.elim
  · intro s a s' hm hgood
    exact absurd hgood ((h s).not_good hm)
  · intro s
    refine iff_of_false (h s).not_error ?_
    rintro ⟨w, hw, _⟩
    exact hw.elim

/-- Only what the decoder does at good cursors matters, as long as it leaves bad ones bad. -/
lemma of_good {m' : Decoder ε σ α} (h : Refines m' G) (hgood : ∀ s, good s = true → m s = m' s)
    (hbad : ∀ s, good s = false → LeavesBad m s) : Refines m G := by
  constructor
  · intro s a w hw hnext
    rw [hgood s (good_of_next hnext)]
    exact h.complete hw hnext
  · intro s a s' hm hs'
    cases hs : good s with
    | true => exact h.sound (hgood s hs ▸ hm) hs'
    | false => exact absurd hs' ((hbad s hs).not_good hm)
  · intro s
    cases hs : good s with
    | true => rw [hgood s hs]; exact h.fault
    | false =>
      refine iff_of_false (hbad s hs).not_error ?_
      rintro ⟨w, _, hnext⟩
      rw [good_of_next hnext] at hs
      nomatch hs

/-- A bad cursor stays bad. -/
lemma of_bad (hm : Refines m G) (hs : good s = false) : LeavesBad m s := by
  have hnext : ∀ w, ¬ Next s w := by
    intro w hw
    rw [good_of_next hw] at hs
    nomatch hs
  cases hres : m s with
  | error e =>
    obtain ⟨w, _, hw⟩ := hm.fault.mp ⟨e, hres⟩
    exact absurd hw (hnext w)
  | ok r =>
    refine ⟨r.1, r.2, hres, Bool.eq_false_iff.mpr fun hgood => ?_⟩
    obtain ⟨w, _, hw, _⟩ := hm.sound hres hgood
    exact hnext w hw

/-- A decoder that fails at every good cursor. -/
lemma hazard (hgood : ∀ s, good s = true → ∃ e, m s = .error e)
    (hbad : ∀ s, good s = false → LeavesBad m s) : Refines m Grammar.hazard := by
  constructor
  · intro s a w hw
    exact hw.elim
  · intro s a s' hm hs'
    cases hs : good s with
    | true =>
      obtain ⟨e, he⟩ := hgood s hs
      rw [he] at hm
      nomatch hm
    | false => exact absurd hs' ((hbad s hs).not_good hm)
  · intro s
    constructor
    · intro herror
      refine ⟨[], rfl, (next_nil s).mpr ?_⟩
      by_contra hs
      exact (hbad s (Bool.eq_false_iff.mpr hs)).not_error herror
    · rintro ⟨w, _, hnext⟩
      exact hgood s (good_of_next hnext)

/-- Leaving early at a bad cursor changes nothing of what is read. -/
lemma exitIfBad {m0 : Decoder ε σ α} (hm : Refines m G)
    (h0 : ∀ s, good s = false → LeavesBad m0 s) :
    Refines (isGood >>= fun g => if (!g) = true then m0 else m) G := by
  refine hm.of_good ?_ ?_
  · intro s hs
    rw [bind_apply, isGood, hs]
    rfl
  · intro s hs
    obtain ⟨a, s', hm0, hs'⟩ := h0 s hs
    refine ⟨a, s', ?_, hs'⟩
    rw [← hm0, bind_apply, isGood, hs]
    rfl

lemma returnIfBad (x : α) (hm : Refines m G) :
    Refines (isGood >>= fun g => if (!g) = true then pure x else m) G :=
  hm.exitIfBad fun s hs => ⟨x, s, rfl, hs⟩

/-- The hazards after a harmless word are those at the cursor that the first decoder returns. -/
lemma matches_hazards_bind_iff (hm : Refines m G) (hG : G.Harmless) (hres : m s = .ok (a, s')) :
    Matches s (G >>= F).hazards ↔ good s' = true ∧ Matches s' (F a).hazards := by
  constructor
  · rintro ⟨w, hw | ⟨_, v, v', ha', hv', rfl⟩, hnext⟩
    · exact absurd hw (hG w)
    · obtain ⟨hv, hnext'⟩ := (next_append s v v').mp hnext
      have hread := hm.complete ha' hv
      rw [hres] at hread
      obtain ⟨rfl, rfl⟩ := hread
      exact ⟨good_advance hv, v', hv', hnext'⟩
  · rintro ⟨hgood, v', hv', hnext'⟩
    obtain ⟨v, ha, hv, rfl⟩ := hm.sound hres hgood
    exact ⟨v ++ v', .inr ⟨a, v, v', ha, hv', rfl⟩, (next_append s v v').mpr ⟨hv, hnext'⟩⟩

/-- The words of the composed grammar, seen from the cursor that the first decoder returns. -/
lemma exists_accepts_bind_iff (hm : Refines m G) {s1 : σ} (hres : m s = .ok (a, s1))
    (hs1 : good s1 = true) :
    (∃ w, (G >>= F).accepts b w ∧ Next s w ∧ s' = advance s w.length) ↔
      ∃ w, (F a).accepts b w ∧ Next s1 w ∧ s' = advance s1 w.length := by
  constructor
  · rintro ⟨_, ⟨_, v, v', ha', hb, rfl⟩, hnext, rfl⟩
    obtain ⟨hv, hv'⟩ := (next_append s v v').mp hnext
    have hread := hm.complete ha' hv
    rw [hres] at hread
    obtain ⟨rfl, rfl⟩ := hread
    refine ⟨v', hb, hv', ?_⟩
    rw [advance_advance, length_append]
  · rintro ⟨v', hb, hv', rfl⟩
    exact hm.exists_bind hres hb hv'

lemma matches_accepts_bind_iff (hm : Refines m G) {s1 : σ} (hres : m s = .ok (a, s1))
    (hs1 : good s1 = true) : Matches s ((G >>= F).accepts b) ↔ Matches s1 ((F a).accepts b) := by
  constructor
  · rintro ⟨w, hw, hnext⟩
    obtain ⟨w', hw', hnext', -⟩ := (hm.exists_accepts_bind_iff hres hs1).mp ⟨w, hw, hnext, rfl⟩
    exact ⟨w', hw', hnext'⟩
  · rintro ⟨w, hw, hnext⟩
    obtain ⟨w', hw', hnext', -⟩ := (hm.exists_accepts_bind_iff hres hs1).mpr ⟨w, hw, hnext, rfl⟩
    exact ⟨w', hw', hnext'⟩

/-- If a word that comes next is read, and what follows it is not in the rest of the format, then
nothing is. -/
lemma not_matches_bind (hm : Refines m G) {v w : List τ} (ha : G.accepts a v)
    (hnext : Next s (v ++ w)) (hF : ∀ s' : σ, Next s' w → ¬ Matches s' ((F a).accepts b)) :
    ¬ Matches s ((G >>= F).accepts b) := by
  obtain ⟨hv, hw⟩ := (next_append s v w).mp hnext
  rw [hm.matches_accepts_bind_iff (hm.complete ha hv) (good_advance hv)]
  exact hF _ hw

end Refines

/-- The decoder `m` refines the grammar, whose hazards end with words of the language. -/
structure RefinesUpTo (language : List τ → Prop) (m : Decoder ε σ α) (G : Grammar τ α) : Prop where
  refines : Refines m G
  hazards : G.HazardsEndIn language

namespace RefinesUpTo

variable {language : List τ → Prop}

lemma of_harmless (h : Refines m G) (hG : G.Harmless) : RefinesUpTo language m G :=
  ⟨h, hG.hazardsEndIn⟩

protected lemma pure (a : α) : RefinesUpTo language (pure a : Decoder ε σ α) (pure a) :=
  of_harmless (Refines.pure a) (Grammar.harmless_pure a)

protected lemma bind (hm : RefinesUpTo language m G)
    (hf : ∀ a, RefinesUpTo language (f a) (F a)) : RefinesUpTo language (m >>= f) (G >>= F) :=
  ⟨hm.refines.bind fun a => (hf a).refines, hm.hazards.bind fun a => (hf a).hazards⟩

protected lemma ite {p : Prop} [Decidable p] {m' : Decoder ε σ α} {G' : Grammar τ α}
    (h : RefinesUpTo language m G) (h' : RefinesUpTo language m' G') :
    RefinesUpTo language (if p then m else m') (if p then G else G') :=
  ⟨Refines.ite (fun _ => h.refines) fun _ => h'.refines, h.hazards.ite h'.hazards⟩

end RefinesUpTo

/-- The decoder `m` returns only if it has read a word of the grammar. -/
structure Demands (m : Decoder ε σ α) (G : Grammar τ α) : Prop where
  complete : Complete m G
  sound : ∀ {s a s'}, m s = .ok (a, s') → ∃ w, G.accepts a w ∧ Next s w ∧ s' = advance s w.length

lemma Demands.bind (hm : Refines m G) (hf : ∀ a, Demands (f a) (F a)) :
    Demands (m >>= f) (G >>= F) := by
  constructor
  · exact hm.complete.bind fun a => (hf a).complete
  · intro s b s' h
    obtain ⟨a, _, hm1, hf1⟩ := bind_eq_ok_iff.mp h
    obtain ⟨_, hF, hv', rfl⟩ := (hf a).sound hf1
    exact hm.exists_bind hm1 hF hv'

end Decoder

end Beegfs
