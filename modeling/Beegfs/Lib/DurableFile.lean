import Mathlib

/-!
# Files and crashes

A file is a table of cells that are written as a whole.  What was written since the last `fsync` is
seen by every reader, but a crash may lose it: after a crash each cell has the value of the last
`fsync` or one of those written to it since, whatever became of the other cells.  `Always` says of a
cell what a crash cannot take away.
-/

namespace Beegfs

/-- A file whose cells are numbered by `ι`: the values of the last `fsync` and, for each cell, the
values written since, the newest first. -/
structure DurableFile (ι β : Type) where
  synced : ι → β
  pending : ι → List β

namespace DurableFile

variable {ι β : Type}

/-- The file that was just created or opened. -/
def ofImage (img : ι → β) : DurableFile ι β := ⟨img, fun _ => []⟩

variable (f : DurableFile ι β)

/-- What a reader finds in a cell. -/
def contents (i : ι) : β := (f.pending i).headD (f.synced i)

/-- The values of `g` are written to the cells in `s`. -/
def write (s : ι → Prop) [DecidablePred s] (g : ι → β) : DurableFile ι β :=
  { f with pending := fun i => if s i then g i :: f.pending i else f.pending i }

/-- All that was written is on the disk. -/
def fsync : DurableFile ι β := ofImage f.contents

/-- The values that a cell may have after a crash. -/
def MaySurvive (i : ι) (v : β) : Prop := v = f.synced i ∨ v ∈ f.pending i

/-- The file may be found like this after a crash. -/
def Survives (img : ι → β) : Prop := ∀ i, f.MaySurvive i (img i)

/-- Whatever a crash leaves in the cell meets `P`. -/
def Always (i : ι) (P : β → Prop) : Prop := ∀ v, f.MaySurvive i v → P v

variable {f : DurableFile ι β} {i : ι} {P : β → Prop}

/-! ## Reading -/

lemma contents_write (s : ι → Prop) [DecidablePred s] (g : ι → β) (i : ι) :
    (f.write s g).contents i = if s i then g i else f.contents i := by
  unfold contents write
  by_cases h : s i <;> simp [h]

/-! ## Crashes -/

/-- A crash may lose nothing. -/
lemma survives_contents : f.Survives f.contents := by
  intro i
  unfold MaySurvive contents
  cases h : f.pending i with
  | nil => exact .inl rfl
  | cons v vs => exact .inr List.mem_cons_self

/-- A crash may lose everything since the last `fsync`. -/
lemma survives_synced : f.Survives f.synced := fun _ => .inl rfl

lemma Always.contents (h : f.Always i P) : P (f.contents i) := h _ (f.survives_contents i)

lemma Always.survives (h : f.Always i P) {img : ι → β} (himg : f.Survives img) : P (img i) :=
  h _ (himg i)

/-- Right after an `fsync` what a reader finds is what a crash leaves. -/
lemma always_fsync (h : P (f.contents i)) : f.fsync.Always i P := by
  rintro v (rfl | hv)
  · exact h
  · cases hv

lemma always_ofImage {img : ι → β} (h : P (img i)) : (ofImage img).Always i P := by
  rintro v (rfl | hv)
  · exact h
  · cases hv

/-- A write adds a value to those that a cell may have. -/
lemma MaySurvive.of_write {s : ι → Prop} [DecidablePred s] {g : ι → β} {v : β}
    (h : (f.write s g).MaySurvive i v) : f.MaySurvive i v ∨ (s i ∧ v = g i) := by
  rcases h with rfl | hv
  · exact .inl (.inl rfl)
  · change v ∈ (if s i then g i :: f.pending i else f.pending i) at hv
    by_cases hs : s i
    · rw [if_pos hs, List.mem_cons] at hv
      rcases hv with rfl | hv
      · exact .inr ⟨hs, rfl⟩
      · exact .inl (.inr hv)
    · rw [if_neg hs] at hv
      exact .inl (.inr hv)

/-- A write does not matter to the cells outside of it, and may add a value to those inside. -/
lemma Always.write {s : ι → Prop} [DecidablePred s] {g : ι → β} (h : f.Always i P)
    (hg : s i → P (g i)) : (f.write s g).Always i P := by
  intro v hv
  rcases hv.of_write with hv | ⟨hs, rfl⟩
  · exact h v hv
  · exact hg hs

end DurableFile

end Beegfs
