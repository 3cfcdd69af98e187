import Mathlib

/-!
# Contents of a file

The contents of a file are a list of bytes of any type, with a value that gaps are filled with.
Reading returns what the file has in a range of offsets, which is less than asked for at the end of
the file; writing replaces and extends, and fills the gap if it starts behind the end of the file.
The lemmas put reads and writes of adjacent ranges together and take the read of a part out of a
longer read.
-/

namespace Beegfs.FileContents

open List

variable {α : Type*} {fill : α} (f : List α)

/-- The part of the file that a read of `n` bytes at offset `o` returns. -/
def readAt (o n : ℕ) : List α := (f.drop o).take n

/-- The file after the bytes `d` have been written at offset `o`; writing nothing leaves the file
as it is, also behind its end. -/
def writeAt (fill : α) (f : List α) (o : ℕ) (d : List α) : List α :=
  if d = [] then f
  else (f ++ List.replicate (o - f.length) fill).take o ++ d ++ f.drop (o + d.length)

@[simp] lemma readAt_zero (o : ℕ) : readAt f o 0 = [] := take_zero

@[simp] lemma length_readAt (o n : ℕ) : (readAt f o n).length = min n (f.length - o) := by
  rw [readAt, length_take, length_drop]

@[simp] lemma writeAt_nil (o : ℕ) : writeAt fill f o [] = f := if_pos rfl

/-- A read of adjacent ranges is the reads of the ranges, one after the other. -/
lemma readAt_add (o m n : ℕ) : readAt f o (m + n) = readAt f o m ++ readAt f (o + m) n := by
  unfold readAt
  rw [take_add, drop_drop]

/-- A read is the read up to a place in its range and the read from there on. -/
lemma readAt_split {o s n : ℕ} (hs : o ≤ s) (hn : s ≤ o + n) :
    readAt f o n = readAt f o (s - o) ++ readAt f s (o + n - s) := by
  have hadd := readAt_add f o (s - o) (o + n - s)
  rw [Nat.add_sub_cancel' hs] at hadd
  rw [← hadd]
  congr 1
  omega

/-- What a longer read has in a range is what a read of the range returns. -/
lemma take_drop_readAt (o n i m : ℕ) (h : i + m ≤ n) :
    ((readAt f o n).drop i).take m = readAt f (o + i) m := by
  unfold readAt
  rw [drop_take, drop_drop, take_take, Nat.min_eq_left (by omega)]

/-- A read that got fewer bytes than it asked for has reached the end of the file. -/
lemma readAt_of_length_lt {f : List α} {o n : ℕ} (h : (readAt f o n).length < n) (m : ℕ) :
    readAt f (o + n) m = [] := by
  rw [length_readAt] at h
  rw [readAt, drop_eq_nil_of_le (by omega), take_nil]

/-- Asking for as many bytes as a read has returned returns the same bytes. -/
lemma readAt_length_readAt (o n : ℕ) : readAt f o (readAt f o n).length = readAt f o n := by
  unfold readAt
  simp

/-- Writing on from where the last write ended is one longer write. -/
lemma writeAt_writeAt (o : ℕ) (d e : List α) :
    writeAt fill (writeAt fill f o d) (o + d.length) e = writeAt fill f o (d ++ e) := by
  by_cases hd : d = []
  · subst hd
    simp
  by_cases he : e = []
  · subst he
    simp
  have hde : d ++ e ≠ [] := append_ne_nil_of_left_ne_nil hd e
  have hlen : ((f ++ List.replicate (o - f.length) fill).take o).length = o := by
    rw [length_take, length_append, length_replicate]
    omega
  unfold writeAt
  rw [if_neg hd, if_neg he, if_neg hde]
  generalize (f ++ List.replicate (o - f.length) fill).take o = p at hlen
  have hpd : (p ++ d).length = o + d.length := by rw [length_append, hlen]
  have hnopad : o + d.length - (p ++ d ++ f.drop (o + d.length)).length = 0 := by
    rw [length_append]
    omega
  rw [hnopad, replicate_zero, append_nil, ← hpd, take_left,
    drop_append, drop_eq_nil_of_le (Nat.le_add_right _ _), nil_append,
    Nat.add_sub_cancel_left, drop_drop, hpd, length_append, ← append_assoc,
    Nat.add_assoc]

end Beegfs.FileContents
