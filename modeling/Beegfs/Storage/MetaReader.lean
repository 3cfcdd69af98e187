import Beegfs.Striping.PatternSerialization
import Beegfs.Storage.StatData

/-!
# Code that reads metadata

The code that reads metadata from disk is written once for two readings.  With a deserializer as
context it is the program, with the grammars as context it is the format that the program is for:
the same fields in the same order, without the handling of errors.  Each operation of the program
refines the operation of the format.
-/

namespace Beegfs

open Bytes StripePattern List Grammar

/-- What a context for reading metadata offers. -/
class MetaReader (m : Type → Type) extends Monad m where
  /-- An integer of `w` bits. -/
  integral (w : ℕ) : m (BitVec w)
  /-- Bytes that are not used. -/
  skip (n : ℕ) : m Unit
  /-- A vector, which was `value` before. -/
  vector (w : ℕ) (value : List (BitVec w)) : m (List (BitVec w))
  /-- `stringAlign4` -/
  string : m (List Byte)
  /-- `StripePattern::deserialize` -/
  pattern (hasPoolId : Bool) : m (Option StripePattern)
  /-- A pattern whose members are used through a pointer. -/
  deref (pattern : Option StripePattern) : m StripePattern
  /-- `if(!des.good() ) return x;` -/
  returnIfBad {α : Type} (x : α) (rest : m α) : m α
  /-- `des.setBad(); return x;` -/
  reject {α : Type} (x : α) : m α
  /-- `if(des.good() && p) { des.setBad(); return x; }` -/
  rejectIf {α : Type} (p : Bool) (x : α) (rest : m α) : m α

open Deserializer Decoder

/-- The program. -/
instance : MetaReader DesM where
  integral := getIntegral
  skip := Deserializer.skip
  vector := getCollection
  string := getString
  pattern := deserialize
  deref pattern := match pattern with
    | some pattern => pure pattern
    | none => throw .nullPattern
  returnIfBad x rest := do
    if !(← isGood) then
      return x
    rest
  reject x := do
    setBad
    return x
  rejectIf p x rest := do
    if (← isGood) && p then do
      setBad
      return x
    else
      rest

/-- The format. -/
instance : MetaReader (Grammar Byte) where
  integral := word
  skip := skipped
  vector w _ := collection w
  string := Deserializer.string
  pattern hasPoolId := format hasPoolId >>= fun pattern => pure (some pattern)
  deref pattern := match pattern with
    | some pattern => pure pattern
    | none => .hazard
  returnIfBad _ rest := rest
  reject _ := .fail
  rejectIf p _ rest := if p then .fail else rest

/-! ## Hazards -/

namespace StripePattern

open Grammar

variable (hasPoolId : Bool)

/-- The header of a pattern that is refused neither because of its chunk size nor because of its
type, but whose type is not known. -/
def UnknownType (bs : List Byte) : Prop :=
  ∃ header, (StripePatternHeader.format hasPoolId).accepts header bs ∧ header.chunkSize ≠ 0 ∧
    header.type ≠ StripePatternType.invalid.toWord ∧ ¬ StripePatternContent.KnownType header.type

lemma header_harmless : (StripePatternHeader.format hasPoolId).Harmless :=
  (harmless_ofWords _).bind fun _ => (harmless_ofWords _).bind fun _ =>
    (harmless_ofWords _).bind fun _ =>
      ((harmless_ofWords _).bind fun _ => harmless_pure _).ite
        (harmless_pure _)

lemma content_harmless {type : BitVec 32} (h : StripePatternContent.KnownType type) :
    (StripePatternContent.format type).Harmless := by
  have hwords : ∀ {α : Type} {word : α → List Byte → Prop}, (ofWords word).Harmless :=
    harmless_ofWords _
  rcases h with rfl | rfl | rfl
  · exact hwords.bind fun _ => hwords.bind fun _ => harmless_pure _
  · exact hwords.bind fun _ => hwords.bind fun _ => hwords.bind fun _ => harmless_pure _
  · exact hwords.bind fun _ => hwords.bind fun _ => harmless_pure _

/-- The only hazard in a pattern is an unknown type. -/
lemma format_hazards_iff (bs : List Byte) :
    (format hasPoolId >>= fun p => pure (some p)).hazards bs ↔ UnknownType hasPoolId bs := by
  constructor
  · rintro ((hhdr | ⟨header, v, v', hhdr, hrest, rfl⟩) | ⟨_, _, _, _, hpure, _⟩)
    · exact absurd hhdr (header_harmless hasPoolId bs)
    · dsimp only at hrest
      split at hrest
      next => exact hrest.elim
      next hchunk =>
        split at hrest
        next => exact hrest.elim
        next hinv =>
          by_cases hknown : StripePatternContent.KnownType header.type
          · exact absurd hrest ((content_harmless hknown).bind (fun _ => harmless_pure _) v')
          · rw [StripePatternContent.format_of_not_known hknown, hazard_bind] at hrest
            obtain rfl : v' = [] := hrest
            rw [append_nil]
            exact ⟨header, hhdr, hchunk, hinv, hknown⟩
    · exact hpure.elim
  · rintro ⟨header, hhdr, hchunk, hinv, hknown⟩
    refine .inl (.inr ⟨header, bs, [], hhdr, ?_, (append_nil bs).symm⟩)
    dsimp only
    rw [if_neg hchunk, if_neg hinv, StripePatternContent.format_of_not_known hknown, hazard_bind]
    rfl

end StripePattern

namespace DiskMetaData

/-- What the decoders must not come across: the header of a pattern whose type is not known, and the
greatest length of a string. -/
def UnsafeField (bs : List Byte) : Prop :=
  (∃ hasPoolId, StripePattern.UnknownType hasPoolId bs) ∨ bs = wordBytes (-1 : BitVec 32)

/-- The hazards of the format are the unsafe fields in it. -/
abbrev UnsafeFieldsOnly {α : Type} (G : Grammar Byte α) : Prop := G.HazardsEndIn UnsafeField

end DiskMetaData

/-! ## Reading -/

namespace MetaReader

variable {α β : Type}

/-- The program `m` reads the format `G`. -/
abbrev Reads (m : DesM α) (G : Grammar Byte α) : Prop := Refines m G

lemma reads_integral {w : ℕ} [Fact (8 ∣ w)] : Reads (integral (m := DesM) w) (integral w) :=
  refines_getIntegral

/-- The program `m` reads the format `G`, whose hazards are the unsafe fields in it. -/
abbrev Decodes (m : DesM α) (G : Grammar Byte α) : Prop := RefinesUpTo DiskMetaData.UnsafeField m G

lemma decodes_integral {w : ℕ} [Fact (8 ∣ w)] : Decodes (integral w) (integral w) :=
  .of_harmless reads_integral (harmless_ofWords _)

lemma decodes_skip (n : ℕ) : Decodes (skip n) (skip n) :=
  .of_harmless (refines_skip n) (harmless_ofWords _)

lemma decodes_string : Decodes string string := by
  have hraw : (word 32 >>= stringData).HazardsEndIn DiskMetaData.UnsafeField := by
    rintro _ (hbs | ⟨_, v, v', rfl, hv', rfl⟩)
    · exact hbs.elim
    · unfold stringData at hv'
      split at hv'
      next h =>
        obtain rfl : v' = [] := hv'
        rw [h]
        exact ⟨_, suffix_rfl, .inr rfl⟩
      next => exact hv'.elim
  refine ⟨refines_getString, Grammar.HazardsEndIn.bind (G := withLength _) hraw fun r => ?_⟩
  exact ((decodes_skip _).hazards.bind fun _ => (harmless_pure _).hazardsEndIn).ite
    (harmless_pure _).hazardsEndIn

lemma decodes_pattern (hasPoolId : Bool) : Decodes (pattern hasPoolId) (pattern hasPoolId) :=
  ⟨refines_deserialize hasPoolId, fun bs hbs => ⟨bs, suffix_rfl,
    .inl ⟨hasPoolId, (format_hazards_iff hasPoolId bs).mp hbs⟩⟩⟩

lemma decodes_returnIfBad (x : α) {m : DesM α} {G : Grammar Byte α} (h : Decodes m G) :
    Decodes (returnIfBad x m) (returnIfBad x G) := ⟨h.refines.returnIfBad x, h.hazards⟩

lemma decodes_reject (x : α) : Decodes (reject x) (reject x) :=
  .of_harmless (refines_setBad x) harmless_fail

lemma returnIfBad_apply (x : α) (m : DesM α) (des : Deserializer) :
    returnIfBad x m des = if !des.good then .ok (x, des) else m des := by
  show (isGood >>= fun g => if (!g) = true then pure x else m) des = _
  show (if (!des.good) = true then pure x else m) des = _
  split
  · rfl
  · rfl

/-- Where the deserializer is known to be good, a missing pattern is a hazard. -/
lemma reads_returnIfBad_deref (x : α) (pattern : Option StripePattern) (f : StripePattern → α) :
    Reads (returnIfBad x (deref pattern >>= fun pattern => pure (f pattern)))
      (returnIfBad x (deref pattern >>= fun pattern => pure (f pattern))) := by
  cases pattern with
  | some pattern =>
    refine Refines.returnIfBad x ?_
    show Refines (pure (f pattern)) (pure pattern >>= fun pattern => pure (f pattern))
    rw [pure_bind]
    exact Refines.pure (f pattern)
  | none =>
    show Refines _ (hazard >>= fun pattern => pure (f pattern))
    rw [hazard_bind]
    refine Refines.hazard (fun des hgood => ⟨.nullPattern, ?_⟩) fun des hbad => ⟨x, des, ?_, hbad⟩
    · have hgood' : des.good = true := hgood
      rw [returnIfBad_apply, hgood']
      rfl
    · have hbad' : des.good = false := hbad
      rw [returnIfBad_apply, hbad']
      rfl

lemma rejectIf_apply (p : Bool) (x : α) (m : DesM α) (des : Deserializer) :
    rejectIf p x m des = if des.good && p then .ok (x, des.bad) else m des := by
  show (isGood >>= fun g => if (g && p) = true then _ else m) des = _
  show (if (des.good && p) = true then _ else m) des = _
  split
  · rfl
  · rfl

lemma reads_rejectIf (p : Bool) (x : α) {m : DesM α} {G : Grammar Byte α} (h : Reads m G) :
    Reads (rejectIf p x m) (rejectIf p x G) := by
  cases p with
  | true =>
    refine Refines.fail fun des => ?_
    rw [LeavesBad, rejectIf_apply]
    cases hgood : des.good with
    | true => exact ⟨x, des.bad, rfl, rfl⟩
    | false => exact h.of_bad hgood
  | false =>
    have heq : rejectIf false x m = m := by
      funext des
      rw [rejectIf_apply, Bool.and_false]
      rfl
    rw [heq]
    exact h

end MetaReader

/-! ## Stat data -/

/-- `StatDataFormat`. -/
inductive StatDataFormat
  | net
  | fileInode
  | dentryV4
  | dirInode
  | dirInodeNoFlags
  deriving DecidableEq, Repr

namespace StatDataFormat

/-- `StatDataFormat_Flag_IsNet` -/
def isNet : StatDataFormat → Bool
  | net => true
  | _ => false

/-- `StatDataFormat_Flag_HasFlags` -/
def hasFlags : StatDataFormat → Bool
  | net | fileInode | dirInode => true
  | dentryV4 | dirInodeNoFlags => false

/-- `StatDataFormat_Flag_DiskDirInode` -/
def diskDirInode : StatDataFormat → Bool
  | dirInode | dirInodeNoFlags => true
  | net | fileInode | dentryV4 => false

end StatDataFormat

namespace StatData

open MetaReader

variable {m : Type → Type} [MetaReader m] (format : StatDataFormat) (obj : StatData)

/-- The first fields of `serializeFmt`. -/
def readFlags : m StatData :=
  if format.hasFlags || format.isNet then do
    let flags ← integral 32
    let mode ← integral 32
    let attribs := { obj.settableFileAttribs with mode }
    let obj := { obj with flags, settableFileAttribs := attribs }
    if format.isNet then do
      -- the number of blocks, which only the client uses
      let _numBlocks ← integral 64
      return obj
    else if obj.getIsSparseFile then do
      let chunkBlocksVec ← vector 64 obj.chunkBlocksVec
      return { obj with chunkBlocksVec }
    else
      return obj
  else
    return obj

/-- The times of `serializeFmt`. -/
def readTimes : m StatData := do
  let creationTimeSecs ← integral 64
  let lastAccessTimeSecs ← integral 64
  let modificationTimeSecs ← integral 64
  let attribChangeTimeSecs ← integral 64
  let attribs := { obj.settableFileAttribs with lastAccessTimeSecs, modificationTimeSecs }
  return { obj with creationTimeSecs, attribChangeTimeSecs, settableFileAttribs := attribs }

/-- The fields of `serializeFmt` that inodes of directories do not have. -/
def readFileFields : m StatData :=
  if !format.diskDirInode then do
    let fileSize ← integral 64
    let nlink ← integral 32
    let metaVersion ← integral 32
    return { obj with fileSize, nlink, metaVersion }
  else
    return obj

/-- The last fields of `serializeFmt`. -/
def readOwner : m StatData := do
  let userID ← integral 32
  let groupID ← integral 32
  let attribs := { obj.settableFileAttribs with userID, groupID }
  let obj := { obj with settableFileAttribs := attribs }
  if !format.hasFlags then do
    let mode ← integral 32
    return { obj with settableFileAttribs := { attribs with mode } }
  else
    return obj

/-- `serializeFmt`, for reading. -/
def serializeFmt : m StatData := do
  let obj ← readFlags format obj
  let obj ← readTimes obj
  let obj ← readFileFields format obj
  readOwner format obj

lemma decodes_serializeFmt : Decodes (serializeFmt format obj) (serializeFmt format obj) := by
  have h32 : Decodes (integral 32) (integral 32) := decodes_integral
  have h64 : Decodes (integral 64) (integral 64) := decodes_integral
  have hvector : ∀ value, Decodes (vector 64 value) (vector 64 value) := fun value =>
    .of_harmless (refines_getCollection (by decide) value) (harmless_ofWords _)
  refine .bind ?_ fun obj => .bind ?_ fun obj => .bind ?_ fun obj => ?_
  · refine .ite (h32.bind fun flags => h32.bind fun mode => .ite ?_ (.ite ?_ (.pure _))) (.pure obj)
    · exact h64.bind fun _ => .pure _
    · exact (hvector _).bind fun _ => .pure _
  · exact h64.bind fun _ => h64.bind fun _ => h64.bind fun _ => h64.bind fun _ => .pure _
  · exact .ite (h64.bind fun _ => h32.bind fun _ => h32.bind fun _ => .pure _) (.pure obj)
  · exact h32.bind fun _ => h32.bind fun _ => .ite (h32.bind fun _ => .pure _) (.pure _)

end StatData

end Beegfs
