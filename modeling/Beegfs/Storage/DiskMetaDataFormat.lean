import Beegfs.Storage.DiskMetaData

/-!
# The formats of metadata on disk

The decoders of `DiskMetaData` read their formats: what is truncated, or has flags, versions or
types that are not supported, leaves the deserializer bad.  Inodes of directories in the format
versions 1 and 2 are the exception.  There the stripe pattern gets a storage pool whether it could
be read or not, and the decoder does not return unless the whole inode was read.

The hazards of the formats are the header of a stripe pattern whose type is not known, and the
length field of a string with the greatest length.
-/

namespace Beegfs

open Bytes Decoder MetaReader Grammar Ensures StripePattern Demands

/-! ## Which values have a stripe pattern -/

/-- There is a stripe pattern, and its chunk size is not zero. -/
def HasPattern (pattern : Option StripePattern) : Prop := ∃ p, pattern = some p ∧ p.getChunkSize ≠ 0

namespace StripePattern

lemma format_ensures (hasPoolId : Bool) :
    (format hasPoolId).Ensures fun p => p.getChunkSize ≠ 0 := by
  refine bind fun header => ?_
  by_cases hchunk : header.chunkSize = 0
  · rw [if_pos hchunk]
    exact ensures_fail
  · rw [if_neg hchunk]
    refine ite ensures_fail (bind fun content => ?_)
    refine ensures_pure ?_
    show (if header.chunkSize = 0 then stripePatternDefaultChunkSize else header.chunkSize) ≠ 0
    rwa [if_neg hchunk]

lemma pattern_ensures (hasPoolId : Bool) :
    (pattern (m := Grammar Byte) hasPoolId).Ensures HasPattern :=
  bind_of (format_ensures hasPoolId) fun p hp =>
    ensures_pure ⟨p, rfl, hp⟩

end StripePattern

namespace DiskMetaData

variable (hasStoragePool : Bool) (flags : BitVec 32)

lemma readInodeTail_ensures (inode : FileInodeStoreData) :
    (readInodeTail (m := Grammar Byte) hasStoragePool flags inode).Ensures
      fun inode => HasPattern inode.stripePattern := by
  refine bind fun inode =>
    (pattern_ensures hasStoragePool).bind_of fun pattern hpat => ?_
  refine ite ?_ (ensures_pure hpat)
  exact bind fun _ => bind fun _ => ensures_pure hpat

variable (data : DiskMetaData)

lemma deserializeDentryV5V6_ensures :
    (deserializeDentryV5V6 (m := Grammar Byte) hasStoragePool data).Ensures
      fun data => HasPattern data.inodeData.stripePattern := by
  refine bind fun flags => ite ensures_fail ?_
  refine bind fun _ => bind fun _ => bind fun _ =>
    bind fun _ => ?_
  exact (readInodeTail_ensures _ _ _).bind_of fun _ hpat => ensures_pure hpat

lemma deref_ensures {α : Type} {pattern : Option StripePattern} (h : HasPattern pattern)
    {P : α → Prop} {f : StripePattern → α}
    (hf : ∀ p : StripePattern, p.getChunkSize ≠ 0 → P (f p)) :
    (deref (m := Grammar Byte) pattern >>= fun p => pure (f p)).Ensures P := by
  obtain ⟨p, rfl, hp⟩ := h
  show (pure p >>= fun p => pure (f p) : Grammar Byte α).Ensures P
  rw [pure_bind]
  exact ensures_pure (hf p hp)

variable (owner : LocalOwner)

lemma deserializeDentryVersion_ensures {formatVersion : BitVec 8}
    (hver : formatVersion ≠ 3) (data : DiskMetaData) :
    (deserializeDentryVersion (m := Grammar Byte) owner formatVersion data).Ensures
      fun data => HasPattern data.inodeData.stripePattern := by
  rw [deserializeDentryVersion, if_neg hver]
  refine ite ?_ (ite ?_ (ite ?_ ensures_fail))
  · refine bind_of (P := fun d : DiskMetaData => HasPattern d.inodeData.stripePattern) ?_
      fun _ h => ensures_pure h
    refine bind fun flags => ite ensures_fail (bind fun _ => bind fun _ => bind fun _ => ?_)
    exact (readInodeTail_ensures _ _ _).bind_of fun _ hpat => ensures_pure hpat
  · refine (deserializeDentryV5V6_ensures false data).bind_of fun data h => ?_
    exact deref_ensures h fun p hp => ⟨_, rfl, hp⟩
  · exact (deserializeDentryV5V6_ensures true data).bind_of fun _ h => ensures_pure h

variable (inode : DirInode)

lemma readDirInodeTail_ensures : (readDirInodeTail (m := Grammar Byte) hasStoragePool inode).Ensures
      fun inode => HasPattern inode.stripePattern := by
  refine bind fun inode =>
    (pattern_ensures hasStoragePool).bind_of fun pattern hpat => ?_
  refine ite ?_ (ensures_pure hpat)
  exact deref_ensures hpat fun p hp => ⟨_, rfl, hp⟩

variable (formatVersion : BitVec 8)

lemma deserializeDirInodeData_ensures (inode : DirInode) :
    (deserializeDirInodeData (m := Grammar Byte) formatVersion inode).Ensures
      fun inode => HasPattern inode.stripePattern := by
  refine bind fun inode => ite ?_ (ite ?_ (ite ?_ ensures_fail))
  · exact bind fun _ => bind fun _ => readDirInodeTail_ensures _ _
  · exact bind fun _ => bind fun _ => readDirInodeTail_ensures _ _
  · exact bind fun _ => bind fun _ => readDirInodeTail_ensures _ _

/-! ## The decoders read their formats -/

lemma decodes_readEntryID : Decodes (readEntryID data) (readEntryID data) :=
  decodes_string.bind fun _ => .pure _

lemma decodes_deserializeDentryV3 :
    Decodes (deserializeDentryV3 data) (deserializeDentryV3 data) := by
  refine (decodes_readEntryID data).bind fun data => .ite ?_ ?_
  · exact decodes_integral.bind fun _ => .pure _
  · exact decodes_integral.bind fun _ => .pure _

lemma decodes_readInodeTail (inode : FileInodeStoreData) :
    Decodes (readInodeTail hasStoragePool flags inode)
      (readInodeTail hasStoragePool flags inode) := by
  have hmirror : Decodes (readInodeMirrorNode flags inode) (readInodeMirrorNode flags inode) :=
    .ite (decodes_integral.bind fun _ => .pure _) (.pure inode)
  refine hmirror.bind fun inode =>
    (decodes_pattern hasStoragePool).bind fun pattern => .ite ?_ (.pure _)
  exact decodes_integral.bind fun _ => decodes_integral.bind fun _ =>
    .pure _

lemma decodes_deserializeDentryV4 :
    Decodes (deserializeDentryV4 data) (deserializeDentryV4 data) := by
  refine decodes_integral.bind fun flags => decodes_returnIfBad data ?_
  refine .ite (decodes_reject data) ((decodes_skip 4).bind fun _ => ?_)
  exact (StatData.decodes_serializeFmt _ _).bind fun _ => (decodes_readEntryID _).bind fun data =>
    (decodes_readInodeTail false flags data.inodeData).bind fun _ => .pure _

lemma decodes_readFileState (inode : FileInodeStoreData) :
    Decodes (readFileState flags inode) (readFileState flags inode) := by
  refine .ite ?_ ((decodes_skip 4).bind fun _ => .pure inode)
  exact decodes_integral.bind fun _ => (decodes_skip 3).bind fun _ => .pure _

lemma decodes_readOrigParent (inode : FileInodeStoreData) :
    Decodes (readOrigParent flags inode) (readOrigParent flags inode) := by
  have huid : Decodes (readOrigUID flags inode) (readOrigUID flags inode) :=
    .ite decodes_integral (.pure _)
  exact huid.bind fun _ => .ite (decodes_string.bind fun _ => .pure _) (.pure _)

lemma decodes_deserializeDentryV5V6 : Decodes (deserializeDentryV5V6 hasStoragePool data)
      (deserializeDentryV5V6 hasStoragePool data) := by
  refine decodes_integral.bind fun flags => decodes_returnIfBad data ?_
  refine .ite (decodes_reject data) ((decodes_readFileState flags _).bind fun _ => ?_)
  refine (StatData.decodes_serializeFmt _ _).bind fun _ =>
    (decodes_readOrigParent flags _).bind fun _ => ?_
  exact (decodes_readEntryID _).bind fun data =>
    (decodes_readInodeTail hasStoragePool flags data.inodeData).bind fun _ => .pure _

lemma decodes_readDentryPadding (dentry : DentryStoreData) :
    Decodes (readDentryPadding dentry) (readDentryPadding dentry) := by
  refine .ite ?_ ((decodes_skip 3).bind fun _ => .pure dentry)
  exact decodes_integral.bind fun _ => (decodes_skip 1).bind fun _ => .pure _

/-- A pattern that was read can be used. -/
lemma unsafeFieldsOnly_deref {α : Type} {pattern : Option StripePattern} (h : HasPattern pattern)
    (f : StripePattern → α) : UnsafeFieldsOnly (deref pattern >>= fun p => pure (f p)) := by
  obtain ⟨p, rfl, -⟩ := h
  exact (harmless_pure p).hazardsEndIn.bind fun p => (harmless_pure (f p)).hazardsEndIn

variable (data : DiskMetaData)

lemma decodes_deserializeDentryVersion : Decodes (deserializeDentryVersion owner formatVersion data)
      (deserializeDentryVersion owner formatVersion data) := by
  refine .ite (decodes_deserializeDentryV3 data) (.ite ?_ (.ite ?_ (.ite ?_ (decodes_reject data))))
  · exact (decodes_deserializeDentryV4 data).bind fun data => decodes_returnIfBad data (.pure _)
  · -- the pattern gets a storage pool, and what was accepted has a pattern
    have hread := decodes_deserializeDentryV5V6 false data
    exact ⟨hread.refines.bind fun data => reads_returnIfBad_deref data _ _,
      hread.hazards.bind_of (deserializeDentryV5V6_ensures false data) fun _ h =>
        unsafeFieldsOnly_deref h _⟩
  · exact (decodes_deserializeDentryV5V6 true data).bind fun data =>
      decodes_returnIfBad data (.pure _)

lemma decodes_deserializeDentry :
    Decodes (deserializeDentry owner data) (deserializeDentry owner data) := by
  refine decodes_integral.bind fun _ =>
    decodes_integral.bind fun version =>
      decodes_integral.bind fun flags => decodes_returnIfBad data ?_
  refine .ite (decodes_reject data) (decodes_integral.bind fun _ => ?_)
  exact (decodes_readDentryPadding _).bind fun _ => decodes_deserializeDentryVersion owner version _

lemma reads_deserializeDentry :
    Reads (deserializeDentry owner data) (deserializeDentry owner data) :=
  (decodes_deserializeDentry owner data).refines

lemma decodes_serializeDirInodeCommonData :
    Decodes (serializeDirInodeCommonData inode) (serializeDirInodeCommonData inode) := by
  have hsubdirs : ∀ here n, Decodes (readNumSubdirs here n) (readNumSubdirs here n) := fun _ _ =>
    .ite decodes_integral (.pure _)
  exact (hsubdirs _ _).bind fun _ => (StatData.decodes_serializeFmt _ _).bind fun _ =>
    (hsubdirs _ _).bind fun _ => decodes_integral.bind fun _ =>
      decodes_string.bind fun _ => decodes_string.bind fun _ => .pure _

lemma decodes_readDirInodeMirrorNode :
    Decodes (readDirInodeMirrorNode inode) (readDirInodeMirrorNode inode) :=
  .ite (decodes_integral.bind fun _ => .pure _) (.pure inode)

lemma reads_readDirInodeTail_true :
    Reads (readDirInodeTail true inode) (readDirInodeTail true inode) :=
  (decodes_readDirInodeMirrorNode inode).refines.bind fun _ =>
    (decodes_pattern true).refines.bind fun _ => Refines.pure _

lemma reads_deserializeDirInodeHead :
    Reads (deserializeDirInodeHead inode) (deserializeDirInodeHead inode) := by
  refine reads_integral.bind fun metaDataType => reads_rejectIf _ _ ?_
  refine reads_integral.bind fun version =>
    reads_integral.bind fun flags => ?_
  exact Refines.returnIfBad _ (Refines.ite (fun _ => (decodes_reject _).refines) fun _ =>
    Refines.pure _)

lemma reads_deserializeDirInodeData {formatVersion : BitVec 8}
    (hold : ¬ (formatVersion = 1 ∨ formatVersion = 2)) (inode : DirInode) :
    Reads (deserializeDirInodeData formatVersion inode)
      (deserializeDirInodeData formatVersion inode) := by
  refine (decodes_serializeDirInodeCommonData inode).refines.bind fun inode => ?_
  refine Refines.ite (fun h => absurd (.inl h) hold) fun _ =>
    Refines.ite (fun h => absurd (.inr h) hold) fun _ =>
      Refines.ite (fun _ => ?_) fun _ => (decodes_reject inode).refines
  exact reads_integral.bind fun _ => reads_integral.bind fun _ =>
    reads_readDirInodeTail_true _

/-! ## Inodes of directories without a storage pool -/

/-- If the pattern is used in any case, then only a pattern that was read lets the decoder
return. -/
lemma demands_pattern {α : Type} (hasPoolId : Bool) (f : StripePattern → α) :
    Demands (pattern (m := DesM) hasPoolId >>= fun p => deref p >>= fun p => pure (f p))
      (pattern (m := Grammar Byte) hasPoolId >>= fun p => deref p >>= fun p => pure (f p)) := by
  have hformat : (pattern (m := Grammar Byte) hasPoolId >>= fun p => deref p >>= fun p =>
      pure (f p)) = format hasPoolId >>= fun p => pure (f p) := by
    show (format hasPoolId >>= fun p => pure (some p)) >>= _ = _
    rw [Grammar.bind_assoc]
    refine congrArg _ (funext fun p => ?_)
    rw [Grammar.pure_bind]
    exact Grammar.pure_bind p _
  have hreads := refines_deserialize hasPoolId
  rw [hformat]
  constructor
  · rintro des _ _ ⟨p, bs, _, hp, ⟨rfl, rfl⟩, rfl⟩ hnext
    rw [List.append_nil] at hnext ⊢
    exact bind_of_eq_ok (hreads.complete (Grammar.accepts_map some hp) hnext)
  · intro des a des' h
    obtain ⟨p, _, hp, h⟩ := bind_eq_ok_iff.mp h
    cases p with
    | none => nomatch h
    | some p =>
      obtain ⟨rfl, rfl⟩ := Prod.mk.inj (Except.ok.inj h)
      have hgood := good_of_deserialize_eq_some hp
      obtain ⟨_, ⟨q, bs, _, hq, ⟨hpq, rfl⟩, rfl⟩, hnext, hdes⟩ := hreads.sound hp hgood
      obtain rfl := Option.some.inj hpq
      rw [List.append_nil] at hnext hdes
      exact ⟨bs, Grammar.accepts_map f hq, hnext, hdes⟩

lemma demands_deserializeDirInodeData {formatVersion : BitVec 8}
    (hold : formatVersion = 1 ∨ formatVersion = 2) (inode : DirInode) :
    Demands (deserializeDirInodeData (m := DesM) formatVersion inode)
      (deserializeDirInodeData formatVersion inode) := by
  have htail : ∀ inode : DirInode, Demands (readDirInodeTail (m := DesM) false inode)
      (readDirInodeTail false inode) := fun inode =>
    bind (decodes_readDirInodeMirrorNode inode).refines fun inode => demands_pattern false _
  refine bind (decodes_serializeDirInodeCommonData inode).refines fun inode => ?_
  rcases hold with rfl | rfl
  · exact bind reads_integral fun _ =>
      bind reads_integral fun _ => htail _
  · exact bind reads_integral fun _ =>
      bind reads_integral fun _ => htail _

/-! ## The hazards of inodes of directories -/

lemma unsafeFieldsOnly_readDirInodeTail :
    UnsafeFieldsOnly (readDirInodeTail hasStoragePool inode) := by
  refine (decodes_readDirInodeMirrorNode inode).hazards.bind fun _ =>
    (decodes_pattern hasStoragePool).hazards.bind_of
      (pattern_ensures hasStoragePool) fun _ h => ?_
  exact (unsafeFieldsOnly_deref h _).ite (harmless_pure _).hazardsEndIn

lemma head_harmless : (deserializeDirInodeHead (m := Grammar Byte) inode).Harmless := by
  refine (harmless_ofWords _).bind fun _ => harmless_fail.ite ?_
  refine (harmless_ofWords _).bind fun _ => (harmless_ofWords _).bind fun _ => ?_
  exact harmless_fail.ite (harmless_pure _)

lemma unsafeFieldsOnly_deserializeDirInode : UnsafeFieldsOnly (deserializeDirInode inode) := by
  have hnodes : ∀ w hasStoragePool (f : BitVec w → BitVec w → DirInode), UnsafeFieldsOnly
      (integral w >>= fun owner => integral w >>= fun parent =>
        readDirInodeTail hasStoragePool (f owner parent)) := fun w hasStoragePool f =>
    (harmless_ofWords _).hazardsEndIn.bind fun _ => (harmless_ofWords _).hazardsEndIn.bind fun _ =>
      unsafeFieldsOnly_readDirInodeTail hasStoragePool _
  refine (head_harmless inode).hazardsEndIn.bind fun ⟨inode, formatVersion⟩ => ?_
  cases formatVersion with
  | some formatVersion =>
    exact (decodes_serializeDirInodeCommonData inode).hazards.bind fun inode =>
      (hnodes 16 false _).ite ((hnodes 32 false _).ite ((hnodes 32 true _).ite
        harmless_fail.hazardsEndIn))
  | none => exact (harmless_pure inode).hazardsEndIn

end DiskMetaData

end Beegfs
