import Beegfs.Storage.FileInode

/-!
# Metadata that does not fit its buffer

The functions that serialize a dentry or a file inode into a buffer of fixed size and hand the
buffer on, to a system call or to their caller.  `Serializer::size` goes on counting behind the end
of the buffer, so that only `Serializer::good` tells whether everything was written.

System calls do what they are asked to.  The memory behind the buffer is some memory; the files of
an entry are told apart by their names, and `link` copies.
-/

namespace Beegfs

open Bytes Serializer Option

/-! ## What is serialized -/

/-- `RemoteStorageTarget`. -/
structure RemoteStorageTarget where
  majorVersion : BitVec 8
  minorVersion : BitVec 8
  coolDownPeriod : BitVec 16
  reserved : BitVec 16
  filePolicies : BitVec 16
  rstIdVec : List (BitVec 32)

namespace RemoteStorageTarget

variable (rst : RemoteStorageTarget)

def serialize (ser : Serializer) : Serializer :=
  let ser := ser.putIntegral rst.majorVersion
  let ser := ser.putIntegral rst.minorVersion
  let ser := ser.putIntegral rst.coolDownPeriod
  let ser := ser.putIntegral rst.reserved
  let ser := ser.putIntegral rst.filePolicies
  ser.putCollection rst.rstIdVec

end RemoteStorageTarget

/-- What one call serializes: a dentry or an inode, and the remote targets behind an inode that
has some. -/
structure Payload where
  writer : FileWriter
  data : DiskMetaData
  rstInfo : Option RemoteStorageTarget

namespace Payload

variable (p : Payload)

def serialize (ser : Serializer) : Option Serializer := do
  let (_, ser) ← p.writer.serialize p.data ser
  return match p.rstInfo with
    | some rst => rst.serialize ser
    | none => ser

/-- The bytes are the serialized form.  There is none if the format has a stripe pattern and that of
the inode is a null pointer. -/
def SerializesTo (bs : List Byte) : Prop :=
  ∃ put, (∀ ser, p.serialize ser = some (put ser)) ∧ Appends put bs

end Payload

/-! ## The calls -/

/-- The errors of these calls. -/
inductive StoreErr
  | exists
  | internal
  | saveError
  | inodeNotInlined
  | pathNotExists
  | inUse
  deriving DecidableEq

/-- The metadata in the dentry-by-ID file and in the dentry-by-name file of an entry. -/
structure EntryFiles where
  idFile : Option (List Byte)
  nameFile : Option (List Byte)
  deriving DecidableEq

/-- What a call leaves: its result, the files, and how many bytes of the buffer were handed on. -/
structure Stored where
  res : Except StoreErr Unit
  files : EntryFiles
  handedOn : ℕ

/-- `DIRENTRY_SERBUF_SIZE` -/
def direntrySerbufSize : BitVec 32 := 4096

/-- `META_SERBUF_SIZE` -/
def metaSerbufSize : BitVec 32 := 8192

/-- A buffer with the memory behind it, after something was serialized into it. -/
structure Filled where
  good : Bool
  mem : ℕ → Byte
  /-- `Serializer::size` -/
  size : ℕ

def Payload.fill (p : Payload) (mem : ℕ → Byte) (bufLen : BitVec 32) : Option Filled := do
  let ser ← p.serialize ⟨some mem, bufLen, 0⟩
  let mem ← ser.buffer
  return ⟨ser.good, mem, ser.bufferOffset.toNat⟩

/-- A serializer that is good has written everything. -/
lemma Payload.SerializesTo.fill {p : Payload} {bs : List Byte} (h : p.SerializesTo bs)
    (mem : ℕ → Byte) (bufLen : BitVec 32) :
    ∃ buf, p.fill mem bufLen = some buf ∧ (buf.good = true → bs.length ≤ bufLen.toNat) := by
  obtain ⟨put, hput, happends⟩ := h
  have hbuf := happends.buffer_ne_none ⟨some mem, bufLen, 0⟩ nofun
  have hfits := happends.fits_of_good ⟨some mem, bufLen, 0⟩ nofun
  simp only [Payload.fill, hput, bind_eq_bind, bind_some]
  generalize put ⟨some mem, bufLen, 0⟩ = ser at hbuf hfits
  obtain ⟨mem', hmem'⟩ := ne_none_iff_exists'.mp hbuf
  refine ⟨⟨ser.good, mem', ser.bufferOffset.toNat⟩, by rw [hmem']; rfl, fun hgood => ?_⟩
  simpa using (hfits hgood).2

/-- What a system call reads from the buffer. -/
def Filled.handOn (buf : Filled) : List Byte := load buf.mem 0 buf.size

/-- What a file is moved with: the unreferenced inode that is found, with its remote targets, the
directory and the size of the buffer. -/
structure MoveRequest where
  inode : Except StoreErr (FileInode × Option RemoteStorageTarget)
  parentEntryID : List Byte
  bufLen : BitVec 32

/-- `InodeFileStore::moveRemoteBegin`, up to the serializer. -/
def MoveRequest.prepare (move : MoveRequest) : Except StoreErr Payload :=
  if move.bufLen < metaSerbufSize then .error .internal
  else move.inode.map fun (inode, rstInfo) =>
    ⟨.fileInode, (inode.modify (·.setPersistentOrigParentEntryID move.parentEntryID)).diskMetaData
      .fileInode, rstInfo⟩

/-- The functions that use a buffer, with what they are called for. -/
inductive BufferCall
  | storeInitialDirEntry (entry : DiskMetaData)
  | storeUpdatedDirEntry (entry : DiskMetaData)
  | storeUpdatedInode (entry : DiskMetaData)
  | moveRemoteBegin (move : MoveRequest)
  /-- Inlined inodes are left to `moveRemoteBegin`; of other files the dentry is looked up. -/
  | moveRemoteFileBegin (isInlined : Bool) (dentry : Option DiskMetaData) (move : MoveRequest)

/-- `DirEntry::getIsInodeInlined` -/
def getIsInodeInlined (entry : DiskMetaData) : Bool :=
  entry.dentryDiskData.dentryFeatureFlags &&& DentryStoreData.inodeInline != 0

/-- `DirEntry::storeInitialDirEntryName`: the ID file gets a name, and goes away if that is not
possible or if the inode is not inlined. -/
def storeInitialDirEntryName (files : EntryFiles) (isNonInlinedInode : Bool) :
    Except StoreErr Unit × EntryFiles :=
  if files.nameFile.isSome then (.error .exists, { files with idFile := none })
  else (.ok (), ⟨if isNonInlinedInode then none else files.idFile, files.idFile⟩)

namespace BufferCall

/-- The part of a call before the serializer. -/
def prepare (files : EntryFiles) : BufferCall → Except StoreErr Payload
  | storeInitialDirEntry entry =>
    if files.idFile.isSome then .error .exists else .ok ⟨.dentry, entry, none⟩
  | storeUpdatedDirEntry entry => .ok ⟨.dentry, entry, none⟩
  | storeUpdatedInode entry =>
    if getIsInodeInlined entry then .ok ⟨.dentry, entry, none⟩ else .error .inodeNotInlined
  | moveRemoteBegin move => move.prepare
  | moveRemoteFileBegin isInlined dentry move =>
    if isInlined then move.prepare
    else
      match dentry with
      | none => .error .pathNotExists
      | some dentry => .ok ⟨.dentry, dentry, none⟩

/-- The size of the buffer. -/
def bufLen : BufferCall → BitVec 32
  | storeInitialDirEntry _ | storeUpdatedDirEntry _ | storeUpdatedInode _ => direntrySerbufSize
  | moveRemoteBegin move | moveRemoteFileBegin _ _ move => move.bufLen

/-- The part of a call after the serializer.  Only `storeInitialDirEntryID` asks whether the
serializer is good, and then goes on to store the buffer. -/
def finish (files : EntryFiles) (buf : Filled) : BufferCall → Stored
  | storeInitialDirEntry entry =>
    let files := { files with idFile := some buf.handOn }
    if buf.good then
      let (res, files) := storeInitialDirEntryName files
        (entry.dentryDiskData.entryType = DirEntryType.directory || !getIsInodeInlined entry)
      ⟨res, files, buf.size⟩
    else ⟨.error .internal, files, buf.size⟩
  | storeUpdatedDirEntry _ => ⟨.ok (), { files with nameFile := some buf.handOn }, buf.size⟩
  | storeUpdatedInode _ => ⟨.ok (), { files with idFile := some buf.handOn }, buf.size⟩
  | moveRemoteBegin _ | moveRemoteFileBegin .. => ⟨.ok (), files, buf.size⟩

/-- The whole call.  There is no result if a null pointer is serialized. -/
def run (call : BufferCall) (mem : ℕ → Byte) (files : EntryFiles) : Option Stored :=
  match call.prepare files with
  | .error err => some ⟨.error err, files, 0⟩
  | .ok p => (p.fill mem call.bufLen).map (call.finish files)

/-! ## When oversized metadata is rejected -/

variable (call : BufferCall) (mem : ℕ → Byte) (files : EntryFiles)

/-- If the serialized form is longer than the buffer, the call returns an error, hands on nothing
from behind the buffer, and leaves the files as they were. -/
def RejectsOversized : Prop :=
  ∀ p, call.prepare files = .ok p → ∀ bs, p.SerializesTo bs → call.bufLen.toNat < bs.length →
    ∃ stored, call.run mem files = some stored ∧ stored.res ≠ .ok () ∧
      stored.handedOn ≤ call.bufLen.toNat ∧ stored.files = files

/-- The call fails before it serializes anything, or the serialized form fits the buffer. -/
def FitsBuffer : Prop :=
  ∀ p, call.prepare files = .ok p → ∀ bs, p.SerializesTo bs → bs.length ≤ call.bufLen.toNat

variable {call files} {p : Payload} {bs : List Byte}

lemma not_rejectsOversized (hbs : p.SerializesTo bs) (hprep : call.prepare files = .ok p)
    (hlong : call.bufLen.toNat < bs.length) : ¬call.RejectsOversized mem files := by
  intro h
  obtain ⟨_, hrun, hres, -, hfiles⟩ := h p hprep bs hbs hlong
  obtain ⟨buf, hfill, hgood⟩ := hbs.fill mem call.bufLen
  have hbad : buf.good = false := by
    by_contra hne
    exact absurd (hgood (by simpa using hne)) (Nat.not_le.mpr hlong)
  simp only [run, hprep, hfill, map_some, Option.some.injEq] at hrun
  subst hrun
  -- Metadata that does not fit is stored under a new ID, or the call succeeds.
  cases call with
  | storeInitialDirEntry entry =>
    have hnone : files.idFile = none := by
      by_contra hid
      simp [prepare, isSome_iff_ne_none, hid] at hprep
    rw [finish, hbad] at hfiles
    nomatch (congrArg EntryFiles.idFile hfiles).trans hnone
  | storeUpdatedDirEntry | storeUpdatedInode | moveRemoteBegin | moveRemoteFileBegin =>
    exact hres rfl

/-- None of the calls rejects metadata that does not fit its buffer. -/
theorem rejectsOversized_iff (call : BufferCall) (mem : ℕ → Byte) (files : EntryFiles) :
    call.RejectsOversized mem files ↔ call.FitsBuffer files := by
  constructor
  · intro h p hprep bs hbs
    by_contra hlong
    exact not_rejectsOversized mem hbs hprep (Nat.not_le.mp hlong) h
  · intro h p hprep bs hbs hlong
    exact absurd (h p hprep bs hbs) (Nat.not_le.mpr hlong)

/-- The dentry of a directory with an ID of 5000 bytes is stored, with 5020 bytes from a buffer of
4096. -/
theorem storeUpdatedDirEntry_stores_oversized :
    ¬(storeUpdatedDirEntry ⟨⟨List.replicate 5000 65, DirEntryType.directory, 1, 0⟩,
      ⟨0, ⟨0, 0, 0, 0, 0, ⟨0, 0, 0, 0, 0⟩, 0, []⟩, [], none, .false, 0, [], 0, 0,
        0⟩⟩).RejectsOversized (fun _ => 0) ⟨none, none⟩ :=
  not_rejectsOversized _
    ⟨_, fun _ => rfl, (DiskMetaData.appends_writeDentryHeader _ .dirDentry 3).comp
      (DiskMetaData.appends_serializeDentryV3 _)⟩ rfl (by decide +kernel)

end BufferCall

end Beegfs
