import Mathlib.Data.Nat.Basic
import SmolDb.Page.Codec

/-!
# The data file

A file is a length and the bytes below it. Reading past the end fails; writing past the end
extends the file, with zeros in the gap. `DiskManager` reads and writes whole pages at the offset
their id names and keeps the 28-byte header at offset 0.

Whether an I/O call succeeds is decided by a script of faults, one entry for each call: nothing
goes wrong, or the call fails after it has written so many bytes. An empty script stands for a
disk without I/O errors.
-/

namespace SmolDb

open LittleEndian

/-- A file. The bytes at and beyond the length are not part of it. -/
structure DataFile where
  len : ℕ
  bytes : ℕ → UInt8

namespace DataFile

/-- The empty file. -/
def empty : DataFile := ⟨0, fun _ => 0⟩

/-- `read_exact_at` for a buffer of `n` bytes; `none` when the file ends too early. -/
def readAt (self : DataFile) (offset n : ℕ) : Option (Buffer n) :=
  if offset + n ≤ self.len then
    some ⟨(List.range n).map fun i => self.bytes (offset + i), by simp⟩
  else none

/-- `write_all_at`. Writing no bytes does not extend the file. -/
def writeAt (self : DataFile) (offset : ℕ) (data : List UInt8) : DataFile :=
  if data = [] then self
  else
    { len := max self.len (offset + data.length)
      bytes := fun i =>
        if offset ≤ i ∧ i < offset + data.length then data.getD (i - offset) 0
        else if i < self.len then self.bytes i
        else 0 }

end DataFile

/-- `FileHeader`. -/
structure FileHeader where
  lastRowId : UInt32
  pageRootOffset : UInt64
  nextLsn : UInt64
  nextFreeOffset : UInt64
  deriving DecidableEq, Repr

/-- `FileHeader::default`. -/
def FileHeader.default : FileHeader where
  lastRowId := 0
  pageRootOffset := 0
  nextLsn := 0
  nextFreeOffset := UInt64.ofNat pageSize

/-- Size of the header on disk. -/
abbrev fileHeaderSize : ℕ := 4 + 8 + 8 + 8

/-- The header as `save_header` writes it. -/
def FileHeader.encode (self : FileHeader) : List UInt8 :=
  u32Bytes self.lastRowId ++ u64Bytes self.pageRootOffset ++ u64Bytes self.nextLsn
    ++ u64Bytes self.nextFreeOffset

/-- The header as `open` reads it. -/
def FileHeader.decode (bytes : List UInt8) : FileHeader where
  lastRowId := u32Of (bytes.take 4)
  pageRootOffset := u64Of ((bytes.drop 4).take 8)
  nextLsn := u64Of ((bytes.drop 12).take 8)
  nextFreeOffset := u64Of ((bytes.drop 20).take 8)

/-- `header.next_free_offset += PAGE_SIZE as u64`. Irreducible, so that headers before and after
are not compared by counting. -/
@[irreducible] def FileHeader.advance (self : FileHeader) : FileHeader :=
  { self with nextFreeOffset := self.nextFreeOffset + UInt64.ofNat pageSize }

/-- `DiskManager`, with the faults of the I/O calls to come. -/
structure DiskManager where
  file : DataFile
  header : FileHeader
  faults : List (Option ℕ)

namespace DiskManager

/-- `DiskManager::open` on an existing or a new file. -/
def openFile (file : DataFile) (faults : List (Option ℕ)) : Except DbError DiskManager :=
  if file.len > 0 then
    match file.readAt 0 fileHeaderSize with
    | some buffer => .ok ⟨file, FileHeader.decode buffer.data, faults⟩
    | none => .error (.io .unexpectedEof)
  else .ok ⟨file, FileHeader.default, faults⟩

/-- The fate of the next I/O call. -/
def nextFault : Exec DbError DiskManager (Option ℕ) := fun self =>
  match self.faults with
  | [] => some (.ok none, self)
  | fault :: faults => some (.ok fault, { self with faults })

/-- `read_page`. -/
def readPage (pageId : PageId) : Exec DbError DiskManager Page := do
  match ← nextFault with
  | some _ => Exec.throw (.io .other)
  | none => fun self =>
    match self.file.readAt pageId.val.toNat pageSize with
    | some page => some (.ok page, self)
    | none => some (.error (.io .unexpectedEof), self)

/-- `write_all_at`: all of the data, or the part of it before the fault. -/
def writeAllAt (offset : ℕ) (data : List UInt8) : Exec DbError DiskManager Unit := do
  match ← nextFault with
  | some k => do
    Exec.modify fun self => { self with file := self.file.writeAt offset (data.take k) }
    Exec.throw (.io .other)
  | none => Exec.modify fun self => { self with file := self.file.writeAt offset data }

/-- `sync_all`. -/
def syncAll : Exec DbError DiskManager Unit := do
  match ← nextFault with
  | some _ => Exec.throw (.io .other)
  | none => pure ()

/-- `write_page`. -/
def writePage (pageId : PageId) (page : Page) : Exec DbError DiskManager Unit :=
  writeAllAt pageId.val.toNat page.data

/-- `allocate_page`. An overflow of the offset panics. -/
def allocatePage : Exec DbError DiskManager PageId := fun self =>
  let newPageId : PageId := ⟨self.header.nextFreeOffset⟩
  if self.header.nextFreeOffset.toNat + pageSize < 2 ^ 64 then
    some (.ok newPageId, { self with header := self.header.advance })
  else none

/-- `save_header`. -/
def saveHeader : Exec DbError DiskManager Unit := do
  let self ← Exec.get
  writeAllAt 0 self.header.encode
  syncAll

end DiskManager

end SmolDb
