import Mathlib.Data.Nat.Basic
import SmolDb.Pool.BufferPool
import SmolDb.Wal.Entry

/-!
# The write-ahead log

The log is a file that is only appended to, read from its beginning, and truncated. Every entry is
framed: its encoded length comes first, as a `u32`, and the entry behind it. `write_batch` appends
the frames of a batch in a single write.

`synced` is the length of the prefix that a `sync_all` has covered. Whether an I/O call succeeds is
decided by a script of faults as in `DiskManager`; `open` always succeeds. The loop of
`read_batch` is run with a fuel of one round more than the file has bytes.
-/

namespace SmolDb

open LittleEndian

/-- The file of the log, opened in append mode. -/
structure LogFile where
  bytes : List UInt8
  synced : ℕ
  faults : List (Option ℕ)
  deriving DecidableEq, Repr

namespace LogFile

/-- The empty file. -/
def empty : LogFile := ⟨[], 0, []⟩

/-- The fate of the next I/O call. -/
def nextFault : Exec DbError LogFile (Option ℕ) := fun self =>
  some (.ok (self.faults.headD none), { self with faults := self.faults.tail })

/-- `write_all`: all of the data, or the part of it before the fault, behind the end of the
file. -/
def writeAll (data : List UInt8) : Exec DbError LogFile Unit := do
  match ← nextFault with
  | some k => do
    Exec.modify fun self => { self with bytes := self.bytes ++ data.take k }
    Exec.throw (.io .other)
  | none => Exec.modify fun self => { self with bytes := self.bytes ++ data }

/-- `sync_all`. -/
def syncAll : Exec DbError LogFile Unit := do
  match ← nextFault with
  | some _ => Exec.throw (.io .other)
  | none => Exec.modify fun self => { self with synced := self.bytes.length }

/-- `set_len(0)`. -/
def clear : Exec DbError LogFile Unit := do
  match ← nextFault with
  | some _ => Exec.throw (.io .other)
  | none => Exec.modify fun self => { self with bytes := [], synced := 0 }

/-- `seek(SeekFrom::Start(0))`. The position has no influence on appending. -/
def rewind : Exec DbError LogFile Unit := do
  match ← nextFault with
  | some _ => Exec.throw (.io .other)
  | none => pure ()

/-- `read_exact` for a buffer of `n` bytes, with the bytes of the file that are left to be read;
`none` is an unexpected end of the file. -/
def readExact (rest : List UInt8) (n : ℕ) :
    Exec DbError LogFile (Option (List UInt8 × List UInt8)) := do
  match ← nextFault with
  | some _ => Exec.throw (.io .other)
  | none => pure (if n ≤ rest.length then some (rest.take n, rest.drop n) else none)

/-- The loop of `read_batch`. -/
def readLoop : ℕ → List UInt8 → List WalEntry → UInt64 →
    Exec DbError LogFile (List WalEntry × UInt64)
  | 0, _, _, _ => Exec.abort
  | fuel + 1, rest, batch, maxObservedLsn => do
    match ← readExact rest 4 with
    | none => pure (batch, maxObservedLsn)
    | some (lenBuf, rest) =>
      let entryLen := (u32Of lenBuf).toNat
      if entryLen = 0 then pure (batch, maxObservedLsn)
      else do
        match ← readExact rest entryLen with
        | none => Exec.throw (.corruptPage (s!"torn write: header reported {entryLen} bytes, " ++
            "buf file ended unexpectedly"))
        | some (buffer, rest) => do
          let entry ← Exec.ofResult (WalEntry.decode buffer)
          readLoop fuel rest (batch ++ [entry]) (max maxObservedLsn entry.lsn)

end LogFile

/-- The entry behind its length. -/
def WalEntry.frame (self : WalEntry) : List UInt8 :=
  u32Bytes (UInt32.ofNat self.encode.length) ++ self.encode

/-- `WalManager`. -/
structure WalManager where
  file : LogFile
  sync : Bool
  entryCount : ℕ
  flushedLsn : UInt64
  deriving DecidableEq, Repr

namespace WalManager

/-- `WalManager::open`. -/
def openFile (file : LogFile) (sync : Bool) : WalManager where
  file
  sync
  entryCount := 0
  flushedLsn := 0

/-- A call on the file. -/
def onFile {α : Type} (x : Exec DbError LogFile α) : Exec DbError WalManager α :=
  Exec.zoom WalManager.file (fun file self => { self with file }) x

/-- `sync_all`, if the `sync` flag is set. -/
def syncIfSet : Exec DbError WalManager Unit := do
  let self ← Exec.get
  if self.sync then onFile LogFile.syncAll else pure ()

/-- `flush_upto`. -/
def flushUpto (lsn : UInt64) : Exec DbError WalManager Unit := do
  let self ← Exec.get
  if lsn > self.flushedLsn then do
    onFile LogFile.syncAll
    Exec.modify fun self => { self with flushedLsn := lsn }
  else pure ()

/-- `sync`. -/
def syncFile : Exec DbError WalManager Unit := onFile LogFile.syncAll

/-- The greatest LSN of a batch, or 0. -/
def maxLsn (batch : List WalEntry) : UInt64 :=
  batch.foldl (fun maxBatchLsn entry => max maxBatchLsn entry.lsn) 0

/-- `write_batch`. -/
def writeBatch (batch : List WalEntry) : Exec DbError WalManager Unit :=
  if batch.isEmpty then pure ()
  else do
    onFile (LogFile.writeAll (batch.flatMap WalEntry.frame))
    syncIfSet
    Exec.modify fun self =>
      { self with
        flushedLsn := maxLsn batch
        entryCount := self.entryCount + batch.length }

/-- `truncate`. -/
def truncate : Exec DbError WalManager Unit := do
  onFile LogFile.clear
  onFile LogFile.rewind
  syncIfSet
  Exec.modify fun self => { self with flushedLsn := 0, entryCount := 0 }

/-- `read_batch`. -/
def readBatch : Exec DbError WalManager (List WalEntry) := do
  onFile LogFile.rewind
  let self ← Exec.get
  let (batch, maxObservedLsn) ←
    onFile (LogFile.readLoop (self.file.bytes.length + 1) self.file.bytes [] 0)
  Exec.modify fun self =>
    { self with
      flushedLsn := maxObservedLsn
      entryCount := batch.length }
  pure batch

end WalManager

/-- The log behind a pool. `flush_upto` never panics. -/
instance : WalFlusher WalManager where
  flushUpto self lsn := (WalManager.flushUpto lsn self).getD (.ok (), self)

/-! ### Calls without I/O errors -/

namespace LogFile

variable {f : LogFile}

theorem nextFault_ok (hno : f.faults = []) : nextFault f = some (.ok none, f) := by
  obtain ⟨bytes, synced, faults⟩ := f
  cases hno
  rfl

/-- The file with more bytes. -/
def appended (self : LogFile) (data : List UInt8) : LogFile :=
  { self with bytes := self.bytes ++ data }

theorem writeAll_ok (hno : f.faults = []) (data : List UInt8) :
    writeAll data f = some (.ok (), f.appended data) := by
  unfold writeAll
  rw [Exec.bind_of_ok (nextFault_ok hno)]
  rfl

/-- The file after a `sync_all`. -/
def covered (self : LogFile) : LogFile := { self with synced := self.bytes.length }

theorem syncAll_ok (hno : f.faults = []) : syncAll f = some (.ok (), f.covered) := by
  unfold syncAll
  rw [Exec.bind_of_ok (nextFault_ok hno)]
  rfl

/-- The file without its bytes. -/
def cleared (self : LogFile) : LogFile := { self with bytes := [], synced := 0 }

theorem clear_ok (hno : f.faults = []) : clear f = some (.ok (), f.cleared) := by
  unfold clear
  rw [Exec.bind_of_ok (nextFault_ok hno)]
  rfl

theorem rewind_ok (hno : f.faults = []) : rewind f = some (.ok (), f) := by
  unfold rewind
  rw [Exec.bind_of_ok (nextFault_ok hno)]
  rfl

theorem readExact_ok (hno : f.faults = []) (rest : List UInt8) (n : ℕ) :
    readExact rest n f =
      some (.ok (if n ≤ rest.length then some (rest.take n, rest.drop n) else none), f) := by
  unfold readExact
  rw [Exec.bind_of_ok (nextFault_ok hno)]
  rfl

/-- Reading the bytes in front. -/
theorem readExact_append (hno : f.faults = []) {bs : List UInt8} {n : ℕ} (hn : bs.length = n)
    (rest : List UInt8) : readExact (bs ++ rest) n f = some (.ok (some (bs, rest)), f) := by
  have hle : n ≤ (bs ++ rest).length := by
    rw [List.length_append, hn]
    exact Nat.le_add_right ..
  rw [readExact_ok hno, if_pos hle, ← hn, List.take_left, List.drop_left]

end LogFile

namespace WalManager

variable {w : WalManager}

theorem onFile_of_some {α : Type} {x : Exec DbError LogFile α} {r : Except DbError α} {f : LogFile}
    (h : x w.file = some (r, f)) : onFile x w = some (r, { w with file := f }) :=
  Exec.zoom_of_some h

/-- The file as `sync_all` leaves it if the `sync` flag is set. -/
def syncedFile (sync : Bool) (file : LogFile) : LogFile := if sync then file.covered else file

theorem syncIfSet_ok (hno : w.file.faults = []) :
    syncIfSet w = some (.ok (), { w with file := syncedFile w.sync w.file }) := by
  unfold syncIfSet syncedFile
  rw [Exec.bind_of_ok (Exec.get_apply w)]
  by_cases hsync : w.sync = true
  · rw [if_pos hsync, if_pos hsync]
    exact onFile_of_some (LogFile.syncAll_ok hno)
  · rw [if_neg hsync, if_neg hsync]
    rfl

theorem syncFile_ok (hno : w.file.faults = []) :
    syncFile w = some (.ok (), { w with file := w.file.covered }) :=
  onFile_of_some (LogFile.syncAll_ok hno)

/-- **`flush_upto`** syncs the file, or skips it. -/
theorem flushUpto_ok (hno : w.file.faults = []) (lsn : UInt64) :
    flushUpto lsn w = some (.ok (),
      if lsn > w.flushedLsn then { w with file := w.file.covered, flushedLsn := lsn } else w) := by
  unfold flushUpto
  rw [Exec.bind_of_ok (Exec.get_apply w)]
  by_cases hlt : lsn > w.flushedLsn
  · rw [if_pos hlt, if_pos hlt, Exec.bind_of_ok (onFile_of_some (LogFile.syncAll_ok hno))]
    rfl
  · rw [if_neg hlt, if_neg hlt]
    rfl

/-- **`write_batch`** appends the frames of the batch. -/
theorem writeBatch_ok (hno : w.file.faults = []) {batch : List WalEntry} (hne : batch ≠ []) :
    writeBatch batch w = some (.ok (),
      { w with
        file := syncedFile w.sync (w.file.appended (batch.flatMap WalEntry.frame))
        flushedLsn := maxLsn batch
        entryCount := w.entryCount + batch.length }) := by
  have hempty : batch.isEmpty = false := List.isEmpty_eq_false_iff.mpr hne
  have hwrite := onFile_of_some (w := w)
    (LogFile.writeAll_ok hno (batch.flatMap WalEntry.frame))
  have hsync : syncIfSet { w with file := w.file.appended (batch.flatMap WalEntry.frame) } =
      some (.ok (), { w with
        file := syncedFile w.sync (w.file.appended (batch.flatMap WalEntry.frame)) }) :=
    syncIfSet_ok hno
  rw [writeBatch, hempty, if_neg Bool.false_ne_true, Exec.bind_of_ok hwrite,
    Exec.bind_of_ok hsync]
  rfl

theorem writeBatch_nil : writeBatch [] w = some (.ok (), w) := rfl

/-- **`truncate`** empties the file. -/
theorem truncate_ok (hno : w.file.faults = []) :
    truncate w = some (.ok (),
      { w with
        file := syncedFile w.sync w.file.cleared
        flushedLsn := 0
        entryCount := 0 }) := by
  have hclear := onFile_of_some (w := w) (LogFile.clear_ok hno)
  have hrewind : onFile LogFile.rewind { w with file := w.file.cleared } =
      some (.ok (), { w with file := w.file.cleared }) :=
    onFile_of_some (LogFile.rewind_ok hno)
  have hsync : syncIfSet { w with file := w.file.cleared } =
      some (.ok (), { w with file := syncedFile w.sync w.file.cleared }) :=
    syncIfSet_ok hno
  rw [truncate, Exec.bind_of_ok hclear, Exec.bind_of_ok hrewind, Exec.bind_of_ok hsync]
  rfl

/-- **`read_batch`** is its loop. -/
theorem readBatch_ok (hno : w.file.faults = []) {r : Except DbError (List WalEntry × UInt64)}
    (hloop : LogFile.readLoop (w.file.bytes.length + 1) w.file.bytes [] 0 w.file =
      some (r, w.file)) :
    readBatch w = some (match r with
      | .ok (batch, maxObservedLsn) =>
        (.ok batch, { w with flushedLsn := maxObservedLsn, entryCount := batch.length })
      | .error e => (.error e, w)) := by
  have hrewind : onFile LogFile.rewind w = some (.ok (), w) :=
    onFile_of_some (LogFile.rewind_ok hno)
  have hread : onFile (LogFile.readLoop (w.file.bytes.length + 1) w.file.bytes [] 0) w =
      some (r, w) := onFile_of_some hloop
  rw [readBatch, Exec.bind_of_ok hrewind, Exec.bind_of_ok (Exec.get_apply w)]
  cases r with
  | error e => rw [Exec.bind_of_error hread]
  | ok p =>
    rw [Exec.bind_of_ok hread]
    rfl

end WalManager

end SmolDb
