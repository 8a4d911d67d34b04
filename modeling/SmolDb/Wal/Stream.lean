import SmolDb.Lib.Concat
import SmolDb.Wal.Log

/-!
# The log as a stream of frames

The bytes of the log are the frames of its entries. Reading a frame gives its entry
(`readLoop_frame`), so bytes that are frames to the end are read in full (`Readable`). Reading on a
rest too short for a length ends the log (`readLoop_short`), and reading a frame that lacks some of
its bytes is an error (`readLoop_torn`). So the log gives back what was written to it
(`calls_faithful`), and a log that was cut gives back the entries whose frames were left whole, or
an error.

The frames do not say where a batch ends. A log that was cut inside a batch, right behind one of
its frames or in the length of the next one, is read without an error and gives back a part of the
batch (`readBatch_wholeBatches_iff`).
-/

namespace SmolDb

open LittleEndian Concat

namespace WalEntry

variable {entry : WalEntry}

/-- The bytes of the frames of some entries. -/
def frames (entries : List WalEntry) : List UInt8 := entries.flatMap frame

@[simp] theorem frames_nil : frames [] = [] := rfl

@[simp] theorem frames_cons (entry : WalEntry) (entries : List WalEntry) :
    frames (entry :: entries) = entry.frame ++ frames entries := rfl

@[simp] theorem frames_append (as bs : List WalEntry) :
    frames (as ++ bs) = frames as ++ frames bs := List.flatMap_append

theorem length_frame (entry : WalEntry) : entry.frame.length = 4 + entry.size := by
  rw [frame, List.length_append, length_u32Bytes, length_encode]

theorem le_size (entry : WalEntry) : 29 ≤ entry.size := Nat.le_add_right ..

theorem le_length_frame (entry : WalEntry) : 33 ≤ entry.frame.length := by
  rw [length_frame]
  exact Nat.add_le_add_left entry.le_size 4

/-- The length in front of an entry that fits is read back. -/
theorem Fits.length_read (h : entry.Fits) :
    (u32Of (u32Bytes (UInt32.ofNat entry.encode.length))).toNat = entry.encode.length := by
  rw [u32Of_u32Bytes, UInt32.toNat_ofNat', Nat.mod_eq_of_lt]
  rw [length_encode]
  exact h

/-- A buffer that `decode` accepts has a header. -/
theorem le_length_of_decode {buffer : List UInt8} (h : decode buffer = .ok entry) :
    walEntryHeaderSize ≤ buffer.length := by
  unfold decode at h
  split at h
  · cases h
  · next hheader => exact Nat.le_of_not_lt hheader

end WalEntry

open WalEntry

/-- The bytes are cut up into frames without a remainder: a length, and as many bytes that `decode`
accepts. -/
inductive Readable : List UInt8 → List WalEntry → Prop
  | nil : Readable [] []
  | frame {lenBuf buffer rest : List UInt8} {entry : WalEntry} {entries : List WalEntry}
      (hfour : lenBuf.length = 4) (hlen : buffer.length = (u32Of lenBuf).toNat)
      (hdecode : decode buffer = .ok entry) (hrest : Readable rest entries) :
      Readable (lenBuf ++ (buffer ++ rest)) (entry :: entries)

/-- What was written is readable. -/
theorem readable_frames {entries : List WalEntry} (hfits : ∀ entry ∈ entries, entry.Fits) :
    Readable (frames entries) entries := by
  induction entries with
  | nil => exact .nil
  | cons entry entries ih =>
    have hentry := hfits entry (List.mem_cons_self ..)
    rw [frames_cons, frame, List.append_assoc]
    exact .frame (length_u32Bytes _) hentry.length_read.symm (decode_encode entry hentry)
      (ih fun e he => hfits e (List.mem_cons_of_mem _ he))

namespace Readable

variable {bytes rest : List UInt8} {entries more : List WalEntry}

theorem append (h : Readable bytes entries) (hrest : Readable rest more) :
    Readable (bytes ++ rest) (entries ++ more) := by
  induction h with
  | nil => exact hrest
  | frame hfour hlen hdecode _ ih =>
    rw [List.append_assoc, List.append_assoc]
    exact .frame hfour hlen hdecode ih

/-- There are no more frames than bytes. -/
theorem length_le (h : Readable bytes entries) : entries.length ≤ bytes.length := by
  induction h with
  | nil => exact Nat.le_refl _
  | frame hfour _ _ _ ih =>
    rw [List.length_append, List.length_append, List.length_cons, hfour]
    omega

end Readable

/-! ### One round of the reading loop -/

namespace LogFile

variable {f : LogFile} {entry : WalEntry} {fuel : ℕ} {batch : List WalEntry} {m : UInt64}

/-- A call goes on with the next fault of the script, or without one. -/
theorem of_nextFault {α : Type} {x : Option ℕ → Exec DbError LogFile α} {f' : LogFile}
    {r : Except DbError α} (h : (nextFault >>= x) f = some (r, f')) :
    (f.faults.headD none = none ∧ x none { f with faults := f.faults.tail } = some (r, f')) ∨
      ∃ k, f.faults.headD none = some k ∧
        x (some k) { f with faults := f.faults.tail } = some (r, f') := by
  have hnext : x (f.faults.headD none) { f with faults := f.faults.tail } = some (r, f') := h
  cases hfault : f.faults.headD none with
  | none =>
    rw [hfault] at hnext
    exact .inl ⟨rfl, hnext⟩
  | some k =>
    rw [hfault] at hnext
    exact .inr ⟨k, rfl, hnext⟩

/-- Reading a frame. -/
theorem readLoop_frame (hno : f.faults = []) {lenBuf buffer : List UInt8}
    (hfour : lenBuf.length = 4) (hlen : buffer.length = (u32Of lenBuf).toNat)
    (hdecode : decode buffer = .ok entry) (rest : List UInt8) :
    readLoop (fuel + 1) (lenBuf ++ (buffer ++ rest)) batch m f =
      readLoop fuel rest (batch ++ [entry]) (max m entry.lsn) f := by
  have hne : ¬ (u32Of lenBuf).toNat = 0 := by
    rw [← hlen]
    exact Nat.ne_of_gt (Nat.lt_of_lt_of_le (by decide) (le_length_of_decode hdecode))
  rw [readLoop, Exec.bind_of_ok (readExact_append hno hfour (buffer ++ rest))]
  dsimp only
  rw [if_neg hne, Exec.bind_of_ok (readExact_append hno hlen rest)]
  dsimp only
  rw [hdecode, Exec.bind_of_ok (Exec.ofResult_apply _ _)]

/-- A rest that is too short for a length ends the log. -/
theorem readLoop_short (hno : f.faults = []) {rest : List UInt8} (hrest : rest.length < 4) :
    readLoop (fuel + 1) rest batch m f = some (.ok (batch, m), f) := by
  rw [readLoop, Exec.bind_of_ok (readExact_ok hno rest 4), if_neg (Nat.not_le_of_lt hrest)]
  rfl

/-- A length of more bytes than there are is an error. -/
theorem readLoop_long (hno : f.faults = []) {lenBuf rest : List UInt8} (hfour : lenBuf.length = 4)
    (hlong : rest.length < (u32Of lenBuf).toNat) : ∃ msg, ∀ fuel batch m,
      readLoop (fuel + 1) (lenBuf ++ rest) batch m f = some (.error (.corruptPage msg), f) := by
  have hne : ¬ (u32Of lenBuf).toNat = 0 := Nat.ne_of_gt (Nat.zero_lt_of_lt hlong)
  refine ⟨s!"torn write: header reported {(u32Of lenBuf).toNat} bytes, " ++
    "buf file ended unexpectedly", fun fuel batch m => ?_⟩
  rw [readLoop, Exec.bind_of_ok (readExact_append hno hfour rest)]
  dsimp only
  rw [if_neg hne, Exec.bind_of_ok (readExact_ok hno _ _), if_neg (Nat.not_le_of_lt hlong)]
  rfl

/-- A frame that lacks some of its bytes has its length in full, and not its entry. -/
theorem take_frame (hfits : entry.Fits) {k : ℕ} (hk : 4 ≤ k) (hlt : k < entry.frame.length) :
    ∃ lenBuf rest, entry.frame.take k = lenBuf ++ rest ∧ lenBuf.length = 4 ∧
      rest.length < (u32Of lenBuf).toNat := by
  obtain ⟨j, rfl⟩ := Nat.exists_eq_add_of_le hk
  refine ⟨u32Bytes (UInt32.ofNat entry.encode.length), entry.encode.take j, ?_,
    length_u32Bytes _, ?_⟩
  · rw [frame]
    conv_lhs => rw [← length_u32Bytes (UInt32.ofNat entry.encode.length)]
    exact List.take_length_add_append j
  · rw [length_frame, ← length_encode] at hlt
    rw [hfits.length_read, List.length_take]
    exact Nat.lt_of_le_of_lt (Nat.min_le_left ..) (Nat.lt_of_add_lt_add_left hlt)

theorem readLoop_torn (hno : f.faults = []) (hfits : entry.Fits) {k : ℕ} (hk : 4 ≤ k)
    (hlt : k < entry.frame.length) : ∃ msg, ∀ fuel batch m,
      readLoop (fuel + 1) (entry.frame.take k) batch m f =
        some (.error (.corruptPage msg), f) := by
  obtain ⟨lenBuf, rest, hcut, hfour, hlong⟩ := take_frame hfits hk hlt
  rw [hcut]
  exact readLoop_long hno hfour hlong

/-- **Reading whole frames**, with as many rounds to spare as are left. -/
theorem readLoop_readable (hno : f.faults = []) {bytes : List UInt8} {entries : List WalEntry}
    (h : Readable bytes entries) (rest : List UInt8) :
    readLoop (fuel + entries.length) (bytes ++ rest) batch m f =
      readLoop fuel rest (batch ++ entries)
        (entries.foldl (fun maxLsn entry => max maxLsn entry.lsn) m) f := by
  induction h generalizing batch m with
  | nil => rw [List.append_nil]; rfl
  | @frame lenBuf buffer tail entry entries hfour hlen hdecode _ ih =>
    rw [List.append_assoc, List.append_assoc, List.length_cons, ← Nat.add_assoc,
      readLoop_frame hno hfour hlen hdecode, ih, List.append_assoc]
    rfl

/-- The loop over whole frames and a rest, with the fuel `read_batch` gives it. -/
theorem readLoop_bytes (hno : f.faults = []) {bytes : List UInt8} {entries : List WalEntry}
    (h : Readable bytes entries) (rest : List UInt8) : ∃ fuel,
      readLoop ((bytes ++ rest).length + 1) (bytes ++ rest) [] 0 f =
        readLoop (fuel + 1) rest entries (WalManager.maxLsn entries) f := by
  obtain ⟨fuel, hfuel⟩ := Nat.exists_eq_add_of_le' h.length_le
  refine ⟨fuel + rest.length, ?_⟩
  have hrounds : (bytes ++ rest).length + 1 = fuel + rest.length + 1 + entries.length := by
    rw [List.length_append, hfuel]
    omega
  rw [hrounds, readLoop_readable hno h rest]
  rfl

end LogFile

/-! ### The greatest LSN -/

/-- The greatest LSN of the entries, 0 if there are none. -/
structure GreatestLsn (entries : List WalEntry) (m : UInt64) : Prop where
  le : ∀ entry ∈ entries, entry.lsn ≤ m
  attained : (entries = [] ∧ m = 0) ∨ ∃ entry ∈ entries, entry.lsn = m

theorem le_max_left_lsn (a b : UInt64) : a ≤ max a b := by
  show a ≤ if a ≤ b then b else a
  split
  · assumption
  · exact UInt64.le_refl a

theorem le_max_right_lsn (a b : UInt64) : b ≤ max a b := by
  show b ≤ if a ≤ b then b else a
  split
  · exact UInt64.le_refl b
  · next h => exact UInt64.le_of_lt (UInt64.not_le.mp h)

theorem max_lsn_eq (a b : UInt64) : max a b = a ∨ max a b = b := by
  show (if a ≤ b then b else a) = a ∨ (if a ≤ b then b else a) = b
  split
  · exact .inr rfl
  · exact .inl rfl

theorem foldl_max_lsn (entries : List WalEntry) (m : UInt64) :
    m ≤ entries.foldl (fun maxLsn entry => max maxLsn entry.lsn) m ∧
      (∀ entry ∈ entries,
        entry.lsn ≤ entries.foldl (fun maxLsn entry => max maxLsn entry.lsn) m) ∧
      (entries.foldl (fun maxLsn entry => max maxLsn entry.lsn) m = m ∨
        ∃ entry ∈ entries,
          entry.lsn = entries.foldl (fun maxLsn entry => max maxLsn entry.lsn) m) := by
  -- the fold's result is an upper bound that is attained, from any start
  induction entries generalizing m with
  | nil => exact ⟨UInt64.le_refl m, nofun, .inl rfl⟩
  | cons entry entries ih =>
    obtain ⟨hle, hall, hatt⟩ := ih (max m entry.lsn)
    rw [List.foldl_cons]
    refine ⟨UInt64.le_trans (le_max_left_lsn m entry.lsn) hle, ?_, ?_⟩
    · intro e he
      rcases List.mem_cons.mp he with rfl | he
      · exact UInt64.le_trans (le_max_right_lsn m _) hle
      · exact hall e he
    · rcases hatt with heq | ⟨e, he, heq⟩
      · rw [heq]
        rcases max_lsn_eq m entry.lsn with hm | hm
        · exact .inl hm
        · exact .inr ⟨entry, List.mem_cons_self .., hm.symm⟩
      · exact .inr ⟨e, List.mem_cons_of_mem _ he, heq⟩

/-- What `write_batch` and `read_batch` compute is the greatest LSN. -/
theorem greatestLsn_maxLsn (entries : List WalEntry) :
    GreatestLsn entries (WalManager.maxLsn entries) := by
  obtain ⟨-, hall, hatt⟩ := foldl_max_lsn entries 0
  refine ⟨hall, ?_⟩
  cases entries with
  | nil => exact .inl ⟨rfl, rfl⟩
  | cons entry entries =>
    right
    rcases hatt with hzero | hmem
    · refine ⟨entry, List.mem_cons_self .., ?_⟩
      have hle := hall entry (List.mem_cons_self ..)
      rw [hzero] at hle
      exact (UInt64.le_zero_iff.mp hle).trans hzero.symm
    · exact hmem

/-! ### Reading everything back -/

namespace WalManager

variable {w : WalManager}

/-- The file has the frames of the entries, and no I/O call will fail. -/
structure Logged (w : WalManager) (entries : List WalEntry) : Prop where
  noFaults : w.file.faults = []
  bytes : w.file.bytes = frames entries
  fits : ∀ entry ∈ entries, entry.Fits

theorem noFaults_syncedFile {sync : Bool} {file : LogFile} (h : file.faults = []) :
    (syncedFile sync file).faults = [] := by
  cases sync <;> exact h

theorem bytes_syncedFile (sync : Bool) (file : LogFile) :
    (syncedFile sync file).bytes = file.bytes := by
  cases sync <;> rfl

theorem Logged.writeBatch {entries batch : List WalEntry} (h : Logged w entries)
    (hfits : ∀ entry ∈ batch, entry.Fits) :
    ∃ w', writeBatch batch w = some (.ok (), w') ∧ Logged w' (entries ++ batch) := by
  by_cases hne : batch = []
  · subst hne
    rw [List.append_nil]
    exact ⟨w, writeBatch_nil, h⟩
  · refine ⟨_, writeBatch_ok h.noFaults hne, noFaults_syncedFile h.noFaults, ?_, ?_⟩
    · show (syncedFile _ _).bytes = _
      rw [bytes_syncedFile, frames_append, ← h.bytes]
      rfl
    · intro entry hmem
      rcases List.mem_append.mp hmem with hold | hnew
      · exact h.fits entry hold
      · exact hfits entry hnew

/-- **`read_batch` returns the entries of the frames.** -/
theorem readBatch_readable (hno : w.file.faults = []) {entries : List WalEntry}
    (h : Readable w.file.bytes entries) :
    readBatch w = some (.ok entries,
      { w with flushedLsn := maxLsn entries, entryCount := entries.length }) := by
  obtain ⟨fuel, hloop⟩ := LogFile.readLoop_bytes hno h []
  have hnil : ([] : List UInt8).length < 4 := Nat.succ_pos 3
  rw [List.append_nil, LogFile.readLoop_short hno hnil] at hloop
  exact readBatch_ok hno hloop

theorem Logged.readable {entries : List WalEntry} (h : Logged w entries) :
    Readable w.file.bytes entries := by
  rw [h.bytes]
  exact readable_frames h.fits

theorem Logged.readBatch {entries : List WalEntry} (h : Logged w entries) :
    readBatch w = some (.ok entries,
      { w with flushedLsn := maxLsn entries, entryCount := entries.length }) :=
  readBatch_readable h.noFaults h.readable

theorem Logged.truncate {entries : List WalEntry} (h : Logged w entries) :
    ∃ w', truncate w = some (.ok (), w') ∧ Logged w' [] := by
  refine ⟨_, truncate_ok h.noFaults, noFaults_syncedFile h.noFaults, ?_, nofun⟩
  show (syncedFile _ _).bytes = _
  rw [bytes_syncedFile]
  rfl

theorem Logged.syncFile {entries : List WalEntry} (h : Logged w entries) :
    ∃ w', syncFile w = some (.ok (), w') ∧ Logged w' entries :=
  ⟨_, syncFile_ok h.noFaults, h.noFaults, h.bytes, h.fits⟩

theorem Logged.flushUpto {entries : List WalEntry} (h : Logged w entries) (lsn : UInt64) :
    ∃ w', flushUpto lsn w = some (.ok (), w') ∧ Logged w' entries := by
  refine ⟨_, flushUpto_ok h.noFaults lsn, ?_⟩
  split
  · exact ⟨h.noFaults, h.bytes, h.fits⟩
  · exact h

theorem Logged.openFile {entries : List WalEntry} (h : Logged w entries) (sync : Bool) :
    Logged (openFile w.file sync) entries := ⟨h.noFaults, h.bytes, h.fits⟩

end WalManager

/-- A call on the log. A `WalManager` can be dropped and the file opened again. -/
inductive WalCall where
  | writeBatch (batch : List WalEntry)
  | sync
  | flushUpto (lsn : UInt64)
  | truncate
  | readBatch
  | reopen (sync : Bool)
  deriving DecidableEq, Repr

/-- Every entry the call writes fits in a frame. -/
def WalCall.Fits : WalCall → Prop
  | writeBatch batch => ∀ entry ∈ batch, entry.Fits
  | _ => True

instance (call : WalCall) : Decidable call.Fits := by
  cases call <;> unfold WalCall.Fits <;> infer_instance

/-- The calls succeed, and every `read_batch` gives back the entries written since the last
`truncate` and counts them. -/
def Faithful (entries : List WalEntry) : List WalCall → WalManager → Prop
  | [], _ => True
  | .writeBatch batch :: calls, w => ∃ w', WalManager.writeBatch batch w = some (.ok (), w') ∧
      Faithful (entries ++ batch) calls w'
  | .sync :: calls, w => ∃ w', WalManager.syncFile w = some (.ok (), w') ∧
      Faithful entries calls w'
  | .flushUpto lsn :: calls, w => ∃ w', WalManager.flushUpto lsn w = some (.ok (), w') ∧
      Faithful entries calls w'
  | .truncate :: calls, w => ∃ w', WalManager.truncate w = some (.ok (), w') ∧
      Faithful [] calls w'
  | .readBatch :: calls, w => ∃ w', WalManager.readBatch w = some (.ok entries, w') ∧
      w'.entryCount = entries.length ∧ GreatestLsn entries w'.flushedLsn ∧
      Faithful entries calls w'
  | .reopen sync :: calls, w => Faithful entries calls (WalManager.openFile w.file sync)

theorem WalManager.Logged.faithful {w : WalManager} {entries : List WalEntry}
    (h : w.Logged entries) (calls : List WalCall) (hfits : ∀ call ∈ calls, call.Fits) :
    Faithful entries calls w := by
  -- every call keeps the log in order, and reading gives what is in it
  induction calls generalizing w entries with
  | nil => trivial
  | cons call calls ih =>
    have hcalls := fun c hc => hfits c (List.mem_cons_of_mem _ hc)
    have hcall := hfits call (List.mem_cons_self ..)
    cases call with
    | writeBatch batch =>
      obtain ⟨w', hrun, h'⟩ := h.writeBatch hcall
      exact ⟨w', hrun, ih h' hcalls⟩
    | sync =>
      obtain ⟨w', hrun, h'⟩ := h.syncFile
      exact ⟨w', hrun, ih h' hcalls⟩
    | flushUpto lsn =>
      obtain ⟨w', hrun, h'⟩ := h.flushUpto lsn
      exact ⟨w', hrun, ih h' hcalls⟩
    | truncate =>
      obtain ⟨w', hrun, h'⟩ := h.truncate
      exact ⟨w', hrun, ih h' hcalls⟩
    | readBatch =>
      exact ⟨_, h.readBatch, rfl, greatestLsn_maxLsn entries,
        ih ⟨h.noFaults, h.bytes, h.fits⟩ hcalls⟩
    | reopen sync => exact ih (h.openFile sync) hcalls

/-- **The log round trip.** Along every run on an empty log, every `read_batch` gives back what
was written since the last `truncate`. -/
theorem calls_faithful (sync : Bool) (calls : List WalCall) (hfits : ∀ call ∈ calls, call.Fits) :
    Faithful [] calls (WalManager.openFile .empty sync) := by
  have hempty : (WalManager.openFile .empty sync).Logged [] := ⟨rfl, rfl, nofun⟩
  exact hempty.faithful calls hfits

theorem calls_faithful_reopened :
    Faithful []
      [.writeBatch [⟨.insert, 10, ⟨4096⟩, 0, [1, 2, 3]⟩, ⟨.delete, 12, ⟨8192⟩, 5, []⟩], .sync,
        .reopen true, .readBatch]
      (WalManager.openFile .empty false) :=
  calls_faithful false _ (by decide)

/-! ### Reading a log that was cut -/

/-- What a crash leaves of a file whose last append was cut. -/
def LogFile.cut (self : LogFile) (n : ℕ) : LogFile where
  bytes := self.bytes.take n
  synced := (self.bytes.take n).length
  faults := []

/-- The cut is right behind a frame inside a batch, or in the length of the next frame. -/
def CutInside (batches : List (List WalEntry)) (n : ℕ) : Prop :=
  ∃ entries, Inside batches entries ∧ (frames entries).length ≤ n ∧
    n < (frames entries).length + 4

/-- The place `more` entries behind `as` is not in front of the end of the next frame. -/
theorem eq_nil_of_ahead {as bs more ds : List WalEntry} {x y : WalEntry} {n : ℕ}
    (h : x :: bs = more ++ y :: ds) (hx : n < (frames as).length + x.frame.length)
    (hmore : (frames (as ++ more)).length ≤ n) : more = [] := by
  cases more with
  | nil => rfl
  | cons z more =>
    obtain ⟨rfl, -⟩ := List.cons.inj h
    rw [frames_append, frames_cons, List.length_append, List.length_append] at hmore
    omega

/-- A cut is in one frame only. -/
theorem boundary_unique {as bs cs ds : List WalEntry} {x y : WalEntry} {n : ℕ}
    (h : as ++ x :: bs = cs ++ y :: ds)
    (has : (frames as).length ≤ n) (hx : n < (frames as).length + x.frame.length)
    (hcs : (frames cs).length ≤ n) (hy : n < (frames cs).length + y.frame.length) : as = cs := by
  rcases List.append_eq_append_iff.mp h with ⟨more, rfl, hmore⟩ | ⟨more, rfl, hmore⟩
  · rw [eq_nil_of_ahead hmore hx hcs, List.append_nil]
  · rw [eq_nil_of_ahead hmore hy has, List.append_nil]

/-- Inside a batch there is a frame to come. -/
theorem inside_next {batches : List (List WalEntry)} {entries : List WalEntry}
    (h : Inside batches entries) : ∃ y rest, batches.flatten = entries ++ y :: rest := by
  obtain ⟨pre, first, y, rest, post, rfl, -, rfl⟩ := h
  refine ⟨y, rest ++ post.flatten, ?_⟩
  simp

/-- The cut is inside a batch exactly when the entries in front of it end inside a batch and it
is at most in the length of the next frame. -/
theorem cutInside_iff {batches : List (List WalEntry)} {as bs : List WalEntry} {x : WalEntry}
    {k : ℕ} (hall : batches.flatten = as ++ x :: bs) (hk : k < x.frame.length) :
    CutInside batches ((frames as).length + k) ↔ Inside batches as ∧ k < 4 := by
  constructor
  · rintro ⟨entries, hinside, hle, hlt⟩
    obtain ⟨y, rest, hflat⟩ := inside_next hinside
    have hframe := le_length_frame y
    have heq : as = entries := boundary_unique (hall.symm.trans hflat) (Nat.le_add_right ..)
      (Nat.add_lt_add_left hk _) hle (by omega)
    subst heq
    exact ⟨hinside, Nat.lt_of_add_lt_add_left hlt⟩
  · rintro ⟨hinside, hk4⟩
    exact ⟨as, hinside, Nat.le_add_right .., Nat.add_lt_add_left hk4 _⟩

/-- A file that was not cut is not cut inside a batch. -/
theorem not_cutInside_of_le {batches : List (List WalEntry)} {n : ℕ}
    (h : (frames batches.flatten).length ≤ n) : ¬ CutInside batches n := by
  rintro ⟨entries, hinside, -, hlt⟩
  obtain ⟨y, rest, hflat⟩ := inside_next hinside
  have hframe := le_length_frame y
  rw [hflat, frames_append, frames_cons, List.length_append, List.length_append] at h
  omega

namespace WalManager

/-- The first `n` bytes of a log are whole frames, or whole frames and a part of the next one. -/
theorem take_frames (entries : List WalEntry) (n : ℕ) :
    ((frames entries).length ≤ n ∧ (frames entries).take n = frames entries) ∨
      ∃ as x bs k, entries = as ++ x :: bs ∧ k < x.frame.length ∧
        n = (frames as).length + k ∧ (frames entries).take n = frames as ++ x.frame.take k := by
  have hframes : ∀ es : List WalEntry, (es.map WalEntry.frame).flatten = frames es := fun es =>
    (List.flatMap_def ..).symm
  rcases take_flatten (entries.map WalEntry.frame) n with
    ⟨hle, hall⟩ | ⟨as', piece, bs', k, hsplit, hk, hn, hcut⟩
  · rw [hframes] at hle hall
    exact .inl ⟨hle, hall⟩
  · obtain ⟨as, rest, rfl, rfl, hrest⟩ := List.map_eq_append_iff.mp hsplit
    obtain ⟨x, bs, rfl, rfl, rfl⟩ := List.map_eq_cons_iff.mp hrest
    rw [hframes] at hn
    rw [hframes, hframes] at hcut
    exact .inr ⟨as, x, bs, k, rfl, hk, hn, hcut⟩

/-- **Reading a log that was cut.** What the crash left is all of the entries, or some of them and
a frame that lacks some bytes. In the first case, and when too little is left of that frame for a
length, the entries are read; otherwise there is an error. -/
theorem readBatch_cut {entries : List WalEntry} (hfits : ∀ entry ∈ entries, entry.Fits)
    {file : LogFile} (hfile : file.bytes = frames entries) (n : ℕ) (sync : Bool) :
    ((frames entries).length ≤ n ∧
      ∃ w, readBatch (openFile (file.cut n) sync) = some (.ok entries, w)) ∨
    ∃ as x bs k, entries = as ++ x :: bs ∧ k < x.frame.length ∧ n = (frames as).length + k ∧
      ((k < 4 ∧ ∃ w, readBatch (openFile (file.cut n) sync) = some (.ok as, w)) ∨
        (4 ≤ k ∧ ∃ msg w, readBatch (openFile (file.cut n) sync) =
          some (.error (.corruptPage msg), w))) := by
  have hno : (openFile (file.cut n) sync).file.faults = [] := rfl
  have hbytes : (openFile (file.cut n) sync).file.bytes = (frames entries).take n := by
    rw [← hfile]
    rfl
  rcases take_frames entries n with ⟨hle, hall⟩ | ⟨as, x, bs, k, rfl, hk, hn, hcut⟩
  · left
    have hlogged : Logged (openFile (file.cut n) sync) entries := ⟨hno, hbytes.trans hall, hfits⟩
    exact ⟨hle, _, hlogged.readBatch⟩
  · right
    rw [← hbytes] at hcut
    refine ⟨as, x, bs, k, rfl, hk, hn, ?_⟩
    have hfitsAs : ∀ entry ∈ as, entry.Fits := fun e he => hfits e (List.mem_append_left _ he)
    have hfitsX : x.Fits := hfits x (List.mem_append_right _ (List.mem_cons_self ..))
    -- the frames in front of the cut are read, and then the part of the next one
    obtain ⟨fuel, hloop⟩ := LogFile.readLoop_bytes hno (readable_frames hfitsAs) (x.frame.take k)
    rw [← hcut] at hloop
    by_cases hk4 : k < 4
    · have hshort : (x.frame.take k).length < 4 := by
        rw [List.length_take]
        exact Nat.lt_of_le_of_lt (Nat.min_le_left ..) hk4
      rw [LogFile.readLoop_short hno hshort] at hloop
      exact .inl ⟨hk4, _, readBatch_ok hno hloop⟩
    · obtain ⟨msg, htorn⟩ := LogFile.readLoop_torn hno hfitsX (Nat.le_of_not_lt hk4) hk
      rw [htorn] at hloop
      exact .inr ⟨Nat.le_of_not_lt hk4, msg, _, readBatch_ok hno hloop⟩

end WalManager

/-- Whatever a log that was cut is read as, it is the first so many batches. -/
def WholeBatches (batches : List (List WalEntry)) (w : WalManager) : Prop :=
  ∀ batch w', WalManager.readBatch w = some (.ok batch, w') → ∃ k, batch = (batches.take k).flatten

/-- What `write_batch` leaves in the file, batch by batch. -/
theorem WalManager.Logged.writeBatches {w : WalManager} {entries : List WalEntry}
    (h : w.Logged entries) (batches : List (List WalEntry))
    (hfits : ∀ batch ∈ batches, ∀ entry ∈ batch, entry.Fits) :
    ∃ w', Exec.forEach WalManager.writeBatch batches w = some (.ok (), w') ∧
      w'.Logged (entries ++ batches.flatten) := by
  induction batches generalizing w entries with
  | nil =>
    rw [List.flatten_nil, List.append_nil]
    exact ⟨w, rfl, h⟩
  | cons batch batches ih =>
    obtain ⟨w₁, hrun, h₁⟩ := h.writeBatch (hfits batch (List.mem_cons_self ..))
    obtain ⟨w₂, hruns, h₂⟩ := ih h₁ fun b hb => hfits b (List.mem_cons_of_mem _ hb)
    refine ⟨w₂, ?_, ?_⟩
    · rw [Exec.forEach_cons, Exec.bind_of_ok hrun]
      exact hruns
    · rw [List.flatten_cons, ← List.append_assoc]
      exact h₂

/-- **Batches are read whole** from a log that was cut exactly when the cut is not inside one. -/
theorem readBatch_wholeBatches_iff (sync sync' : Bool) (batches : List (List WalEntry))
    (hfits : ∀ batch ∈ batches, ∀ entry ∈ batch, entry.Fits) :
    ∃ w, Exec.forEach WalManager.writeBatch batches (WalManager.openFile .empty sync) =
        some (.ok (), w) ∧
      ∀ n, WholeBatches batches (WalManager.openFile (w.file.cut n) sync') ↔
        ¬ CutInside batches n := by
  have hempty : (WalManager.openFile .empty sync).Logged [] := ⟨rfl, rfl, nofun⟩
  obtain ⟨w, hrun, hlogged⟩ := hempty.writeBatches batches hfits
  rw [List.nil_append] at hlogged
  refine ⟨w, hrun, fun n => ?_⟩
  rcases WalManager.readBatch_cut hlogged.fits hlogged.bytes n sync' with
    ⟨hle, w', hread⟩ | ⟨as, x, bs, k, hall, hk, rfl, hread⟩
  · -- nothing is missing
    refine ⟨fun _ => not_cutInside_of_le hle, fun _ batch w'' hread' => ?_⟩
    rw [hread, Option.some.injEq, Prod.mk.injEq, Except.ok.injEq] at hread'
    exact ⟨batches.length, by rw [List.take_length, ← hread'.1]⟩
  · rw [cutInside_iff hall hk]
    rcases hread with ⟨hk4, w', hread⟩ | ⟨hk4, e, w', hread⟩
    · -- the entries in front of the cut are read
      constructor
      · rintro hwhole ⟨hinside, -⟩
        obtain ⟨j, hj⟩ := hwhole as w' hread
        exact hinside.not_groups j hj
      · intro hno batch w'' hread'
        rw [hread, Option.some.injEq, Prod.mk.injEq, Except.ok.injEq] at hread'
        rw [← hread'.1]
        rcases groups_or_inside batches hall with hgroups | hinside
        · exact hgroups
        · exact absurd ⟨hinside, hk4⟩ hno
    · -- a torn frame is an error
      refine ⟨fun _ hcut => Nat.not_lt.mpr hk4 hcut.2, fun _ batch w'' hread' => ?_⟩
      rw [hread] at hread'
      cases hread'

/-- A batch of two entries. -/
def twoEntries : List WalEntry :=
  [⟨.insert, 1, ⟨4096⟩, 1, []⟩, ⟨.insert, 2, ⟨4096⟩, 2, []⟩]

/-- Behind a batch of one entry, it can be cut. -/
theorem readBatch_wholeBatches_pair : ∃ w, Exec.forEach WalManager.writeBatch
        [[⟨.insert, 3, ⟨4096⟩, 3, [7]⟩], twoEntries] (WalManager.openFile .empty true) =
          some (.ok (), w) ∧
      ∀ n, WholeBatches [[⟨.insert, 3, ⟨4096⟩, 3, [7]⟩], twoEntries]
          (WalManager.openFile (w.file.cut n) true) ↔
        ¬ CutInside [[⟨.insert, 3, ⟨4096⟩, 3, [7]⟩], twoEntries] n :=
  readBatch_wholeBatches_iff true true _ (by decide)

/-- A log that was cut behind the first of two entries is read without an error. -/
theorem readBatch_halfBatch :
    ¬ ∀ batches : List (List WalEntry), ∀ w, Exec.forEach WalManager.writeBatch batches
        (WalManager.openFile .empty true) = some (.ok (), w) →
      ∀ n, WholeBatches batches (WalManager.openFile (w.file.cut n) true) := by
  intro h
  have hwhole := h [twoEntries] _ rfl 33
  obtain ⟨k, hk⟩ := hwhole [⟨.insert, 1, ⟨4096⟩, 1, []⟩] _ rfl
  cases k with
  | zero => cases hk
  | succ k =>
    have hlen := congrArg List.length hk
    cases hlen

end SmolDb
