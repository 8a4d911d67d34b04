import SmolDb.Wal.Stream

/-!
# Torn writes

A write that stops half-way leaves a part of a frame behind the last whole one. `read_batch`
notices that as soon as the length in front of the frame is complete. A part of up to three bytes
is taken for the end of the log (`readBatch_detects_iff`).

A `write_batch` that fails leaves what it wrote in the file, and the next one appends behind it.
Bytes that are no frames keep `read_batch` from what is behind them (`Stuck`), so unless all of the
file can be read, what is read afterwards lacks entries that were written, or is an error. Behind a
log that can be read this says that the write stopped at the end of a frame
(`writeBatch_unharmed_iff`).
-/

namespace SmolDb

open LittleEndian WalEntry Concat

/-! ### Detecting a torn write -/

/-- What is left of the log is read as the entries whose frames it has, if it ends behind a frame,
and is reported as corrupt otherwise. -/
def Detects (entries : List WalEntry) (w : WalManager) : Prop :=
  (∀ as bs, entries = as ++ bs → w.file.bytes = frames as →
    ∃ w', WalManager.readBatch w = some (.ok as, w')) ∧
  ((¬ ∃ as bs, entries = as ++ bs ∧ w.file.bytes = frames as) →
    ∃ msg w', WalManager.readBatch w = some (.error (.corruptPage msg), w'))

/-- The cut leaves one, two or three bytes of the length of a frame. -/
def CutInLength (entries : List WalEntry) (n : ℕ) : Prop :=
  ∃ as x bs k, entries = as ++ x :: bs ∧ 0 < k ∧ k < 4 ∧ n = (frames as).length + k

/-- A cut inside a frame is behind a whole one only if nothing of the frame is left. -/
theorem whole_of_length {as bs as' bs' : List WalEntry} {x : WalEntry} {k : ℕ}
    (hk : k < x.frame.length) (h : as ++ x :: bs = as' ++ bs')
    (hlen : (frames as').length = (frames as).length + k) : as' = as ∧ k = 0 := by
  cases bs' with
  | nil =>
    rw [List.append_nil] at h
    rw [← h, frames_append, frames_cons, List.length_append, List.length_append] at hlen
    omega
  | cons y ds =>
    have hy := le_length_frame y
    have heq : as = as' := boundary_unique h (by omega) (by omega) (Nat.le_refl _) (by omega)
    subst heq
    exact ⟨rfl, (Nat.add_eq_left.mp hlen.symm)⟩

/-- The entries that a whole log is cut into when nothing is missing. -/
theorem eq_of_length_le {as bs : List WalEntry}
    (h : (frames (as ++ bs)).length ≤ (frames as).length) : bs = [] := by
  rw [frames_append, List.length_append] at h
  cases bs with
  | nil => rfl
  | cons y bs =>
    have hy := le_length_frame y
    rw [frames_cons, List.length_append] at h
    omega

theorem cutInLength_iff {as bs : List WalEntry} {x : WalEntry} {k : ℕ}
    (hk : k < x.frame.length) :
    CutInLength (as ++ x :: bs) ((frames as).length + k) ↔ 0 < k ∧ k < 4 := by
  constructor
  · rintro ⟨cs, y, ds, j, h, hpos, hj, hn⟩
    have hy := le_length_frame y
    obtain rfl : as = cs := boundary_unique h (Nat.le_add_right ..) (Nat.add_lt_add_left hk _)
      (by omega) (by omega)
    obtain rfl := Nat.add_left_cancel hn
    exact ⟨hpos, hj⟩
  · rintro ⟨hpos, hk4⟩
    exact ⟨as, x, bs, k, rfl, hpos, hk4, rfl⟩

theorem not_cutInLength_of_le {entries : List WalEntry} {n : ℕ}
    (h : (frames entries).length ≤ n) : ¬ CutInLength entries n := by
  rintro ⟨as, x, bs, k, rfl, -, hk4, rfl⟩
  have hx := le_length_frame x
  rw [frames_append, frames_cons, List.length_append, List.length_append] at h
  omega

namespace WalManager

/-- **When a cut is detected**, in a file that has the frames of some entries. -/
theorem cut_detects_iff {entries : List WalEntry} (hfits : ∀ entry ∈ entries, entry.Fits)
    {file : LogFile} (hfile : file.bytes = frames entries) (n : ℕ) (sync : Bool) :
    Detects entries (openFile (file.cut n) sync) ↔ ¬ CutInLength entries n := by
  have hbytes : (openFile (file.cut n) sync).file.bytes = (frames entries).take n := by
    rw [← hfile]
    rfl
  rcases readBatch_cut hfits hfile n sync with
    ⟨hle, w', hread⟩ | ⟨as, x, bs, k, rfl, hk, rfl, hread⟩
  · -- nothing is missing
    rw [List.take_of_length_le hle] at hbytes
    refine ⟨fun _ => not_cutInLength_of_le hle, fun _ => ⟨?_, fun hno => ?_⟩⟩
    · rintro as bs rfl has
      rw [hbytes] at has
      rw [eq_of_length_le (Nat.le_of_eq (congrArg List.length has)), List.append_nil] at hread
      exact ⟨w', hread⟩
    · exact absurd ⟨entries, [], (List.append_nil _).symm, hbytes⟩ hno
  · have hlen : (openFile (file.cut ((frames as).length + k)) sync).file.bytes.length =
        (frames as).length + k := by
      rw [hbytes, List.length_take, frames_append, frames_cons, List.length_append,
        List.length_append]
      omega
    -- the length of the file says which frames it has in full
    have hwhole : ∀ as' bs', as ++ x :: bs = as' ++ bs' →
        (openFile (file.cut ((frames as).length + k)) sync).file.bytes = frames as' →
          as' = as ∧ k = 0 := by
      intro as' bs' hsplit has'
      exact whole_of_length hk hsplit (by rw [← has', hlen])
    rw [cutInLength_iff hk]
    rcases hread with ⟨hk4, w', hread⟩ | ⟨hk4, msg, w', hread⟩
    · constructor
      · -- one to three bytes, and the entries in front of them are read
        rintro ⟨-, hcorrupt⟩ ⟨hpos, -⟩
        obtain ⟨msg, w'', hread'⟩ := hcorrupt fun ⟨as', bs', hsplit, has'⟩ =>
          absurd (hwhole as' bs' hsplit has').2 (Nat.ne_of_gt hpos)
        rw [hread] at hread'
        cases hread'
      · intro hno
        have hzero : k = 0 := Nat.eq_zero_of_not_pos fun hpos => hno ⟨hpos, hk4⟩
        refine ⟨fun as' bs' hsplit has' => ?_, fun hnone => absurd ?_ hnone⟩
        · rw [(hwhole as' bs' hsplit has').1]
          exact ⟨w', hread⟩
        · refine ⟨as, x :: bs, rfl, ?_⟩
          rw [hbytes, hzero, Nat.add_zero, frames_append, List.take_left]
    · refine ⟨fun _ => fun hlt => Nat.not_lt.mpr hk4 hlt.2, fun _ => ⟨?_, fun _ => ?_⟩⟩
      · intro as' bs' hsplit has'
        rw [(hwhole as' bs' hsplit has').2] at hk4
        cases hk4
      · exact ⟨msg, w', hread⟩

end WalManager

/-- **Torn writes are detected** unless the cut leaves a part of a length. -/
theorem readBatch_detects_iff (sync sync' : Bool) (batches : List (List WalEntry))
    (hfits : ∀ batch ∈ batches, ∀ entry ∈ batch, entry.Fits) :
    ∃ w, Exec.forEach WalManager.writeBatch batches (WalManager.openFile .empty sync) =
        some (.ok (), w) ∧
      ∀ n, Detects batches.flatten (WalManager.openFile (w.file.cut n) sync') ↔
        ¬ CutInLength batches.flatten n := by
  have hempty : (WalManager.openFile .empty sync).Logged [] := ⟨rfl, rfl, nofun⟩
  obtain ⟨w, hrun, hlogged⟩ := hempty.writeBatches batches hfits
  rw [List.nil_append] at hlogged
  exact ⟨w, hrun, fun n => WalManager.cut_detects_iff hlogged.fits hlogged.bytes n sync'⟩

theorem readBatch_detects_pair : ∃ w, Exec.forEach WalManager.writeBatch
        [[⟨.insert, 1, ⟨4096⟩, 1, [7]⟩], [⟨.delete, 2, ⟨4096⟩, 1, []⟩]]
        (WalManager.openFile .empty true) = some (.ok (), w) ∧
      ∀ n, Detects [⟨.insert, 1, ⟨4096⟩, 1, [7]⟩, ⟨.delete, 2, ⟨4096⟩, 1, []⟩]
          (WalManager.openFile (w.file.cut n) true) ↔
        ¬ CutInLength [⟨.insert, 1, ⟨4096⟩, 1, [7]⟩, ⟨.delete, 2, ⟨4096⟩, 1, []⟩] n :=
  readBatch_detects_iff true true [[⟨.insert, 1, ⟨4096⟩, 1, [7]⟩], [⟨.delete, 2, ⟨4096⟩, 1, []⟩]]
    (by decide)

/-- One byte of a log of one entry. -/
theorem readBatch_missed :
    ¬ ∀ batches : List (List WalEntry), ∀ w, Exec.forEach WalManager.writeBatch batches
        (WalManager.openFile .empty true) = some (.ok (), w) →
      ∀ n, Detects batches.flatten (WalManager.openFile (w.file.cut n) true) := by
  intro h
  obtain ⟨-, hcorrupt⟩ := h [[⟨.delete, 1, ⟨4096⟩, 1, []⟩]] _ rfl 1
  obtain ⟨msg, w', hread⟩ := hcorrupt (by
    rintro ⟨as, bs, hsplit, hbytes⟩
    have hlen : (frames as).length = 1 := congrArg List.length hbytes.symm
    cases as with
    | nil => cases hlen
    | cons a as =>
      have ha := le_length_frame a
      rw [frames_cons, List.length_append] at hlen
      omega)
  cases hread

/-! ### A write that failed -/

/-- The bytes that `write_batch` appends when its write meets a fault. -/
def written (batch : List WalEntry) : Option ℕ → List UInt8
  | none => frames batch
  | some k => (frames batch).take k

/-- What was written is the frames of the first entries of the batch. -/
def WholeFrames (batch : List WalEntry) (fault : Option ℕ) : Prop :=
  ∃ as bs, batch = as ++ bs ∧ written batch fault = frames as

namespace LogFile

variable {f f' : LogFile}

theorem writeAll_frames {batch : List WalEntry} {r : Except DbError Unit}
    (h : writeAll (batch.flatMap frame) f = some (r, f')) :
    f'.bytes = f.bytes ++ written batch (f.faults.headD none) ∧
      (r = .ok () → f.faults.headD none = none) := by
  unfold writeAll at h
  obtain ⟨hfault, h⟩ | ⟨k, hfault, h⟩ := of_nextFault h
  · cases h
    rw [hfault]
    exact ⟨rfl, fun _ => rfl⟩
  · cases h
    rw [hfault]
    exact ⟨rfl, nofun⟩

theorem syncAll_bytes {r : Except DbError Unit} (h : syncAll f = some (r, f')) :
    f'.bytes = f.bytes := by
  unfold syncAll at h
  obtain ⟨-, h⟩ | ⟨k, -, h⟩ := of_nextFault h
  · cases h
    rfl
  · cases h
    rfl

end LogFile

namespace WalManager

variable {w w' : WalManager} {entries batch : List WalEntry}

theorem syncIfSet_bytes {r : Except DbError Unit} (h : syncIfSet w = some (r, w')) :
    w'.file.bytes = w.file.bytes := by
  unfold syncIfSet at h
  rw [Exec.bind_of_ok (Exec.get_apply w)] at h
  split at h
  · obtain ⟨f', hsync, rfl⟩ := Exec.zoom_eq_some.mp h
    exact LogFile.syncAll_bytes hsync
  · cases h
    rfl

/-- **What `write_batch` leaves in the file**, with any result. -/
theorem writeBatch_bytes {r : Except DbError Unit} (h : writeBatch batch w = some (r, w')) :
    w'.file.bytes = w.file.bytes ++ written batch (w.file.faults.headD none) ∧
      (r = .ok () → w'.file.bytes = w.file.bytes ++ frames batch) := by
  unfold writeBatch at h
  -- an empty batch writes nothing, whatever fault is next
  by_cases hne : batch = []
  · subst hne
    cases h
    have hnil : written [] (w.file.faults.headD none) = [] := by
      cases w.file.faults.headD none with
      | none => rfl
      | some k => exact List.take_nil
    rw [hnil, frames_nil, List.append_nil]
    exact ⟨rfl, fun _ => rfl⟩
  rw [List.isEmpty_eq_false_iff.mpr hne, if_neg Bool.false_ne_true] at h
  rcases Exec.bind_eq_some.mp h with ⟨e, rfl, hwrite⟩ | ⟨u, w₁, hwrite, h⟩
  · obtain ⟨f', hall, rfl⟩ := Exec.zoom_eq_some.mp hwrite
    exact ⟨(LogFile.writeAll_frames hall).1, nofun⟩
  · -- the write is done, and what is behind it does not touch the bytes
    obtain ⟨f', hall, rfl⟩ := Exec.zoom_eq_some.mp hwrite
    obtain ⟨hbytes, hfault⟩ := LogFile.writeAll_frames hall
    have hrest : w'.file.bytes = f'.bytes := by
      rcases Exec.bind_eq_some.mp h with ⟨e, -, hsync⟩ | ⟨u', w₂, hsync, hmod⟩
      · exact syncIfSet_bytes hsync
      · rw [Exec.modify_apply] at hmod
        obtain ⟨-, rfl⟩ := Prod.mk.inj (Option.some.inj hmod)
        exact syncIfSet_bytes hsync
    rw [hrest]
    refine ⟨hbytes, fun _ => ?_⟩
    rw [hbytes, hfault rfl]
    rfl

theorem writeBatches_bytes {batches : List (List WalEntry)}
    (h : Exec.forEach writeBatch batches w = some (.ok (), w')) :
    w'.file.bytes = w.file.bytes ++ frames batches.flatten := by
  induction batches generalizing w with
  | nil =>
    cases h
    exact (List.append_nil _).symm
  | cons batch batches ih =>
    rw [Exec.forEach_cons] at h
    obtain ⟨u, w₁, hrun, h⟩ := Exec.bind_eq_ok.mp h
    rw [ih h, (writeBatch_bytes hrun).2 rfl, List.flatten_cons, frames_append, List.append_assoc]

/-- The log, with other faults to come. -/
def withFaults (self : WalManager) (faults : List (Option ℕ)) : WalManager :=
  { self with file := { self.file with faults } }

end WalManager

/-- Whatever batches are written next, the log gives them back in order behind the entries. -/
def Unharmed (entries : List WalEntry) (w : WalManager) : Prop :=
  ∀ (later : List (List WalEntry)) (faults : List (Option ℕ)) (w' : WalManager),
    (∀ batch ∈ later, ∀ entry ∈ batch, entry.Fits) →
    Exec.forEach WalManager.writeBatch later (w.withFaults faults) = some (.ok (), w') →
      ∃ batch w'', WalManager.readBatch (w'.withFaults []) = some (.ok batch, w'') ∧
        (entries ++ later.flatten).Sublist batch

/-- An entry without a payload. -/
def blankEntry : WalEntry := ⟨.insert, 0, ⟨0⟩, 0, []⟩

/-- A part of a length and the length behind it read as a length that is larger than what is
there. -/
theorem garbled_length {cs : List UInt8} (hpos : 0 < cs.length) (hlt : cs.length < 4) :
    ∃ lenBuf rest, cs ++ blankEntry.frame = lenBuf ++ rest ∧ lenBuf.length = 4 ∧
      rest.length < (u32Of lenBuf).toNat := by
  have hframe : blankEntry.frame = [29, 0, 0, 0] ++ blankEntry.encode := rfl
  have hlen : blankEntry.encode.length = 29 := rfl
  rw [hframe]
  -- the first byte of the second length is at place 1, 2 or 3 of what is read
  rcases cs with _ | ⟨a, _ | ⟨b, _ | ⟨c, _ | ⟨d, cs⟩⟩⟩⟩
  · exact absurd hpos (Nat.lt_irrefl 0)
  · refine ⟨[a, 29, 0, 0], 0 :: blankEntry.encode, rfl, rfl, ?_⟩
    have ha := a.toNat_lt
    simp only [u32Of, ofLe, UInt32.toNat_ofNat', List.length_cons, hlen]
    simp
    omega
  · refine ⟨[a, b, 29, 0], 0 :: 0 :: blankEntry.encode, rfl, rfl, ?_⟩
    have ha := a.toNat_lt
    have hb := b.toNat_lt
    simp only [u32Of, ofLe, UInt32.toNat_ofNat', List.length_cons, hlen]
    simp
    omega
  · refine ⟨[a, b, c, 29], 0 :: 0 :: 0 :: blankEntry.encode, rfl, rfl, ?_⟩
    have ha := a.toNat_lt
    have hb := b.toNat_lt
    have hc := c.toNat_lt
    simp only [u32Of, ofLe, UInt32.toNat_ofNat', List.length_cons, hlen]
    simp
    omega
  · exact absurd hlt (by simp)

/-- A write that stopped inside a frame, or was complete. -/
theorem wholeFrames_or_inside (batch : List WalEntry) (fault : Option ℕ) :
    WholeFrames batch fault ∨ ∃ as x bs k, batch = as ++ x :: bs ∧ 0 < k ∧ k < x.frame.length ∧
      written batch fault = frames as ++ x.frame.take k := by
  cases fault with
  | none => exact .inl ⟨batch, [], (List.append_nil _).symm, rfl⟩
  | some n =>
    rcases WalManager.take_frames batch n with ⟨-, hall⟩ | ⟨as, x, bs, k, rfl, hk, -, hcut⟩
    · exact .inl ⟨batch, [], (List.append_nil _).symm, hall⟩
    · -- a cut between two frames leaves whole ones
      rcases Nat.eq_zero_or_pos k with rfl | hpos
      · rw [List.take_zero, List.append_nil] at hcut
        exact .inl ⟨as, x :: bs, rfl, hcut⟩
      · exact .inr ⟨as, x, bs, k, rfl, hpos, hk, hcut⟩

/-! ### What reading does not get past -/

/-- The bytes begin with a part of a length, with a length of zero or of more bytes than there are,
or with an entry that does not decode. -/
inductive Stuck : List UInt8 → Prop
  | short {rest : List UInt8} (hpos : 0 < rest.length) (hlt : rest.length < 4) : Stuck rest
  | stop {lenBuf rest : List UInt8} (hfour : lenBuf.length = 4)
      (hzero : (u32Of lenBuf).toNat = 0) : Stuck (lenBuf ++ rest)
  | torn {lenBuf rest : List UInt8} (hfour : lenBuf.length = 4)
      (hlong : rest.length < (u32Of lenBuf).toNat) : Stuck (lenBuf ++ rest)
  | corrupt {lenBuf buffer rest : List UInt8} {e : DbError} (hfour : lenBuf.length = 4)
      (hne : (u32Of lenBuf).toNat ≠ 0) (hlen : buffer.length = (u32Of lenBuf).toNat)
      (hdecode : decode buffer = .error e) : Stuck (lenBuf ++ (buffer ++ rest))

/-- **Any bytes** are frames up to a place where reading is stuck, or up to their end. -/
theorem readable_or_stuck (bytes : List UInt8) : ∃ front rest read, bytes = front ++ rest ∧
    Readable front read ∧ (rest = [] ∨ Stuck rest) := by
  -- what is behind a frame is shorter
  induction hn : bytes.length using Nat.strong_induction_on generalizing bytes with | _ n ih =>
  subst hn
  have hstuck : Stuck bytes → ∃ front rest read, bytes = front ++ rest ∧
      Readable front read ∧ (rest = [] ∨ Stuck rest) :=
    fun h => ⟨[], bytes, [], rfl, .nil, .inr h⟩
  by_cases hempty : bytes = []
  · exact ⟨[], [], [], hempty, .nil, .inl rfl⟩
  by_cases hfour : 4 ≤ bytes.length
  case neg =>
    exact hstuck (.short (List.length_pos_iff.mpr hempty) (Nat.lt_of_not_le hfour))
  -- the length, and what is behind it
  obtain ⟨lenBuf, tail, rfl, hlen4⟩ : ∃ lenBuf tail, bytes = lenBuf ++ tail ∧ lenBuf.length = 4 :=
    ⟨bytes.take 4, bytes.drop 4, (List.take_append_drop ..).symm, List.length_take_of_le hfour⟩
  by_cases hzero : (u32Of lenBuf).toNat = 0
  · exact hstuck (.stop hlen4 hzero)
  by_cases hall : (u32Of lenBuf).toNat ≤ tail.length
  case neg => exact hstuck (.torn hlen4 (Nat.lt_of_not_le hall))
  obtain ⟨buffer, rest, rfl, hbuffer⟩ : ∃ buffer rest, tail = buffer ++ rest ∧
      buffer.length = (u32Of lenBuf).toNat :=
    ⟨tail.take _, tail.drop _, (List.take_append_drop ..).symm, List.length_take_of_le hall⟩
  cases hdecode : decode buffer with
  | error e => exact hstuck (.corrupt hlen4 hzero hbuffer hdecode)
  | ok entry =>
    have hlt : rest.length < (lenBuf ++ (buffer ++ rest)).length := by
      rw [List.length_append, List.length_append, hlen4]
      omega
    obtain ⟨front, left, read, rfl, hread, hleft⟩ := ih _ hlt rest rfl
    refine ⟨lenBuf ++ (buffer ++ front), left, entry :: read, ?_,
      .frame hlen4 hbuffer hdecode hread, hleft⟩
    rw [List.append_assoc, List.append_assoc]

/-- A frame that lacks some of its bytes. -/
theorem stuck_of_inside {x : WalEntry} (hx : x.Fits) {k : ℕ} (hpos : 0 < k)
    (hk : k < x.frame.length) : Stuck (x.frame.take k) := by
  have hlen : (x.frame.take k).length = k := List.length_take_of_le (Nat.le_of_lt hk)
  by_cases hk4 : 4 ≤ k
  · obtain ⟨lenBuf, rest, hcut, hfour, hlong⟩ := LogFile.take_frame hx hk4 hk
    rw [hcut]
    exact .torn hfour hlong
  · exact .short (by rwa [hlen]) (by rw [hlen]; exact Nat.lt_of_not_le hk4)

namespace LogFile

variable {f : LogFile} {fuel : ℕ} {batch : List WalEntry} {m : UInt64}

/-- A length of zero ends the log, whatever is behind it. -/
theorem readLoop_stop (hno : f.faults = []) {lenBuf : List UInt8} (hfour : lenBuf.length = 4)
    (hzero : (u32Of lenBuf).toNat = 0) (rest : List UInt8) :
    readLoop (fuel + 1) (lenBuf ++ rest) batch m f = some (.ok (batch, m), f) := by
  rw [readLoop, Exec.bind_of_ok (readExact_append hno hfour rest)]
  dsimp only
  rw [if_pos hzero]
  rfl

theorem readLoop_corrupt (hno : f.faults = []) {lenBuf buffer : List UInt8} {e : DbError}
    (hfour : lenBuf.length = 4) (hne : (u32Of lenBuf).toNat ≠ 0)
    (hlen : buffer.length = (u32Of lenBuf).toNat) (hdecode : decode buffer = .error e)
    (rest : List UInt8) :
    readLoop (fuel + 1) (lenBuf ++ (buffer ++ rest)) batch m f = some (.error e, f) := by
  rw [readLoop, Exec.bind_of_ok (readExact_append hno hfour (buffer ++ rest))]
  dsimp only
  rw [if_neg hne, Exec.bind_of_ok (readExact_append hno hlen rest)]
  dsimp only
  rw [hdecode, Exec.bind_of_error (Exec.ofResult_apply _ _)]

end LogFile

namespace WalManager

variable {w w₁ : WalManager} {entries batch read : List WalEntry} {front rest : List UInt8}

/-- Reading goes wrong when it does so behind some frames. -/
theorem readBatch_of_error (hno : w.file.faults = []) (hread : Readable front read)
    (hbytes : w.file.bytes = front ++ rest) {e : DbError}
    (hrest : ∀ fuel batch m, LogFile.readLoop (fuel + 1) rest batch m w.file =
      some (.error e, w.file)) :
    readBatch w = some (.error e, w) := by
  obtain ⟨fuel, hloop⟩ := LogFile.readLoop_bytes hno hread rest
  rw [hrest, ← hbytes] at hloop
  exact readBatch_ok hno hloop

/-! ### The log behind a failed append -/

/-- The next batch is given back behind the entries. -/
theorem next_of_unharmed (h : Unharmed entries w) (next : List WalEntry)
    (hnext : ∀ entry ∈ next, entry.Fits) : ∃ w₂, w₂.file.faults = [] ∧
      w₂.file.bytes = w.file.bytes ++ frames next ∧
        ∃ batch w', readBatch w₂ = some (.ok batch, w') ∧ (entries ++ next).Sublist batch := by
  obtain ⟨w', hwrite⟩ : ∃ w', writeBatch next (w.withFaults []) = some (.ok (), w') := by
    by_cases hne : next = []
    · subst hne
      exact ⟨_, writeBatch_nil⟩
    · exact ⟨_, writeBatch_ok rfl hne⟩
  have hrun : Exec.forEach writeBatch [next] (w.withFaults []) = some (.ok (), w') := by
    rw [Exec.forEach_cons, Exec.bind_of_ok hwrite]
    rfl
  have hlater : ∀ batch ∈ [next], ∀ entry ∈ batch, entry.Fits := by
    intro batch hmem
    rw [List.mem_singleton.mp hmem]
    exact hnext
  obtain ⟨batch, w'', hread, hsub⟩ := h [next] [] w' hlater hrun
  rw [List.flatten_singleton] at hsub
  exact ⟨w'.withFaults [], rfl, (writeBatch_bytes hwrite).2 rfl, batch, w'', hread, hsub⟩

/-- Behind frames everything is read back. -/
theorem unharmed_of_readable (h : Readable w.file.bytes read) (hsub : entries.Sublist read) :
    Unharmed entries w := by
  intro later faults w' hlater hrun
  have hfits : ∀ entry ∈ later.flatten, entry.Fits := by
    intro entry hmem
    obtain ⟨batch, hbatch, hentry⟩ := List.mem_flatten.mp hmem
    exact hlater batch hbatch entry hentry
  have hall : Readable (w'.withFaults []).file.bytes (read ++ later.flatten) := by
    show Readable w'.file.bytes _
    rw [writeBatches_bytes hrun]
    exact h.append (readable_frames hfits)
  exact ⟨_, _, readBatch_readable rfl hall, hsub.append (List.Sublist.refl _)⟩

/-- Where reading is stuck the log is lost from there on, at the latest after the next entries. -/
theorem not_unharmed_of_stuck (hread : Readable front read) (hstuck : Stuck rest)
    (hbytes : w.file.bytes = front ++ rest) : ¬ Unharmed entries w := by
  intro h
  -- an error of what is there already
  have herror : ¬ ∀ f : LogFile, f.faults = [] → ∃ e, ∀ fuel batch m,
      LogFile.readLoop (fuel + 1) rest batch m f = some (.error e, f) := by
    intro hrest
    obtain ⟨w₂, hno, hbytes₂, batch, w', hbatch, -⟩ := next_of_unharmed h [] nofun
    obtain ⟨e, hloop⟩ := hrest w₂.file hno
    rw [frames_nil, List.append_nil, hbytes] at hbytes₂
    rw [readBatch_of_error hno hread hbytes₂ hloop] at hbatch
    cases hbatch
  cases hstuck with
  | short hpos hlt =>
    -- the length of the next entry completes the part of a length
    obtain ⟨w₂, hno, hbytes₂, batch, w', hbatch, -⟩ :=
      next_of_unharmed h [blankEntry] (by decide)
    obtain ⟨lenBuf, tail, hcut, hfour, hlong⟩ := garbled_length hpos hlt
    obtain ⟨msg, hloop⟩ := LogFile.readLoop_long hno hfour hlong
    have hone : frames [blankEntry] = blankEntry.frame := List.append_nil _
    rw [hbytes, hone, List.append_assoc, hcut] at hbytes₂
    rw [readBatch_of_error hno hread hbytes₂ hloop] at hbatch
    cases hbatch
  | @stop lenBuf tail hfour hzero =>
    -- more entries than are read, and none of them is
    obtain ⟨w₂, hno, hbytes₂, batch, w', hbatch, hsub⟩ :=
      next_of_unharmed h (List.replicate (read.length + 1) blankEntry) (by
        intro entry hmem
        rw [List.eq_of_mem_replicate hmem]
        decide)
    rw [hbytes, List.append_assoc, List.append_assoc] at hbytes₂
    obtain ⟨fuel, hloop⟩ := LogFile.readLoop_bytes hno hread
      (lenBuf ++ (tail ++ frames (List.replicate (read.length + 1) blankEntry)))
    rw [LogFile.readLoop_stop hno hfour hzero, ← hbytes₂] at hloop
    rw [readBatch_ok hno hloop, Option.some.injEq, Prod.mk.injEq, Except.ok.injEq] at hbatch
    have hle := hsub.length_le
    rw [← hbatch.1, List.length_append, List.length_replicate] at hle
    omega
  | torn hfour hlong =>
    refine absurd (fun f hno => ?_) herror
    obtain ⟨msg, hloop⟩ := LogFile.readLoop_long hno hfour hlong
    exact ⟨_, hloop⟩
  | corrupt hfour hne hlen hdecode =>
    exact absurd (fun f hno => ⟨_, fun fuel batch m =>
      LogFile.readLoop_corrupt hno hfour hne hlen hdecode _⟩) herror

/-- **When a failed append leaves the log unharmed**: all of the file can be read, and has the
entries. Behind a log that can be read, the write ended behind a frame. -/
theorem writeBatch_unharmed_iff {e : DbError} (hfail : writeBatch batch w = some (.error e, w₁)) :
    (Unharmed entries w₁ ↔
      ∃ read, Readable (w.file.bytes ++ written batch (w.file.faults.headD none)) read ∧
        entries.Sublist read) ∧
    ∀ read, Readable w.file.bytes read → entries.Sublist read →
      (∀ entry ∈ batch, entry.Fits) →
        (Unharmed entries w₁ ↔ WholeFrames batch (w.file.faults.headD none)) := by
  obtain ⟨hbytes, -⟩ := writeBatch_bytes hfail
  constructor
  · constructor
    · intro h
      obtain ⟨front, rest, read, hcut, hread, rfl | hstuck⟩ := readable_or_stuck w₁.file.bytes
      · -- nothing is left behind the frames, and the log as it is gives the entries back
        obtain ⟨w₂, hno, hbytes₂, all, w', hall, hsub⟩ := next_of_unharmed h [] nofun
        rw [List.append_nil] at hcut
        rw [frames_nil, List.append_nil, hcut] at hbytes₂
        rw [readBatch_readable hno (hbytes₂ ▸ hread), Option.some.injEq, Prod.mk.injEq,
          Except.ok.injEq] at hall
        rw [List.append_nil, ← hall.1] at hsub
        rw [← hbytes, hcut]
        exact ⟨read, hread, hsub⟩
      · exact absurd h (not_unharmed_of_stuck hread hstuck hcut)
    · rintro ⟨read, hread, hsub⟩
      rw [← hbytes] at hread
      exact unharmed_of_readable hread hsub
  · intro read hread hsub hbatch
    constructor
    · intro h
      -- a fault inside a frame leaves a part of it behind whole ones
      rcases wholeFrames_or_inside batch (w.file.faults.headD none) with
        hwhole | ⟨as, x, bs, k, rfl, hpos, hk, hcut⟩
      · exact hwhole
      · rw [hcut, ← List.append_assoc] at hbytes
        have hx := hbatch x (List.mem_append_right _ (List.mem_cons_self ..))
        have has := readable_frames fun entry hmem => hbatch entry (List.mem_append_left _ hmem)
        exact absurd h
          (not_unharmed_of_stuck (hread.append has) (stuck_of_inside hx hpos hk) hbytes)
    · rintro ⟨as, bs, rfl, hcut⟩
      have has := readable_frames fun entry hmem => hbatch entry (List.mem_append_left _ hmem)
      rw [hcut] at hbytes
      have hall : Readable w₁.file.bytes (read ++ as) := by
        rw [hbytes]
        exact hread.append has
      exact unharmed_of_readable hall (hsub.trans (List.sublist_append_left read as))

/-- A log of one entry, and a write of another one that fails. -/
def failing (k : ℕ) : WalManager where
  file := ⟨frames [⟨.insert, 1, ⟨4096⟩, 1, [7]⟩], 0, [some k]⟩
  sync := true
  entryCount := 1
  flushedLsn := 1

/-- The write stops behind the first of its two entries. -/
theorem writeBatch_unharmed_whole : ∃ w₁,
    writeBatch [⟨.insert, 2, ⟨4096⟩, 2, []⟩, ⟨.insert, 3, ⟨4096⟩, 3, []⟩] (failing 33) =
        some (.error (.io .other), w₁) ∧ Unharmed [⟨.insert, 1, ⟨4096⟩, 1, [7]⟩] w₁ := by
  refine ⟨_, rfl, ?_⟩
  have hread : Readable (failing 33).file.bytes [⟨.insert, 1, ⟨4096⟩, 1, [7]⟩] :=
    readable_frames (by decide)
  exact ((writeBatch_unharmed_iff (w := failing 33) rfl).2 _ hread (List.Sublist.refl _)
    (by decide)).mpr ⟨[⟨.insert, 2, ⟨4096⟩, 2, []⟩], [⟨.insert, 3, ⟨4096⟩, 3, []⟩], rfl, rfl⟩

/-- A write that stops behind ten bytes. -/
theorem writeBatch_harms :
    ¬ ∀ (w w₁ : WalManager) (entries batch : List WalEntry) (e : DbError),
      w.file.bytes = frames entries → (∀ entry ∈ entries, entry.Fits) →
        (∀ entry ∈ batch, entry.Fits) → writeBatch batch w = some (.error e, w₁) →
          Unharmed entries w₁ := by
  intro h
  have hunharmed := h (failing 10) _ [⟨.insert, 1, ⟨4096⟩, 1, [7]⟩] [⟨.insert, 2, ⟨4096⟩, 2, []⟩]
    (.io .other) rfl (by decide) (by decide) rfl
  obtain ⟨batch, w'', hread, -⟩ := hunharmed [] [] _ nofun rfl
  cases hread

end WalManager

end SmolDb
