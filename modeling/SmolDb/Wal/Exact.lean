import SmolDb.Wal.Stream

/-!
# What `read_batch` accepts

A frame has two lengths: the one in front of the entry and that of the payload inside.
`WalEntry::decode` is content with a payload that is shorter than its buffer, so an entry that is
read back need not be what was in the file. The entries encode to what was read exactly when the
two lengths agree in every frame that was read (`readBatch_exact_iff`).
-/

namespace SmolDb

open LittleEndian WalEntry

/-! ### One entry -/

theorem WalOp.asU8_fromU8 {val : UInt8} {op : WalOp} (h : WalOp.fromU8 val = .ok op) :
    op.asU8 = val := by
  unfold WalOp.fromU8 at h
  split at h
  · next hval =>
    cases h
    exact hval.symm
  split at h
  · next hval =>
    cases h
    exact hval.symm
  split at h
  · next hval =>
    cases h
    exact hval.symm
  · cases h

/-- The length of the payload that an encoded entry announces. -/
def payloadLen (buffer : List UInt8) : ℕ := (u32Of ((buffer.drop 25).take 4)).toNat

namespace WalEntry

variable {buffer : List UInt8} {entry : WalEntry}

/-- **What `decode` accepts** begins with the encoded entry. -/
theorem decode_exact (h : decode buffer = .ok entry) :
    entry.payload.length = payloadLen buffer ∧
      walEntryHeaderSize + payloadLen buffer ≤ buffer.length ∧
        entry.encode = buffer.take (walEntryHeaderSize + payloadLen buffer) := by
  unfold decode at h
  split at h
  · cases h
  next hheader =>
  have hlen : 29 ≤ buffer.length := Nat.le_of_not_lt hheader
  cases hop : WalOp.fromU8 (buffer.getD 0 0) with
  | error e =>
    rw [hop] at h
    cases h
  | ok opcode =>
    rw [hop] at h
    simp only [bind, Except.bind] at h
    split at h
    · cases h
    next hall =>
    have hall : 29 + payloadLen buffer ≤ buffer.length := Nat.le_of_not_lt hall
    cases h
    have hfield : ∀ m n, m + n ≤ 29 → ((buffer.drop m).take n).length = n := by
      intro m n hmn
      rw [List.length_take, List.length_drop]
      omega
    have hpayload : ((buffer.drop 29).take (payloadLen buffer)).length = payloadLen buffer := by
      rw [List.length_take, List.length_drop]
      omega
    have hopcode : buffer.take 1 = [opcode.asU8] := by
      rw [WalOp.asU8_fromU8 hop]
      cases buffer with
      | nil => cases hlen
      | cons b bs => rfl
    -- the fields of the header one after the other
    have hcut : buffer.take (1 + 8 + 8 + 8 + 4 + payloadLen buffer) =
        buffer.take 1 ++ (buffer.drop 1).take 8 ++ (buffer.drop 9).take 8 ++
          (buffer.drop 17).take 8 ++ (buffer.drop 25).take 4 ++
            (buffer.drop 29).take (payloadLen buffer) := by
      rw [List.take_add, List.take_add, List.take_add, List.take_add, List.take_add]
    have hpayloadLen : u32Bytes (UInt32.ofNat (payloadLen buffer)) = (buffer.drop 25).take 4 := by
      rw [payloadLen, UInt32.ofNat_toNat, u32Bytes_u32Of (hfield 25 4 (by decide))]
    refine ⟨hpayload, hall, Eq.trans ?_ hcut.symm⟩
    show opcode.asU8 :: (u64Bytes (u64Of _) ++ u64Bytes (u64Of _) ++ u64Bytes (u64Of _) ++
      u32Bytes (UInt32.ofNat ((buffer.drop 29).take (payloadLen buffer)).length) ++
        (buffer.drop 29).take (payloadLen buffer)) = _
    rw [hpayload, hpayloadLen, u64Bytes_u64Of (hfield 1 8 (by decide)),
      u64Bytes_u64Of (hfield 9 8 (by decide)), u64Bytes_u64Of (hfield 17 8 (by decide)), hopcode]
    rfl

end WalEntry

/-! ### One frame -/

/-- A frame that was read is the frame of its entry when the two lengths agree, and does not even
begin like it otherwise. -/
theorem frames_prefix_iff {lenBuf buffer : List UInt8} {entry : WalEntry}
    (hfour : lenBuf.length = 4) (hlen : buffer.length = (u32Of lenBuf).toNat)
    (hdecode : decode buffer = .ok entry) (tail : List UInt8) (entries : List WalEntry) :
    frames (entry :: entries) <+: lenBuf ++ (buffer ++ tail) ↔
      walEntryHeaderSize + payloadLen buffer = buffer.length ∧ frames entries <+: tail := by
  obtain ⟨hpayload, hle, hencode⟩ := decode_exact hdecode
  have hsize : entry.encode.length = walEntryHeaderSize + payloadLen buffer := by
    rw [length_encode, size, hpayload]
  have hfits : (UInt32.ofNat entry.encode.length).toNat = entry.encode.length := by
    have hlt := (u32Of lenBuf).toNat_lt
    rw [← hlen] at hlt
    refine UInt32.toNat_ofNat_of_lt' (Nat.lt_of_le_of_lt ?_ hlt)
    rw [hsize]
    exact hle
  have hframe : frames (entry :: entries) =
      u32Bytes (UInt32.ofNat entry.encode.length) ++ (entry.encode ++ frames entries) := by
    rw [frames_cons, frame, List.append_assoc]
  rw [hframe]
  constructor
  · intro h
    -- the lengths in front are the same bytes
    have hfront : u32Bytes (UInt32.ofNat entry.encode.length) = lenBuf := by
      have htake := List.prefix_of_prefix_length_le
        ((List.prefix_append _ _).trans h) (List.prefix_append lenBuf _)
        (Nat.le_of_eq ((length_u32Bytes _).trans hfour.symm))
      exact htake.eq_of_length ((length_u32Bytes _).trans hfour.symm)
    have heq : walEntryHeaderSize + payloadLen buffer = buffer.length := by
      rw [hlen, ← hfront, u32Of_u32Bytes, hfits, hsize]
    have hall : entry.encode = buffer := by
      rw [hencode, heq, List.take_length]
    rw [hfront, hall, List.prefix_append_right_inj, List.prefix_append_right_inj] at h
    exact ⟨heq, h⟩
  · rintro ⟨heq, hrest⟩
    have hall : entry.encode = buffer := by
      rw [hencode, heq, List.take_length]
    have hfront : u32Bytes (UInt32.ofNat entry.encode.length) = lenBuf := by
      rw [hall, hlen, UInt32.ofNat_toNat, u32Bytes_u32Of hfour]
    rw [hfront, hall, List.prefix_append_right_inj, List.prefix_append_right_inj]
    exact hrest

/-- The length in front of the next frame. -/
def entryLen (rest : List UInt8) : ℕ := (u32Of (rest.take 4)).toNat

/-- In every frame up to the end of the log the length in front of the entry is that of the header
and the payload inside. -/
inductive LengthsAgree : List UInt8 → Prop
  | short {rest : List UInt8} (hshort : rest.length < 4) : LengthsAgree rest
  | stop {rest : List UInt8} (hfour : 4 ≤ rest.length) (hzero : entryLen rest = 0) :
      LengthsAgree rest
  | frame {rest : List UInt8} (hfour : 4 ≤ rest.length) (hne : entryLen rest ≠ 0)
      (hinner : walEntryHeaderSize + payloadLen ((rest.drop 4).take (entryLen rest)) =
        entryLen rest)
      (hrest : LengthsAgree ((rest.drop 4).drop (entryLen rest))) : LengthsAgree rest

theorem lengthsAgree_iff {rest : List UInt8} (hfour : 4 ≤ rest.length)
    (hne : entryLen rest ≠ 0) : LengthsAgree rest ↔
      walEntryHeaderSize + payloadLen ((rest.drop 4).take (entryLen rest)) = entryLen rest ∧
        LengthsAgree ((rest.drop 4).drop (entryLen rest)) := by
  constructor
  · intro h
    cases h with
    | short hshort => exact absurd hfour (Nat.not_le_of_lt hshort)
    | stop _ hzero => exact absurd hzero hne
    | frame _ _ hinner hrest => exact ⟨hinner, hrest⟩
  · rintro ⟨hinner, hrest⟩
    exact .frame hfour hne hinner hrest

/-! ### The loop -/

namespace LogFile

variable {f f' : LogFile} {rest : List UInt8}

theorem readExact_eq_ok {n : ℕ} {o : Option (List UInt8 × List UInt8)}
    (h : readExact rest n f = some (.ok o, f')) :
    o = if n ≤ rest.length then some (rest.take n, rest.drop n) else none := by
  unfold readExact at h
  obtain ⟨-, h⟩ | ⟨k, -, h⟩ := of_nextFault h
  · cases h
    rfl
  · cases h

theorem rewind_bytes {r : Except DbError Unit} (h : rewind f = some (r, f')) :
    f'.bytes = f.bytes := by
  unfold rewind at h
  obtain ⟨-, h⟩ | ⟨k, -, h⟩ := of_nextFault h
  · cases h
    rfl
  · cases h
    rfl

/-- **What the loop reads** is what the file has, when the lengths agree. -/
theorem readLoop_exact {fuel : ℕ} {batch read : List WalEntry} {m m' : UInt64}
    (h : readLoop fuel rest batch m f = some (.ok (read, m'), f')) :
    ∃ entries, read = batch ++ entries ∧ (frames entries <+: rest ↔ LengthsAgree rest) := by
  induction fuel generalizing rest batch m f with
  | zero => cases h
  | succ fuel ih =>
    -- the loop stops at the end, or at a length of zero
    have hend : read = batch → LengthsAgree rest →
        ∃ entries, read = batch ++ entries ∧ (frames entries <+: rest ↔ LengthsAgree rest) := by
      intro heq hagree
      refine ⟨[], heq.trans (List.append_nil _).symm, fun _ => hagree, fun _ => ?_⟩
      exact List.nil_prefix
    rw [readLoop] at h
    obtain ⟨o, f₁, hlen, h⟩ := Exec.bind_eq_ok.mp h
    have ho := readExact_eq_ok hlen
    split at ho
    · next hfour =>
      subst ho
      dsimp only at h
      split at h
      · next hzero =>
        cases h
        exact hend rfl (.stop hfour hzero)
      next hne =>
      obtain ⟨o, f₂, hbody, h⟩ := Exec.bind_eq_ok.mp h
      have ho := readExact_eq_ok hbody
      split at ho
      · next hall =>
        subst ho
        obtain ⟨entry, f₃, hdecode, h⟩ := Exec.bind_eq_ok.mp h
        obtain ⟨entries, hread, hiff⟩ := ih h
        have hdecode : decode ((rest.drop 4).take (entryLen rest)) = .ok entry :=
          (Prod.mk.inj (Option.some.inj hdecode)).1
        have hbuffer : ((rest.drop 4).take (entryLen rest)).length = entryLen rest :=
          List.length_take_of_le hall
        have hcut : rest.take 4 ++ ((rest.drop 4).take (entryLen rest) ++
            (rest.drop 4).drop (entryLen rest)) = rest := by
          rw [List.take_append_drop, List.take_append_drop]
        -- the entry decoded; its frame is in the file iff its length says so
        have hframe := frames_prefix_iff (List.length_take_of_le hfour) hbuffer hdecode
          ((rest.drop 4).drop (entryLen rest)) entries
        rw [hcut, hbuffer] at hframe
        refine ⟨entry :: entries, by rw [hread, List.append_assoc]; rfl, ?_⟩
        rw [hframe, lengthsAgree_iff hfour hne]
        exact and_congr_right' hiff
      · subst ho
        cases h
    · next hshort =>
      subst ho
      cases h
      exact hend rfl (.short (Nat.lt_of_not_le hshort))

end LogFile

/-- **When `read_batch` drops nothing**: of a log that it accepts, the entries encode to what it
read exactly when the two lengths of every frame agree. -/
theorem readBatch_exact_iff {w w' : WalManager} {batch : List WalEntry}
    (h : WalManager.readBatch w = some (.ok batch, w')) :
    frames batch <+: w.file.bytes ↔ LengthsAgree w.file.bytes := by
  unfold WalManager.readBatch at h
  obtain ⟨u, w₁, hrewind, h⟩ := Exec.bind_eq_ok.mp h
  obtain ⟨f₁, hfile, rfl⟩ := Exec.zoom_eq_some.mp hrewind
  have hbytes := LogFile.rewind_bytes hfile
  rw [Exec.bind_of_ok (Exec.get_apply _)] at h
  obtain ⟨⟨read, m⟩, w₂, hloop, h⟩ := Exec.bind_eq_ok.mp h
  obtain ⟨f₂, hread, rfl⟩ := Exec.zoom_eq_some.mp hloop
  obtain ⟨entries, hentries, hiff⟩ := LogFile.readLoop_exact hread
  rw [List.nil_append] at hentries
  have hbatch : read = batch := by
    obtain ⟨v, w₃, -, hpure⟩ := Exec.bind_eq_ok.mp h
    exact Except.ok.inj (Prod.mk.inj (Option.some.inj hpure)).1
  rw [← hbatch, hentries, ← hbytes]
  exact hiff

theorem readBatch_exact_one :
    ∃ w', WalManager.readBatch
        (WalManager.openFile ⟨frames [⟨.insert, 1, ⟨4096⟩, 1, [7]⟩], 0, []⟩ true) =
        some (.ok [⟨.insert, 1, ⟨4096⟩, 1, [7]⟩], w') ∧
      (frames [⟨.insert, 1, ⟨4096⟩, 1, [7]⟩] <+: frames [⟨.insert, 1, ⟨4096⟩, 1, [7]⟩] ↔
        LengthsAgree (frames [⟨.insert, 1, ⟨4096⟩, 1, [7]⟩])) :=
  ⟨_, rfl, readBatch_exact_iff (w := WalManager.openFile
    ⟨frames [⟨.insert, 1, ⟨4096⟩, 1, [7]⟩], 0, []⟩ true) rfl⟩

/-- A frame of 30 bytes whose payload is empty. -/
theorem readBatch_drops :
    ¬ ∀ (w w' : WalManager) (batch : List WalEntry),
      WalManager.readBatch w = some (.ok batch, w') → frames batch <+: w.file.bytes := by
  intro h
  have hprefix := h (WalManager.openFile ⟨30 :: List.replicate 33 0, 0, []⟩ true) _
    [⟨.insert, 0, ⟨0⟩, 0, []⟩] rfl
  exact absurd hprefix (by decide)

end SmolDb
