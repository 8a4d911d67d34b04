import SmolDb.Wal.Exact
import SmolDb.Wal.Torn

/-!
# What a log carries

After writes that failed half-way and crashes that lost its end, a log is still the frames of some
entries and a part of one more frame, as long as nothing was appended behind such a part. The
entries are determined by the bytes (`Carries.unique`), and `read_batch` returns them if it returns
at all (`Carries.readBatch`).
-/

namespace SmolDb

open LittleEndian WalEntry

/-- The bytes are the frames of the entries, and a part of another frame. -/
def Carries (bytes : List UInt8) (entries : List WalEntry) : Prop :=
  (∀ entry ∈ entries, entry.Fits) ∧ ∃ (x : WalEntry) (k : ℕ), x.Fits ∧ k < x.frame.length ∧
    bytes = frames entries ++ x.frame.take k

/-- One frame stands at the beginning of given bytes. -/
theorem frame_unique {x y : WalEntry} (hx : x.Fits) (hy : y.Fits) {bytes : List UInt8}
    (hxs : x.frame <+: bytes) (hys : y.frame <+: bytes) : x = y := by
  obtain ⟨r, hr⟩ := hxs
  obtain ⟨s, hs⟩ := hys
  have hbytes : x.frame ++ r = y.frame ++ s := hr.trans hs.symm
  rw [frame, frame, List.append_assoc, List.append_assoc] at hbytes
  have hlengths : (u32Bytes (UInt32.ofNat x.encode.length)).length =
      (u32Bytes (UInt32.ofNat y.encode.length)).length := by
    rw [length_u32Bytes, length_u32Bytes]
  obtain ⟨hlen, hrest⟩ := List.append_inj hbytes hlengths
  have hencode : x.encode.length = y.encode.length := by
    rw [← hx.length_read, ← hy.length_read, hlen]
  have hencoded : x.encode = y.encode := (List.append_inj hrest hencode).1
  have hdecode := decode_encode x hx
  rw [hencoded, decode_encode y hy] at hdecode
  exact (Except.ok.inj hdecode).symm

namespace Carries

variable {bytes : List UInt8} {entries entries' batch all : List WalEntry}

theorem of_frames (h : ∀ entry ∈ entries, entry.Fits) : Carries (frames entries) entries :=
  ⟨h, blankEntry, 0, by decide, by decide, (List.append_nil _).symm⟩

theorem of_part {x : WalEntry} {k : ℕ} (h : ∀ entry ∈ entries, entry.Fits) (hx : x.Fits)
    (hk : k < x.frame.length) : Carries (frames entries ++ x.frame.take k) entries :=
  ⟨h, x, k, hx, hk, rfl⟩

/-- **The entries are determined by the bytes.** -/
theorem unique (h : Carries bytes entries) (h' : Carries bytes entries') : entries = entries' := by
  obtain ⟨hfits, x, k, hx, hk, rfl⟩ := h
  obtain ⟨hfits', y, j, hy, hj, heq⟩ := h'
  -- a whole frame is not a part of one
  have hpart : ∀ {x z : WalEntry} {k : ℕ} {rest : List UInt8}, x.Fits → z.Fits →
      k < x.frame.length → x.frame.take k ≠ z.frame ++ rest := by
    intro x z k rest hx hz hk hcut
    have hpre : z.frame <+: x.frame.take k := ⟨rest, hcut.symm⟩
    obtain rfl := frame_unique hx hz List.prefix_rfl (hpre.trans (List.take_prefix ..))
    have hlen := hpre.length_le
    rw [List.length_take] at hlen
    omega
  induction entries generalizing entries' with
  | nil =>
    cases entries' with
    | nil => rfl
    | cons z zs =>
      rw [frames_cons, List.append_assoc] at heq
      exact absurd heq (hpart hx (hfits' z (List.mem_cons_self ..)) hk)
  | cons a as ih =>
    have ha := hfits a (List.mem_cons_self ..)
    cases entries' with
    | nil =>
      rw [frames_cons, List.append_assoc] at heq
      exact absurd heq.symm (hpart hy ha hj)
    | cons b bs =>
      have hb := hfits' b (List.mem_cons_self ..)
      rw [frames_cons, frames_cons, List.append_assoc, List.append_assoc] at heq
      obtain rfl := frame_unique ha hb ⟨_, rfl⟩ ⟨_, heq.symm⟩
      rw [ih (fun e he => hfits e (List.mem_cons_of_mem _ he))
        (fun e he => hfits' e (List.mem_cons_of_mem _ he)) (List.append_cancel_left heq)]

/-- Whole frames in front. -/
theorem prepend (hall : ∀ entry ∈ all, entry.Fits) (h : Carries bytes entries) :
    Carries (frames all ++ bytes) (all ++ entries) := by
  obtain ⟨hfits, x, k, hx, hk, rfl⟩ := h
  refine ⟨fun entry he => ?_, x, k, hx, hk, by rw [frames_append, List.append_assoc]⟩
  rcases List.mem_append.mp he with hfront | hbehind
  · exact hall entry hfront
  · exact hfits entry hbehind

/-- Any initial part of some frames carries the first entries. -/
theorem of_take (h : ∀ entry ∈ all, entry.Fits) (n : ℕ) :
    ∃ entries, entries <+: all ∧ Carries ((frames all).take n) entries := by
  obtain ⟨as, bs, rfl, hcut⟩ | ⟨as, x, bs, k, rfl, -, hk, hcut⟩ :=
    wholeFrames_or_inside all (some n)
  · refine ⟨as, List.prefix_append .., ?_⟩
    rw [show (frames (as ++ bs)).take n = frames as from hcut]
    exact of_frames fun entry he => h entry (List.mem_append_left _ he)
  · refine ⟨as, List.prefix_append .., ?_⟩
    rw [show (frames (as ++ x :: bs)).take n = frames as ++ x.frame.take k from hcut]
    exact of_part (fun entry he => h entry (List.mem_append_left _ he))
      (h x (List.mem_append_right _ (List.mem_cons_self ..))) hk

/-- **A log that is cut** carries the first entries. -/
theorem cut (h : Carries bytes entries) (n : ℕ) :
    ∃ entries', entries' <+: entries ∧ Carries (bytes.take n) entries' := by
  obtain ⟨hfits, x, k, hx, hk, rfl⟩ := h
  by_cases hn : n ≤ (frames entries).length
  · rw [List.take_append_of_le_length hn]
    exact of_take hfits n
  · -- the cut is in the part of a frame
    obtain ⟨j, rfl⟩ := Nat.exists_eq_add_of_le (Nat.le_of_not_le hn)
    refine ⟨entries, List.prefix_rfl, ?_⟩
    rw [List.take_length_add_append, List.take_take]
    exact of_part hfits hx (Nat.lt_of_le_of_lt (Nat.min_le_right ..) hk)

/-- **A batch is written** behind whole frames, or a part of it. -/
theorem written (h : ∀ entry ∈ entries, entry.Fits) (hbatch : ∀ entry ∈ batch, entry.Fits)
    (fault : Option ℕ) :
    ∃ as, as <+: batch ∧
      Carries (frames entries ++ SmolDb.written batch fault) (entries ++ as) := by
  have hall : ∀ {as bs : List WalEntry}, batch = as ++ bs →
      ∀ entry ∈ entries ++ as, entry.Fits := by
    rintro as bs rfl entry he
    rcases List.mem_append.mp he with hold | hnew
    · exact h entry hold
    · exact hbatch entry (List.mem_append_left _ hnew)
  -- the fault cuts the write between two frames or inside of one
  obtain ⟨as, bs, hsplit, hcut⟩ | ⟨as, x, bs, k, hsplit, -, hk, hcut⟩ :=
    wholeFrames_or_inside batch fault
  · refine ⟨as, ⟨bs, hsplit.symm⟩, ?_⟩
    rw [hcut, ← frames_append]
    exact of_frames (hall hsplit)
  · refine ⟨as, ⟨x :: bs, hsplit.symm⟩, ?_⟩
    rw [hcut, ← List.append_assoc, ← frames_append]
    refine of_part (hall hsplit) (hbatch x ?_) hk
    rw [hsplit]
    exact List.mem_append_right _ (List.mem_cons_self ..)

end Carries

/-! ### Reading it -/

namespace LogFile

/-- The file without faults to come. -/
def unfailing (self : LogFile) : LogFile := { self with faults := [] }

theorem readExact_state {f f' : LogFile} {rest : List UInt8} {n : ℕ}
    {r : Except DbError (Option (List UInt8 × List UInt8))}
    (h : readExact rest n f = some (r, f')) : f' = { f with faults := f.faults.tail } := by
  unfold readExact at h
  obtain ⟨-, h⟩ | ⟨k, -, h⟩ := of_nextFault h
  · cases h
    rfl
  · cases h
    rfl

theorem lifts_readExact (rest : List UInt8) (n : ℕ) (f : LogFile) :
    Exec.Lifts unfailing (readExact rest n) f := by
  intro o f' h
  have ho := readExact_eq_ok h
  have hsame : unfailing f' = unfailing f := by
    rw [readExact_state h]
    rfl
  rw [readExact_ok rfl, ho, hsame]

/-- A loop that returned met no fault. -/
theorem lifts_readLoop (fuel : ℕ) (rest : List UInt8) (batch : List WalEntry) (m : UInt64)
    (f : LogFile) : Exec.Lifts unfailing (readLoop fuel rest batch m) f := by
  -- a read that succeeds has met no fault, so the file without faults gives the same
  induction fuel generalizing rest batch m f with
  | zero => nofun
  | succ fuel ih =>
    refine (lifts_readExact rest 4 f).bind fun o f₁ _ => ?_
    cases o with
    | none => exact .pure _ f₁
    | some out =>
      obtain ⟨lenBuf, rest⟩ := out
      dsimp only
      split
      · exact .pure _ f₁
      refine (lifts_readExact _ _ f₁).bind fun o f₂ _ => ?_
      cases o with
      | none => exact .throw _ f₂
      | some out =>
        obtain ⟨buffer, rest⟩ := out
        refine Exec.Lifts.bind ?_ fun entry f₃ _ => ih rest _ _ f₃
        intro entry f₃ hdecode
        rw [Exec.ofResult_apply] at hdecode ⊢
        obtain ⟨hentry, rfl⟩ := Prod.mk.inj (Option.some.inj hdecode)
        rw [hentry]

/-- Reading leaves the bytes alone. -/
theorem within_readLoop (fuel : ℕ) (rest : List UInt8) (batch : List WalEntry) (m : UInt64) :
    Exec.Within (fun f f' : LogFile => f'.bytes = f.bytes) (readLoop fuel rest batch m) := by
  have htrans : ∀ a b c : LogFile, b.bytes = a.bytes → c.bytes = b.bytes → c.bytes = a.bytes :=
    fun _ _ _ hab hbc => hbc.trans hab
  have hread : ∀ rest n, Exec.Within (fun f f' : LogFile => f'.bytes = f.bytes)
      (readExact rest n) := by
    intro rest n f r f' h
    rw [readExact_state h]
  -- every step of the loop is a read or returns
  have hreturn : ∀ {α : Type} {x : Exec DbError LogFile α},
      (∀ f r f', x f = some (r, f') → f' = f) →
      Exec.Within (fun f f' : LogFile => f'.bytes = f.bytes) x :=
    fun hx => .of_unchanged (R := fun f f' : LogFile => f'.bytes = f.bytes) (fun _ => rfl) hx
  induction fuel generalizing rest batch m with
  | zero => exact hreturn nofun
  | succ fuel ih =>
    refine Exec.Within.bind htrans (hread rest 4) fun o => ?_
    cases o with
    | none => exact hreturn fun _ _ _ h => by cases h; rfl
    | some out =>
      obtain ⟨lenBuf, rest⟩ := out
      dsimp only
      split
      · exact hreturn fun _ _ _ h => by cases h; rfl
      refine Exec.Within.bind htrans (hread _ _) fun o => ?_
      cases o with
      | none => exact hreturn fun _ _ _ h => by cases h; rfl
      | some out =>
        obtain ⟨buffer, rest⟩ := out
        refine Exec.Within.bind htrans (hreturn fun f r f' h => ?_) fun entry => ih rest _ _
        exact (Prod.mk.inj (Option.some.inj h)).2.symm

theorem clear_bytes {f f' : LogFile} {r : Except DbError Unit} (h : clear f = some (r, f')) :
    f'.bytes = [] ∨ f'.bytes = f.bytes ∧ ∃ e, r = .error e := by
  unfold clear at h
  obtain ⟨-, h⟩ | ⟨k, -, h⟩ := of_nextFault h
  · cases h
    exact .inl rfl
  · cases h
    exact .inr ⟨rfl, _, rfl⟩

end LogFile

namespace WalManager

variable {w w' : WalManager}

theorem readBatch_bytes {r : Except DbError (List WalEntry)} (h : readBatch w = some (r, w')) :
    w'.file.bytes = w.file.bytes := by
  obtain ⟨e, -, hrewind⟩ | ⟨_, w₁, hrewind, h⟩ := Exec.bind_eq_some.mp h
  · obtain ⟨f, hf, rfl⟩ := Exec.zoom_eq_some.mp hrewind
    exact LogFile.rewind_bytes hf
  obtain ⟨f₁, hf₁, rfl⟩ := Exec.zoom_eq_some.mp hrewind
  rw [Exec.bind_of_ok (Exec.get_apply _)] at h
  obtain ⟨e, -, hloop⟩ | ⟨out, w₂, hloop, h⟩ := Exec.bind_eq_some.mp h
  · obtain ⟨f₂, hf₂, rfl⟩ := Exec.zoom_eq_some.mp hloop
    exact (LogFile.within_readLoop _ _ _ _ _ _ _ hf₂).trans (LogFile.rewind_bytes hf₁)
  · obtain ⟨f₂, hf₂, rfl⟩ := Exec.zoom_eq_some.mp hloop
    cases h
    exact (LogFile.within_readLoop _ _ _ _ _ _ _ hf₂).trans (LogFile.rewind_bytes hf₁)

/-- `truncate` empties the file, or fails before that. -/
theorem truncate_bytes {r : Except DbError Unit} (h : truncate w = some (r, w')) :
    w'.file.bytes = [] ∨ w'.file.bytes = w.file.bytes ∧ ∃ e, r = .error e := by
  obtain ⟨e, rfl, hclear⟩ | ⟨_, w₁, hclear, h⟩ := Exec.bind_eq_some.mp h
  · obtain ⟨f, hf, rfl⟩ := Exec.zoom_eq_some.mp hclear
    exact (LogFile.clear_bytes hf).imp_right fun h => ⟨h.1, e, rfl⟩
  obtain ⟨f₁, hf₁, rfl⟩ := Exec.zoom_eq_some.mp hclear
  -- once the file is cleared, rewinding and syncing leave it empty
  obtain hempty | ⟨-, e, he⟩ := LogFile.clear_bytes hf₁
  · left
    obtain ⟨e, -, hrewind⟩ | ⟨_, w₂, hrewind, h⟩ := Exec.bind_eq_some.mp h
    · obtain ⟨f₂, hf₂, rfl⟩ := Exec.zoom_eq_some.mp hrewind
      exact (LogFile.rewind_bytes hf₂).trans hempty
    obtain ⟨f₂, hf₂, rfl⟩ := Exec.zoom_eq_some.mp hrewind
    have hrewound : f₂.bytes = [] := (LogFile.rewind_bytes hf₂).trans hempty
    obtain ⟨e, -, hsync⟩ | ⟨_, w₃, hsync, h⟩ := Exec.bind_eq_some.mp h
    · exact (syncIfSet_bytes hsync).trans hrewound
    · cases h
      exact (syncIfSet_bytes hsync).trans hrewound
  · cases he

/-- What `init` does with a log it has replayed empties it, or fails. -/
theorem wipe_bytes {r : Except DbError Unit}
    (h : (truncate >>= fun _ => syncFile) w = some (r, w')) :
    w'.file.bytes = [] ∨ w'.file.bytes = w.file.bytes ∧ ∃ e, r = .error e := by
  obtain ⟨e, rfl, htruncate⟩ | ⟨_, w₁, htruncate, hsync⟩ := Exec.bind_eq_some.mp h
  · exact (truncate_bytes htruncate).imp_right fun h => ⟨h.1, e, rfl⟩
  · obtain hempty | ⟨-, e, he⟩ := truncate_bytes htruncate
    · unfold syncFile onFile at hsync
      obtain ⟨f, hf, rfl⟩ := Exec.zoom_eq_some.mp hsync
      exact .inl ((LogFile.syncAll_bytes hf).trans hempty)
    · cases he

theorem le_maxLsn {entries : List WalEntry} {entry : WalEntry} (h : entry ∈ entries) :
    entry.lsn ≤ maxLsn entries := (greatestLsn_maxLsn entries).le entry h

theorem maxLsn_le {entries : List WalEntry} {m : UInt64} (h : ∀ entry ∈ entries, entry.lsn ≤ m) :
    maxLsn entries ≤ m := by
  obtain ⟨-, hzero⟩ | ⟨entry, hentry, hmax⟩ := (greatestLsn_maxLsn entries).attained
  · rw [hzero]
    exact UInt64.zero_le
  · rw [← hmax]
    exact h entry hentry

/-- **What `read_batch` returns** is what the log carries. -/
theorem readBatch_carries {entries batch : List WalEntry} (h : Carries w.file.bytes entries)
    (hread : readBatch w = some (.ok batch, w')) :
    batch = entries ∧ w'.flushedLsn = maxLsn entries ∧
      w.file.bytes.length < (frames entries).length + 4 := by
  obtain ⟨_, w₁, hrewind, hread⟩ := Exec.bind_eq_ok.mp hread
  obtain ⟨f₁, hf₁, rfl⟩ := Exec.zoom_eq_some.mp hrewind
  rw [Exec.bind_of_ok (Exec.get_apply _)] at hread
  obtain ⟨⟨read, m⟩, w₂, hloop, hread⟩ := Exec.bind_eq_ok.mp hread
  obtain ⟨f₂, hf₂, rfl⟩ := Exec.zoom_eq_some.mp hloop
  cases hread
  obtain ⟨hfits, x, k, hx, hk, hbytes⟩ := h
  -- the loop reads the whole frames, and then comes to the part behind them
  have hclean := LogFile.lifts_readLoop _ _ _ _ f₁ _ _ hf₂
  obtain ⟨fuel, hrun⟩ := LogFile.readLoop_bytes (f := f₁.unfailing) rfl (readable_frames hfits)
    (x.frame.take k)
  rw [← hbytes, ← LogFile.rewind_bytes hf₁] at hrun
  have hrun := hclean.symm.trans hrun
  by_cases hk4 : 4 ≤ k
  · -- the part has a whole length
    obtain ⟨msg, htorn⟩ := LogFile.readLoop_torn (f := f₁.unfailing) rfl hx hk4 hk
    rw [htorn] at hrun
    cases hrun
  · have hshort : (x.frame.take k).length < 4 :=
      Nat.lt_of_le_of_lt (List.length_take_le ..) (Nat.lt_of_not_le hk4)
    rw [LogFile.readLoop_short (f := f₁.unfailing) rfl hshort, Option.some.injEq, Prod.mk.injEq,
      Except.ok.injEq, Prod.mk.injEq] at hrun
    obtain ⟨⟨rfl, rfl⟩, -⟩ := hrun
    refine ⟨rfl, rfl, ?_⟩
    rw [hbytes, List.length_append]
    exact Nat.add_lt_add_left hshort _

/-- `read_batch` returns what the log carries, if no length of a further frame is there. -/
theorem readBatch_of_carries {entries : List WalEntry} (hno : w.file.faults = [])
    (h : Carries w.file.bytes entries)
    (hlen : w.file.bytes.length < (frames entries).length + 4) :
    readBatch w = some (.ok entries,
      { w with flushedLsn := maxLsn entries, entryCount := entries.length }) := by
  obtain ⟨hfits, x, k, hx, hk, hbytes⟩ := h
  have hshort : (x.frame.take k).length < 4 := by
    rw [hbytes, List.length_append] at hlen
    exact Nat.lt_of_add_lt_add_left hlen
  obtain ⟨fuel, hloop⟩ := LogFile.readLoop_bytes hno (readable_frames hfits) (x.frame.take k)
  rw [← hbytes, LogFile.readLoop_short hno hshort] at hloop
  exact readBatch_ok hno hloop

end WalManager

end SmolDb
