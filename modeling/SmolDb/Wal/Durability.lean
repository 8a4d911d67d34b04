import SmolDb.Wal.Stream

/-!
# What `flush_upto` promises

`flush_upto(lsn)` promises that every entry of the log with an LSN up to `lsn` is `Durable`: a
`sync_all` that ran after the entry was appended has covered it. It skips the `sync_all` when
`flushed_lsn` says that so much is on disk already, and `write_batch` raises `flushed_lsn` also
when it does not sync.

The promise is kept exactly by the runs in which no call of `flush_upto` is skipped over an entry
that still waits for a `sync_all` (`promised_iff_careful`); with the `sync` flag set no entry ever
waits.
-/

namespace SmolDb

open WalEntry

/-- A call on a log that stays open. -/
inductive LogCall where
  | writeBatch (batch : List WalEntry)
  | sync
  | flushUpto (lsn : UInt64)
  | truncate
  deriving DecidableEq, Repr

/-- Every entry with an LSN up to `lsn` is in the part of the file that was synced after it was
appended. -/
def Durable (entries : List WalEntry) (lsn : UInt64) (w : WalManager) : Prop :=
  ∀ as entry bs, entries = as ++ entry :: bs → entry.lsn ≤ lsn →
    (frames (as ++ [entry])).length ≤ w.file.synced

/-- Whenever `flush_upto` returns `Ok`, the entries up to its LSN that were appended since the
last `truncate` are durable. -/
def Promised (entries : List WalEntry) : List LogCall → WalManager → Prop
  | [], _ => True
  | .writeBatch batch :: calls, w => ∀ w', WalManager.writeBatch batch w = some (.ok (), w') →
      Promised (entries ++ batch) calls w'
  | .sync :: calls, w => ∀ w', WalManager.syncFile w = some (.ok (), w') →
      Promised entries calls w'
  | .flushUpto lsn :: calls, w => ∀ w', WalManager.flushUpto lsn w = some (.ok (), w') →
      Durable entries lsn w' ∧ Promised entries calls w'
  | .truncate :: calls, w => ∀ w', WalManager.truncate w = some (.ok (), w') →
      Promised [] calls w'

/-- No `flush_upto` is skipped over an entry that waits for a `sync_all`. The entries that wait
are those appended since the last `sync_all` or `truncate`. -/
def Careful (waiting : List WalEntry) : List LogCall → WalManager → Prop
  | [], _ => True
  | .writeBatch batch :: calls, w => ∀ w', WalManager.writeBatch batch w = some (.ok (), w') →
      Careful (if w.sync then [] else waiting ++ batch) calls w'
  | .sync :: calls, w => ∀ w', WalManager.syncFile w = some (.ok (), w') →
      Careful [] calls w'
  | .flushUpto lsn :: calls, w =>
      (w.flushedLsn < lsn ∨ ∀ entry ∈ waiting, lsn < entry.lsn) ∧
        ∀ w', WalManager.flushUpto lsn w = some (.ok (), w') →
          Careful (if lsn > w.flushedLsn then [] else waiting) calls w'
  | .truncate :: calls, w => ∀ w', WalManager.truncate w = some (.ok (), w') →
      Careful [] calls w'

/-! ### The invariant -/

/-- The log has `done ++ waiting`, and a `sync_all` has covered `done`. With the `sync` flag set
nothing waits. -/
structure Covered (w : WalManager) (done waiting : List WalEntry) : Prop where
  noFaults : w.file.faults = []
  bytes : w.file.bytes = frames (done ++ waiting)
  synced : w.file.synced = (frames done).length
  none_waits : w.sync = true → waiting = []

namespace Covered

variable {w : WalManager} {done waiting : List WalEntry}

theorem openFile (sync : Bool) : Covered (WalManager.openFile .empty sync) [] [] :=
  ⟨rfl, rfl, rfl, fun _ => rfl⟩

/-- A file that was synced has everything covered. -/
theorem of_covered {entries : List WalEntry} (hno : w.file.faults = [])
    (hbytes : w.file.bytes = frames entries) (hsynced : w.file.synced = w.file.bytes.length) :
    Covered w entries [] where
  noFaults := hno
  bytes := by rw [hbytes, List.append_nil]
  synced := by rw [hsynced, hbytes]
  none_waits _ := rfl

/-- **What is durable**: an entry that waits is not, and the others are. -/
theorem durable_iff (h : Covered w done waiting) (lsn : UInt64) :
    Durable (done ++ waiting) lsn w ↔ ∀ entry ∈ waiting, lsn < entry.lsn := by
  constructor
  · intro hdur entry hmem
    by_contra hle
    obtain ⟨as, bs, rfl⟩ := List.append_of_mem hmem
    -- an entry that waits ends behind what is synced
    have hcov := hdur (done ++ as) entry bs (List.append_assoc ..).symm (UInt64.not_lt.mp hle)
    have hframe := le_length_frame entry
    rw [h.synced, frames_append, frames_append, frames_cons, List.length_append,
      List.length_append, List.length_append] at hcov
    omega
  · intro hwait as entry bs hsplit hle
    rw [h.synced]
    rcases List.append_eq_append_iff.mp hsplit with ⟨more, rfl, hmore⟩ | ⟨more, rfl, hmore⟩
    · -- the entry would be one of those that wait
      have hmem : entry ∈ waiting := by
        rw [hmore]
        exact List.mem_append_right _ (List.mem_cons_self ..)
      exact absurd hle (UInt64.not_le.mpr (hwait entry hmem))
    · cases more with
      | nil =>
        have hmem : entry ∈ waiting := by
          rw [List.nil_append] at hmore
          rw [← hmore]
          exact List.mem_cons_self ..
        exact absurd hle (UInt64.not_le.mpr (hwait entry hmem))
      | cons x more =>
        obtain ⟨rfl, -⟩ := List.cons.inj hmore
        rw [frames_append, frames_append, frames_cons, frames_cons, List.length_append,
          List.length_append, List.length_append, List.length_append]
        exact Nat.add_le_add_left (Nat.add_le_add_left (Nat.zero_le _) _) _

theorem writeBatch (h : Covered w done waiting) (batch : List WalEntry) :
    ∃ w', WalManager.writeBatch batch w = some (.ok (), w') ∧ w'.sync = w.sync ∧
      Covered w' (if w.sync then done ++ batch else done)
        (if w.sync then [] else waiting ++ batch) := by
  by_cases hne : batch = []
  · subst hne
    refine ⟨w, WalManager.writeBatch_nil, rfl, ?_⟩
    rw [List.append_nil, List.append_nil, ite_self]
    split
    · next hsync =>
      rw [← h.none_waits hsync]
      exact h
    · exact h
  · refine ⟨_, WalManager.writeBatch_ok h.noFaults hne, rfl, ?_⟩
    -- with `sync` the batch is durable at once, without it the batch waits
    by_cases hsync : w.sync = true
    · rw [if_pos hsync, if_pos hsync]
      have hwait := h.none_waits hsync
      refine of_covered (WalManager.noFaults_syncedFile h.noFaults) ?_ ?_
      · show (WalManager.syncedFile _ _).bytes = _
        rw [WalManager.bytes_syncedFile, frames_append, LogFile.appended]
        rw [h.bytes, hwait, List.append_nil]
        rfl
      · show (WalManager.syncedFile _ _).synced = (WalManager.syncedFile _ _).bytes.length
        rw [WalManager.syncedFile, if_pos hsync]
        rfl
    · rw [if_neg hsync, if_neg hsync]
      have hfile : ∀ f, WalManager.syncedFile w.sync f = f := fun f => if_neg hsync
      refine ⟨?_, ?_, ?_, fun hs => absurd hs hsync⟩
      · exact WalManager.noFaults_syncedFile h.noFaults
      · show (WalManager.syncedFile _ _).bytes = _
        rw [WalManager.bytes_syncedFile, ← List.append_assoc, frames_append, ← h.bytes]
        rfl
      · show (WalManager.syncedFile _ _).synced = _
        rw [hfile]
        exact h.synced

theorem syncFile (h : Covered w done waiting) :
    ∃ w', WalManager.syncFile w = some (.ok (), w') ∧ w'.sync = w.sync ∧
      Covered w' (done ++ waiting) [] :=
  ⟨_, WalManager.syncFile_ok h.noFaults, rfl, of_covered h.noFaults h.bytes rfl⟩

theorem flushUpto (h : Covered w done waiting) (lsn : UInt64) :
    ∃ w', WalManager.flushUpto lsn w = some (.ok (), w') ∧ w'.sync = w.sync ∧
      Covered w' (if lsn > w.flushedLsn then done ++ waiting else done)
        (if lsn > w.flushedLsn then [] else waiting) := by
  refine ⟨_, WalManager.flushUpto_ok h.noFaults lsn, ?_⟩
  by_cases hlt : lsn > w.flushedLsn
  · rw [if_pos hlt, if_pos hlt, if_pos hlt]
    exact ⟨rfl, of_covered h.noFaults h.bytes rfl⟩
  · rw [if_neg hlt, if_neg hlt, if_neg hlt]
    exact ⟨rfl, h⟩

theorem truncate (h : Covered w done waiting) :
    ∃ w', WalManager.truncate w = some (.ok (), w') ∧ w'.sync = w.sync ∧ Covered w' [] [] := by
  refine ⟨_, WalManager.truncate_ok h.noFaults, rfl,
    of_covered (WalManager.noFaults_syncedFile h.noFaults) ?_ ?_⟩
  · show (WalManager.syncedFile _ _).bytes = _
    rw [WalManager.bytes_syncedFile]
    rfl
  · show (WalManager.syncedFile _ _).synced = (WalManager.syncedFile _ _).bytes.length
    unfold WalManager.syncedFile
    split <;> rfl

end Covered

/-- The result of a call is unique. -/
theorem forall_ok_iff {x : Exec DbError WalManager Unit} {w w' : WalManager} {P : WalManager → Prop}
    (h : x w = some (.ok (), w')) : (∀ w'', x w = some (.ok (), w'') → P w'') ↔ P w' := by
  constructor
  · exact fun hall => hall w' h
  · intro hP w'' h''
    rw [h, Option.some.injEq, Prod.mk.injEq] at h''
    rw [← h''.2]
    exact hP

theorem Covered.promised_iff {w : WalManager} {done waiting : List WalEntry}
    (h : Covered w done waiting) (calls : List LogCall) :
    Promised (done ++ waiting) calls w ↔ Careful waiting calls w := by
  -- every call succeeds, and the two conditions speak of the entries that still wait
  induction calls generalizing w done waiting with
  | nil => exact Iff.rfl
  | cons call calls ih =>
    cases call with
    | writeBatch batch =>
      obtain ⟨w', hrun, -, h'⟩ := h.writeBatch batch
      rw [Promised, Careful, forall_ok_iff hrun, forall_ok_iff hrun, ← ih h']
      by_cases hsync : w.sync = true
      · rw [if_pos hsync, if_pos hsync, h.none_waits hsync, List.append_nil, List.append_nil]
      · rw [if_neg hsync, if_neg hsync, List.append_assoc]
    | sync =>
      obtain ⟨w', hrun, -, h'⟩ := h.syncFile
      rw [Promised, Careful, forall_ok_iff hrun, forall_ok_iff hrun, ← ih h', List.append_nil]
    | flushUpto lsn =>
      obtain ⟨w', hrun, -, h'⟩ := h.flushUpto lsn
      rw [Promised, Careful, forall_ok_iff hrun, forall_ok_iff hrun, ← ih h']
      by_cases hlt : lsn > w.flushedLsn
      · -- the file is synced, so nothing waits any more
        rw [if_pos hlt, if_pos hlt] at h' ⊢
        have hdur := (h'.durable_iff lsn).mpr nofun
        rw [List.append_nil] at hdur ⊢
        exact ⟨fun hp => ⟨.inl hlt, hp.2⟩, fun hc => ⟨hdur, hc.2⟩⟩
      · rw [if_neg hlt, if_neg hlt] at h' ⊢
        rw [h'.durable_iff lsn]
        exact and_congr_left' ⟨.inr, fun hor => hor.resolve_left hlt⟩
    | truncate =>
      obtain ⟨w', hrun, -, h'⟩ := h.truncate
      rw [Promised, Careful, forall_ok_iff hrun, forall_ok_iff hrun, ← ih h', List.append_nil]

/-- With the `sync` flag set every run is careful. -/
theorem Covered.careful {w : WalManager} {done : List WalEntry} (h : Covered w done [])
    (hsync : w.sync = true) (calls : List LogCall) : Careful [] calls w := by
  -- with `sync` nothing ever waits
  induction calls generalizing w done with
  | nil => trivial
  | cons call calls ih =>
    cases call with
    | writeBatch batch =>
      obtain ⟨w', hrun, hs, h'⟩ := h.writeBatch batch
      rw [Careful, forall_ok_iff hrun, if_pos hsync]
      rw [if_pos hsync, if_pos hsync] at h'
      exact ih h' (hs.trans hsync)
    | sync =>
      obtain ⟨w', hrun, hs, h'⟩ := h.syncFile
      rw [Careful, forall_ok_iff hrun]
      exact ih h' (hs.trans hsync)
    | flushUpto lsn =>
      obtain ⟨w', hrun, hs, h'⟩ := h.flushUpto lsn
      rw [Careful, forall_ok_iff hrun, ite_self]
      rw [ite_self] at h'
      exact ⟨.inr nofun, ih h' (hs.trans hsync)⟩
    | truncate =>
      obtain ⟨w', hrun, hs, h'⟩ := h.truncate
      rw [Careful, forall_ok_iff hrun]
      exact ih h' (hs.trans hsync)

/-- **The durability promise** is kept by exactly the careful runs. With the `sync` flag set these
are all runs. -/
theorem promised_iff_careful (sync : Bool) (calls : List LogCall) :
    (Promised [] calls (WalManager.openFile .empty sync) ↔
      Careful [] calls (WalManager.openFile .empty sync)) ∧
    (sync = true → Promised [] calls (WalManager.openFile .empty sync)) := by
  have hcov := Covered.openFile sync
  have hiff := hcov.promised_iff calls
  exact ⟨hiff, fun hsync => hiff.mpr (hcov.careful hsync calls)⟩

/-- Without the `sync` flag an entry is written, never synced, and reported as durable. -/
theorem flushUpto_skipped :
    ¬ Promised [] [.writeBatch [⟨.insert, 100, ⟨5⟩, 1, [1, 2, 4]⟩], .flushUpto 100]
      (WalManager.openFile .empty false) := by
  intro h
  have hdur := (h _ rfl _ rfl).1 [] _ [] rfl (UInt64.le_refl 100)
  exact absurd hdur (by decide)

end SmolDb
