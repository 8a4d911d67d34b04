import SmolDb.Pool.Stamps
import SmolDb.Recovery.Replay
import SmolDb.Wal.Carried

/-!
# LSNs across restarts

`init` returns the greatest LSN of the log, and the process hands out greater ones. That is enough
as long as the log has the LSNs of the pages; but a checkpoint empties the log, and then `init`
returns 0. The entries of the next process get LSNs that pages already have, and a later replay
skips them (`init_restarts_at_zero`).

A `Database` is the log, the data file and the pool of the current process. In a history whose
steps are all `Careful` the log keeps up with the pages (`Tracks`): it carries entries, and no page
has an LSN above all of theirs unless it carries none. There `init` returns an LSN that no page
exceeds (`init_covers_pages`), whatever fails on the way, in the data file, the log or the flusher.
-/

namespace SmolDb

open BufferPool WalEntry

/-! ### What replay does to LSNs -/

namespace RecoveryEngine

variable {φ : Type} {p p' : BufferPool φ} {m : UInt64}

/-- An operation leaves the LSN of the node alone, whatever the node is like. -/
theorem getLastLsn_applyEntry {entry : WalEntry} {node node' : BTreeNode} {r : Except DbError Unit}
    (h : applyEntry entry node = some (r, node')) : node'.getLastLsn = node.getLastLsn := by
  rw [applyEntry_eq] at h
  obtain ⟨leaf, leaf', rfl, hleaf, rfl⟩ | ⟨e, -, rfl, -⟩ := BTreeNode.asLeaf_eq_some h
  · obtain ⟨_, _, _, rfl⟩ := LeafOp.sameHeader_call _ hleaf
    rfl
  · rfl

/-- **Replay raises the LSN of a node** to that of the entry, or leaves it alone. -/
theorem getLastLsn_redoEntry {entry : WalEntry} {node node' : BTreeNode} {r : Except DbError Unit}
    (h : redoEntry entry node = some (r, node')) :
    node'.getLastLsn = node.getLastLsn ∨
      node.getLastLsn < entry.lsn ∧ node'.getLastLsn = entry.lsn := by
  rw [redoEntry, Exec.bind_of_ok (Exec.get_apply node)] at h
  by_cases hle : entry.lsn ≤ node.getLastLsn
  · rw [if_pos hle] at h
    cases h
    exact .inl rfl
  rw [if_neg hle] at h
  obtain ⟨e, -, happly⟩ | ⟨_, n, happly, hmark⟩ := Exec.bind_eq_some.mp h
  · exact .inl (getLastLsn_applyEntry happly)
  · -- applying the entry may say anything; marking the node writes the LSN of the entry
    cases hmark
    refine .inr ⟨UInt64.not_le.mp hle, ?_⟩
    cases n <;> rfl

section Flusher

variable [WalFlusher φ]

theorem within_redo_below {entry : WalEntry} (ha : entry.pageId.Aligned)
    (hne : entry.pageId.val ≠ 0) (hle : entry.lsn ≤ m) :
    Exec.Within (StaysBelow m)
      (onPage entry.pageId (redoEntry entry) : Exec DbError (BufferPool φ) Unit) := by
  intro p r p' h hbelow
  obtain ⟨e, -, hfetch⟩ | ⟨f, p₁, p₂, hfetch, hbody, rfl⟩ := withClone_eq_some h
  · exact within_fetchPage_below ha hne _ _ _ hfetch hbelow
  have hbelow₁ := within_fetchPage_below ha hne _ _ _ hfetch hbelow
  obtain ⟨node, node', hf, hx, rfl⟩ := onNode_eq_some.mp hbody
  have hnode : node.getLastLsn ≤ m := hbelow₁.frames node (List.mem_of_getElem? hf)
  refine Below.of_same (p := p₁.withNode f node') ?_ rfl rfl rfl
  -- the LSN of the node stays or becomes that of the entry
  obtain hsame | ⟨hlt, hraised⟩ := getLastLsn_redoEntry hx
  · exact hbelow₁.withNode hf (UInt64.le_of_eq hsame.symm) (hsame ▸ hnode)
  · refine hbelow₁.withNode hf ?_ (hraised ▸ hle)
    rw [hraised]
    exact UInt64.le_of_lt hlt

theorem within_replayLoop_below {batch : List WalEntry}
    (hbatch : ∀ entry ∈ batch, entry.pageId.Aligned ∧ entry.pageId.val ≠ 0 ∧ entry.lsn ≤ m)
    (k : UInt64) :
    Exec.Within (StaysBelow m) (replayLoop batch k : Exec DbError (BufferPool φ) UInt64) := by
  induction batch generalizing k with
  | nil => exact .of_unchanged StaysBelow.refl fun _ _ _ h => by cases h; rfl
  | cons entry batch ih =>
    obtain ⟨ha, hne, hle⟩ := hbatch entry (List.mem_cons_self ..)
    exact Exec.Within.bind StaysBelow.trans (within_redo_below ha hne hle)
      fun _ => ih (fun e he => hbatch e (List.mem_cons_of_mem _ he)) _

/-- **Replay stamps pages with LSNs of the log only**, whether it succeeds or not. -/
theorem within_replay_below {batch : List WalEntry}
    (hbatch : ∀ entry ∈ batch, entry.pageId.Aligned ∧ entry.pageId.val ≠ 0 ∧ entry.lsn ≤ m)
    (order : HashOrder) :
    Exec.Within (StaysBelow m) (replay order batch : Exec DbError (BufferPool φ) UInt64) := by
  refine Exec.Within.bind StaysBelow.trans (within_replayLoop_below hbatch 0) fun m' => ?_
  refine Exec.Within.bind StaysBelow.trans (within_flushAllPages_below order) fun _ => ?_
  exact .of_unchanged StaysBelow.refl fun _ _ _ h => by cases h; rfl

/-- Everything a call of `init` that returns can have done. -/
inductive InitOutcome (order : HashOrder) (file : LogFile) (p : BufferPool φ) :
    Except DbError UInt64 → LogFile → BufferPool φ → Prop
  | unread {e : DbError} {w : WalManager}
      (hread : WalManager.readBatch (.openFile file false) = some (.error e, w)) :
      InitOutcome order file p (.error e) w.file p
  | empty {w : WalManager}
      (hread : WalManager.readBatch (.openFile file false) = some (.ok [], w)) :
      InitOutcome order file p (.ok w.flushedLsn) w.file p
  | failed {e : DbError} {w : WalManager} {batch : List WalEntry} {p' : BufferPool φ}
      (hread : WalManager.readBatch (.openFile file false) = some (.ok batch, w))
      (hne : batch ≠ []) (hreplay : replay order batch p = some (.error e, p')) :
      InitOutcome order file p (.error e) w.file p'
  | replayed {w w' : WalManager} {batch : List WalEntry} {n : UInt64} {r : Except DbError Unit}
      {p' : BufferPool φ}
      (hread : WalManager.readBatch (.openFile file false) = some (.ok batch, w))
      (hne : batch ≠ []) (hreplay : replay order batch p = some (.ok n, p'))
      (hwipe : (WalManager.truncate >>= fun _ => WalManager.syncFile) w = some (r, w')) :
      InitOutcome order file p (r.map fun _ => n) w'.file p'

theorem init_empty {order : HashOrder} {file : LogFile} {w : WalManager}
    (hread : WalManager.readBatch (.openFile file false) = some (.ok [], w)) :
    init order (file, p) = some (.ok w.flushedLsn, (w.file, p)) := by
  have hfirst : Exec.zoom Prod.fst (fun wal self => (wal, self.2)) WalManager.readBatch
      (WalManager.openFile file false, p) = some (.ok [], (w, p)) := Exec.zoom_of_some hread
  have hrun : replayLog order (WalManager.openFile file false, p) =
      some (.ok w.flushedLsn, (w, p)) := by
    unfold replayLog
    rw [Exec.bind_of_ok hfirst]
    rfl
  exact Exec.zoom_eq_some.mpr ⟨(w, p), hrun, rfl⟩

theorem init_replayed {order : HashOrder} {file : LogFile} {w w' : WalManager}
    {batch : List WalEntry} {n : UInt64}
    (hread : WalManager.readBatch (.openFile file false) = some (.ok batch, w)) (hne : batch ≠ [])
    (hreplay : replay order batch p = some (.ok n, p'))
    (hwipe : (WalManager.truncate >>= fun _ => WalManager.syncFile) w = some (.ok (), w')) :
    init order (file, p) = some (.ok n, (w'.file, p')) := by
  -- read the batch, replay it, empty the log
  have hfirst : Exec.zoom Prod.fst (fun wal self => (wal, self.2)) WalManager.readBatch
      (WalManager.openFile file false, p) = some (.ok batch, (w, p)) := Exec.zoom_of_some hread
  have hsecond : Exec.zoom Prod.snd (fun pool self => (self.1, pool)) (replay order batch)
      (w, p) = some (.ok n, (w, p')) := Exec.zoom_of_some hreplay
  have hthird : Exec.zoom Prod.fst (fun wal self => (wal, self.2))
      (WalManager.truncate >>= fun _ => WalManager.syncFile) (w, p') =
      some (.ok (), (w', p')) := Exec.zoom_of_some hwipe
  have hrun : replayLog order (WalManager.openFile file false, p) = some (.ok n, (w', p')) := by
    unfold replayLog
    rw [Exec.bind_of_ok hfirst, List.isEmpty_eq_false_iff.mpr hne, if_neg Bool.false_ne_true,
      Exec.bind_of_ok hsecond]
    exact (Exec.bind_of_ok hthird).trans rfl
  exact Exec.zoom_eq_some.mpr ⟨(w', p'), hrun, rfl⟩

theorem init_outcome {order : HashOrder} {file file' : LogFile} {r : Except DbError UInt64}
    (h : init order (file, p) = some (r, (file', p'))) : InitOutcome order file p r file' p' := by
  obtain ⟨⟨w, q⟩, hrun, heq⟩ := Exec.zoom_eq_some.mp h
  cases heq
  obtain ⟨e, rfl, hfirst⟩ | ⟨batch, s₁, hfirst, hrest⟩ := Exec.bind_eq_some.mp hrun
  · obtain ⟨w₁, hread, heq⟩ := Exec.zoom_eq_some.mp hfirst
    cases heq
    exact .unread hread
  -- the log was read: without entries nothing is left to do
  obtain ⟨w₁, hread, rfl⟩ := Exec.zoom_eq_some.mp hfirst
  cases batch with
  | nil =>
    cases hrest
    exact .empty hread
  | cons entry batch =>
    have hne : entry :: batch ≠ [] := List.cons_ne_nil _ _
    obtain ⟨e, rfl, hsecond⟩ | ⟨n, s₂, hsecond, hthird⟩ := Exec.bind_eq_some.mp hrest
    · obtain ⟨p₂, hreplay, heq⟩ := Exec.zoom_eq_some.mp hsecond
      cases heq
      exact .failed hread hne hreplay
    obtain ⟨p₂, hreplay, rfl⟩ := Exec.zoom_eq_some.mp hsecond
    obtain ⟨e, rfl, hlast⟩ | ⟨_, s₃, hlast, hpure⟩ := Exec.bind_eq_some.mp hthird
    · obtain ⟨w₂, hwipe, heq⟩ := Exec.zoom_eq_some.mp hlast
      cases heq
      exact .replayed hread hne hreplay hwipe
    · obtain ⟨w₂, hwipe, rfl⟩ := Exec.zoom_eq_some.mp hlast
      cases hpure
      exact .replayed hread hne hreplay hwipe

end Flusher

end RecoveryEngine

/-! ### Histories -/

/-- How far a process has got: it has opened its files; `init` has failed; or it is at work, and
has handed out LSNs up to this one. -/
inductive Phase where
  | opened
  | failed
  | running (lsn : UInt64)

/-- The phase behind `init`, which returns the LSN to go on from. -/
def Phase.ofInit : Except DbError UInt64 → Phase
  | .ok lsn => .running lsn
  | .error _ => .failed

/-- The log file, and the pool of the current process with the data file behind it. -/
structure Database (φ : Type) where
  pool : BufferPool φ
  log : LogFile
  phase : Phase

/-- What happens to the database next. A checkpoint is a `flush_all_pages` that succeeds and a
`truncate`; a restart loses the memory, and the log behind its first `kept` bytes. -/
inductive Change (φ : Type) where
  | init (order : HashOrder)
  | writeBatch (batch : List WalEntry)
  | turn (t : Turn φ)
  | checkpoint (order : HashOrder)
  | restart (kept : ℕ)

/-- The process fetches pages only, and changes the LSN of a node only to a greater one that was
handed out. -/
def Turn.Proper {φ : Type} (p : BufferPool φ) (lsn : UInt64) : Turn φ → Prop
  | .call (.fetchPage id) => id.Aligned ∧ id.val ≠ 0
  | .write frame node => ∀ old, p.frames[frame]? = some old →
      old.getLastLsn ≤ node.getLastLsn ∧ node.getLastLsn ≤ lsn
  | _ => True

namespace Database

variable {φ : Type} {s s' : Database φ}

/-- The first process finds two empty files. -/
def first (faults logFaults : List (Option ℕ)) (capacity : ℕ) (w : Option φ) : Database φ where
  pool := new ⟨.empty, .default, faults⟩ capacity w
  log := ⟨[], 0, logFaults⟩
  phase := .opened

section Flusher

variable [WalFlusher φ]

/-- One step of a history. A call may fail at any point; the LSNs of a batch are used up even when
it could not be written. -/
inductive Step (s : Database φ) : Change φ → Database φ → Prop
  | init {order : HashOrder} {r : Except DbError UInt64} {log : LogFile} {pool : BufferPool φ}
      (hphase : s.phase = .opened)
      (hrun : RecoveryEngine.init order (s.log, s.pool) = some (r, (log, pool))) :
      Step s (.init order) ⟨pool, log, .ofInit r⟩
  | writeBatch {batch : List WalEntry} {lsn : UInt64} {w w' : WalManager} {r : Except DbError Unit}
      (hphase : s.phase = .running lsn) (hfile : w.file = s.log)
      (hlsns : RecoveryEngine.Ascending lsn batch)
      (hpages : ∀ entry ∈ batch, entry.pageId.Aligned ∧ entry.pageId.val ≠ 0)
      (hrun : WalManager.writeBatch batch w = some (r, w')) :
      Step s (.writeBatch batch) ⟨s.pool, w'.file, .running (RecoveryEngine.lastOf lsn batch)⟩
  | turn {t : Turn φ} {lsn : UInt64} {r : Except DbError (Option (PageId × Frame))}
      {pool : BufferPool φ} (hphase : s.phase = .running lsn) (hproper : t.Proper s.pool lsn)
      (hrun : t.run s.pool = some (r, pool)) : Step s (.turn t) { s with pool }
  | checkpoint {order : HashOrder} {lsn : UInt64} {w w' : WalManager} {r : Except DbError Unit}
      {pool : BufferPool φ} (hphase : s.phase = .running lsn) (hfile : w.file = s.log)
      (hflush : flushAllPages order s.pool = some (.ok (), pool))
      (htruncate : WalManager.truncate w = some (r, w')) :
      Step s (.checkpoint order) ⟨pool, w'.file, s.phase⟩
  | restart {kept synced capacity : ℕ} {faults logFaults : List (Option ℕ)} {d : DiskManager}
      (w : Option φ) (hopen : DiskManager.openFile s.pool.diskManager.file faults = .ok d) :
      Step s (.restart kept) ⟨new d capacity w, ⟨s.log.bytes.take kept, synced, logFaults⟩, .opened⟩

/-- The states of the histories whose steps are all allowed. -/
inductive Reached (Allowed : Database φ → Change φ → Prop) : Database φ → Prop
  | first (faults logFaults : List (Option ℕ)) (capacity : ℕ) (w : Option φ) :
      Reached Allowed (first faults logFaults capacity w)
  | step {s s' : Database φ} {c : Change φ} (h : Reached Allowed s) (hallowed : Allowed s c)
      (hstep : Step s c s') : Reached Allowed s'

theorem Reached.mono {Allowed Allowed' : Database φ → Change φ → Prop}
    (hsub : ∀ s c, Allowed s c → Allowed' s c) (h : Reached Allowed s) : Reached Allowed' s := by
  induction h with
  | first faults logFaults capacity w => exact .first faults logFaults capacity w
  | step _ hallowed hstep ih => exact .step ih (hsub _ _ hallowed) hstep

end Flusher

/-! ### Careful histories -/

/-- The condition on a step. `init` finds a log that is not empty, or pages without an LSN. A batch
is written behind whole frames. A page is changed after the log has an entry with its LSN. A page
that is made has no LSN in the file. And a crash does not lose the entry of an LSN that a page in
the file has. -/
def Careful (s : Database φ) : Change φ → Prop
  | .init _ => 4 ≤ s.log.bytes.length ∨ s.pool.diskManager.file.LsnsBelow 0
  | .writeBatch batch => (∃ entries, (∀ entry ∈ entries, entry.Fits) ∧
      s.log.bytes = WalEntry.frames entries) ∧ ∀ entry ∈ batch, entry.Fits
  | .turn (.call (.newPage _)) => Unstamped s.pool
  | .turn (.write frame node) => (∃ old, s.pool.frames[frame]? = some old ∧
      node.getLastLsn = old.getLastLsn) ∨
      ∃ entries, Carries s.log.bytes entries ∧ node.getLastLsn ≤ WalManager.maxLsn entries
  | .turn _ | .checkpoint _ => True
  | .restart kept => s.log.bytes.length ≤ kept ∨
      ∃ entries, Carries (s.log.bytes.take kept) entries ∧
        s.pool.diskManager.file.LsnsBelow (WalManager.maxLsn entries)

/-- The log carries the entries, and no LSN of a page is above `m`, which is not above the LSNs of
the log unless that is empty, nor above those that were handed out. -/
structure Tracks (s : Database φ) (entries : List WalEntry) (m : UInt64) : Prop where
  carries : Carries s.log.bytes entries
  pages : ∀ entry ∈ entries, entry.pageId.Aligned ∧ entry.pageId.val ≠ 0
  below : Below m s.pool
  logged : entries ≠ [] → m ≤ WalManager.maxLsn entries
  counter : ∀ lsn, s.phase = .running lsn → m ≤ lsn ∧ ∀ entry ∈ entries, entry.lsn ≤ lsn
  fresh : s.phase = .opened → ∃ d capacity w, s.pool = new d capacity w

theorem Tracks.first (faults logFaults : List (Option ℕ)) (capacity : ℕ) (w : Option φ) :
    Tracks (first faults logFaults capacity w) [] 0 where
  carries := Carries.of_frames nofun
  pages := nofun
  below := by
    refine Below.new (fun id _ _ => ?_) capacity w
    show DataFile.lsnAt .empty _ ≤ 0
    rw [DataFile.lsnAt_empty]
    exact UInt64.le_refl 0
  logged hne := absurd rfl hne
  counter lsn hphase := by cases hphase
  fresh _ := ⟨_, capacity, w, rfl⟩

section Flusher

variable [WalFlusher φ] {entries : List WalEntry} {m : UInt64}

/-- **`init`** returns an LSN that is not below those of the pages. -/
theorem Tracks.init (h : Tracks s entries m) (hphase : s.phase = .opened) {order : HashOrder}
    (hcareful : Careful s (.init order)) {r : Except DbError UInt64} {log : LogFile}
    {pool : BufferPool φ}
    (hrun : RecoveryEngine.init order (s.log, s.pool) = some (r, (log, pool))) :
    ∃ entries' m', Tracks ⟨pool, log, .ofInit r⟩ entries' m' ∧ ∀ n, r = .ok n → m' ≤ n := by
  have hcarries : Carries (WalManager.openFile s.log false).file.bytes entries := h.carries
  cases RecoveryEngine.init_outcome hrun with
  | @unread e w hread =>
    refine ⟨entries, m, ⟨?_, h.pages, h.below, h.logged, nofun, nofun⟩, nofun⟩
    show Carries w.file.bytes entries
    rw [WalManager.readBatch_bytes hread]
    exact hcarries
  | @empty w hread =>
    obtain ⟨rfl, hlsn, hshort⟩ := WalManager.readBatch_carries hcarries hread
    -- no entry was read, so that the pages have no LSN
    obtain hlen | hfile := hcareful
    · exact absurd hlen (Nat.not_le_of_lt hshort)
    obtain ⟨d, capacity, w', hpool⟩ := h.fresh hphase
    rw [hpool] at hfile
    refine ⟨[], 0, ⟨?_, nofun, ?_, fun hne => absurd rfl hne, ?_, nofun⟩,
      fun n hn => UInt64.zero_le⟩
    · show Carries w.file.bytes []
      rw [WalManager.readBatch_bytes hread]
      exact hcarries
    · show Below 0 s.pool
      rw [hpool]
      exact .new hfile capacity w'
    · exact fun lsn _ => ⟨UInt64.zero_le, nofun⟩
  | @failed e w batch pool hread hne hreplay =>
    obtain ⟨rfl, -, -⟩ := WalManager.readBatch_carries hcarries hread
    have hbelow := RecoveryEngine.within_replay_below
      (fun entry he => ⟨(h.pages entry he).1, (h.pages entry he).2, WalManager.le_maxLsn he⟩)
      order _ _ _ hreplay (h.below.mono (h.logged hne))
    refine ⟨batch, _, ⟨?_, h.pages, hbelow, fun _ => UInt64.le_refl _, nofun, nofun⟩, nofun⟩
    show Carries w.file.bytes batch
    rw [WalManager.readBatch_bytes hread]
    exact hcarries
  | @replayed w w' batch n r pool hread hne hreplay hwipe =>
    obtain ⟨rfl, -, -⟩ := WalManager.readBatch_carries hcarries hread
    have hbelow := RecoveryEngine.within_replay_below
      (fun entry he => ⟨(h.pages entry he).1, (h.pages entry he).2, WalManager.le_maxLsn he⟩)
      order _ _ _ hreplay (h.below.mono (h.logged hne))
    obtain rfl := RecoveryEngine.replay_maxLsn hreplay
    have hreturned : ∀ n, r.map (fun _ => WalManager.maxLsn batch) = .ok n →
        WalManager.maxLsn batch ≤ n := by
      intro n hn
      cases r with
      | ok => exact UInt64.le_of_eq (Except.ok.inj hn)
      | error e => cases hn
    have hcounter : ∀ lsn, Phase.ofInit (r.map fun _ => WalManager.maxLsn batch) = .running lsn →
        WalManager.maxLsn batch ≤ lsn := by
      intro lsn hlsn
      cases r with
      | ok => exact UInt64.le_of_eq (Phase.running.inj hlsn)
      | error e => cases hlsn
    have hphase' : Phase.ofInit (r.map fun _ => WalManager.maxLsn batch) ≠ .opened := by
      cases r with
      | ok => exact fun heq => by cases heq
      | error e => exact fun heq => by cases heq
    obtain hempty | ⟨hsame, -⟩ := WalManager.wipe_bytes hwipe
    · refine ⟨[], _, ⟨?_, nofun, hbelow, fun hne => absurd rfl hne, ?_,
        fun heq => absurd heq hphase'⟩, hreturned⟩
      · show Carries w'.file.bytes []
        rw [hempty]
        exact Carries.of_frames nofun
      · exact fun lsn hlsn => ⟨hcounter lsn hlsn, nofun⟩
    · refine ⟨batch, _, ⟨?_, h.pages, hbelow, fun _ => UInt64.le_refl _, ?_,
        fun heq => absurd heq hphase'⟩, hreturned⟩
      · show Carries w'.file.bytes batch
        rw [hsame, WalManager.readBatch_bytes hread]
        exact hcarries
      · exact fun lsn hlsn => ⟨hcounter lsn hlsn, fun entry he =>
          UInt64.le_trans (WalManager.le_maxLsn he) (hcounter lsn hlsn)⟩

omit [WalFlusher φ] in
/-- **A batch** is written behind the entries, or a part of it. -/
theorem Tracks.writeBatch (h : Tracks s entries m) {batch : List WalEntry} {lsn : UInt64}
    {w w' : WalManager} {r : Except DbError Unit} (hphase : s.phase = .running lsn)
    (hfile : w.file = s.log) (hlsns : RecoveryEngine.Ascending lsn batch)
    (hpages : ∀ entry ∈ batch, entry.pageId.Aligned ∧ entry.pageId.val ≠ 0)
    (hcareful : Careful s (.writeBatch batch))
    (hrun : WalManager.writeBatch batch w = some (r, w')) :
    ∃ entries',
      Tracks ⟨s.pool, w'.file, .running (RecoveryEngine.lastOf lsn batch)⟩ entries' m := by
  obtain ⟨⟨whole, hwhole, hbytes⟩, hbatch⟩ := hcareful
  obtain rfl : entries = whole := h.carries.unique (hbytes ▸ Carries.of_frames hwhole)
  -- the log takes a prefix of the batch: all of it, unless a fault cuts the write
  obtain ⟨as, hpre, hcarries⟩ := Carries.written hwhole hbatch (w.file.faults.headD none)
  obtain ⟨hm, hold⟩ := h.counter lsn hphase
  have hsub : ∀ entry ∈ as, entry ∈ batch := fun entry he => hpre.subset he
  have hmem : ∀ {P : WalEntry → Prop}, (∀ entry ∈ entries, P entry) → (∀ entry ∈ batch, P entry) →
      ∀ entry ∈ entries ++ as, P entry := by
    intro P hentries hbatch entry he
    rcases List.mem_append.mp he with hmem | hmem
    · exact hentries entry hmem
    · exact hbatch entry (hsub entry hmem)
  have hlast := hlsns.self_le_lastOf
  refine ⟨entries ++ as, ?_, hmem h.pages hpages, h.below, fun hne => ?_, fun lsn' hlsn' => ?_,
    nofun⟩
  · show Carries w'.file.bytes (entries ++ as)
    rw [(WalManager.writeBatch_bytes hrun).1, hfile, hbytes]
    rw [hfile] at hcarries
    exact hcarries
  · by_cases hempty : entries = []
    · -- the log was empty, and every entry of the batch is above the LSNs before
      subst hempty
      obtain ⟨a, ha⟩ := List.exists_mem_of_ne_nil as hne
      calc m ≤ lsn := hm
        _ ≤ a.lsn := UInt64.le_of_lt (hlsns.2 a (hsub a ha))
        _ ≤ WalManager.maxLsn as := WalManager.le_maxLsn ha
    · calc m ≤ WalManager.maxLsn entries := h.logged hempty
        _ ≤ WalManager.maxLsn (entries ++ as) := WalManager.maxLsn_le fun entry he =>
            WalManager.le_maxLsn (List.mem_append_left as he)
  · obtain rfl := Phase.running.inj hlsn'
    exact ⟨UInt64.le_trans hm hlast,
      hmem (fun entry he => UInt64.le_trans (hold entry he) hlast)
        fun entry he => hlsns.le_lastOf he⟩

omit [WalFlusher φ] in
/-- A process at work that has its log and its LSNs as before. -/
theorem Tracks.withPool (h : Tracks s entries m) {lsn : UInt64} (hphase : s.phase = .running lsn)
    {pool : BufferPool φ} (hbelow : Below m pool) : Tracks { s with pool } entries m where
  carries := h.carries
  pages := h.pages
  below := hbelow
  logged := h.logged
  counter := h.counter
  fresh hopened := by
    rw [hphase] at hopened
    cases hopened

/-- **A turn** stamps pages with LSNs of the log only. -/
theorem Tracks.turn (h : Tracks s entries m) {t : Turn φ} {lsn : UInt64}
    {r : Except DbError (Option (PageId × Frame))} {pool : BufferPool φ}
    (hphase : s.phase = .running lsn) (hproper : t.Proper s.pool lsn)
    (hcareful : Careful s (.turn t)) (hrun : t.run s.pool = some (r, pool)) :
    ∃ m', Tracks { s with pool } entries m' := by
  cases t with
  | call c =>
    refine ⟨m, h.withPool hphase ?_⟩
    refine c.below h.below (fun id heq => ?_) (fun isLeaf heq => ?_) hrun
    · subst heq
      exact hproper
    · subst heq
      exact hcareful
  | write frame node =>
    simp only [Turn.run] at hrun
    split at hrun
    · cases hrun
      cases hf : s.pool.frames[frame]? with
      | none =>
        -- there is no such frame
        have hsame : s.pool.frames.set frame node = s.pool.frames :=
          List.set_eq_of_length_le (List.getElem?_eq_none_iff.mp hf)
        exact ⟨m, h.withPool hphase (h.below.of_same rfl hsame rfl)⟩
      | some old =>
        obtain ⟨hup, hhanded⟩ := hproper old hf
        by_cases hle : node.getLastLsn ≤ m
        · exact ⟨m, h.withPool hphase (h.below.withNode hf hup hle)⟩
        obtain ⟨_, hold, heq⟩ | ⟨logged, hcarries, hlogged⟩ := hcareful
        · obtain rfl := Option.some.inj (hf.symm.trans hold)
          rw [heq] at hle
          exact absurd (h.below.frames old (List.mem_of_getElem? hf)) hle
        obtain rfl := h.carries.unique hcarries
        have hne : entries ≠ [] := by
          rintro rfl
          exact hle (UInt64.le_trans hlogged UInt64.zero_le)
        -- the LSN is one of the log
        have hraised : Tracks s entries (WalManager.maxLsn entries) :=
          { h with
            below := h.below.mono (h.logged hne)
            logged := fun _ => UInt64.le_refl _
            counter := fun lsn hlsn =>
              ⟨WalManager.maxLsn_le (h.counter lsn hlsn).2, (h.counter lsn hlsn).2⟩ }
        exact ⟨_, hraised.withPool hphase (hraised.below.withNode hf hup hlogged)⟩
    · cases hrun
  | clone frame =>
    simp only [Turn.run] at hrun
    split at hrun
    · cases hrun
      exact ⟨m, h.withPool hphase (h.below.of_same rfl rfl rfl)⟩
    · cases hrun
  | drop frame =>
    cases hrun
    exact ⟨m, h.withPool hphase (h.below.of_same rfl rfl rfl)⟩
  | relog flusher =>
    cases hrun
    exact ⟨m, h.withPool hphase (h.below.of_same rfl rfl rfl)⟩

/-- **A checkpoint** leaves the pages, and no log or the one there was. -/
theorem Tracks.checkpoint (h : Tracks s entries m) {order : HashOrder} {lsn : UInt64}
    {w w' : WalManager} {r : Except DbError Unit} {pool : BufferPool φ}
    (hphase : s.phase = .running lsn) (hfile : w.file = s.log)
    (hflush : flushAllPages order s.pool = some (.ok (), pool))
    (htruncate : WalManager.truncate w = some (r, w')) :
    ∃ entries', Tracks ⟨pool, w'.file, s.phase⟩ entries' m := by
  have hbelow := within_flushAllPages_below order _ _ _ hflush h.below
  have hopened : s.phase ≠ .opened := by
    rw [hphase]
    exact fun heq => by cases heq
  -- `truncate` empties the log, or fails and leaves it
  obtain hempty | ⟨hsame, -⟩ := WalManager.truncate_bytes htruncate
  · refine ⟨[], ?_, nofun, hbelow, fun hne => absurd rfl hne, fun lsn hlsn => ?_,
      fun heq => absurd heq hopened⟩
    · show Carries w'.file.bytes []
      rw [hempty]
      exact Carries.of_frames nofun
    · exact ⟨(h.counter lsn hlsn).1, nofun⟩
  · refine ⟨entries, ?_, h.pages, hbelow, h.logged, h.counter, fun heq => absurd heq hopened⟩
    show Carries w'.file.bytes entries
    rw [hsame, hfile]
    exact h.carries

omit [WalFlusher φ] in
/-- **A restart** finds the pages in the file, and a part of the log. -/
theorem Tracks.restart (h : Tracks s entries m) {kept synced capacity : ℕ}
    {faults logFaults : List (Option ℕ)} {d : DiskManager} (hcareful : Careful s (.restart kept))
    (w : Option φ) (hopen : DiskManager.openFile s.pool.diskManager.file faults = .ok d) :
    ∃ entries' m', Tracks
      ⟨new d capacity w, ⟨s.log.bytes.take kept, synced, logFaults⟩, .opened⟩ entries' m' := by
  have hfile : d.file = s.pool.diskManager.file := (DiskManager.openFile_ok hopen).1
  obtain hkept | ⟨entries', hcarries, hcovers⟩ := hcareful
  · -- the log is whole, or cut back to entries that cover what the file has
    refine ⟨entries, m, ?_, h.pages, ?_, h.logged, nofun, fun _ => ⟨d, capacity, w, rfl⟩⟩
    · show Carries (s.log.bytes.take kept) entries
      rw [List.take_of_length_le hkept]
      exact h.carries
    · exact .new (hfile ▸ h.below.file) capacity w
  · obtain ⟨kepts, hpre, hcut⟩ := h.carries.cut kept
    obtain rfl := hcut.unique hcarries
    refine ⟨kepts, _, hcut, fun entry he => h.pages entry (hpre.subset he), ?_,
      fun _ => UInt64.le_refl _, nofun, fun _ => ⟨d, capacity, w, rfl⟩⟩
    exact .new (hfile ▸ hcovers) capacity w

/-- **In a careful history the log keeps up with the pages.** -/
theorem Reached.tracks (h : Reached Careful s) : ∃ entries m, Tracks s entries m := by
  -- every step keeps the tracked entries or replaces them
  induction h with
  | first faults logFaults capacity w => exact ⟨[], 0, .first faults logFaults capacity w⟩
  | step _ hcareful hstep ih =>
    obtain ⟨entries, m, htracks⟩ := ih
    cases hstep with
    | init hphase hrun =>
      obtain ⟨entries', m', htracks', -⟩ := htracks.init hphase hcareful hrun
      exact ⟨entries', m', htracks'⟩
    | writeBatch hphase hfile hlsns hpages hrun =>
      obtain ⟨entries', htracks'⟩ := htracks.writeBatch hphase hfile hlsns hpages hcareful hrun
      exact ⟨entries', m, htracks'⟩
    | turn hphase hproper hrun =>
      obtain ⟨m', htracks'⟩ := htracks.turn hphase hproper hcareful hrun
      exact ⟨entries, m', htracks'⟩
    | checkpoint hphase hfile hflush htruncate =>
      obtain ⟨entries', htracks'⟩ := htracks.checkpoint hphase hfile hflush htruncate
      exact ⟨entries', m, htracks'⟩
    | restart w hopen => exact htracks.restart hcareful w hopen

/-- **LSNs do not restart below the data.** -/
theorem init_covers_pages {order : HashOrder} {n : UInt64} (h : Reached Careful s)
    (hcareful : Careful s (.init order)) (hstep : Step s (.init order) s')
    (hok : s'.phase = .running n) {id : PageId} (ha : id.Aligned) (hne : id.val ≠ 0)
    {node : BTreeNode} (hnode : s'.pool.diskManager.file.nodeAt id.val.toNat = some node) :
    node.getLastLsn ≤ n := by
  obtain ⟨entries, m, htracks⟩ := h.tracks
  cases hstep with
  | @init _ r log pool hphase hrun =>
    obtain ⟨entries', m', htracks', hle⟩ := htracks.init hphase hcareful hrun
    have hr : r = .ok n := by
      cases r with
      | ok lsn => rw [Phase.running.inj hok]
      | error e => cases hok
    rw [DataFile.lsnAt_of_nodeAt hnode]
    exact UInt64.le_trans (htracks'.below.file id ha hne) (hle n hr)

end Flusher

/-- The leaf of `oneEntry`, marked dirty with its LSN. -/
def markedLeaf : BTreeNode := (BTreeNode.newEmpty ⟨4096⟩ true).markDirty 5

theorem isSlotted_markedLeaf : markedLeaf.IsSlotted :=
  (BTreeNode.isSlotted_newEmpty ⟨4096⟩ true).markDirty 5

theorem careful_init_empty {log : LogFile} {phase : Phase} (order : HashOrder) :
    Careful ⟨RecoveryEngine.emptyPool, log, phase⟩ (.init order) := by
  refine .inr fun id _ _ => ?_
  show DataFile.lsnAt .empty _ ≤ 0
  rw [DataFile.lsnAt_empty]
  exact UInt64.le_refl 0

/-- The first process makes a page, logs a change and marks the page dirty. -/
theorem exists_marked : ∃ (p : BufferPool Empty) (log : LogFile),
    Reached Careful ⟨p, log, .running 5⟩ ∧ log.faults = [] ∧
      log.bytes = WalEntry.frames [RecoveryEngine.oneEntry] ∧ Serviceable p ∧
      p.Has ⟨4096⟩ markedLeaf.bare := by
  -- start, make a page, log an entry for it, write the marked leaf, drop it
  have hserv : Serviceable RecoveryEngine.emptyPool :=
    .new rfl Nat.one_pos WalFlusher.reliable_none
  have hfresh : Fresh RecoveryEngine.emptyPool :=
    ⟨by decide, by decide, fun id hid => absurd hid (AList.notMem_empty id)⟩
  obtain ⟨f, p₀, hnew, hready, hheld⟩ := hserv.newPage hfresh (by decide) true
  have hcreated := (hserv.wf.newPage hfresh hnew).2.2 _ _ rfl
  have hmem : f ∈ p₀.held := hheld ▸ List.mem_singleton_self f
  have hread : WalManager.readBatch (.openFile ⟨[], 0, []⟩ false) =
      some (.ok [], .openFile ⟨[], 0, []⟩ false) := rfl
  have hrun : RecoveryEngine.init .asListed (⟨[], 0, []⟩, RecoveryEngine.emptyPool) =
      some (.ok 0, (⟨[], 0, []⟩, RecoveryEngine.emptyPool)) := RecoveryEngine.init_empty hread
  have hinit : Reached Careful
      (⟨RecoveryEngine.emptyPool, ⟨[], 0, []⟩, .running 0⟩ : Database Empty) :=
    .step (.first [] [] 1 none) (careful_init_empty .asListed)
      (.init (r := .ok 0) rfl hrun)
  have hmade : Reached Careful (⟨p₀, ⟨[], 0, []⟩, .running 0⟩ : Database Empty) := by
    have hturn : (Turn.call (.newPage true)).run RecoveryEngine.emptyPool =
        some (.ok (some (_, f)), p₀) := Exec.bind_of_ok hnew
    refine .step hinit (c := .turn (.call (.newPage true))) ?_ (.turn rfl trivial hturn)
    exact ⟨by decide, AList.notMem_empty _, DataFile.lsnAt_empty _⟩
  have hlog : WalManager.Logged (WalManager.openFile ⟨[], 0, []⟩ true) [] := ⟨rfl, rfl, nofun⟩
  have hfits : ∀ entry ∈ [RecoveryEngine.oneEntry], entry.Fits := by decide
  obtain ⟨w, hwrite, hlogged⟩ := hlog.writeBatch hfits
  have hwritten : Reached Careful (⟨p₀, w.file, .running 5⟩ : Database Empty) := by
    refine .step hmade (c := .writeBatch [RecoveryEngine.oneEntry]) ?_
      (.writeBatch rfl rfl ⟨List.pairwise_singleton _ _, by decide⟩ (by decide) hwrite)
    exact ⟨⟨[], nofun, rfl⟩, by decide⟩
  have hmarked : Reached Careful
      (⟨p₀.withNode f markedLeaf, w.file, .running 5⟩ : Database Empty) := by
    refine .step hwritten (c := .turn (.write f markedLeaf)) ?_ (.turn rfl ?_ (if_pos hmem))
    · refine .inr ⟨[RecoveryEngine.oneEntry], ?_, UInt64.le_refl 5⟩
      show Carries w.file.bytes _
      rw [hlogged.bytes]
      exact Carries.of_frames (by decide)
    · intro old hold
      obtain rfl := Option.some.inj (hcreated.frame.symm.trans hold)
      exact ⟨UInt64.zero_le, UInt64.le_refl 5⟩
  refine ⟨_, w.file, .step hmarked (c := .turn (.drop f)) trivial (.turn rfl trivial rfl),
    hlogged.noFaults, hlogged.bytes, ?_, ?_⟩
  · exact (hready.withNode f isSlotted_markedLeaf (Nat.le_of_ble_eq_true rfl)).drop hheld
  · have hline := hready.wf.line_withNode hcreated.lookup markedLeaf
    refine ⟨(BTreeNode.isSlotted_bare _).mpr isSlotted_markedLeaf, .inl ⟨f, ?_⟩⟩
    show ((p₀.withNode f markedLeaf).line ⟨4096⟩).cached = _
    exact (congrArg WriteBack.Line.cached hline).trans rfl

/-- Flushing writes the page, and the next process can open the file. -/
theorem exists_flushed {p : BufferPool Empty} (hserv : Serviceable p)
    (hhas : p.Has ⟨4096⟩ markedLeaf.bare) :
    ∃ (p' : BufferPool Empty) (d : DiskManager) (node : BTreeNode),
      flushAllPages .asListed p = some (.ok (), p') ∧
      DiskManager.openFile p'.diskManager.file [] = .ok d ∧ d.faults = [] ∧
      d.file.nodeAt 4096 = some node ∧ node.bare = markedLeaf.bare := by
  obtain ⟨p', hflush⟩ := flushAllPages_returns hserv.wf hserv.noFaults hserv.reliable
    hserv.encodable .asListed
  obtain ⟨-, -, hmoves⟩ := within_flushAllPages _ _ _ _ hflush hserv.wf
  -- the pool is clean then, so the file has the content of the page
  obtain ⟨hclean, hopen⟩ := flushAllPages_ok hserv.wf hflush
  have hhas' := hhas.moves hserv.noFaults (hmoves ⟨4096⟩ (by decide) (by decide))
  obtain ⟨node, hnode, hbare⟩ := hhas'.stored fun f node hl hf => hclean _ f node hl hf
  exact ⟨p', _, node, hflush, hopen [], rfl, hnode, hbare⟩

/-- The database is lost behind a flush of all pages, and the next process replays the log. -/
theorem init_covers_pages_marked : ∃ (s s' : Database Empty) (node : BTreeNode),
    s.log.bytes = WalEntry.frames [RecoveryEngine.oneEntry] ∧
      Step s (.init .asListed) s' ∧ s'.phase = .running 5 ∧
      s'.pool.diskManager.file.nodeAt (⟨4096⟩ : PageId).val.toNat = some node ∧
      node.getLastLsn ≤ 5 := by
  obtain ⟨p, log, hreached, hno, hbytes, hserv, hhas⟩ := exists_marked
  obtain ⟨p₁, d, node, hflush, hopen, hfaults, hnode, hbare⟩ := exists_flushed hserv hhas
  have hturn : (Turn.call (.flushAllPages .asListed)).run p =
      some (.ok none, p₁) := Exec.bind_of_ok hflush
  have hflushed : Reached Careful (⟨p₁, log, .running 5⟩ : Database Empty) :=
    .step hreached (c := .turn (.call (.flushAllPages .asListed))) trivial
      (.turn rfl trivial hturn)
  have hlost : Reached Careful
      (⟨new d 1 none, ⟨log.bytes.take log.bytes.length, 0, []⟩, .opened⟩ : Database Empty) :=
    .step hflushed (c := .restart log.bytes.length) (.inl (Nat.le_refl _)) (.restart none hopen)
  rw [List.take_length] at hlost
  -- the replay skips the entry, which the page has
  have hslotted : node.IsSlotted := isSlotted_markedLeaf.congr hbare.symm
  have hhas₁ : (new d 1 (none : Option Empty)).Has ⟨4096⟩ node.bare := .new hnode hslotted 1 none
  have hserv₁ : Serviceable (new d 1 (none : Option Empty)) :=
    .new hfaults Nat.one_pos WalFlusher.reliable_none
  have hskip : RecoveryEngine.redo node.bare RecoveryEngine.oneEntry = some node.bare := by
    refine RecoveryEngine.redo_skip ?_
    rw [hbare]
    exact UInt64.le_refl 5
  have hfit : node.bare.encodedSize ≤ pageSize := by
    rw [hbare]
    exact Nat.le_of_ble_eq_true rfl
  have hpages : ∀ entry ∈ [RecoveryEngine.oneEntry], entry.pageId.Aligned ∧ entry.pageId.val ≠ 0 ∧
      (new d 1 (none : Option Empty)).Has entry.pageId node.bare := by
    intro entry he
    rw [List.mem_singleton.mp he]
    exact ⟨by decide, by decide, hhas₁⟩
  obtain ⟨m, p₂, hloop, hserv₂⟩ :=
    RecoveryEngine.replayLoop_returns hserv₁ hpages (RecoveryEngine.redoable_single hskip hfit) 0
  obtain ⟨p₃, hreplay, -⟩ := RecoveryEngine.replay_returns hloop hserv₂ .asListed
  obtain rfl : m = 5 := RecoveryEngine.replay_maxLsn hreplay
  obtain ⟨node', hnode', -⟩ := RecoveryEngine.replay_saved hserv₁.wf
    (fun entry he => ⟨(hpages entry he).1, (hpages entry he).2.1⟩) hreplay (by decide) (by decide)
    hhas₁
  -- the log is read, and emptied in the end
  have hlogged : WalManager.Logged (.openFile ⟨log.bytes, 0, []⟩ false)
      [RecoveryEngine.oneEntry] := ⟨rfl, hbytes, by decide⟩
  have hread := hlogged.readBatch
  obtain ⟨w₁, htruncate, hlogged₁⟩ := WalManager.Logged.truncate
    (w := { WalManager.openFile ⟨log.bytes, 0, []⟩ false with
      flushedLsn := WalManager.maxLsn [RecoveryEngine.oneEntry]
      entryCount := 1 }) ⟨rfl, hbytes, by decide⟩
  obtain ⟨w₂, hsync, -⟩ := hlogged₁.syncFile
  have hrun := RecoveryEngine.init_replayed hread (List.cons_ne_nil _ _) hreplay
    ((Exec.bind_of_ok htruncate).trans hsync)
  have hcareful : Careful (⟨new d 1 none, ⟨log.bytes, 0, []⟩, .opened⟩ : Database Empty)
      (.init .asListed) := by
    refine .inl ?_
    show 4 ≤ log.bytes.length
    rw [hbytes]
    decide
  have hstep : Step (⟨new d 1 none, ⟨log.bytes, 0, []⟩, .opened⟩ : Database Empty)
      (.init .asListed) ⟨p₃, w₂.file, .running 5⟩ := .init (r := .ok 5) rfl hrun
  exact ⟨_, _, node', hbytes, hstep, rfl, hnode',
    init_covers_pages hlost hcareful hstep rfl (by decide) (by decide) hnode'⟩

/-- The log of the first process is truncated at a checkpoint, and the next process goes on from
the LSN 0. -/
theorem init_restarts_at_zero :
    ¬ ∀ (s s' : Database Empty) (order : HashOrder) (n : UInt64), Reached (fun _ _ => True) s →
      Step s (.init order) s' → s'.phase = .running n → ∀ id : PageId, id.Aligned → id.val ≠ 0 →
        ∀ node, s'.pool.diskManager.file.nodeAt id.val.toNat = some node →
          node.getLastLsn ≤ n := by
  intro hclaim
  obtain ⟨p, log, hreached, hno, hbytes, hserv, hhas⟩ := exists_marked
  obtain ⟨p₁, d, node, hflush, hopen, hfaults, hnode, hbare⟩ := exists_flushed hserv hhas
  have hany : Reached (fun _ _ => True) (⟨p, log, .running 5⟩ : Database Empty) :=
    hreached.mono fun _ _ _ => trivial
  have hlog : WalManager.Logged (WalManager.openFile log true) [RecoveryEngine.oneEntry] :=
    ⟨hno, hbytes, by decide⟩
  obtain ⟨w, htruncate, hlogged⟩ := hlog.truncate
  -- a checkpoint empties the log, and the crash leaves the page with its LSN
  have hcheckpoint : Reached (fun _ _ => True) (⟨p₁, w.file, .running 5⟩ : Database Empty) :=
    .step hany (c := .checkpoint .asListed) trivial
      (.checkpoint rfl rfl hflush htruncate)
  have hlost : Reached (fun _ _ => True)
      (⟨new d 1 none, ⟨w.file.bytes.take 0, 0, []⟩, .opened⟩ : Database Empty) :=
    .step hcheckpoint (c := .restart 0) trivial (.restart none hopen)
  have hread : WalManager.readBatch (.openFile ⟨[], 0, []⟩ false) =
      some (.ok [], .openFile ⟨[], 0, []⟩ false) := rfl
  have hrun : RecoveryEngine.init .asListed
      (⟨[], 0, []⟩, new d 1 (none : Option Empty)) = some (.ok 0, (⟨[], 0, []⟩, new d 1 none)) :=
    RecoveryEngine.init_empty hread
  have hle := hclaim _ _ _ 0 hlost (.init (r := .ok 0) rfl hrun) rfl ⟨4096⟩ (by decide) (by decide)
    node hnode
  rw [← BTreeNode.getLastLsn_bare, hbare] at hle
  exact absurd hle (by decide)

end Database

end SmolDb
