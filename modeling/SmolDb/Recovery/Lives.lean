import SmolDb.Recovery.Survival

/-!
# One process after another

A database is changed, checkpointed, lost and recovered, any number of times. What is written into
the log waits there; once a `sync_all` has covered an entry its change is made. A checkpoint flushes
all pages and truncates the log. A crash loses the memory, and of the log any part that no
`sync_all` has covered. The next process tries to recover, is lost at any point, or gives up and
tries again, until a call of `init` returns `Ok`. `Life` is such a history.

The LSNs ascend throughout: this is up to the clients, who have to go on from the greatest LSN they
ever used. A crash that leaves no entry leaves nothing else, because `init` does not truncate a log
without entries, and what is written behind a part of a frame cannot be read (`init_unharmed_iff`).

`Epoch` is the part since the log was emptied last, when all pages were on disk. What comes before
is not in the log any more and does not have to be: the changes of all processes are in the pages
(`init_restores`).
-/

namespace SmolDb

open WalEntry

namespace RecoveryEngine

open BufferPool

variable {φ : Type}

/-! ### The log that `init` leaves -/

/-- **When the next process can go on with the log** that `init` has accepted: what is written into
it from now on is read back, unless `init` found a part of a frame and no entry in front of it. It
takes such a log for an empty one, and does not truncate it. -/
theorem init_unharmed_iff [WalFlusher φ] {p p' : BufferPool φ} {order : HashOrder} {lsn : UInt64}
    {file file' : LogFile} {entries : List WalEntry} (h : Carries file.bytes entries)
    (hinit : init order (file, p) = some (.ok lsn, (file', p'))) (sync : Bool) :
    Unharmed [] (.openFile file' sync) ↔ entries ≠ [] ∨ file.bytes = [] := by
  have hclean : ∀ {f : LogFile}, f.bytes = [] → Unharmed [] (.openFile f sync) := by
    intro f hempty
    have hread : Readable f.bytes [] := hempty ▸ .nil
    exact WalManager.unharmed_of_readable hread (List.Sublist.refl [])
  generalize hr : (.ok lsn : Except DbError UInt64) = r at hinit
  cases init_outcome hinit with
  | unread => cases hr
  | failed => cases hr
  | @empty w hread =>
    -- the log is as it was
    obtain ⟨hnil, -⟩ := WalManager.readBatch_carries h hread
    have hbytes : w.file.bytes = file.bytes := WalManager.readBatch_bytes hread
    obtain ⟨-, x, k, hx, hk, hfile⟩ := h
    rw [← hnil, frames_nil, List.nil_append] at hfile
    constructor
    · intro hunharmed
      by_cases hk0 : k = 0
      · right
        rw [hfile, hk0, List.take_zero]
      · have hstuck := stuck_of_inside hx (Nat.pos_of_ne_zero hk0) hk
        exact absurd hunharmed
          (WalManager.not_unharmed_of_stuck .nil hstuck (hbytes.trans hfile))
    · rintro (hne | hempty)
      · exact absurd hnil.symm hne
      · exact hclean (hbytes.trans hempty)
  | @replayed w w' batch n r' _ hread hne _ hwipe =>
    -- the log was truncated
    obtain ⟨rfl, -⟩ := WalManager.readBatch_carries h hread
    refine ⟨fun _ => .inl hne, fun _ => hclean ?_⟩
    obtain hempty | ⟨-, e, rfl⟩ := WalManager.wipe_bytes hwipe
    · exact hempty
    · cases hr

/-- A crash left one byte of the first frame. -/
theorem init_unharmed_iff_oneByte :
    init .asListed (⟨[29], 0, []⟩, emptyPool) = some (.ok 0, (⟨[29], 0, []⟩, emptyPool)) ∧
      ¬ Unharmed [] (.openFile ⟨[29], 0, []⟩ true) := by
  have hread : WalManager.readBatch (.openFile ⟨[29], 0, []⟩ false) =
      some (.ok [], .openFile ⟨[29], 0, []⟩ false) := rfl
  have hinit : init .asListed (⟨[29], 0, []⟩, emptyPool) =
      some (.ok 0, (⟨[29], 0, []⟩, emptyPool)) := init_empty hread
  have hcarries : Carries (blankEntry.frame.take 1) [] :=
    ⟨nofun, blankEntry, 1, by decide, by decide, rfl⟩
  refine ⟨hinit, fun hunharmed => ?_⟩
  obtain hne | hempty := (init_unharmed_iff hcarries hinit true).mp hunharmed
  · exact hne rfl
  · cases hempty

/-! ### Histories -/

/-- The pool and the log of a process. -/
structure Process (φ : Type) where
  pool : BufferPool φ
  log : WalManager

section Flusher

variable [WalFlusher φ]

/-- The history of a database, from the process `s₀` to the process `s`. The changes `made` were
made, those of the entries `waiting` are in the log only. -/
inductive Life (pages : Set PageId) (s₀ : Process φ) :
    Process φ → List WalEntry → List WalEntry → Prop
  | begin : Life pages s₀ s₀ [] []
  | own {s : Process φ} {made waiting : List WalEntry} {p : BufferPool φ}
      (h : Life pages s₀ s made waiting) (hown : OwnWork s.pool p) :
      Life pages s₀ ⟨p, s.log⟩ made waiting
  | write {s : Process φ} {made waiting batch : List WalEntry} {w : WalManager}
      (h : Life pages s₀ s made waiting)
      (hbatch : ∀ entry ∈ batch, entry.Fits ∧ entry.pageId ∈ pages)
      (hlsns : ∀ id ∈ pages, ∀ c, s₀.pool.Has id c →
        Ascending c.getLastLsn (made ++ (waiting ++ batch)))
      (hrun : WalManager.writeBatch batch s.log = some (.ok (), w)) :
      Life pages s₀ ⟨s.pool, w⟩ made (waiting ++ batch)
  | sync {s : Process φ} {made waiting : List WalEntry} {w : WalManager}
      (h : Life pages s₀ s made waiting)
      (hrun : WalManager.syncFile s.log = some (.ok (), w)) : Life pages s₀ ⟨s.pool, w⟩ made waiting
  | flushUpto {s : Process φ} {made waiting : List WalEntry} {lsn : UInt64} {w : WalManager}
      (h : Life pages s₀ s made waiting)
      (hrun : WalManager.flushUpto lsn s.log = some (.ok (), w)) :
      Life pages s₀ ⟨s.pool, w⟩ made waiting
  | change {s : Process φ} {made waiting : List WalEntry} {entry : WalEntry} {p : BufferPool φ}
      (h : Life pages s₀ s made (entry :: waiting))
      (hsynced : s.log.file.bytes.length ≤ s.log.file.synced + (frames waiting).length)
      (hrun : onPage entry.pageId (perform entry) s.pool = some (.ok (), p)) :
      Life pages s₀ ⟨p, s.log⟩ (made ++ [entry]) waiting
  | checkpoint {s : Process φ} {made : List WalEntry} {order : HashOrder} {p : BufferPool φ}
      {w : WalManager} (h : Life pages s₀ s made [])
      (hflush : flushAllPages order s.pool = some (.ok (), p))
      (htruncate : WalManager.truncate s.log = some (.ok (), w)) : Life pages s₀ ⟨p, w⟩ made []
  | recover {s : Process φ} {made waiting batch done : List WalEntry} {kept : ℕ} {w : WalManager}
      {q p : BufferPool φ} {order : HashOrder} {lsn : UInt64} {file : LogFile}
      (h : Life pages s₀ s made waiting) (hkept : s.log.file.synced ≤ kept)
      (hread : WalManager.readBatch (.openFile (s.log.file.cut kept) false) = some (.ok batch, w))
      (hwhole : batch = [] → (s.log.file.cut kept).bytes = [])
      (htries : Attempts batch s.pool q done)
      (hinit : init order (s.log.file.cut kept, q) = some (.ok lsn, (file, p))) (sync : Bool) :
      Life pages s₀ ⟨p, .openFile file sync⟩ (made ++ waiting.filter (· ∈ batch)) []

/-! ### The log since it was emptied -/

/-- What is true since the log was emptied last. Then the changes `before` had been made, and the
pages were on disk in the pool `p₁`; the changes `since` were made after that. -/
structure Epoch (pages : Set PageId) (s₀ s : Process φ) (made waiting : List WalEntry)
    (p₁ : BufferPool φ) (before since : List WalEntry) : Prop where
  split : made = before ++ since
  onDisk : OnDisk pages p₁
  reached : ∀ id ∈ pages, ∀ c₀, s₀.pool.Has id c₀ →
    ∃ c₁, RedoneTo c₀ (entriesOf before id) c₁ ∧ p₁.Has id c₁
  updates : Updates pages p₁ s.pool since
  logged : s.log.Logged (since ++ waiting)
  synced : (frames since).length ≤ s.log.file.synced
  waits : ∀ entry ∈ waiting, entry.pageId ∈ pages
  ascending : ∀ id ∈ pages, ∀ c₀, s₀.pool.Has id c₀ → Ascending c₀.getLastLsn (made ++ waiting)

variable {pages : Set PageId} {s₀ s : Process φ} {made waiting batch before since : List WalEntry}
  {p p₁ q : BufferPool φ} {w : WalManager} {id : PageId}

/-- The log has only LSNs that no page had when it was emptied. -/
theorem Epoch.ascending_log (h : Epoch pages s₀ s made waiting p₁ before since)
    (h₀ : OnDisk pages s₀.pool) (hid : id ∈ pages) {c₁ : BTreeNode} (hhas : p₁.Has id c₁) :
    Ascending c₁.getLastLsn (since ++ waiting) := by
  obtain ⟨-, -, c₀, hhas₀, -⟩ := h₀.pages id hid
  obtain ⟨c, hredone, hc⟩ := h.reached id hid c₀ hhas₀
  obtain rfl := hc.unique hhas
  have hasc := h.ascending id hid c₀ hhas₀
  rw [h.split, List.append_assoc] at hasc
  refine ⟨(List.pairwise_append.mp hasc.1).2.1, fun entry he => ?_⟩
  -- the page has the LSN of its last entry, which comes before this one
  have hlater : Ascending c₀.getLastLsn (entriesOf before id ++ [entry]) :=
    (hasc.append_left.entriesOf id).concat
      (fun a ha => hasc.lt_of_mem (List.mem_filter.mp ha).1 he)
      (hasc.2 entry (List.mem_append_right _ he))
  rw [hredone.getLastLsn (hasc.append_left.entriesOf id)]
  exact hlater.lastOf_lt (List.mem_singleton_self entry)

theorem Epoch.mem_pages (h : Epoch pages s₀ s made waiting p₁ before since) {entry : WalEntry}
    (he : entry ∈ since ++ waiting) : entry.pageId ∈ pages := by
  rcases List.mem_append.mp he with hmade | hwaits
  · exact (h.updates.ran h.onDisk).ids entry hmade
  · exact h.waits entry hwaits

/-- **What the pages have**: all changes in the pool, the first of them in the file. -/
theorem Epoch.content (h : Epoch pages s₀ s made waiting p₁ before since) (hid : id ∈ pages)
    {c₀ : BTreeNode} (hhas : s₀.pool.Has id c₀) :
    ∃ c, RedoneTo c₀ (entriesOf made id) c ∧ s.pool.Has id c ∧
      ∃ as image, as <+: entriesOf made id ∧ RedoneTo c₀ as image ∧
        (s.pool.line id).stored = some image := by
  obtain ⟨c₁, hredone₁, hhas₁⟩ := h.reached id hid c₀ hhas
  have halong := (h.updates.ran h.onDisk).along id hid c₁ hhas₁
  obtain ⟨c, hredone, hc⟩ := halong.latest
  obtain ⟨image, hstored, as, has, himage⟩ := halong.image
  rw [h.split, entriesOf_append]
  refine ⟨c, redoneTo_append.mpr ⟨c₁, hredone₁, hredone⟩, hc, entriesOf before id ++ as, image, ?_,
    redoneTo_append.mpr ⟨c₁, hredone₁, himage⟩, hstored⟩
  exact (List.prefix_append_right_inj _).mpr has

/-- **A new log.** The log is empty and the pages are on disk. -/
theorem Epoch.emptied {s : Process φ} (hw : Wf s.pool) (hno : s.pool.diskManager.faults = [])
    (hlog : s.log.Logged [])
    (hpages : ∀ id ∈ pages, id.Aligned ∧ id.val ≠ 0 ∧ ∃ c₀, s₀.pool.Has id c₀ ∧
      ∃ c, RedoneTo c₀ (entriesOf made id) c ∧ s.pool.Has id c ∧
        (s.pool.line id).stored = some c)
    (hlsns : ∀ id ∈ pages, ∀ c₀, s₀.pool.Has id c₀ → Ascending c₀.getLastLsn made) :
    Epoch pages s₀ s made [] s.pool made [] where
  split := (List.append_nil made).symm
  onDisk := by
    refine ⟨hw, hno, fun id hid => ?_⟩
    obtain ⟨ha, hne, c₀, -, c, -, hhas, hstored⟩ := hpages id hid
    exact ⟨ha, hne, c, hhas, hstored⟩
  reached id hid c₀ hhas := by
    obtain ⟨-, -, c₀', hhas', c, hredone, hc, -⟩ := hpages id hid
    obtain rfl := hhas.unique hhas'
    exact ⟨c, hredone, hc⟩
  updates := .start
  logged := hlog
  synced := Nat.zero_le _
  waits := nofun
  ascending id hid c₀ hhas := by
    rw [List.append_nil]
    exact hlsns id hid c₀ hhas

/-- A call on the log that leaves the changes that were made in it, and what was synced. -/
theorem Epoch.relogged (h : Epoch pages s₀ s made waiting p₁ before since)
    {waiting' : List WalEntry} (hlogged : w.Logged (since ++ waiting'))
    (hsynced : w.file.synced = s.log.file.synced ∨ w.file.synced = w.file.bytes.length)
    (hwaits : ∀ entry ∈ waiting', entry.pageId ∈ pages)
    (hlsns : ∀ id ∈ pages, ∀ c₀, s₀.pool.Has id c₀ →
      Ascending c₀.getLastLsn (made ++ waiting')) :
    Epoch pages s₀ ⟨s.pool, w⟩ made waiting' p₁ before since where
  __ := h
  updates := h.updates
  logged := hlogged
  synced := by
    rcases hsynced with hsame | hwhole
    · exact h.synced.trans_eq hsame.symm
    · rw [hwhole, hlogged.bytes, frames_append, List.length_append]
      exact Nat.le_add_right ..
  waits := hwaits
  ascending := hlsns

/-- A batch is written. -/
theorem Epoch.write (h : Epoch pages s₀ s made waiting p₁ before since)
    (hbatch : ∀ entry ∈ batch, entry.Fits ∧ entry.pageId ∈ pages)
    (hlsns : ∀ id ∈ pages, ∀ c, s₀.pool.Has id c →
      Ascending c.getLastLsn (made ++ (waiting ++ batch)))
    (hrun : WalManager.writeBatch batch s.log = some (.ok (), w)) :
    Epoch pages s₀ ⟨s.pool, w⟩ made (waiting ++ batch) p₁ before since := by
  obtain ⟨w', hrun', hlogged⟩ := h.logged.writeBatch fun entry he => (hbatch entry he).1
  cases hrun.symm.trans hrun'
  rw [List.append_assoc] at hlogged
  refine h.relogged hlogged ?_ (fun entry he => ?_) hlsns
  · by_cases hne : batch = []
    · subst hne
      cases hrun
      exact .inl rfl
    · cases hrun.symm.trans (WalManager.writeBatch_ok h.logged.noFaults hne)
      show (WalManager.syncedFile _ _).synced = _ ∨ (WalManager.syncedFile _ _).synced = _
      cases s.log.sync with
      | false => exact .inl rfl
      | true => exact .inr rfl
  · rcases List.mem_append.mp he with hold | hnew
    · exact h.waits entry hold
    · exact (hbatch entry hnew).2

/-- The log is synced. -/
theorem Epoch.sync (h : Epoch pages s₀ s made waiting p₁ before since)
    (hrun : WalManager.syncFile s.log = some (.ok (), w)) :
    Epoch pages s₀ ⟨s.pool, w⟩ made waiting p₁ before since := by
  obtain ⟨w', hrun', hlogged⟩ := h.logged.syncFile
  cases hrun.symm.trans hrun'
  cases hrun.symm.trans (WalManager.syncFile_ok h.logged.noFaults)
  exact h.relogged hlogged (.inr rfl) h.waits h.ascending

/-- The log is synced, or nothing happens. -/
theorem Epoch.flushUpto (h : Epoch pages s₀ s made waiting p₁ before since) {lsn : UInt64}
    (hrun : WalManager.flushUpto lsn s.log = some (.ok (), w)) :
    Epoch pages s₀ ⟨s.pool, w⟩ made waiting p₁ before since := by
  obtain ⟨w', hrun', hlogged⟩ := h.logged.flushUpto lsn
  cases hrun.symm.trans hrun'
  refine h.relogged hlogged ?_ h.waits h.ascending
  cases hrun.symm.trans (WalManager.flushUpto_ok h.logged.noFaults lsn)
  split
  · exact .inr rfl
  · exact .inl rfl

/-- **The change of an entry is made**, which a sync has covered. -/
theorem Epoch.change {entry : WalEntry}
    (h : Epoch pages s₀ s made (entry :: waiting) p₁ before since) (h₀ : OnDisk pages s₀.pool)
    (hsynced : s.log.file.bytes.length ≤ s.log.file.synced + (frames waiting).length)
    (hrun : onPage entry.pageId (perform entry) s.pool = some (.ok (), p)) :
    Epoch pages s₀ ⟨p, s.log⟩ (made ++ [entry]) waiting p₁ before (since ++ [entry]) := by
  have hlsn : ∀ id ∈ pages, ∀ c, p₁.Has id c → Ascending c.getLastLsn (since ++ entry :: waiting) :=
    fun id hid c hhas => h.ascending_log h₀ hid hhas
  have hpage := h.waits entry (List.mem_cons_self ..)
  obtain ⟨-, -, c, hc, -⟩ := h.onDisk.pages _ hpage
  refine ⟨by rw [h.split, List.append_assoc], h.onDisk, h.reached, ?_, ?_, ?_,
    fun e he => h.waits e (List.mem_cons_of_mem _ he), fun id hid c₀ hhas => ?_⟩
  · refine .change h.updates hpage (fun e he => ?_) (fun id hid c hhas => ?_) hrun
    · exact (hlsn _ hpage c hc).lt_of_mem he (List.mem_cons_self ..)
    · exact (hlsn id hid c hhas).2 entry (List.mem_append_right _ (List.mem_cons_self ..))
  · rw [List.append_assoc]
    exact h.logged
  · rw [h.logged.bytes, frames_append, frames_cons, ← List.append_assoc, List.length_append]
      at hsynced
    rw [frames_append, frames_cons, frames_nil, List.append_nil]
    exact Nat.le_of_add_le_add_right hsynced
  · rw [List.append_assoc]
    exact h.ascending id hid c₀ hhas

/-- **A checkpoint** leaves the pages on disk. -/
theorem Epoch.checkpoint (h : Epoch pages s₀ s made [] p₁ before since)
    (h₀ : OnDisk pages s₀.pool) {order : HashOrder}
    (hflush : flushAllPages order s.pool = some (.ok (), p))
    (htruncate : WalManager.truncate s.log = some (.ok (), w)) :
    Epoch pages s₀ ⟨p, w⟩ made [] p made [] := by
  obtain ⟨w', htruncate', hlogged⟩ := h.logged.truncate
  cases htruncate.symm.trans htruncate'
  have hran := h.updates.ran h.onDisk
  obtain ⟨hw, hk, hmoves⟩ := within_flushAllPages _ _ _ _ hflush hran.wf
  obtain ⟨hclean, -⟩ := flushAllPages_ok hran.wf hflush
  have hlsns : ∀ id ∈ pages, ∀ c₀, s₀.pool.Has id c₀ → Ascending c₀.getLastLsn made := by
    intro id hid c₀ hhas
    exact (h.ascending id hid c₀ hhas).append_left
  refine .emptied hw (hk.faults hran.noFaults) hlogged (fun id hid => ?_) hlsns
  obtain ⟨ha, hne, c₀, hhas₀, -⟩ := h₀.pages id hid
  obtain ⟨c, hredone, hhas, -⟩ := h.content hid hhas₀
  -- a page that is not dirty is in the file as it is
  have hhas' := hhas.moves hran.noFaults (hmoves id ha hne)
  obtain ⟨node, hnode, rfl⟩ := hhas'.stored fun f node hl hf => hclean id f node hl hf
  exact ⟨ha, hne, c₀, hhas₀, node.bare, hredone, hhas',
    congrArg (Option.map BTreeNode.bare) hnode⟩

/-! ### Recovery -/

/-- **What a crash leaves of the log**: the entries whose changes were made, and the first of those
that wait. -/
theorem Epoch.read (h : Epoch pages s₀ s made waiting p₁ before since) {kept : ℕ}
    (hkept : s.log.file.synced ≤ kept)
    (hread : WalManager.readBatch (.openFile (s.log.file.cut kept) false) = some (.ok batch, w)) :
    ∃ ws, ws <+: waiting ∧ batch = since ++ ws ∧ w.file = s.log.file.cut kept ∧
      w.flushedLsn = WalManager.maxLsn batch := by
  have hfits := h.logged.fits
  obtain ⟨n, rfl⟩ := Nat.exists_eq_add_of_le (h.synced.trans hkept)
  obtain ⟨ws, hws, hcarries⟩ :=
    Carries.of_take (fun entry he => hfits entry (List.mem_append_right since he)) n
  have hbytes : (s.log.file.cut ((frames since).length + n)).bytes =
      frames since ++ (frames waiting).take n := by
    show s.log.file.bytes.take _ = _
    rw [h.logged.bytes, frames_append, List.take_length_add_append]
  have hcut : Carries (s.log.file.cut ((frames since).length + n)).bytes (since ++ ws) := by
    rw [hbytes]
    exact hcarries.prepend fun entry he => hfits entry (List.mem_append_left _ he)
  obtain ⟨rfl, hlsn, hlen⟩ := WalManager.readBatch_carries hcut hread
  refine ⟨ws, hws, rfl, ?_, hlsn⟩
  cases hread.symm.trans (WalManager.readBatch_of_carries rfl hcut hlen)
  rfl

/-- Of the entries that wait, those are read that the log still has. -/
theorem Epoch.filter_read (h : Epoch pages s₀ s made waiting p₁ before since)
    (h₀ : OnDisk pages s₀.pool) {ws : List WalEntry} (hws : ws <+: waiting) :
    waiting.filter (· ∈ since ++ ws) = ws := by
  obtain ⟨rest, rfl⟩ := hws
  have hin : ws.filter (· ∈ since ++ ws) = ws :=
    List.filter_eq_self.mpr fun entry he => decide_eq_true (List.mem_append_right since he)
  have hout : rest.filter (· ∈ since ++ ws) = [] := by
    refine List.filter_eq_nil_iff.mpr fun entry he hmem => ?_
    -- its LSN is above all that come before it
    obtain ⟨-, -, c, hc, -⟩ := h.onDisk.pages _ (h.waits entry (List.mem_append_right _ he))
    have hasc := h.ascending_log h₀ (h.waits entry (List.mem_append_right _ he)) hc
    rw [← List.append_assoc] at hasc
    exact absurd (hasc.lt_of_mem (of_decide_eq_true hmem) he) (UInt64.lt_irrefl _)
  rw [List.filter_append, hin, hout, List.append_nil]

omit [WalFlusher φ] in
/-- What `init` does with a log it has replayed. -/
theorem wipe_ok (hno : w.file.faults = []) :
    ∃ w', (WalManager.truncate >>= fun _ => WalManager.syncFile) w = some (.ok (), w') ∧
      w'.Logged [] := by
  have hno' : (WalManager.syncedFile w.sync w.file.cleared).faults = [] :=
    WalManager.noFaults_syncedFile hno
  refine ⟨_, (Exec.bind_of_ok (WalManager.truncate_ok hno)).trans (WalManager.syncFile_ok hno'), ?_⟩
  exact ⟨hno', WalManager.bytes_syncedFile .., nofun⟩

/-- A replay that meets no fault leaves none behind. -/
theorem replay_noFaults {order : HashOrder} {m : UInt64} (hw : Wf p)
    (hno : p.diskManager.faults = [])
    (hids : ∀ entry ∈ batch, entry.pageId.Aligned ∧ entry.pageId.val ≠ 0)
    (h : replay order batch p = some (.ok m, q)) : q.diskManager.faults = [] := by
  obtain ⟨p', hloop, hflush⟩ := replay_eq_ok h
  obtain ⟨hw', hno', -⟩ := replayLoop_upTo hw hno hids hloop
  obtain ⟨-, hk, -⟩ := within_flushAllPages _ _ _ _ hflush hw'
  exact hk.faults hno'

/-- **A replay of the log finishes the history** of a page that is somewhere in it. -/
theorem replay_finishes {order : HashOrder} {m : UInt64} {c₁ : BTreeNode} {done : List WalEntry}
    (hw : Wf p) (hids : ∀ entry ∈ batch, entry.pageId.Aligned ∧ entry.pageId.val ≠ 0)
    (ha : id.Aligned) (hne : id.val ≠ 0) (hasc : Ascending c₁.getLastLsn (entriesOf batch id))
    (halong : Along p id c₁ (entriesOf batch id) done)
    (h : replay order batch p = some (.ok m, q)) :
    ∃ c, RedoneTo c₁ (entriesOf batch id) c ∧ q.Has id c ∧ (q.line id).stored = some c := by
  obtain ⟨as, c, -, ⟨bs, hbs⟩, hredone, hhas⟩ := halong.content
  obtain ⟨node, hnode, hreplayed, hhas'⟩ := replay_saved hw hids h ha hne hhas
  rw [← hbs] at hasc hreplayed ⊢
  exact ⟨node.bare, hredone.of_again hasc hreplayed, hhas',
    congrArg (Option.map BTreeNode.bare) hnode⟩

/-- What is true of the pages after any attempts. -/
theorem Epoch.tried (h : Epoch pages s₀ s made waiting p₁ before since) (h₀ : OnDisk pages s₀.pool)
    {ws done : List WalEntry} (hws : ws <+: waiting)
    (htries : Attempts (since ++ ws) s.pool q done) :
    Tried pages p₁ q (since ++ ws) done := by
  have hpre : since ++ ws <+: since ++ waiting := (List.prefix_append_right_inj _).mpr hws
  refine htries.tried_of_along h.onDisk (fun entry he => h.mem_pages (hpre.subset he))
    (fun id hid c₁ hhas => (h.ascending_log h₀ hid hhas).of_initial hpre) fun id hid c₁ hhas => ?_
  rw [entriesOf_append]
  exact ⟨_, ((h.updates.ran h.onDisk).along id hid c₁ hhas).grow _⟩

/-- **A recovery** leaves the pages on disk, with the changes that the log still had. -/
theorem Epoch.recover (h : Epoch pages s₀ s made waiting p₁ before since)
    (h₀ : OnDisk pages s₀.pool) {kept : ℕ} {done : List WalEntry} {order : HashOrder}
    {lsn : UInt64} {file : LogFile} (hkept : s.log.file.synced ≤ kept)
    (hread : WalManager.readBatch (.openFile (s.log.file.cut kept) false) = some (.ok batch, w))
    (hwhole : batch = [] → (s.log.file.cut kept).bytes = [])
    (htries : Attempts batch s.pool q done)
    (hinit : init order (s.log.file.cut kept, q) = some (.ok lsn, (file, p))) (sync : Bool) :
    Epoch pages s₀ ⟨p, .openFile file sync⟩ (made ++ waiting.filter (· ∈ batch)) []
      p (made ++ waiting.filter (· ∈ batch)) [] := by
  obtain ⟨ws, hws, rfl, hfile, -⟩ := h.read hkept hread
  rw [h.filter_read h₀ hws]
  have hpre : since ++ ws <+: since ++ waiting := (List.prefix_append_right_inj _).mpr hws
  have hids : ∀ entry ∈ since ++ ws, entry.pageId.Aligned ∧ entry.pageId.val ≠ 0 := fun entry he =>
    have hpage := h.onDisk.pages _ (h.mem_pages (hpre.subset he))
    ⟨hpage.1, hpage.2.1⟩
  have hlsns : ∀ id ∈ pages, ∀ c₀, s₀.pool.Has id c₀ → Ascending c₀.getLastLsn (made ++ ws) :=
    fun id hid c₀ hhas =>
      (h.ascending id hid c₀ hhas).of_initial ((List.prefix_append_right_inj _).mpr hws)
  have htried := h.tried h₀ hws htries
  -- it is enough to look at what came since the log was emptied
  suffices hrecovered : Wf p ∧ p.diskManager.faults = [] ∧
      (WalManager.openFile file sync).Logged [] ∧ ∀ id ∈ pages, ∀ c₁, p₁.Has id c₁ → ∃ c,
        RedoneTo c₁ (entriesOf (since ++ ws) id) c ∧ p.Has id c ∧
          (p.line id).stored = some c by
    obtain ⟨hw, hno, hlog, hpages⟩ := hrecovered
    refine .emptied hw hno hlog (fun id hid => ?_) hlsns
    obtain ⟨ha, hne, c₀, hhas₀, -⟩ := h₀.pages id hid
    obtain ⟨c₁, hredone₁, hhas₁⟩ := h.reached id hid c₀ hhas₀
    obtain ⟨c, hredone, hhas, hstored⟩ := hpages id hid c₁ hhas₁
    refine ⟨ha, hne, c₀, hhas₀, c, ?_, hhas, hstored⟩
    rw [h.split, List.append_assoc, entriesOf_append]
    exact redoneTo_append.mpr ⟨c₁, hredone₁, hredone⟩
  generalize hr : (.ok lsn : Except DbError UInt64) = r at hinit
  cases init_outcome hinit with
  | unread => cases hr
  | failed => cases hr
  | empty hread' =>
    -- there was nothing to replay
    obtain ⟨hnil, rfl⟩ := Prod.mk.inj (Option.some.inj (hread.symm.trans hread'))
    rw [Except.ok.inj hnil] at htried hwhole ⊢
    refine ⟨htried.wf, htried.noFaults, ⟨?_, ?_, nofun⟩, fun id hid c₁ hhas₁ => ?_⟩
    · exact congrArg LogFile.faults hfile
    · exact (congrArg LogFile.bytes hfile).trans (hwhole rfl)
    · obtain ⟨⟨as, c, -, has, hredone, hhas⟩, image, hstored, bs, hbs, himage⟩ :=
        htried.along id hid c₁ hhas₁
      obtain rfl := List.prefix_nil.mp has
      obtain rfl := List.prefix_nil.mp hbs
      obtain rfl := hredone.unique himage
      exact ⟨c, hredone, hhas, hstored⟩
  | @replayed w₁ w₂ batch' n r' p' hread' hne hreplay hwipe =>
    obtain ⟨hsame, rfl⟩ := Prod.mk.inj (Option.some.inj (hread.symm.trans hread'))
    obtain rfl := Except.ok.inj hsame
    obtain ⟨w', hwipe', hlog⟩ := wipe_ok (congrArg LogFile.faults hfile)
    cases hwipe.symm.trans hwipe'
    cases hr
    refine ⟨replay_wf htried.wf hids hreplay,
      replay_noFaults htried.wf htried.noFaults hids hreplay, hlog.openFile sync,
      fun id hid c₁ hhas₁ => ?_⟩
    obtain ⟨ha, hne, -⟩ := h.onDisk.pages id hid
    have hasc := (h.ascending_log h₀ hid hhas₁).of_initial hpre
    exact replay_finishes htried.wf hids ha hne (hasc.entriesOf id) (htried.along id hid c₁ hhas₁)
      hreplay

/-- **The invariant of a life.** -/
theorem Life.epoch (h : Life pages s₀ s made waiting) (h₀ : OnDisk pages s₀.pool)
    (hlog : s₀.log.Logged []) :
    ∃ p₁ before since, Epoch pages s₀ s made waiting p₁ before since := by
  induction h with
  | begin =>
    refine ⟨_, _, _, .emptied h₀.wf h₀.noFaults hlog (fun id hid => ?_)
      fun _ _ _ _ => ⟨.nil, nofun⟩⟩
    obtain ⟨ha, hne, c, hhas, hstored⟩ := h₀.pages id hid
    exact ⟨ha, hne, c, hhas, c, ⟨c, rfl, bare_of_has hhas⟩, hhas, hstored⟩
  | own _ hown ih =>
    obtain ⟨p₁, before, since, h⟩ := ih
    exact ⟨p₁, before, since, { h with updates := h.updates.own hown }⟩
  | write _ hbatch hlsns hrun ih =>
    obtain ⟨p₁, before, since, h⟩ := ih
    exact ⟨p₁, before, since, h.write hbatch hlsns hrun⟩
  | sync _ hrun ih =>
    obtain ⟨p₁, before, since, h⟩ := ih
    exact ⟨p₁, before, since, h.sync hrun⟩
  | flushUpto _ hrun ih =>
    obtain ⟨p₁, before, since, h⟩ := ih
    exact ⟨p₁, before, since, h.flushUpto hrun⟩
  | change _ hsynced hrun ih =>
    obtain ⟨p₁, before, since, h⟩ := ih
    exact ⟨p₁, before, _, h.change h₀ hsynced hrun⟩
  | checkpoint _ hflush htruncate ih =>
    obtain ⟨p₁, before, since, h⟩ := ih
    exact ⟨_, _, _, h.checkpoint h₀ hflush htruncate⟩
  | recover _ hkept hread hwhole htries hinit sync ih =>
    obtain ⟨p₁, before, since, h⟩ := ih
    exact ⟨_, _, _, h.recover h₀ hkept hread hwhole htries hinit sync⟩

/-- **Nothing that was made is lost.** When `init` returns `Ok`, every page is in the pool and in
the file with all changes of all processes before it, in their order, and those of the waiting
entries the log still had; where nothing waited, with the content it had when the memory was
lost. -/
theorem init_restores {kept : ℕ} {done : List WalEntry} {order : HashOrder} {lsn : UInt64}
    {file : LogFile} (h₀ : OnDisk pages s₀.pool) (hlog : s₀.log.Logged [])
    (h : Life pages s₀ s made waiting) (hkept : s.log.file.synced ≤ kept)
    (hread : WalManager.readBatch (.openFile (s.log.file.cut kept) false) = some (.ok batch, w))
    (hwhole : batch = [] → (s.log.file.cut kept).bytes = [])
    (htries : Attempts batch s.pool q done)
    (hinit : init order (s.log.file.cut kept, q) = some (.ok lsn, (file, p))) :
    ∀ id ∈ pages, ∃ c₀ c₁ c, s₀.pool.Has id c₀ ∧ s.pool.Has id c₁ ∧ p.Has id c ∧
      RedoneTo c₀ (entriesOf made id) c₁ ∧
      RedoneTo c₁ (entriesOf (waiting.filter (· ∈ batch)) id) c ∧
      c.getLastLsn = lastOf c₀.getLastLsn (entriesOf (made ++ waiting.filter (· ∈ batch)) id) ∧
      ∃ node, p.diskManager.file.nodeAt id.val.toNat = some node ∧ node.bare = c := by
  intro id hid
  obtain ⟨p₁, before, since, hepoch⟩ := h.epoch h₀ hlog
  have hnext := hepoch.recover h₀ hkept hread hwhole htries hinit false
  obtain ⟨-, -, c₀, hhas₀, -⟩ := h₀.pages id hid
  obtain ⟨c₁, hredone₁, hhas₁, -⟩ := hepoch.content hid hhas₀
  obtain ⟨c, hredone, hhas⟩ := hnext.reached id hid c₀ hhas₀
  -- the pages are on disk
  obtain ⟨-, -, c', hhas', hstored⟩ := hnext.onDisk.pages id hid
  obtain rfl := hhas.unique hhas'
  have hasc := (hnext.ascending id hid c₀ hhas₀).append_left.entriesOf id
  refine ⟨c₀, c₁, c, hhas₀, hhas₁, hhas, hredone₁, ?_, hredone.getLastLsn hasc,
    Option.map_eq_some_iff.mp hstored⟩
  rw [entriesOf_append] at hredone
  obtain ⟨c₁', hredone₁', hredone⟩ := redoneTo_append.mp hredone
  obtain rfl := hredone₁.unique hredone₁'
  exact hredone

/-! ### A life goes on -/

/-- **The pages can take what is in the log**, if they can take everything from the beginning. -/
theorem Epoch.redoable (h : Epoch pages s₀ s made waiting p₁ before since)
    (h₀ : OnDisk pages s₀.pool) (hid : id ∈ pages) {c₁ : BTreeNode} (hhas : p₁.Has id c₁)
    (hredo : ∀ id ∈ pages, ∀ c, s₀.pool.Has id c → Redoable c (entriesOf (made ++ waiting) id)) :
    Redoable c₁ (entriesOf (since ++ waiting) id) := by
  obtain ⟨-, -, c₀, hhas₀, -⟩ := h₀.pages id hid
  obtain ⟨c, hredone, hc⟩ := h.reached id hid c₀ hhas₀
  obtain rfl := hc.unique hhas
  have hall := hredo id hid c₀ hhas₀
  rw [h.split, List.append_assoc, entriesOf_append] at hall
  exact (hall.reach (bare_of_has hhas₀) hredone).2

/-- **Recovery succeeds**, whatever the crash left of the pages and however often it was tried: if
the changes can be made one after the other on pages that have room for them, `init` returns `Ok`
with the greatest LSN of the log, and the pool can be used. -/
theorem init_returns {kept : ℕ} {done : List WalEntry} (h₀ : OnDisk pages s₀.pool)
    (hlog : s₀.log.Logged []) (h : Life pages s₀ s made waiting)
    (hredo : ∀ id ∈ pages, ∀ c, s₀.pool.Has id c → Redoable c (entriesOf (made ++ waiting) id))
    (hkept : s.log.file.synced ≤ kept)
    (hread : WalManager.readBatch (.openFile (s.log.file.cut kept) false) = some (.ok batch, w))
    (htries : Attempts batch s.pool q done) (hserv : Serviceable q) (order : HashOrder) :
    ∃ file p, init order (s.log.file.cut kept, q) =
      some (.ok (WalManager.maxLsn batch), (file, p)) ∧ Serviceable p := by
  obtain ⟨p₁, before, since, hepoch⟩ := h.epoch h₀ hlog
  obtain ⟨ws, hws, rfl, hfile, hflushed⟩ := hepoch.read hkept hread
  have hpre : since ++ ws <+: since ++ waiting := (List.prefix_append_right_inj _).mpr hws
  by_cases hnil : since ++ ws = []
  · rw [hnil] at hread hflushed
    rw [hnil, ← hflushed]
    exact ⟨_, _, init_empty hread, hserv⟩
  · obtain ⟨p, hreplay, hserv'⟩ := (hepoch.tried h₀ hws htries).replay_returns hepoch.onDisk
      (fun entry he => hepoch.mem_pages (hpre.subset he))
      (fun id hid c hc => (hepoch.ascending_log h₀ hid hc).of_initial hpre) (fun id hid c hc => by
        obtain ⟨rest, hrest⟩ := hpre
        have hall := hepoch.redoable h₀ hid hc hredo
        rw [← hrest, entriesOf_append] at hall
        exact hall.append_left) hserv order
    obtain ⟨w', hwipe, -⟩ := wipe_ok (congrArg LogFile.faults hfile)
    exact ⟨_, _, init_replayed hread hnil hreplay hwipe, hserv'⟩

/-- **The changes that wait in the log can be made**, when the log is synced. -/
theorem Life.make_waiting (h₀ : OnDisk pages s₀.pool) (hlog : s₀.log.Logged [])
    (h : Life pages s₀ s made waiting) (hserv : Serviceable s.pool)
    (hsynced : s.log.file.bytes.length ≤ s.log.file.synced)
    (hredo : ∀ id ∈ pages, ∀ c, s₀.pool.Has id c → Redoable c (entriesOf (made ++ waiting) id)) :
    ∃ p, Life pages s₀ ⟨p, s.log⟩ (made ++ waiting) [] ∧ Serviceable p := by
  induction waiting generalizing s made with
  | nil =>
    rw [List.append_nil]
    exact ⟨s.pool, h, hserv⟩
  | cons entry waiting ih =>
    obtain ⟨p₁, before, since, hepoch⟩ := h.epoch h₀ hlog
    have hfirst : since ++ [entry] <+: since ++ entry :: waiting := ⟨waiting, by simp⟩
    obtain ⟨p, hrun, hserv', -⟩ := hepoch.updates.change_returns hepoch.onDisk hserv
      (hepoch.waits entry (List.mem_cons_self ..))
      (fun id hid c hc => (hepoch.ascending_log h₀ hid hc).of_initial hfirst) fun c hc => by
        have hall := hepoch.redoable h₀ (hepoch.waits entry (List.mem_cons_self ..)) hc hredo
        rw [List.append_cons, entriesOf_append] at hall
        exact hall.append_left
    rw [List.append_cons] at hredo ⊢
    have hchanged := h.change (hsynced.trans (Nat.le_add_right ..)) hrun
    exact ih (s := ⟨p, s.log⟩) hchanged hserv' hsynced hredo

/-- **A process can go on**: it writes a batch to the log, syncs it and makes the changes. -/
theorem Life.goes_on (h₀ : OnDisk pages s₀.pool) (hlog : s₀.log.Logged [])
    (h : Life pages s₀ s made []) (hserv : Serviceable s.pool)
    (hbatch : ∀ entry ∈ batch, entry.Fits ∧ entry.pageId ∈ pages)
    (hasc : ∀ id ∈ pages, ∀ c, s₀.pool.Has id c → Ascending c.getLastLsn (made ++ batch))
    (hredo : ∀ id ∈ pages, ∀ c, s₀.pool.Has id c → Redoable c (entriesOf (made ++ batch) id)) :
    ∃ s', Life pages s₀ s' (made ++ batch) [] ∧ Serviceable s'.pool ∧
      s'.log.file.synced = s'.log.file.bytes.length := by
  obtain ⟨p₁, before, since, hepoch⟩ := h.epoch h₀ hlog
  obtain ⟨w, hwrite, hlogged⟩ := hepoch.logged.writeBatch fun entry he => (hbatch entry he).1
  have hsync := WalManager.syncFile_ok hlogged.noFaults
  obtain ⟨p, hlife, hserv'⟩ :=
    ((h.write hbatch hasc hwrite).sync hsync).make_waiting h₀ hlog hserv (Nat.le_refl _) hredo
  exact ⟨_, hlife, hserv', rfl⟩

/-- **The next process can take over**: the memory is lost, `init` returns `Ok`, and all changes
are there. -/
theorem Life.recovers (h₀ : OnDisk pages s₀.pool) (hlog : s₀.log.Logged [])
    (h : Life pages s₀ s made []) (hid : id ∈ pages)
    (hredo : ∀ id ∈ pages, ∀ c, s₀.pool.Has id c → Redoable c (entriesOf made id))
    (hsynced : s.log.file.synced = s.log.file.bytes.length) {capacity : ℕ} (hcap : 0 < capacity)
    {flusher : Option φ} (hflusher : WalFlusher.Reliable flusher) (order : HashOrder)
    (sync : Bool) :
    ∃ batch w q file p,
      WalManager.readBatch (.openFile (s.log.file.cut s.log.file.synced) false) =
        some (.ok batch, w) ∧
      (batch = [] → (s.log.file.cut s.log.file.synced).bytes = []) ∧
      Attempts batch s.pool q [] ∧ Serviceable q ∧
      init order (s.log.file.cut s.log.file.synced, q) =
        some (.ok (WalManager.maxLsn batch), (file, p)) ∧ Serviceable p ∧
      Life pages s₀ ⟨p, .openFile file sync⟩ made [] := by
  obtain ⟨p₁, before, since, hepoch⟩ := h.epoch h₀ hlog
  -- the log has the changes of the epoch
  have hbytes : (s.log.file.cut s.log.file.synced).bytes = frames since := by
    show s.log.file.bytes.take _ = _
    rw [hsynced, List.take_length, hepoch.logged.bytes, List.append_nil]
  have hcut : WalManager.Logged (.openFile (s.log.file.cut s.log.file.synced) false) since :=
    ⟨rfl, hbytes, fun entry he => hepoch.logged.fits entry (List.mem_append_left [] he)⟩
  have hwhole : since = [] → (s.log.file.cut s.log.file.synced).bytes = [] := by
    rintro rfl
    exact hbytes
  obtain ⟨-, -, c₀, hhas₀, -⟩ := h₀.pages id hid
  obtain ⟨-, -, -, -, image, -, -, hstored⟩ := hepoch.content hid hhas₀
  obtain ⟨d, hopen⟩ := openFile_of_stored hstored
  have htries : Attempts since s.pool (new d capacity flusher) [] := .crash hopen capacity flusher
  have hserv : Serviceable (new d capacity flusher) :=
    .new (DiskManager.openFile_ok hopen).2 hcap hflusher
  rw [← List.append_nil made] at hredo
  obtain ⟨file, p, hinit, hserv'⟩ := init_returns h₀ hlog h hredo (Nat.le_refl _) hcut.readBatch
    htries hserv order
  have hnext := h.recover (Nat.le_refl _) hcut.readBatch hwhole htries hinit sync
  rw [List.filter_nil, List.append_nil] at hnext
  exact ⟨_, _, _, file, p, hcut.readBatch, hwhole, htries, hserv, hinit, hserv', hnext⟩

end Flusher

/-- The process that opens the file with two leaves, and a new log. -/
def opened : Process Empty := ⟨new TwoPages.disk 1 none, .openFile .empty true⟩

theorem opened_onDisk : OnDisk TwoPages.pages opened.pool := onDisk_twoPages

theorem opened_logged : opened.log.Logged [] := ⟨rfl, rfl, nofun⟩

/-- It makes some changes, and the process that comes after it makes others. -/
theorem exists_life (as bs : List WalEntry)
    (hfits : ∀ entry ∈ as ++ bs, entry.Fits ∧ entry.pageId ∈ TwoPages.pages)
    (hasc : Ascending 0 (as ++ bs))
    (hredo : ∀ id, Redoable (BTreeNode.newEmpty id true).bare (entriesOf (as ++ bs) id)) :
    ∃ s : Process Empty, Life TwoPages.pages opened s (as ++ bs) [] ∧
      s.log.file.synced = s.log.file.bytes.length := by
  have hasc' : ∀ id ∈ TwoPages.pages, ∀ c, opened.pool.Has id c →
      Ascending c.getLastLsn (as ++ bs) := by
    intro id hid c hc
    rw [hc.unique (TwoPages.has hid 1)]
    exact hasc
  have hredo' : ∀ id ∈ TwoPages.pages, ∀ c, opened.pool.Has id c →
      Redoable c (entriesOf (as ++ bs) id) := by
    intro id hid c hc
    rw [hc.unique (TwoPages.has hid 1)]
    exact hredo id
  have hredoAs : ∀ id ∈ TwoPages.pages, ∀ c, opened.pool.Has id c →
      Redoable c (entriesOf as id) := by
    intro id hid c hc
    have hall := hredo' id hid c hc
    rw [entriesOf_append] at hall
    exact hall.append_left
  obtain ⟨s₁, h₁, -, hsynced₁⟩ := (Life.begin : Life TwoPages.pages opened opened [] []).goes_on
    opened_onDisk opened_logged (TwoPages.serviceable Nat.one_pos)
    (fun entry he => hfits entry (List.mem_append_left bs he))
    (fun id hid c hc => (hasc' id hid c hc).append_left) hredoAs
  obtain ⟨-, -, -, file, p, -, -, -, -, -, hserv, h₂⟩ := h₁.recovers opened_onDisk opened_logged
    TwoPages.first_mem hredoAs hsynced₁ Nat.one_pos WalFlusher.reliable_none .asListed true
  obtain ⟨s, h, -, hsynced⟩ := h₂.goes_on opened_onDisk opened_logged hserv
    (fun entry he => hfits entry (List.mem_append_right as he)) hasc' hredo'
  exact ⟨s, h, hsynced⟩

theorem redoable_opened {id : PageId} {c : BTreeNode} (hid : id ∈ TwoPages.pages)
    (hc : opened.pool.Has id c) : Redoable c (entriesOf changes id) := by
  rw [hc.unique (TwoPages.has hid 1)]
  exact redoable_changes id

/-- Both leaves are changed, one of them again by a second process. -/
theorem exists_changes : ∃ s : Process Empty, Life TwoPages.pages opened s changes [] ∧
    s.log.file.synced = s.log.file.bytes.length :=
  exists_life (changes.take 2) (changes.drop 2)
    (fun entry he => ⟨(by decide : ∀ entry ∈ changes, entry.Fits) entry he, changes_mem entry he⟩)
    ⟨by decide, by decide⟩ redoable_changes

/-- The changes are there again. -/
theorem init_restores_twoLives : ∃ (s : Process Empty) (p q : BufferPool Empty) (file : LogFile)
    (batch : List WalEntry) (lsn : UInt64),
    Life TwoPages.pages opened s changes [] ∧ Attempts batch s.pool q [] ∧
      init .asListed (s.log.file.cut s.log.file.synced, q) = some (.ok lsn, (file, p)) ∧
      ∀ id ∈ TwoPages.pages, ∃ c, s.pool.Has id c ∧ p.Has id c := by
  obtain ⟨s, h, hsynced⟩ := exists_changes
  obtain ⟨batch, w, q, file, p, hread, hwhole, htries, -, hinit, -⟩ :=
    h.recovers opened_onDisk opened_logged TwoPages.first_mem
      (fun id hid c hc => redoable_opened hid hc) hsynced Nat.one_pos WalFlusher.reliable_none
      .asListed true
  refine ⟨s, p, q, file, batch, _, h, htries, hinit, fun id hid => ?_⟩
  obtain ⟨c₀, c, c', -, hc, hc', -, hsame, -⟩ := init_restores opened_onDisk opened_logged h
    (Nat.le_refl _) hread hwhole htries hinit id hid
  obtain rfl : c' = c := hsame.unique ⟨c, rfl, bare_of_has hc⟩
  exact ⟨c', hc, hc'⟩

/-- The recovery of them succeeds. -/
theorem init_returns_twoLives : ∃ (s : Process Empty) (q : BufferPool Empty) (file : LogFile)
    (batch : List WalEntry) (p : BufferPool Empty),
    Life TwoPages.pages opened s changes [] ∧ Attempts batch s.pool q [] ∧
      init .asListed (s.log.file.cut s.log.file.synced, q) =
        some (.ok (WalManager.maxLsn batch), (file, p)) ∧ Serviceable p := by
  obtain ⟨s, h, hsynced⟩ := exists_changes
  obtain ⟨batch, w, q, -, -, hread, -, htries, hserv, -⟩ :=
    h.recovers opened_onDisk opened_logged TwoPages.first_mem
      (fun id hid c hc => redoable_opened hid hc) hsynced Nat.one_pos WalFlusher.reliable_none
      .asListed true
  obtain ⟨file, p, hinit, hserv'⟩ := init_returns opened_onDisk opened_logged h (fun id hid c hc =>
    (List.append_nil changes).symm ▸ redoable_opened hid hc) (Nat.le_refl _) hread htries hserv
    .asListed
  exact ⟨s, q, file, batch, p, h, htries, hinit, hserv'⟩

end RecoveryEngine

end SmolDb
