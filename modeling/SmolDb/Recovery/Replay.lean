import SmolDb.Recovery.Redo
import SmolDb.Wal.Stream

/-!
# Replay through the cache

`replay` runs over a pool: a page is fetched for each of its entries, may be evicted between two of
them and read back, and in the end whatever is dirty is flushed in the order of a hash map. None of
this shows in the result. When replay returns `Ok`, the image of a page is what the rule of the log
makes of its content, entry by entry (`replay_image`).

The invariant of a page is `UpTo`: the page has the content to which its entries so far lead. A page
that `new_page` made and nobody has written is the exception: it may be dropped, and is then read
back as a routing node or not at all. An entry that is not skipped notices this, or makes the page
dirty if it finds it still there. A page whose entries are all skipped is never written, and the
file does not get its content (`replay_plain_iff`).
-/

namespace SmolDb

namespace RecoveryEngine

open BufferPool WriteBack

variable {φ : Type} {p p' : BufferPool φ} {id : PageId} {c : BTreeNode} {saved : Prop}

/-- The page was saved, or one of its entries is not skipped on the content `c`. -/
def Written (c : BTreeNode) (saved : Prop) (entries : List WalEntry) : Prop :=
  saved ∨ ∃ entry ∈ entries, c.getLastLsn < entry.lsn

theorem Written.append {done more : List WalEntry} (h : Written c saved done) :
    Written c saved (done ++ more) := by
  obtain hsaved | ⟨entry, hentry, hlt⟩ := h
  · exact .inl hsaved
  · exact .inr ⟨entry, List.mem_append_left more hentry, hlt⟩

/-- The page is up to the entries `done`: it was written, and has the content they lead to from `c`;
or it was not saved, was never written, and they were all skipped. -/
def UpTo (p : BufferPool φ) (id : PageId) (c : BTreeNode) (saved : Prop)
    (done : List WalEntry) : Prop :=
  (Written c saved done ∧ ∃ c', RedoneTo c done c' ∧ p.Has id c') ∨
    ¬ saved ∧ Unwritten c (p.line id) ∧ ∀ entry ∈ done, entry.lsn ≤ c.getLastLsn

/-- A page that was saved, before the first entry. -/
theorem upTo_of_has (hhas : p.Has id c) (hsaved : saved) : UpTo p id c saved [] := by
  have hnil := RedoneTo.nil c
  rw [bare_of_has hhas] at hnil
  exact .inl ⟨.inl hsaved, c, hnil, hhas⟩

theorem UpTo.served {done : List WalEntry} (h : UpTo p id c saved done)
    (hno : p.diskManager.faults = []) (hserved : Served p p' id) : UpTo p' id c saved done := by
  obtain ⟨hwritten, c', hredone, hhas⟩ | ⟨hunsaved, hun, hskipped⟩ := h
  · exact .inl ⟨hwritten, c', hredone, hserved.has hno hhas⟩
  · exact .inr ⟨hunsaved, Unwritten.serves hserved hun, hskipped⟩

/-- Nothing is applied to a page of zeros. -/
theorem redo_zero {node n : BTreeNode} {entry : WalEntry} (hnode : node.bare = zeroNode.bare)
    (h : redo node entry = some n) : entry.lsn ≤ 0 := by
  obtain ⟨hle, -⟩ | ⟨-, n, happly, -⟩ := redo_eq_some h
  · rwa [BTreeNode.getLastLsn_congr hnode] at hle
  · rw [applyEntry_eq] at happly
    obtain ⟨leaf, leaf', rfl, -, -⟩ | ⟨e, he, -⟩ := BTreeNode.asLeaf_eq_some happly
    · cases hnode
    · cases he

/-- An entry that is applied gives the page its content. -/
theorem has_of_applied {node node' n : BTreeNode} {entry : WalEntry} (hcs : c.IsSlotted)
    (hwork : WorkedOn p p' id node node') (hnode : node.bare = c) (hdirty : node'.isDirty = true)
    (hn : redo node entry = some n) (hbare : n.bare = node'.bare) : p'.Has id n.bare := by
  have hs : node.IsSlotted := hcs.congr (by rw [← hnode, BTreeNode.bare_bare])
  have hover := hwork.overwritten hdirty
  rw [← hbare] at hover
  exact hover.has ((BTreeNode.isSlotted_bare n).mpr (redo_slotted hs hn))

/-- **One entry**, on a page with a content. -/
theorem has_redo {node node' : BTreeNode} {entry : WalEntry} (hhas : p.Has id c)
    (hc : c.bare = c) (hno : p.diskManager.faults = []) (hwork : WorkedOn p p' id node node')
    (hredo : redoEntry entry node = some (.ok (), node')) :
    ∃ n, redo c entry = some n ∧ p'.Has id n.bare := by
  have hnode := hwork.node hno hhas
  have hsame : node.bare = c.bare := hnode.trans hc.symm
  -- the entry was skipped, or applied to the node in the frame, which is the content
  obtain ⟨hle, rfl⟩ | ⟨-, hdirty, n, hn, hbare⟩ := redoEntry_ok hredo
  · rw [BTreeNode.getLastLsn_congr hsame] at hle
    refine ⟨c, redo_skip hle, ?_⟩
    rw [hc]
    exact hwork.served.has hno hhas
  · obtain ⟨n', hn', hbare'⟩ := redo_congr hsame hn
    refine ⟨n', hn', ?_⟩
    rw [← hbare']
    exact has_of_applied hhas.slotted hwork hnode hdirty hn hbare

/-- **One entry.** -/
theorem UpTo.redo {done : List WalEntry} (h : UpTo p id c saved done) (hc : c.bare = c)
    (hcs : c.IsSlotted) (hno : p.diskManager.faults = []) {node node' : BTreeNode}
    {entry : WalEntry} (hwork : WorkedOn p p' id node node')
    (hredo : redoEntry entry node = some (.ok (), node')) :
    UpTo p' id c saved (done ++ [entry]) := by
  -- the page has the entries so far, or is a page that was made and never written
  obtain ⟨hwritten, c', hredone, hhas⟩ | ⟨hunsaved, hun, hskipped⟩ := h
  · obtain ⟨n, hn, hhas'⟩ := has_redo hhas hredone.bare hno hwork hredo
    exact .inl ⟨hwritten.append, n.bare, hredone.snoc hredone.bare hn, hhas'⟩
  · have hskip : entry.lsn ≤ c.getLastLsn → node' = node →
        UpTo p' id c saved (done ++ [entry]) := by
      intro hle heq
      subst heq
      refine .inr ⟨hunsaved, Unwritten.serves hwork.served hun, fun e he => ?_⟩
      rcases List.mem_append.mp he with he | he
      · exact hskipped e he
      · rw [List.mem_singleton.mp he]
        exact hle
    have hworked := hwork
    obtain ⟨v, f, hserves, hcached, hline⟩ := hworked
    obtain ⟨hblank, hcopy⟩ := Unwritten.serves hserves hun
    obtain ⟨-, hmade | hstored⟩ := hcopy _ _ _ hcached
    · -- the page is what it was made as
      have hlsn : node.getLastLsn = c.getLastLsn :=
        BTreeNode.getLastLsn_congr (hmade.trans hc.symm)
      obtain ⟨hle, heq⟩ | ⟨hgt, hdirty, n, hn, hbare⟩ := redoEntry_ok hredo
      · exact hskip (hlsn ▸ hle) heq
      · have hnone := RedoneTo.skipped hskipped
        rw [hc] at hnone
        rw [hlsn] at hgt
        refine .inl ⟨.inr ⟨entry, ?_, UInt64.not_le.mp hgt⟩, n.bare, hnone.snoc hmade hn, ?_⟩
        · exact List.mem_append_right done (List.mem_singleton_self entry)
        · exact has_of_applied hcs hwork hmade hdirty hn hbare
    · -- the page was dropped and read back as zeros
      have hzero : node.bare = zeroNode.bare := by
        have hblank' : (p'.line id).blank := by
          rw [hline]
          exact hblank
        refine stored_of_blank hblank' ?_
        rw [hline]
        exact hstored
      obtain ⟨hle, heq⟩ | ⟨hgt, -, n, hn, -⟩ := redoEntry_ok hredo
      · exact hskip (UInt64.le_trans (redo_zero hzero (redo_skip hle)) UInt64.zero_le) heq
      · exact absurd (redo_zero hzero hn) fun hle => hgt (UInt64.le_trans hle UInt64.zero_le)

section Flusher

variable [WalFlusher φ]

/-- What one round of the loop has done. -/
theorem replayLoop_cons {entry : WalEntry} {batch : List WalEntry} {m m' : UInt64}
    (h : replayLoop (entry :: batch) m p = some (.ok m', p')) :
    ∃ p₁, onPage entry.pageId (redoEntry entry) p = some (.ok (), p₁) ∧
      replayLoop batch (max m entry.lsn) p₁ = some (.ok m', p') := by
  obtain ⟨_, p₁, hpage, hrest⟩ := Exec.bind_eq_ok.mp h
  exact ⟨p₁, hpage, hrest⟩

/-- **The loop.** Every page gets up to its entries. -/
theorem replayLoop_upTo {batch : List WalEntry} (hw : Wf p) (hno : p.diskManager.faults = [])
    (hids : ∀ entry ∈ batch, entry.pageId.Aligned ∧ entry.pageId.val ≠ 0) {m m' : UInt64}
    (h : replayLoop batch m p = some (.ok m', p')) :
    Wf p' ∧ p'.diskManager.faults = [] ∧
      ∀ (id : PageId) (c : BTreeNode) (saved : Prop) (done : List WalEntry), id.Aligned →
        id.val ≠ 0 → c.bare = c → c.IsSlotted → UpTo p id c saved done →
        UpTo p' id c saved (done ++ entriesOf batch id) := by
  -- an entry moves its own page, and serves the others
  induction batch generalizing p m with
  | nil =>
    cases h
    refine ⟨hw, hno, fun id c saved done _ _ _ _ hup => ?_⟩
    rwa [show entriesOf [] id = [] from rfl, List.append_nil]
  | cons entry batch ih =>
    obtain ⟨p₁, hpage, hrest⟩ := replayLoop_cons h
    obtain ⟨ha, hne⟩ := hids entry (List.mem_cons_self ..)
    obtain ⟨hw₁, -, hno₁, -, hother, ⟨e, he, -⟩ | ⟨node, node', hredo, hwork⟩⟩ :=
      hw.onPage ha hne hpage
    · cases he
    obtain ⟨hw', hno', hall⟩ :=
      ih hw₁ (hno₁ hno) (fun e he => hids e (List.mem_cons_of_mem _ he)) hrest
    refine ⟨hw', hno', fun id c saved done ha' hne' hc hcs hup => ?_⟩
    by_cases hid : entry.pageId = id
    · subst hid
      rw [entriesOf_cons_self rfl, List.append_cons]
      exact hall _ c saved _ ha' hne' hc hcs (hup.redo hc hcs hno hwork hredo)
    · rw [entriesOf_cons_of_ne hid]
      exact hall id c saved done ha' hne' hc hcs
        (hup.served hno (hother id ha' hne' fun heq => hid heq.symm))

theorem lifts_replayLoop (batch : List WalEntry) (m : UInt64) (p : BufferPool φ) :
    Exec.Lifts faultless (replayLoop batch m) p := by
  induction batch generalizing m p with
  | nil => exact .pure m p
  | cons entry batch ih =>
    exact (lifts_onPage entry.pageId (redoEntry entry) p).bind fun _ p₁ _ => ih _ p₁

/-- A replay that succeeded met no fault of the disk. -/
theorem lifts_replay (order : HashOrder) (batch : List WalEntry) (p : BufferPool φ) :
    Exec.Lifts faultless (replay order batch) p := by
  refine (lifts_replayLoop batch 0 p).bind fun m p₁ _ => ?_
  refine (lifts_flushAllPages order p₁).bind fun _ p₂ _ => ?_
  exact .pure m p₂

/-- Replay goes through the log and flushes everything. -/
theorem replay_eq_ok {order : HashOrder} {batch : List WalEntry} {m : UInt64}
    (h : replay order batch p = some (.ok m, p')) :
    ∃ p₁, replayLoop batch 0 p = some (.ok m, p₁) ∧
      flushAllPages order p₁ = some (.ok (), p') := by
  obtain ⟨m₁, p₁, hloop, h⟩ := Exec.bind_eq_ok.mp h
  obtain ⟨_, p₂, hflush, hpure⟩ := Exec.bind_eq_ok.mp h
  cases hpure
  exact ⟨p₁, hloop, hflush⟩

/-- **Replay that succeeded brings every page up to its entries**, and leaves the cache clean. -/
theorem replay_ends {order : HashOrder} {batch : List WalEntry} {m : UInt64} (hw : Wf p)
    (hids : ∀ entry ∈ batch, entry.pageId.Aligned ∧ entry.pageId.val ≠ 0)
    (h : replay order batch p = some (.ok m, p')) :
    Clean p' ∧ ∀ (id : PageId) (c : BTreeNode) (saved : Prop), id.Aligned → id.val ≠ 0 →
      c.bare = c → c.IsSlotted → UpTo p id c saved [] →
        UpTo p' id c saved (entriesOf batch id) := by
  obtain ⟨p₁, hloop, hflush⟩ := replay_eq_ok (lifts_replay order batch p m p' h)
  obtain ⟨hw₁, hno₁, hall⟩ := replayLoop_upTo hw.faultless rfl hids hloop
  obtain ⟨-, -, hmoves⟩ := within_flushAllPages order _ _ _ hflush hw₁
  refine ⟨(flushAllPages_ok hw₁ hflush).1, fun id c saved ha hne hc hcs hup => ?_⟩
  exact (hall id c saved [] ha hne hc hcs hup).served hno₁ (hmoves id ha hne).serves

/-- **What replay leaves of a page** that was up to no entry before: the content its entries lead
to, in the pool and in the file, if it was written. -/
theorem replay_upTo {order : HashOrder} {batch : List WalEntry} {m : UInt64} (hw : Wf p)
    (hids : ∀ entry ∈ batch, entry.pageId.Aligned ∧ entry.pageId.val ≠ 0)
    (h : replay order batch p = some (.ok m, p')) (ha : id.Aligned) (hne : id.val ≠ 0)
    (hc : c.bare = c) (hcs : c.IsSlotted) (hup : UpTo p id c saved []) :
    (Written c saved (entriesOf batch id) →
      ∃ node, p'.diskManager.file.nodeAt id.val.toNat = some node ∧
        RedoneTo c (entriesOf batch id) node.bare ∧ p'.Has id node.bare) ∧
    (¬ Written c saved (entriesOf batch id) →
      RedoneTo c (entriesOf batch id) c ∧ (p'.line id).blank) := by
  obtain ⟨hclean, hall⟩ := replay_ends hw hids h
  obtain ⟨hwritten, c', hredone, hhas⟩ | ⟨hunsaved, hun, hskipped⟩ :=
    hall id c saved ha hne hc hcs hup
  · -- what is not dirty any more is in the file
    obtain ⟨node, hnode, rfl⟩ := hhas.stored fun f node hl hf => hclean id f node hl hf
    exact ⟨fun _ => ⟨node, hnode, hredone, hhas⟩, fun hno => absurd hwritten hno⟩
  · refine ⟨fun hwritten => ?_, fun _ => ⟨?_, hun.1⟩⟩
    · obtain hsaved | ⟨entry, hentry, hlt⟩ := hwritten
      · exact absurd hsaved hunsaved
      · exact absurd (hskipped entry hentry) (UInt64.not_le.mpr hlt)
    · have hnone := RedoneTo.skipped hskipped
      rwa [hc] at hnone

/-- A page that was saved. -/
theorem replay_saved {order : HashOrder} {batch : List WalEntry} {m : UInt64} (hw : Wf p)
    (hids : ∀ entry ∈ batch, entry.pageId.Aligned ∧ entry.pageId.val ≠ 0)
    (h : replay order batch p = some (.ok m, p')) (ha : id.Aligned) (hne : id.val ≠ 0)
    (hhas : p.Has id c) :
    ∃ node, p'.diskManager.file.nodeAt id.val.toNat = some node ∧
      RedoneTo c (entriesOf batch id) node.bare ∧ p'.Has id node.bare := by
  have hup : UpTo p id c True [] := upTo_of_has hhas trivial
  exact (replay_upTo hw hids h ha hne (bare_of_has hhas) hhas.slotted hup).1 (.inl trivial)

theorem replay_wf {order : HashOrder} {batch : List WalEntry} {m : UInt64} (hw : Wf p)
    (hids : ∀ entry ∈ batch, entry.pageId.Aligned ∧ entry.pageId.val ≠ 0)
    (h : replay order batch p = some (.ok m, p')) : Wf p' := by
  obtain ⟨p₁, hloop, hflush⟩ := replay_eq_ok (lifts_replay order batch p m p' h)
  obtain ⟨hw₁, -⟩ := replayLoop_upTo hw.faultless rfl hids hloop
  obtain ⟨hw', -⟩ := within_flushAllPages order _ _ _ hflush hw₁
  exact ⟨hw'.replacer, hw'.bounded, hw'.framed, hw'.inj, hw'.held, hw'.aligned⟩

theorem replay_maxLsn {order : HashOrder} {batch : List WalEntry} {m : UInt64}
    (h : replay order batch p = some (.ok m, p')) : m = WalManager.maxLsn batch := by
  obtain ⟨p₁, hloop, -⟩ := replay_eq_ok h
  -- the loop carries the greatest LSN so far, also for the entries it skips
  have hmax : ∀ {batch : List WalEntry} {k m : UInt64} {p p₁ : BufferPool φ},
      replayLoop batch k p = some (.ok m, p₁) →
        m = batch.foldl (fun maxLsn entry => max maxLsn entry.lsn) k := by
    intro batch
    induction batch with
    | nil =>
      intro k m p p₁ h
      cases h
      rfl
    | cons entry batch ih =>
      intro k m p p₁ h
      obtain ⟨p₂, -, hrest⟩ := replayLoop_cons h
      exact ih hrest
  exact hmax hloop

theorem replayLoop_step {entry : WalEntry} {p₁ : BufferPool φ}
    (h : onPage entry.pageId (redoEntry entry) p = some (.ok (), p₁)) (batch : List WalEntry)
    (m : UInt64) :
    replayLoop (entry :: batch) m p = replayLoop batch (max m entry.lsn) p₁ :=
  Exec.bind_of_ok h

/-- **The loop succeeds** on a pool that serves requests, when the entries of every page can be
redone. -/
theorem replayLoop_returns {batch : List WalEntry} (h : Serviceable p)
    {content : PageId → BTreeNode}
    (hpages : ∀ entry ∈ batch, entry.pageId.Aligned ∧ entry.pageId.val ≠ 0 ∧
      p.Has entry.pageId (content entry.pageId))
    (hredo : ∀ id, Redoable (content id) (entriesOf batch id)) (m : UInt64) :
    ∃ m' p', replayLoop batch m p = some (.ok m', p') ∧ Serviceable p' := by
  induction batch generalizing p content m with
  | nil => exact ⟨m, p, rfl, h⟩
  | cons entry batch ih =>
    obtain ⟨ha, hne, hhas⟩ := hpages entry (List.mem_cons_self ..)
    have hfirst := hredo entry.pageId
    rw [entriesOf_cons_self rfl] at hfirst
    obtain ⟨n, hn, hfit, hrest⟩ := hfirst
    obtain ⟨p₁, hrun, hserv⟩ := h.onPage ha hne hhas fun node hnode =>
      redoEntry_returns hhas.slotted hn hfit hnode
    obtain ⟨-, -, -, -, hother, ⟨e, he, -⟩ | ⟨node, node', hnode', hwork⟩⟩ :=
      h.wf.onPage ha hne hrun
    · cases he
    have hpages' : ∀ e ∈ batch, e.pageId.Aligned ∧ e.pageId.val ≠ 0 ∧
        p₁.Has e.pageId (Function.update content entry.pageId n.bare e.pageId) := by
      intro e he
      obtain ⟨ha', hne', hhas'⟩ := hpages e (List.mem_cons_of_mem _ he)
      refine ⟨ha', hne', ?_⟩
      by_cases hid : e.pageId = entry.pageId
      · -- the page has the content it was redone to
        rw [hid, Function.update_self]
        obtain ⟨n', hn', hhas₁⟩ := has_redo hhas (bare_of_has hhas) h.noFaults hwork hnode'
        rw [hn, Option.some.injEq] at hn'
        exact hn' ▸ hhas₁
      · rw [Function.update_of_ne hid]
        exact (hother e.pageId ha' hne' hid).has h.noFaults hhas'
    -- the rest of the entries of the page can be redone on what it has now
    have hredo' : ∀ id, Redoable (Function.update content entry.pageId n.bare id)
        (entriesOf batch id) := by
      intro id
      by_cases hid : id = entry.pageId
      · subst hid
        rw [Function.update_self]
        exact hrest
      · rw [Function.update_of_ne hid]
        have hsame := hredo id
        rwa [entriesOf_cons_of_ne (Ne.symm hid)] at hsame
    obtain ⟨m', p', hloop, hserv'⟩ := ih hserv hpages' hredo' (max m entry.lsn)
    exact ⟨m', p', (replayLoop_step hrun batch m).trans hloop, hserv'⟩

/-- **Replay succeeds** when its loop does. -/
theorem replay_returns {batch : List WalEntry} {p₁ : BufferPool φ} {m : UInt64}
    (hloop : replayLoop batch 0 p = some (.ok m, p₁)) (h : Serviceable p₁) (order : HashOrder) :
    ∃ p', replay order batch p = some (.ok m, p') ∧
      flushAllPages order p₁ = some (.ok (), p') := by
  obtain ⟨p', hflush⟩ := flushAllPages_returns h.wf h.noFaults h.reliable h.encodable order
  exact ⟨p', (Exec.bind_of_ok hloop).trans (Exec.bind_of_ok hflush), hflush⟩

end Flusher

/-- An insertion into the leaf. -/
abbrev oneEntry : WalEntry := ⟨.insert, 5, ⟨4096⟩, 7, [1]⟩

/-- A log of one entry can be redone when the entry can. -/
theorem redoable_single {entry : WalEntry} {n : BTreeNode} (hn : redo c entry = some n)
    (hfit : n.encodedSize ≤ pageSize) (id : PageId) : Redoable c (entriesOf [entry] id) := by
  unfold entriesOf
  rw [List.filter_singleton]
  generalize decide (entry.pageId = id) = named
  cases named with
  | true => exact ⟨n, hn, hfit, trivial⟩
  | false => trivial

/-- Changes of two leaves, by turns. -/
abbrev changes : List WalEntry :=
  [⟨.insert, 5, ⟨4096⟩, 7, [1]⟩, ⟨.insert, 6, ⟨8192⟩, 8, [2]⟩, ⟨.update, 7, ⟨4096⟩, 7, [3]⟩]

theorem changes_mem : ∀ entry ∈ changes, entry.pageId ∈ TwoPages.pages := by
  intro entry hentry
  rcases List.mem_cons.mp hentry with rfl | hentry
  · exact TwoPages.first_mem
  rcases List.mem_cons.mp hentry with rfl | hentry
  · exact TwoPages.second_mem
  · rw [List.mem_singleton.mp hentry]
    exact TwoPages.first_mem

/-- Both leaves can take their changes. -/
theorem redoable_changes (id : PageId) :
    Redoable (BTreeNode.newEmpty id true).bare (entriesOf changes id) := by
  by_cases hid : id ∈ TwoPages.pages
  · obtain rfl | rfl := hid
    · exact ⟨_, rfl, Nat.le_of_ble_eq_true rfl, _, rfl, Nat.le_of_ble_eq_true rfl, trivial⟩
    · exact ⟨_, rfl, Nat.le_of_ble_eq_true rfl, trivial⟩
  · have hnone : entriesOf changes id = [] := List.filter_eq_nil_iff.mpr fun entry he heq =>
      hid (of_decide_eq_true heq ▸ changes_mem entry he)
    rw [hnone]
    trivial

/-- The pool over an empty file. -/
abbrev emptyPool : BufferPool Empty := new ⟨DataFile.empty, FileHeader.default, []⟩ 1 none

end RecoveryEngine

end SmolDb
