import SmolDb.Recovery.Replay

/-!
# Redo repeats history

A number of pages are on disk, and a run changes them: every change is an operation on a leaf,
followed by `mark_dirty` with the next LSN, and goes into the log. Between two changes pages are
flushed and evicted as it happens. Then the memory is lost, and recovery is tried, given up at any
point, and tried again. `Updates` and `Attempts` are these two phases.

What holds throughout is `Along`: every page has a content of its history, one to which a prefix of
its entries leads, and so has its image in the file. A replay of the whole log brings all of them to
the end of the run (`replay_repeats`), and has nothing to do when it is run again.
-/

namespace SmolDb

namespace RecoveryEngine

open BufferPool WriteBack

variable {φ : Type} {p p' q q' : BufferPool φ} {id : PageId} {c c₀ : BTreeNode}

/-! ### The two phases -/

/-- A change of the run: the operation of the entry on the leaf, and `mark_dirty`. -/
def perform (entry : WalEntry) : Exec DbError BTreeNode Unit := do
  BTreeNode.asLeaf entry.leafOp.call
  Exec.modify (BTreeNode.markDirty entry.lsn)

/-- The pages are on disk, and there are no I/O errors to come. -/
structure OnDisk (pages : Set PageId) (p : BufferPool φ) : Prop where
  wf : Wf p
  noFaults : p.diskManager.faults = []
  pages : ∀ id ∈ pages, id.Aligned ∧ id.val ≠ 0 ∧ ∃ c, p.Has id c ∧ (p.line id).stored = some c

section Flusher

variable [WalFlusher φ]

/-- A call that changes no page: pages are flushed, or fetched, for which others may be evicted. -/
inductive OwnWork (p : BufferPool φ) : BufferPool φ → Prop
  | flush {id : PageId} {r : Except DbError Unit} {p' : BufferPool φ}
      (h : flushPage id p = some (r, p')) : OwnWork p p'
  | flushAll {order : HashOrder} {r : Except DbError Unit} {p' : BufferPool φ}
      (h : flushAllPages order p = some (r, p')) : OwnWork p p'
  | fetch {id : PageId} {r : Except DbError BTreeNode} {p' : BufferPool φ} (ha : id.Aligned)
      (hne : id.val ≠ 0) (h : onPage id Exec.get p = some (r, p')) : OwnWork p p'

/-- The run: from the pool `p₀` it has got to a pool, and has logged its changes. -/
inductive Updates (pages : Set PageId) (p₀ : BufferPool φ) :
    BufferPool φ → List WalEntry → Prop
  | start : Updates pages p₀ p₀ []
  | own {p p' : BufferPool φ} {log : List WalEntry} (h : Updates pages p₀ p log)
      (hown : OwnWork p p') : Updates pages p₀ p' log
  | change {p p' : BufferPool φ} {log : List WalEntry} {entry : WalEntry}
      (h : Updates pages p₀ p log) (hpage : entry.pageId ∈ pages)
      (hlog : ∀ e ∈ log, e.lsn < entry.lsn)
      (hlsn : ∀ id ∈ pages, ∀ c, p₀.Has id c → c.getLastLsn < entry.lsn)
      (hrun : onPage entry.pageId (perform entry) p = some (.ok (), p')) :
      Updates pages p₀ p' (log ++ [entry])

/-- The memory of the pool `p` was lost, and recovery from the log was tried any number of times:
it has got to a pool, where it is past the entries `done`. -/
inductive Attempts (log : List WalEntry) (p : BufferPool φ) : BufferPool φ → List WalEntry → Prop
  | crash {d : DiskManager} (hopen : DiskManager.openFile p.diskManager.file [] = .ok d)
      (capacity : ℕ) (w : Option φ) : Attempts log p (new d capacity w) []
  | crashAgain {q : BufferPool φ} {done : List WalEntry} {d : DiskManager}
      (h : Attempts log p q done) (hopen : DiskManager.openFile q.diskManager.file [] = .ok d)
      (capacity : ℕ) (w : Option φ) : Attempts log p (new d capacity w) []
  | restart {q : BufferPool φ} {done : List WalEntry} (h : Attempts log p q done) :
      Attempts log p q []
  | own {q q' : BufferPool φ} {done : List WalEntry} (h : Attempts log p q done)
      (hown : OwnWork q q') : Attempts log p q' done
  | redo {q q' : BufferPool φ} {done rest : List WalEntry} {entry : WalEntry}
      (h : Attempts log p q done) (hlog : log = done ++ entry :: rest)
      (hrun : onPage entry.pageId (redoEntry entry) q = some (.ok (), q')) :
      Attempts log p q' (done ++ [entry])
  | fail {q q' : BufferPool φ} {done rest : List WalEntry} {entry : WalEntry} {e : DbError}
      (h : Attempts log p q done) (hlog : log = done ++ entry :: rest)
      (hrun : onPage entry.pageId (redoEntry entry) q = some (.error e, q')) :
      Attempts log p q' done

end Flusher

/-! ### Entries -/

theorem entriesOf_self (entry : WalEntry) : entriesOf [entry] entry.pageId = [entry] := by
  simp [entriesOf]

theorem entriesOf_other {entry : WalEntry} (h : entry.pageId ≠ id) : entriesOf [entry] id = [] := by
  simp [entriesOf, h]

theorem Ascending.entriesOf {lsn : UInt64} {log : List WalEntry} (h : Ascending lsn log)
    (id : PageId) : Ascending lsn (entriesOf log id) :=
  ⟨h.1.filter _, fun entry he => h.2 entry (List.mem_filter.mp he).1⟩

theorem Ascending.concat {lsn : UInt64} {log : List WalEntry} {entry : WalEntry}
    (h : Ascending lsn log) (hlog : ∀ e ∈ log, e.lsn < entry.lsn) (hlsn : lsn < entry.lsn) :
    Ascending lsn (log ++ [entry]) := by
  refine ⟨List.pairwise_append.mpr ⟨h.1, List.pairwise_singleton _ _, ?_⟩, ?_⟩
  · intro a ha b hb
    rw [List.mem_singleton.mp hb]
    exact hlog a ha
  · intro e he
    rcases List.mem_append.mp he with he | he
    · exact h.2 e he
    · rw [List.mem_singleton.mp he]
      exact hlsn

/-- A change that the gate would let through is what redo does. -/
theorem redoEntry_of_perform {entry : WalEntry} {node : BTreeNode}
    (hgt : ¬ entry.lsn ≤ node.getLastLsn) : redoEntry entry node = perform entry node := by
  rw [redoEntry, Exec.bind_of_ok (Exec.get_apply node), if_neg hgt, applyEntry_eq]
  rfl

/-! ### Along the history -/

/-- The content of a page and its image in the file are of the history of the page, whose entries
are `entries`; the content is past the entries `done`. -/
structure Along (p : BufferPool φ) (id : PageId) (c₀ : BTreeNode) (entries done : List WalEntry) :
    Prop where
  content : ∃ as c, done <+: as ∧ as <+: entries ∧ RedoneTo c₀ as c ∧ p.Has id c
  image : ∃ s, (p.line id).stored = some s ∧ ∃ as, as <+: entries ∧ RedoneTo c₀ as s

variable {entries done : List WalEntry}

theorem Along.served (h : Along p id c₀ entries done) (hno : p.diskManager.faults = [])
    (hserved : Served p p' id) : Along p' id c₀ entries done := by
  obtain ⟨as, c, hdone, has, hredone, hhas⟩ := h.content
  refine ⟨⟨as, c, hdone, has, hredone, hserved.has hno hhas⟩, ?_⟩
  exact hserved.image (S := fun s => ∃ as, as <+: entries ∧ RedoneTo c₀ as s) hno hhas
    ⟨as, has, hredone⟩ h.image

/-- After a crash the page has the content of its image. -/
theorem Along.crash (h : Along p id c₀ entries done) (hs : c₀.IsSlotted) {d : DiskManager}
    (hfile : d.file = p.diskManager.file) (capacity : ℕ) (w : Option φ) :
    Along (new d capacity w) id c₀ entries [] := by
  obtain ⟨s, hstored, as, has, hredone⟩ := h.image
  obtain ⟨node, hnode, rfl⟩ := Option.map_eq_some_iff.mp hstored
  rw [← hfile] at hnode
  have hslotted := (BTreeNode.isSlotted_bare node).mp (hredone.slotted hs)
  refine ⟨⟨as, node.bare, List.nil_prefix, has, hredone, .new hnode hslotted capacity w⟩, ?_⟩
  exact ⟨node.bare, congrArg (Option.map BTreeNode.bare) hnode, as, has, hredone⟩

/-- **Redo keeps to the history.** -/
theorem Along.redo {entry : WalEntry} {node node' : BTreeNode}
    (h : Along p id c₀ entries done) (hasc : Ascending c₀.getLastLsn entries)
    (hnext : done ++ [entry] <+: entries) (hno : p.diskManager.faults = [])
    (hwork : WorkedOn p p' id node node')
    (hredo : redoEntry entry node = some (.ok (), node')) :
    Along p' id c₀ entries (done ++ [entry]) := by
  obtain ⟨as, c, hdone, has, hredone, hhas⟩ := h.content
  obtain ⟨n, hn, hhas'⟩ := has_redo hhas hredone.bare hno hwork hredo
  refine ⟨?_, hwork.image (S := fun s => ∃ as, as <+: entries ∧ RedoneTo c₀ as s) hno hhas
    ⟨as, has, hredone⟩ h.image⟩
  -- the page is at the entry or past it, never behind: it has all that was done
  by_cases hlen : as.length ≤ done.length
  · -- the entry is the next one
    obtain rfl := hdone.eq_of_length_le hlen
    exact ⟨_, n.bare, List.prefix_rfl, hnext, hredone.snoc hredone.bare hn, hhas'⟩
  · -- the page is past the entry
    have hpast : done ++ [entry] <+: as := by
      refine List.prefix_of_prefix_length_le hnext has ?_
      rw [List.length_append]
      exact Nat.lt_of_not_le hlen
    have hle : entry.lsn ≤ c.getLastLsn := by
      obtain ⟨bs, rfl⟩ := has
      rw [hredone.getLastLsn hasc.append_left]
      exact hasc.append_left.le_lastOf (hpast.subset (by simp))
    rw [redo_skip hle, Option.some.injEq] at hn
    subst hn
    rw [hredone.bare] at hhas'
    exact ⟨as, c, hpast, has, hredone, hhas'⟩

/-- What has been done is the whole history. -/
theorem Along.latest (h : Along p id c₀ entries entries) :
    ∃ c, RedoneTo c₀ entries c ∧ p.Has id c := by
  obtain ⟨as, c, hdone, has, hredone, hhas⟩ := h.content
  obtain rfl := hdone.eq_of_length_le has.length_le
  exact ⟨c, hredone, hhas⟩

/-- The history grows by a change. -/
theorem Along.grow (h : Along p id c₀ entries done) (more : List WalEntry) :
    Along p id c₀ (entries ++ more) done := by
  obtain ⟨as, c, hdone, has, hredone, hhas⟩ := h.content
  obtain ⟨s, hstored, as', has', hredone'⟩ := h.image
  exact ⟨⟨as, c, hdone, has.trans (List.prefix_append ..), hredone, hhas⟩, s, hstored, as',
    has'.trans (List.prefix_append ..), hredone'⟩

/-- What is true of the pages after any part of any number of attempts. -/
structure Tried (pages : Set PageId) (p₀ q : BufferPool φ) (log done : List WalEntry) : Prop where
  wf : Wf q
  noFaults : q.diskManager.faults = []
  past : done <+: log
  along : ∀ id ∈ pages, ∀ c₀, p₀.Has id c₀ →
    Along q id c₀ (entriesOf log id) (entriesOf done id)

theorem Tried.crash {pages : Set PageId} {p₀ q : BufferPool φ} {log : List WalEntry}
    (halong : ∀ id ∈ pages, ∀ c₀, p₀.Has id c₀ → ∃ done, Along q id c₀ (entriesOf log id) done)
    {d : DiskManager}
    (hopen : DiskManager.openFile q.diskManager.file [] = .ok d) (capacity : ℕ) (w : Option φ) :
    Tried pages p₀ (new d capacity w) log [] := by
  obtain ⟨hfile, hno⟩ := DiskManager.openFile_ok hopen
  refine ⟨.new d capacity w, hno, List.nil_prefix, fun id hid c₀ hhas => ?_⟩
  obtain ⟨done, hdone⟩ := halong id hid c₀ hhas
  exact hdone.crash hhas.slotted hfile capacity w

/-- Wherever recovery was given up, the pages can take all of the log. -/
theorem Tried.redoable {pages : Set PageId} {p₀ q : BufferPool φ} {log done : List WalEntry}
    (h : Tried pages p₀ q log done) (hid : id ∈ pages) (hhas : p₀.Has id c₀)
    (hasc : Ascending c₀.getLastLsn log) (hredo : Redoable c₀ (entriesOf log id)) :
    ∃ c, q.Has id c ∧ Redoable c (entriesOf log id) := by
  obtain ⟨as, c, -, has, hredone, hc⟩ := (h.along id hid c₀ hhas).content
  have hall : Redoable c₀ ([] ++ (entriesOf log id ++ [])) := by
    rwa [List.nil_append, List.append_nil]
  have hnil : RedoneTo c₀ [] c₀ := ⟨c₀, rfl, bare_of_has hhas⟩
  exact ⟨c, hc, hall.onward (bare_of_has hhas) hnil (hasc.entriesOf id) has hredone⟩

section Flusher

variable [WalFlusher φ]

theorem OwnWork.keeps (h : OwnWork p p') (hw : Wf p) :
    Wf p' ∧ (p.diskManager.faults = [] → p'.diskManager.faults = []) ∧
      ∀ id : PageId, id.Aligned → id.val ≠ 0 → Served p p' id := by
  cases h with
  | flush h =>
    obtain ⟨hw', hk, hmoves, -⟩ := hw.flushPage h
    exact ⟨hw', hk.faults, fun id ha hne => (hmoves id ha hne).serves⟩
  | flushAll h =>
    obtain ⟨hw', hk, hmoves⟩ := within_flushAllPages _ _ _ _ h hw
    exact ⟨hw', hk.faults, fun id ha hne => (hmoves id ha hne).serves⟩
  -- a visit that only reads writes back the node it has read
  | @fetch id₀ _ _ ha₀ hne₀ h =>
    obtain ⟨hw', -, hno, -, hother, hpage⟩ := hw.onPage ha₀ hne₀ h
    refine ⟨hw', hno, fun id ha hne => ?_⟩
    by_cases hid : id = id₀
    · subst hid
      obtain ⟨e, -, hserved⟩ | ⟨node, node', hget, hwork⟩ := hpage
      · exact hserved
      · cases hget
        exact hwork.served
    · exact hother id ha hne hid

/-! ### The run -/

/-- What is true of the pages after any part of the run. -/
structure Ran (pages : Set PageId) (p₀ p : BufferPool φ) (log : List WalEntry) : Prop where
  wf : Wf p
  noFaults : p.diskManager.faults = []
  ids : ∀ entry ∈ log, entry.pageId ∈ pages
  ascending : ∀ id ∈ pages, ∀ c₀, p₀.Has id c₀ → Ascending c₀.getLastLsn log
  along : ∀ id ∈ pages, ∀ c₀, p₀.Has id c₀ →
    Along p id c₀ (entriesOf log id) (entriesOf log id)

/-- **Every change adds an entry to the history of its page.** -/
theorem Updates.ran {pages : Set PageId} {p₀ p : BufferPool φ} {log : List WalEntry}
    (h₀ : OnDisk pages p₀) (h : Updates pages p₀ p log) : Ran pages p₀ p log := by
  induction h with
  | start =>
    refine ⟨h₀.wf, h₀.noFaults, nofun, fun _ _ _ _ => ⟨.nil, nofun⟩, fun id hid c₀ hhas => ?_⟩
    obtain ⟨-, -, c, hhas', hstored⟩ := h₀.pages id hid
    obtain rfl := hhas.unique hhas'
    have hnil : RedoneTo c₀ [] c₀ := ⟨c₀, rfl, bare_of_has hhas⟩
    exact ⟨⟨[], c₀, List.prefix_rfl, List.prefix_rfl, hnil, hhas⟩, c₀, hstored, [],
      List.prefix_rfl, hnil⟩
  | own _ hown ih =>
    obtain ⟨hw', hno', hserved⟩ := hown.keeps ih.wf
    refine ⟨hw', hno' ih.noFaults, ih.ids, ih.ascending, fun id hid c₀ hhas => ?_⟩
    obtain ⟨ha, hne, -⟩ := h₀.pages id hid
    exact (ih.along id hid c₀ hhas).served ih.noFaults (hserved id ha hne)
  | @change p p' log entry _ hpage hlog hlsn hrun ih =>
    obtain ⟨ha₀, hne₀, -⟩ := h₀.pages _ hpage
    obtain ⟨hw', -, hno', -, hother, ⟨e, he, -⟩ | ⟨node, node', hperform, hwork⟩⟩ :=
      ih.wf.onPage ha₀ hne₀ hrun
    · cases he
    have hasc : ∀ id ∈ pages, ∀ c₀, p₀.Has id c₀ →
        Ascending c₀.getLastLsn (log ++ [entry]) := fun id hid c₀ hhas =>
      (ih.ascending id hid c₀ hhas).concat hlog (hlsn id hid c₀ hhas)
    refine ⟨hw', hno' ih.noFaults, fun e he => ?_, hasc, fun id hid c₀ hhas => ?_⟩
    · rcases List.mem_append.mp he with he | he
      · exact ih.ids e he
      · rw [List.mem_singleton.mp he]
        exact hpage
    · obtain ⟨ha, hne, -⟩ := h₀.pages id hid
      have halong := (ih.along id hid c₀ hhas).grow (entriesOf [entry] id)
      rw [entriesOf_append]
      by_cases hid₀ : entry.pageId = id
      · subst hid₀
        have hasc' := (hasc _ hid c₀ hhas).entriesOf entry.pageId
        rw [entriesOf_append, entriesOf_self] at hasc'
        rw [entriesOf_self] at halong ⊢
        -- the gate would have let the change through
        obtain ⟨c, hredone, hc⟩ := (ih.along _ hid c₀ hhas).latest
        have hnode := hwork.node ih.noFaults hc
        have hgt : ¬ entry.lsn ≤ node.getLastLsn := by
          have hsame : node.bare = c.bare := hnode.trans hredone.bare.symm
          rw [BTreeNode.getLastLsn_congr hsame, hredone.getLastLsn hasc'.append_left]
          exact UInt64.not_le.mpr (hasc'.lastOf_lt (List.mem_singleton_self entry))
        rw [← redoEntry_of_perform hgt] at hperform
        exact halong.redo hasc' List.prefix_rfl ih.noFaults hwork hperform
      · rw [entriesOf_other hid₀, List.append_nil] at halong ⊢
        exact halong.served ih.noFaults (hother id ha hne fun heq => hid₀ heq.symm)

/-! ### Recovery -/

/-- **No attempt leaves the history**, also when the log goes on behind what the pages have. -/
theorem Attempts.tried_of_along {pages : Set PageId} {p₀ p q : BufferPool φ}
    {log done : List WalEntry} (h₀ : OnDisk pages p₀) (hids : ∀ entry ∈ log, entry.pageId ∈ pages)
    (hascending : ∀ id ∈ pages, ∀ c₀, p₀.Has id c₀ → Ascending c₀.getLastLsn log)
    (halong : ∀ id ∈ pages, ∀ c₀, p₀.Has id c₀ → ∃ done, Along p id c₀ (entriesOf log id) done)
    (h : Attempts log p q done) : Tried pages p₀ q log done := by
  induction h with
  | crash hopen capacity w => exact Tried.crash halong hopen capacity w
  | crashAgain _ hopen capacity w ih =>
    exact Tried.crash (fun id hid c₀ hhas => ⟨_, ih.along id hid c₀ hhas⟩) hopen capacity w
  | restart _ ih =>
    refine ⟨ih.wf, ih.noFaults, List.nil_prefix, fun id hid c₀ hhas => ?_⟩
    obtain ⟨⟨as, c, -, has, hredone, hc⟩, himage⟩ := ih.along id hid c₀ hhas
    exact ⟨⟨as, c, List.nil_prefix, has, hredone, hc⟩, himage⟩
  | own _ hown ih =>
    obtain ⟨hw', hno', hserved⟩ := hown.keeps ih.wf
    refine ⟨hw', hno' ih.noFaults, ih.past, fun id hid c₀ hhas => ?_⟩
    obtain ⟨ha, hne, -⟩ := h₀.pages id hid
    exact (ih.along id hid c₀ hhas).served ih.noFaults (hserved id ha hne)
  -- redoing an entry moves its own page on, and serves the others
  | @redo q q' done rest entry _ hlog hrun ih =>
    have hmem : entry ∈ log := by
      rw [hlog]
      simp
    obtain ⟨ha₀, hne₀, -⟩ := h₀.pages _ (hids entry hmem)
    obtain ⟨hw', -, hno', -, hother, ⟨e, he, -⟩ | ⟨node, node', hredo, hwork⟩⟩ :=
      ih.wf.onPage ha₀ hne₀ hrun
    · cases he
    have hnext : done ++ [entry] <+: log := ⟨rest, by rw [hlog]; simp⟩
    refine ⟨hw', hno' ih.noFaults, hnext, fun id hid c₀ hhas => ?_⟩
    obtain ⟨ha, hne, -⟩ := h₀.pages id hid
    have halong := ih.along id hid c₀ hhas
    rw [entriesOf_append]
    by_cases hid₀ : entry.pageId = id
    · subst hid₀
      have hasc := (hascending _ hid c₀ hhas).entriesOf entry.pageId
      have hprefix : entriesOf (done ++ [entry]) entry.pageId <+: entriesOf log entry.pageId :=
        hnext.filter _
      rw [entriesOf_append, entriesOf_self] at hprefix
      rw [entriesOf_self]
      exact halong.redo hasc hprefix ih.noFaults hwork hredo
    · rw [entriesOf_other hid₀, List.append_nil]
      exact halong.served ih.noFaults (hother id ha hne fun heq => hid₀ heq.symm)
  | @fail q q' done rest entry e _ hlog hrun ih =>
    have hmem : entry ∈ log := by
      rw [hlog]
      simp
    obtain ⟨ha₀, hne₀, -⟩ := h₀.pages _ (hids entry hmem)
    obtain ⟨hw', -, hno', -, hother, hpage⟩ := ih.wf.onPage ha₀ hne₀ hrun
    refine ⟨hw', hno' ih.noFaults, ih.past, fun id hid c₀ hhas => ?_⟩
    obtain ⟨ha, hne, -⟩ := h₀.pages id hid
    have halong := ih.along id hid c₀ hhas
    refine halong.served ih.noFaults ?_
    by_cases hid₀ : id = entry.pageId
    · subst hid₀
      obtain ⟨_, -, hserved⟩ | ⟨node, node', hredo, hwork⟩ := hpage
      · exact hserved
      · -- the entry could not be applied, and the node is as it was
        obtain ⟨as, c, -, -, -, hc⟩ := halong.content
        have hnode : node.IsSlotted := hc.slotted.congr (by
          rw [← hwork.node ih.noFaults hc, BTreeNode.bare_bare])
        rw [redoEntry_error hnode hredo] at hwork
        exact hwork.served
    · exact hother id ha hne hid₀

/-- No attempt leaves the history. -/
theorem Attempts.tried {pages : Set PageId} {p₀ p q : BufferPool φ} {log done : List WalEntry}
    (h₀ : OnDisk pages p₀) (hran : Ran pages p₀ p log) (h : Attempts log p q done) :
    Tried pages p₀ q log done :=
  h.tried_of_along h₀ hran.ids hran.ascending fun id hid c₀ hhas => ⟨_, hran.along id hid c₀ hhas⟩

/-- A replay of the whole log brings a page that is somewhere in its history to the end of it. -/
theorem replay_latest {log as : List WalEntry} {c₁ : BTreeNode} {order : HashOrder} {m : UInt64}
    (hw : Wf q) (hids : ∀ entry ∈ log, entry.pageId.Aligned ∧ entry.pageId.val ≠ 0)
    (ha : id.Aligned) (hne : id.val ≠ 0) (hasc : Ascending c₀.getLastLsn (entriesOf log id))
    (has : as <+: entriesOf log id) (hredone : RedoneTo c₀ as c₁) (hhas : q.Has id c₁)
    (hend : RedoneTo c₀ (entriesOf log id) c) (h : replay order log q = some (.ok m, q')) :
    q'.Has id c ∧ ∃ node, q'.diskManager.file.nodeAt id.val.toNat = some node ∧ node.bare = c := by
  obtain ⟨node, hnode, hreplayed, hhas'⟩ := replay_saved hw hids h ha hne hhas
  obtain ⟨bs, hbs⟩ := has
  rw [← hbs] at hasc hend hreplayed
  -- the entries already in the page are skipped, the others lead to the last content
  obtain rfl := (hredone.again hasc hend).unique hreplayed
  exact ⟨hhas', node, hnode, rfl⟩

/-- **Redo repeats history.** However far the pages had got to disk when the memory was lost, and
however often recovery was given up and tried again, a replay of the whole log that returns `Ok`
leaves every page, in the pool and in the file, with its content at the end of the run and the LSN
of its last change; and so does every replay after it. -/
theorem replay_repeats {pages : Set PageId} {p₀ p q q' : BufferPool φ} {log done : List WalEntry}
    {order : HashOrder} {m : UInt64} (h₀ : OnDisk pages p₀) (hrun : Updates pages p₀ p log)
    (htries : Attempts log p q done) (h : replay order log q = some (.ok m, q')) :
    ∀ id ∈ pages, ∃ c₀ c, p₀.Has id c₀ ∧ p.Has id c ∧
      c.getLastLsn = lastOf c₀.getLastLsn (entriesOf log id) ∧ q'.Has id c ∧
      (∃ node, q'.diskManager.file.nodeAt id.val.toNat = some node ∧ node.bare = c) ∧
      ∀ (order' : HashOrder) (m' : UInt64) (q'' : BufferPool φ),
        replay order' log q' = some (.ok m', q'') → q''.Has id c ∧
          ∃ node, q''.diskManager.file.nodeAt id.val.toNat = some node ∧ node.bare = c := by
  have hran := hrun.ran h₀
  have htried := htries.tried h₀ hran
  intro id hid
  obtain ⟨ha, hne, c₀, hhas₀, -⟩ := h₀.pages id hid
  have hids : ∀ entry ∈ log, entry.pageId.Aligned ∧ entry.pageId.val ≠ 0 := fun entry he => by
    obtain ⟨ha, hne, -⟩ := h₀.pages _ (hran.ids entry he)
    exact ⟨ha, hne⟩
  have hasc := (hran.ascending id hid c₀ hhas₀).entriesOf id
  obtain ⟨c, hend, hhas⟩ := (hran.along id hid c₀ hhas₀).latest
  obtain ⟨as, c₁, -, has, hredone, hhas₁⟩ := (htried.along id hid c₀ hhas₀).content
  -- both replays lead to the latest content, from wherever on the way they start
  obtain ⟨hhas', himage⟩ :=
    replay_latest htried.wf hids ha hne hasc has hredone hhas₁ hend h
  refine ⟨c₀, c, hhas₀, hhas, hend.getLastLsn hasc, hhas', himage, fun order' m' q'' h' => ?_⟩
  exact replay_latest (replay_wf htried.wf hids h) hids ha hne hasc List.prefix_rfl hend hhas' hend
    h'

/-! ### The phases succeed -/

/-- A change succeeds on a page that can take it. -/
theorem perform_returns (h : Serviceable p) {entry : WalEntry} (ha : entry.pageId.Aligned)
    (hne : entry.pageId.val ≠ 0) (hhas : p.Has entry.pageId c) {n : BTreeNode}
    (hgt : c.getLastLsn < entry.lsn) (hn : redo c entry = some n)
    (hfit : n.encodedSize ≤ pageSize) :
    ∃ p', onPage entry.pageId (perform entry) p = some (.ok (), p') ∧ Serviceable p' := by
  refine h.onPage ha hne hhas fun node hnode => ?_
  obtain ⟨node', hnode', hs, hfit'⟩ := redoEntry_returns hhas.slotted hn hfit hnode
  have hlsn : ¬ entry.lsn ≤ node.getLastLsn := by
    rw [← BTreeNode.getLastLsn_bare, hnode]
    exact UInt64.not_le.mpr hgt
  rw [redoEntry_of_perform hlsn] at hnode'
  exact ⟨node', hnode', hs, hfit'⟩

/-- **The next change of a run** succeeds, if its page can take the changes of the run. -/
theorem Updates.change_returns {pages : Set PageId} {p₀ p : BufferPool φ} {log : List WalEntry}
    {entry : WalEntry} (h₀ : OnDisk pages p₀) (h : Updates pages p₀ p log) (hserv : Serviceable p)
    (hpage : entry.pageId ∈ pages)
    (hasc : ∀ id ∈ pages, ∀ c, p₀.Has id c → Ascending c.getLastLsn (log ++ [entry]))
    (hredo : ∀ c, p₀.Has entry.pageId c → Redoable c (entriesOf (log ++ [entry]) entry.pageId)) :
    ∃ p', onPage entry.pageId (perform entry) p = some (.ok (), p') ∧ Serviceable p' ∧
      Updates pages p₀ p' (log ++ [entry]) := by
  obtain ⟨ha, hne, c₀, hhas₀, -⟩ := h₀.pages _ hpage
  obtain ⟨c, hredone, hhas⟩ := ((h.ran h₀).along _ hpage c₀ hhas₀).latest
  have hall := hredo c₀ hhas₀
  rw [entriesOf_append, entriesOf_self] at hall
  obtain ⟨n, hn, hfit, -⟩ := (hall.reach (bare_of_has hhas₀) hredone).2
  have hpast := (hasc _ hpage c₀ hhas₀).entriesOf entry.pageId
  rw [entriesOf_append, entriesOf_self] at hpast
  have hgt : c.getLastLsn < entry.lsn := by
    rw [hredone.getLastLsn hpast.append_left]
    exact hpast.lastOf_lt (List.mem_singleton_self entry)
  obtain ⟨p', hrun, hserv'⟩ := perform_returns hserv ha hne hhas hgt hn hfit
  refine ⟨p', hrun, hserv', .change h hpage (fun e he => ?_) (fun id hid c hc => ?_) hrun⟩
  · exact (hasc _ hpage c₀ hhas₀).lt_of_mem he (List.mem_singleton_self entry)
  · exact (hasc id hid c hc).2 entry (List.mem_append_right log (List.mem_singleton_self entry))

/-- Any number of changes. -/
theorem Updates.changes_return {pages : Set PageId} {p₀ p : BufferPool φ}
    {log : List WalEntry} (h₀ : OnDisk pages p₀) (h : Updates pages p₀ p log)
    (hserv : Serviceable p) (more : List WalEntry) (hpages : ∀ entry ∈ more, entry.pageId ∈ pages)
    (hasc : ∀ id ∈ pages, ∀ c, p₀.Has id c → Ascending c.getLastLsn (log ++ more))
    (hredo : ∀ id ∈ pages, ∀ c, p₀.Has id c → Redoable c (entriesOf (log ++ more) id)) :
    ∃ p', Updates pages p₀ p' (log ++ more) ∧ Serviceable p' := by
  induction more generalizing p log with
  | nil =>
    rw [List.append_nil]
    exact ⟨p, h, hserv⟩
  | cons entry more ih =>
    have hpage := hpages entry (List.mem_cons_self ..)
    rw [List.append_cons] at hasc hredo ⊢
    obtain ⟨p₁, -, hserv₁, h₁⟩ := h.change_returns h₀ hserv hpage
      (fun id hid c hc => (hasc id hid c hc).append_left) fun c hc => by
        have hall := hredo _ hpage c hc
        rw [entriesOf_append] at hall
        exact hall.append_left
    exact ih h₁ hserv₁ (fun e he => hpages e (List.mem_cons_of_mem _ he)) hasc hredo

variable {pages : Set PageId} {p₀ : BufferPool φ} {log done : List WalEntry}

/-- **A replay of the log** succeeds, if the pages can take it. -/
theorem Tried.replay_returns (h : Tried pages p₀ q log done) (h₀ : OnDisk pages p₀)
    (hids : ∀ entry ∈ log, entry.pageId ∈ pages)
    (hasc : ∀ id ∈ pages, ∀ c, p₀.Has id c → Ascending c.getLastLsn log)
    (hredo : ∀ id ∈ pages, ∀ c, p₀.Has id c → Redoable c (entriesOf log id))
    (hserv : Serviceable q) (order : HashOrder) :
    ∃ q', replay order log q = some (.ok (WalManager.maxLsn log), q') ∧ Serviceable q' := by
  have hcontent : ∀ id, ∃ c, (id ∈ pages → q.Has id c) ∧ Redoable c (entriesOf log id) := by
    intro id
    by_cases hid : id ∈ pages
    · obtain ⟨-, -, c₀, hhas, -⟩ := h₀.pages id hid
      obtain ⟨c, hc, hall⟩ := h.redoable hid hhas (hasc id hid c₀ hhas) (hredo id hid c₀ hhas)
      exact ⟨c, fun _ => hc, hall⟩
    · have hnone : entriesOf log id = [] := List.filter_eq_nil_iff.mpr fun entry he heq =>
        hid (of_decide_eq_true heq ▸ hids entry he)
      rw [hnone]
      exact ⟨zeroNode, fun hmem => absurd hmem hid, trivial⟩
  choose content hhas hall using hcontent
  obtain ⟨m, q₁, hloop, hserv₁⟩ := replayLoop_returns hserv (fun entry he => by
    obtain ⟨ha, hne, -⟩ := h₀.pages _ (hids entry he)
    exact ⟨ha, hne, hhas _ (hids entry he)⟩) hall 0
  obtain ⟨q', hreplay, hflush⟩ := RecoveryEngine.replay_returns hloop hserv₁ order
  obtain rfl := replay_maxLsn hreplay
  exact ⟨q', hreplay, within_flushAllPages_serviceable order _ _ _ hflush hserv₁⟩

/-- The next entry is redone. -/
theorem Tried.redo_returns {entry : WalEntry} {rest : List WalEntry}
    (h : Tried pages p₀ q log done) (hlog : log = done ++ entry :: rest) (h₀ : OnDisk pages p₀)
    (hid : entry.pageId ∈ pages)
    (hasc : ∀ id ∈ pages, ∀ c, p₀.Has id c → Ascending c.getLastLsn log)
    (hredo : ∀ id ∈ pages, ∀ c, p₀.Has id c → Redoable c (entriesOf log id))
    (hserv : Serviceable q) :
    ∃ q', onPage entry.pageId (redoEntry entry) q = some (.ok (), q') ∧ Serviceable q' := by
  obtain ⟨ha, hne, c₀, hhas, -⟩ := h₀.pages _ hid
  obtain ⟨as, c, ⟨bs, rfl⟩, has, hredone, hc⟩ := (h.along _ hid c₀ hhas).content
  obtain ⟨c', hc', hall⟩ :=
    h.redoable hid hhas (hasc _ hid c₀ hhas) (hredo _ hid c₀ hhas)
  obtain rfl := hc.unique hc'
  -- the page skips what was redone before
  have hlsn : ∀ e ∈ entriesOf done entry.pageId, e.lsn ≤ c.getLastLsn := by
    intro e he
    have hpast := ((hasc _ hid c₀ hhas).entriesOf entry.pageId).of_initial has
    rw [hredone.getLastLsn hpast]
    exact hpast.le_lastOf (List.mem_append_left bs he)
  have hskipped := RedoneTo.skipped hlsn
  rw [bare_of_has hc] at hskipped
  rw [hlog, entriesOf_append, entriesOf_cons_self rfl] at hall
  obtain ⟨n, hn, hfit, -⟩ := (hall.reach (bare_of_has hc) hskipped).2
  exact hserv.onPage ha hne hc fun node hnode => redoEntry_returns hc.slotted hn hfit hnode

end Flusher

/-- A file with a page in it can be opened. -/
theorem openFile_of_stored {p : BufferPool φ} {id : PageId} {c : BTreeNode}
    (hs : (p.line id).stored = some c) :
    ∃ d, DiskManager.openFile p.diskManager.file [] = .ok d := by
  obtain ⟨image, himage, -⟩ := Option.map_eq_some_iff.mp hs
  have hlen := DataFile.len_of_nodeAt himage
  have hheader : fileHeaderSize ≤ pageSize := by decide
  exact DiskManager.openFile_returns (by omega) []

theorem onDisk_twoPages :
    OnDisk TwoPages.pages (new TwoPages.disk 1 (none : Option Empty)) where
  wf := .new ..
  noFaults := rfl
  pages id hid := by
    obtain ⟨ha, hne⟩ := TwoPages.aligned hid
    exact ⟨ha, hne, _, TwoPages.has hid 1, TwoPages.stored hid 1⟩

/-- Both leaves are changed and flushed, and one is changed again. The memory is lost, recovery is
given up after one entry, and the log is replayed. -/
theorem replay_repeats_twoLeaves : ∃ (p q q' : BufferPool Empty),
    Updates TwoPages.pages (new TwoPages.disk 1 none) p changes ∧ Attempts changes p q [] ∧
      replay .asListed changes q = some (.ok 7, q') ∧ ∀ id ∈ TwoPages.pages, ∃ c node,
        p.Has id c ∧ q'.diskManager.file.nodeAt id.val.toNat = some node ∧ node.bare = c := by
  have hunique : ∀ id ∈ TwoPages.pages, ∀ c,
      (new TwoPages.disk 1 (none : Option Empty)).Has id c →
        c = (BTreeNode.newEmpty id true).bare := fun id hid c hc =>
    hc.unique (TwoPages.has hid 1)
  have hasc : ∀ id ∈ TwoPages.pages, ∀ c,
      (new TwoPages.disk 1 (none : Option Empty)).Has id c → Ascending c.getLastLsn changes := by
    intro id hid c hc
    rw [hunique id hid c hc]
    have hzero : ∀ entry ∈ changes, 0 < entry.lsn := by decide
    exact ⟨by decide, hzero⟩
  have hredo : ∀ id ∈ TwoPages.pages, ∀ c,
      (new TwoPages.disk 1 (none : Option Empty)).Has id c →
        Redoable c (entriesOf changes id) := by
    intro id hid c hc
    rw [hunique id hid c hc]
    exact redoable_changes id
  -- the run, with a flush before its last change
  have hserv := TwoPages.serviceable Nat.one_pos
  have hids := changes_mem
  have hcut : changes = changes.take 2 ++ changes.drop 2 := rfl
  obtain ⟨p₁, h₁, hserv₁⟩ := Updates.start.changes_return onDisk_twoPages hserv (changes.take 2)
    (fun entry he => hids entry (List.mem_of_mem_take he))
    (fun id hid c hc => by
      have hall := hasc id hid c hc
      rw [hcut] at hall
      exact hall.append_left)
    fun id hid c hc => by
      have hall := hredo id hid c hc
      rw [hcut, entriesOf_append] at hall
      exact hall.append_left
  obtain ⟨p₂, hflush⟩ := flushAllPages_returns hserv₁.wf hserv₁.noFaults hserv₁.reliable
    hserv₁.encodable .asListed
  have hserv₂ := within_flushAllPages_serviceable .asListed _ _ _ hflush hserv₁
  obtain ⟨p, h, -⟩ := (h₁.own (.flushAll hflush)).changes_return onDisk_twoPages hserv₂
    (changes.drop 2) (fun entry he => hids entry (List.mem_of_mem_drop he)) hasc hredo
  have hran := h.ran onDisk_twoPages
  -- the crash, and one entry redone before the next
  have hcrash : ∀ {q : BufferPool Empty} {image}, (q.line ⟨4096⟩).stored = some image →
      ∃ d, DiskManager.openFile q.diskManager.file [] = .ok d ∧
        Serviceable (new d 1 (none : Option Empty)) := by
    intro q image hstored
    obtain ⟨d, hopen⟩ := openFile_of_stored hstored
    exact ⟨d, hopen, .new (DiskManager.openFile_ok hopen).2 Nat.one_pos WalFlusher.reliable_none⟩
  obtain ⟨image, hstored, -⟩ :=
    (hran.along _ TwoPages.first_mem _ (TwoPages.has TwoPages.first_mem 1)).image
  obtain ⟨d, hopen, hservd⟩ := hcrash hstored
  have htries : Attempts changes p (new d 1 none) [] := .crash hopen 1 none
  obtain ⟨q₁, hredone, -⟩ := (htries.tried onDisk_twoPages hran).redo_returns
    (show changes = [] ++ _ :: _ from rfl) onDisk_twoPages TwoPages.first_mem hasc hredo hservd
  have htries₁ := htries.redo (show changes = [] ++ _ :: _ from rfl) hredone
  obtain ⟨image', hstored', -⟩ := ((htries₁.tried onDisk_twoPages hran).along _ TwoPages.first_mem _
    (TwoPages.has TwoPages.first_mem 1)).image
  obtain ⟨d', hopen', hservd'⟩ := hcrash hstored'
  have htries₂ : Attempts changes p (new d' 1 none) [] := htries₁.crashAgain hopen' 1 none
  obtain ⟨q', hreplay, -⟩ := (htries₂.tried onDisk_twoPages hran).replay_returns onDisk_twoPages
    hids hasc hredo hservd' .asListed
  refine ⟨p, _, q', h, htries₂, hreplay, fun id hid => ?_⟩
  obtain ⟨-, c, -, hc, -, -, ⟨node, hnode, hbare⟩, -⟩ :=
    replay_repeats onDisk_twoPages h htries₂ hreplay id hid
  exact ⟨c, node, hc, hnode, hbare⟩

end RecoveryEngine

end SmolDb
