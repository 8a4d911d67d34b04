import SmolDb.Pool.Reopen

/-!
# Work on one page

`onPage id x` fetches a page, runs `x` on the node in its frame under the write guard, and drops
the frame on every way out. This is the shape of every change a client makes to a single page.

`Wf.onPage` says what has become of the pages: the page was served and its node replaced by what
`x` left behind, and every other page was only served. The rest of the module is about the faults
of the disk. A call that returned `Ok` met none of them, so it does on a disk without faults what
it did (`Exec.Lifts`): for calls that succeeded nothing is lost by looking at such disks only.
-/

namespace SmolDb

open WriteBack

namespace BufferPool

variable {φ α β : Type} {p p' : BufferPool φ}

/-- Work on the node in a frame, in place, under the write guard. -/
def onNode (frame : Frame) (x : Exec DbError BTreeNode α) : Exec DbError (BufferPool φ) α :=
  fun self => self.frames[frame]?.bind fun node =>
    (x node).map fun (r, node) => (r, self.withNode frame node)

/-- Fetch a page, work on its node, and drop the frame. -/
def onPage [WalFlusher φ] (id : PageId) (x : Exec DbError BTreeNode α) :
    Exec DbError (BufferPool φ) α :=
  withClone (fun frame => frame) (fetchPage id) fun frame => onNode frame x

theorem onNode_eq_some {f : Frame} {x : Exec DbError BTreeNode α} {r : Except DbError α} :
    onNode f x p = some (r, p') ↔
      ∃ node node', p.frames[f]? = some node ∧ x node = some (r, node') ∧
        p' = p.withNode f node' := by
  unfold onNode
  constructor
  · intro h
    obtain ⟨node, hf, h⟩ := Option.bind_eq_some_iff.mp h
    obtain ⟨⟨r', node'⟩, hx, heq⟩ := Option.map_eq_some_iff.mp h
    cases heq
    exact ⟨node, node', hf, hx, rfl⟩
  · rintro ⟨node, node', hf, hx, rfl⟩
    rw [hf, Option.bind_some, hx]
    rfl

theorem onPage_of_ok [WalFlusher φ] {id : PageId} {f : Frame} {x : Exec DbError BTreeNode α}
    {r : Except DbError α} {p'' : BufferPool φ} (hfetch : fetchPage id p = some (.ok f, p'))
    (hx : onNode f x p' = some (r, p'')) :
    onPage id x p = some (r, { p'' with held := p''.held.erase f }) :=
  withClone_of_ok hfetch hx

/-- The page was served into the frame `f` with the node `node`, and `node'` was put there. -/
def WorkedOn (p p' : BufferPool φ) (id : PageId) (node node' : BTreeNode) : Prop :=
  ∃ v f, Serves BTreeNode.IsSlotted (· ∈ p.held) (p.diskManager.faults ≠ []) (p.line id) v ∧
    v.cached = some (f, node.bare, node.isDirty) ∧
    p'.line id = { v with cached := some (f, node'.bare, node'.isDirty) }

/-- The node that was worked on has the content of the page. -/
theorem WorkedOn.node {id : PageId} {node node' c : BTreeNode} (h : WorkedOn p p' id node node')
    (hno : p.diskManager.faults = []) (hc : p.Has id c) : node.bare = c := by
  obtain ⟨v, f, hserves, hcached, -⟩ := h
  exact Holds.eq_of_cached (Holds.serves (fun hf => hf hno) hserves hc) hcached

/-- Serving a page leaves in the file what was there, or the content. -/
theorem Served.image {id : PageId} {c : BTreeNode} {S : BTreeNode → Prop}
    (h : Served p p' id) (hno : p.diskManager.faults = []) (hhas : p.Has id c) (hS : S c)
    (himage : ∃ s, (p.line id).stored = some s ∧ S s) :
    ∃ s, (p'.line id).stored = some s ∧ S s := by
  have hnofault : ¬ p.diskManager.faults ≠ [] := fun hf => hf hno
  exact Holds.stored_serves hnofault hS h hhas himage

/-- Working on a page leaves in the file what was there, or the content. -/
theorem WorkedOn.image {id : PageId} {node node' c : BTreeNode} {S : BTreeNode → Prop}
    (h : WorkedOn p p' id node node') (hno : p.diskManager.faults = []) (hhas : p.Has id c)
    (hS : S c) (himage : ∃ s, (p.line id).stored = some s ∧ S s) :
    ∃ s, (p'.line id).stored = some s ∧ S s := by
  obtain ⟨v, f, hserves, -, hline⟩ := h
  have hnofault : ¬ p.diskManager.faults ≠ [] := fun hf => hf hno
  rw [hline]
  show ∃ s, v.stored = some s ∧ S s
  exact Holds.stored_serves hnofault hS hserves hhas himage

/-- A node that was not changed leaves the page served. -/
theorem WorkedOn.served {id : PageId} {node : BTreeNode} (h : WorkedOn p p' id node node) :
    Served p p' id := by
  obtain ⟨v, f, hserves, hcached, hline⟩ := h
  have hv : p'.line id = v := by
    rw [hline, ← hcached]
  rw [Served, hv]
  exact hserves

/-- A dirty node is the content of the page from then on. -/
theorem WorkedOn.overwritten {id : PageId} {node node' : BTreeNode}
    (h : WorkedOn p p' id node node') (hdirty : node'.isDirty = true) :
    Overwritten p p' id node'.bare := by
  obtain ⟨v, f, hserves, -, hline⟩ := h
  refine ⟨v, f, hserves, ?_⟩
  rw [hline, hdirty]

section Flusher

variable [WalFlusher φ]

/-- **Work on one page.** It failed to get the page, or it has worked on the page; the other pages
were served, and no frame is held that was not held before. -/
theorem Wf.onPage (hw : Wf p) {id : PageId} {x : Exec DbError BTreeNode α} {r : Except DbError α}
    (ha : id.Aligned) (hne : id.val ≠ 0) (h : onPage id x p = some (r, p')) :
    Wf p' ∧ p'.held = p.held ∧ (p.diskManager.faults = [] → p'.diskManager.faults = []) ∧
      p'.capacity = p.capacity ∧
      (∀ id' : PageId, id'.Aligned → id'.val ≠ 0 → id' ≠ id → Served p p' id') ∧
      ((∃ e, r = .error e ∧ Served p p' id) ∨
        ∃ node node', x node = some (r, node') ∧ WorkedOn p p' id node node') := by
  rcases withClone_eq_some h with ⟨e, rfl, hfetch⟩ | ⟨f, p₁, p₂, hfetch, hbody, rfl⟩
  · -- the page could not be fetched: the pool did its own work only
    obtain ⟨hw', hwork⟩ := (hw.fetchPage hfetch).1 e rfl
    refine ⟨hw', hwork.kept.held, hwork.kept.faults, hwork.kept.capacity, ?_, .inl ⟨e, rfl, ?_⟩⟩
    · intro id' ha' hne' _
      exact (hwork.moves id' ha' hne').serves
    · exact (hwork.moves id ha hne).serves
  · -- the call then worked on the node in the frame, and gave the frame back
    obtain ⟨hw₁, hfetched⟩ := (hw.fetchPage hfetch).2 f rfl ha
    obtain ⟨node, node', hf, hx, rfl⟩ := onNode_eq_some.mp hbody
    have hlookup := hfetched.lookup
    refine ⟨(hw₁.withNode f node').drop f, ?_, hfetched.grown.faults, hfetched.grown.capacity,
      ?_, .inr ⟨node, node', hx, ?_⟩⟩
    · show p₁.held.erase f = p.held
      rw [hfetched.held, List.erase_cons_head]
    · intro id' ha' hne' hid
      show Serves _ _ _ _ ((p₁.withNode f node').line id')
      rw [hw₁.line_withNode_of_ne hlookup hid]
      exact (hfetched.moves id' ha' hne' hid).serves
    · refine ⟨p₁.line id, f, hfetched.serves ha hne, ?_, ?_⟩
      · rw [line_of_lookup hlookup hf]
      · exact hw₁.line_withNode hlookup node'

/-- **Work on one page succeeds** when the pool serves requests and the work returns with a node
that fits. -/
theorem Serviceable.onPage (h : Serviceable p) {id : PageId} {c : BTreeNode} (ha : id.Aligned)
    (hne : id.val ≠ 0) (hhas : p.Has id c) {x : Exec DbError BTreeNode α} {r : Except DbError α}
    (hx : ∀ node : BTreeNode, node.bare = c →
      ∃ node', x node = some (r, node') ∧ node'.IsSlotted ∧ node'.encodedSize ≤ pageSize) :
    ∃ p', onPage id x p = some (r, p') ∧ Serviceable p' := by
  obtain ⟨f, p₁, hfetch, hready, hheld⟩ := h.fetchPage ha hne hhas
  obtain ⟨hw₁, hfetched⟩ := (h.wf.fetchPage hfetch).2 f rfl ha
  obtain ⟨node, hf, hbare⟩ := hhas.fetched_node hw₁ h.noFaults ha hne hfetched
  obtain ⟨node', hrun, hs, hfit⟩ := hx node hbare
  refine ⟨_, onPage_of_ok hfetch (onNode_eq_some.mpr ⟨node, node', hf, hrun, rfl⟩), ?_⟩
  exact (hready.withNode f hs hfit).drop hheld

end Flusher

/-! ### Without faults -/

/-- The pool on a disk that does not fail. -/
def faultless (p : BufferPool φ) : BufferPool φ :=
  { p with diskManager := { p.diskManager with faults := [] } }

@[simp] theorem line_faultless (p : BufferPool φ) (id : PageId) :
    p.faultless.line id = p.line id := rfl

theorem Wf.faultless (hw : Wf p) : Wf p.faultless :=
  ⟨hw.replacer, hw.bounded, hw.framed, hw.inj, hw.held, hw.aligned⟩

/-- The disk manager without faults to come. -/
def Unfailing (d : DiskManager) : DiskManager := { d with faults := [] }

theorem lifts_readPage (id : PageId) (d : DiskManager) :
    Exec.Lifts Unfailing (DiskManager.readPage id) d := by
  intro page d' h
  obtain ⟨hfile, hheader, -, hread⟩ := readPage_outcome h
  have hsame : Unfailing d' = Unfailing d := by
    unfold Unfailing
    rw [hfile, hheader]
  rw [hsame]
  exact readPage_ok rfl (hread page rfl)

theorem lifts_writeAllAt (offset : ℕ) (data : List UInt8) (d : DiskManager) :
    Exec.Lifts Unfailing (DiskManager.writeAllAt offset data) d := by
  intro _ d' h
  obtain ⟨hheader, -, ⟨-, hfile⟩ | ⟨_, _, hno, -⟩⟩ := writeAllAt_outcome h
  · have hsame : Unfailing d' =
        { Unfailing d with file := (Unfailing d).file.writeAt offset data } := by
      unfold Unfailing
      rw [hfile, hheader]
    rw [hsame]
    exact writeAllAt_ok rfl
  · cases hno

theorem lifts_syncAll (d : DiskManager) : Exec.Lifts Unfailing DiskManager.syncAll d := by
  intro _ d' h
  obtain ⟨hfile, hheader, -⟩ := syncAll_outcome h
  have hsame : Unfailing d' = Unfailing d := by
    unfold Unfailing
    rw [hfile, hheader]
  rw [hsame]
  exact syncAll_ok rfl

theorem lifts_saveHeader (d : DiskManager) : Exec.Lifts Unfailing DiskManager.saveHeader d := by
  intro u d' h
  rw [DiskManager.saveHeader, Exec.bind_of_ok (Exec.get_apply d)] at h
  rw [DiskManager.saveHeader, Exec.bind_of_ok (Exec.get_apply (Unfailing d))]
  exact (lifts_writeAllAt 0 d.header.encode d).bind (fun _ d₁ _ => lifts_syncAll d₁) u d' h

theorem lifts_readFrame (f : Frame) (p : BufferPool φ) :
    Exec.Lifts faultless (readFrame f) p := by
  intro node p' h
  obtain ⟨node', hf, heq⟩ := Option.map_eq_some_iff.mp h
  cases heq
  exact Option.map_eq_some_iff.mpr ⟨_, hf, rfl⟩

theorem lifts_cloneFrame (f : Frame) (p : BufferPool φ) :
    Exec.Lifts faultless (cloneFrame f) p := by
  intro g p' h
  cases h
  rfl

theorem lifts_recordAccess (id : PageId) (p : BufferPool φ) :
    Exec.Lifts faultless (recordAccess id) p := by
  intro u p' h
  obtain ⟨q, hq, heq⟩ := Option.map_eq_some_iff.mp h
  cases heq
  exact Option.map_eq_some_iff.mpr ⟨q, hq, rfl⟩

theorem lifts_install (id : PageId) (node : BTreeNode) (p : BufferPool φ) :
    Exec.Lifts faultless (install id node) p := by
  refine Exec.Lifts.get_bind rfl ?_
  refine Exec.Lifts.bind (.modify rfl) fun _ p₁ _ => ?_
  exact Exec.Lifts.bind (lifts_recordAccess id p₁) fun _ p₂ _ => lifts_cloneFrame _ p₂

theorem lifts_encodePage (node : BTreeNode) (p : BufferPool φ) :
    Exec.Lifts faultless (encodePage node) p := by
  intro page p' h
  obtain ⟨rfl, henc⟩ := encodePage_outcome h
  unfold encodePage
  rw [henc page rfl]

theorem lifts_decodePage (page : Page) (p : BufferPool φ) :
    Exec.Lifts faultless (decodePage page) p := by
  intro node p' h
  obtain ⟨r, hr, heq⟩ := Option.map_eq_some_iff.mp h
  cases heq
  exact Option.map_eq_some_iff.mpr ⟨_, hr, rfl⟩

theorem lifts_disk {x : Exec DbError DiskManager α} (hx : ∀ d, Exec.Lifts Unfailing x d)
    (p : BufferPool φ) : Exec.Lifts faultless (disk x) p :=
  Exec.Lifts.zoom (k := Unfailing) rfl (fun _ => rfl) (hx _)

section Flusher

variable [WalFlusher φ]

theorem lifts_flushWal (lsn : UInt64) (p : BufferPool φ) :
    Exec.Lifts faultless (flushWal lsn) p := by
  refine Exec.Through.lifts ?_
  unfold Exec.Through flushWal
  rw [show p.faultless.walFlusher = p.walFlusher from rfl]
  cases p.walFlusher with
  | none => rfl
  | some w => rfl

theorem lifts_flushPage (id : PageId) (p : BufferPool φ) :
    Exec.Lifts faultless (flushPage id) p := by
  refine Exec.Lifts.get_bind rfl ?_
  cases p.pageTable.lookup id with
  | none => exact .pure () p
  | some f =>
    refine Exec.Lifts.bind (lifts_readFrame f p) fun node p₁ _ => ?_
    cases node.isDirty with
    | false => exact .pure () p₁
    -- the log, the encoding and the write go on the same way without the faults
    | true =>
      refine (lifts_flushWal _ p₁).bind fun _ p₂ _ => ?_
      refine (lifts_encodePage node p₂).bind fun page p₃ _ => ?_
      refine (lifts_disk (fun d => lifts_writeAllAt _ _ d) p₃).bind fun _ p₄ _ => ?_
      exact .modify rfl

theorem lifts_evictPage (p : BufferPool φ) : Exec.Lifts faultless evictPage p := by
  refine Exec.Lifts.get_bind rfl ?_
  refine Exec.Lifts.bind ?_ fun out p₁ _ => ?_
  · cases p.replacer.evictIf (fun _ => p.isUnpinned) () with
    | none => nofun
    | some out => exact .pure out p
  · obtain ⟨found, u, q⟩ := out
    refine Exec.Lifts.bind (.modify rfl) fun _ p₂ _ => ?_
    cases found with
    | none => exact .throw _ p₂
    | some id =>
      refine (lifts_flushPage id p₂).bind fun _ p₃ _ => ?_
      exact .modify rfl

theorem lifts_makeRoom (p : BufferPool φ) : Exec.Lifts faultless makeRoom p := by
  refine Exec.Lifts.get_bind rfl ?_
  split
  · exact lifts_evictPage p
  · exact .pure () p

theorem lifts_fetchPage (id : PageId) (p : BufferPool φ) :
    Exec.Lifts faultless (fetchPage id) p := by
  refine Exec.Lifts.get_bind rfl ?_
  cases p.pageTable.lookup id with
  | some f =>
    refine Exec.Lifts.bind (lifts_recordAccess id p) fun _ p₁ _ => ?_
    exact lifts_cloneFrame f p₁
  | none =>
    refine (lifts_makeRoom p).bind fun _ p₁ _ => ?_
    refine (lifts_disk (fun d => lifts_readPage id d) p₁).bind fun page p₂ _ => ?_
    refine Exec.Lifts.bind (lifts_decodePage page p₂) fun node p₃ _ => ?_
    exact lifts_install id node p₃

/-- **What flushing everything does on a disk that did not fail.** -/
theorem lifts_flushAllPages (order : HashOrder) (p : BufferPool φ) :
    Exec.Lifts faultless (flushAllPages order) p := by
  refine Exec.Lifts.get_bind rfl ?_
  refine (Exec.Lifts.forEach lifts_flushPage p).bind fun _ p₁ _ => ?_
  exact lifts_disk lifts_saveHeader p₁

theorem lifts_onPage (id : PageId) (x : Exec DbError BTreeNode α) (p : BufferPool φ) :
    Exec.Lifts faultless (onPage id x) p := by
  intro a p' h
  obtain ⟨e, hr, -⟩ | ⟨f, p₁, p₂, hfetch, hbody, rfl⟩ := withClone_eq_some h
  · cases hr
  · obtain ⟨node, node', hf, hx, rfl⟩ := onNode_eq_some.mp hbody
    have hbody' : onNode f x p₁.faultless = some (.ok a, (p₁.withNode f node').faultless) :=
      onNode_eq_some.mpr ⟨node, node', hf, hx, rfl⟩
    exact onPage_of_ok (lifts_fetchPage id p f p₁ hfetch) hbody'

end Flusher

end BufferPool

end SmolDb
