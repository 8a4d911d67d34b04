import SmolDb.Pool.Flush
import SmolDb.Pool.Service

/-!
# What the next process reads

`flush_all_pages` writes every dirty page and then the header. When it returns `Ok`, every node in
the cache is clean, so that every page that has a content has it in the file, and the file begins
with the header. A process that opens the file finds this header, and its pool has the contents of
all pages before it has fetched any of them.

Reading dirties nothing, so the new pool has nothing to write when it makes room, and the log
behind it is not asked: `readPages` succeeds with any log, with a place for at least one page.
-/

namespace SmolDb

open WriteBack LittleEndian

/-- **The header is read back as it was written.** -/
theorem FileHeader.decode_encode (header : FileHeader) :
    FileHeader.decode header.encode = header := by
  obtain ⟨lastRowId, pageRootOffset, nextLsn, nextFreeOffset⟩ := header
  have hfirst : (u32Bytes lastRowId ++ u64Bytes pageRootOffset).length = 12 := by
    simp
  have hsecond :
      (u32Bytes lastRowId ++ u64Bytes pageRootOffset ++ u64Bytes nextLsn).length = 20 := by
    simp
  unfold FileHeader.decode FileHeader.encode
  dsimp only
  rw [List.drop_left' hsecond, List.append_assoc _ (u64Bytes nextLsn), List.drop_left' hfirst,
    List.append_assoc, List.drop_left' (length_u32Bytes lastRowId),
    List.take_left' (length_u32Bytes lastRowId), List.take_left' (length_u64Bytes pageRootOffset),
    List.take_left' (length_u64Bytes nextLsn),
    List.take_of_length_le (Nat.le_of_eq (length_u64Bytes nextFreeOffset)), u32Of_u32Bytes,
    u64Of_u64Bytes, u64Of_u64Bytes, u64Of_u64Bytes]

namespace BufferPool

variable {φ : Type} {p p' : BufferPool φ}

/-- No node in the cache is dirty. -/
def Clean (p : BufferPool φ) : Prop :=
  ∀ id f node, p.pageTable.lookup id = some f → p.frames[f]? = some node → node.isDirty = false

/-- What a flush does to the nodes in the frames: a node that is dirty after it is one that was
there before. -/
structure Cleaned (p p' : BufferPool φ) : Prop where
  table : p'.pageTable = p.pageTable
  dirty : ∀ (f : Frame) (node : BTreeNode), p'.frames[f]? = some node → node.isDirty = true →
    p.frames[f]? = some node

theorem Cleaned.refl (p : BufferPool φ) : Cleaned p p := ⟨rfl, fun _ _ h _ => h⟩

theorem Cleaned.trans (a b c : BufferPool φ) (h : Cleaned a b) (h' : Cleaned b c) : Cleaned a c :=
  ⟨h'.table.trans h.table, fun f node hf hd => h.dirty f node (h'.dirty f node hf hd) hd⟩

/-- The pool with another log behind it. -/
def withFlusher (p : BufferPool φ) (w : Option φ) : BufferPool φ := { p with walFlusher := w }

/-- A pool that only reads: nothing in it has to be written, and nothing is held. -/
structure Reading (p : BufferPool φ) : Prop where
  wf : Wf p
  tracked : Tracked p
  capacity : 0 < p.capacity
  noFaults : p.diskManager.faults = []
  unpinned : p.held = []
  clean : Clean p
  pages : ∀ id f, p.pageTable.lookup id = some f → id.val ≠ 0

theorem Reading.new {d : DiskManager} (hno : d.faults = []) {capacity : ℕ} (hcap : 0 < capacity)
    (w : Option φ) : Reading (new d capacity w) where
  wf := .new d capacity w
  tracked := .new d capacity w
  capacity := hcap
  noFaults := hno
  unpinned := rfl
  clean _ _ _ h := by cases h
  pages _ _ h := by cases h

/-- A fetch into a clean pool leaves it clean. -/
theorem Reading.fetched (h : Reading p) (hw : Wf p') {id : PageId} {f : Frame} (ha : id.Aligned)
    (hne : id.val ≠ 0) (hfetch : Fetched p p' id f) : Clean p' := by
  have hclean : ∀ id' : PageId, ∀ f' c d, (p.line id').cached = some (f', c, d) → d = false := by
    intro id' f' c d hcached
    obtain ⟨node, hl, hf, -, rfl⟩ := frame_of_cached hcached
    exact h.clean id' f' node hl hf
  intro id' f' node hl hf
  have hcached := congrArg Line.cached (line_of_lookup hl hf)
  by_cases hid : id' = id
  · subst hid
    cases hl₀ : p.pageTable.lookup id' with
    | some f₀ =>
      rw [hfetch.hit f₀ hl₀] at hcached
      exact hclean id' _ _ _ hcached
    | none =>
      -- what was loaded is clean
      obtain ⟨v, c, -, -, hline⟩ := hfetch.miss hl₀ ha hne
      rw [hline, Line.loaded, Option.some.injEq, Prod.mk.injEq, Prod.mk.injEq] at hcached
      exact hcached.2.2.symm
  · have hl₀ := hfetch.table id' f' hl hid
    have hmoves := hfetch.moves id' (hw.aligned_of_lookup hl) (h.pages id' f' hl₀) hid
    exact hmoves.clean (hclean id') _ _ _ hcached

theorem through_recordAccess (id : PageId) (w : Option φ) :
    Exec.Through (withFlusher · w) (recordAccess id) p := by
  unfold Exec.Through recordAccess
  show (p.replacer.recordAccess id).map _ = _
  cases p.replacer.recordAccess id with
  | none => rfl
  | some q => rfl

theorem through_install (id : PageId) (node : BTreeNode) (w : Option φ) :
    Exec.Through (withFlusher · w) (install id node) p := by
  unfold Exec.Through install
  rw [Exec.bind_of_ok (Exec.get_apply p), Exec.bind_of_ok (Exec.get_apply (p.withFlusher w)),
    Exec.bind_of_ok (Exec.modify_apply _ _), Exec.bind_of_ok (Exec.modify_apply _ _)]
  have hrest : Exec.Through (withFlusher · w)
      (recordAccess id >>= fun _ => cloneFrame p.frames.length)
      { p with
        frames := p.frames ++ [node]
        pageTable := p.pageTable.insert id p.frames.length } := by
    refine Exec.Through.bind (through_recordAccess id w) fun _ _ _ => ?_
    rfl
  exact hrest

section Flusher

variable [WalFlusher φ]

/-! ### Flushing everything -/

theorem within_flushPage_cleaned (id : PageId) :
    Exec.Within Cleaned (flushPage id : Exec DbError (BufferPool φ) Unit) := by
  intro p r p' h
  cases flushPage_outcome h with
  | skipped => exact .refl p
  | failed => exact ⟨rfl, fun _ _ hf _ => hf⟩
  | @written f node w d page hl hf =>
    refine ⟨rfl, fun g node' hg hd => ?_⟩
    by_cases hfg : f = g
    · subst hfg
      obtain rfl : node.clearDirty = node' :=
        Option.some.inj ((frames_withNode_self (p := p) hf).symm.trans hg)
      rw [BTreeNode.isDirty_clearDirty] at hd
      cases hd
    · exact (List.getElem?_set_ne hfg).symm.trans hg

/-- A loop of flushes that comes to its end has cleaned the pages it went over. -/
theorem forEach_flushPage_clean (hw : Wf p) {ids : List PageId}
    (h : Exec.forEach flushPage ids p = some (.ok (), p')) :
    ∀ id ∈ ids, ∀ f node, p'.pageTable.lookup id = some f → p'.frames[f]? = some node →
      node.isDirty = false := by
  induction ids generalizing p with
  | nil => nofun
  | cons id ids ih =>
    rw [Exec.forEach_cons] at h
    obtain ⟨_, p₁, hflush, hrest⟩ := Exec.bind_eq_ok.mp h
    intro id' hid' f node hl hf
    rcases List.mem_cons.mp hid' with rfl | hmem
    · -- what the first flush has cleaned the others leave clean
      have hcleaned := Exec.Within.forEach Cleaned.refl Cleaned.trans
        (fun id _ => within_flushPage_cleaned id) _ _ _ hrest
      rw [hcleaned.table] at hl
      by_contra hdirty
      have hf₁ := hcleaned.dirty f node hf (Bool.not_eq_false _ ▸ hdirty)
      exact hdirty (flushPage_ok_clean hw hflush hl hf₁)
    · exact ih (hw.flushPage hflush).1 hrest id' hmem f node hl hf

/-- **After `flush_all_pages` every page is clean** and the file begins with the header. -/
theorem flushAllPages_ok (hw : Wf p) {order : HashOrder}
    (h : flushAllPages order p = some (.ok (), p')) :
    Clean p' ∧ ∀ faults, DiskManager.openFile p'.diskManager.file faults =
      .ok ⟨p'.diskManager.file, p.diskManager.header, faults⟩ := by
  rw [flushAllPages, Exec.bind_of_ok (Exec.get_apply p)] at h
  -- every cached page is flushed, then the header is saved
  obtain ⟨_, p₁, hloop, hsave⟩ := Exec.bind_eq_ok.mp h
  obtain ⟨-, hk, -⟩ := Exec.Within.forEach Quiet.refl Quiet.trans
    (fun id _ => within_flushPage id) _ _ _ hloop hw
  have hcleaned := Exec.Within.forEach Cleaned.refl Cleaned.trans
    (fun id _ => within_flushPage_cleaned id) _ _ _ hloop
  obtain ⟨d, hd, rfl⟩ := disk_outcome hsave
  rw [DiskManager.saveHeader, Exec.bind_of_ok (Exec.get_apply _)] at hd
  obtain ⟨_, d₁, hwrite, hsync⟩ := Exec.bind_eq_ok.mp hd
  obtain ⟨-, -, ⟨-, hfile⟩ | ⟨_, _, hno, -⟩⟩ := writeAllAt_outcome hwrite
  · refine ⟨fun id f node hl hf => ?_, fun faults => ?_⟩
    · refine forEach_flushPage_clean hw hloop id ?_ f node hl hf
      -- flushing keeps the table, so the order named every page still cached
      have hmem : id ∈ p₁.pageTable := AList.mem_of_lookup hl
      rw [hcleaned.table] at hmem
      exact (order.perm _).mem_iff.mpr (AList.mem_keys.mp hmem)
    · -- the header was written last
      have hheader : d.file = p₁.diskManager.file.writeAt 0 p.diskManager.header.encode := by
        rw [(syncAll_outcome hsync).1, hfile, hk.header]
      have hread : d.file.readAt 0 fileHeaderSize =
          some ⟨p.diskManager.header.encode, length_header_encode _⟩ := by
        rw [hheader]
        exact DataFile.readAt_writeAt_self (n := fileHeaderSize)
          ⟨p.diskManager.header.encode, length_header_encode _⟩ (by decide)
      have hlen := (DataFile.readAt_eq_some.mp hread).1
      show DiskManager.openFile d.file faults = _
      rw [DiskManager.openFile, if_pos (Nat.lt_of_lt_of_le (by decide) hlen), hread]
      show Except.ok (DiskManager.mk _ _ _) = _
      rw [FileHeader.decode_encode]
  · cases hno

theorem forEach_flushPage_ok (hw : Wf p) (hno : p.diskManager.faults = [])
    (hrel : WalFlusher.Reliable p.walFlusher) (henc : Encodable p) (ids : List PageId) :
    ∃ p', Exec.forEach flushPage ids p = some (.ok (), p') ∧ p'.diskManager.faults = [] := by
  induction ids generalizing p with
  | nil => exact ⟨p, rfl, hno⟩
  | cons id ids ih =>
    obtain ⟨p₁, hflush, hrel₁, henc₁⟩ := flushPage_ok hw hno hrel henc id
    obtain ⟨hw₁, hk₁, -⟩ := hw.flushPage hflush
    obtain ⟨p₂, hrest, hno₂⟩ := ih hw₁ (hk₁.faults hno) hrel₁ henc₁
    exact ⟨p₂, (Exec.bind_of_ok hflush).trans hrest, hno₂⟩

/-- **`flush_all_pages` succeeds** when the disk and the log do and the dirty nodes fit. -/
theorem flushAllPages_returns (hw : Wf p) (hno : p.diskManager.faults = [])
    (hrel : WalFlusher.Reliable p.walFlusher) (henc : Encodable p) (order : HashOrder) :
    ∃ p', flushAllPages order p = some (.ok (), p') := by
  obtain ⟨p₁, hloop, hno₁⟩ :=
    forEach_flushPage_ok hw hno hrel henc (order.arrange p.pageTable.keys)
  obtain ⟨d, hd⟩ : ∃ d, DiskManager.saveHeader p₁.diskManager = some (.ok (), d) := by
    unfold DiskManager.saveHeader
    rw [Exec.bind_of_ok (Exec.get_apply _), Exec.bind_of_ok (writeAllAt_ok hno₁)]
    exact ⟨_, syncAll_ok hno₁⟩
  have hsave : disk DiskManager.saveHeader p₁ =
      some (.ok (), { p₁ with diskManager := d }) := Exec.zoom_of_some hd
  refine ⟨{ p₁ with diskManager := d }, ?_⟩
  unfold flushAllPages
  rw [Exec.bind_of_ok (Exec.get_apply p), Exec.bind_of_ok hloop]
  exact hsave

/-- **`flush_all_pages` leaves a pool that serves requests** as one that does. -/
theorem within_flushAllPages_serviceable (order : HashOrder) :
    Exec.Within (fun p p' => Serviceable p → Serviceable p')
      (flushAllPages order : Exec DbError (BufferPool φ) Unit) := by
  have hrefl : ∀ p : BufferPool φ, Serviceable p → Serviceable p := fun _ h => h
  have htrans : ∀ a b c : BufferPool φ, (Serviceable a → Serviceable b) →
      (Serviceable b → Serviceable c) → Serviceable a → Serviceable c :=
    fun _ _ _ hab hbc h => hbc (hab h)
  refine .bind htrans (.of_unchanged hrefl fun _ _ _ h => by cases h; rfl) fun _ => ?_
  refine .bind htrans (.forEach hrefl htrans fun id _ p r p' hrun h => ?_) fun _ p r p' hrun h => ?_
  · obtain ⟨p₁, hrun₁, hready⟩ := h.toReady.flushPage id
    cases hrun.symm.trans hrun₁
    obtain ⟨-, -, -, hheld, -⟩ := flushPage_same hrun
    exact ⟨hready, hheld.trans h.unpinned⟩
  · -- the header is of no account for the cache
    obtain ⟨hw, hk, -⟩ := within_saveHeader p r p' hrun h.wf
    obtain ⟨d, -, rfl⟩ := disk_outcome hrun
    exact { h with wf := hw, noFaults := hk.faults h.noFaults }

/-- Of an empty cache only the header is flushed. -/
theorem flushAllPages_new {d : DiskManager} (hno : d.faults = []) (order : HashOrder)
    (capacity : ℕ) (w : Option φ) : ∃ d' : DiskManager, d'.faults = [] ∧ d'.header = d.header ∧
      flushAllPages order (new d capacity w) = some (.ok (), new d' capacity w) := by
  have hnil : order.arrange (new d capacity w).pageTable.keys = [] :=
    List.perm_nil.mp (order.perm _)
  obtain ⟨d', hsave⟩ : ∃ d', DiskManager.saveHeader d = some (.ok (), d') := by
    unfold DiskManager.saveHeader
    rw [Exec.bind_of_ok (Exec.get_apply _), Exec.bind_of_ok (writeAllAt_ok hno)]
    exact ⟨_, syncAll_ok hno⟩
  obtain ⟨hheader, hno', -⟩ := saveHeader_outcome hsave
  have hdisk : disk DiskManager.saveHeader (new d capacity w) =
      some (.ok (), new d' capacity w) := Exec.zoom_of_some hsave
  refine ⟨d', hno' hno, hheader, ?_⟩
  unfold flushAllPages
  rw [Exec.bind_of_ok (Exec.get_apply _), hnil]
  exact (Exec.bind_of_ok rfl).trans hdisk

/-! ### Reading -/

/-- Nothing is to be written for a clean pool. -/
theorem flushPage_of_clean
    (hframed : ∀ id f, p.pageTable.lookup id = some f → f < p.frames.length) (h : Clean p)
    (id : PageId) : flushPage id p = some (.ok (), p) := by
  unfold flushPage
  rw [Exec.bind_of_ok (Exec.get_apply p)]
  cases hl : p.pageTable.lookup id with
  | none => rfl
  | some f =>
    obtain ⟨node, hf⟩ : ∃ node, p.frames[f]? = some node :=
      ⟨_, List.getElem?_eq_getElem (hframed id f hl)⟩
    have hread : readFrame f p = some (.ok node, p) := by
      rw [readFrame, hf]
      rfl
    dsimp only
    rw [Exec.bind_of_ok hread, h id f node hl hf]
    rfl

/-- A clean pool makes room without its log. -/
theorem through_makeRoom
    (hframed : ∀ id f, p.pageTable.lookup id = some f → f < p.frames.length) (h : Clean p)
    (w : Option φ) : Exec.Through (withFlusher · w) makeRoom p := by
  unfold Exec.Through makeRoom evictPage
  rw [Exec.bind_of_ok (Exec.get_apply p), Exec.bind_of_ok (Exec.get_apply (p.withFlusher w))]
  by_cases hfull : p.pageTable.keys.length ≥ p.capacity
  · rw [if_pos hfull, if_pos (show (p.withFlusher w).pageTable.keys.length ≥
      (p.withFlusher w).capacity from hfull)]
    rw [Exec.bind_of_ok (Exec.get_apply p), Exec.bind_of_ok (Exec.get_apply (p.withFlusher w))]
    show (Exec.ofOption (p.replacer.evictIf (fun _ => p.isUnpinned) ()) >>= _) _ = _
    cases p.replacer.evictIf (fun _ => p.isUnpinned) () with
    | none => rfl
    | some out =>
      obtain ⟨found, u, q⟩ := out
      rw [Exec.bind_of_ok (Exec.ofOption_some _ _), Exec.bind_of_ok (Exec.ofOption_some _ _)]
      dsimp only
      rw [Exec.bind_of_ok (Exec.modify_apply _ _), Exec.bind_of_ok (Exec.modify_apply _ _)]
      cases found with
      | none => rfl
      | some id =>
        -- the page that gives way is not written
        have hflush : flushPage id { p with replacer := q } =
            some (.ok (), { p with replacer := q }) :=
          flushPage_of_clean (p := { p with replacer := q }) hframed h id
        have hflush' : flushPage id { p.withFlusher w with replacer := q } =
            some (.ok (), { p.withFlusher w with replacer := q }) :=
          flushPage_of_clean (p := { p.withFlusher w with replacer := q }) hframed h id
        dsimp only
        rw [Exec.bind_of_ok hflush, Exec.bind_of_ok hflush']
        rfl
  · rw [if_neg hfull, if_neg (show ¬ (p.withFlusher w).pageTable.keys.length ≥
      (p.withFlusher w).capacity from hfull)]
    rfl

/-- A clean pool loads pages without its log. -/
theorem through_fetchPage
    (hframed : ∀ id f, p.pageTable.lookup id = some f → f < p.frames.length) (h : Clean p)
    (w : Option φ) (id : PageId) : Exec.Through (withFlusher · w) (fetchPage id) p := by
  unfold Exec.Through fetchPage
  rw [Exec.bind_of_ok (Exec.get_apply p), Exec.bind_of_ok (Exec.get_apply (p.withFlusher w))]
  -- a clean pool never asks its flusher, so the whole call can be run with another one
  cases hl : p.pageTable.lookup id with
  | some f =>
    rw [show (p.withFlusher w).pageTable.lookup id = some f from hl]
    refine Exec.Through.bind (through_recordAccess id w) fun _ _ _ => ?_
    rfl
  | none =>
    rw [show (p.withFlusher w).pageTable.lookup id = none from hl]
    refine (through_makeRoom hframed h w).bind fun _ p₁ _ => ?_
    refine Exec.Through.bind ?_ fun page p₂ _ => ?_
    · unfold Exec.Through disk Exec.zoom
      show (DiskManager.readPage id p₁.diskManager).map _ = _
      cases DiskManager.readPage id p₁.diskManager with
      | none => rfl
      | some out => rfl
    · refine Exec.Through.bind ?_ fun node p₃ _ => through_install id node w
      unfold Exec.Through decodePage
      cases BTreeNode.decode page with
      | none => rfl
      | some out => rfl

/-- Without a log, such a pool serves every request. -/
theorem Reading.serviceable (h : Reading p) : Serviceable (p.withFlusher none) where
  wf := ⟨h.wf.replacer, h.wf.bounded, h.wf.framed, h.wf.inj, h.wf.held, h.wf.aligned⟩
  tracked := h.tracked
  capacity := h.capacity
  noFaults := h.noFaults
  reliable := WalFlusher.reliable_none
  encodable id f node hl hf hdirty := by
    rw [h.clean id f node hl hf] at hdirty
    cases hdirty
  unpinned := h.unpinned

/-- Fetch, look and drop. -/
def readNode (id : PageId) : Exec DbError (BufferPool φ) BTreeNode :=
  withClone (fun frame => frame) (fetchPage id) readFrame

/-- Fetch, look and drop, one page after the other. -/
def readPages : List PageId → Exec DbError (BufferPool φ) (List BTreeNode)
  | [] => pure []
  | id :: ids => do
    let node ← readNode id
    let nodes ← readPages ids
    pure (node :: nodes)

/-- Reading a page that has a content gives it, with any log. -/
theorem Reading.readNode (h : Reading p) {id : PageId} {c : BTreeNode} (ha : id.Aligned)
    (hne : id.val ≠ 0) (hhas : p.Has id c) :
    ∃ node p', readNode id p = some (.ok node, p') ∧ node.bare = c ∧ Reading p' ∧
      ∀ (id' : PageId) c', id'.Aligned → id'.val ≠ 0 → p.Has id' c' → p'.Has id' c' := by
  obtain ⟨f, p₁, hrun₁, hready, hheld⟩ := h.serviceable.fetchPage ha hne hhas
  -- the fetch succeeds without a flusher, and so with the pool's own
  have hthrough : fetchPage id p = some (.ok f, p₁.withFlusher p.walFlusher) := by
    have hrun := through_fetchPage (p := p.withFlusher none) h.wf.framed h.clean p.walFlusher id
    unfold Exec.Through at hrun
    rw [hrun₁] at hrun
    -- the loan ends with the read: the pool is unpinned again
    exact hrun
  obtain ⟨hw, hfetch⟩ := (h.wf.fetchPage hthrough).2 f rfl ha
  obtain ⟨node, hf, hbare⟩ := hhas.fetched_node hw h.noFaults ha hne hfetch
  have hread : readFrame f (p₁.withFlusher p.walFlusher) =
      some (.ok node, p₁.withFlusher p.walFlusher) := by
    rw [readFrame, hf]
    rfl
  have hclean := h.fetched hw ha hne hfetch
  refine ⟨node, _, withClone_of_ok hthrough hread, hbare, ?_, ?_⟩
  · exact
      { wf := hw.drop f
        tracked := hready.tracked
        capacity := hready.capacity
        noFaults := hready.noFaults
        unpinned := by
          show p₁.held.erase f = []
          rw [hheld, List.erase_cons_head]
        clean := hclean
        pages := fun id' f' hl => by
          by_cases hid : id' = id
          · rw [hid]
            exact hne
          · exact h.pages id' f' (hfetch.table id' f' hl hid) }
  · intro id' c' ha' hne' hhas'
    have hkept := hhas'.fetched h.noFaults ha' hne' hfetch
    exact hkept

/-- **Every page is read with its content**, in any order and any number of times. -/
theorem Reading.readPages (ids : List PageId) (h : Reading p) {content : PageId → BTreeNode}
    (hids : ∀ id ∈ ids, id.Aligned ∧ id.val ≠ 0 ∧ p.Has id (content id)) :
    ∃ nodes p', readPages ids p = some (.ok nodes, p') ∧
      nodes.map BTreeNode.bare = ids.map content := by
  induction ids generalizing p with
  | nil => exact ⟨[], p, rfl, rfl⟩
  | cons id ids ih =>
    obtain ⟨ha, hne, hhas⟩ := hids id (List.mem_cons_self ..)
    obtain ⟨node, p₁, hrun, hbare, hreading, hkeep⟩ := h.readNode ha hne hhas
    obtain ⟨nodes, p₂, hrest, hnodes⟩ := ih hreading fun id' hid' => by
      obtain ⟨ha', hne', hhas'⟩ := hids id' (List.mem_cons_of_mem _ hid')
      exact ⟨ha', hne', hkeep id' _ ha' hne' hhas'⟩
    refine ⟨node :: nodes, p₂, ?_, ?_⟩
    · unfold BufferPool.readPages
      rw [Exec.bind_of_ok hrun, Exec.bind_of_ok hrest]
      rfl
    · rw [List.map_cons, List.map_cons, hbare, hnodes]

end Flusher

end BufferPool

end SmolDb
