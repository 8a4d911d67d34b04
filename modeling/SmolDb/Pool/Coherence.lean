import SmolDb.Lib.Listing
import SmolDb.Lib.WriteBack
import SmolDb.Lru.Recency
import SmolDb.Page.File
import SmolDb.Pool.BufferPool

/-!
# The pool is a write-back cache

`BufferPool.line` is what the pool and its data file have of one page, with the free size and the
dirty flag taken out of the content. Every operation of the pool that a caller does not hold a
frame for is shown to be a number of moves of the write-back cache on each page (`PageMoves`),
to keep the pool well-formed (`Wf`), and to leave the rest of its state alone (`Kept`), whether
it succeeds or not.
-/

namespace SmolDb

open WriteBack

namespace BufferPool

variable {φ α : Type} {p p' p'' : BufferPool φ}

/-- What the pool and the file have of a page. -/
def line (self : BufferPool φ) (id : PageId) : Line BTreeNode where
  cached := (self.pageTable.lookup id).bind fun f =>
    self.frames[f]?.map fun node => (f, node.bare, node.isDirty)
  stored := (self.diskManager.file.nodeAt id.val.toNat).map BTreeNode.bare
  blank := self.diskManager.file.Blank id.val.toNat

/-- What is true of every pool between two calls. -/
structure Wf (p : BufferPool φ) : Prop where
  replacer : ∃ is l, p.replacer.Threaded p.capacity is l ∧ ∀ id ∈ l, id ∈ p.pageTable
  bounded : p.pageTable.keys.length ≤ p.capacity
  framed : ∀ id f, p.pageTable.lookup id = some f → f < p.frames.length
  inj : ∀ id id' f, p.pageTable.lookup id = some f → p.pageTable.lookup id' = some f → id = id'
  held : ∀ f ∈ p.held, ∃ id, p.pageTable.lookup id = some f
  aligned : ∀ id ∈ p.pageTable, id.Aligned

/-- What the pool's own work on its pages leaves alone. -/
structure Kept (p p' : BufferPool φ) : Prop where
  capacity : p'.capacity = p.capacity
  held : p'.held = p.held
  header : p'.diskManager.header = p.diskManager.header
  faults : p.diskManager.faults = [] → p'.diskManager.faults = []
  frames : p'.frames.length = p.frames.length
  table : ∀ id f, p'.pageTable.lookup id = some f → p.pageTable.lookup id = some f
  pinned : ∀ id f, p.pageTable.lookup id = some f → f ∈ p.held → p'.pageTable.lookup id = some f

/-- On every page behind the header, a number of moves of the cache. -/
def PageMoves (p p' : BufferPool φ) : Prop :=
  ∀ id : PageId, id.Aligned → id.val ≠ 0 →
    Moves BTreeNode.IsSlotted (· ∈ p.held) (p.diskManager.faults ≠ [])
      (p.line id) (p'.line id)

/-- A page whose frame a caller holds is not touched. -/
def Untouched (p p' : BufferPool φ) : Prop :=
  ∀ (id : PageId) (f : Frame), id.Aligned → id.val ≠ 0 → p.pageTable.lookup id = some f →
    f ∈ p.held → Extended (p.line id) (p'.line id)

/-- What making room for a page does. -/
structure Worked (p p' : BufferPool φ) : Prop where
  kept : Kept p p'
  moves : PageMoves p p'
  untouched : Untouched p p'

theorem Kept.refl (p : BufferPool φ) : Kept p p :=
  ⟨rfl, rfl, rfl, id, rfl, fun _ _ h => h, fun _ _ h _ => h⟩

theorem Kept.trans (h : Kept p p') (h' : Kept p' p'') : Kept p p'' where
  capacity := h'.capacity.trans h.capacity
  held := h'.held.trans h.held
  header := h'.header.trans h.header
  faults hf := h'.faults (h.faults hf)
  frames := h'.frames.trans h.frames
  table id f hl := h.table id f (h'.table id f hl)
  pinned id f hl hheld := h'.pinned id f (h.pinned id f hl hheld) (h.held ▸ hheld)

theorem PageMoves.refl (p : BufferPool φ) : PageMoves p p := fun _ _ _ => Moves.refl _

theorem PageMoves.trans (hk : Kept p p') (h : PageMoves p p') (h' : PageMoves p' p'') :
    PageMoves p p'' := fun id ha hne =>
  (h id ha hne).trans ((h' id ha hne).mono (fun _ hf => hk.held ▸ hf)
    fun hf hno => hf (hk.faults hno))

theorem Worked.refl (p : BufferPool φ) : Worked p p :=
  ⟨.refl p, .refl p, fun _ _ _ _ _ _ => .refl _⟩

theorem Worked.trans (h : Worked p p') (h' : Worked p' p'') : Worked p p'' where
  kept := h.kept.trans h'.kept
  moves := h.moves.trans h.kept h'.moves
  untouched id f ha hne hl hheld :=
    (h.untouched id f ha hne hl hheld).trans
      (h'.untouched id f ha hne (h.kept.pinned id f hl hheld) (h.kept.held ▸ hheld))

/-- Work that shows on no page. -/
theorem Worked.of_line (hk : Kept p p') (hline : ∀ id, p'.line id = p.line id) :
    Worked p p' where
  kept := hk
  moves id _ _ := by
    rw [hline]
    exact .refl _
  untouched id _ _ _ _ _ := by
    rw [hline]
    exact .refl _

/-- A pool that kept its frames is well-formed as long as its replacer and its size are. -/
theorem Wf.of_kept (hw : Wf p) (hk : Kept p p')
    (hreplacer : ∃ is l, p'.replacer.Threaded p.capacity is l ∧ ∀ id ∈ l, id ∈ p'.pageTable)
    (hbounded : p'.pageTable.keys.length ≤ p.capacity) : Wf p' where
  replacer := by
    rw [hk.capacity]
    exact hreplacer
  bounded := hk.capacity ▸ hbounded
  framed id f hl := hk.frames ▸ hw.framed id f (hk.table id f hl)
  inj id id' f hl hl' := hw.inj id id' f (hk.table id f hl) (hk.table id' f hl')
  held f hf := by
    rw [hk.held] at hf
    obtain ⟨id, hl⟩ := hw.held f hf
    exact ⟨id, hk.pinned id f hl hf⟩
  aligned id hmem := by
    obtain ⟨f, hf⟩ := AList.exists_lookup hmem
    exact hw.aligned id (AList.mem_of_lookup (hk.table id f hf))

/-! ### Lines -/

theorem line_of_lookup {id : PageId} {f : Frame} {node : BTreeNode}
    (hl : p.pageTable.lookup id = some f) (hf : p.frames[f]? = some node) :
    p.line id = ⟨some (f, node.bare, node.isDirty),
      (p.diskManager.file.nodeAt id.val.toNat).map BTreeNode.bare,
      p.diskManager.file.Blank id.val.toNat⟩ := by
  simp only [line, hl, hf, Option.bind_some, Option.map_some]

theorem line_of_not_cached {id : PageId} (hl : p.pageTable.lookup id = none) :
    p.line id = ⟨none, (p.diskManager.file.nodeAt id.val.toNat).map BTreeNode.bare,
      p.diskManager.file.Blank id.val.toNat⟩ := by
  simp only [line, hl, Option.bind_none]

/-- A pool that was just made. -/
theorem Wf.new (d : DiskManager) (capacity : ℕ) (w : Option φ) : Wf (new d capacity w) where
  replacer := ⟨[], [], .new capacity, nofun⟩
  bounded := Nat.zero_le _
  framed _ _ h := by cases h
  inj _ _ _ h := by cases h
  held := nofun
  aligned _ h := absurd h (AList.notMem_empty _)

theorem Wf.node (hw : Wf p) {id : PageId} {f : Frame} (hl : p.pageTable.lookup id = some f) :
    ∃ node, p.frames[f]? = some node :=
  ⟨_, List.getElem?_eq_getElem (hw.framed id f hl)⟩

/-! ### The calls of the disk manager -/

/-- Every I/O call takes one entry of the script of faults. -/
theorem nextFault_apply (d : DiskManager) : DiskManager.nextFault d =
    some (.ok (d.faults.headD none), { d with faults := d.faults.tail }) := by
  obtain ⟨file, header, faults⟩ := d
  cases faults <;> rfl

/-- A call goes on with the next fault of the script, or without one. -/
theorem of_nextFault {x : Option ℕ → Exec DbError DiskManager α} {d d' : DiskManager}
    {r : Except DbError α} (h : (DiskManager.nextFault >>= x) d = some (r, d')) :
    (d.faults.headD none = none ∧ x none { d with faults := d.faults.tail } = some (r, d')) ∨
      ∃ k, d.faults.headD none = some k ∧
        x (some k) { d with faults := d.faults.tail } = some (r, d') := by
  rw [Exec.bind_of_ok (nextFault_apply d)] at h
  cases hfault : d.faults.headD none with
  | none =>
    rw [hfault] at h
    exact .inl ⟨rfl, h⟩
  | some k =>
    rw [hfault] at h
    exact .inr ⟨k, rfl, h⟩

/-- What a call of `write_all_at` can do: write all of the data, or a part of it and fail. -/
theorem writeAllAt_outcome {offset : ℕ} {data : List UInt8} {d d' : DiskManager}
    {r : Except DbError Unit} (h : DiskManager.writeAllAt offset data d = some (r, d')) :
    d'.header = d.header ∧ (d.faults = [] → d'.faults = []) ∧
      ((r = .ok () ∧ d'.file = d.file.writeAt offset data) ∨
        ∃ e k, r = .error e ∧ d.faults ≠ [] ∧ d'.file = d.file.writeAt offset (data.take k)) := by
  unfold DiskManager.writeAllAt at h
  have hfaults : d.faults = [] → d.faults.tail = [] := fun hno => by rw [hno]; rfl
  -- the next fault says how much of the data reaches the file
  obtain ⟨-, h⟩ | ⟨k, hfault, h⟩ := of_nextFault h
  · cases h
    exact ⟨rfl, hfaults, .inl ⟨rfl, rfl⟩⟩
  · cases h
    refine ⟨rfl, hfaults, .inr ⟨_, k, rfl, ?_, rfl⟩⟩
    intro hno
    rw [hno] at hfault
    cases hfault

theorem disk_outcome {x : Exec DbError DiskManager α} {r : Except DbError α}
    (h : disk x p = some (r, p')) :
    ∃ d, x p.diskManager = some (r, d) ∧ p' = { p with diskManager := d } :=
  Exec.zoom_eq_some.mp h

/-- A write somewhere else only extends the file. -/
theorem extended_of_write {id : PageId} {offset : ℕ} {data : List UInt8}
    (hdisj : id.val.toNat + pageSize ≤ offset ∨ offset + data.length ≤ id.val.toNat)
    (hfile : p'.diskManager.file = p.diskManager.file.writeAt offset data)
    (hcached : (p'.line id).cached = (p.line id).cached) :
    Extended (p.line id) (p'.line id) where
  cached := hcached
  stored c hc := by
    simp only [line, Option.map_eq_some_iff] at hc ⊢
    obtain ⟨node, hnode, rfl⟩ := hc
    refine ⟨node, ?_, rfl⟩
    rw [hfile]
    exact DataFile.nodeAt_writeAt_of_disjoint hdisj hnode
  blank hb := by
    simp only [line] at hb ⊢
    rw [hfile]
    exact hb.writeAt hdisj

/-- A page whose table entry and node are as before has the copy it had. -/
theorem cached_congr {id : PageId} (hl : p'.pageTable.lookup id = p.pageTable.lookup id)
    (hf : ∀ f, p.pageTable.lookup id = some f → p'.frames[f]? = p.frames[f]?) :
    (p'.line id).cached = (p.line id).cached := by
  simp only [line, hl]
  cases h : p.pageTable.lookup id with
  | none => rfl
  | some f => rw [Option.bind_some, Option.bind_some, hf f h]

theorem Wf.aligned_of_lookup (hw : Wf p) {id : PageId} {f : Frame}
    (hl : p.pageTable.lookup id = some f) : id.Aligned :=
  hw.aligned id (AList.mem_of_lookup hl)

/-- Other pages do not notice that the page `id` was written. -/
theorem extended_of_write_page (hw : Wf p) {id id' : PageId} {f : Frame} {data : List UInt8}
    {n : BTreeNode} (hl : p.pageTable.lookup id = some f) (ha : id'.Aligned) (hne : id' ≠ id)
    (hlen : data.length ≤ pageSize)
    (hfile : p'.diskManager.file = p.diskManager.file.writeAt id.val.toNat data)
    (htable : p'.pageTable = p.pageTable)
    (hframes : p'.frames = p.frames ∨ p'.frames = p.frames.set f n) :
    Extended (p.line id') (p'.line id') := by
  refine extended_of_write ?_ hfile (cached_congr (by rw [htable]) fun f' hl' => ?_)
  · have := ha.disjoint (hw.aligned_of_lookup hl) hne
    omega
  · rcases hframes with h | h
    · rw [h]
    · have hff : f ≠ f' := fun heq => hne (hw.inj _ _ _ hl' (heq ▸ hl))
      rw [h, List.getElem?_set_ne hff]

theorem encodePage_outcome {node : BTreeNode} {r : Except DbError Page}
    (h : encodePage node p = some (r, p')) :
    p' = p ∧ ∀ page, r = .ok page → node.encode Page.new = some (.ok (), page) := by
  rw [encodePage] at h
  split at h
  · cases h
  · cases h
    exact ⟨rfl, nofun⟩
  · next page henc =>
    cases h
    exact ⟨rfl, fun _ heq => by cases heq; exact henc⟩

/-! ### Taking a page out of the table -/

/-- A page the eviction predicate accepts is cached in a frame that no caller holds. -/
theorem unpinned_of_accepted {id : PageId} {s : Unit} (h : p.isUnpinned id = some (true, s)) :
    ∃ f, p.pageTable.lookup id = some f ∧ f ∉ p.held := by
  obtain ⟨f, hl, heq⟩ := Option.bind_eq_some_iff.mp h
  refine ⟨f, hl, fun hheld => ?_⟩
  have hone : p.strongCount f = 1 := by simpa using congrArg Prod.fst (Option.some.inj heq)
  have htable : 0 < (p.pageTable.entries.map Sigma.snd).count f :=
    List.count_pos_iff.mpr (List.mem_map.mpr ⟨⟨id, f⟩, AList.mem_lookup_iff.mp hl, rfl⟩)
  have hpos : 0 < p.held.count f := List.count_pos_iff.mpr hheld
  rw [strongCount] at hone
  omega

/-- Taking an unpinned clean page out of the table. -/
theorem Wf.removeEntry (hw : Wf p) {id : PageId} {f : Frame} {node : BTreeNode}
    (hl : p.pageTable.lookup id = some f) (hf : p.frames[f]? = some node)
    (hclean : node.isDirty = false) (hheld : f ∉ p.held)
    (hreplacer : ∃ is l, p.replacer.Threaded p.capacity is l ∧
      ∀ id' ∈ l, id' ∈ p.pageTable ∧ id' ≠ id)
    {p' : BufferPool φ} (hp' : p' = { p with pageTable := p.pageTable.erase id }) :
    Wf p' ∧ Worked p p' ∧ p'.pageTable.keys.length + 1 = p.pageTable.keys.length := by
  subst hp'
  have hmem : id ∈ p.pageTable.keys :=
    AList.mem_keys.mp (AList.mem_of_lookup hl)
  have hother : ∀ id', id' ≠ id → (p.pageTable.erase id).lookup id' = p.pageTable.lookup id' :=
    fun _ hne => AList.lookup_erase_ne hne
  have hlen : (p.pageTable.erase id).keys.length + 1 = p.pageTable.keys.length := by
    rw [AList.keys_erase, List.length_erase_of_mem hmem]
    have := List.length_pos_of_mem hmem
    omega
  -- a held frame is not the one that leaves
  have hk : Kept p { p with pageTable := p.pageTable.erase id } := by
    refine ⟨rfl, rfl, rfl, fun h => h, rfl, fun id' f' hl' => ?_, fun id' f' hl' hheld' => ?_⟩
    · by_cases hid : id' = id
      · rw [hid, AList.lookup_erase] at hl'
        cases hl'
      · rwa [hother id' hid] at hl'
    · have hid : id' ≠ id := fun heq => hheld (by
        rw [heq, hl, Option.some.injEq] at hl'
        rwa [hl'])
      rwa [hother id' hid]
  have hline : ∀ id', id' ≠ id →
      BufferPool.line { p with pageTable := p.pageTable.erase id } id' = p.line id' :=
    fun id' hid => by simp only [line, hother id' hid]
  refine ⟨hw.of_kept hk ?_ ?_, ⟨hk, fun id' ha hne => ?_, fun id' f' ha hne hl' hheld' => ?_⟩,
    hlen⟩
  · obtain ⟨is, l, ht, hsub⟩ := hreplacer
    exact ⟨is, l, ht, fun id' hid' => AList.mem_erase.mpr ⟨(hsub id' hid').2, (hsub id' hid').1⟩⟩
  · have := hw.bounded
    simp only
    omega
  · by_cases hid : id' = id
    · subst hid
      rw [line_of_lookup hl hf, line_of_not_cached
        (p := { p with pageTable := p.pageTable.erase id' }) (AList.lookup_erase ..), hclean]
      -- a clean page that nobody holds may leave the cache
      exact (Move.drop hheld).moves
    · rw [hline id' hid]
      exact .refl _
  · have hid : id' ≠ id := fun heq => hheld (by
      rw [heq, hl, Option.some.injEq] at hl'
      rwa [hl'])
    rw [hline id' hid]
    exact .refl _

/-! ### Flushing -/

section Flusher

variable [WalFlusher φ]

theorem flushWal_outcome {lsn : UInt64} {r : Except DbError Unit}
    (h : flushWal lsn p = some (r, p')) : ∃ w, p' = { p with walFlusher := w } := by
  rw [flushWal] at h
  split at h
  · cases h
    exact ⟨_, rfl⟩
  · cases h
    exact ⟨_, rfl⟩

/-- Everything a call of `flush_page` that returns can have done. -/
inductive FlushOutcome (p : BufferPool φ) (id : PageId) :
    Except DbError Unit → BufferPool φ → Prop
  | skipped (hclean : ∀ f node, p.pageTable.lookup id = some f → p.frames[f]? = some node →
      node.isDirty = false) : FlushOutcome p id (.ok ()) p
  | failed {f : Frame} {node : BTreeNode} {e : DbError} (w : Option φ) (d : DiskManager)
      (data : List UInt8) (hl : p.pageTable.lookup id = some f) (hf : p.frames[f]? = some node)
      (hdirty : node.isDirty = true) (hheader : d.header = p.diskManager.header)
      (hfaults : p.diskManager.faults = [] → d.faults = [] ∧ data = [])
      (hlen : data.length ≤ pageSize)
      (hfile : d.file = p.diskManager.file.writeAt id.val.toNat data)
      (himage : data = [] ∨
        ∃ page, node.encode Page.new = some (.ok (), page) ∧ data <+: page.data) :
      FlushOutcome p id (.error e) { p with walFlusher := w, diskManager := d }
  | written {f : Frame} {node : BTreeNode} (w : Option φ) (d : DiskManager) (page : Page)
      (hl : p.pageTable.lookup id = some f) (hf : p.frames[f]? = some node)
      (hdirty : node.isDirty = true) (henc : node.encode Page.new = some (.ok (), page))
      (hheader : d.header = p.diskManager.header)
      (hfaults : p.diskManager.faults = [] → d.faults = [])
      (hfile : d.file = p.diskManager.file.writeAt id.val.toNat page.data) :
      FlushOutcome p id (.ok ())
        { p with walFlusher := w, diskManager := d, frames := p.frames.set f node.clearDirty }

theorem flushPage_outcome {id : PageId} {r : Except DbError Unit}
    (h : flushPage id p = some (r, p')) : FlushOutcome p id r p' := by
  rw [flushPage, Exec.bind_of_ok (Exec.get_apply p)] at h
  cases hl : p.pageTable.lookup id with
  | none =>
    simp only [hl] at h
    cases h
    exact .skipped fun f node hf => by rw [hl] at hf; cases hf
  | some f =>
    simp only [hl] at h
    cases hf : p.frames[f]? with
    | none => rw [Exec.bind_of_none (by rw [readFrame, hf]; rfl)] at h; cases h
    | some node =>
      rw [Exec.bind_of_ok (show readFrame f p = some (.ok node, p) by rw [readFrame, hf]; rfl)] at h
      cases hdirty : node.isDirty with
      | false =>
        rw [hdirty] at h
        cases h
        refine .skipped fun f' node' hl' hf' => ?_
        rw [hl, Option.some.injEq] at hl'
        rw [← hl', hf, Option.some.injEq] at hf'
        rw [← hf', hdirty]
      | true =>
        rw [hdirty, if_pos rfl] at h
        -- nothing is written before the log and the encoder are done
        have hnothing : ∀ (w : Option φ) (e : DbError), FlushOutcome p id (.error e)
            { p with walFlusher := w } := fun w e =>
          .failed w p.diskManager [] hl hf hdirty rfl (fun h => ⟨h, rfl⟩) (Nat.zero_le _) rfl
            (.inl rfl)
        rcases Exec.bind_eq_some.mp h with ⟨e, rfl, hwal⟩ | ⟨_, p₁, hwal, h⟩
        · obtain ⟨w, rfl⟩ := flushWal_outcome hwal
          exact hnothing w e
        obtain ⟨w, rfl⟩ := flushWal_outcome hwal
        rcases Exec.bind_eq_some.mp h with ⟨e, rfl, henc⟩ | ⟨page, p₂, henc, h⟩
        · obtain ⟨rfl, -⟩ := encodePage_outcome henc
          exact hnothing w e
        obtain ⟨rfl, hpage⟩ := encodePage_outcome henc
        rcases Exec.bind_eq_some.mp h with ⟨e, rfl, hwrite⟩ | ⟨_, p₃, hwrite, h⟩
        · obtain ⟨d, hd, rfl⟩ := disk_outcome hwrite
          obtain ⟨hheader, hfaults, ⟨hok, -⟩ | ⟨_, k, -, hfault, hfile⟩⟩ := writeAllAt_outcome hd
          · cases hok
          · refine .failed w d (page.data.take k) hl hf hdirty hheader ?_ ?_ hfile ?_
            · exact fun hno => absurd hno hfault
            · rw [List.length_take, page.size]
              exact Nat.min_le_right ..
            · exact .inr ⟨page, hpage page rfl, List.take_prefix ..⟩
        · obtain ⟨d, hd, rfl⟩ := disk_outcome hwrite
          obtain ⟨hheader, hfaults, ⟨-, hfile⟩ | ⟨_, _, hok, -⟩⟩ := writeAllAt_outcome hd
          · cases h
            exact .written w d page hl hf hdirty (hpage page rfl) hheader hfaults hfile
          · cases hok

/-- A flush of one page leaves the others alone. -/
theorem Wf.flushPage_other (hw : Wf p) {id id' : PageId} {r : Except DbError Unit}
    (h : flushPage id p = some (r, p')) (ha : id'.Aligned) (hne : id' ≠ id) :
    Extended (p.line id') (p'.line id') := by
  cases flushPage_outcome h with
  | skipped => exact .refl _
  | @failed f node e w d data hl hf hdirty hheader hfaults hlen hfile =>
    exact extended_of_write_page (n := node) hw hl ha hne hlen hfile rfl (.inl rfl)
  | @written f node w d page hl hf hdirty henc hheader hfaults hfile =>
    exact extended_of_write_page hw hl ha hne (Nat.le_of_eq page.size) hfile rfl (.inr rfl)

/-- What `flush_page` keeps. -/
theorem Wf.flushPage (hw : Wf p) {id : PageId} {r : Except DbError Unit}
    (h : flushPage id p = some (r, p')) :
    Wf p' ∧ Kept p p' ∧ PageMoves p p' ∧ p'.pageTable = p.pageTable ∧
      p'.replacer = p.replacer := by
  have hother : ∀ id' : PageId, id'.Aligned → id' ≠ id →
      Moves BTreeNode.IsSlotted (· ∈ p.held) (p.diskManager.faults ≠ [])
        (p.line id') (p'.line id') := fun id' ha hne => (hw.flushPage_other h ha hne).moves
  cases flushPage_outcome h with
  | skipped => exact ⟨hw, .refl p, .refl p, rfl, rfl⟩
  | @failed f node e w d data hl hf hdirty hheader hfaults hlen hfile =>
    have hk : Kept p { p with walFlusher := w, diskManager := d } :=
      ⟨rfl, rfl, hheader, fun hno => (hfaults hno).1, rfl, fun _ _ h => h, fun _ _ h _ => h⟩
    refine ⟨hw.of_kept hk hw.replacer hw.bounded, hk, fun id' ha hne => ?_, rfl, rfl⟩
    by_cases hid : id' = id
    · subst hid
      -- a failed flush without a fault wrote nothing; with one it may have torn the page on disk
      by_cases hfault : p.diskManager.faults = []
      · rw [(hfaults hfault).2] at hfile
        simp only [line, hfile, DataFile.writeAt, if_true]
        exact .refl _
      · rw [line_of_lookup hl hf, line_of_lookup (p := { p with walFlusher := w, diskManager := d })
          hl hf, hdirty]
        exact (Move.tear hfault).moves
    · exact hother id' ha hid
  | @written f node w d page hl hf hdirty henc hheader hfaults hfile =>
    have hk : Kept p
        { p with walFlusher := w, diskManager := d, frames := p.frames.set f node.clearDirty } :=
      ⟨rfl, rfl, hheader, hfaults, List.length_set .., fun _ _ h => h, fun _ _ h _ => h⟩
    refine ⟨hw.of_kept hk hw.replacer hw.bounded, hk, fun id' ha hne => ?_, rfl, rfl⟩
    by_cases hid : id' = id
    · subst hid
      -- a written page is clean, and the disk has what it encodes to
      have hf' : (p.frames.set f node.clearDirty)[f]? = some node.clearDirty :=
        List.getElem?_set_self (hw.framed _ _ hl)
      rw [line_of_lookup hl hf, line_of_lookup
        (p := { p with
          walFlusher := w, diskManager := d, frames := p.frames.set f node.clearDirty })
        hl hf', hdirty, BTreeNode.bare_clearDirty, BTreeNode.isDirty_clearDirty]
      refine (Move.flush fun hs => ?_).moves
      rw [BTreeNode.isSlotted_bare] at hs
      rw [hfile, DataFile.nodeAt_written hs henc]
      exact congrArg some (BTreeNode.bare_decoded node)
    · exact hother id' ha hid

theorem flushPage_ok_clean (hw : Wf p) {id : PageId} (h : flushPage id p = some (.ok (), p'))
    {f : Frame} {node : BTreeNode} (hl : p'.pageTable.lookup id = some f)
    (hf : p'.frames[f]? = some node) : node.isDirty = false := by
  cases flushPage_outcome h with
  | skipped hclean => exact hclean f node hl hf
  | written w d page hl' hf' =>
    simp only at hl hf
    rw [hl', Option.some.injEq] at hl
    subst hl
    rw [List.getElem?_set_self (hw.framed _ _ hl'), Option.some.injEq] at hf
    rw [← hf, BTreeNode.isDirty_clearDirty]

/-! ### Evicting -/

/-- What `evict_page` does; when it succeeds the table has one page less. -/
theorem Wf.evictPage (hw : Wf p) {r : Except DbError Unit} (h : evictPage p = some (r, p')) :
    Wf p' ∧ Worked p p' ∧
      (r = .ok () → p'.pageTable.keys.length + 1 = p.pageTable.keys.length) := by
  obtain ⟨is, l, ht, hsub⟩ := hw.replacer
  rw [BufferPool.evictPage, Exec.bind_of_ok (Exec.get_apply p)] at h
  rcases ht.evictIf (fun _ => p.isUnpinned) () with ⟨-, hnone⟩ | ⟨found, s, q, is', ha, hc, ht'⟩
  · rw [hnone, Exec.bind_of_none (Exec.ofOption_none _)] at h
    cases h
  rw [hc, Exec.bind_of_ok (Exec.ofOption_some _ _)] at h
  dsimp only at h
  rw [Exec.bind_of_ok (Exec.modify_apply _ _)] at h
  have hk : Kept p { p with replacer := q } :=
    ⟨rfl, rfl, rfl, fun h => h, rfl, fun _ _ h => h, fun _ _ h _ => h⟩
  have hwork : Worked p { p with replacer := q } := .of_line hk fun _ => rfl
  cases found with
  | none =>
    cases h
    exact ⟨hw.of_kept hk ⟨is', l, ht', hsub⟩ hw.bounded, hwork, nofun⟩
  | some id =>
    obtain ⟨hid, _, _, hacc⟩ := Recency.evictIf_found _ ha
    obtain ⟨f, hl, hheld⟩ := unpinned_of_accepted hacc
    have hrest : ∀ id' ∈ l.erase id, id' ∈ p.pageTable ∧ id' ≠ id := fun id' hmem =>
      ⟨hsub id' (List.mem_of_mem_erase hmem), fun heq =>
        (ht.nodup.not_mem_erase) (heq ▸ hmem)⟩
    have hw₁ : Wf { p with replacer := q } :=
      hw.of_kept hk ⟨is', _, ht', fun id' hmem => (hrest id' hmem).1⟩ hw.bounded
    -- the flushed page is not pinned, so no pinned page is touched
    have hflushed : ∀ r₂ p₂, BufferPool.flushPage id { p with replacer := q } = some (r₂, p₂) →
        Worked p p₂ := by
      intro r₂ p₂ hflush
      obtain ⟨-, hk₂, hm₂, -⟩ := hw₁.flushPage hflush
      refine hwork.trans ⟨hk₂, hm₂, fun id' f' ha' _ hl' hheld' => ?_⟩
      refine hw₁.flushPage_other hflush ha' fun heq => hheld ?_
      subst heq
      obtain rfl : f = f' := Option.some.inj (hl.symm.trans hl')
      exact hheld'
    rcases Exec.bind_eq_some.mp h with ⟨e, rfl, hflush⟩ | ⟨_, p₂, hflush, h⟩
    · exact ⟨(hw₁.flushPage hflush).1, hflushed _ _ hflush, nofun⟩
    · obtain ⟨hw₂, hk₂, -, htable, hrepl⟩ := hw₁.flushPage hflush
      have hl₂ : p₂.pageTable.lookup id = some f := by rw [htable]; exact hl
      obtain ⟨node, hf₂⟩ := hw₂.node hl₂
      have hclean := flushPage_ok_clean hw₁ hflush hl₂ hf₂
      obtain ⟨hw₃, hwork₃, hlen⟩ := hw₂.removeEntry hl₂ hf₂ hclean
        (by rw [hk₂.held]; exact hheld)
        ⟨is', l.erase id, by rw [hrepl, hk₂.capacity]; exact ht', fun id' hmem => by
          rw [htable]
          exact hrest id' hmem⟩ rfl
      cases h
      exact ⟨hw₃, (hflushed _ _ hflush).trans hwork₃, fun _ => hlen.trans (by rw [htable])⟩

/-- What making room does; when it succeeds there is room. -/
theorem Wf.makeRoom (hw : Wf p) {r : Except DbError Unit} (h : makeRoom p = some (r, p')) :
    Wf p' ∧ Worked p p' ∧ (r = .ok () → p'.pageTable.keys.length < p'.capacity) := by
  rw [BufferPool.makeRoom, Exec.bind_of_ok (Exec.get_apply p)] at h
  split at h
  · obtain ⟨hw', hwork, hlen⟩ := hw.evictPage h
    refine ⟨hw', hwork, fun hr => ?_⟩
    have := hlen hr
    have := hw.bounded
    rw [hwork.kept.capacity]
    omega
  · next hroom =>
    cases h
    exact ⟨hw, .refl p, fun _ => Nat.lt_of_not_le hroom⟩

end Flusher

end BufferPool

end SmolDb
