import SmolDb.Pool.Coherence

/-!
# Fetching and making pages

`fetch_page` and `new_page` end by putting a node into a new frame and handing the frame to the
caller. On every page they are moves of the write-back cache, like the rest of the pool's work;
what is new is the frame the caller holds (`Fetched`) and, for `new_page`, the page that did not
exist before (`Created`). A call that fails has done nothing but the pool's own work.
-/

namespace SmolDb

open WriteBack

namespace BufferPool

variable {φ α : Type} {p p' p'' : BufferPool φ}

/-- What a pool keeps while a caller is handed a frame. -/
structure Grown (p p' : BufferPool φ) : Prop where
  capacity : p'.capacity = p.capacity
  faults : p.diskManager.faults = [] → p'.diskManager.faults = []
  pinned : ∀ id f, p.pageTable.lookup id = some f → f ∈ p.held → p'.pageTable.lookup id = some f
  frames : p.frames.length ≤ p'.frames.length

/-- A successful `fetch_page`. -/
structure Fetched (p p' : BufferPool φ) (id : PageId) (f : Frame) : Prop where
  grown : Grown p p'
  moves : ∀ id' : PageId, id'.Aligned → id'.val ≠ 0 → id' ≠ id →
    Moves BTreeNode.IsSlotted (· ∈ p.held) (p.diskManager.faults ≠ [])
      (p.line id') (p'.line id')
  hit : ∀ f', p.pageTable.lookup id = some f' → p'.line id = p.line id
  miss : p.pageTable.lookup id = none → id.Aligned → id.val ≠ 0 → ∃ v c,
    Moves BTreeNode.IsSlotted (· ∈ p.held) (p.diskManager.faults ≠ []) (p.line id) v ∧
      v.stored = some c ∧ p'.line id = v.loaded f c
  held : p'.held = f :: p.held
  lookup : p'.pageTable.lookup id = some f
  header : p'.diskManager.header = p.diskManager.header
  table : ∀ id' f', p'.pageTable.lookup id' = some f' → id' ≠ id →
    p.pageTable.lookup id' = some f'
  untouched : Untouched p p'

/-- A successful `new_page`. -/
structure Created (p p' : BufferPool φ) (id : PageId) (node : BTreeNode) (f : Frame) : Prop where
  grown : Grown p p'
  moves : ∀ id' : PageId, id'.Aligned → id'.val ≠ 0 → id' ≠ id →
    Moves BTreeNode.IsSlotted (· ∈ p.held) (p.diskManager.faults ≠ [])
      (p.line id') (p'.line id')
  store : id.Aligned → id.val ≠ 0 →
    Moves BTreeNode.IsSlotted (· ∈ p.held) (p.diskManager.faults ≠ [])
      (p.line id) { p'.line id with cached := none }
  held : p'.held = f :: p.held
  lookup : p'.pageTable.lookup id = some f
  frame : p'.frames[f]? = some node
  unused : p.frames.length ≤ f
  header : p'.diskManager.header = p.diskManager.header.advance
  offset : id.val = p.diskManager.header.nextFreeOffset
  noOverflow : p.diskManager.header.nextFreeOffset.toNat + pageSize < 2 ^ 64
  table : ∀ id' f', p'.pageTable.lookup id' = some f' → id' ≠ id →
    p.pageTable.lookup id' = some f'
  untouched : Untouched p p'

/-! ### Recording an access -/

/-- Recording an access to a page in the table keeps the pool well-formed. -/
theorem Wf.recorded (hw : Wf p) {id : PageId} (hid : id ∈ p.pageTable) {q : LruReplacer}
    (hq : p.replacer.recordAccess id = some q) : Wf { p with replacer := q } := by
  obtain ⟨is, l, ht, hsub⟩ := hw.replacer
  have hk : Kept p { p with replacer := q } :=
    ⟨rfl, rfl, rfl, fun h => h, rfl, fun _ _ h => h, fun _ _ h _ => h⟩
  refine hw.of_kept hk ?_ hw.bounded
  -- a page the replacer does not track is put on its list, which has room: `record_access` has not
  -- panicked
  by_cases hmem : id ∈ l
  · obtain ⟨q', is', hq', ht'⟩ := ht.recordAccess_of_mem hmem
    rw [hq, Option.some.injEq] at hq'
    subst hq'
    refine ⟨is', _, ht', fun id' hid' => ?_⟩
    rcases List.mem_cons.mp hid' with rfl | hid'
    · exact hid
    · exact hsub id' (List.mem_of_mem_erase hid')
  · by_cases hfull : l.length = p.capacity
    · rw [ht.recordAccess_of_full hmem hfull] at hq
      cases hq
    · obtain ⟨q', is', hq', ht'⟩ :=
        ht.recordAccess_of_notMem hmem (Nat.lt_of_le_of_ne ht.length_le hfull)
      rw [hq, Option.some.injEq] at hq'
      subst hq'
      refine ⟨is', _, ht', fun id' hid' => ?_⟩
      rcases List.mem_cons.mp hid' with rfl | hid'
      · exact hid
      · exact hsub id' hid'

theorem recordAccess_outcome {id : PageId} {r : Except DbError Unit}
    (h : recordAccess id p = some (r, p')) :
    ∃ q, p.replacer.recordAccess id = some q ∧ r = .ok () ∧ p' = { p with replacer := q } := by
  obtain ⟨q, hq, heq⟩ := Option.map_eq_some_iff.mp h
  cases heq
  exact ⟨q, hq, rfl, rfl⟩

theorem recordAccess_eq {id : PageId} {q : LruReplacer} (hq : p.replacer.recordAccess id = some q) :
    recordAccess id p = some (.ok (), { p with replacer := q }) := by
  rw [BufferPool.recordAccess, hq]
  rfl

/-- The pages a replacer tracks are no more than the pages in the table. -/
theorem length_le_keys {l : List PageId} (hnd : l.Nodup) (hsub : ∀ id ∈ l, id ∈ p.pageTable) :
    l.length ≤ p.pageTable.keys.length :=
  (List.subperm_of_subset hnd fun id hid => AList.mem_keys.mp (hsub id hid)).length_le

/-! ### Installing a node -/

/-- The pool with a node in a new frame that the caller holds. -/
def installed (p : BufferPool φ) (q : LruReplacer) (id : PageId) (node : BTreeNode) :
    BufferPool φ :=
  { p with
    replacer := q
    frames := p.frames ++ [node]
    pageTable := p.pageTable.insert id p.frames.length
    held := p.frames.length :: p.held }

/-- A table in which no two pages share a frame stays so when a page gets the next frame. -/
theorem inj_insert
    (hframed : ∀ id f, p.pageTable.lookup id = some f → f < p.frames.length)
    (hinj : ∀ id id' f, p.pageTable.lookup id = some f → p.pageTable.lookup id' = some f → id = id')
    (new : PageId) (id id' : PageId) (f : Frame)
    (h : (p.pageTable.insert new p.frames.length).lookup id = some f)
    (h' : (p.pageTable.insert new p.frames.length).lookup id' = some f) : id = id' := by
  have hother : ∀ {id : PageId}, id ≠ new →
      (p.pageTable.insert new p.frames.length).lookup id = some f →
      p.pageTable.lookup id = some f := fun hne hl => (AList.lookup_insert_ne hne).symm.trans hl
  have hself : ∀ {id : PageId}, id = new →
      (p.pageTable.insert new p.frames.length).lookup id = some f → f = p.frames.length := by
    rintro id rfl hl
    exact (Option.some.inj ((AList.lookup_insert _).symm.trans hl)).symm
  -- the next frame is none of those in the table
  by_cases hid : id = new <;> by_cases hid' : id' = new
  · rw [hid, hid']
  · exact absurd (hself hid h) (Nat.ne_of_lt (hframed id' f (hother hid' h')))
  · exact absurd (hself hid' h') (Nat.ne_of_lt (hframed id f (hother hid h)))
  · exact hinj id id' f (hother hid h) (hother hid' h')

/-- `install` panics only where the replacer does. -/
theorem install_eq {id : PageId} {q : LruReplacer} (hq : p.replacer.recordAccess id = some q)
    (node : BTreeNode) :
    install id node p = some (.ok p.frames.length, p.installed q id node) := by
  have hrec : BufferPool.recordAccess id
      { p with
        frames := p.frames ++ [node]
        pageTable := p.pageTable.insert id p.frames.length } = some (.ok (),
      { p with
        replacer := q
        frames := p.frames ++ [node]
        pageTable := p.pageTable.insert id p.frames.length }) :=
    recordAccess_eq hq
  rw [BufferPool.install, Exec.bind_of_ok (Exec.get_apply p),
    Exec.bind_of_ok (Exec.modify_apply _ _), Exec.bind_of_ok hrec]
  rfl

/-- What `install` does, to any pool. -/
theorem install_eq_some {id : PageId} {node : BTreeNode} {r : Except DbError Frame}
    (h : install id node p = some (r, p')) :
    ∃ q, p.replacer.recordAccess id = some q ∧ r = .ok p.frames.length ∧
      p' = p.installed q id node := by
  rw [BufferPool.install, Exec.bind_of_ok (Exec.get_apply p),
    Exec.bind_of_ok (Exec.modify_apply _ _)] at h
  obtain ⟨e, -, hrec⟩ | ⟨_, p₁, hrec, hclone⟩ := Exec.bind_eq_some.mp h
  · obtain ⟨q, -, hr, -⟩ := recordAccess_outcome hrec
    cases hr
  · obtain ⟨q, hq, -, rfl⟩ := recordAccess_outcome hrec
    cases hclone
    exact ⟨q, hq, rfl, rfl⟩

/-- **`install` never panics** when there is room, and keeps the pool well-formed. -/
theorem Wf.install (hw : Wf p) {id : PageId} (hnew : id ∉ p.pageTable) (ha : id.Aligned)
    (hroom : p.pageTable.keys.length < p.capacity) (node : BTreeNode) :
    ∃ q, p.replacer.recordAccess id = some q ∧
      install id node p = some (.ok p.frames.length, p.installed q id node) ∧
      Wf (p.installed q id node) := by
  obtain ⟨is, l, ht, hsub⟩ := hw.replacer
  -- the list is no longer than the table, so it has room when the table has
  have hlnew : id ∉ l := fun hmem => hnew (hsub id hmem)
  obtain ⟨q, is', hq, ht'⟩ := ht.recordAccess_of_notMem hlnew
    (Nat.lt_of_le_of_lt (length_le_keys ht.nodup hsub) hroom)
  have hkeys : (p.pageTable.insert id p.frames.length).keys = id :: p.pageTable.keys := by
    rw [AList.keys_insert, List.erase_of_not_mem (fun h => hnew (AList.mem_keys.mpr h))]
  have hother : ∀ id', id' ≠ id →
      (p.pageTable.insert id p.frames.length).lookup id' = p.pageTable.lookup id' :=
    fun _ hne => AList.lookup_insert_ne hne
  refine ⟨q, hq, install_eq hq node, ?_⟩
  exact
    { replacer := ⟨is', id :: l, ht', fun id' hid' => by
        refine (AList.mem_insert _).mpr ?_
        rcases List.mem_cons.mp hid' with rfl | hid'
        · exact .inl rfl
        · exact .inr (hsub id' hid')⟩
      bounded := by
        change (p.pageTable.insert id p.frames.length).keys.length ≤ p.capacity
        rw [hkeys]
        exact hroom
      framed := fun id' f hl => by
        change f < (p.frames ++ [node]).length
        rw [List.length_append, List.length_singleton]
        by_cases hid : id' = id
        · subst hid
          have hf : p.frames.length = f :=
            Option.some.inj ((AList.lookup_insert _).symm.trans hl)
          exact hf ▸ Nat.lt_succ_self _
        · exact Nat.lt_succ_of_lt (hw.framed id' f ((hother id' hid).symm.trans hl))
      inj := inj_insert hw.framed hw.inj id
      held := fun f hf => by
        rcases List.mem_cons.mp hf with rfl | hf
        · exact ⟨id, AList.lookup_insert _⟩
        · obtain ⟨id', hl⟩ := hw.held f hf
          exact ⟨id', (hother id' (AList.ne_of_lookup hnew hl)).trans hl⟩
      aligned := fun id' hmem => by
        rcases (AList.mem_insert _).mp hmem with rfl | hmem
        · exact ha
        · exact hw.aligned id' hmem }

theorem line_installed (q : LruReplacer) (id : PageId) (node : BTreeNode) :
    (p.installed q id node).line id =
      { p.line id with cached := some (p.frames.length, node.bare, node.isDirty) } := by
  have hf : (p.frames ++ [node])[p.frames.length]? = some node := by simp
  simp only [line, installed, AList.lookup_insert, Option.bind_some, hf, Option.map_some]

theorem Wf.line_installed_of_ne (hw : Wf p) (q : LruReplacer) {id id' : PageId} (hne : id' ≠ id)
    (node : BTreeNode) : (p.installed q id node).line id' = p.line id' := by
  have hcached : ((p.installed q id node).line id').cached = (p.line id').cached :=
    cached_congr (AList.lookup_insert_ne hne) fun f hl => by
      rw [installed]
      exact List.getElem?_append_left (hw.framed id' f hl)
  have hrest : (p.installed q id node).line id' =
      { p.line id' with cached := ((p.installed q id node).line id').cached } := rfl
  rw [hrest, hcached]

theorem grown_installed (q : LruReplacer) {id : PageId} (hnew : id ∉ p.pageTable)
    (node : BTreeNode) : Grown p (p.installed q id node) where
  capacity := rfl
  faults h := h
  pinned id' f hl _ := by
    exact (AList.lookup_insert_ne (AList.ne_of_lookup hnew hl)).trans hl
  frames := by
    rw [installed, List.length_append]
    exact Nat.le_add_right ..

/-- Installing a page leaves the lines of the cached pages alone. -/
theorem Wf.untouched_installed (hw : Wf p) (q : LruReplacer) {id : PageId}
    (hnew : id ∉ p.pageTable) (node : BTreeNode) : Untouched p (p.installed q id node) := by
  intro id' f _ _ hl _
  rw [hw.line_installed_of_ne q (AList.ne_of_lookup hnew hl)]
  exact .refl _


theorem Grown.trans_kept (h : Kept p p') (h' : Grown p' p'') : Grown p p'' where
  capacity := h'.capacity.trans h.capacity
  faults hf := h'.faults (h.faults hf)
  pinned id f hl hheld := h'.pinned id f (h.pinned id f hl hheld) (h.held ▸ hheld)
  frames := h.frames ▸ h'.frames

theorem Worked.untouched_trans (h : Worked p p') (h' : Untouched p' p'') : Untouched p p'' :=
  fun id f ha hne hl hheld =>
    (h.untouched id f ha hne hl hheld).trans
      (h' id f ha hne (h.kept.pinned id f hl hheld) (h.kept.held ▸ hheld))

/-! ### `fetch_page` -/

theorem readPage_outcome {id : PageId} {d d' : DiskManager} {r : Except DbError Page}
    (h : DiskManager.readPage id d = some (r, d')) :
    d'.file = d.file ∧ d'.header = d.header ∧ (d.faults = [] → d'.faults = []) ∧
      ∀ page, r = .ok page → d.file.readAt id.val.toNat pageSize = some page := by
  unfold DiskManager.readPage at h
  -- a read takes one fault from the script and changes nothing else
  have hfaults : d.faults = [] → d.faults.tail = [] := fun hno => by rw [hno]; rfl
  obtain ⟨-, h⟩ | ⟨k, -, h⟩ := of_nextFault h
  · cases hpage : d.file.readAt id.val.toNat pageSize with
    | none =>
      simp only [hpage, Option.some.injEq, Prod.mk.injEq] at h
      obtain ⟨rfl, rfl⟩ := h
      exact ⟨rfl, rfl, hfaults, fun _ heq => by cases heq⟩
    | some page =>
      simp only [hpage, Option.some.injEq, Prod.mk.injEq] at h
      obtain ⟨rfl, rfl⟩ := h
      exact ⟨rfl, rfl, hfaults, fun _ heq => by cases heq; rfl⟩
  · cases h
    exact ⟨rfl, rfl, hfaults, fun _ heq => by cases heq⟩

/-- `read_page` never panics, and it fails only with a fault or where the file has no page. -/
theorem readPage_returns (id : PageId) (d : DiskManager) :
    (∃ page d', DiskManager.readPage id d = some (.ok page, d') ∧
      d.file.readAt id.val.toNat pageSize = some page) ∨
    ∃ e d', DiskManager.readPage id d = some (.error e, d') ∧
      (d.faults = [] → d.file.readAt id.val.toNat pageSize = none) := by
  unfold DiskManager.readPage
  rw [Exec.bind_of_ok (nextFault_apply d)]
  cases hfault : d.faults.headD none with
  | some k =>
    refine .inr ⟨_, _, rfl, fun hno => ?_⟩
    rw [hno] at hfault
    cases hfault
  | none =>
    dsimp only
    -- without a fault the read fails only past the end of the file
    cases hpage : d.file.readAt id.val.toNat pageSize with
    | some page => exact .inl ⟨page, _, rfl, rfl⟩
    | none => exact .inr ⟨_, _, rfl, fun _ => rfl⟩

/-- A disk manager whose file is the same shows the same lines. -/
theorem worked_disk {d : DiskManager} (hfile : d.file = p.diskManager.file)
    (hheader : d.header = p.diskManager.header)
    (hfaults : p.diskManager.faults = [] → d.faults = []) :
    Worked p { p with diskManager := d } := by
  refine .of_line ⟨rfl, rfl, hheader, hfaults, rfl, fun _ _ h => h, fun _ _ h _ => h⟩ fun id => ?_
  simp only [line, hfile]

theorem Wf.hold (hw : Wf p) {id : PageId} {f : Frame} (hl : p.pageTable.lookup id = some f) :
    Wf { p with held := f :: p.held } :=
  { hw with
    held := fun f' hf' => by
      rcases List.mem_cons.mp hf' with rfl | hf'
      · exact ⟨id, hl⟩
      · exact hw.held f' hf' }

/-! ### Allocating a page -/

/-- The page that `allocate_page` would return is not cached, and neither is any page above. -/
structure Fresh (p : BufferPool φ) : Prop where
  aligned : p.diskManager.header.nextFreeOffset.toNat % pageSize = 0
  pos : pageSize ≤ p.diskManager.header.nextFreeOffset.toNat
  below : ∀ id ∈ p.pageTable, id.val.toNat < p.diskManager.header.nextFreeOffset.toNat

/-- An id that `allocate_page` can have returned. -/
structure Allocated (p : BufferPool φ) (id : PageId) : Prop where
  aligned : id.Aligned
  ne_zero : id.val ≠ 0
  below : id.val.toNat < p.diskManager.header.nextFreeOffset.toNat

/-- The page an allocation returns is none of those there are. -/
theorem Allocated.ne_new {id n : PageId} (h : Allocated p id)
    (hnew : n.val = p.diskManager.header.nextFreeOffset) : id ≠ n := by
  intro heq
  have hbelow := h.below
  rw [heq, hnew] at hbelow
  exact Nat.lt_irrefl _ hbelow

theorem Fresh.of_kept (hf : Fresh p) (hk : Kept p p') : Fresh p' where
  aligned := hk.header ▸ hf.aligned
  pos := hk.header ▸ hf.pos
  below id hmem := by
    obtain ⟨f, hl⟩ := AList.exists_lookup hmem
    rw [hk.header]
    exact hf.below id
      (AList.mem_of_lookup (hk.table id f hl))

theorem Fresh.of_fetched (hf : Fresh p) {id : PageId} {f : Frame} (h : Fetched p p' id f)
    (hid : id.val.toNat < p.diskManager.header.nextFreeOffset.toNat) : Fresh p' where
  aligned := h.header ▸ hf.aligned
  pos := h.header ▸ hf.pos
  below id' hmem := by
    rw [h.header]
    by_cases heq : id' = id
    · rw [heq]
      exact hid
    · obtain ⟨f', hl⟩ := AList.exists_lookup hmem
      exact hf.below id'
        (AList.mem_of_lookup (h.table id' f' hl heq))

theorem Created.next_toNat {id : PageId} {node : BTreeNode} {f : Frame}
    (h : Created p p' id node f) : p'.diskManager.header.nextFreeOffset.toNat =
      p.diskManager.header.nextFreeOffset.toNat + pageSize := by
  have hover := h.noOverflow
  rw [h.header, FileHeader.advance]
  simp only [UInt64.toNat_add, UInt64.toNat_ofNat', pageSize] at hover ⊢
  omega

theorem Fresh.of_created (hf : Fresh p) {id : PageId} {node : BTreeNode} {f : Frame}
    (h : Created p p' id node f) : Fresh p' where
  aligned := by
    have := hf.aligned
    rw [h.next_toNat]
    simp only [pageSize] at this ⊢
    omega
  pos := by
    rw [h.next_toNat]
    exact Nat.le_add_left ..
  below id' hmem := by
    rw [h.next_toNat]
    by_cases heq : id' = id
    · -- the counter has moved past the new page
      rw [heq, h.offset]
      exact Nat.lt_add_of_pos_right (by decide)
    · obtain ⟨f', hl⟩ := AList.exists_lookup hmem
      exact Nat.lt_add_right _ (hf.below id'
        (AList.mem_of_lookup (h.table id' f' hl heq)))

theorem Fresh.aligned_next (hf : Fresh p) {id : PageId} {node : BTreeNode} {f : Frame}
    (h : Created p p' id node f) : id.Aligned ∧ id.val ≠ 0 := by
  have hpos := hf.pos
  refine ⟨?_, fun hzero => ?_⟩
  · rw [PageId.Aligned, h.offset]
    exact hf.aligned
  · rw [← h.offset, hzero] at hpos
    exact absurd hpos (by decide)

/-- The pool after a call of `allocate_page`; only the header in memory has changed. -/
def allocated (p : BufferPool φ) : BufferPool φ :=
  { p with diskManager := { p.diskManager with header := p.diskManager.header.advance } }

theorem Wf.allocated (hw : Wf p) : Wf p.allocated :=
  ⟨hw.replacer, hw.bounded, hw.framed, hw.inj, hw.held, hw.aligned⟩

theorem allocatePage_outcome {r : Except DbError PageId}
    (h : disk DiskManager.allocatePage p = some (r, p')) :
    r = .ok ⟨p.diskManager.header.nextFreeOffset⟩ ∧
      p.diskManager.header.nextFreeOffset.toNat + pageSize < 2 ^ 64 ∧ p' = p.allocated := by
  obtain ⟨d, hd, rfl⟩ := disk_outcome h
  rw [DiskManager.allocatePage] at hd
  split at hd
  · next hover =>
    cases hd
    exact ⟨rfl, hover, rfl⟩
  · cases hd

/-! ### Saving the header -/

/-- The pool's own work. -/
def Quiet (p p' : BufferPool φ) : Prop := Wf p → Wf p' ∧ Kept p p' ∧ PageMoves p p'

theorem Quiet.refl (p : BufferPool φ) : Quiet p p := fun hw => ⟨hw, .refl p, .refl p⟩

theorem Quiet.trans (a b c : BufferPool φ) (h : Quiet a b) (h' : Quiet b c) : Quiet a c :=
  fun hw => by
    obtain ⟨hw₁, hk₁, hm₁⟩ := h hw
    obtain ⟨hw₂, hk₂, hm₂⟩ := h' hw₁
    exact ⟨hw₂, hk₁.trans hk₂, hm₁.trans hk₁ hm₂⟩

theorem syncAll_outcome {d d' : DiskManager} {r : Except DbError Unit}
    (h : DiskManager.syncAll d = some (r, d')) :
    d'.file = d.file ∧ d'.header = d.header ∧ (d.faults = [] → d'.faults = []) := by
  unfold DiskManager.syncAll at h
  have hfaults : d.faults = [] → d.faults.tail = [] := fun hno => by rw [hno]; rfl
  obtain ⟨-, h⟩ | ⟨k, -, h⟩ := of_nextFault h
  · cases h
    exact ⟨rfl, rfl, hfaults⟩
  · cases h
    exact ⟨rfl, rfl, hfaults⟩

theorem length_header_encode (header : FileHeader) : header.encode.length = fileHeaderSize := by
  simp [FileHeader.encode]

theorem saveHeader_outcome {d d' : DiskManager} {r : Except DbError Unit}
    (h : DiskManager.saveHeader d = some (r, d')) :
    d'.header = d.header ∧ (d.faults = [] → d'.faults = []) ∧
      ∃ data : List UInt8, data.length ≤ fileHeaderSize ∧ d'.file = d.file.writeAt 0 data := by
  rw [DiskManager.saveHeader, Exec.bind_of_ok (Exec.get_apply d)] at h
  -- a write that fails has written a part of the header
  have hwrite : ∀ r₁ d₁, DiskManager.writeAllAt 0 d.header.encode d = some (r₁, d₁) →
      d₁.header = d.header ∧ (d.faults = [] → d₁.faults = []) ∧
        ∃ data : List UInt8, data.length ≤ fileHeaderSize ∧ d₁.file = d.file.writeAt 0 data := by
    intro r₁ d₁ h₁
    obtain ⟨hheader, hfaults, ⟨-, hfile⟩ | ⟨_, k, -, -, hfile⟩⟩ := writeAllAt_outcome h₁
    · exact ⟨hheader, hfaults, _, Nat.le_of_eq (length_header_encode _), hfile⟩
    · refine ⟨hheader, hfaults, _, ?_, hfile⟩
      rw [List.length_take, length_header_encode]
      exact Nat.min_le_right ..
  rcases Exec.bind_eq_some.mp h with ⟨e, rfl, hw⟩ | ⟨_, d₁, hw, hsync⟩
  · exact hwrite _ _ hw
  · obtain ⟨hheader, hfaults, data, hlen, hfile⟩ := hwrite _ _ hw
    obtain ⟨hfile', hheader', hfaults'⟩ := syncAll_outcome hsync
    exact ⟨hheader'.trans hheader, fun h => hfaults' (hfaults h), data, hlen, hfile'.trans hfile⟩

/-- Saving the header touches no page behind it. -/
theorem within_saveHeader :
    Exec.Within Quiet (disk DiskManager.saveHeader : Exec DbError (BufferPool φ) Unit) := by
  intro p r p' h hw
  obtain ⟨d, hd, rfl⟩ := disk_outcome h
  obtain ⟨hheader, hfaults, data, hlen, hfile⟩ := saveHeader_outcome hd
  have hk : Kept p { p with diskManager := d } :=
    ⟨rfl, rfl, hheader, hfaults, rfl, fun _ _ h => h, fun _ _ h _ => h⟩
  refine ⟨hw.of_kept hk hw.replacer hw.bounded, hk, fun id ha hne => ?_⟩
  refine Extended.moves ?_
  -- the header lies below the first page
  refine extended_of_write ?_ hfile rfl
  have hle := ha.pageSize_le hne
  have hsize : fileHeaderSize ≤ pageSize := by decide
  omega

section Flusher

variable [WalFlusher φ]

/-- What `fetch_page` can do. -/
inductive FetchOutcome (p : BufferPool φ) (id : PageId) :
    Except DbError Frame → BufferPool φ → Prop
  /-- The page is cached. -/
  | hit {f : Frame} {q : LruReplacer} (hl : p.pageTable.lookup id = some f)
      (hrecord : p.replacer.recordAccess id = some q) :
      FetchOutcome p id (.ok f) { p with replacer := q, held := f :: p.held }
  /-- No room could be made. -/
  | full {e : DbError} {p₁ : BufferPool φ} (hl : p.pageTable.lookup id = none)
      (hroom : makeRoom p = some (.error e, p₁)) : FetchOutcome p id (.error e) p₁
  /-- The page could not be read. -/
  | unread {e : DbError} {p₁ : BufferPool φ} {d : DiskManager}
      (hl : p.pageTable.lookup id = none) (hroom : makeRoom p = some (.ok (), p₁))
      (hread : DiskManager.readPage id p₁.diskManager = some (.error e, d)) :
      FetchOutcome p id (.error e) { p₁ with diskManager := d }
  /-- The page could not be decoded. -/
  | corrupt {e : DbError} {p₁ : BufferPool φ} {d : DiskManager} {page : Page}
      (hl : p.pageTable.lookup id = none) (hroom : makeRoom p = some (.ok (), p₁))
      (hread : DiskManager.readPage id p₁.diskManager = some (.ok page, d))
      (hdecode : BTreeNode.decode page = some (.error e)) :
      FetchOutcome p id (.error e) { p₁ with diskManager := d }
  | loaded {p₁ : BufferPool φ} {d : DiskManager} {page : Page} {node : BTreeNode}
      {q : LruReplacer} (hl : p.pageTable.lookup id = none)
      (hroom : makeRoom p = some (.ok (), p₁))
      (hread : DiskManager.readPage id p₁.diskManager = some (.ok page, d))
      (hdecode : BTreeNode.decode page = some (.ok node))
      (hrecord : p₁.replacer.recordAccess id = some q) :
      FetchOutcome p id (.ok p₁.frames.length)
        (BufferPool.installed { p₁ with diskManager := d } q id node)

theorem fetchPage_outcome {id : PageId} {r : Except DbError Frame}
    (h : fetchPage id p = some (r, p')) : FetchOutcome p id r p' := by
  rw [BufferPool.fetchPage, Exec.bind_of_ok (Exec.get_apply p)] at h
  cases hl : p.pageTable.lookup id with
  | some f =>
    simp only [hl] at h
    obtain ⟨e, -, hrec⟩ | ⟨_, p₁, hrec, hclone⟩ := Exec.bind_eq_some.mp h
    · obtain ⟨q, -, hr, -⟩ := recordAccess_outcome hrec
      cases hr
    · obtain ⟨q, hq, -, rfl⟩ := recordAccess_outcome hrec
      cases hclone
      exact .hit hl hq
  -- room, read, decode, install: each step but the last can fail
  | none =>
    simp only [hl] at h
    obtain ⟨e, rfl, hroom⟩ | ⟨_, p₁, hroom, h₁⟩ := Exec.bind_eq_some.mp h
    · exact .full hl hroom
    obtain ⟨e, rfl, hread⟩ | ⟨page, p₂, hread, h₂⟩ := Exec.bind_eq_some.mp h₁
    · obtain ⟨d, hd, rfl⟩ := disk_outcome hread
      exact .unread hl hroom hd
    obtain ⟨d, hd, rfl⟩ := disk_outcome hread
    obtain ⟨e, rfl, hdecode⟩ | ⟨node, p₃, hdecode, hinstall⟩ := Exec.bind_eq_some.mp h₂
    · obtain ⟨_, hfailed, heq⟩ := Option.map_eq_some_iff.mp hdecode
      cases heq
      exact .corrupt hl hroom hd hfailed
    obtain ⟨_, hnode, heq⟩ := Option.map_eq_some_iff.mp hdecode
    cases heq
    obtain ⟨q, hq, rfl, rfl⟩ := install_eq_some hinstall
    -- the pool the room was made in is read off the equations, not off the goal
    have hloaded := FetchOutcome.loaded hl hroom hd hnode hq
    exact hloaded

omit [WalFlusher φ] in
/-- The page is cached: the caller holds one more clone of its frame. -/
theorem Wf.fetched_hit (hw : Wf p) {id : PageId} {f : Frame}
    (hl : p.pageTable.lookup id = some f) {q : LruReplacer}
    (hrecord : p.replacer.recordAccess id = some q) :
    Wf { p with replacer := q, held := f :: p.held } ∧
      Fetched p { p with replacer := q, held := f :: p.held } id f :=
  ⟨(hw.recorded (AList.mem_of_lookup hl) hrecord).hold hl,
    { grown := ⟨rfl, fun h => h, fun _ _ h _ => h, Nat.le_refl _⟩
      moves := fun _ _ _ _ => .refl _
      hit := fun _ _ => rfl
      miss := fun hno => by
        rw [hl] at hno
        cases hno
      held := rfl
      lookup := hl
      header := rfl
      table := fun _ _ h _ => h
      untouched := fun _ _ _ _ _ _ => .refl _ }⟩

omit [WalFlusher φ] in
/-- The page is loaded behind the work that made room for it. -/
theorem Wf.fetched_loaded {p₁ : BufferPool φ} (hw₁ : Wf p₁) (hwork : Worked p p₁) {id : PageId}
    (ha : id.Aligned) (hl : p.pageTable.lookup id = none)
    (hroom : p₁.pageTable.keys.length < p₁.capacity) {page : Page} {node : BTreeNode}
    (hpage : p₁.diskManager.file.readAt id.val.toNat pageSize = some page)
    (hdecode : BTreeNode.decode page = some (.ok node)) {q : LruReplacer}
    (hrecord : p₁.replacer.recordAccess id = some q) :
    Wf (p₁.installed q id node) ∧ Fetched p (p₁.installed q id node) id p₁.frames.length := by
  -- making room brings no page into the table
  have hnew : id ∉ p₁.pageTable := fun hmem => by
    obtain ⟨f, hf⟩ := AList.exists_lookup hmem
    rw [hwork.kept.table id f hf] at hl
    cases hl
  obtain ⟨q', hrecord', -, hw₂⟩ := hw₁.install hnew ha hroom node
  obtain rfl : q = q' := Option.some.inj (hrecord.symm.trans hrecord')
  refine ⟨hw₂, ?_⟩
  exact
    { grown := (grown_installed q hnew node).trans_kept hwork.kept
      moves := fun id' ha' hne' hid => by
        rw [hw₁.line_installed_of_ne q hid]
        exact hwork.moves id' ha' hne'
      hit := fun f' hf' => by
        rw [hl] at hf'
        cases hf'
      miss := fun _ ha' hne' => by
        refine ⟨_, node.bare, hwork.moves id ha' hne', ?_, ?_⟩
        · simp only [line, DataFile.nodeAt, hpage, Option.bind_some, hdecode, Option.map_some]
        · rw [line_installed, DataFile.isDirty_of_decode hdecode]
          rfl
      held := congrArg _ hwork.kept.held
      lookup := AList.lookup_insert _
      header := hwork.kept.header
      table := fun id' f' hl' hne' =>
        hwork.kept.table id' f' ((AList.lookup_insert_ne hne').symm.trans hl')
      untouched := hwork.untouched_trans (hw₁.untouched_installed q hnew node) }

/-- **`fetch_page`.** When it fails the pool did no more than make room. When it succeeds the
caller holds the frame of the page. -/
theorem Wf.fetchPage (hw : Wf p) {id : PageId} {r : Except DbError Frame}
    (h : fetchPage id p = some (r, p')) :
    (∀ e, r = .error e → Wf p' ∧ Worked p p') ∧
      ∀ f, r = .ok f → id.Aligned → Wf p' ∧ Fetched p p' id f := by
  -- reading a page is the pool's own work, whatever comes of it
  have hreads : ∀ {p₁ : BufferPool φ} {d : DiskManager} {r₁ : Except DbError Page},
      BufferPool.makeRoom p = some (.ok (), p₁) →
      DiskManager.readPage id p₁.diskManager = some (r₁, d) →
      Wf { p₁ with diskManager := d } ∧ Worked p { p₁ with diskManager := d } := by
    intro p₁ d r₁ hroom hread
    obtain ⟨hw₁, hwork₁, -⟩ := hw.makeRoom hroom
    obtain ⟨hfile, hheader, hfaults, -⟩ := readPage_outcome hread
    have hwork₂ := worked_disk hfile hheader hfaults
    exact ⟨hw₁.of_kept hwork₂.kept hw₁.replacer hw₁.bounded, hwork₁.trans hwork₂⟩
  cases fetchPage_outcome h with
  | hit hl hrecord =>
    refine ⟨nofun, fun f heq _ => ?_⟩
    cases heq
    exact hw.fetched_hit hl hrecord
  | full hl hroom =>
    obtain ⟨hw₁, hwork₁, -⟩ := hw.makeRoom hroom
    exact ⟨fun _ _ => ⟨hw₁, hwork₁⟩, nofun⟩
  | unread hl hroom hread => exact ⟨fun _ _ => hreads hroom hread, nofun⟩
  | corrupt hl hroom hread hdecode => exact ⟨fun _ _ => hreads hroom hread, nofun⟩
  | @loaded p₁ d page node q hl hroom hread hdecode hrecord =>
    refine ⟨nofun, fun f heq ha => ?_⟩
    cases heq
    obtain ⟨-, -, hlt⟩ := hw.makeRoom hroom
    obtain ⟨hw₂, hwork⟩ := hreads hroom hread
    obtain ⟨hfile, -, -, hpage⟩ := readPage_outcome hread
    have hpage' : d.file.readAt id.val.toNat pageSize = some page := by
      rw [hfile]
      exact hpage page rfl
    exact hw₂.fetched_loaded hwork ha hl (hlt rfl) hpage' hdecode hrecord

/-! ### `new_page` -/

/-- What `new_page` can do. -/
inductive NewPageOutcome (p : BufferPool φ) (isLeaf : Bool) :
    Except DbError (PageId × Frame) → BufferPool φ → Prop
  /-- No room could be made. -/
  | full {e : DbError} {p₁ : BufferPool φ} (hroom : makeRoom p = some (.error e, p₁)) :
      NewPageOutcome p isLeaf (.error e) p₁
  | made {p₁ : BufferPool φ} {q : LruReplacer} (hroom : makeRoom p = some (.ok (), p₁))
      (hover : p₁.diskManager.header.nextFreeOffset.toNat + pageSize < 2 ^ 64)
      (hrecord : p₁.replacer.recordAccess ⟨p₁.diskManager.header.nextFreeOffset⟩ = some q) :
      NewPageOutcome p isLeaf
        (.ok (⟨p₁.diskManager.header.nextFreeOffset⟩, p₁.frames.length))
        (p₁.allocated.installed q ⟨p₁.diskManager.header.nextFreeOffset⟩
          (BTreeNode.newEmpty ⟨p₁.diskManager.header.nextFreeOffset⟩ isLeaf))

theorem newPage_outcome {isLeaf : Bool} {r : Except DbError (PageId × Frame)}
    (h : newPage isLeaf p = some (r, p')) : NewPageOutcome p isLeaf r p' := by
  rw [BufferPool.newPage] at h
  obtain ⟨e, rfl, hroom⟩ | ⟨_, p₁, hroom, h₁⟩ := Exec.bind_eq_some.mp h
  · exact .full hroom
  obtain ⟨e, -, halloc⟩ | ⟨id, p₂, halloc, h₂⟩ := Exec.bind_eq_some.mp h₁
  · exact absurd (allocatePage_outcome halloc).1 nofun
  -- an offset that does not wrap around; neither it nor the installation can fail
  obtain ⟨hid, hover, rfl⟩ := allocatePage_outcome halloc
  obtain rfl := Except.ok.inj hid
  obtain ⟨e, -, hinstall⟩ | ⟨f, p₃, hinstall, hpure⟩ := Exec.bind_eq_some.mp h₂
  · obtain ⟨q, -, hr, -⟩ := install_eq_some hinstall
    cases hr
  · obtain ⟨q, hq, hr, rfl⟩ := install_eq_some hinstall
    cases hr
    cases hpure
    exact .made hroom hover hq

/-- **`new_page`.** When it fails the pool did no more than make room. When it succeeds the caller
holds the frame of a page that did not exist before. -/
theorem Wf.newPage (hw : Wf p) (hfresh : Fresh p) {isLeaf : Bool}
    {r : Except DbError (PageId × Frame)} (h : newPage isLeaf p = some (r, p')) :
    Wf p' ∧ (∀ e, r = .error e → Worked p p') ∧
      ∀ id f, r = .ok (id, f) → Created p p' id (BTreeNode.newEmpty id isLeaf) f := by
  cases newPage_outcome h with
  | full hroom =>
    obtain ⟨hw₁, hwork₁, -⟩ := hw.makeRoom hroom
    exact ⟨hw₁, fun _ _ => hwork₁, nofun⟩
  | @made p₁ q hroom hover hrecord =>
    obtain ⟨hw₁, hwork₁, hlt⟩ := hw.makeRoom hroom
    have hfresh₁ : Fresh p₁ := hfresh.of_kept hwork₁.kept
    have hoffset : p₁.diskManager.header.nextFreeOffset =
        p.diskManager.header.nextFreeOffset := by
      rw [hwork₁.kept.header]
    set new : PageId := ⟨p₁.diskManager.header.nextFreeOffset⟩ with hdef
    -- the page lies above all those in the table
    have hnew : new ∉ p₁.allocated.pageTable := fun hmem =>
      Nat.lt_irrefl _ (hfresh₁.below new hmem)
    obtain ⟨q', hrecord', -, hw₂⟩ := hw₁.allocated.install hnew hfresh₁.aligned (hlt rfl)
      (BTreeNode.newEmpty new isLeaf)
    obtain rfl : q = q' := Option.some.inj (hrecord.symm.trans hrecord')
    refine ⟨hw₂, nofun, fun id f heq => ?_⟩
    cases heq
    have hgrown := grown_installed q hnew (BTreeNode.newEmpty new isLeaf)
    have hline : ∀ id', id' ≠ new → (p₁.allocated.installed q new
        (BTreeNode.newEmpty new isLeaf)).line id' = p₁.line id' :=
      fun id' hid' => hw₁.allocated.line_installed_of_ne q hid' _
    have huntouched : Untouched p₁ (p₁.allocated.installed q new
        (BTreeNode.newEmpty new isLeaf)) := fun id' f' _ _ hl' _ => by
      rw [hline id' (AList.ne_of_lookup hnew hl')]
      exact .refl _
    exact
      { grown := Grown.trans_kept hwork₁.kept
          ⟨rfl, fun h => h, hgrown.pinned, hgrown.frames⟩
        moves := fun id' ha' hne' hid' => by
          rw [hline id' hid']
          exact hwork₁.moves id' ha' hne'
        store := fun ha' hne' => by
          refine (hwork₁.moves _ ha' hne').trans ?_
          have hnone : p₁.pageTable.lookup new = none := AList.lookup_eq_none.mpr hnew
          rw [line_of_not_cached hnone, line_installed]
          exact .refl _
        held := congrArg _ hwork₁.kept.held
        lookup := AList.lookup_insert _
        frame := by simp [installed, BufferPool.allocated]
        unused := Nat.le_of_eq hwork₁.kept.frames.symm
        header := by
          change p₁.allocated.diskManager.header = _
          rw [BufferPool.allocated, hwork₁.kept.header]
        offset := hoffset
        noOverflow := hoffset ▸ hover
        table := fun id' f' hl' hne' =>
          hwork₁.kept.table id' f' ((AList.lookup_insert_ne hne').symm.trans hl')
        untouched := hwork₁.untouched_trans huntouched }

/-- Where there is room, making a page changes no other one. -/
theorem Wf.line_newPage (hw : Wf p) (hroom : p.pageTable.keys.length < p.capacity) {isLeaf : Bool}
    {id : PageId} {f : Frame} (hrun : BufferPool.newPage isLeaf p = some (.ok (id, f), p')) :
    p'.line id = { p.line id with cached := some (f, (BTreeNode.newEmpty id isLeaf).bare, false) } ∧
      ∀ id', id' ≠ id → p'.line id' = p.line id' := by
  have hmake : BufferPool.makeRoom p = some (.ok (), p) := by
    rw [BufferPool.makeRoom, Exec.bind_of_ok (Exec.get_apply p), if_neg (Nat.not_le_of_lt hroom)]
    rfl
  generalize hr : Except.ok (id, f) = r at hrun
  cases newPage_outcome hrun with
  | full => cases hr
  | @made p₁ q hmade hover hrecord =>
    cases hr
    rw [hmake] at hmade
    cases hmade
    have hclean : (BTreeNode.newEmpty ⟨p.diskManager.header.nextFreeOffset⟩ isLeaf).isDirty =
        false := by cases isLeaf <;> rfl
    refine ⟨?_, fun id' hne => hw.allocated.line_installed_of_ne q hne _⟩
    rw [line_installed, hclean]
    rfl

/-- A page is made once there is room for it. -/
theorem newPage_ok {p₁ p₂ : BufferPool φ} {isLeaf : Bool} {f : Frame}
    (hroom : makeRoom p = some (.ok (), p₁))
    (hover : p₁.diskManager.header.nextFreeOffset.toNat + pageSize < 2 ^ 64)
    (hinstall : install ⟨p₁.diskManager.header.nextFreeOffset⟩
      (BTreeNode.newEmpty ⟨p₁.diskManager.header.nextFreeOffset⟩ isLeaf) p₁.allocated =
        some (.ok f, p₂)) :
    newPage isLeaf p = some (.ok (⟨p₁.diskManager.header.nextFreeOffset⟩, f), p₂) := by
  have halloc : disk DiskManager.allocatePage p₁ =
      some (.ok ⟨p₁.diskManager.header.nextFreeOffset⟩, p₁.allocated) := by
    unfold disk Exec.zoom DiskManager.allocatePage
    dsimp only
    rw [if_pos hover]
    rfl
  refine (Exec.bind_of_ok hroom).trans ?_
  refine (Exec.bind_of_ok halloc).trans ?_
  exact (Exec.bind_of_ok hinstall).trans rfl

/-! ### Flushing everything -/

theorem within_flushPage (id : PageId) :
    Exec.Within Quiet (flushPage id : Exec DbError (BufferPool φ) Unit) :=
  fun _ _ _ h hw => by
    obtain ⟨hw', hk, hm, -⟩ := hw.flushPage h
    exact ⟨hw', hk, hm⟩

/-- **`flush_all_pages`** does the pool's own work, wherever it is left. -/
theorem within_flushAllPages (order : HashOrder) :
    Exec.Within Quiet (flushAllPages order : Exec DbError (BufferPool φ) Unit) :=
  Exec.Within.bind Quiet.trans (Exec.Within.of_unchanged Quiet.refl fun _ _ _ h => by cases h; rfl)
    fun _ => Exec.Within.bind Quiet.trans
      (Exec.Within.forEach Quiet.refl Quiet.trans fun id _ => within_flushPage id)
      fun _ => within_saveHeader

end Flusher

end BufferPool

end SmolDb
