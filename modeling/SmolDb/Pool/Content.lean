import SmolDb.Pool.Fetch

/-!
# The content of a page

`p.Has id c` says that the pool and its file together hold the content `c` for the page `id`: in
the cache, or in the file when the page is not cached. Callers see contents only. The pool's own
work, fetching and making other pages keep every content; writing through a held frame replaces
the content of one page and of no other.
-/

namespace SmolDb

open WriteBack

namespace BufferPool

variable {φ α : Type} {p p' p'' : BufferPool φ}

/-- The page has the content `c`. -/
def Has (p : BufferPool φ) (id : PageId) (c : BTreeNode) : Prop :=
  Holds BTreeNode.IsSlotted c (p.line id)

/-- The image of the page in the file has an LSN that is not below this one. -/
def WrittenSince (p : BufferPool φ) (id : PageId) (lsn : UInt64) : Prop :=
  ∃ c, (p.line id).stored = some c ∧ lsn ≤ c.getLastLsn

theorem Has.slotted {id : PageId} {c : BTreeNode} (h : p.Has id c) : c.IsSlotted := h.1

/-- The node in the frame of a page has the content of the page. -/
theorem Has.node {id : PageId} {c : BTreeNode} (h : p.Has id c) {f : Frame} {node : BTreeNode}
    (hl : p.pageTable.lookup id = some f) (hf : p.frames[f]? = some node) : node.bare = c :=
  Holds.eq_of_cached h (congrArg Line.cached (line_of_lookup hl hf))

theorem Has.unique {id : PageId} {c c' : BTreeNode} (h : p.Has id c) (h' : p.Has id c') :
    c = c' := by
  obtain ⟨-, ⟨f, hf⟩ | ⟨hs, hc⟩⟩ := h
  · exact Holds.eq_of_cached h' hf
  · obtain ⟨-, ⟨f, hf⟩ | ⟨hs', -⟩⟩ := h'
    · exact ((hc _ _ _ hf).1).symm
    · exact Option.some.inj (hs.symm.trans hs')

/-- A page that is not cached has the content of its image in the file. -/
theorem Has.of_stored {id : PageId} {node : BTreeNode} (hl : p.pageTable.lookup id = none)
    (hnode : p.diskManager.file.nodeAt id.val.toNat = some node) (hs : node.IsSlotted) :
    p.Has id node.bare := by
  rw [Has, line_of_not_cached hl, hnode]
  exact ⟨(BTreeNode.isSlotted_bare node).mpr hs, .inr ⟨rfl, nofun⟩⟩

/-- What is in the copy of a page is in its frame. -/
theorem frame_of_cached {id : PageId} {f : Frame} {c : BTreeNode} {d : Bool}
    (h : (p.line id).cached = some (f, c, d)) :
    ∃ node, p.pageTable.lookup id = some f ∧ p.frames[f]? = some node ∧ node.bare = c ∧
      node.isDirty = d := by
  obtain ⟨f', hl, hcopy⟩ := Option.bind_eq_some_iff.mp h
  obtain ⟨node, hnode, heq⟩ := Option.map_eq_some_iff.mp hcopy
  cases heq
  exact ⟨node, hl, hnode, rfl, rfl⟩

/-- A page whose frame a caller holds keeps the content of its node. -/
theorem Untouched.frame (h : Untouched p p') (hw' : Wf p') {id : PageId} {f : Frame}
    {node : BTreeNode} (ha : id.Aligned) (hne : id.val ≠ 0) (hl : p.pageTable.lookup id = some f)
    (hheld : f ∈ p.held) (hl' : p'.pageTable.lookup id = some f)
    (hf : p.frames[f]? = some node) :
    ∃ node', p'.frames[f]? = some node' ∧ node'.bare = node.bare := by
  obtain ⟨node', hf'⟩ := hw'.node hl'
  have hcached := (h id f ha hne hl hheld).cached
  rw [line_of_lookup hl' hf', line_of_lookup hl hf] at hcached
  simp only [Option.some.injEq, Prod.mk.injEq, true_and] at hcached
  exact ⟨node', hf', hcached.1⟩

/-- A content without a dirty copy is in the file. -/
theorem Has.stored {id : PageId} {c : BTreeNode} (h : p.Has id c)
    (hclean : ∀ f node, p.pageTable.lookup id = some f → p.frames[f]? = some node →
      node.isDirty = false) :
    ∃ node, p.diskManager.file.nodeAt id.val.toNat = some node ∧ node.bare = c := by
  obtain ⟨-, ⟨f, hf⟩ | ⟨hstored, -⟩⟩ := h
  · obtain ⟨node, hl, hnode, -, hdirty⟩ := frame_of_cached hf
    rw [hclean f node hl hnode] at hdirty
    cases hdirty
  · exact Option.map_eq_some_iff.mp hstored

/-- A pool that was just made has the contents of the file. -/
theorem Has.new {d : DiskManager} {id : PageId} {node : BTreeNode}
    (hnode : d.file.nodeAt id.val.toNat = some node) (hs : node.IsSlotted) (capacity : ℕ)
    (w : Option φ) : (new d capacity w).Has id node.bare :=
  .of_stored rfl hnode hs

theorem stored_new (d : DiskManager) (capacity : ℕ) (w : Option φ) (id : PageId) :
    ((new d capacity w).line id).stored = (d.file.nodeAt id.val.toNat).map BTreeNode.bare := rfl

/-! ### What is shown -/

section Shown

variable {id : PageId} {c : BTreeNode}

/-- Contents are bare. -/
theorem bare_of_shows (h : (p.line id).shows = some c) : c.bare = c := by
  have hcached : ∀ f c d, (p.line id).cached = some (f, c, d) → c.bare = c := by
    intro f c d hf
    obtain ⟨node, -, -, rfl, -⟩ := frame_of_cached hf
    exact BTreeNode.bare_bare node
  have hstored : ∀ c, (p.line id).stored = some c → c.bare = c := by
    intro c hs
    obtain ⟨node, -, rfl⟩ := Option.map_eq_some_iff.mp hs
    exact BTreeNode.bare_bare node
  -- both what is cached and what is stored are contents, without flags
  unfold Line.shows at h
  split at h
  · next f c' d hf =>
    rw [Option.some.injEq] at h
    exact h ▸ hcached f c' d hf
  · exact hstored c h

theorem bare_of_has (h : p.Has id c) : c.bare = c := bare_of_shows (Holds.shows h)

/-- A pool whose nodes are slotted, and whose clean copies are those of the file, except for pages
that were never written. -/
structure Orderly (p : BufferPool φ) : Prop where
  wf : Wf p
  slotted : ∀ id : PageId, id.Aligned → id.val ≠ 0 → ∀ c, (p.line id).shows = some c → c.IsSlotted
  clean : ∀ id : PageId, id.Aligned → id.val ≠ 0 → ∀ f c, (p.line id).cached = some (f, c, false) →
    (p.line id).stored = some c ∨ (p.line id).blank

/-- A pool that was just made over a file of slotted nodes. -/
theorem Orderly.new {d : DiskManager} (h : ∀ id : PageId, id.Aligned → id.val ≠ 0 →
    ∀ node, d.file.nodeAt id.val.toNat = some node → node.IsSlotted) (capacity : ℕ)
    (w : Option φ) : Orderly (new d capacity w) where
  wf := .new d capacity w
  slotted id ha hne c hc := by
    -- nothing is cached, so the lines show what the file has
    have hline : (BufferPool.new d capacity w).line id = ⟨none, _, _⟩ :=
      line_of_not_cached (AList.lookup_empty id)
    rw [hline] at hc
    obtain ⟨node, hnode, rfl⟩ := Option.map_eq_some_iff.mp hc
    exact (BTreeNode.isSlotted_bare node).mpr (h id ha hne node hnode)
  clean id _ _ f c hf := by
    have hline : (BufferPool.new d capacity w).line id = ⟨none, _, _⟩ :=
      line_of_not_cached (AList.lookup_empty id)
    rw [hline] at hf
    cases hf

/-- A page that is shown is saved or was never written. -/
theorem Orderly.fleeting (h : Orderly p) (ha : id.Aligned) (hne : id.val ≠ 0)
    (hc : (p.line id).shows = some c) (hno : ¬ p.Has id c) : Fleeting c (p.line id) := by
  have hs := h.slotted id ha hne c hc
  have hclean := h.clean id ha hne
  unfold Line.shows at hc
  split at hc
  · next f c' d hf =>
    obtain rfl : c' = c := Option.some.inj hc
    cases d with
    | true => exact absurd ⟨hs, .inl ⟨f, hf⟩⟩ hno
    | false =>
      -- a clean copy: of the image in the file, or of a page that has none
      have hcopy : ∀ g c'' d, (p.line id).cached = some (g, c'', d) → c'' = c' ∧ d = false := by
        intro g c'' d hg
        rw [hf] at hg
        cases hg
        exact ⟨rfl, rfl⟩
      obtain hstored | hblank := hclean f c' hf
      · exact absurd ⟨hs, .inr ⟨hstored, hcopy⟩⟩ hno
      · exact ⟨hblank, hcopy⟩
  · next hnone =>
    refine absurd ⟨hs, .inr ⟨hc, fun g c'' d hg => ?_⟩⟩ hno
    rw [hnone] at hg
    cases hg

/-- Making a page where there is room, in a place that was never written. -/
theorem Orderly.newPage [WalFlusher φ] (h : Orderly p) (hfresh : Fresh p)
    (hroom : p.pageTable.keys.length < p.capacity) {isLeaf : Bool} {f : Frame}
    (hrun : BufferPool.newPage isLeaf p = some (.ok (id, f), p')) (hblank : (p.line id).blank) :
    Orderly p' ∧ Fleeting (BTreeNode.newEmpty id isLeaf).bare (p'.line id) := by
  obtain ⟨hw', -, -⟩ := h.wf.newPage hfresh hrun
  obtain ⟨hline, hother⟩ := h.wf.line_newPage hroom hrun
  constructor
  · refine ⟨hw', fun id' ha hne c hc => ?_, fun id' ha hne g c hcached => ?_⟩
    · by_cases hid : id' = id
      · subst hid
        rw [hline] at hc
        obtain rfl := Option.some.inj hc
        exact (BTreeNode.isSlotted_bare _).mpr (BTreeNode.isSlotted_newEmpty id' isLeaf)
      · rw [hother id' hid] at hc
        exact h.slotted id' ha hne c hc
    · by_cases hid : id' = id
      · subst hid
        rw [hline]
        exact .inr hblank
      · rw [hother id' hid] at hcached ⊢
        exact h.clean id' ha hne g c hcached
  · rw [hline]
    refine ⟨hblank, fun g c' d hcached => ?_⟩
    cases hcached
    exact ⟨rfl, rfl⟩

/-- What a place that was never written gives back. -/
theorem stored_of_blank (hb : (p.line id).blank) (hs : (p.line id).stored = some c) :
    c = zeroNode.bare := by
  obtain ⟨node, hnode, rfl⟩ := Option.map_eq_some_iff.mp hs
  obtain hnone | hzero := DataFile.Blank.nodeAt hb
  · rw [hnone] at hnode
    cases hnode
  · rw [hzero] at hnode
    cases hnode
    rfl

end Shown

/-! ### The pool's own work -/

theorem Has.moves {id : PageId} {c : BTreeNode} (h : p.Has id c)
    (hno : p.diskManager.faults = [])
    (hm : Moves BTreeNode.IsSlotted (· ∈ p.held) (p.diskManager.faults ≠ [])
      (p.line id) (p'.line id)) : p'.Has id c :=
  Holds.moves (fun hf => hf hno) hm h

/-- To every page a fetch is a request that the cache serves. -/
theorem Fetched.serves {id id' : PageId} {f : Frame} (h : Fetched p p' id' f) (ha : id.Aligned)
    (hne : id.val ≠ 0) :
    Serves BTreeNode.IsSlotted (· ∈ p.held) (p.diskManager.faults ≠ [])
      (p.line id) (p'.line id) := by
  by_cases hid : id = id'
  · subst hid
    cases hl : p.pageTable.lookup id with
    | some f' =>
      rw [h.hit f' hl]
      exact .refl _
    | none =>
      obtain ⟨v, c', hm, hs, hv⟩ := h.miss hl ha hne
      have hnone : v.cached = none :=
        hm.not_cached (congrArg Line.cached (line_of_not_cached hl))
      rw [hv]
      exact hm.serves.trans (Serve.load f hnone hs).serves
  · exact (h.moves id ha hne hid).serves

/-- **A fetch keeps every content.** -/
theorem Has.fetched {id id' : PageId} {c : BTreeNode} {f : Frame} (h : p.Has id c)
    (hno : p.diskManager.faults = []) (ha : id.Aligned) (hne : id.val ≠ 0)
    (hfetch : Fetched p p' id' f) : p'.Has id c :=
  Holds.serves (fun hf => hf hno) (hfetch.serves ha hne) h

/-- The frame a fetch returns has what the page showed. -/
theorem Fetched.shows {id : PageId} {f : Frame} {node c : BTreeNode} (h : Fetched p p' id f)
    (ha : id.Aligned) (hne : id.val ≠ 0) (hf : p'.frames[f]? = some node)
    (hc : (p.line id).shows = some c) : node.bare = c := by
  have hcached : (p'.line id).cached = some (f, node.bare, node.isDirty) :=
    congrArg Line.cached (line_of_lookup h.lookup hf)
  cases hl : p.pageTable.lookup id with
  | some f' =>
    rw [← h.hit f' hl, Line.shows, hcached] at hc
    exact Option.some.inj hc
  | none =>
    obtain ⟨v, c', hm, hs, hv⟩ := h.miss hl ha hne
    have hnone : (p.line id).cached = none := congrArg Line.cached (line_of_not_cached hl)
    rw [Line.shows, hnone] at hc
    rw [(hm.extended hnone).stored c hc, Option.some.injEq] at hs
    rw [hv, Line.loaded, Option.some.injEq, Prod.mk.injEq, Prod.mk.injEq] at hcached
    rw [hs, hcached.2.1]

/-- **What a fetch returns** is the frame of the page's content. -/
theorem Has.fetched_node (hw : Wf p') {id : PageId} {c : BTreeNode} {f : Frame} (h : p.Has id c)
    (hno : p.diskManager.faults = []) (ha : id.Aligned) (hne : id.val ≠ 0)
    (hfetch : Fetched p p' id f) : ∃ node, p'.frames[f]? = some node ∧ node.bare = c := by
  obtain ⟨node, hf⟩ := hw.node hfetch.lookup
  exact ⟨node, hf, (h.fetched hno ha hne hfetch).node hfetch.lookup hf⟩

/-- To the page the call that led from `p` to `p'` is a request that the cache serves. -/
def Served (p p' : BufferPool φ) (id : PageId) : Prop :=
  Serves BTreeNode.IsSlotted (· ∈ p.held) (p.diskManager.faults ≠ []) (p.line id) (p'.line id)

/-- The page was served, and then a caller put a dirty node with the content `c` into its
frame. -/
def Overwritten (p p' : BufferPool φ) (id : PageId) (c : BTreeNode) : Prop :=
  ∃ v f, Serves BTreeNode.IsSlotted (· ∈ p.held) (p.diskManager.faults ≠ []) (p.line id) v ∧
    p'.line id = { v with cached := some (f, c, true) }

/-- Only the line of the page counts. -/
theorem Served.congr {p'' : BufferPool φ} {id : PageId} (h : Served p p' id)
    (hline : p''.line id = p'.line id) : Served p p'' id := by
  unfold Served at h ⊢
  rw [hline]
  exact h

theorem Served.has {id : PageId} {c : BTreeNode} (h : Served p p' id)
    (hno : p.diskManager.faults = []) (hc : p.Has id c) : p'.Has id c :=
  Holds.serves (fun hf => hf hno) h hc

theorem Overwritten.has {id : PageId} {c : BTreeNode} (h : Overwritten p p' id c)
    (hs : c.IsSlotted) : p'.Has id c := by
  obtain ⟨v, f, -, hline⟩ := h
  refine ⟨hs, .inl ⟨f, ?_⟩⟩
  rw [hline]

/-- What the file has of a page that was served is what it had, or the content. -/
theorem Served.traced {id : PageId} {c : BTreeNode} {Q : Prop} {S : BTreeNode → Prop}
    (h : Served p p' id) (hno : p.diskManager.faults = []) (hc : p.Has id c) (hS : S c)
    (htraced : Traced Q S (p.line id)) : Traced Q S (p'.line id) :=
  Holds.traced_serves (fun hf => hf hno) hS h hc htraced

/-- A node that is put into the frame of a page is not in the file yet. -/
theorem Overwritten.traced {id : PageId} {c c' : BTreeNode} {Q : Prop} {S : BTreeNode → Prop}
    (h : Overwritten p p' id c') (hno : p.diskManager.faults = []) (hc : p.Has id c) (hS : S c)
    (htraced : Traced Q S (p.line id)) : Traced Q S (p'.line id) := by
  obtain ⟨v, f, hserves, hline⟩ := h
  rw [hline]
  show Traced Q S v
  exact Holds.traced_serves (fun hf => hf hno) hS hserves hc htraced

/-- Serving a page under more pins is serving it. -/
theorem Grown.serves (h : Grown p p') (hheld : ∀ f ∈ p.held, f ∈ p'.held) {v w : Line BTreeNode}
    (hv : Serves BTreeNode.IsSlotted (· ∈ p'.held) (p'.diskManager.faults ≠ []) v w) :
    Serves BTreeNode.IsSlotted (· ∈ p.held) (p.diskManager.faults ≠ []) v w :=
  hv.mono hheld fun hf hno => hf (h.faults hno)

/-! ### Holding and dropping frames -/

theorem Wf.drop (hw : Wf p) (f : Frame) : Wf { p with held := p.held.erase f } :=
  { hw with held := fun f' hf' => hw.held f' (List.mem_of_mem_erase hf') }

/-- Which frames callers hold makes no difference to what the pool and its file have. -/
@[simp] theorem line_held (held : List Frame) (id : PageId) :
    BufferPool.line { p with held } id = p.line id := rfl

theorem withClone_of_ok {β : Type} {frameOf : α → Frame} {x : Exec DbError (BufferPool φ) α}
    {body : α → Exec DbError (BufferPool φ) β} {a : α} {r : Except DbError β}
    (hx : x p = some (.ok a, p')) (hbody : body a p' = some (r, p'')) :
    withClone frameOf x body p =
      some (r, { p'' with held := p''.held.erase (frameOf a) }) := by
  refine (Exec.bind_of_ok hx).trans ?_
  rw [hbody]
  rfl

/-- A method that holds a frame: it failed to get it, or it ran and dropped it. -/
theorem withClone_eq_some {β : Type} {frameOf : α → Frame} {x : Exec DbError (BufferPool φ) α}
    {body : α → Exec DbError (BufferPool φ) β} {r : Except DbError β}
    (h : withClone frameOf x body p = some (r, p')) :
    (∃ e, r = .error e ∧ x p = some (.error e, p')) ∨
      ∃ a p₁ p₂, x p = some (.ok a, p₁) ∧ body a p₁ = some (r, p₂) ∧
        p' = { p₂ with held := p₂.held.erase (frameOf a) } := by
  rcases Exec.bind_eq_some.mp h with hfail | ⟨a, p₁, hx, h⟩
  · exact .inl hfail
  · obtain ⟨⟨r', p₂⟩, hbody, heq⟩ := Option.map_eq_some_iff.mp h
    cases heq
    exact .inr ⟨a, p₁, p₂, hx, hbody, rfl⟩

/-! ### Writing through a frame -/

/-- The pool after the node in a frame was overwritten. -/
def withNode (p : BufferPool φ) (f : Frame) (node : BTreeNode) : BufferPool φ :=
  { p with frames := p.frames.set f node }

theorem Wf.withNode (hw : Wf p) (f : Frame) (node : BTreeNode) : Wf (p.withNode f node) :=
  have hframed : ∀ id f', p.pageTable.lookup id = some f' →
      f' < (p.withNode f node).frames.length := fun id f' hl => by
    rw [BufferPool.withNode, List.length_set]
    exact hw.framed id f' hl
  { hw with framed := hframed }

theorem Wf.line_withNode (hw : Wf p) {id : PageId} {f : Frame}
    (hl : p.pageTable.lookup id = some f) (node : BTreeNode) :
    (p.withNode f node).line id =
      { p.line id with cached := some (f, node.bare, node.isDirty) } := by
  have hf : (p.frames.set f node)[f]? = some node :=
    List.getElem?_set_self (hw.framed id f hl)
  simp only [line, BufferPool.withNode, hl, Option.bind_some, hf, Option.map_some]

theorem Wf.line_withNode_of_ne (hw : Wf p) {id id' : PageId} {f : Frame}
    (hl : p.pageTable.lookup id = some f) (hne : id' ≠ id) (node : BTreeNode) :
    (p.withNode f node).line id' = p.line id' := by
  have hcached : ((p.withNode f node).line id').cached = (p.line id').cached :=
    cached_congr rfl fun f' hl' => by
      have hff : f ≠ f' := fun heq => hne (hw.inj _ _ _ hl' (heq ▸ hl))
      rw [BufferPool.withNode, List.getElem?_set_ne hff]
  have hrest : (p.withNode f node).line id' =
      { p.line id' with cached := ((p.withNode f node).line id').cached } := rfl
  rw [hrest, hcached]

theorem Has.withNode_of_ne (hw : Wf p) {id id' : PageId} {c : BTreeNode} (h : p.Has id' c)
    {f : Frame} (hl : p.pageTable.lookup id = some f) (hne : id' ≠ id) (node : BTreeNode) :
    (p.withNode f node).Has id' c := by
  rw [Has, hw.line_withNode_of_ne hl hne]
  exact h

section Frames

variable {f g : Frame}

theorem frames_withNode_self {node node' : BTreeNode} (hf : p.frames[f]? = some node) :
    (p.withNode f node').frames[f]? = some node' := by
  obtain ⟨hlt, -⟩ := List.getElem?_eq_some_iff.mp hf
  exact List.getElem?_set_self hlt

theorem frames_withNode_of_ne (hne : f ≠ g) (node : BTreeNode) :
    (p.withNode f node).frames[g]? = p.frames[g]? := List.getElem?_set_ne hne

@[simp] theorem withNode_withNode (node node' : BTreeNode) :
    (p.withNode f node).withNode f node' = p.withNode f node' := by
  unfold withNode
  rw [List.set_set]

theorem withNode_comm (hne : f ≠ g) (node node' : BTreeNode) :
    (p.withNode f node).withNode g node' = (p.withNode g node').withNode f node := by
  unfold withNode
  rw [List.set_comm _ _ hne]

theorem withNode_self {node : BTreeNode} (hf : p.frames[f]? = some node) :
    p.withNode f node = p := by
  unfold withNode
  obtain ⟨hlt, rfl⟩ := List.getElem?_eq_some_iff.mp hf
  rw [List.set_getElem_self]

end Frames

end BufferPool

end SmolDb
