import SmolDb.Tree.Insert

/-!
# What a successful `insert_leaf` does to the pages

Either the target page is overwritten (`Inserted.whole`), or the target and the new page are and
the old right sibling is relinked (`Inserted.halves`). To every other page the call is a request
that the cache serves. While the call works on the two leaves it holds their frames, so nothing
the pool does in the meantime touches them.
-/

namespace SmolDb

open WriteBack BufferPool LeafNode

namespace BpTree

variable {φ : Type} {p p' : BufferPool φ} {f g : Frame} {t : BpTree}
  {leafPageId newLeafId : PageId} {rowId lsn : UInt64} {payload : List UInt8}

/-- The pool a successful call leaves is in order, with the frames held that were held before. -/
structure Settled (p p' : BufferPool φ) : Prop where
  wf : Wf p'
  fresh : Fresh p'
  held : p'.held = p.held
  faults : p.diskManager.faults = [] → p'.diskManager.faults = []
  capacity : p'.capacity = p.capacity

/-- The old right sibling was served, and its node relinked. -/
def Relinked (p p' : BufferPool φ) (id newLeafId : PageId) (lsn : UInt64) : Prop :=
  ∃ v f, ∃ node : BTreeNode,
    Serves BTreeNode.IsSlotted (· ∈ p.held) (p.diskManager.faults ≠ []) (p.line id) v ∧
    v.cached = some (f, node.bare, node.isDirty) ∧
    p'.line id = { v with
      cached := some (f, (node.relinked newLeafId lsn).bare,
        (node.relinked newLeafId lsn).isDirty) }

/-- A leaf without records. -/
def newLeaf (pageId : PageId) : LeafNode := { (default : LeafNode) with pageId }

/-- What a successful `insert_leaf` does to the pages, for a target with the content `leaf`. -/
inductive Inserted (p p' : BufferPool φ) (leafPageId : PageId) (rowId : UInt64)
    (payload : List UInt8) (lsn : UInt64) (leaf : LeafNode) : Option SplitResult → Prop
  | whole {a a' : LeafNode} (hbare : a.bare = leaf)
      (hinsert : insertRecord rowId payload a = some (.ok (), a'))
      (hpage : Overwritten p p' leafPageId (BTreeNode.markDirty lsn (.leaf a')).bare)
      (hothers : ∀ id : PageId, id.Aligned → id.val ≠ 0 → id ≠ leafPageId → Served p p' id)
      (hheader : p'.diskManager.header = p.diskManager.header) :
      Inserted p p' leafPageId rowId payload lsn leaf none
  | halves {n : PageId} {promoted : UInt64} {a a₁ b₁ a₂ b₂ : LeafNode} (hbare : a.bare = leaf)
      (hfull : insertRecord rowId payload a = some (.error .pageFull, a))
      (hsplit : split (a, newLeaf n) = some (.ok promoted, (a₁, b₁)))
      (hinsert : insertHalf rowId payload promoted (a₁, b₁) = some (.ok (), (a₂, b₂)))
      (hnew : n.val = p.diskManager.header.nextFreeOffset)
      (hheader : p'.diskManager.header.nextFreeOffset.toNat =
        p.diskManager.header.nextFreeOffset.toNat + pageSize)
      (hleft : Overwritten p p' leafPageId
        (BTreeNode.markDirty lsn (.leaf (a₂.linkedLeft n))).bare)
      (hright : Overwritten p p' n
        (BTreeNode.markDirty lsn (.leaf (b₂.linkedRight leafPageId a₂))).bare)
      (hold : leaf.hasNext = true → (⟨leaf.nextPageId⟩ : PageId) ≠ leafPageId ∧
        (⟨leaf.nextPageId⟩ : PageId) ≠ n ∧ Relinked p p' ⟨leaf.nextPageId⟩ n lsn)
      (hothers : ∀ id : PageId, id.Aligned → id.val ≠ 0 → id ≠ leafPageId → id ≠ n →
        (leaf.hasNext = true → id ≠ ⟨leaf.nextPageId⟩) → Served p p' id) :
      Inserted p p' leafPageId rowId payload lsn leaf (some ⟨promoted, n⟩)

/-- Two held frames, of a leaf and of a new leaf. -/
structure Latched (p : BufferPool φ) (leafPageId newLeafId : PageId) (f g : Frame) : Prop where
  wf : Wf p
  left : p.pageTable.lookup leafPageId = some f
  right : p.pageTable.lookup newLeafId = some g
  ne : leafPageId ≠ newLeafId
  heldLeft : f ∈ p.held
  heldRight : g ∈ p.held

theorem Latched.frame_ne (h : Latched p leafPageId newLeafId f g) : f ≠ g := fun heq =>
  h.ne (h.wf.inj _ _ f h.left (heq ▸ h.right))

/-- The lines of the pool with other nodes in the two frames. -/
theorem Latched.line_left (h : Latched p leafPageId newLeafId f g) (a b : BTreeNode) :
    ((p.withNode f a).withNode g b).line leafPageId =
      { p.line leafPageId with cached := some (f, a.bare, a.isDirty) } := by
  rw [(h.wf.withNode f a).line_withNode_of_ne h.right h.ne, h.wf.line_withNode h.left]

theorem Latched.line_right (h : Latched p leafPageId newLeafId f g) (a b : BTreeNode) :
    ((p.withNode f a).withNode g b).line newLeafId =
      { p.line newLeafId with cached := some (g, b.bare, b.isDirty) } := by
  rw [(h.wf.withNode f a).line_withNode h.right, h.wf.line_withNode_of_ne h.left h.ne.symm]

theorem Latched.line_other (h : Latched p leafPageId newLeafId f g) (a b : BTreeNode)
    {id : PageId} (hleft : id ≠ leafPageId) (hright : id ≠ newLeafId) :
    ((p.withNode f a).withNode g b).line id = p.line id := by
  rw [(h.wf.withNode f a).line_withNode_of_ne h.right hright,
    h.wf.line_withNode_of_ne h.left hleft]

theorem Latched.withNodes (h : Latched p leafPageId newLeafId f g) (a b : BTreeNode) :
    Latched ((p.withNode f a).withNode g b) leafPageId newLeafId f g :=
  ⟨(h.wf.withNode f a).withNode g b, h.left, h.right, h.ne, h.heldLeft, h.heldRight⟩

/-- What is shared by the two ways to end a split: `p₂` is the pool with the new page, and `q` is
a later pool in which the two leaves, still held, have their final nodes. -/
structure SplitEnd (p p₂ q : BufferPool φ) (leafPageId n : PageId) (f g : Frame)
    (x y : BTreeNode) : Prop where
  latched : Latched q leafPageId n f g
  held : q.held = g :: f :: p.held
  fresh : Fresh q
  faults : p₂.diskManager.faults = [] → q.diskManager.faults = []
  capacity : q.capacity = p₂.capacity
  left : Extended { p₂.line leafPageId with cached := some (f, x.bare, x.isDirty) }
    (q.line leafPageId)
  right : Extended { p₂.line n with cached := some (g, y.bare, y.isDirty) } (q.line n)

/-- The leaves of a split are in the end overwritten, and the pool is in order. -/
theorem SplitEnd.settled {p₂ q : BufferPool φ} {n : PageId} {x y : BTreeNode}
    (h : SplitEnd p p₂ q leafPageId n f g x y) (hgrown : Grown p p₂)
    (hleft : Served p p₂ leafPageId)
    (hright : Serves BTreeNode.IsSlotted (· ∈ p.held) (p.diskManager.faults ≠ []) (p.line n)
      { p₂.line n with cached := none })
    (hx : x.isDirty = true) (hy : y.isDirty = true) {p' : BufferPool φ}
    (hp' : p' = { q with held := (q.held.erase g).erase f })
    {c : Option (ℕ × BTreeNode × Bool)} (hc : (p₂.line leafPageId).cached = c) :
    Settled p p' ∧ Overwritten p p' leafPageId x.bare ∧ Overwritten p p' n y.bare := by
  subst hp'
  -- the two frames are dropped at the end, the last one taken first
  refine ⟨?_, ?_, ?_⟩
  · exact
      { wf := (h.latched.wf.drop g).drop f
        fresh := ⟨h.fresh.aligned, h.fresh.pos, h.fresh.below⟩
        held := by
          show (q.held.erase g).erase f = p.held
          rw [h.held, List.erase_cons_head, List.erase_cons_head]
        faults := fun hno => h.faults (hgrown.faults hno)
        capacity := h.capacity.trans hgrown.capacity }
  · -- the copy in the frame aside, the line of the leaf was only extended
    refine ⟨{ q.line leafPageId with cached := c }, f, ?_, ?_⟩
    · refine hleft.trans (Extended.moves ?_).serves
      exact ⟨hc.symm, h.left.stored, h.left.blank⟩
    · have hline := h.left.cached
      show q.line leafPageId = _
      rw [show q.line leafPageId = { q.line leafPageId with
        cached := (q.line leafPageId).cached } from rfl, hline, hx]
  · -- the new leaf likewise, over a place that no copy was loaded from
    refine ⟨{ q.line n with cached := none }, g, ?_, ?_⟩
    · refine hright.trans (Extended.moves ?_).serves
      exact ⟨rfl, h.right.stored, h.right.blank⟩
    · have hline := h.right.cached
      show q.line n = _
      rw [show q.line n = { q.line n with cached := (q.line n).cached } from rfl, hline, hy]

/-- Without an old right sibling nothing happens before the leaves get their final nodes. -/
theorem Latched.splitEnd {p₂ : BufferPool φ} {n : PageId} (h : Latched p₂ leafPageId n f g)
    (hheld : p₂.held = g :: f :: p.held) (hfresh : Fresh p₂) (x y : BTreeNode) :
    SplitEnd p p₂ ((p₂.withNode f x).withNode g y) leafPageId n f g x y where
  latched := h.withNodes x y
  held := hheld
  fresh := ⟨hfresh.aligned, hfresh.pos, hfresh.below⟩
  faults hno := hno
  capacity := rfl
  left := by
    rw [h.line_left x y]
    exact .refl _
  right := by
    rw [h.line_right x y]
    exact .refl _

section Flusher

variable [WalFlusher φ]

/-- The target of the call, once it is fetched. -/
theorem fetched_target (hw : Wf p) (hfresh : Fresh p) (halloc : Allocated p leafPageId)
    {leaf a : LeafNode} (hshow : (p.line leafPageId).shows = some (.leaf leaf))
    {p₁ : BufferPool φ} (hfetch : fetchPage leafPageId p = some (.ok f, p₁))
    (hleaf : p₁.frames[f]? = some (.leaf a)) :
    Wf p₁ ∧ Fetched p p₁ leafPageId f ∧ Fresh p₁ ∧ a.bare = leaf := by
  obtain ⟨hw₁, hf⟩ := (hw.fetchPage hfetch).2 f rfl halloc.aligned
  refine ⟨hw₁, hf, hfresh.of_fetched hf halloc.below, ?_⟩
  have hbare := hf.shows halloc.aligned halloc.ne_zero hleaf hshow
  exact BTreeNode.leaf.inj hbare

/-- The first way to succeed: the record fits into the leaf. -/
theorem inserted_whole (hw : Wf p) (hfresh : Fresh p) (halloc : Allocated p leafPageId)
    {leaf a a' : LeafNode} (hshow : (p.line leafPageId).shows = some (.leaf leaf))
    {p₁ : BufferPool φ} (hfetch : fetchPage leafPageId p = some (.ok f, p₁))
    (hleaf : p₁.frames[f]? = some (.leaf a))
    (hinsert : insertRecord rowId payload a = some (.ok (), a')) {p' : BufferPool φ}
    (hp' : p' = { p₁.withNode f (BTreeNode.markDirty lsn (.leaf a')) with
      held := p₁.held.erase f }) :
    Settled p p' ∧ Inserted p p' leafPageId rowId payload lsn leaf none := by
  subst hp'
  obtain ⟨hw₁, hf, hfresh₁, hbare⟩ := fetched_target hw hfresh halloc hshow hfetch hleaf
  refine ⟨?_, .whole hbare hinsert ?_ ?_ hf.header⟩
  · exact
      { wf := (hw₁.withNode f _).drop f
        fresh := ⟨hfresh₁.aligned, hfresh₁.pos, hfresh₁.below⟩
        held := by
          show p₁.held.erase f = p.held
          rw [hf.held, List.erase_cons_head]
        faults := hf.grown.faults
        capacity := hf.grown.capacity }
  · -- the leaf was fetched, and its frame written once
    refine ⟨p₁.line leafPageId, f, hf.serves halloc.aligned halloc.ne_zero, ?_⟩
    show (p₁.withNode f _).line leafPageId = _
    rw [hw₁.line_withNode hf.lookup, BTreeNode.isDirty_markDirty]
  · -- writing the frame does not touch the other pages
    intro id ha hne hid
    have hline : (p₁.withNode f (BTreeNode.markDirty lsn (.leaf a'))).line id = p₁.line id :=
      hw₁.line_withNode_of_ne hf.lookup hid _
    exact Served.congr (hf.serves ha hne) hline

/-- The two leaves of a split, once the new page is made. -/
theorem latched_split (hw : Wf p) (hfresh : Fresh p) (halloc : Allocated p leafPageId)
    {leaf a : LeafNode} (hshow : (p.line leafPageId).shows = some (.leaf leaf))
    {p₁ p₂ : BufferPool φ} {n : PageId} (hfetch : fetchPage leafPageId p = some (.ok f, p₁))
    (hleaf : p₁.frames[f]? = some (.leaf a))
    (hnew : newPage true p₁ = some (.ok (n, g), p₂)) :
    Created p₁ p₂ n (.leaf (newLeaf n)) g ∧ Latched p₂ leafPageId n f g ∧
      ∃ a₂, p₂.frames[f]? = some (.leaf a₂) ∧ a₂.bare = leaf ∧ a₂.isDirty = a.isDirty := by
  obtain ⟨hw₁, hf, hfresh₁, hbare⟩ := fetched_target hw hfresh halloc hshow hfetch hleaf
  obtain ⟨hw₂, -, hcreated⟩ := hw₁.newPage hfresh₁ hnew
  have hc := hcreated n g rfl
  have hheld : f ∈ p₁.held := hf.held ▸ List.mem_cons_self ..
  have hleft := hc.grown.pinned leafPageId f hf.lookup hheld
  have hmem : leafPageId ∈ p₁.pageTable := AList.mem_of_lookup hf.lookup
  -- the new page lies above every page in the table
  have hne : leafPageId ≠ n := by
    intro heq
    have hbelow := hfresh₁.below leafPageId hmem
    rw [heq, hc.offset] at hbelow
    exact Nat.lt_irrefl _ hbelow
  refine ⟨hc, ⟨hw₂, hleft, hc.lookup, hne, ?_, ?_⟩, ?_⟩
  · rw [hc.held]
    exact List.mem_cons_of_mem _ hheld
  · rw [hc.held]
    exact List.mem_cons_self ..
  · -- making a page does not touch the leaf, which is held
    have hcached := (hc.untouched leafPageId f halloc.aligned halloc.ne_zero hf.lookup hheld).cached
    obtain ⟨node, hnode⟩ := hw₂.node hleft
    rw [line_of_lookup hleft hnode, line_of_lookup hf.lookup hleaf] at hcached
    simp only [Option.some.injEq, Prod.mk.injEq, true_and] at hcached
    obtain ⟨hnodeBare, hdirty⟩ := hcached
    cases node with
    | internal node => cases hnodeBare
    | leaf a₂ => exact ⟨a₂, hnode, (BTreeNode.leaf.inj hnodeBare).trans hbare, hdirty⟩

/-- What is known of every page when the new page is there, the leaf being held since before. -/
theorem served_split (hw : Wf p) (hfresh : Fresh p) (halloc : Allocated p leafPageId)
    {leaf a : LeafNode} (hshow : (p.line leafPageId).shows = some (.leaf leaf))
    {p₁ p₂ : BufferPool φ} {n : PageId} (hfetch : fetchPage leafPageId p = some (.ok f, p₁))
    (hleaf : p₁.frames[f]? = some (.leaf a))
    (hnew : newPage true p₁ = some (.ok (n, g), p₂)) :
    Grown p p₂ ∧ p₂.held = g :: f :: p.held ∧ Fresh p₂ ∧ Allocated p₂ n ∧
      Serves BTreeNode.IsSlotted (· ∈ p.held) (p.diskManager.faults ≠ []) (p.line n)
        { p₂.line n with cached := none } ∧
      ∀ id : PageId, id.Aligned → id.val ≠ 0 → id ≠ n → Served p p₂ id := by
  obtain ⟨hw₁, hf, hfresh₁, -⟩ := fetched_target hw hfresh halloc hshow hfetch hleaf
  obtain ⟨hw₂, -, hcreated⟩ := hw₁.newPage hfresh₁ hnew
  have hc := hcreated n g rfl
  obtain ⟨ha, hne⟩ := hfresh₁.aligned_next hc
  -- the two calls one after the other; what was held before is held in between
  have hmono : ∀ o ∈ p.held, o ∈ p₁.held := fun o ho => by
    rw [hf.held]
    exact List.mem_cons_of_mem _ ho
  refine ⟨⟨?_, ?_, ?_, ?_⟩, ?_, hfresh₁.of_created hc, ⟨ha, hne, ?_⟩, ?_, ?_⟩
  · exact hc.grown.capacity.trans hf.grown.capacity
  · exact fun hno => hc.grown.faults (hf.grown.faults hno)
  · exact fun id o hl ho => hc.grown.pinned id o (hf.grown.pinned id o hl ho) (hmono o ho)
  · exact Nat.le_trans hf.grown.frames hc.grown.frames
  · rw [hc.held, hf.held]
  · rw [hc.offset, hc.next_toNat]
    exact Nat.lt_add_of_pos_right (by decide)
  · exact (hf.serves ha hne).trans (hf.grown.serves hmono (hc.store ha hne).serves)
  · intro id ha' hne' hid
    exact (hf.serves ha' hne').trans (hf.grown.serves hmono (hc.moves id ha' hne' hid).serves)

/-- The old right sibling was fetched while the two leaves, with the nodes `x` and `y`, were
held. -/
structure Sided (p₂ p₄ : BufferPool φ) (leafPageId n old : PageId) (f g o : Frame)
    (x y : BTreeNode) : Prop where
  fetched : Fetched ((p₂.withNode f x).withNode g y) p₄ old o
  latched : Latched p₄ leafPageId n f g
  fresh : Fresh p₄
  ne_left : old ≠ leafPageId
  ne_right : old ≠ n
  frame_left : o ≠ f
  frame_right : o ≠ g
  left : Extended { p₂.line leafPageId with cached := some (f, x.bare, x.isDirty) }
    (p₄.line leafPageId)
  right : Extended { p₂.line n with cached := some (g, y.bare, y.isDirty) } (p₄.line n)

/-- Fetching the sibling touches neither of the two leaves, which are held. -/
theorem Latched.sided {p₂ p₄ : BufferPool φ} {n old : PageId} {o : Frame} {x y : BTreeNode}
    (h : Latched p₂ leafPageId n f g) (hfresh : Fresh p₂) (halloc : Allocated p leafPageId)
    (hn : Allocated p₂ n) (hold : old.Aligned)
    (hbelow : old.val.toNat < p₂.diskManager.header.nextFreeOffset.toNat)
    (hfetch : fetchPage old ((p₂.withNode f x).withNode g y) = some (.ok o, p₄)) (hof : o ≠ f)
    (hog : o ≠ g) : Sided p₂ p₄ leafPageId n old f g o x y := by
  have hq := h.withNodes x y
  obtain ⟨hw₄, hfetched⟩ := (hq.wf.fetchPage hfetch).2 o rfl hold
  have hlookLeft := hfetched.grown.pinned _ _ hq.left hq.heldLeft
  have hlookRight := hfetched.grown.pinned _ _ hq.right hq.heldRight
  have hextLeft :=
    hfetched.untouched leafPageId f halloc.aligned halloc.ne_zero hq.left hq.heldLeft
  have hextRight := hfetched.untouched n g hn.aligned hn.ne_zero hq.right hq.heldRight
  rw [h.line_left] at hextLeft
  rw [h.line_right] at hextRight
  exact
    { fetched := hfetched
      latched :=
        { wf := hw₄
          left := hlookLeft
          right := hlookRight
          ne := h.ne
          heldLeft := by
            rw [hfetched.held]
            exact List.mem_cons_of_mem _ hq.heldLeft
          heldRight := by
            rw [hfetched.held]
            exact List.mem_cons_of_mem _ hq.heldRight }
      fresh := by
        have hfreshQ : Fresh ((p₂.withNode f x).withNode g y) :=
          ⟨hfresh.aligned, hfresh.pos, hfresh.below⟩
        exact hfreshQ.of_fetched hfetched hbelow
      ne_left := by
        -- the sibling has a frame of its own
        intro heq
        have hlook := hfetched.lookup
        rw [heq, hlookLeft] at hlook
        exact hof (Option.some.inj hlook).symm
      ne_right := by
        intro heq
        have hlook := hfetched.lookup
        rw [heq, hlookRight] at hlook
        exact hog (Option.some.inj hlook).symm
      frame_left := hof
      frame_right := hog
      left := hextLeft
      right := hextRight }

namespace Sided

variable {p₂ p₄ : BufferPool φ} {n old : PageId} {o : Frame} {x y : BTreeNode}

omit [WalFlusher φ] in
/-- The held leaves have the nodes they had. -/
theorem bare_left (h : Sided p₂ p₄ leafPageId n old f g o x y) {left : BTreeNode}
    (hf : p₄.frames[f]? = some left) : left.bare = x.bare := by
  have hcached := h.left.cached
  rw [line_of_lookup h.latched.left hf] at hcached
  simp only [Option.some.injEq, Prod.mk.injEq] at hcached
  exact hcached.2.1

omit [WalFlusher φ] in
theorem bare_right (h : Sided p₂ p₄ leafPageId n old f g o x y) {right : BTreeNode}
    (hg : p₄.frames[g]? = some right) : right.bare = y.bare := by
  have hcached := h.right.cached
  rw [line_of_lookup h.latched.right hg] at hcached
  simp only [Option.some.injEq, Prod.mk.injEq] at hcached
  exact hcached.2.1

omit [WalFlusher φ] in
/-- The sibling is overwritten, and its frame dropped. -/
theorem relinked (h : Sided p₂ p₄ leafPageId n old f g o x y) (node : BTreeNode) :
    Latched { p₄.withNode o node with held := p₄.held.erase o } leafPageId n f g ∧
      ∀ id : PageId, id ≠ old →
        BufferPool.line { p₄.withNode o node with held := p₄.held.erase o } id = p₄.line id := by
  refine ⟨?_, fun id hid => h.latched.wf.line_withNode_of_ne h.fetched.lookup hid _⟩
  exact
    { wf := (h.latched.wf.withNode o _).drop o
      left := h.latched.left
      right := h.latched.right
      ne := h.latched.ne
      heldLeft := (List.mem_erase_of_ne h.frame_left.symm).mpr h.latched.heldLeft
      heldRight := (List.mem_erase_of_ne h.frame_right.symm).mpr h.latched.heldRight }

omit [WalFlusher φ] in
/-- Then the leaves get their final nodes. -/
theorem splitEnd (h : Sided p₂ p₄ leafPageId n old f g o x y) (hheld : p₂.held = g :: f :: p.held)
    (node left right : BTreeNode) :
    SplitEnd p p₂ ((BufferPool.withNode { p₄.withNode o node with held := p₄.held.erase o } f
      left).withNode g right) leafPageId n f g left right := by
  -- relinking the old sibling touches neither of the two leaves
  obtain ⟨hl, hline⟩ := h.relinked node
  exact
    { latched := hl.withNodes left right
      held := by
        show p₄.held.erase o = _
        rw [h.fetched.held, List.erase_cons_head]
        exact hheld
      fresh := ⟨h.fresh.aligned, h.fresh.pos, h.fresh.below⟩
      faults := h.fetched.grown.faults
      capacity := h.fetched.grown.capacity
      left := by
        rw [hl.line_left left right, hline _ h.ne_left.symm]
        exact ⟨rfl, h.left.stored, h.left.blank⟩
      right := by
        rw [hl.line_right left right, hline _ h.ne_right.symm]
        exact ⟨rfl, h.right.stored, h.right.blank⟩ }

omit [WalFlusher φ] in
/-- The fetch serves every page but the two leaves. -/
theorem served (h : Sided p₂ p₄ leafPageId n old f g o x y) (hl : Latched p₂ leafPageId n f g)
    (hgrown : Grown p p₂) (hheld : p₂.held = g :: f :: p.held) {id : PageId} (ha : id.Aligned)
    (hne : id.val ≠ 0) (hidLeft : id ≠ leafPageId) (hidRight : id ≠ n)
    (hserved : Served p p₂ id) : Served p p₄ id := by
  have hfetchServes := h.fetched.serves ha hne
  rw [hl.line_other _ _ hidLeft hidRight] at hfetchServes
  refine hserved.trans (hgrown.serves ?_ hfetchServes)
  intro o' ho'
  rw [hheld]
  exact List.mem_cons_of_mem _ (List.mem_cons_of_mem _ ho')

end Sided

/-- **A successful `insert_leaf`** leaves the pool in order and does one of two things. -/
theorem insertLeaf_ok (hw : Wf p) (hfresh : Fresh p) (halloc : Allocated p leafPageId)
    {leaf : LeafNode} (hshow : (p.line leafPageId).shows = some (.leaf leaf))
    (hslot : leaf.IsSlotted)
    (hnext : leaf.hasNext = true → Allocated p ⟨leaf.nextPageId⟩) {res : Option SplitResult}
    (h : t.insertLeaf leafPageId rowId payload lsn p = some (.ok res, p')) :
    Settled p p' ∧ Inserted p p' leafPageId rowId payload lsn leaf res := by
  cases insertLeaf_outcome h with
  | @inserted f p₁ a a' hfetch hleaf hinsert =>
    exact inserted_whole hw hfresh halloc hshow hfetch hleaf hinsert rfl
  | @split _ f g n p₁ p₂ p₃ a₀ a' hfetch hleaf hinsert hnew hsplit =>
    obtain ⟨hw₁, hf, -, hbare₀⟩ := fetched_target hw hfresh halloc hshow hfetch hleaf
    have hslot₀ : a₀.IsSlotted := by
      rw [← hbare₀] at hslot
      exact hslot
    obtain rfl := (keeps_insertRecord rowId payload).unchanged hslot₀ hinsert
    rw [withNode_self hleaf] at hnew
    obtain ⟨hc, hl, a, hfa, hbare, -⟩ := latched_split hw hfresh halloc hshow hfetch hleaf hnew
    obtain ⟨hgrown, hheld, hfresh₂, hn, hright, hserved⟩ :=
      served_split hw hfresh halloc hshow hfetch hleaf hnew
    have hleft := hserved leafPageId halloc.aligned halloc.ne_zero hl.ne
    have hslotA : a.IsSlotted := by
      rw [← hbare] at hslot
      exact hslot
    have hfull : insertRecord rowId payload a = some (.error .pageFull, a) := by
      obtain ⟨a'', hins, -⟩ :=
        (keeps_insertRecord rowId payload).congr (hbare₀.trans hbare.symm) hinsert
      obtain rfl := (keeps_insertRecord rowId payload).unchanged hslotA hins
      exact hins
    have hheader : p₂.diskManager.header.nextFreeOffset.toNat =
        p.diskManager.header.nextFreeOffset.toNat + pageSize := by
      rw [hc.next_toNat, hf.header]
    have hoffset : n.val = p.diskManager.header.nextFreeOffset := by
      rw [hc.offset, hf.header]
    have hdirty : ∀ node : BTreeNode, (node.markDirty lsn).isDirty = true :=
      BTreeNode.isDirty_markDirty lsn
    generalize hr : Except.ok res = r at hsplit
    cases insertSplit_outcome hl.frame_ne hfa hc.frame hsplit with
    | splitFailed => cases hr
    | insertFailed => cases hr
    | fetchFailed => cases hr
    | @atEnd promoted a₁ b₁ a₂ b₂ hcut hins hend =>
      cases hr
      obtain ⟨hheadA, -, -⟩ := halves_header hslotA rfl rfl hcut hins
      have hnone : leaf.hasNext = false := by
        obtain ⟨_, _, _, rfl⟩ := hheadA
        rw [← hbare]
        exact hend
      obtain ⟨hset, hoverLeft, hoverRight⟩ :=
        (hl.splitEnd hheld hfresh₂ _ _).settled hgrown hleft hright (hdirty _) (hdirty _) rfl rfl
      refine ⟨hset, .halves hbare hfull hcut hins hoffset hheader hoverLeft hoverRight ?_ ?_⟩
      · intro hsome
        rw [hnone] at hsome
        cases hsome
      · intro id ha hne hidLeft hidRight _
        have hline := hl.line_other (BTreeNode.markDirty lsn (.leaf (a₂.linkedLeft n)))
          (BTreeNode.markDirty lsn (.leaf (b₂.linkedRight leafPageId a₂))) hidLeft hidRight
        exact (hserved id ha hne hidRight).congr hline
    | @between promoted a₁ b₁ a₂ b₂ o p₄ old left right hcut hins hmid hfo hof hog hold hlf hrg =>
      cases hr
      obtain ⟨hheadA, -, -⟩ := halves_header hslotA rfl rfl hcut hins
      have hsome : leaf.hasNext = true ∧ a₂.nextPageId = leaf.nextPageId := by
        obtain ⟨_, _, _, rfl⟩ := hheadA
        rw [← hbare]
        exact ⟨hmid, rfl⟩
      have hallocO := hnext hsome.1
      rw [hsome.2] at hfo
      -- the old right sibling is fetched while the two leaves are held with their new nodes
      have hbelow : leaf.nextPageId.toNat < p₂.diskManager.header.nextFreeOffset.toNat := by
        rw [hheader]
        exact Nat.lt_add_right _ hallocO.below
      have hsided : Sided p₂ p₄ leafPageId n ⟨leaf.nextPageId⟩ f g o _ _ :=
        hl.sided hfresh₂ halloc hn hallocO.aligned hbelow hfo hof hog
      obtain ⟨hl₅, hline₅⟩ := hsided.relinked (old.relinked n lsn)
      have hend := hsided.splitEnd hheld (old.relinked n lsn) (left.markDirty lsn)
        (right.markDirty lsn)
      obtain ⟨hset, hoverLeft, hoverRight⟩ :=
        hend.settled hgrown hleft hright (hdirty _) (hdirty _) rfl rfl
      rw [BTreeNode.markDirty_congr (hsided.bare_left hlf)] at hoverLeft
      rw [BTreeNode.markDirty_congr (hsided.bare_right hrg)] at hoverRight
      -- every other page was served up to the fetch of the sibling
      have hserved₄ : ∀ id : PageId, id.Aligned → id.val ≠ 0 → id ≠ leafPageId → id ≠ n →
          Served p p₄ id := fun id ha hne hidLeft hidRight =>
        hsided.served hl hgrown hheld ha hne hidLeft hidRight (hserved id ha hne hidRight)
      refine ⟨hset, .halves hbare hfull hcut hins hoffset ?_ hoverLeft hoverRight ?_ ?_⟩
      · rw [← hheader]
        exact congrArg (fun header => header.nextFreeOffset.toNat) hsided.fetched.header
      · intro _
        refine ⟨hsided.ne_left, hsided.ne_right, p₄.line ⟨leaf.nextPageId⟩, o, old,
          hserved₄ _ hallocO.aligned hallocO.ne_zero hsided.ne_left hsided.ne_right, ?_, ?_⟩
        · rw [line_of_lookup hsided.fetched.lookup hold]
        · have hother := hl₅.line_other (left.markDirty lsn) (right.markDirty lsn) hsided.ne_left
            hsided.ne_right
          refine Eq.trans hother ?_
          exact hsided.latched.wf.line_withNode hsided.fetched.lookup _
      · intro id ha hne hidLeft hidRight hidOld
        have hother := hl₅.line_other (left.markDirty lsn) (right.markDirty lsn) hidLeft hidRight
        rw [hline₅ id (hidOld hsome.1)] at hother
        exact (hserved₄ id ha hne hidLeft hidRight).congr hother

end Flusher

end BpTree

end SmolDb
