import SmolDb.Pool.Allocation
import SmolDb.Pool.Service
import SmolDb.Tree.Checkpoint
import SmolDb.Tree.Effect
import SmolDb.Tree.SplitRoom

/-!
# A failed `insert_leaf`

`insert_leaf` moves the upper half of a full leaf to a new page and rewires pointers before it is
done with all that can fail, and it marks the pages it has worked on at the very end. So what a
failed call leaves depends on where it failed.

`Lossless` says that a call has lost nothing of its target: every live record is still in the
target or in a leaf behind it, and the pages that changed in memory are marked dirty. A call that
fails before the split changes no page. Behind the split there are three ways to fail, and only
one of them can be harmless: when the upper half was all tombstones, the records that are left are
those the leaf had, and the leaf may have been dirty before.
-/

namespace SmolDb

open WriteBack LeafNode

/-- The two nodes have the same slots, cells and links. -/
def BTreeNode.SameData : BTreeNode → BTreeNode → Prop
  | .leaf a, .leaf b =>
    b.slotArray = a.slotArray ∧ b.records = a.records ∧ b.hasPrev = a.hasPrev ∧
      b.hasNext = a.hasNext ∧ b.prevPageId = a.prevPageId ∧ b.nextPageId = a.nextPageId
  | .internal a, .internal b =>
    b.slotArray = a.slotArray ∧ b.entries = a.entries ∧ b.rightmostChildId = a.rightmostChildId
  | _, _ => False

/-- A node has the slots, cells and links of its content. -/
theorem BTreeNode.sameData_bare (node : BTreeNode) : node.bare.SameData node := by
  cases node with
  | internal node => exact ⟨rfl, rfl, rfl⟩
  | leaf node => exact ⟨rfl, rfl, rfl, rfl, rfl, rfl⟩

namespace LeafNode

variable {leaf leaf' a sibling a₁ b₁ a₂ b₂ : LeafNode} {rowId promoted : UInt64}
  {payload : List UInt8} {e : DbError} {n : PageId}

/-- A leaf that is full has slots. -/
theorem IsSlotted.slotArray_ne_nil (hs : leaf.IsSlotted)
    (h : insertRecord rowId payload leaf = some (.error .pageFull, leaf')) :
    leaf.slotArray ≠ [] := by
  intro hnil
  cases hs.insertRecord_outcome h with
  | full hlen hsearch hfull =>
    have hrows : leaf.rows = [] := List.eq_nil_of_length_eq_zero (by rw [length_rows, hnil]; rfl)
    refine hfull ⟨?_, ?_⟩
    · rw [hnil, hrows]
      refine Nat.le_trans (Nat.add_le_add_left (Nat.add_le_add_left hlen _) _) ?_
      decide
    · rw [hnil]
      exact Nat.zero_le _

/-- The insert behind a split leaves both halves as they are when it fails. -/
theorem insertHalf_error (ha : a₁.IsSlotted) (hb : b₁.IsSlotted)
    (h : insertHalf rowId payload promoted (a₁, b₁) = some (.error e, (a₂, b₂))) :
    a₂ = a₁ ∧ b₂ = b₁ := by
  unfold insertHalf at h
  dsimp only at h
  split at h
  · obtain ⟨⟨r, a'⟩, hins, heq⟩ := Option.map_eq_some_iff.mp h
    cases heq
    exact ⟨(keeps_insertRecord rowId payload).unchanged ha hins, rfl⟩
  · obtain ⟨⟨r, b'⟩, hins, heq⟩ := Option.map_eq_some_iff.mp h
    cases heq
    exact ⟨rfl, (keeps_insertRecord rowId payload).unchanged hb hins⟩

/-- A split makes the slot array shorter. -/
theorem SplitInto.length_lt (h : SplitInto a sibling a₁ b₁)
    (hslots : a.slotArray ≠ []) : a₁.slotArray.length < a.slotArray.length := by
  have hpos : 0 < a.slotArray.length := List.length_pos_of_ne_nil hslots
  calc a₁.slotArray.length = a₁.rows.length := (length_rows a₁).symm
    _ ≤ (a.rows.take (a.slotArray.length / 2)).length := by
      rw [h.left_rows]
      exact List.length_filter_le _ _
    _ ≤ a.slotArray.length / 2 := List.length_take_le _ _
    _ < a.slotArray.length := Nat.div_lt_self hpos (by decide)

/-- A leaf without slots has the slots, cells and links of a new one, when the links are those. -/
theorem IsSlotted.sameData_newEmpty (hs : b₁.IsSlotted)
    (hheader : SameHeader (newEmpty n) b₁) (hrows : b₁.rows = []) :
    (BTreeNode.newEmpty n true).SameData (.leaf b₁) := by
  have hslots : b₁.slotArray = [] := by
    refine List.eq_nil_of_length_eq_zero ?_
    rw [← length_rows, hrows]
    rfl
  have hrecords : b₁.records = [] := by
    refine List.eq_nil_of_length_eq_zero ?_
    rw [← hs.length_eq, hslots]
    rfl
  obtain ⟨_, _, _, rfl⟩ := hheader
  exact ⟨hslots, hrecords, rfl, rfl, rfl, rfl⟩

end LeafNode

namespace BufferPool

variable {φ : Type} {p p' p'' : BufferPool φ} {id : PageId}

/-- What a page shows before a call; a page that does not exist yet comes as an empty leaf. -/
def origin (p : BufferPool φ) (id : PageId) : Option BTreeNode :=
  if id.val.toNat < p.nextFree then (p.line id).shows else some (.newEmpty id true)

/-- The live pairs of the leaf at a page. -/
def liveAt (p : BufferPool φ) (id : PageId) : List (UInt64 × List UInt8) :=
  match (p.line id).shows with
  | some (.leaf leaf) => leaf.live
  | _ => []

/-- The forward pointer of the first page leads to the second. -/
def Leads (p : BufferPool φ) (id id' : PageId) : Prop :=
  (p.line id).shows.bind BTreeNode.next = some id'

/-- The pair is live in the leaf at a page or in one behind it. -/
def LiveFrom (p : BufferPool φ) (id : PageId) (pair : UInt64 × List UInt8) : Prop :=
  ∃ id', Relation.ReflTransGen p.Leads id id' ∧ pair ∈ p.liveAt id'

/-- A page that is clean in memory has the slots, cells and links it had. -/
def Marked (p p' : BufferPool φ) (id : PageId) : Prop :=
  ∀ f node, p'.pageTable.lookup id = some f → p'.frames[f]? = some node →
    node.isDirty = false → ∃ old, p.origin id = some old ∧ old.SameData node

/-- A call on the leaf at a page has lost nothing: not a live record, and of no page behind the
header the mark that it changed. -/
structure Lossless (p p' : BufferPool φ) (leafPageId : PageId) : Prop where
  live : ∀ pair ∈ p.liveAt leafPageId, p'.LiveFrom leafPageId pair
  marked : ∀ id : PageId, id.val ≠ 0 → Marked p p' id

/-! ### Pages that did not change -/

theorem origin_of_below (h : id.val.toNat < p.nextFree) : p.origin id = (p.line id).shows :=
  if_pos h

theorem origin_of_new (h : id.val.toNat = p.nextFree) : p.origin id = some (.newEmpty id true) :=
  if_neg (Nat.not_lt_of_le (Nat.le_of_eq h.symm))

theorem liveAt_of_shows {leaf : LeafNode} (h : (p.line id).shows = some (.leaf leaf)) :
    p.liveAt id = leaf.live := by
  rw [liveAt, h]

/-- A page in memory has what it showed before. -/
def Unchanged (p p' : BufferPool φ) (id : PageId) : Prop :=
  ∀ f c d, (p'.line id).cached = some (f, c, d) →
    (p.line id).shows = some c ∧ id.val.toNat < p.nextFree

theorem Unchanged.refl (hfresh : Fresh p) (id : PageId) : Unchanged p p id := by
  intro f c d hcached
  obtain ⟨_, hl, -, -, -⟩ := frame_of_cached hcached
  refine ⟨by rw [Line.shows, hcached], hfresh.below id ?_⟩
  exact AList.mem_of_lookup hl

/-- The pool's own work changes no page in memory. -/
theorem Unchanged.moves {S : BTreeNode → Prop} {pinned : ℕ → Prop} {faulty : Prop}
    (h : Unchanged p p' id) (hm : Moves S pinned faulty (p'.line id) (p''.line id)) :
    Unchanged p p'' id := by
  intro f c d hcached
  obtain ⟨d', hcached'⟩ := hm.cached_of hcached
  exact h f c d' hcached'

theorem Unchanged.worked (h : Unchanged p p' id) (hw : Wf p'') (hwork : Worked p' p'')
    (hne : id.val ≠ 0) : Unchanged p p'' id := by
  intro f c d hcached
  obtain ⟨_, hl, -, -, -⟩ := frame_of_cached hcached
  exact h.moves (hwork.moves id (hw.aligned_of_lookup hl) hne) f c d hcached

theorem Unchanged.congr (h : Unchanged p p' id) (hline : p''.line id = p'.line id) :
    Unchanged p p'' id := by
  rw [Unchanged, hline]
  exact h

theorem Unchanged.marked (h : Unchanged p p' id) : Marked p p' id := by
  intro f node hl hf _
  obtain ⟨hshow, hbelow⟩ := h _ _ _ (congrArg Line.cached (line_of_lookup hl hf))
  exact ⟨node.bare, (origin_of_below hbelow).trans hshow, node.sameData_bare⟩

/-- A target that shows what it showed has lost nothing. -/
theorem Lossless.of_shows {leafPageId : PageId}
    (hshow : (p'.line leafPageId).shows = (p.line leafPageId).shows)
    (hmarked : ∀ id : PageId, id.val ≠ 0 → Marked p p' id) : Lossless p p' leafPageId where
  live pair hpair := by
    refine ⟨leafPageId, .refl, ?_⟩
    rw [liveAt, hshow]
    exact hpair
  marked := hmarked

/-- A new page that has got cells or links, and is clean. -/
theorem not_lossless_of_new {leafPageId n : PageId} (hn : n.val.toNat = p.nextFree)
    (hne : n.val ≠ 0) {g : Frame} {node : BTreeNode} (hl : p'.pageTable.lookup n = some g)
    (hg : p'.frames[g]? = some node) (hclean : node.isDirty = false)
    (hdata : ¬ (BTreeNode.newEmpty n true).SameData node) : ¬ Lossless p p' leafPageId := by
  intro h
  obtain ⟨old, hold, hsame⟩ := h.marked n hne g node hl hg hclean
  rw [origin_of_new hn] at hold
  cases hold
  exact hdata hsame

end BufferPool

namespace BpTree

open BufferPool

variable {φ : Type} {p p' : BufferPool φ} {f g : Frame} {t : BpTree}
  {leafPageId : PageId} {rowId lsn : UInt64} {payload : List UInt8} {leaf : LeafNode} {e : DbError}

/-- When the target is fetched no page in memory has changed. -/
theorem fetched_unchanged (hfresh : Fresh p) (halloc : Allocated p leafPageId)
    (hshow : (p.line leafPageId).shows = some (.leaf leaf)) {p₁ : BufferPool φ} (hw₁ : Wf p₁)
    (hf : Fetched p p₁ leafPageId f) {a : LeafNode} (hleaf : p₁.frames[f]? = some (.leaf a))
    (hbare : a.bare = leaf) {id : PageId} (hne : id.val ≠ 0) : Unchanged p p₁ id := by
  intro o c d hcached
  by_cases hid : id = leafPageId
  · subst hid
    rw [line_of_lookup hf.lookup hleaf] at hcached
    cases hcached
    refine ⟨?_, halloc.below⟩
    rw [hshow, ← hbare]
    rfl
  · obtain ⟨_, hl, -, -, -⟩ := frame_of_cached hcached
    exact (Unchanged.refl hfresh id).moves
      (hf.moves id (hw₁.aligned_of_lookup hl) hne hid) o c d hcached

/-- The target was dirty after it was fetched if it was so before. -/
theorem isDirty_of_fetched (halloc : Allocated p leafPageId) {p₁ : BufferPool φ}
    (hf : Fetched p p₁ leafPageId f) {node : BTreeNode} (hnode : p₁.frames[f]? = some node) :
    node.isDirty = p.isDirtyPage leafPageId := by
  have hcached := congrArg Line.cached (line_of_lookup hf.lookup hnode)
  cases hl : p.pageTable.lookup leafPageId with
  | some f' =>
    rw [hf.hit f' hl] at hcached
    obtain ⟨old, hl', hold, -, hdirty⟩ := frame_of_cached hcached
    rw [isDirtyPage, hl', Option.bind_some, hold]
    exact hdirty.symm
  | none =>
    obtain ⟨v, c, -, -, hv⟩ := hf.miss hl halloc.aligned halloc.ne_zero
    rw [hv, Line.loaded, Option.some.injEq, Prod.mk.injEq, Prod.mk.injEq] at hcached
    rw [isDirtyPage, hl]
    exact hcached.2.2.symm

/-! ### Behind the split -/

/-- The pool with the new page: the target and the new leaf are held, and nothing in memory has
changed yet. -/
structure Parting (p p₂ : BufferPool φ) (leafPageId n : PageId) (f g : Frame) (leaf a : LeafNode) :
    Prop where
  latched : Latched p₂ leafPageId n f g
  alloc : Allocated p leafPageId
  shows : (p.line leafPageId).shows = some (.leaf leaf)
  left : p₂.frames[f]? = some (.leaf a)
  right : p₂.frames[g]? = some (.leaf (newLeaf n))
  bare : a.bare = leaf
  dirty : a.isDirty = p.isDirtyPage leafPageId
  slotted : a.IsSlotted
  slots : leaf.slotArray ≠ []
  new : n.val.toNat = p.nextFree
  aligned : n.Aligned
  ne_zero : n.val ≠ 0
  others : ∀ id : PageId, id.val ≠ 0 → id ≠ leafPageId → id ≠ n → Unchanged p p₂ id

/-- **A split that found no live record for the new leaf** has lost nothing if the leaf was dirty
before, and only then. -/
theorem Parting.splitFailed {p₂ : BufferPool φ} {n : PageId} {a a₁ b₁ : LeafNode}
    (h : Parting p p₂ leafPageId n f g leaf a)
    (hsplit : split (a, newLeaf n) = some (.error e, (a₁, b₁))) :
    Lossless p (p₂.withLeaves f g a₁ b₁) leafPageId ↔
      leaf.upperLive = [] ∧ p.isDirtyPage leafPageId = true := by
  have hl := h.latched
  obtain ⟨hinto, ⟨hnil, -⟩ | ⟨_, _, -, hok⟩⟩ := h.slotted.split_into rfl rfl hsplit
  swap
  · cases hok
  have hupper : leaf.upperLive = [] := by
    rw [← h.bare]
    exact hinto.right_eq_upperLive.symm.trans hnil
  have hleft : (p₂.withLeaves f g a₁ b₁).frames[f]? = some (.leaf a₁) :=
    frames_withLeaves_left hl.frame_ne h.left
  have hright : (p₂.withLeaves f g a₁ b₁).frames[g]? = some (.leaf b₁) :=
    frames_withLeaves_right hl.frame_ne h.right
  have hdirty : a₁.isDirty = p.isDirtyPage leafPageId := by
    obtain ⟨_, _, _, rfl⟩ := hinto.left_header
    exact h.dirty
  constructor
  · intro hloss
    refine ⟨hupper, ?_⟩
    by_contra hno
    have hclean : (BTreeNode.leaf a₁).isDirty = false := by
      rw [Bool.not_eq_true] at hno
      exact hdirty.trans hno
    -- the leaf was cut, and it is clean
    obtain ⟨old, hold, hsame⟩ :=
      hloss.marked leafPageId h.alloc.ne_zero f _ hl.left hleft hclean
    rw [origin_of_below h.alloc.below, h.shows, Option.some.injEq] at hold
    subst hold
    have hlt := hinto.length_lt (by rw [← h.bare] at *; exact h.slots)
    rw [hsame.1, ← h.bare] at hlt
    exact Nat.lt_irrefl _ hlt
  · rintro ⟨-, hwas⟩
    have hshow' : ((p₂.withLeaves f g a₁ b₁).line leafPageId).shows = some (.leaf a₁.bare) := by
      rw [withLeaves, hl.line_left]
      rfl
    constructor
    · intro pair hpair
      refine ⟨leafPageId, .refl, ?_⟩
      rw [liveAt_of_shows hshow']
      rw [liveAt_of_shows h.shows, ← h.bare] at hpair
      -- what was live was in the lower half
      have hlive : a.live = a₁.live := by
        rw [hinto.live_eq, show b₁.live = [] by rw [live, hnil]; rfl, List.append_nil]
      exact hlive ▸ hpair
    · intro id hne
      by_cases hid : id = leafPageId
      · subst hid
        intro o node hlo ho hclean
        obtain rfl : f = o := Option.some.inj (hl.left.symm.trans hlo)
        obtain rfl := Option.some.inj (hleft.symm.trans ho)
        rw [← hdirty] at hwas
        exact absurd hwas (by rw [show a₁.isDirty = false from hclean]; decide)
      by_cases hid' : id = n
      · subst hid'
        intro o node hlo ho hclean
        obtain rfl : g = o := Option.some.inj (hl.right.symm.trans hlo)
        obtain rfl := Option.some.inj (hright.symm.trans ho)
        exact ⟨_, origin_of_new h.new,
          hinto.right_slotted.sameData_newEmpty hinto.right_header hnil⟩
      · exact ((h.others id hne hid hid').congr (hl.line_other _ _ hid hid')).marked

/-- A split that found live records for the new leaf. -/
theorem Parting.upperLive_ne_nil {p₂ : BufferPool φ} {n : PageId} {a a₁ b₁ : LeafNode}
    {promoted : UInt64} (h : Parting p p₂ leafPageId n f g leaf a)
    (hsplit : split (a, newLeaf n) = some (.ok promoted, (a₁, b₁))) :
    b₁.rows = leaf.upperLive ∧ leaf.upperLive ≠ [] := by
  obtain ⟨hinto, ⟨-, hfail⟩ | ⟨first, rest, hcons, -⟩⟩ := h.slotted.split_into rfl rfl hsplit
  · cases hfail
  have hupper : b₁.rows = leaf.upperLive := by
    rw [← h.bare]
    exact hinto.right_eq_upperLive
  refine ⟨hupper, ?_⟩
  rw [← hupper, hcons]
  exact List.cons_ne_nil _ _

/-- **The half had no room for the record**: the new leaf has the upper half, and it is clean. -/
theorem Parting.insertFailed {p₂ : BufferPool φ} {n : PageId} {a a₁ b₁ a₂ b₂ : LeafNode}
    {promoted : UInt64} (h : Parting p p₂ leafPageId n f g leaf a)
    (hsplit : split (a, newLeaf n) = some (.ok promoted, (a₁, b₁)))
    (hinsert : insertHalf rowId payload promoted (a₁, b₁) = some (.error e, (a₂, b₂))) :
    ¬ Lossless p (p₂.withLeaves f g a₂ b₂) leafPageId := by
  obtain ⟨hinto, -⟩ := h.slotted.split_into rfl rfl hsplit
  obtain ⟨hrows, hsome⟩ := h.upperLive_ne_nil hsplit
  obtain ⟨rfl, rfl⟩ := insertHalf_error hinto.left_slotted hinto.right_slotted hinsert
  refine not_lossless_of_new h.new h.ne_zero h.latched.right
    (frames_withLeaves_right h.latched.frame_ne h.right) ?_ fun hsame => hsome ?_
  · obtain ⟨_, _, _, rfl⟩ := hinto.right_header
    rfl
  · -- a leaf without slots has no rows
    rw [← hrows]
    refine List.eq_nil_of_length_eq_zero ?_
    rw [length_rows, hsame.1]
    rfl

section Flusher

variable [WalFlusher φ]

/-- **The old right sibling could not be fetched**: the leaves are linked, and the new one is
clean. -/
theorem Parting.fetchFailed {p₂ : BufferPool φ} {n old : PageId} {a a₁ b₁ a₂ b₂ : LeafNode}
    {promoted : UInt64} (h : Parting p p₂ leafPageId n f g leaf a)
    (hsplit : split (a, newLeaf n) = some (.ok promoted, (a₁, b₁)))
    (hinsert : insertHalf rowId payload promoted (a₁, b₁) = some (.ok (), (a₂, b₂)))
    (hfetch : fetchPage old (p₂.withLeaves f g (a₂.linkedLeft n)
      (b₂.linkedRight leafPageId a₂)) = some (.error e, p')) : ¬ Lossless p p' leafPageId := by
  obtain ⟨-, hheader, -, -⟩ := halves_header h.slotted rfl rfl hsplit hinsert
  have hq := h.latched.withNodes (.leaf (a₂.linkedLeft n)) (.leaf (b₂.linkedRight leafPageId a₂))
  obtain ⟨hw', hwork⟩ := (hq.wf.fetchPage hfetch).1 e rfl
  -- the frame of the new leaf is held, and no work of the pool touches it
  have hl' := hwork.kept.pinned n g hq.right hq.heldRight
  obtain ⟨node, hnode⟩ := hw'.node hl'
  have hcached := (hwork.untouched n g h.aligned h.ne_zero hq.right hq.heldRight).cached
  rw [line_of_lookup hl' hnode, h.latched.line_right] at hcached
  obtain ⟨-, hbare, hdirty⟩ : g = g ∧ node.bare = _ ∧ node.isDirty = _ := by
    simpa only [Option.some.injEq, Prod.mk.injEq] using hcached
  refine not_lossless_of_new h.new h.ne_zero hl' hnode ?_ fun hsame => ?_
  · rw [hdirty]
    obtain ⟨_, _, _, rfl⟩ := hheader
    rfl
  · cases node with
    | internal node => cases hbare
    | leaf b =>
      -- it points back to the target
      have hprev : b.hasPrev = true := congrArg LeafNode.hasPrev (BTreeNode.leaf.inj hbare)
      have hnone : b.hasPrev = false := hsame.2.2.1
      rw [hprev] at hnone
      cases hnone

/-- The call comes to split its leaf: the leaf is full, and a new page can be made. -/
def ComesToSplit (p : BufferPool φ) (leafPageId : PageId) (rowId : UInt64) (payload : List UInt8)
    (leaf : LeafNode) : Prop :=
  (∃ leaf', insertRecord rowId payload leaf = some (.error .pageFull, leaf')) ∧
    ∃ f p₁ made p₂, fetchPage leafPageId p = some (.ok f, p₁) ∧
      newPage true p₁ = some (.ok made, p₂)

/-- The call does not come to split its leaf, or the upper half of the slots are tombstones and
the leaf is dirty already. -/
def Harmless (p : BufferPool φ) (leafPageId : PageId) (rowId : UInt64) (payload : List UInt8)
    (leaf : LeafNode) : Prop :=
  ComesToSplit p leafPageId rowId payload leaf →
    leaf.upperLive = [] ∧ p.isDirtyPage leafPageId = true

/-! ### Before the split -/

/-- Only a page that is not cached fails to be fetched. -/
theorem lookup_of_fetchPage_error {id : PageId}
    (h : fetchPage id p = some (.error e, p')) : p.pageTable.lookup id = none := by
  cases fetchPage_outcome h with
  | full hl hroom => exact hl
  | unread hl hroom hread => exact hl
  | corrupt hl hroom hread hdecode => exact hl

/-- The target could not be fetched: it was not cached, and it is still what the file has. -/
theorem lossless_fetchFailed (hw : Wf p) (hfresh : Fresh p) (halloc : Allocated p leafPageId)
    (hshow : (p.line leafPageId).shows = some (.leaf leaf))
    (hfetch : fetchPage leafPageId p = some (.error e, p')) : Lossless p p' leafPageId := by
  obtain ⟨hw', hwork⟩ := (hw.fetchPage hfetch).1 e rfl
  refine .of_shows ?_ fun id hne => ((Unchanged.refl hfresh id).worked hw' hwork hne).marked
  have hm := hwork.moves leafPageId halloc.aligned halloc.ne_zero
  have hnone : (p.line leafPageId).cached = none :=
    congrArg Line.cached (line_of_not_cached (lookup_of_fetchPage_error hfetch))
  rw [Line.shows, hnone] at hshow
  rw [Line.shows, Line.shows, hm.not_cached hnone, hnone]
  exact ((hm.extended hnone).stored _ hshow).trans hshow.symm

/-- A refused record leaves the fetched leaf as it was. -/
theorem refused_target (hw : Wf p) (hfresh : Fresh p) (halloc : Allocated p leafPageId)
    (hshow : (p.line leafPageId).shows = some (.leaf leaf)) (hslot : leaf.IsSlotted)
    {p₁ : BufferPool φ} {a a' : LeafNode} (hfetch : fetchPage leafPageId p = some (.ok f, p₁))
    (hleaf : p₁.frames[f]? = some (.leaf a))
    (hinsert : insertRecord rowId payload a = some (.error e, a')) :
    Wf p₁ ∧ Fetched p p₁ leafPageId f ∧ Fresh p₁ ∧ a.bare = leaf ∧ a' = a := by
  obtain ⟨hw₁, hf, hfresh₁, hbare⟩ := fetched_target hw hfresh halloc hshow hfetch hleaf
  have hslotA : a.IsSlotted := by
    rw [← hbare] at hslot
    exact hslot
  exact ⟨hw₁, hf, hfresh₁, hbare, (keeps_insertRecord rowId payload).unchanged hslotA hinsert⟩

/-- The record was refused for another reason than a full leaf. -/
theorem lossless_refused (hw : Wf p) (hfresh : Fresh p) (halloc : Allocated p leafPageId)
    (hshow : (p.line leafPageId).shows = some (.leaf leaf)) {p₁ : BufferPool φ} {a : LeafNode}
    (hfetch : fetchPage leafPageId p = some (.ok f, p₁))
    (hleaf : p₁.frames[f]? = some (.leaf a)) :
    Lossless p { p₁ with held := p₁.held.erase f } leafPageId := by
  obtain ⟨hw₁, hf, -, hbare⟩ := fetched_target hw hfresh halloc hshow hfetch hleaf
  refine .of_shows ?_ fun id hne => ?_
  · rw [line_held, Line.shows, line_of_lookup hf.lookup hleaf, hshow, ← hbare]
    rfl
  · exact (fetched_unchanged hfresh halloc hshow hw₁ hf hleaf hbare hne).marked

/-- There was no page for the upper half. -/
theorem lossless_noPage (hw : Wf p) (hfresh : Fresh p) (halloc : Allocated p leafPageId)
    (hshow : (p.line leafPageId).shows = some (.leaf leaf)) {p₁ p₂ : BufferPool φ} {a : LeafNode}
    (hfetch : fetchPage leafPageId p = some (.ok f, p₁))
    (hleaf : p₁.frames[f]? = some (.leaf a)) (hnew : newPage true p₁ = some (.error e, p₂)) :
    Lossless p { p₂ with held := p₂.held.erase f } leafPageId := by
  obtain ⟨hw₁, hf, hfresh₁, hbare⟩ := fetched_target hw hfresh halloc hshow hfetch hleaf
  obtain ⟨hw₂, hwork, -⟩ := hw₁.newPage hfresh₁ hnew
  refine .of_shows ?_ fun id hne => ?_
  · -- the target is held while room is made
    have hheld : f ∈ p₁.held := hf.held ▸ List.mem_cons_self ..
    have hcached := ((hwork e rfl).untouched leafPageId f halloc.aligned halloc.ne_zero
      hf.lookup hheld).cached
    rw [line_held, Line.shows, hcached, line_of_lookup hf.lookup hleaf, hshow, ← hbare]
    rfl
  · have hunchanged := fetched_unchanged hfresh halloc hshow hw₁ hf hleaf hbare hne
    exact (hunchanged.worked hw₂ (hwork e rfl) hne).marked

/-! ### The call -/

/-- The two leaves of a call that splits. -/
theorem parting_of_new (hw : Wf p) (hfresh : Fresh p) (halloc : Allocated p leafPageId)
    (hshow : (p.line leafPageId).shows = some (.leaf leaf)) (hslot : leaf.IsSlotted)
    {p₁ p₂ : BufferPool φ} {n : PageId} {a₀ a' : LeafNode}
    (hfetch : fetchPage leafPageId p = some (.ok f, p₁))
    (hleaf : p₁.frames[f]? = some (.leaf a₀))
    (hinsert : insertRecord rowId payload a₀ = some (.error .pageFull, a'))
    (hnew : newPage true p₁ = some (.ok (n, g), p₂)) :
    ∃ a, Parting p p₂ leafPageId n f g leaf a := by
  obtain ⟨hw₁, hf, hfresh₁, hbare₀⟩ := fetched_target hw hfresh halloc hshow hfetch hleaf
  obtain ⟨hc, hl, a, hfa, hbare, hdirty⟩ := latched_split hw hfresh halloc hshow hfetch hleaf hnew
  obtain ⟨-, -, -, hn, -, -⟩ := served_split hw hfresh halloc hshow hfetch hleaf hnew
  -- an empty leaf has room for every payload, so this one is not empty
  have hslots : a₀.slotArray ≠ [] := by
    refine IsSlotted.slotArray_ne_nil ?_ hinsert
    rw [← hbare₀] at hslot
    exact hslot
  refine ⟨a, ?_⟩
  exact
    { latched := hl
      alloc := halloc
      shows := hshow
      left := hfa
      right := hc.frame
      bare := hbare
      dirty := hdirty.trans (isDirty_of_fetched halloc hf hleaf)
      slotted := by
        rw [← hbare] at hslot
        exact hslot
      slots := by
        rw [← hbare₀]
        exact hslots
      new := by
        rw [hc.offset, hf.header]
        rfl
      aligned := hn.aligned
      ne_zero := hn.ne_zero
      others := by
        intro id hne _ hid o c d hcached
        obtain ⟨_, hlo, -, -, -⟩ := frame_of_cached hcached
        have hmoves := hc.moves id (hl.wf.aligned_of_lookup hlo) hne hid
        exact (fetched_unchanged hfresh halloc hshow hw₁ hf hleaf hbare₀ hne).moves hmoves
          o c d hcached }

/-- **When a failed `insert_leaf` loses nothing**: when it did not come to split its leaf, or when
the upper half of the slots were tombstones and the leaf was dirty. -/
theorem insertLeaf_lossless_iff (hw : Wf p) (hfresh : Fresh p) (halloc : Allocated p leafPageId)
    (hshow : (p.line leafPageId).shows = some (.leaf leaf)) (hslot : leaf.IsSlotted)
    (hrun : t.insertLeaf leafPageId rowId payload lsn p = some (.error e, p')) :
    Lossless p p' leafPageId ↔ Harmless p leafPageId rowId payload leaf := by
  have hkeeps := keeps_insertRecord rowId payload
  -- a call that stops before the split shows every page as it was
  have hbefore : ∀ {q : BufferPool φ}, ¬ ComesToSplit p leafPageId rowId payload leaf →
      Lossless p q leafPageId →
      (Lossless p q leafPageId ↔ Harmless p leafPageId rowId payload leaf) :=
    fun hno hloss => iff_of_true hloss fun hcome => absurd hcome hno
  generalize hr : (Except.error e : Except DbError (Option SplitResult)) = r at hrun
  cases insertLeaf_outcome hrun with
  | fetchFailed hfetch =>
    cases hr
    refine hbefore ?_ (lossless_fetchFailed hw hfresh halloc hshow hfetch)
    rintro ⟨-, f, p₁, made, p₂, hfetch', -⟩
    rw [hfetch] at hfetch'
    cases hfetch'
  | @notLeaf _ f p₁ node hfetch hnode =>
    obtain ⟨-, hf⟩ := (hw.fetchPage hfetch).2 f rfl halloc.aligned
    cases hf.shows halloc.aligned halloc.ne_zero hnode hshow
  | @refused _ f p₁ a a' hfetch hleaf hinsert hnot =>
    cases hr
    obtain ⟨-, -, -, hbare, rfl⟩ := refused_target hw hfresh halloc hshow hslot hfetch hleaf hinsert
    rw [withNode_self hleaf]
    refine hbefore ?_ (lossless_refused hw hfresh halloc hshow hfetch hleaf)
    -- a full leaf would have been refused as such
    rintro ⟨⟨_, hfull⟩, -⟩
    have hsame : leaf.bare = a'.bare := by
      rw [← hbare]
      rfl
    obtain ⟨_, hfull', -⟩ := hkeeps.congr hsame hfull
    rw [hinsert] at hfull'
    cases hfull'
    exact hnot rfl
  | inserted => cases hr
  | @noPage _ f p₁ p₂ a a' hfetch hleaf hinsert hnew =>
    cases hr
    obtain ⟨-, -, -, -, rfl⟩ := refused_target hw hfresh halloc hshow hslot hfetch hleaf hinsert
    rw [withNode_self hleaf] at hnew
    refine hbefore ?_ (lossless_noPage hw hfresh halloc hshow hfetch hleaf hnew)
    rintro ⟨-, f', p₁', made, p₂', hfetch', hnew'⟩
    rw [hfetch] at hfetch'
    cases hfetch'
    rw [hnew] at hnew'
    cases hnew'
  | @split _ f g n p₁ p₂ p₃ a₀ a' hfetch hleaf hinsert hnew hsplit =>
    cases hr
    obtain ⟨-, -, -, hbare₀, rfl⟩ :=
      refused_target hw hfresh halloc hshow hslot hfetch hleaf hinsert
    rw [withNode_self hleaf] at hnew
    obtain ⟨a, hpart⟩ :=
      parting_of_new hw hfresh halloc hshow hslot hfetch hleaf hinsert hnew
    have hcome : ComesToSplit p leafPageId rowId payload leaf := by
      have hsame : a'.bare = leaf.bare := by
        rw [← hbare₀]
        rfl
      obtain ⟨full, hfull, -⟩ := hkeeps.congr hsame hinsert
      exact ⟨⟨full, hfull⟩, f, p₁, _, p₂, hfetch, hnew⟩
    have hharmless : Harmless p leafPageId rowId payload leaf ↔
        leaf.upperLive = [] ∧ p.isDirtyPage leafPageId = true :=
      ⟨fun h => h hcome, fun h _ => h⟩
    -- frames that are dropped at the end show nothing
    have hdrop : Lossless p { p₃ with held := (p₃.held.erase g).erase f } leafPageId ↔
        Lossless p p₃ leafPageId := ⟨fun h => ⟨h.live, h.marked⟩, fun h => ⟨h.live, h.marked⟩⟩
    rw [hdrop, hharmless]
    generalize hr : (Except.error e : Except DbError (Option SplitResult)) = r at hsplit
    cases insertSplit_outcome hpart.latched.frame_ne hpart.left hpart.right hsplit with
    | splitFailed hcut => exact hpart.splitFailed hcut
    | insertFailed hcut hins =>
      exact iff_of_false (hpart.insertFailed hcut hins)
        fun h => (hpart.upperLive_ne_nil hcut).2 h.1
    | fetchFailed hcut hins hnext hfetchOld =>
      cases hr
      exact iff_of_false (hpart.fetchFailed hcut hins hfetchOld)
        fun h => (hpart.upperLive_ne_nil hcut).2 h.1
    | atEnd => cases hr
    | between => cases hr

end Flusher

/-! ### A leaf that is too full -/

/-- A leaf of nine small and nine large records, in a pool with room for one page more. The upper
half takes the nine large ones and has no room for another: the call fails, and the first of them
is neither in the leaf nor behind it. -/
theorem exists_overfull : ∃ (p p' : BufferPool Empty) (leaf : LeafNode),
    Wf p ∧ Fresh p ∧ Allocated p ⟨4096⟩ ∧ (p.line ⟨4096⟩).shows = some (.leaf leaf) ∧
      leaf.IsSlotted ∧ BpTree.insertLeaf ⟨⟨4096⟩⟩ ⟨4096⟩ 18 (List.replicate maxValueSize 0) 1 p =
        some (.error .pageFull, p') ∧
      (9, List.replicate maxValueSize 0) ∈ p.liveAt ⟨4096⟩ ∧
      (9, List.replicate maxValueSize 0) ∉ p'.liveAt ⟨4096⟩ ∧
      (p'.line ⟨4096⟩).shows.bind BTreeNode.next = none := by
  -- nine empty rows below nine of the greatest size: the upper half is as full as the leaf was
  have hrun : ((newPage true (new ⟨.empty, .default, []⟩ 2 (none : Option Empty))).bind fun made =>
      made.1.toOption.bind fun loan =>
        (runCalls (LeafNode.newEmpty ⟨4096⟩) nineSmall).bind fun leaf =>
          (fun p : BufferPool Empty =>
            (BpTree.insertLeaf ⟨⟨4096⟩⟩ ⟨4096⟩ 18 (List.replicate maxValueSize 0) 1 p).map
              fun x => (x.1, decide ((9, List.replicate maxValueSize 0) ∈ p.liveAt ⟨4096⟩),
                decide ((9, List.replicate maxValueSize 0) ∈ x.2.liveAt ⟨4096⟩),
                (x.2.line ⟨4096⟩).shows.bind BTreeNode.next))
            { made.2.withNode loan.2 (.leaf leaf) with held := made.2.held.erase loan.2 }) =
      some (.error .pageFull, true, false, none) := by
    decide +kernel
  have hserv : Serviceable (new ⟨.empty, .default, []⟩ 2 (none : Option Empty)) :=
    .new rfl (by decide) WalFlusher.reliable_none
  have hfresh : Fresh (new ⟨.empty, .default, []⟩ 2 (none : Option Empty)) :=
    .new .empty [] 2 none
  obtain ⟨f, p₀, hnew, hready, -⟩ := hserv.newPage hfresh (by decide) true
  have hc := (hserv.wf.newPage hfresh hnew).2.2 _ _ rfl
  have hfresh₀ := hfresh.of_created hc
  rw [hnew, Option.bind_some] at hrun
  change Option.bind (some _) _ = _ at hrun
  rw [Option.bind_some] at hrun
  obtain ⟨leaf, hleaf, hrun⟩ := Option.bind_eq_some_iff.mp hrun
  obtain ⟨⟨r, p'⟩, hinsert, heq⟩ := Option.map_eq_some_iff.mp hrun
  simp only [Prod.mk.injEq, decide_eq_true_eq, decide_eq_false_iff_not] at heq
  obtain ⟨rfl, hbefore, hafter, hnext⟩ := heq
  have hbuilt : Built LeafOp.ChangesRecord leaf := .runCalls (.new _) (by decide) hleaf
  refine ⟨_, p', leaf.bare, (hready.wf.withNode f (.leaf leaf)).drop f,
    ⟨hfresh₀.aligned, hfresh₀.pos, hfresh₀.below⟩, ⟨by decide, by decide, ?_⟩, ?_,
    hbuilt.slotted.bare, hinsert, hbefore, hafter, hnext⟩
  · show 4096 < p₀.diskManager.header.nextFreeOffset.toNat
    rw [hc.next_toNat]
    decide
  · have hline := hready.wf.line_withNode hc.lookup (.leaf leaf)
    exact congrArg Line.shows hline

theorem insertLeaf_lossless_iff_overfull : ∃ (p p' : BufferPool Empty) (leaf : LeafNode),
    BpTree.insertLeaf ⟨⟨4096⟩⟩ ⟨4096⟩ 18 (List.replicate maxValueSize 0) 1 p =
        some (.error .pageFull, p') ∧
      (Lossless p p' ⟨4096⟩ ↔
        Harmless p ⟨4096⟩ 18 (List.replicate maxValueSize 0) leaf) := by
  obtain ⟨p, p', leaf, hw, hfresh, halloc, hshow, hslot, hrun, -⟩ := exists_overfull
  exact ⟨p, p', leaf, hrun, insertLeaf_lossless_iff hw hfresh halloc hshow hslot hrun⟩

/-- The first record of the upper half is lost. -/
theorem insertLeaf_loses : ¬ ∀ (p p' : BufferPool Empty) (t : BpTree) (leafPageId : PageId)
    (rowId lsn : UInt64) (payload : List UInt8) (leaf : LeafNode) (e : DbError),
    Wf p → Fresh p → Allocated p leafPageId →
      (p.line leafPageId).shows = some (.leaf leaf) → leaf.IsSlotted →
        t.insertLeaf leafPageId rowId payload lsn p = some (.error e, p') →
          Lossless p p' leafPageId := by
  intro hclaim
  obtain ⟨p, p', leaf, hw, hfresh, halloc, hshow, hslot, hrun, hbefore, hafter, hnext⟩ :=
    exists_overfull
  obtain ⟨id, hreach, hmem⟩ :=
    (hclaim p p' _ _ _ _ _ leaf _ hw hfresh halloc hshow hslot hrun).live _ hbefore
  obtain rfl | ⟨next, hstep, -⟩ := Relation.ReflTransGen.cases_head_iff.mp hreach
  · exact hafter hmem
  · -- the leaf has no forward pointer
    rw [Leads, hnext] at hstep
    cases hstep

end BpTree

end SmolDb
