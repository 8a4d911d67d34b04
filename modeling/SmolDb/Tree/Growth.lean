import SmolDb.Pool.Clients
import SmolDb.Tree.Chain
import SmolDb.Tree.Effect

/-!
# A tree level grows

The leaf level starts as one leaf made by `new_page` and grows by calls of `insert_leaf`, each on
the leaf whose range holds the row id. `Grows first s` says that `s` is reached so, with any steps
of other clients in between: pages come and go in the cache as they like.

The first leaf is clean and was never written, so until the first call it may be lost
(`Nascent`); a call that succeeds shows that it was not. From then on the pages of the ranges
have the contents of a chain (`Backed`), which every step keeps.
-/

namespace SmolDb

open WriteBack BufferPool LeafNode

namespace BpTree

variable {φ : Type}

/-- The ranges a successful `insert_leaf` adds. -/
def promotedRanges (res : Option SplitResult) : List Range :=
  (res.map fun split => ⟨split.promotedRowId, split.newPageId⟩).toList

/-- The state of a run, with the leaves created, their ranges and the pairs inserted so far. -/
structure Growth (φ : Type) where
  pool : BufferPool φ
  created : List PageId
  ranges : List Range
  inserted : List (UInt64 × List UInt8)

section Flusher

variable [WalFlusher φ]

/-- The states that are reached from one empty leaf by calls of `insert_leaf` that return `Ok`,
and by steps of other clients. -/
inductive Grows (first : PageId) : Growth φ → Prop
  | start {p p' : BufferPool φ} {f : Frame} (hw : Wf p) (hfresh : Fresh p) (hunborn : Unborn p)
      (hno : p.diskManager.faults = []) (hnew : newPage true p = some (.ok (first, f), p')) :
      Grows first ⟨p', [first], [⟨0, first⟩], []⟩
  | client {s : Growth φ} {p' : BufferPool φ} (h : Grows first s) (hc : Client s.pool p') :
      Grows first { s with pool := p' }
  | insert {s : Growth φ} {t : BpTree} {xs ys : List Range} {r : Range} {rowId lsn : UInt64}
      {payload : List UInt8} {res : Option SplitResult} {p' : BufferPool φ} (h : Grows first s)
      (hranges : s.ranges = xs ++ r :: ys) (hlow : r.low ≤ rowId)
      (hhigh : ∀ r' ∈ ys.head?, rowId < r'.low)
      (hrun : t.insertLeaf r.pageId rowId payload lsn s.pool = some (.ok res, p')) :
      Grows first
        { pool := p'
          created := (promotedRanges res).map Range.pageId ++ s.created
          ranges := xs ++ r :: (promotedRanges res ++ ys)
          inserted := (rowId, payload) :: s.inserted }

end Flusher

/-! ### The pages of a chain -/

variable {p p' : BufferPool φ} {t : BpTree} {first n : PageId} {leafOf : PageId → LeafNode}
  {ranges xs ys : List Range} {r : Range} {inserted : List (UInt64 × List UInt8)}
  {rowId lsn : UInt64} {payload : List UInt8} {res : Option SplitResult}

/-- The pool is in order, and nothing goes wrong on its disk. -/
structure Sound (p : BufferPool φ) : Prop where
  wf : Wf p
  fresh : Fresh p
  faults : p.diskManager.faults = []

/-- The pages of the ranges have the leaves as their contents. -/
structure Backed (p : BufferPool φ) (leafOf : PageId → LeafNode) (ranges : List Range) : Prop
    extends Sound p where
  allocated : ∀ r ∈ ranges, Allocated p r.pageId
  has : ∀ r ∈ ranges, p.Has r.pageId (.leaf (leafOf r.pageId))

/-- The first leaf, to which nothing was done yet. -/
structure Nascent (p : BufferPool φ) (first : PageId) : Prop extends Sound p where
  allocated : Allocated p first
  newborn : p.Newborn first (.leaf (newLeaf first))

/-- What an insert needs: the target shows its leaf, and the other pages have theirs. -/
structure Shown (p : BufferPool φ) (leafOf : PageId → LeafNode) (xs : List Range) (r : Range)
    (ys : List Range) : Prop extends Sound p where
  allocated : ∀ r' ∈ xs ++ r :: ys, Allocated p r'.pageId
  shows : (p.line r.pageId).shows = some (.leaf (leafOf r.pageId))
  others : ∀ r' ∈ xs ++ ys, p.Has r'.pageId (.leaf (leafOf r'.pageId))

theorem Backed.shown (h : Backed p leafOf (xs ++ r :: ys)) : Shown p leafOf xs r ys where
  toSound := h.toSound
  allocated := h.allocated
  shows := Holds.shows (h.has r (List.mem_append_right _ (List.mem_cons_self ..)))
  others r' hr' := by
    refine h.has r' ?_
    rcases List.mem_append.mp hr' with hx | hy
    · exact List.mem_append_left _ hx
    · exact List.mem_append_right _ (List.mem_cons_of_mem _ hy)

/-- The old right sibling has its leaf, with the backward pointer on the new one. -/
theorem Relinked.has {id : PageId} {leaf : LeafNode} (h : Relinked p p' id n lsn)
    (hno : p.diskManager.faults = []) (hc : p.Has id (.leaf leaf)) :
    p'.Has id (.leaf { leaf with hasPrev := true, prevPageId := n.val, lastLsn := lsn }) := by
  obtain ⟨v, f, node, hserves, hcached, hline⟩ := h
  have hslot : leaf.IsSlotted := hc.slotted
  -- the node that was fetched is the content of the page
  have hnode : node.bare = .leaf leaf :=
    Holds.eq_of_cached (Holds.serves (fun hf => hf hno) hserves hc) hcached
  cases node with
  | internal node => cases hnode
  | leaf old =>
    obtain rfl : old.bare = leaf := BTreeNode.leaf.inj hnode
    refine ⟨hslot, .inl ⟨f, ?_⟩⟩
    rw [hline]
    rfl

theorem Relinked.traced {id : PageId} {c : BTreeNode} {Q : Prop} {S : BTreeNode → Prop}
    (h : Relinked p p' id n lsn) (hno : p.diskManager.faults = []) (hc : p.Has id c) (hS : S c)
    (htraced : Traced Q S (p.line id)) : Traced Q S (p'.line id) := by
  obtain ⟨v, f, node, hserves, -, hline⟩ := h
  rw [hline]
  show Traced Q S v
  exact Holds.traced_serves (fun hf => hf hno) hS hserves hc htraced

theorem Settled.sound (h : Settled p p') (hp : Sound p) : Sound p' :=
  ⟨h.wf, h.fresh, h.faults hp.faults⟩

/-- The chain on the pages that a call leaves which found room for the record. -/
theorem Shown.whole (h : Shown p leafOf xs r ys) (hset : Settled p p') {a' : LeafNode}
    (hne : ∀ r' ∈ xs ++ ys, r'.pageId ≠ r.pageId) (hslot : a'.IsSlotted)
    (hpage : Overwritten p p' r.pageId (BTreeNode.markDirty lsn (.leaf a')).bare)
    (hothers : ∀ id : PageId, id.Aligned → id.val ≠ 0 → id ≠ r.pageId → Served p p' id)
    (hheader : p'.diskManager.header = p.diskManager.header) :
    Backed p' (Function.update leafOf r.pageId (stamped lsn a')) (xs ++ r :: ys) where
  toSound := hset.sound h.toSound
  allocated r' hr' := by
    have ha := h.allocated r' hr'
    refine ⟨ha.aligned, ha.ne_zero, ?_⟩
    rw [hheader]
    exact ha.below
  has := by
    refine forall_ranges [r] ?_ ?_
    · refine List.forall_mem_singleton.mpr ?_
      rw [Function.update_self]
      exact hpage.has hslot
    · -- the other leaves are on pages that the call has only served
      intro r' hr'
      rw [Function.update_of_ne (hne r' hr')]
      have ha := h.allocated r' (mem_around hr')
      exact (hothers _ ha.aligned ha.ne_zero (hne r' hr')).has h.faults (h.others r' hr')

/-- The chain on the pages that a call leaves which split the leaf. -/
theorem Shown.halves (h : Shown p leafOf xs r ys) (hset : Settled p p') {left right : LeafNode}
    {promoted : UInt64} (hne : ∀ r' ∈ xs ++ ys, r'.pageId ≠ r.pageId)
    (hn : ∀ r' ∈ xs ++ r :: ys, r'.pageId ≠ n) (hslotLeft : left.IsSlotted)
    (hslotRight : right.IsSlotted) (halloc : n.Aligned ∧ n.val ≠ 0)
    (hnew : n.val = p.diskManager.header.nextFreeOffset)
    (hheader : p'.diskManager.header.nextFreeOffset.toNat =
      p.diskManager.header.nextFreeOffset.toNat + pageSize)
    (hleft : Overwritten p p' r.pageId (.leaf left)) (hright : Overwritten p p' n (.leaf right))
    (hold : ∀ id, (leafOf r.pageId).links.next = some id → Relinked p p' id n lsn)
    (hothers : ∀ id : PageId, id.Aligned → id.val ≠ 0 → id ≠ r.pageId → id ≠ n →
      (leafOf r.pageId).links.next ≠ some id → Served p p' id) :
    Backed p' (afterSplit leafOf r.pageId n left right lsn)
      (xs ++ r :: ⟨promoted, n⟩ :: ys) where
  toSound := hset.sound h.toSound
  allocated := by
    -- the counter has moved on, past the new page
    have hgrow : ∀ r' ∈ xs ++ r :: ys, Allocated p' r'.pageId := by
      intro r' hr'
      have ha := h.allocated r' hr'
      refine ⟨ha.aligned, ha.ne_zero, ?_⟩
      rw [hheader]
      exact Nat.lt_add_right _ ha.below
    refine forall_ranges [r, ⟨promoted, n⟩] ?_ fun r' hr' => hgrow r' (mem_around hr')
    refine List.forall_mem_cons.mpr ⟨?_, List.forall_mem_singleton.mpr ?_⟩
    · exact hgrow r (List.mem_append_right _ (List.mem_cons_self ..))
    · refine ⟨halloc.1, halloc.2, ?_⟩
      show n.val.toNat < _
      rw [hheader, hnew]
      exact Nat.lt_add_of_pos_right (by decide)
  has := by
    have hnt : n ≠ r.pageId := (hn r (List.mem_append_right _ (List.mem_cons_self ..))).symm
    refine forall_ranges [r, ⟨promoted, n⟩] ?_ ?_
    · refine List.forall_mem_cons.mpr ⟨?_, List.forall_mem_singleton.mpr ?_⟩
      · rw [afterSplit_left]
        exact hleft.has hslotLeft
      · show p'.Has n _
        rw [afterSplit_right hnt]
        exact hright.has hslotRight
    · intro r' hr'
      have hmem : r' ∈ xs ++ r :: ys := mem_around hr'
      have ha := h.allocated r' hmem
      have hhas := h.others r' hr'
      -- the leaf behind the target was relinked, the others were only served
      by_cases hnext : (leafOf r.pageId).links.next = some r'.pageId
      · rw [afterSplit_next (hne r' hr') (hn r' hmem) hnext]
        exact (hold _ hnext).has h.faults hhas
      · rw [afterSplit_other (hne r' hr') (hn r' hmem) hnext]
        exact (hothers _ ha.aligned ha.ne_zero (hne r' hr') (hn r' hmem) hnext).has h.faults hhas

theorem links_next_of_hasNext {leaf : LeafNode} {id : PageId} :
    leaf.links.next = some id ↔ leaf.hasNext = true ∧ id = ⟨leaf.nextPageId⟩ := by
  unfold LeafNode.links
  cases leaf.hasNext with
  | false => exact ⟨nofun, fun h => absurd h.1 nofun⟩
  | true => exact ⟨fun h => ⟨rfl, (Option.some.inj h).symm⟩, fun h => congrArg some h.2.symm⟩

/-- **A call that succeeds keeps the chain.** -/
theorem Shown.grown [WalFlusher φ] (h : Shown p leafOf xs r ys)
    (hchain : Chain leafOf (xs ++ r :: ys) inserted) (hlow : r.low ≤ rowId)
    (hhigh : ∀ r' ∈ ys.head?, rowId < r'.low)
    (hrun : t.insertLeaf r.pageId rowId payload lsn p = some (.ok res, p')) :
    ∃ leafOf', Backed p' leafOf' (xs ++ r :: (promotedRanges res ++ ys)) ∧
      Chain leafOf' (xs ++ r :: (promotedRanges res ++ ys)) ((rowId, payload) :: inserted) := by
  have hmem : r ∈ xs ++ r :: ys := List.mem_append_right _ (List.mem_cons_self ..)
  have hne := hchain.ne_target
  have hslot := hchain.slotted r hmem
  -- the pointers of the chain stay among its pages
  have hnextAlloc : ∀ id, (leafOf r.pageId).links.next = some id → Allocated p id := by
    intro id hid
    rw [hchain.next_eq] at hid
    obtain ⟨r', hr', rfl⟩ := List.mem_map.mp (List.mem_of_mem_head? hid)
    exact h.allocated r' (List.mem_append_right _ (List.mem_cons_of_mem _ hr'))
  obtain ⟨hset, hins⟩ := insertLeaf_ok h.wf h.fresh (h.allocated r hmem) h.shows hslot
    (fun hhas => hnextAlloc _ (links_next_of_hasNext.mpr ⟨hhas, rfl⟩)) hrun
  cases hins with
  | @whole a a' hbare hinsert hpage hothers hheader =>
    have hslotA : a.IsSlotted := by
      rw [← hbare] at hslot
      exact hslot
    refine ⟨_, h.whole hset hne ?_ hpage hothers hheader, hchain.whole hlow hhigh hbare hinsert⟩
    exact (keeps_insertRecord rowId payload).slotted hslotA hinsert
  | @halves n promoted a a₁ b₁ a₂ b₂ hbare hfull hsplit hinsert hnew hheader hleft hright hold
      hothers =>
    have hslotA : a.IsSlotted := by
      rw [← hbare] at hslot
      exact hslot
    have hn : ∀ r' ∈ xs ++ r :: ys, r'.pageId ≠ n := fun r' hr' =>
      (h.allocated r' hr').ne_new hnew
    obtain ⟨-, -, hslotLeft, hslotRight⟩ := halves_header hslotA rfl rfl hsplit hinsert
    refine ⟨_, h.halves hset hne hn (show (stamped lsn (a₂.linkedLeft n)).IsSlotted from hslotLeft)
      (show (stamped lsn (b₂.linkedRight r.pageId a₂)).IsSlotted from hslotRight) ?_ hnew hheader
      hleft hright ?_ ?_, hchain.halves hlow hhigh hbare rfl rfl hsplit hinsert hn⟩
    · constructor
      · rw [PageId.Aligned, hnew]
        exact h.fresh.aligned
      · intro hzero
        have hpos := h.fresh.pos
        rw [← hnew, hzero] at hpos
        exact absurd hpos (by decide)
    · intro id hid
      obtain ⟨hhas, rfl⟩ := links_next_of_hasNext.mp hid
      exact (hold hhas).2.2
    · intro id ha hzero hleftNe hrightNe hnext
      refine hothers id ha hzero hleftNe hrightNe fun hhas heq => ?_
      exact hnext (links_next_of_hasNext.mpr ⟨hhas, heq⟩)

/-! ### The first leaf -/

theorem chain_newLeaf (first : PageId) :
    Chain (fun _ => newLeaf first) [⟨0, first⟩] [] where
  slotted _ _ := List.Perm.refl _
  sorted _ _ := List.Pairwise.nil
  nodup := List.nodup_singleton _
  linked := ⟨rfl, trivial⟩
  fenced := by
    refine ⟨?_, List.pairwise_singleton _ _⟩
    intro bucket hb row hrow
    rw [List.map_singleton, List.mem_singleton] at hb
    subst hb
    exact absurd hrow (List.not_mem_nil)
  live := List.Perm.refl _

/-- A leaf that was just made, over a place that was never written. -/
theorem Nascent.created [WalFlusher φ] {f : Frame} (hw : Wf p) (hfresh : Fresh p)
    (hunborn : Unborn p) (hno : p.diskManager.faults = [])
    (hnew : newPage true p = some (.ok (first, f), p')) : Nascent p' first := by
  obtain ⟨hw', -, hcreated⟩ := hw.newPage hfresh hnew
  have hc := hcreated first f rfl
  obtain ⟨ha, hne⟩ := hfresh.aligned_next hc
  exact
    { wf := hw'
      fresh := hfresh.of_created hc
      faults := hc.grown.faults hno
      allocated := by
        refine ⟨ha, hne, ?_⟩
        rw [hc.next_toNat, hc.offset]
        exact Nat.lt_add_of_pos_right (by decide)
      newborn := by
        refine ⟨hc.blank hunborn hfresh, ?_⟩
        intro f' c d hcached
        -- the only copy is the one `new_page` has put into the frame
        rw [line_of_lookup hc.lookup hc.frame] at hcached
        cases hcached
        exact ⟨rfl, .inl rfl⟩ }

/-- When a fetch of the first leaf returns a leaf, it is still the one that was made: once lost,
the page decodes as a routing node. -/
theorem Nascent.shows [WalFlusher φ] (h : Nascent p first) {f : Frame} {p₁ : BufferPool φ}
    {a : LeafNode} (hfetch : fetchPage first p = some (.ok f, p₁))
    (hleaf : p₁.frames[f]? = some (.leaf a)) :
    (p.line first).shows = some (.leaf (newLeaf first)) := by
  obtain ⟨-, hf⟩ := (h.wf.fetchPage hfetch).2 f rfl h.allocated.aligned
  have hcached : (p₁.line first).cached = some (f, .leaf a.bare, a.isDirty) :=
    congrArg Line.cached (line_of_lookup hf.lookup hleaf)
  cases hl : p.pageTable.lookup first with
  | some f' =>
    rw [hf.hit f' hl] at hcached
    have hshow : (p.line first).shows = some (.leaf a.bare) := by
      unfold Line.shows
      rw [hcached]
    -- in memory it is the empty leaf; from the file it would be the page of zeros, an internal node
    rcases (h.newborn.cached _ _ _ hcached).2 with hnew | hzero
    · rw [hshow, hnew]
    · cases hzero
  | none =>
    obtain ⟨-, hzero⟩ := h.newborn.loaded h.allocated.aligned h.allocated.ne_zero hl hf
    rw [hzero] at hcached
    cases hcached

theorem Nascent.shown [WalFlusher φ] (h : Nascent p first)
    (hrun : t.insertLeaf first rowId payload lsn p = some (.ok res, p')) :
    Shown p (fun _ => newLeaf first) [] ⟨0, first⟩ [] := by
  refine ⟨h.toSound, List.forall_mem_singleton.mpr h.allocated, ?_, nofun⟩
  cases insertLeaf_outcome hrun with
  | inserted hfetch hleaf => exact h.shows hfetch hleaf
  | split hfetch hleaf => exact h.shows hfetch hleaf

/-! ### Runs -/

section Flusher

variable [WalFlusher φ]

theorem Sound.client (h : Sound p) (hc : Client p p') : Sound p' :=
  have hkind := hc.kind h.wf h.fresh
  ⟨hkind.wf, hkind.fresh, hkind.faults h.faults⟩

theorem Nascent.client (h : Nascent p first) (hc : Client p p') : Nascent p' first :=
  have hkind := hc.kind h.wf h.fresh
  ⟨h.toSound.client hc, hkind.allocated _ h.allocated, hkind.newborn _ _ h.allocated h.newborn⟩

theorem Backed.client (h : Backed p leafOf ranges) (hc : Client p p') :
    Backed p' leafOf ranges := by
  have hkind := hc.kind h.wf h.fresh
  refine ⟨h.toSound.client hc, fun r hr => hkind.allocated _ (h.allocated r hr), ?_⟩
  intro r hr
  exact (hkind.served _ (h.allocated r hr)).has h.faults (h.has r hr)

/-- What holds in every state of a run. -/
structure Invariant (first : PageId) (s : Growth φ) : Prop where
  head : s.ranges.head? = some ⟨0, first⟩
  created : (s.ranges.map Range.pageId).Perm s.created
  content : (Nascent s.pool first ∧ s.ranges = [⟨0, first⟩] ∧ s.inserted = []) ∨
    ∃ leafOf, Backed s.pool leafOf s.ranges ∧ Chain leafOf s.ranges s.inserted

/-- **The invariant of a run.** -/
theorem Grows.invariant {s : Growth φ} (h : Grows first s) : Invariant first s := by
  induction h with
  | start hw hfresh hunborn hno hnew =>
    exact ⟨rfl, .refl _, .inl ⟨.created hw hfresh hunborn hno hnew, rfl, rfl⟩⟩
  | client _ hc ih =>
    refine ⟨ih.head, ih.created, ?_⟩
    rcases ih.content with ⟨hnascent, hstart⟩ | ⟨leafOf, hbacked, hchain⟩
    · exact .inl ⟨hnascent.client hc, hstart⟩
    · exact .inr ⟨leafOf, hbacked.client hc, hchain⟩
  | @insert s t xs ys r rowId lsn payload res p' _ hranges hlow hhigh hrun ih =>
    -- the range of the target is followed by the new range, if there is one
    have hcontent : ∃ leafOf,
        Backed p' leafOf (xs ++ r :: (promotedRanges res ++ ys)) ∧
          Chain leafOf (xs ++ r :: (promotedRanges res ++ ys))
            ((rowId, payload) :: s.inserted) := by
      rcases ih.content with ⟨hnascent, hone, hnone⟩ | ⟨leafOf, hbacked, hchain⟩
      · -- the first call
        rw [hranges] at hone
        obtain ⟨rfl, hcons⟩ : xs = [] ∧ r :: ys = [⟨0, first⟩] := by
          cases xs with
          | nil => exact ⟨rfl, hone⟩
          | cons x xs =>
            rw [List.cons_append, List.cons.injEq] at hone
            exact absurd hone.2 (by simp)
        cases hcons
        rw [hnone]
        exact (hnascent.shown hrun).grown (chain_newLeaf first) hlow hhigh hrun
      · rw [hranges] at hbacked hchain
        exact hbacked.shown.grown hchain hlow hhigh hrun
    refine ⟨?_, ?_, .inr hcontent⟩
    · have hhead := ih.head
      rw [hranges] at hhead
      cases xs with
      | nil => exact hhead
      | cons x xs => exact hhead
    · -- the new ranges are the new leaves
      have hcreated := ih.created
      rw [hranges, List.map_append, List.map_cons] at hcreated
      show (List.map Range.pageId (xs ++ r :: (promotedRanges res ++ ys))).Perm _
      rw [List.map_append, List.map_cons, List.map_append]
      let news := (promotedRanges res).map Range.pageId
      calc (xs.map Range.pageId ++ r.pageId :: (news ++ ys.map Range.pageId)).Perm
            (xs.map Range.pageId ++ (news ++ r.pageId :: ys.map Range.pageId)) :=
          List.perm_middle.symm.append_left _
        List.Perm _ (news ++ (xs.map Range.pageId ++ r.pageId :: ys.map Range.pageId)) :=
          List.perm_append_comm_assoc ..
        List.Perm _ _ := hcreated.append_left _

/-- **Chain correctness over whole runs.** After every call the pages created have contents that
form one chain: following the next pointers from the first leaf visits each of them once, the
pointers agree in both directions, every row id lies in the range of its leaf, and the live pairs
along the chain are sorted and are the pairs inserted. -/
theorem chain_correct {s : Growth φ} (h : Grows first s) (hcall : s.inserted ≠ []) :
    ∃ leafOf : PageId → LeafNode,
      (∀ r ∈ s.ranges, s.pool.Has r.pageId (.leaf (leafOf r.pageId))) ∧
      s.created.Nodup ∧ (s.ranges.map Range.pageId).Perm s.created ∧
      (∀ fuel, s.ranges.length ≤ fuel →
        Linked.walk (fun id => (leafOf id).links.next) fuel (some first) =
          some (s.ranges.map Range.pageId)) ∧
      Linked.Segment (fun id => (leafOf id).links) none (s.ranges.map Range.pageId) none ∧
      (∀ xs r ys, s.ranges = xs ++ r :: ys → ∀ row ∈ (leafOf r.pageId).rows,
        r.low ≤ row.rowId ∧ ∀ r' ∈ ys.head?, row.rowId < r'.low) ∧
      (s.ranges.flatMap fun r => (leafOf r.pageId).live).Pairwise (fun a b => a.1 < b.1) ∧
      (s.ranges.flatMap fun r => (leafOf r.pageId).live).Perm s.inserted := by
  have hinv := h.invariant
  -- before the first call there is no chain on the pages
  rcases hinv.content with ⟨-, -, hnone⟩ | ⟨leafOf, hbacked, hchain⟩
  · exact absurd hnone hcall
  refine ⟨leafOf, hbacked.has, hinv.created.nodup_iff.mp hchain.nodup, hinv.created, ?_,
    hchain.linked, ?_, hchain.pairs_sorted, hchain.live⟩
  · intro fuel hfuel
    have hlen : (s.ranges.map Range.pageId).length ≤ fuel := by rwa [List.length_map]
    have hwalk := Linked.walk_segment hchain.linked hlen
    rw [List.head?_map, hinv.head] at hwalk
    exact hwalk
  · intro xs r ys hranges row hrow
    rw [hranges] at hchain
    obtain ⟨hlow, hhigh⟩ := hchain.within hrow
    exact ⟨hlow, fun r' hr' => hhigh r' (List.mem_of_mem_head? hr')⟩

end Flusher

/-! ### Eleven rows -/

namespace ElevenRows

/-- As long as a row may be. -/
def longest : List UInt8 := List.replicate maxValueSize 0

/-- Insert rows into a leaf that has room for them. -/
def fill (leafPageId : PageId) : List UInt64 → Exec DbError (BufferPool Empty) Unit
  | [] => pure ()
  | rowId :: rowIds => do
    match ← insertLeaf ⟨leafPageId⟩ leafPageId rowId longest 1 with
    | none => fill leafPageId rowIds
    | some _ => Exec.abort

/-- The tenth row splits the leaf. Then another client makes a page, for which a leaf has to go, and
the last row is put into the other leaf. -/
def run : Exec DbError (BufferPool Empty) (PageId × Option SplitResult × Option SplitResult) := do
  let (leafPageId, leafFrame) ← newPage true
  dropFrame leafFrame
  fill leafPageId [0, 1, 2, 3, 4, 5, 6, 7, 8]
  let split ← insertLeaf ⟨leafPageId⟩ leafPageId 9 longest 1
  let (_, frame) ← newPage true
  dropFrame frame
  let last ← insertLeaf ⟨leafPageId⟩ ⟨8192⟩ 10 longest 1
  pure (leafPageId, split, last)

/-- An empty file, and room for two pages. -/
def pool : BufferPool Empty := BufferPool.new ⟨.empty, .default, []⟩ 2 none

theorem run_eq : ∃ p, run pool = some (.ok (⟨4096⟩, some ⟨4, ⟨8192⟩⟩, none), p) ∧
    p.pageTable.keys = [⟨12288⟩, ⟨8192⟩] :=
  Exec.ok_of_map (by decide +kernel)

/-- What was filled into the first leaf. -/
theorem grows_fill {s : Growth Empty} {p' : BufferPool Empty} {rowIds : List UInt64}
    (h : Grows first s) (hone : s.ranges = [⟨0, first⟩])
    (hrun : fill first rowIds s.pool = some (.ok (), p')) :
    Grows first ⟨p', s.created, s.ranges, (rowIds.map (·, longest)).reverse ++ s.inserted⟩ := by
  induction rowIds generalizing s with
  | nil =>
    cases hrun
    exact h
  | cons rowId rowIds ih =>
    obtain ⟨res, p₁, hinsert, hrest⟩ := Exec.bind_eq_ok.mp hrun
    cases res with
    | some split => cases hrest
    | none =>
      have hranges : s.ranges = [] ++ ⟨0, first⟩ :: [] := hone
      have hnext := h.insert hranges UInt64.zero_le nofun hinsert
      have hall := ih hnext rfl hrest
      rw [List.map_cons, List.reverse_cons, List.append_assoc, hone]
      exact hall

end ElevenRows

open ElevenRows in
/-- The leaf that had to go has its rows in the file. -/
theorem chain_elevenRows : ∃ s : Growth Empty, ∃ leafOf : PageId → LeafNode,
    Grows ⟨4096⟩ s ∧ s.ranges = [⟨0, ⟨4096⟩⟩, ⟨4, ⟨8192⟩⟩] ∧ ⟨4096⟩ ∉ s.pool.pageTable ∧
      (∀ r ∈ s.ranges, s.pool.Has r.pageId (.leaf (leafOf r.pageId))) ∧
      (s.ranges.flatMap fun r => (leafOf r.pageId).live).Perm s.inserted := by
  obtain ⟨p, hrun, hkeys⟩ := run_eq
  unfold run at hrun
  obtain ⟨⟨id, f⟩, p₁, hnew, hrun⟩ := Exec.bind_eq_ok.mp hrun
  obtain ⟨⟨⟩, p₂, hdrop, hrun⟩ := Exec.bind_eq_ok.mp hrun
  obtain ⟨⟨⟩, p₃, hfill, hrun⟩ := Exec.bind_eq_ok.mp hrun
  obtain ⟨split, p₄, hsplit, hrun⟩ := Exec.bind_eq_ok.mp hrun
  obtain ⟨⟨other, g⟩, p₅, hother, hrun⟩ := Exec.bind_eq_ok.mp hrun
  obtain ⟨⟨⟩, p₆, hdrop', hrun⟩ := Exec.bind_eq_ok.mp hrun
  obtain ⟨last, p₇, hlast, hrun⟩ := Exec.bind_eq_ok.mp hrun
  cases hrun
  cases hdrop
  cases hdrop'
  have hstart := Grows.start (.new _ _ _) (.new _ _ _ _) (.new _ _ _) rfl hnew
  have hfilled := grows_fill (hstart.client (.drop f)) rfl hfill
  have hone : [(⟨0, ⟨4096⟩⟩ : Range)] = [] ++ ⟨0, ⟨4096⟩⟩ :: [] := rfl
  have hcut := hfilled.insert hone UInt64.zero_le nofun hsplit
  have hmade := (hcut.client (.make hother)).client (.drop g)
  have htwo : [(⟨0, ⟨4096⟩⟩ : Range), ⟨4, ⟨8192⟩⟩] = [⟨0, ⟨4096⟩⟩] ++ ⟨4, ⟨8192⟩⟩ :: [] := rfl
  have hend := hmade.insert htwo (by decide) nofun hlast
  obtain ⟨leafOf, hhas, -, -, -, -, -, -, hperm⟩ := chain_correct hend nofun
  refine ⟨_, leafOf, hend, rfl, fun hmem => ?_, hhas, hperm⟩
  have hin := AList.mem_keys.mp hmem
  rw [hkeys] at hin
  exact absurd hin (by decide)

end BpTree

end SmolDb
