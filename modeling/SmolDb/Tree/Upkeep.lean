import SmolDb.Recovery.Repeat
import SmolDb.Tree.Descent
import SmolDb.Tree.Growth

/-!
# A tree in use

A tree that is stored in a pool is used by any number of clients: rows are looked up, inserted
with `insert_leaf` into the leaf they are routed to, and updated and deleted in their leaves, while
pages come and go in the cache. The routing nodes stay as they are throughout; when a leaf is split
nobody tells them of the new one.

To its clients the tree is a map, and `RowMap.inserted` says what this map becomes: with a split it
loses the rows of the leaf from the promoted row id on. Beyond that nothing is lost, and nothing is
made up (`tree_refines`).
-/

namespace SmolDb

open WriteBack BufferPool LeafNode Listing

/-- The map after `insert_leaf` has returned `Ok`. The rows of the leaf from the promoted row id on
are out of reach. -/
def RowMap.inserted (m : RowMap) (route : UInt64 → PageId) (rowId : UInt64)
    (payload : List UInt8) : Option SplitResult → RowMap
  | none => Function.update m rowId (some payload)
  | some split => fun k =>
    if route k = route rowId ∧ split.promotedRowId ≤ k then none
    else Function.update m rowId (some payload) k

namespace BpTree

variable {φ : Type} {p p' : BufferPool φ} {t : Tree} {m : RowMap} {id : PageId}
  {rowId lsn : UInt64} {payload : List UInt8}

/-- The pool has the tree; all of its pages, and those its leaves point to, were allocated. -/
structure Standing (p : BufferPool φ) (t : Tree) : Prop extends Sound p where
  wellFormed : t.WellFormed
  distinct : t.Distinct
  stored : t.Stored p
  allocated : ∀ id node, t.HasNode id node → Allocated p id
  chained : ∀ id leaf, t.HasLeaf id leaf → leaf.hasNext = true → Allocated p ⟨leaf.nextPageId⟩

theorem Standing.has (h : Standing p t) {node : BTreeNode} (hnode : t.HasNode id node) :
    p.Has id node.bare := Tree.stored_iff.mp h.stored id node hnode

theorem Standing.slotted (h : Standing p t) {leaf : LeafNode} (hleaf : t.HasLeaf id leaf) :
    leaf.IsSlotted := (h.has hleaf).slotted

/-- A page has one node. -/
theorem Standing.inner_ne (h : Standing p t) {id' : PageId} {inner : InternalNode}
    {leaf : LeafNode} (hinner : t.HasNode id (.internal inner)) (hleaf : t.HasLeaf id' leaf) :
    id ≠ id' := by
  rintro rfl
  have hboth := (h.has hinner).unique (h.has hleaf)
  cases hboth

section Flusher

variable [WalFlusher φ]

/-- What a client does to a leaf it has fetched. -/
def mutate (op : LeafOp) (lsn : UInt64) : Exec DbError BTreeNode Unit := do
  BTreeNode.asLeaf op.call
  Exec.modify (BTreeNode.markDirty lsn)

/-- A tree in use: the pool it has got to, and the map it is to its clients. A call of `insert_leaf`
may fail as long as it has not made a page. -/
inductive Used (t : Tree) (p₀ : BufferPool φ) (m₀ : RowMap) : BufferPool φ → RowMap → Prop
  | start : Used t p₀ m₀ p₀ m₀
  | client {p p' : BufferPool φ} {m : RowMap} (h : Used t p₀ m₀ p m) (hc : Client p p') :
      Used t p₀ m₀ p' m
  | find {p p' : BufferPool φ} {m : RowMap} {fuel : ℕ} {rowId : UInt64}
      {r : Except DbError (Option (List UInt8))} (h : Used t p₀ m₀ p m)
      (hrun : (BpTree.mk t.pageId).findRecord fuel rowId p = some (r, p')) : Used t p₀ m₀ p' m
  | insert {p p' : BufferPool φ} {m : RowMap} {b : BpTree} {rowId lsn : UInt64}
      {payload : List UInt8} {res : Option SplitResult} (h : Used t p₀ m₀ p m)
      (hrun : b.insertLeaf (t.route rowId) rowId payload lsn p = some (.ok res, p')) :
      Used t p₀ m₀ p' (m.inserted t.route rowId payload res)
  | fail {p p' : BufferPool φ} {m : RowMap} {b : BpTree} {rowId lsn : UInt64}
      {payload : List UInt8} {e : DbError} (h : Used t p₀ m₀ p m)
      (hrun : b.insertLeaf (t.route rowId) rowId payload lsn p = some (.error e, p'))
      (hmade : p'.diskManager.header = p.diskManager.header) : Used t p₀ m₀ p' m
  | work {p p' : BufferPool φ} {m : RowMap} {id : PageId} {leaf : LeafNode} {op : LeafOp}
      {lsn : UInt64} {r : Except DbError Unit} (h : Used t p₀ m₀ p m) (hleaf : t.HasLeaf id leaf)
      (hat : op.At t.route id) (hrun : onPage id (mutate op lsn) p = some (r, p')) :
      Used t p₀ m₀ p' (op.effect m r)

end Flusher

/-! ### Steps of the pool -/

/-- What is kind to the pages keeps the tree. -/
theorem Standing.kind (h : Standing p t) (hk : Kind p p') : Standing p' t where
  wf := hk.wf
  fresh := hk.fresh
  faults := hk.faults h.faults
  wellFormed := h.wellFormed
  distinct := h.distinct
  stored := Tree.stored_iff.mpr fun id node hnode =>
    (hk.served id (h.allocated id node hnode)).has h.faults (h.has hnode)
  allocated id node hnode := hk.allocated id (h.allocated id node hnode)
  chained id leaf hleaf hnext := hk.allocated _ (h.chained id leaf hleaf hnext)

theorem Standing.dropped (h : Standing p t) (f : Frame) :
    Standing { p with held := p.held.erase f } t where
  wf := h.wf.drop f
  fresh := ⟨h.fresh.aligned, h.fresh.pos, h.fresh.below⟩
  faults := h.faults
  wellFormed := h.wellFormed
  distinct := h.distinct
  stored := Tree.stored_iff.mpr fun _ _ hnode => h.has hnode
  allocated id node hnode := ⟨(h.allocated id node hnode).aligned,
    (h.allocated id node hnode).ne_zero, (h.allocated id node hnode).below⟩
  chained id leaf hleaf hnext := ⟨(h.chained id leaf hleaf hnext).aligned,
    (h.chained id leaf hleaf hnext).ne_zero, (h.chained id leaf hleaf hnext).below⟩

theorem visitNode_state {node : BTreeNode} {r : Except DbError Visit}
    (h : visitNode rowId node p = some (r, p')) : p' = p := by
  unfold visitNode at h
  cases node with
  | internal node =>
    dsimp only at h
    cases hroute : node.routeKey rowId with
    | none =>
      rw [hroute] at h
      cases h
    | some res =>
      rw [hroute] at h
      cases res <;> cases h <;> rfl
  | leaf leaf =>
    dsimp only at h
    cases hget : leaf.getRecord rowId with
    | none =>
      rw [hget] at h
      cases h
    | some record =>
      rw [hget] at h
      cases h
      rfl

/-- A visit of a leaf that succeeds looks the row up in it. -/
theorem visitNode_leaf {leaf : LeafNode} {v : Visit}
    (h : visitNode rowId (.leaf leaf) p = some (.ok v, p')) :
    ∃ record, leaf.getRecord rowId = some record ∧ v = .found record := by
  obtain ⟨record, q, hget, h⟩ := Exec.bind_eq_ok.mp h
  obtain ⟨_, hrecord, heq, -⟩ := Exec.ofOption_eq_some.mp hget
  cases heq
  cases h
  exact ⟨record, hrecord, rfl⟩

/-- A visit of an inner node that succeeds goes on at the child to which the row is routed. -/
theorem visitNode_internal {inner : InternalNode} {next : PageId} {v : Visit}
    (hroute : inner.routeKey rowId = some (.ok next))
    (h : visitNode rowId (.internal inner) p = some (.ok v, p')) : v = .descend next := by
  change (Exec.ofOption (inner.routeKey rowId) >>= fun r => Exec.ofResult r >>= fun nextPageId =>
    pure (Visit.descend nextPageId)) p = _ at h
  rw [hroute] at h
  cases h
  rfl

section Flusher

variable [WalFlusher φ]

theorem Standing.client (h : Standing p t) (hc : Client p p') : Standing p' t :=
  h.kind (hc.kind h.wf h.fresh)

/-- A fetch of a page of the tree returns the frame of its node. -/
theorem Standing.fetched (h : Standing p t) {node : BTreeNode} (hnode : t.HasNode id node)
    {f : Frame} (hfetch : fetchPage id p = some (.ok f, p')) :
    Standing p' t ∧ ∃ found, p'.frames[f]? = some found ∧ found.bare = node.bare := by
  have ha := h.allocated id node hnode
  have h' := h.client (.fetch ha hfetch)
  obtain ⟨-, hf⟩ := (h.wf.fetchPage hfetch).2 f rfl ha.aligned
  exact ⟨h', (h.has hnode).fetched_node h'.wf h.faults ha.aligned ha.ne_zero hf⟩

/-- What a visit that returns has done. -/
theorem visit_eq_some {r : Except DbError Visit} (h : BpTree.visit id rowId p = some (r, p')) :
    (∃ e, r = .error e ∧ fetchPage id p = some (.error e, p')) ∨
      ∃ f node q, fetchPage id p = some (.ok f, q) ∧ q.frames[f]? = some node ∧
        visitNode rowId node q = some (r, q) ∧ p' = { q with held := q.held.erase f } := by
  obtain herror | ⟨f, p₁, p₂, hfetch, hcall, rfl⟩ := withClone_eq_some h
  · exact .inl herror
  obtain ⟨e, -, hread⟩ | ⟨node, p₃, hread, hbody⟩ := Exec.bind_eq_some.mp hcall
  · obtain ⟨_, -, heq, -⟩ := readFrame_eq_some hread
    cases heq
  obtain ⟨_, hframe, heq, rfl⟩ := readFrame_eq_some hread
  cases heq
  obtain rfl := visitNode_state hbody
  exact .inr ⟨f, node, _, hfetch, hframe, hbody, rfl⟩

/-- A visit that succeeds sees the content of its page. -/
theorem visit_sees {c : BTreeNode} {v : Visit} (hw : Wf p) (hno : p.diskManager.faults = [])
    (ha : id.Aligned) (hne : id.val ≠ 0) (hhas : p.Has id c)
    (hrun : BpTree.visit id rowId p = some (.ok v, p')) :
    ∃ q : BufferPool φ, visitNode rowId c q = some (.ok v, q) := by
  obtain ⟨_, heq, -⟩ | ⟨f, node, q, hfetch, hframe, hbody, -⟩ := visit_eq_some hrun
  · cases heq
  obtain ⟨hw₁, hf⟩ := (hw.fetchPage hfetch).2 f rfl ha
  obtain ⟨_, hframe', rfl⟩ := hhas.fetched_node hw₁ hno ha hne hf
  obtain rfl := Option.some.inj (hframe'.symm.trans hframe)
  rw [← visitNode_bare] at hbody
  exact ⟨q, hbody⟩

/-- **A visit** keeps the tree, and sees the node of its page. -/
theorem Standing.visit (h : Standing p t) {node : BTreeNode} (hnode : t.HasNode id node)
    {r : Except DbError Visit} (hrun : BpTree.visit id rowId p = some (r, p')) :
    Standing p' t ∧
      ∀ v, r = .ok v → ∃ q : BufferPool φ, visitNode rowId node q = some (.ok v, q) := by
  have ha := h.allocated id node hnode
  constructor
  · obtain ⟨e, -, hfetch⟩ | ⟨f, _, q, hfetch, -, -, rfl⟩ := visit_eq_some hrun
    · exact h.client (.fetch ha hfetch)
    · exact (h.client (.fetch ha hfetch)).dropped f
  · rintro v rfl
    obtain ⟨q, hq⟩ := visit_sees h.wf h.faults ha.aligned ha.ne_zero (h.has hnode) hrun
    rw [visitNode_bare] at hq
    exact ⟨q, hq⟩

/-- **The walk** from the root of a tree keeps what its visits keep. When it succeeds it has
visited the leaf to which the row is routed, and one page on each level above it. -/
theorem walk_finds {I : BufferPool φ → Prop} {s : Tree} (hs : s.WellFormed)
    (hslotted : ∀ id node, s.HasNode id node → node.IsSlotted)
    (hvisit : ∀ id node p r p', s.HasNode id node → I p →
      BpTree.visit id rowId p = some (r, p') →
        I p' ∧ ∀ v, r = .ok v → ∃ q : BufferPool φ, visitNode rowId node q = some (.ok v, q))
    (h : I p) {fuel : ℕ} {r : Except DbError (Option (List UInt8))}
    (hrun : BpTree.findRecordLoop rowId fuel s.pageId p = some (r, p')) :
    I p' ∧ ∀ record, r = .ok record →
      (s.leafAt rowId).2.getRecord rowId = some record ∧ s.depthAt rowId ≤ fuel := by
  induction s generalizing fuel p with
  | leaf pageId leaf =>
    cases fuel with
    | zero => cases hrun
    | succ fuel =>
      have hroot : (Tree.leaf pageId leaf).HasNode pageId (.leaf leaf) := ⟨rfl, rfl⟩
      rcases Exec.bind_eq_some.mp hrun with ⟨e, rfl, hround⟩ | ⟨v, p₁, hround, hrest⟩
      · exact ⟨(hvisit _ _ _ _ _ hroot h hround).1, nofun⟩
      obtain ⟨h₁, hv⟩ := hvisit _ _ _ _ _ hroot h hround
      obtain ⟨q, hv⟩ := hv v rfl
      obtain ⟨record, hget, rfl⟩ := visitNode_leaf hv
      cases hrest
      refine ⟨h₁, ?_⟩
      rintro _ ⟨⟩
      exact ⟨hget, Nat.succ_le_succ (Nat.zero_le _)⟩
  | internal pageId inner child ih =>
    cases fuel with
    | zero => cases hrun
    | succ fuel =>
      have hroot : (Tree.internal pageId inner child).HasNode pageId (.internal inner) :=
        .inl ⟨rfl, rfl⟩
      rcases Exec.bind_eq_some.mp hrun with ⟨e, rfl, hround⟩ | ⟨v, p₁, hround, hrest⟩
      · exact ⟨(hvisit _ _ _ _ _ hroot h hround).1, nofun⟩
      obtain ⟨h₁, hv⟩ := hvisit _ _ _ _ _ hroot h hround
      obtain ⟨q, hv⟩ := hv v rfl
      -- the walk goes on at the root of the child at the place of the row
      have hinner : inner.IsSlotted := hslotted _ _ hroot
      obtain rfl := visitNode_internal (hinner.routeKey_position hs.2.2.1 rowId) hv
      change BpTree.findRecordLoop rowId fuel (inner.childAt (inner.position rowId).val) p₁ = _
        at hrest
      rw [← hs.2.2.2.1 (inner.position rowId)] at hrest
      obtain ⟨h', hfound⟩ := ih (inner.position rowId) (hs.2.2.2.2.2 _)
        (fun id node hnode => hslotted id node (.inr ⟨_, hnode⟩))
        (fun id node p r p' hnode => hvisit id node p r p' (.inr ⟨_, hnode⟩)) h₁ hrest
      refine ⟨h', fun record hr => ?_⟩
      obtain ⟨hget, hdepth⟩ := hfound record hr
      exact ⟨hget, Nat.succ_le_succ hdepth⟩

/-- A lookup keeps the tree, and looks the row up in its leaf. -/
theorem Standing.findRecord (h : Standing p t) {fuel : ℕ}
    {r : Except DbError (Option (List UInt8))}
    (hrun : (BpTree.mk t.pageId).findRecord fuel rowId p = some (r, p')) :
    Standing p' t ∧ ∀ record, r = .ok record →
      (t.leafAt rowId).2.getRecord rowId = some record ∧ t.depthAt rowId ≤ fuel :=
  walk_finds (I := fun q => Standing q t) h.wellFormed
    (fun _ _ hnode => (BTreeNode.isSlotted_bare _).mp (h.has hnode).slotted)
    (fun _ _ _ _ _ hnode h' hvisit => h'.visit hnode hvisit) h hrun

/-- **The walk returns** in a pool that serves requests, once it may visit all of its way. -/
theorem walk_returns {s : Tree} (hs : s.WellFormed) (hp : Serviceable p)
    (hstored : s.Stored p) {fuel : ℕ} (hfuel : s.depthAt rowId ≤ fuel) :
    ∃ record p', BpTree.findRecordLoop rowId fuel s.pageId p = some (.ok record, p') := by
  obtain ⟨is, l, ht, hl⟩ := hp.tracked
  obtain ⟨record, p', hrun, -⟩ :=
    walk_lasts hs hstored.shown (.start hp ⟨is, ht, hl⟩) (hstored.lasts l) hfuel
  exact ⟨record, p', hrun⟩

end Flusher

/-! ### Other leaves -/

/-- The page has the leaf, and this is the leaf for the map there. -/
structure LeafStands (p : BufferPool φ) (route : UInt64 → PageId) (m : RowMap) (id : PageId)
    (leaf : LeafNode) : Prop where
  has : p.Has id (BTreeNode.leaf leaf).bare
  next : leaf.hasNext = true → Allocated p ⟨leaf.nextPageId⟩
  mirrors : SmolDb.Mirrors leaf (m.within route id)

/-- **The tree with other leaves** stands for another map when each of the leaves does. -/
theorem Standing.exchange {f : PageId → LeafNode → LeafNode} {m' : RowMap} (h : Standing p t)
    (hp : Sound p') (halloc : ∀ id, Allocated p id → Allocated p' id)
    (hinner : ∀ id inner, t.HasNode id (.internal inner) →
      p'.Has id (BTreeNode.internal inner).bare)
    (hleaves : ∀ id leaf, t.HasLeaf id leaf → LeafStands p' t.route m' id (f id leaf)) :
    Standing p' (t.remap f) ∧ (t.remap f).Mirrors m' := by
  obtain ⟨hwellFormed, hmirrors⟩ := h.wellFormed.exchange h.distinct fun id leaf hleaf =>
    (hleaves id leaf hleaf).mirrors
  have hnode : ∀ id node, (t.remap f).HasNode id node →
      Allocated p' id ∧ p'.Has id node.bare := by
    intro id node hnode
    cases node with
    | internal inner =>
      have hold := Tree.hasInternal_remap.mp hnode
      exact ⟨halloc id (h.allocated id _ hold), hinner id inner hold⟩
    | leaf leaf =>
      obtain ⟨old, hold, rfl⟩ := Tree.hasLeaf_remap.mp hnode
      exact ⟨halloc id (h.allocated id _ hold), (hleaves id old hold).has⟩
  exact
    ⟨{ toSound := hp
       wellFormed := hwellFormed
       distinct := h.distinct.remap
       stored := Tree.stored_iff.mpr fun id node hn => (hnode id node hn).2
       allocated := fun id node hn => (hnode id node hn).1
       chained := by
         intro id leaf hleaf hnext
         obtain ⟨old, hold, rfl⟩ := Tree.hasLeaf_remap.mp hleaf
         exact (hleaves id old hold).next hnext }, hmirrors⟩

/-- A leaf that was served stands where the map has not changed. -/
theorem Standing.leaf_served {m' : RowMap} {leaf : LeafNode} (h : Standing p t)
    (hm : t.Mirrors m) (hleaf : t.HasLeaf id leaf) (hserved : Served p p' id)
    (halloc : ∀ id, Allocated p id → Allocated p' id)
    (hsame : m'.within t.route id = m.within t.route id) :
    LeafStands p' t.route m' id leaf where
  has := hserved.has h.faults (h.has hleaf)
  next hnext := halloc _ (h.chained id leaf hleaf hnext)
  mirrors := by
    rw [hsame]
    exact hm id leaf hleaf

/-! ### The halves of a leaf -/

theorem sameCells_of_bare {a b : LeafNode} (h : a.bare = b.bare) : SameCells a b :=
  ⟨(congrArg LeafNode.records h).symm, (congrArg LeafNode.slotArray h).symm⟩

theorem mirrors_congr {a b : LeafNode} (h : SameCells a b) (hm : SmolDb.Mirrors a m) :
    SmolDb.Mirrors b m where
  slotted := h.slotted hm.slotted
  sorted := h.sorted hm.sorted
  lists := by
    rw [h.live]
    exact hm.lists

/-- **The lower half mirrors the map below the promoted row id**, and the row is new to it. -/
theorem halves_mirrors {n : PageId} {promoted : UInt64} {a a₁ b₁ a₂ b₂ : LeafNode}
    (h : SmolDb.Mirrors a m) (hsplit : split (a, newLeaf n) = some (.ok promoted, (a₁, b₁)))
    (hinsert : insertHalf rowId payload promoted (a₁, b₁) = some (.ok (), (a₂, b₂))) :
    m rowId = none ∧ SmolDb.Mirrors a₂ fun k =>
      if k < promoted then Function.update m rowId (some payload) k else none := by
  have hparted := halves_sorted h.slotted h.sorted rfl rfl hsplit hinsert
  obtain ⟨-, -, hslotted, -⟩ := halves_header h.slotted rfl rfl hsplit hinsert
  have hperm := halves_live h.slotted rfl rfl hsplit hinsert
  have hlow : ∀ pair ∈ a₂.live, pair.1 < promoted := fun pair hpair =>
    hparted.left_lt _ (mem_livePairs.mp hpair)
  have hhigh : ∀ pair ∈ b₂.live, ¬ pair.1 < promoted := fun pair hpair hlt =>
    Nat.not_lt.mpr (hparted.right_ge _ (mem_livePairs.mp hpair)) hlt
  -- the halves have no key in common, so the row is none of those that were there
  have hkeyed : Keyed (a₂.live ++ b₂.live) := by
    refine List.pairwise_append.mpr
      ⟨Mirrors.keyed hparted.left_sorted, Mirrors.keyed hparted.right_sorted, ?_⟩
    intro x hx y hy heq
    exact hhigh y hy (heq ▸ hlow x hx)
  have hcons : Keyed ([] ++ (rowId, payload) :: a.live) := hkeyed.perm hperm.symm
  have hput : Lists (Function.update m rowId (some payload)) ([] ++ (rowId, payload) :: a.live) :=
    Lists.put h.lists hcons
  refine ⟨h.lists.eq_none_iff.mpr hcons.not_mem, hslotted, hparted.left_sorted, ?_⟩
  exact (hput.perm hperm).cut hlow hhigh

end BpTree

namespace RowMap

variable {m : RowMap} {route : UInt64 → PageId} {rowId : UInt64} {payload : List UInt8}
  {id : PageId}

/-- After an insert the part of the leaf ends at the promoted row id. -/
theorem within_inserted_self (split : SplitResult) :
    (m.inserted route rowId payload (some split)).within route (route rowId) = fun k =>
      if k < split.promotedRowId then
        Function.update (m.within route (route rowId)) rowId (some payload) k
      else none := by
  rw [← RowMap.within_update rfl]
  funext k
  unfold RowMap.within RowMap.inserted
  by_cases hroute : route k = route rowId
  · rw [if_pos hroute, if_pos hroute]
    by_cases hlt : k < split.promotedRowId
    · rw [if_pos hlt]
      exact if_neg fun hge => absurd hlt (UInt64.not_lt.mpr hge.2)
    · rw [if_neg hlt]
      exact if_pos ⟨hroute, UInt64.not_lt.mp hlt⟩
  · rw [if_neg hroute, if_neg hroute, ite_self]

/-- The parts of the other leaves are as before. -/
theorem within_inserted_of_ne (res : Option SplitResult) (hne : id ≠ route rowId) :
    (m.inserted route rowId payload res).within route id = m.within route id := by
  have hupdate : RowMap.within (Function.update m rowId (some payload)) route id =
      m.within route id := within_update_of_ne hne.symm
  cases res with
  | none => exact hupdate
  | some split =>
    rw [← hupdate]
    funext k
    unfold RowMap.within RowMap.inserted
    by_cases hroute : route k = id
    · rw [if_pos hroute, if_pos hroute]
      exact if_neg fun hsame => hne (hroute.symm.trans hsame.1)
    · rw [if_neg hroute, if_neg hroute]

end RowMap

namespace BpTree

variable {φ : Type} {p p' : BufferPool φ} {t : Tree} {m : RowMap} {id : PageId}
  {rowId lsn : UInt64} {payload : List UInt8}

/-! ### Inserting -/

/-- A routing node is not relinked. -/
theorem Relinked.has_internal {n : PageId} {inner : InternalNode} (h : Relinked p p' id n lsn)
    (hno : p.diskManager.faults = []) (hc : p.Has id (.internal inner)) :
    p'.Has id (.internal inner) := by
  obtain ⟨v, f, node, hserves, hcached, hline⟩ := h
  have hserved := Holds.serves (fun hf => hf hno) hserves hc
  have hnode : node.bare = .internal inner := Holds.eq_of_cached hserved hcached
  cases node with
  | leaf leaf => cases hnode
  | internal node =>
    have hsame : p'.line id = v := by
      rw [hline, show (BTreeNode.internal node).relinked n lsn = .internal node from rfl, ← hcached]
    rw [Has, hsame]
    exact hserved

/-- The tree when the record fits into its leaf. -/
theorem Standing.whole {a a' leaf : LeafNode} (h : Standing p t) (hm : t.Mirrors m)
    (hleaf : t.HasLeaf (t.route rowId) leaf) (hp : Sound p') (hbare : a.bare = leaf.bare)
    (hinsert : insertRecord rowId payload a = some (.ok (), a'))
    (hpage : Overwritten p p' (t.route rowId) (BTreeNode.markDirty lsn (.leaf a')).bare)
    (hothers : ∀ id : PageId, id.Aligned → id.val ≠ 0 → id ≠ t.route rowId → Served p p' id)
    (hheader : p'.diskManager.header = p.diskManager.header) :
    m rowId = none ∧ ∃ f, Standing p' (t.remap f) ∧
      (t.remap f).Mirrors (m.inserted t.route rowId payload none) := by
  have hma := mirrors_congr (sameCells_of_bare hbare.symm) (hm _ _ hleaf)
  obtain ⟨hanswers, hma'⟩ := hma.insertRecord hinsert
  have hnone := hanswers.1 rfl
  rw [RowMap.within_self rfl] at hnone
  have hheaderLeaf : SameHeader a a' :=
    (keeps_insertRecord rowId payload).header hma.slotted hinsert
  have halloc : ∀ id, Allocated p id → Allocated p' id := fun id ha =>
    ⟨ha.aligned, ha.ne_zero, hheader ▸ ha.below⟩
  refine ⟨hnone, fun id old => if id = t.route rowId then stamped lsn a' else old,
    h.exchange hp halloc (fun id inner hinner => ?_) fun id old hold => ?_⟩
  · have ha := h.allocated id _ hinner
    exact (hothers id ha.aligned ha.ne_zero (h.inner_ne hinner hleaf)).has h.faults (h.has hinner)
  · by_cases hid : id = t.route rowId
    · subst hid
      rw [if_pos rfl]
      refine ⟨hpage.has hma'.slotted, fun hnext => ?_, ?_⟩
      · obtain ⟨_, _, _, rfl⟩ := hheaderLeaf
        have hheaderOld := congrArg (fun l : LeafNode => (l.hasNext, l.nextPageId)) hbare
        simp only [LeafNode.bare, Prod.mk.injEq] at hheaderOld
        have hchained := h.chained _ _ hleaf (hheaderOld.1.symm.trans hnext)
        rw [← hheaderOld.2] at hchained
        exact halloc _ hchained
      · have hwithin : (m.inserted t.route rowId payload none).within t.route (t.route rowId) =
            Function.update (m.within t.route (t.route rowId)) rowId (some payload) :=
          RowMap.within_update rfl
        rw [hwithin]
        exact mirrors_congr (sameCells_stamped a') hma'
    · rw [if_neg hid]
      have ha := h.allocated id _ hold
      exact h.leaf_served hm hold (hothers id ha.aligned ha.ne_zero hid) halloc
        (RowMap.within_inserted_of_ne none hid)

/-- The leaves of the tree when the leaf `target`, whose content was `leaf`, was split. -/
def relinkedLeaves (target n : PageId) (leaf left : LeafNode) (lsn : UInt64) (id : PageId)
    (old : LeafNode) : LeafNode :=
  if id = target then left
  else if leaf.links.next = some id then
    { old with hasPrev := true, prevPageId := n.val, lastLsn := lsn }
  else old

/-- The tree when the leaf is split. -/
theorem Standing.halves {n : PageId} {promoted : UInt64} {a a₁ b₁ a₂ b₂ leaf : LeafNode}
    (h : Standing p t) (hm : t.Mirrors m) (hleaf : t.HasLeaf (t.route rowId) leaf)
    (hp : Sound p') (hbare : a.bare = leaf.bare)
    (hsplit : split (a, newLeaf n) = some (.ok promoted, (a₁, b₁)))
    (hinsert : insertHalf rowId payload promoted (a₁, b₁) = some (.ok (), (a₂, b₂)))
    (hnew : n.val = p.diskManager.header.nextFreeOffset)
    (hheader : p'.diskManager.header.nextFreeOffset.toNat =
      p.diskManager.header.nextFreeOffset.toNat + pageSize)
    (hleft : Overwritten p p' (t.route rowId) (.leaf (stamped lsn (a₂.linkedLeft n))))
    (hold : ∀ id, leaf.links.next = some id → Relinked p p' id n lsn)
    (hothers : ∀ id : PageId, id.Aligned → id.val ≠ 0 → id ≠ t.route rowId → id ≠ n →
      leaf.links.next ≠ some id → Served p p' id) :
    m rowId = none ∧ ∃ f, Standing p' (t.remap f) ∧
      (t.remap f).Mirrors (m.inserted t.route rowId payload (some ⟨promoted, n⟩)) := by
  have hma := mirrors_congr (sameCells_of_bare hbare.symm) (hm _ _ hleaf)
  obtain ⟨hnone, hleftMirrors⟩ := halves_mirrors hma hsplit hinsert
  rw [RowMap.within_self rfl] at hnone
  have halloc : ∀ id, Allocated p id → Allocated p' id := fun id ha =>
    ⟨ha.aligned, ha.ne_zero, by
      rw [hheader]
      exact Nat.lt_add_right _ ha.below⟩
  refine ⟨hnone, relinkedLeaves (t.route rowId) n leaf (stamped lsn (a₂.linkedLeft n)) lsn,
    h.exchange hp halloc (fun id inner hinner => ?_) fun id old hmem => ?_⟩
  · -- a routing node is served, be it the page behind the leaf
    have ha := h.allocated id _ hinner
    have hne := h.inner_ne hinner hleaf
    by_cases hnext : leaf.links.next = some id
    · exact (hold id hnext).has_internal h.faults (h.has hinner)
    · exact (hothers id ha.aligned ha.ne_zero hne (ha.ne_new hnew) hnext).has h.faults
        (h.has hinner)
  · have ha := h.allocated id _ hmem
    unfold relinkedLeaves
    by_cases hid : id = t.route rowId
    · subst hid
      rw [if_pos rfl]
      refine ⟨hleft.has hleftMirrors.slotted, fun _ => ?_, ?_⟩
      · -- the left half points to the new page
        show Allocated p' ⟨n.val⟩
        refine ⟨?_, fun hzero => ?_, ?_⟩
        · rw [PageId.Aligned, hnew]
          exact h.fresh.aligned
        · have hpos := h.fresh.pos
          rw [← hnew, show n.val = 0 from hzero] at hpos
          exact absurd hpos (by decide)
        · rw [hheader, hnew]
          exact Nat.lt_add_of_pos_right (by decide)
      · have hcells : SameCells a₂ (stamped lsn (a₂.linkedLeft n)) := ⟨rfl, rfl⟩
        rw [RowMap.within_inserted_self]
        exact mirrors_congr hcells hleftMirrors
    · rw [if_neg hid]
      have hsame : (m.inserted t.route rowId payload (some ⟨promoted, n⟩)).within t.route id =
          m.within t.route id := RowMap.within_inserted_of_ne (some ⟨promoted, n⟩) hid
      by_cases hnext : leaf.links.next = some id
      · rw [if_pos hnext]
        refine ⟨(hold id hnext).has h.faults (h.has hmem), fun hhas => ?_, ?_⟩
        · exact halloc _ (h.chained id old hmem hhas)
        · have hcells : SameCells old
              { old with hasPrev := true, prevPageId := n.val, lastLsn := lsn } := ⟨rfl, rfl⟩
          rw [hsame]
          exact mirrors_congr hcells (hm id old hmem)
      · rw [if_neg hnext]
        exact h.leaf_served hm hmem (hothers id ha.aligned ha.ne_zero hid (ha.ne_new hnew) hnext)
          halloc hsame

section Flusher

variable [WalFlusher φ] {b : BpTree}

/-- **A call of `insert_leaf` that succeeds.** The row was not there, and the tree becomes one for
the map with the row. -/
theorem Standing.insertLeaf (h : Standing p t) (hm : t.Mirrors m) {res : Option SplitResult}
    (hrun : b.insertLeaf (t.route rowId) rowId payload lsn p = some (.ok res, p')) :
    m rowId = none ∧ ∃ f, Standing p' (t.remap f) ∧
      (t.remap f).Mirrors (m.inserted t.route rowId payload res) := by
  obtain ⟨leaf, hleaf⟩ : ∃ leaf, t.HasLeaf (t.route rowId) leaf := ⟨_, t.hasLeaf_leafAt rowId⟩
  have hhas := h.has hleaf
  obtain ⟨hset, hins⟩ := insertLeaf_ok h.wf h.fresh (h.allocated _ _ hleaf) (Holds.shows hhas)
    hhas.slotted (h.chained _ leaf hleaf) hrun
  have hp := hset.sound h.toSound
  cases hins with
  | whole hbare hinsert hpage hothers hheader =>
    exact h.whole hm hleaf hp hbare hinsert hpage hothers hheader
  | halves hbare hfull hsplit hinsert hnew hheader hleft hright hold hothers =>
    refine h.halves hm hleaf hp hbare hsplit hinsert hnew hheader hleft (fun id hid => ?_) ?_
    · obtain ⟨hhas, rfl⟩ := links_next_of_hasNext.mp hid
      exact (hold hhas).2.2
    · intro id ha hne hleftNe hrightNe hnext
      refine hothers id ha hne hleftNe hrightNe fun hhas heq => ?_
      exact hnext (links_next_of_hasNext.mpr ⟨hhas, heq⟩)

/-- The offset is still advanced when a call fails behind `new_page`. -/
theorem header_of_insertSplit {leafPageId n : PageId} {f g : Frame} {a c : LeafNode} {e : DbError}
    (hw : Wf p) (hne : f ≠ g) (hf : p.frames[f]? = some (.leaf a))
    (hg : p.frames[g]? = some (.leaf c))
    (hrun : insertSplit leafPageId n f g rowId payload lsn p = some (.error e, p')) :
    p'.diskManager.header = p.diskManager.header := by
  generalize hr : Except.error e = r at hrun
  cases insertSplit_outcome hne hf hg hrun with
  | splitFailed | insertFailed => rfl
  | @fetchFailed _ promoted a₁ b₁ a₂ b₂ _ hsplit hinsert hnext hfetch =>
    have hw' : Wf (p.withLeaves f g (a₂.linkedLeft n) (b₂.linkedRight leafPageId a₂)) :=
      (hw.withNode f _).withNode g _
    exact ((hw'.fetchPage hfetch).1 _ rfl).2.kept.header
  | atEnd | between => cases hr

/-- **A call of `insert_leaf` that fails** and has not made a page leaves the tree as it is. -/
theorem Standing.insertLeaf_error (h : Standing p t) {e : DbError}
    (hrun : b.insertLeaf (t.route rowId) rowId payload lsn p = some (.error e, p'))
    (hmade : p'.diskManager.header = p.diskManager.header) : Standing p' t := by
  obtain ⟨leaf, hleaf⟩ : ∃ leaf, t.HasLeaf (t.route rowId) leaf := ⟨_, t.hasLeaf_leafAt rowId⟩
  have ha := h.allocated _ _ hleaf
  -- an insert that fails does not touch the leaf
  have hsame : ∀ {f : Frame} {p₁ : BufferPool φ} {a a' : LeafNode} {e : DbError},
      fetchPage (t.route rowId) p = some (.ok f, p₁) → p₁.frames[f]? = some (.leaf a) →
      insertRecord rowId payload a = some (.error e, a') →
      Standing p₁ t ∧ p₁.withNode f (.leaf a') = p₁ := by
    intro f p₁ a a' e hfetch hframe hinsert
    obtain ⟨h₁, found, hfound, hbare⟩ := h.fetched hleaf hfetch
    obtain rfl := Option.some.inj (hframe.symm.trans hfound)
    have hslotted : a.IsSlotted :=
      (BTreeNode.isSlotted_bare (.leaf a)).mp (hbare ▸ (h.has hleaf).slotted)
    obtain rfl := (keeps_insertRecord rowId payload).unchanged hslotted hinsert
    exact ⟨h₁, withNode_self hframe⟩
  generalize hr : Except.error e = r at hrun
  cases insertLeaf_outcome hrun with
  | fetchFailed hfetch => exact h.client (.fetch ha hfetch)
  | @notLeaf _ f p₁ inner hfetch hnode => exact (h.fetched hleaf hfetch).1.dropped f
  | @refused _ f p₁ a a' hfetch hframe hinsert hnot =>
    obtain ⟨h₁, hself⟩ := hsame hfetch hframe hinsert
    rw [hself]
    exact h₁.dropped f
  | inserted => cases hr
  | @noPage _ f p₁ p₂ a a' hfetch hframe hinsert hnew =>
    obtain ⟨h₁, hself⟩ := hsame hfetch hframe hinsert
    rw [hself] at hnew
    exact (h₁.client (.make hnew)).dropped f
  | @split _ f g n p₁ p₂ p₃ a a' hfetch hframe hinsert hnew hcall =>
    subst hr
    obtain ⟨h₁, hself⟩ := hsame hfetch hframe hinsert
    rw [hself] at hnew
    obtain ⟨hc, hl, a₂, hframe₂, -, -⟩ :=
      latched_split h.wf h.fresh ha (Holds.shows (h.has hleaf)) hfetch hframe hnew
    -- the page that was made shows in the header
    have hkept := header_of_insertSplit hl.wf hl.frame_ne hframe₂ hc.frame hcall
    obtain ⟨-, hf⟩ := (h.wf.fetchPage hfetch).2 f rfl ha.aligned
    have hnext := hc.next_toNat
    rw [← hkept, hf.header, ← hmade] at hnext
    exact absurd hnext (Nat.ne_of_lt (Nat.lt_add_of_pos_right (by decide)))

/-! ### Work on a leaf -/

/-- What the work leaves in the frame of a leaf. -/
theorem mutate_eq_some {op : LeafOp} {a : LeafNode} {node' : BTreeNode} {r : Except DbError Unit}
    (h : mutate op lsn (.leaf a) = some (r, node')) :
    ∃ a', op.call a = some (r, a') ∧
      ((∃ e, r = .error e ∧ node' = .leaf a') ∨
        r = .ok () ∧ node' = BTreeNode.markDirty lsn (.leaf a')) := by
  rcases Exec.bind_eq_some.mp h with ⟨e, rfl, hcall⟩ | ⟨_, node, hcall, h⟩
  · obtain ⟨_, a', heq, hop, rfl⟩ | ⟨_, -, -, _, heq⟩ := BTreeNode.asLeaf_eq_some hcall
    · cases heq
      exact ⟨a', hop, .inl ⟨e, rfl, rfl⟩⟩
    · cases heq
  · obtain ⟨_, a', heq, hop, rfl⟩ | ⟨_, hr, -⟩ := BTreeNode.asLeaf_eq_some hcall
    · cases heq
      cases h
      exact ⟨a', hop, .inr ⟨rfl, rfl⟩⟩
    · cases hr

/-- **Work on a leaf** is work on the map. -/
theorem Standing.work {leaf : LeafNode} {op : LeafOp} {r : Except DbError Unit} (h : Standing p t)
    (hm : t.Mirrors m) (hleaf : t.HasLeaf id leaf) (hat : op.At t.route id)
    (hrun : onPage id (mutate op lsn) p = some (r, p')) :
    ∃ f, Standing p' (t.remap f) ∧ (t.remap f).Mirrors (op.effect m r) := by
  have ha := h.allocated _ _ hleaf
  rcases withClone_eq_some hrun with ⟨e, rfl, hfetch⟩ | ⟨f, p₁, p₂, hfetch, hbody, rfl⟩
  · refine ⟨fun _ old => old, ?_⟩
    rw [Tree.remap_self]
    exact ⟨h.client (.fetch ha hfetch), hm⟩
  obtain ⟨h₁, found, hfound, hbare⟩ := h.fetched hleaf hfetch
  obtain ⟨hw₁, hf⟩ := (h.wf.fetchPage hfetch).2 f rfl ha.aligned
  obtain ⟨node, node', hframe, hwork, rfl⟩ := onNode_eq_some.mp hbody
  obtain rfl := Option.some.inj (hframe.symm.trans hfound)
  cases node with
  | internal node => cases hbare
  | leaf a =>
    have hma := mirrors_congr (sameCells_of_bare (BTreeNode.leaf.inj hbare).symm) (hm _ _ hleaf)
    obtain ⟨a', hop, ⟨e, rfl, rfl⟩ | ⟨rfl, rfl⟩⟩ := mutate_eq_some hwork
    · -- a call that fails has not touched the leaf
      obtain rfl := (LeafOp.keeps_call op).unchanged hma.slotted hop
      rw [withNode_self hframe]
      refine ⟨fun _ old => old, ?_⟩
      rw [Tree.remap_self]
      exact ⟨h₁.dropped f, hm⟩
    · have hma' := hma.effect hop
      have hheader := (LeafOp.keeps_call op).header hma.slotted hop
      let p' : BufferPool φ :=
        { p₁.withNode f (BTreeNode.markDirty lsn (.leaf a')) with held := p₁.held.erase f }
      have hline : ∀ id' : PageId, id' ≠ id → p'.line id' = p₁.line id' := fun id' hne =>
        hw₁.line_withNode_of_ne hf.lookup hne _
      have hothers : ∀ id' : PageId, id' ≠ id → Served p₁ p' id' := by
        intro id' hne
        rw [Served, hline id' hne]
        exact .refl _
      have halloc : ∀ id', Allocated p₁ id' → Allocated p' id' := fun id' ha' =>
        ⟨ha'.aligned, ha'.ne_zero, ha'.below⟩
      refine ⟨fun id' old => if id' = id then stamped lsn a' else old, h₁.exchange ?_
        halloc (fun id' inner hinner => ?_) fun id' old hold => ?_⟩
      · exact ⟨(h₁.wf.withNode f _).drop f, ⟨h₁.fresh.aligned, h₁.fresh.pos, h₁.fresh.below⟩,
          h₁.faults⟩
      · exact (hothers id' (h₁.inner_ne hinner hleaf)).has h₁.faults (h₁.has hinner)
      · by_cases hid : id' = id
        · subst hid
          rw [if_pos rfl]
          refine ⟨⟨hma'.slotted, .inl ⟨f, ?_⟩⟩, fun hnext => ?_, ?_⟩
          · show ((p₁.withNode f _).line id').cached = _
            rw [hw₁.line_withNode hf.lookup]
            rfl
          · obtain ⟨_, _, _, rfl⟩ := hheader
            have hfields := congrArg (fun l : LeafNode => (l.hasNext, l.nextPageId))
              (BTreeNode.leaf.inj hbare)
            simp only [LeafNode.bare, Prod.mk.injEq] at hfields
            have hchained := h₁.chained _ _ hleaf (hfields.1.symm.trans hnext)
            rw [← hfields.2] at hchained
            exact halloc _ hchained
          · rw [RowMap.within_effect hat]
            exact mirrors_congr (sameCells_stamped a') hma'
        · rw [if_neg hid]
          exact h₁.leaf_served hm hold (hothers id' hid) halloc
            (RowMap.within_effect_of_ne hat hid _)

/-! ### Runs -/

/-- **A tree in use is a tree for its map**, with the routing nodes it had. -/
theorem Used.upheld {p₀ : BufferPool φ} {m₀ : RowMap} (h₀ : Standing p₀ t) (hm₀ : t.Mirrors m₀)
    (h : Used t p₀ m₀ p m) : ∃ f, Standing p (t.remap f) ∧ (t.remap f).Mirrors m := by
  induction h with
  | start =>
    refine ⟨fun _ old => old, ?_⟩
    rw [Tree.remap_self]
    exact ⟨h₀, hm₀⟩
  | client _ hc ih =>
    obtain ⟨f, hs, hm⟩ := ih
    exact ⟨f, hs.client hc, hm⟩
  | @find p p' m fuel rowId r _ hrun ih =>
    obtain ⟨f, hs, hm⟩ := ih
    rw [← Tree.pageId_remap (f := f)] at hrun
    exact ⟨f, (hs.findRecord hrun).1, hm⟩
  | insert _ hrun ih =>
    obtain ⟨f, hs, hm⟩ := ih
    rw [← Tree.route_remap (f := f)] at hrun ⊢
    obtain ⟨-, g, hs', hm'⟩ := hs.insertLeaf hm hrun
    rw [Tree.remap_remap] at hs' hm'
    exact ⟨_, hs', hm'⟩
  | fail _ hrun hmade ih =>
    obtain ⟨f, hs, hm⟩ := ih
    rw [← Tree.route_remap (f := f)] at hrun
    exact ⟨f, hs.insertLeaf_error hrun hmade, hm⟩
  | work _ hleaf hat hrun ih =>
    obtain ⟨f, hs, hm⟩ := ih
    rw [← Tree.route_remap (f := f)] at hat
    obtain ⟨g, hs', hm'⟩ := hs.work hm (Tree.hasLeaf_remap.mpr ⟨_, hleaf, rfl⟩) hat hrun
    rw [Tree.remap_remap] at hs' hm'
    exact ⟨_, hs', hm'⟩

/-- **The tree is a finite map.** In use, whatever was done to it, lookups that succeed return
what the map says, and they succeed when they may visit all pages on the way and nothing stands in
the way of the pool's requests; a row that is inserted was not there. -/
theorem tree_refines {p₀ : BufferPool φ} {m₀ : RowMap} (h₀ : Standing p₀ t)
    (hm₀ : ∀ k d, m₀ k = some d ↔ t.Holds k d) (h : Used t p₀ m₀ p m) :
    (∀ fuel rowId record p', (BpTree.mk t.pageId).findRecord fuel rowId p = some (.ok record, p') →
      record = m rowId) ∧
    (Serviceable p → ∀ fuel rowId, t.depthAt rowId ≤ fuel →
      ∃ p', (BpTree.mk t.pageId).findRecord fuel rowId p = some (.ok (m rowId), p')) ∧
    ∀ (b : BpTree) rowId payload lsn res p',
      b.insertLeaf (t.route rowId) rowId payload lsn p = some (.ok res, p') → m rowId = none := by
  have hmirrors := h₀.wellFormed.mirrors (fun _ _ hleaf => h₀.slotted hleaf) h₀.distinct hm₀
  obtain ⟨f, hs, hm⟩ := h.upheld h₀ hmirrors
  have hfound : ∀ fuel rowId record p',
      (BpTree.mk t.pageId).findRecord fuel rowId p = some (.ok record, p') → record = m rowId := by
    intro fuel rowId record p' hrun
    rw [← Tree.pageId_remap (f := f)] at hrun
    exact hm.answer ((hs.findRecord hrun).2 record rfl).1
  refine ⟨hfound, fun hp fuel rowId hfuel => ?_, fun b rowId payload lsn res p' hrun => ?_⟩
  · rw [← Tree.depthAt_remap (f := f)] at hfuel
    obtain ⟨record, p', hrun⟩ := walk_returns hs.wellFormed hp hs.stored hfuel
    rw [Tree.pageId_remap] at hrun
    obtain rfl := hfound fuel rowId record p' hrun
    exact ⟨p', hrun⟩
  · rw [← Tree.route_remap (f := f)] at hrun
    exact (hs.insertLeaf hm hrun).1

end Flusher

/-! ### The root with two leaves, in use -/

namespace TwoLeaves

/-- The pool over the three pages, with the allocation offset behind them. -/
def usedPool : BufferPool Empty :=
  BufferPool.new ⟨file, { FileHeader.default with nextFreeOffset := 16384 }, []⟩ 1 none

/-- The records of the two leaves. -/
def rows : RowMap := fun k => if k = 5 then some [2] else if k = 10 then some [3] else none

theorem holds_rows (k : UInt64) (d : List UInt8) : rows k = some d ↔ tree.Holds k d := by
  have hholds : tree.Holds k d ↔ (k, d) ∈ low.live ∨ (k, d) ∈ high.live := by
    constructor
    · rintro ⟨i, hi⟩
      match i with
      | ⟨0, _⟩ => exact .inl hi
      | ⟨1, _⟩ => exact .inr hi
    · rintro (hlow | hhigh)
      · exact ⟨⟨0, by decide⟩, hlow⟩
      · exact ⟨⟨1, by decide⟩, hhigh⟩
  rw [hholds, show low.live = [(5, [2])] by decide, show high.live = [(10, [3])] by decide,
    List.mem_singleton, List.mem_singleton, Prod.mk.injEq, Prod.mk.injEq]
  unfold rows
  by_cases h5 : k = 5
  · subst h5
    simp [eq_comm]
  · by_cases h10 : k = 10
    · subst h10
      simp [eq_comm]
    · simp [h5, h10]

theorem standing : Standing usedPool tree where
  wf := .new _ 1 none
  fresh := ⟨by decide, by decide, fun _ h => absurd h (AList.notMem_empty _)⟩
  faults := rfl
  wellFormed := wellFormed
  distinct := by
    refine ⟨fun i j id a b ha hb => ?_, fun i => ?_⟩
    · match i, j with
      | ⟨0, _⟩, ⟨0, _⟩ => rfl
      | ⟨1, _⟩, ⟨1, _⟩ => rfl
      | ⟨0, _⟩, ⟨1, _⟩ => exact absurd (ha.1.symm.trans hb.1) (by decide)
      | ⟨1, _⟩, ⟨0, _⟩ => exact absurd (ha.1.symm.trans hb.1) (by decide)
    · match i with
      | ⟨0, _⟩ => trivial
      | ⟨1, _⟩ => trivial
  stored := Tree.stored_iff.mpr fun id node hnode => Tree.stored_iff.mp stored id node hnode
  allocated id node h := by
    rcases hasNode h with ⟨rfl, -⟩ | ⟨rfl, -⟩ | ⟨rfl, -⟩
    · exact ⟨by decide, by decide, by decide⟩
    · exact ⟨by decide, by decide, by decide⟩
    · exact ⟨by decide, by decide, by decide⟩
  chained id leaf h hnext := by
    rcases hasNode h with ⟨-, heq⟩ | ⟨-, heq⟩ | ⟨-, heq⟩
    · cases heq
    · cases heq
      cases hnext
    · cases heq
      cases hnext

/-- Deleting the row of the upper leaf. -/
theorem mutate_high {node : BTreeNode} (h : node.bare = (BTreeNode.leaf high).bare) :
    ∃ node', mutate (.deleteRecord 10) 1 node = some (.ok (), node') ∧ node'.IsSlotted ∧
      node'.encodedSize ≤ pageSize := by
  cases node with
  | internal node => cases h
  | leaf a =>
    obtain ⟨pageId, lastLsn, hasPrev, hasNext, prevPageId, nextPageId, slots, records, free,
      dirty⟩ := a
    cases h
    exact ⟨_, rfl, List.Perm.refl _, Nat.le_of_ble_eq_true rfl⟩

end TwoLeaves

open TwoLeaves in
theorem tree_refines_deleted : ∃ (p : BufferPool Empty) (m : RowMap),
    Used tree usedPool rows p m ∧ m 10 = none ∧
      ∀ fuel, 2 ≤ fuel → ∃ p', (BpTree.mk ⟨4096⟩).findRecord fuel 10 p = some (.ok none, p') := by
  have hserv : Serviceable usedPool :=
    .new rfl Nat.one_pos WalFlusher.reliable_none
  have hleaf : tree.HasLeaf ⟨12288⟩ high := .inr ⟨⟨1, by decide⟩, rfl, rfl⟩
  obtain ⟨p, hrun, hp⟩ := hserv.onPage (by decide) (by decide) (standing.has hleaf)
    fun node hnode => mutate_high hnode
  have hused : Used tree usedPool rows p ((LeafOp.deleteRecord 10).effect rows (.ok ())) :=
    .work .start hleaf (show tree.route 10 = ⟨12288⟩ by decide) hrun
  refine ⟨p, _, hused, rfl, ?_⟩
  exact fun fuel hfuel => (tree_refines standing holds_rows hused).2.1 hp fuel 10 hfuel

end BpTree

end SmolDb
