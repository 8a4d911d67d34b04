import SmolDb.Pool.Service
import SmolDb.Tree.Effect
import SmolDb.Tree.SplitRoom

/-!
# A split that returns

Where `insertLeaf_outcome` lists the ways a call can end, `Serviceable.insertLeaf_atEnd` says of one
of them that it happens: the leaf is full and the last of its level, its halves have room, and so
has the pool. Then the call splits the leaf and returns `Ok`, and the pool is as serviceable as it
was.
-/

namespace SmolDb

namespace LeafNode

variable {a a₁ a₂ : LeafNode} {k : UInt64} {v : List UInt8}

/-- The halves of a split fit in a page, the new record included. -/
theorem halves_fit {b b₁ b₂ : LeafNode} {promoted : UInt64} (hs : a.IsSlotted)
    (hsb : b.IsSlotted) (hsplit : split (a, b) = some (.ok promoted, (a₁, b₁)))
    (hinsert : insertHalf k v promoted (a₁, b₁) = some (.ok (), (a₂, b₂))) :
    a₂.encodedSize ≤ pageSize ∧ b₂.encodedSize ≤ pageSize := by
  obtain ⟨⟨hleft, hfitLeft⟩, hright, hfitRight⟩ := hs.split_fits hsb hsplit
  obtain ⟨-, hins, rfl⟩ | ⟨-, hins, rfl⟩ := insertHalf_ok hinsert
  · exact ⟨hleft.insertRecord_fits hins, hfitRight⟩
  · exact ⟨hfitLeft, hright.insertRecord_fits hins⟩

/-- What is only in memory is not in the cells. -/
theorem sameCells_of_bare (hbare : a.bare = a₁.bare) : SameCells a₁ a := by
  have hrecords : a.bare.records = a₁.bare.records := by rw [hbare]
  have hslots : a.bare.slotArray = a₁.bare.slotArray := by rw [hbare]
  exact ⟨hrecords, hslots⟩

/-- Leaves with the same cells have room for the same records after a split. -/
theorem SameCells.makesRoom (h : SameCells a a₁) (hs : a.IsSlotted) (hsorted : a.Sorted)
    (hfit : a.encodedSize ≤ pageSize) (habsent : ∀ r ∈ a.rows, r.rowId ≠ k)
    (hlen : v.length ≤ maxValueSize) (hhalf : a.HalfHasRoom k v) (newLeafId : PageId) :
    a₁.SplitMakesRoom newLeafId k v := by
  have hrows := h.rows
  have hfit' : a₁.encodedSize ≤ pageSize := by
    rw [encodedSize_eq_packedSize, hrows, ← encodedSize_eq_packedSize]
    exact hfit
  have hhalf' : a₁.HalfHasRoom k v := by
    unfold HalfHasRoom upperLive lowerLive
    rw [hrows]
    exact hhalf
  exact ((h.slotted hs).makesRoom_iff (h.sorted hsorted) hfit' (hrows ▸ habsent) hlen
    newLeafId).mpr hhalf'

end LeafNode

namespace BufferPool

variable {φ α : Type} {p p' : BufferPool φ} {f g : Frame}

/-! ### Writing frames -/

theorem readFrame_of_frame {node : BTreeNode} (hf : p.frames[f]? = some node) :
    readFrame f p = some (.ok node, p) := Option.map_eq_some_iff.mpr ⟨node, hf, rfl⟩

theorem onLeaf_of_frame {x : Exec DbError LeafNode α} {r : Except DbError α} {a a' : LeafNode}
    (hf : p.frames[f]? = some (.leaf a)) (hx : x a = some (r, a')) :
    onLeaf f x p = some (r, p.withNode f (.leaf a')) := by
  unfold onLeaf
  rw [hf]
  dsimp only
  rw [hx]
  rfl

theorem onLeaves_of_frames {x : Exec DbError (LeafNode × LeafNode) α} {r : Except DbError α}
    {a b a' b' : LeafNode} (hf : p.frames[f]? = some (.leaf a))
    (hg : p.frames[g]? = some (.leaf b)) (hx : x (a, b) = some (r, (a', b'))) :
    onLeaves f g x p = some (r, p.withLeaves f g a' b') := by
  unfold onLeaves
  rw [hf, hg]
  dsimp only
  rw [hx]
  rfl

theorem markDirty_of_frame {node : BTreeNode} (hf : p.frames[f]? = some node) (lsn : UInt64) :
    markDirty f lsn p = some (.ok (), p.withNode f (node.markDirty lsn)) :=
  Exec.bind_of_ok (readFrame_of_frame hf)

theorem withLeaves_withLeaves (hne : f ≠ g) (a b a' b' : LeafNode) :
    (p.withLeaves f g a b).withLeaves f g a' b' = p.withLeaves f g a' b' := by
  show ((p.withLeaves f g a b).withNode f (.leaf a')).withNode g (.leaf b') = _
  rw [withLeaves_withNode_left hne, withLeaves_withNode_right]

section Flusher

variable [WalFlusher φ]

/-- **`new_page` succeeds** when there is room, whatever frames are held. -/
theorem Ready.newPage (h : Ready p) (hfresh : Fresh p)
    (hroom : p.pageTable.keys.length < p.capacity)
    (hover : p.diskManager.header.nextFreeOffset.toNat + pageSize < 2 ^ 64) :
    ∃ g p', newPage true p = some (.ok (⟨p.diskManager.header.nextFreeOffset⟩, g), p') ∧
      Ready p' ∧ p'.held = g :: p.held := by
  have hmake : makeRoom p = some (.ok (), p) := by
    unfold makeRoom
    rw [Exec.bind_of_ok (Exec.get_apply p), if_neg (Nat.not_le_of_lt hroom)]
    rfl
  exact h.newPage_of_room hfresh hmake hroom hover true

end Flusher

end BufferPool

namespace BpTree

open BufferPool LeafNode

variable {φ : Type} {p : BufferPool φ} {f g : Frame} {t : BpTree} {leafPageId n : PageId}
  {rowId lsn promoted : UInt64} {payload : List UInt8} {a b a₁ b₁ a₂ b₂ : LeafNode}

/-! ### The steps of a split -/

theorem insertIntoHalf_of_frames (hne : f ≠ g) (hf : p.frames[f]? = some (.leaf a₁))
    (hg : p.frames[g]? = some (.leaf b₁))
    (hinsert : insertHalf rowId payload promoted (a₁, b₁) = some (.ok (), (a₂, b₂))) :
    insertIntoHalf f g rowId payload promoted p = some (.ok (), p.withLeaves f g a₂ b₂) := by
  unfold insertIntoHalf
  obtain ⟨hlt, hins, rfl⟩ | ⟨hge, hins, rfl⟩ := insertHalf_ok hinsert
  · rw [if_pos hlt, onLeaf_of_frame hf hins]
    have hg' : (p.withNode f (.leaf a₂)).frames[g]? = some (.leaf b₂) := by
      rw [frames_withNode_of_ne hne, hg]
    unfold withLeaves
    rw [withNode_self hg']
  · rw [if_neg hge, onLeaf_of_frame hg hins]
    unfold withLeaves
    rw [withNode_self hf]

section Flusher

variable [WalFlusher φ]

/-- Nothing is fetched when the leaf has no right sibling. -/
theorem wireSiblings_of_frames (hne : f ≠ g) (hf : p.frames[f]? = some (.leaf a))
    (hg : p.frames[g]? = some (.leaf b)) (hend : a.hasNext = false) :
    wireSiblings leafPageId n f g lsn p =
      some (.ok (), p.withLeaves f g (a.linkedLeft n) (b.linkedRight leafPageId a)) := by
  have hread : onLeaf f (fun leftLeaf =>
      some (.ok (leftLeaf.hasNext, leftLeaf.nextPageId), leftLeaf)) p =
      some (.ok (a.hasNext, a.nextPageId), p) := by
    refine (onLeaf_of_frame hf rfl).trans ?_
    rw [withNode_self hf]
  have hright : onLeaf g (Exec.modify fun rightLeaf => { rightLeaf with
      hasPrev := true, prevPageId := leafPageId.val, hasNext := a.hasNext,
      nextPageId := a.nextPageId }) p =
      some (.ok (), p.withNode g (.leaf (b.linkedRight leafPageId a))) := onLeaf_of_frame hg rfl
  have hf' : (p.withNode g (.leaf (b.linkedRight leafPageId a))).frames[f]? = some (.leaf a) := by
    rw [frames_withNode_of_ne hne.symm, hf]
  refine (Exec.bind_of_ok hread).trans ((Exec.bind_of_ok hright).trans ?_)
  refine (Exec.bind_of_ok (onLeaf_of_frame hf' rfl)).trans ?_
  -- no old right sibling
  rw [hend, if_neg Bool.false_ne_true, withNode_comm hne.symm]
  rfl

/-- **The split of the last leaf**, once the new page is made. -/
theorem insertSplit_atEnd (hne : f ≠ g) (hf : p.frames[f]? = some (.leaf a))
    (hg : p.frames[g]? = some (.leaf b))
    (hsplit : split (a, b) = some (.ok promoted, (a₁, b₁)))
    (hinsert : insertHalf rowId payload promoted (a₁, b₁) = some (.ok (), (a₂, b₂)))
    (hend : a₂.hasNext = false) (leafPageId n : PageId) (lsn : UInt64) :
    insertSplit leafPageId n f g rowId payload lsn p =
      some (.ok (some ⟨promoted, n⟩),
        (p.withNode f (BTreeNode.markDirty lsn (.leaf (a₂.linkedLeft n)))).withNode g
          (BTreeNode.markDirty lsn (.leaf (b₂.linkedRight leafPageId a₂)))) := by
  have hf₁ := frames_withLeaves_left (a := a₁) (b := b₁) hne hf
  have hg₁ := frames_withLeaves_right (a := a₁) (b := b₁) hne hg
  have hinto := insertIntoHalf_of_frames hne hf₁ hg₁ hinsert
  rw [withLeaves_withLeaves hne] at hinto
  have hf₂ := frames_withLeaves_left (a := a₂) (b := b₂) hne hf
  have hg₂ := frames_withLeaves_right (a := a₂) (b := b₂) hne hg
  have hwire : wireSiblings leafPageId n f g lsn (p.withLeaves f g a₂ b₂) =
      some (.ok (), p.withLeaves f g (a₂.linkedLeft n) (b₂.linkedRight leafPageId a₂)) := by
    rw [wireSiblings_of_frames hne hf₂ hg₂ hend, withLeaves_withLeaves hne]
  have hf₃ := frames_withLeaves_left (a := a₂.linkedLeft n) (b := b₂.linkedRight leafPageId a₂)
    hne hf
  have hg₃ := frames_withLeaves_right (a := a₂.linkedLeft n) (b := b₂.linkedRight leafPageId a₂)
    hne hg
  -- the steps one after the other: the cut, the insert, the wiring, the two marks
  refine (Exec.bind_of_ok (onLeaves_of_frames hf hg hsplit)).trans ?_
  refine (Exec.bind_of_ok hinto).trans ((Exec.bind_of_ok hwire).trans ?_)
  refine (Exec.bind_of_ok (markDirty_of_frame hf₃ lsn)).trans ?_
  have hg₄ : ((p.withLeaves f g (a₂.linkedLeft n) (b₂.linkedRight leafPageId a₂)).withNode f
      (BTreeNode.markDirty lsn (.leaf (a₂.linkedLeft n)))).frames[g]? =
      some (.leaf (b₂.linkedRight leafPageId a₂)) := by
    rw [frames_withNode_of_ne hne, hg₃]
  refine (Exec.bind_of_ok (markDirty_of_frame hg₄ lsn)).trans ?_
  rw [Exec.pure_apply, withLeaves, withNode_comm hne.symm, withNode_withNode, withNode_withNode]

/-- The way into the split. -/
theorem insertInto_of_full {p₂ p₃ : BufferPool φ} {r : Except DbError (Option SplitResult)}
    (hf : p.frames[f]? = some (.leaf a))
    (hfull : insertRecord rowId payload a = some (.error .pageFull, a))
    (hnew : newPage true p = some (.ok (n, g), p₂))
    (hbody : insertSplit leafPageId n f g rowId payload lsn p₂ = some (r, p₃)) :
    insertInto leafPageId rowId payload lsn f p =
      some (r, { p₃ with held := p₃.held.erase g }) := by
  refine (Exec.bind_of_ok (readFrame_of_frame hf)).trans ?_
  refine (Exec.bind_of_ok (Exec.attempt_of_some (onLeaf_of_frame hf hfull))).trans ?_
  rw [withNode_self hf]
  exact withClone_of_ok hnew hbody

omit [WalFlusher φ] in
/-- When no other page was cached, a fetch leaves one page in the cache. -/
theorem length_keys_of_fetched {p' : BufferPool φ} (h : Fetched p p' leafPageId f)
    (hcached : ∀ id ∈ p.pageTable, id = leafPageId) : p'.pageTable.keys.length ≤ 1 := by
  have hsub : p'.pageTable.keys ⊆ [leafPageId] := by
    intro id hid
    have hmem : id ∈ p'.pageTable := AList.mem_keys.mpr hid
    obtain ⟨f', hl⟩ := AList.exists_lookup hmem
    rw [List.mem_singleton]
    by_contra hne
    have hl' := h.table id f' hl hne
    exact hne (hcached id (AList.mem_of_lookup hl'))
  exact (List.subperm_of_subset p'.pageTable.nodupKeys hsub).length_le

/-- The halves are written into their frames, and these are dropped. -/
theorem serviceable_of_halves (h : Ready p) (hheld : p.held = [g, f])
    (hslot : a₂.IsSlotted) (hslot' : b₂.IsSlotted) (hfit : a₂.encodedSize ≤ pageSize)
    (hfit' : b₂.encodedSize ≤ pageSize) :
    Serviceable { (p.withNode f (BTreeNode.markDirty lsn (.leaf (a₂.linkedLeft n)))).withNode g
      (BTreeNode.markDirty lsn (.leaf (b₂.linkedRight leafPageId a₂))) with
        held := (p.held.erase g).erase f } := by
  -- links and LSN are no part of the slots or the size
  have hx : (BTreeNode.markDirty lsn (.leaf (a₂.linkedLeft n))).IsSlotted := hslot
  have hy : (BTreeNode.markDirty lsn (.leaf (b₂.linkedRight leafPageId a₂))).IsSlotted := hslot'
  have hready := (h.withNode f hx hfit).withNode g hy hfit'
  exact
    { wf := (hready.wf.drop g).drop f
      tracked := hready.tracked
      capacity := hready.capacity
      noFaults := hready.noFaults
      reliable := hready.reliable
      encodable := hready.encodable
      unpinned := by
        show (p.held.erase g).erase f = []
        rw [hheld, List.erase_cons_head, List.erase_cons_head] }

/-- **A split that returns.** The target is a full leaf at the end of its level, and no other page
is cached. -/
theorem insertLeaf_atEnd (t : BpTree) (lsn : UInt64) (h : Serviceable p) (hfresh : Fresh p)
    (halloc : Allocated p leafPageId) (hcached : ∀ id ∈ p.pageTable, id = leafPageId)
    (hcap : 1 < p.capacity)
    (hover : p.diskManager.header.nextFreeOffset.toNat + pageSize < 2 ^ 64) {leaf leaf' : LeafNode}
    (hhas : p.Has leafPageId (.leaf leaf)) (hend : leaf.hasNext = false) (hsorted : leaf.Sorted)
    (hfit : leaf.encodedSize ≤ pageSize) (habsent : ∀ r ∈ leaf.rows, r.rowId ≠ rowId)
    (hlen : payload.length ≤ maxValueSize)
    (hfull : insertRecord rowId payload leaf = some (.error .pageFull, leaf'))
    (hhalf : leaf.HalfHasRoom rowId payload) :
    ∃ cut p', t.insertLeaf leafPageId rowId payload lsn p = some (.ok (some cut), p') ∧
      Serviceable p' := by
  have hshow : (p.line leafPageId).shows = some (.leaf leaf) := WriteBack.Holds.shows hhas
  -- the leaf is fetched, and does not take the record
  obtain ⟨f, p₁, hfetch, hready₁, hheld₁⟩ := h.fetchPage halloc.aligned halloc.ne_zero hhas
  obtain ⟨hw₁, hfetched⟩ := (h.wf.fetchPage hfetch).2 f rfl halloc.aligned
  obtain ⟨node, hnode, hbare⟩ :=
    hhas.fetched_node hw₁ h.noFaults halloc.aligned halloc.ne_zero hfetched
  cases node with
  | internal => cases hbare
  | leaf a =>
    obtain rfl : a.bare = leaf := BTreeNode.leaf.inj hbare
    have hslot : a.IsSlotted := hhas.slotted
    have hkeeps := keeps_insertRecord rowId payload
    have hab : a.bare.bare = a.bare := rfl
    obtain ⟨a', hrefused, -⟩ := hkeeps.congr hab hfull
    obtain rfl := hkeeps.unchanged hslot hrefused
    -- there is room for the new page
    have hroom : p₁.pageTable.keys.length < p₁.capacity := by
      rw [hfetched.grown.capacity]
      exact Nat.lt_of_le_of_lt (length_keys_of_fetched hfetched hcached) hcap
    obtain ⟨n, g, p₂, hnew, hready₂, hheld₂⟩ : ∃ n g p₂,
        newPage true p₁ = some (.ok (n, g), p₂) ∧ Ready p₂ ∧ p₂.held = g :: p₁.held :=
      ⟨_, hready₁.newPage (hfresh.of_fetched hfetched halloc.below) hroom (hfetched.header ▸ hover)⟩
    obtain ⟨hc, hl, b, hleft, hbare', -⟩ :=
      latched_split h.wf hfresh halloc hshow hfetch hnode hnew
    -- the halves have room for the records
    have hcells := sameCells_of_bare hbare'
    obtain ⟨promoted, b₁, c₁, b₂, c₂, hsplit, hinsert⟩ :=
      hcells.makesRoom hslot hsorted hfit habsent hlen hhalf n
    have hslotB := hcells.slotted hslot
    obtain ⟨hheader, -, hslotLeft, hslotRight⟩ := halves_header hslotB rfl rfl hsplit hinsert
    obtain ⟨hfitLeft, hfitRight⟩ := halves_fit hslotB (isSlotted_newEmpty _) hsplit hinsert
    have hlast : b₂.hasNext = false := by
      obtain ⟨_, _, _, rfl⟩ := hheader
      rw [← hbare'] at hend
      exact hend
    -- so everything behind it succeeds
    have hbody := insertSplit_atEnd hl.frame_ne hleft hc.frame hsplit hinsert hlast leafPageId n lsn
    have hinto := insertInto_of_full hnode hrefused hnew hbody
    refine ⟨⟨promoted, n⟩, _, withClone_of_ok hfetch hinto, ?_⟩
    refine serviceable_of_halves hready₂ ?_ hslotLeft hslotRight hfitLeft hfitRight
    rw [hheld₂, hheld₁]

end Flusher

end BpTree

end SmolDb
