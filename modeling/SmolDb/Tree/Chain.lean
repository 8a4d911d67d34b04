import Mathlib.Order.Nat
import SmolDb.Lib.Fenced
import SmolDb.Lib.Linked
import SmolDb.Tree.Halves

/-!
# Chains of leaves

The leaves that `insert_leaf` makes out of one leaf form a doubly linked list, ordered by row id.
`Chain leafOf ranges inserted` says so of the leaves alone, without a pool: `leafOf` gives the
content of each page, `ranges` the intervals the promoted row ids have cut out so far, and
`inserted` the pairs put in. An insert into the leaf of an interval keeps the chain, whether the
record fits (`Chain.whole`) or the leaf is split (`Chain.halves`).
-/

namespace SmolDb

open LeafNode

/-- The row ids from `low` up to the next range, and the leaf they belong to. -/
structure Range where
  low : UInt64
  pageId : PageId
  deriving DecidableEq, Repr

/-- The leaves a leaf points to. -/
def LeafNode.links (self : LeafNode) : Links PageId where
  prev := if self.hasPrev then some ⟨self.prevPageId⟩ else none
  next := if self.hasNext then some ⟨self.nextPageId⟩ else none

namespace BpTree

/-- The bucket of a range: its row ids from `low` on, and the rows of its leaf. -/
def bucket (leafOf : PageId → LeafNode) (r : Range) : Bucket ℕ Record :=
  ⟨r.low.toNat, (leafOf r.pageId).rows⟩

/-- The leaves of the ranges hold the inserted pairs, each in its range, in a doubly linked
list. -/
structure Chain (leafOf : PageId → LeafNode) (ranges : List Range)
    (inserted : List (UInt64 × List UInt8)) : Prop where
  slotted : ∀ r ∈ ranges, (leafOf r.pageId).IsSlotted
  sorted : ∀ r ∈ ranges, (leafOf r.pageId).Sorted
  nodup : (ranges.map Range.pageId).Nodup
  linked : Linked.Segment (fun id => (leafOf id).links) none (ranges.map Range.pageId) none
  fenced : Fenced (fun row : Record => row.rowId.toNat) (ranges.map (bucket leafOf))
  live : (ranges.flatMap fun r => (leafOf r.pageId).live).Perm inserted

variable {leafOf leafOf' : PageId → LeafNode} {ranges xs ys : List Range} {r : Range}
  {inserted : List (UInt64 × List UInt8)} {k lsn promoted : UInt64} {v : List UInt8}
  {a a' b a₁ b₁ a₂ b₂ : LeafNode} {n : PageId}

/-! ### What a chain says -/

/-- **The live pairs are sorted along the chain.** -/
theorem Chain.pairs_sorted (h : Chain leafOf ranges inserted) :
    (ranges.flatMap fun r => (leafOf r.pageId).live).Pairwise
      fun p q => p.1.toNat < q.1.toNat := by
  have hrows := h.fenced.sorted (by
    intro bucket hb
    obtain ⟨r, hr, rfl⟩ := List.mem_map.mp hb
    exact h.sorted r hr)
  rw [List.flatMap_map, List.pairwise_flatMap] at hrows
  rw [List.pairwise_flatMap]
  refine ⟨fun r hr => (h.sorted r hr).live, ?_⟩
  refine hrows.2.imp fun {r r'} hrr p hp q hq => ?_
  exact hrr _ (mem_livePairs.mp hp) _ (mem_livePairs.mp hq)

/-- **Every row id lies in the range of its leaf.** -/
theorem Chain.within (h : Chain leafOf (xs ++ r :: ys) inserted) {row : Record}
    (hrow : row ∈ (leafOf r.pageId).rows) :
    r.low.toNat ≤ row.rowId.toNat ∧ ∀ r' ∈ ys, row.rowId.toNat < r'.low.toNat := by
  have hf := h.fenced
  rw [List.map_append, List.map_cons] at hf
  obtain ⟨hlow, hhigh⟩ := hf.within (x := row) hrow
  exact ⟨hlow, fun r' hr' => hhigh _ (List.mem_map_of_mem hr')⟩

/-- What lies below the next range lies below all the later ones. -/
theorem Chain.lt_later (h : Chain leafOf (xs ++ r :: ys) inserted)
    (hk : ∀ r' ∈ ys.head?, k < r'.low) : ∀ r' ∈ ys, k.toNat < r'.low.toNat := by
  have hf := h.fenced
  rw [List.map_append, List.map_cons] at hf
  intro r' hr'
  refine hf.lt_later (k := k.toNat) ?_ _ (List.mem_map_of_mem (f := bucket leafOf) hr')
  intro b' hb'
  rw [List.head?_map] at hb'
  obtain ⟨first, hfirst, rfl⟩ := Option.map_eq_some_iff.mp hb'
  exact hk first hfirst

/-- The successor of a leaf is the leaf of the next range. -/
theorem Chain.next_eq (h : Chain leafOf (xs ++ r :: ys) inserted) :
    (leafOf r.pageId).links.next = (ys.map Range.pageId).head? := by
  have hlinked := h.linked
  rw [List.map_append, List.map_cons] at hlinked
  obtain ⟨-, hmid, -⟩ := Linked.segment_append.mp hlinked
  calc (leafOf r.pageId).links.next = (ys.map Range.pageId).head?.or none :=
        congrArg Links.next hmid
    _ = (ys.map Range.pageId).head? := Option.or_none

/-! ### Leaves in a chain -/

/-- The content of a leaf that was marked dirty with this LSN. -/
def stamped (lsn : UInt64) (leaf : LeafNode) : LeafNode := { leaf.bare with lastLsn := lsn }

theorem sameCells_stamped (leaf : LeafNode) : SameCells leaf (stamped lsn leaf) := ⟨rfl, rfl⟩

theorem links_stamped (leaf : LeafNode) : (stamped lsn leaf).links = leaf.links := rfl

/-- Fields outside of the cells are not the business of the cells' operations. -/
theorem links_congr (h : SameHeader a b) : b.links = a.links := by
  obtain ⟨_, _, _, rfl⟩ := h
  rfl

/-- The ranges around `r` are ranges of the chain. -/
theorem mem_around {r' : Range} (hr' : r' ∈ xs ++ ys) : r' ∈ xs ++ r :: ys := by
  rcases List.mem_append.mp hr' with hx | hy
  · exact List.mem_append_left _ hx
  · exact List.mem_append_right _ (List.mem_cons_of_mem _ hy)

/-- A range is in the middle of a list of ranges, or beside it. -/
theorem forall_ranges {P : Range → Prop} (zs : List Range) (hz : ∀ z ∈ zs, P z)
    (hxy : ∀ r' ∈ xs ++ ys, P r') : ∀ r' ∈ xs ++ (zs ++ ys), P r' := by
  intro r' hr'
  rcases List.mem_append.mp hr' with hx | hrest
  · exact hxy r' (List.mem_append_left _ hx)
  · rcases List.mem_append.mp hrest with hz' | hy
    · exact hz r' hz'
    · exact hxy r' (List.mem_append_right _ hy)

/-- An exchange of the leaf in the middle for the leaves `zs`, the others keeping their cells:
what a chain says of the cells. -/
theorem Chain.exchange (h : Chain leafOf (xs ++ r :: ys) inserted) (zs : List Range)
    (hothers : ∀ r' ∈ xs ++ ys, SameCells (leafOf r'.pageId) (leafOf' r'.pageId))
    (hslotted : ∀ z ∈ zs, (leafOf' z.pageId).IsSlotted)
    (hsorted : ∀ z ∈ zs, (leafOf' z.pageId).Sorted)
    (hnodup : ((xs ++ (zs ++ ys)).map Range.pageId).Nodup)
    (hlinked : Linked.Segment (fun id => (leafOf' id).links) none
      ((xs ++ (zs ++ ys)).map Range.pageId) none)
    (hfenced : Fenced (fun row : Record => row.rowId.toNat)
      (xs.map (bucket leafOf) ++ (zs.map (bucket leafOf') ++ ys.map (bucket leafOf))))
    (hlive : (zs.flatMap fun z => (leafOf' z.pageId).live).Perm
      ((k, v) :: (leafOf r.pageId).live)) :
    Chain leafOf' (xs ++ (zs ++ ys)) ((k, v) :: inserted) := by
  -- the leaves beside the target have the rows and the pairs they had
  have hbucket : ∀ r' ∈ xs ++ ys, bucket leafOf' r' = bucket leafOf r' := by
    intro r' hr'
    unfold bucket
    rw [(hothers r' hr').rows]
  have hflat : ∀ us : List Range, us ⊆ xs ++ ys →
      us.flatMap (fun r => (leafOf' r.pageId).live) =
        us.flatMap fun r => (leafOf r.pageId).live := by
    intro us hus
    exact List.flatMap_congr fun r' hr' => (hothers r' (hus hr')).live
  exact
    { slotted := forall_ranges zs hslotted fun r' hr' =>
        (hothers r' hr').slotted (h.slotted r' (mem_around hr'))
      sorted := forall_ranges zs hsorted fun r' hr' =>
        (hothers r' hr').sorted (h.sorted r' (mem_around hr'))
      nodup := hnodup
      linked := hlinked
      fenced := by
        rw [List.map_append, List.map_append,
          List.map_congr_left fun r' hr' => hbucket r' (List.mem_append_left _ hr'),
          List.map_congr_left fun r' hr' => hbucket r' (List.mem_append_right _ hr')]
        exact hfenced
      live := by
        have hbefore := h.live
        rw [List.flatMap_append, List.flatMap_cons] at hbefore
        rw [List.flatMap_append, List.flatMap_append, hflat xs (List.subset_append_left ..),
          hflat ys (List.subset_append_right ..)]
        let liveOf := fun us : List Range => us.flatMap fun r => (leafOf r.pageId).live
        calc (liveOf xs ++ (zs.flatMap (fun z => (leafOf' z.pageId).live) ++ liveOf ys)).Perm
              (liveOf xs ++ ((k, v) :: (leafOf r.pageId).live ++ liveOf ys)) :=
            (hlive.append_right _).append_left _
          List.Perm _ ((k, v) :: (liveOf xs ++ ((leafOf r.pageId).live ++ liveOf ys))) :=
            List.perm_middle
          List.Perm _ ((k, v) :: inserted) := hbefore.cons _ }

/-- The id of a range is not that of another one. -/
theorem Chain.ne_target (h : Chain leafOf (xs ++ r :: ys) inserted) :
    ∀ r' ∈ xs ++ ys, r'.pageId ≠ r.pageId := by
  have hnd := h.nodup
  rw [List.map_append, List.map_cons] at hnd
  obtain ⟨-, htail, hcross⟩ := List.nodup_append.mp hnd
  intro r' hr' heq
  rcases List.mem_append.mp hr' with hx | hy
  · exact hcross _ (List.mem_map_of_mem hx) _ (List.mem_cons_self ..) heq
  · exact (List.nodup_cons.mp htail).1 (heq ▸ List.mem_map_of_mem hy)

/-- No page comes twice: only the leaf of the next range is the successor of a leaf. -/
theorem Chain.next_ne (h : Chain leafOf (xs ++ r :: ys) inserted) {r' : Range}
    (hr' : r' ∈ xs ++ ys.tail) : (leafOf r.pageId).links.next ≠ some r'.pageId := by
  have hnd := h.nodup
  rw [List.map_append, List.map_cons] at hnd
  obtain ⟨-, htail, hcross⟩ := List.nodup_append.mp hnd
  rw [h.next_eq]
  intro hhead
  -- the next page is the first of the later ones, which are no two the same
  have hnext : r'.pageId ∈ ys.map Range.pageId := List.mem_of_mem_head? hhead
  rcases List.mem_append.mp hr' with hx | hy
  · exact hcross _ (List.mem_map_of_mem hx) _ (List.mem_cons_of_mem _ hnext) rfl
  · -- the page would be the first of the later ones, and one behind it
    have hlater := (List.nodup_cons.mp htail).2
    rw [← List.cons_head?_tail hhead, ← List.map_tail] at hlater
    exact (List.nodup_cons.mp hlater).1 (List.mem_map_of_mem hy)

/-- The rows of the target, and a new row with a row id of its range, lie in that range. -/
theorem Chain.bounds (h : Chain leafOf (xs ++ r :: ys) inserted) (hlow : r.low ≤ k)
    (hhigh : ∀ r' ∈ ys.head?, k < r'.low) {row : Record}
    (hrow : row ∈ (leafOf r.pageId).rows ∨ row.rowId = k) :
    r.low.toNat ≤ row.rowId.toNat ∧
      ∀ b' ∈ ys.map (bucket leafOf), row.rowId.toNat < b'.low := by
  refine hrow.elim (fun hold => ?_) fun hnew => ?_
  · obtain ⟨hge, hlt⟩ := h.within hold
    exact ⟨hge, List.forall_mem_map.mpr hlt⟩
  · subst hnew
    exact ⟨hlow, List.forall_mem_map.mpr (h.lt_later hhigh)⟩

/-- **The record fits.** -/
theorem Chain.whole (h : Chain leafOf (xs ++ r :: ys) inserted) (hlow : r.low ≤ k)
    (hhigh : ∀ r' ∈ ys.head?, k < r'.low) (hbare : a.bare = leafOf r.pageId)
    (hinsert : insertRecord k v a = some (.ok (), a')) :
    Chain (Function.update leafOf r.pageId (stamped lsn a')) (xs ++ r :: ys)
      ((k, v) :: inserted) := by
  have hmem : r ∈ xs ++ r :: ys := List.mem_append_right _ (List.mem_cons_self ..)
  have hcells : SameCells (leafOf r.pageId) a := by
    rw [← hbare]
    exact ⟨rfl, rfl⟩
  have hs : a.IsSlotted := hcells.slotted (h.slotted r hmem)
  have hother : ∀ r' ∈ xs ++ ys,
      Function.update leafOf r.pageId (stamped lsn a') r'.pageId = leafOf r'.pageId :=
    fun r' hr' => Function.update_of_ne (h.ne_target r' hr') _ _
  have hself : Function.update leafOf r.pageId (stamped lsn a') r.pageId = stamped lsn a' :=
    Function.update_self ..
  have hstamp : SameCells a' (stamped lsn a') := sameCells_stamped a'
  have hkeeps := keeps_insertRecord k v
  have hlinks : (stamped lsn a').links = (leafOf r.pageId).links := by
    calc (stamped lsn a').links = a'.links := links_stamped a'
      _ = a.links := links_congr (hkeeps.header hs hinsert)
      _ = (leafOf r.pageId).links := by rw [← hbare]; rfl
  refine h.exchange [r] ?_ ?_ ?_ h.nodup ?_ ?_ ?_
  · intro r' hr'
    rw [hother r' hr']
    exact ⟨rfl, rfl⟩
  · refine List.forall_mem_singleton.mpr ?_
    rw [hself]
    exact hstamp.slotted (hkeeps.slotted hs hinsert)
  · refine List.forall_mem_singleton.mpr ?_
    rw [hself]
    exact hstamp.sorted
      (hs.insertRecord_sorted (hcells.sorted (h.sorted r hmem)) hinsert)
  · -- no link changes
    refine h.linked.congr fun id _ => ?_
    show (Function.update leafOf r.pageId (stamped lsn a') id).links = (leafOf id).links
    by_cases hid : id = r.pageId
    · subst hid
      rw [hself]
      exact hlinks
    · rw [Function.update_of_ne hid]
  · have hf := h.fenced
    rw [List.map_append, List.map_cons] at hf
    have hb : bucket (Function.update leafOf r.pageId (stamped lsn a')) r =
        ⟨(bucket leafOf r).low, a'.rows⟩ := by
      unfold bucket
      rw [hself, hstamp.rows]
    rw [List.map_singleton, hb]
    refine hf.refill fun row hrow => h.bounds hlow hhigh ?_
    -- a row was in the leaf, or is the new one
    rw [← hcells.rows]
    exact hs.insertRecord_mem hinsert row hrow
  · rw [List.flatMap_singleton, hself, hstamp.live, ← hcells.live]
    exact hs.insertRecord_perm hinsert

/-- The leaves after a split of the leaf `t` that made the leaf `n`: the halves, and the old
right sibling of `t` with its backward pointer on `n`. -/
def afterSplit (leafOf : PageId → LeafNode) (t n : PageId) (left right : LeafNode)
    (lsn : UInt64) : PageId → LeafNode := fun id =>
  if id = t then left
  else if id = n then right
  else if (leafOf t).links.next = some id then
    { leafOf id with hasPrev := true, prevPageId := n.val, lastLsn := lsn }
  else leafOf id

section AfterSplit

variable {t id : PageId} {left right : LeafNode}

theorem afterSplit_left : afterSplit leafOf t n left right lsn t = left := if_pos rfl

theorem afterSplit_right (hne : n ≠ t) : afterSplit leafOf t n left right lsn n = right := by
  unfold afterSplit
  rw [if_neg hne, if_pos rfl]

theorem afterSplit_next (hleft : id ≠ t) (hright : id ≠ n)
    (hnext : (leafOf t).links.next = some id) :
    afterSplit leafOf t n left right lsn id =
      { leafOf id with hasPrev := true, prevPageId := n.val, lastLsn := lsn } := by
  unfold afterSplit
  rw [if_neg hleft, if_neg hright, if_pos hnext]

theorem afterSplit_other (hleft : id ≠ t) (hright : id ≠ n)
    (hnext : (leafOf t).links.next ≠ some id) :
    afterSplit leafOf t n left right lsn id = leafOf id := by
  unfold afterSplit
  rw [if_neg hleft, if_neg hright, if_neg hnext]

theorem sameCells_afterSplit (hleft : id ≠ t) (hright : id ≠ n) :
    SameCells (leafOf id) (afterSplit leafOf t n left right lsn id) := by
  by_cases hnext : (leafOf t).links.next = some id
  · rw [afterSplit_next hleft hright hnext]
    exact ⟨rfl, rfl⟩
  · rw [afterSplit_other hleft hright hnext]
    exact ⟨rfl, rfl⟩

/-- **The links after a split.** The new leaf is put behind the target. -/
theorem Chain.linked_afterSplit {r : Range} (h : Chain leafOf (xs ++ r :: ys) inserted)
    (hnew : ∀ r' ∈ xs ++ r :: ys, r'.pageId ≠ n)
    (hleft : left.links = { (leafOf r.pageId).links with next := some n })
    (hright : right.links = ⟨some r.pageId, (leafOf r.pageId).links.next⟩) :
    Linked.Segment (fun id => (afterSplit leafOf r.pageId n left right lsn id).links) none
      ((xs ++ r :: ⟨promoted, n⟩ :: ys).map Range.pageId) none := by
  have hmem : r ∈ xs ++ r :: ys := List.mem_append_right _ (List.mem_cons_self ..)
  have hne : ∀ r' ∈ xs ++ ys, r'.pageId ≠ r.pageId ∧ r'.pageId ≠ n := fun r' hr' =>
    ⟨h.ne_target r' hr', hnew r' (mem_around hr')⟩
  have hlinked := h.linked
  rw [List.map_append, List.map_cons] at hlinked
  rw [List.map_append]
  -- the new leaf is put behind the target, and no third leaf but the next one is touched
  refine hlinked.insertAfter ?_ ?_ ?_ ?_
  · show (afterSplit leafOf r.pageId n left right lsn r.pageId).links = _
    rw [afterSplit_left]
    exact hleft
  · show (afterSplit leafOf r.pageId n left right lsn n).links = _
    rw [afterSplit_right (hnew r hmem).symm]
    exact hright
  · -- the leaf of the next range is the old right sibling
    intro id hid
    obtain ⟨r', hr', rfl⟩ := List.mem_map.mp (List.mem_of_mem_head? hid)
    obtain ⟨htarget, hne'⟩ := hne r' (List.mem_append_right _ hr')
    show (afterSplit leafOf r.pageId n left right lsn r'.pageId).links = _
    rw [afterSplit_next htarget hne' (h.next_eq.trans hid)]
    rfl
  · intro id hid
    rw [← List.map_tail, ← List.map_append] at hid
    obtain ⟨r', hr', rfl⟩ := List.mem_map.mp hid
    have hsub : (xs ++ ys.tail).Sublist (xs ++ ys) := (List.tail_sublist ys).append_left xs
    obtain ⟨htarget, hne'⟩ := hne r' (hsub.subset hr')
    show (afterSplit leafOf r.pageId n left right lsn r'.pageId).links = _
    rw [afterSplit_other htarget hne' (h.next_ne hr')]

end AfterSplit

/-- **The leaf is split.** -/
theorem Chain.halves (h : Chain leafOf (xs ++ r :: ys) inserted) (hlow : r.low ≤ k)
    (hhigh : ∀ r' ∈ ys.head?, k < r'.low) (hbare : a.bare = leafOf r.pageId)
    (hrecords : b.records = []) (hslots : b.slotArray = [])
    (hsplit : split (a, b) = some (.ok promoted, (a₁, b₁)))
    (hinsert : insertHalf k v promoted (a₁, b₁) = some (.ok (), (a₂, b₂)))
    (hnew : ∀ r' ∈ xs ++ r :: ys, r'.pageId ≠ n) :
    Chain (afterSplit leafOf r.pageId n (stamped lsn (a₂.linkedLeft n))
        (stamped lsn (b₂.linkedRight r.pageId a₂)) lsn)
      (xs ++ r :: ⟨promoted, n⟩ :: ys) ((k, v) :: inserted) := by
  set left := stamped lsn (a₂.linkedLeft n) with hleft
  set right := stamped lsn (b₂.linkedRight r.pageId a₂) with hright
  have hmem : r ∈ xs ++ r :: ys := List.mem_append_right _ (List.mem_cons_self ..)
  have hcells : SameCells (leafOf r.pageId) a := by
    rw [← hbare]
    exact ⟨rfl, rfl⟩
  have hs : a.IsSlotted := hcells.slotted (h.slotted r hmem)
  have hsorted : a.Sorted := hcells.sorted (h.sorted r hmem)
  obtain ⟨hheader, -, hslotLeft, hslotRight⟩ := halves_header hs hrecords hslots hsplit hinsert
  have hp := halves_sorted hs hsorted hrecords hslots hsplit hinsert
  have hcellsLeft : SameCells a₂ left := ⟨rfl, rfl⟩
  have hcellsRight : SameCells b₂ right := ⟨rfl, rfl⟩
  have hnt : n ≠ r.pageId := (hnew r hmem).symm
  have hselfLeft : afterSplit leafOf r.pageId n left right lsn r.pageId = left := afterSplit_left
  have hselfRight : afterSplit leafOf r.pageId n left right lsn n = right := afterSplit_right hnt
  have hother : ∀ r' ∈ xs ++ ys, r'.pageId ≠ r.pageId ∧ r'.pageId ≠ n := fun r' hr' =>
    ⟨h.ne_target r' hr', hnew r' (mem_around hr')⟩
  have hpair : ∀ {P : Range → Prop}, P r → P ⟨promoted, n⟩ →
      ∀ z ∈ [r, ⟨promoted, n⟩], P z := by
    intro P hl hr
    exact List.forall_mem_cons.mpr ⟨hl, List.forall_mem_singleton.mpr hr⟩
  refine h.exchange [r, ⟨promoted, n⟩] ?_ ?_ ?_ ?_ ?_ ?_ ?_
  · exact fun r' hr' => sameCells_afterSplit (hother r' hr').1 (hother r' hr').2
  · refine hpair ?_ ?_
    · rw [hselfLeft]
      exact hcellsLeft.slotted hslotLeft
    · rw [hselfRight]
      exact hcellsRight.slotted hslotRight
  · refine hpair ?_ ?_
    · rw [hselfLeft]
      exact hcellsLeft.sorted hp.left_sorted
    · rw [hselfRight]
      exact hcellsRight.sorted hp.right_sorted
  · have hperm : (xs ++ r :: ⟨promoted, n⟩ :: ys).Perm (⟨promoted, n⟩ :: (xs ++ r :: ys)) := by
      calc (xs ++ r :: ⟨promoted, n⟩ :: ys).Perm (xs ++ ⟨promoted, n⟩ :: r :: ys) :=
          (List.Perm.swap _ _ _).append_left _
        List.Perm _ (⟨promoted, n⟩ :: (xs ++ r :: ys)) := List.perm_middle
    refine (hperm.map Range.pageId).nodup_iff.mpr (List.nodup_cons.mpr ⟨?_, h.nodup⟩)
    intro hn
    obtain ⟨r', hr', heq⟩ := List.mem_map.mp hn
    exact hnew r' hr' heq
  · -- the pointers of the halves are written over the header of the target
    obtain ⟨_, _, _, rfl⟩ := hheader
    refine h.linked_afterSplit hnew ?_ ?_
    · rw [← hbare]
      rfl
    · rw [← hbare]
      rfl
  · have hf := h.fenced
    rw [List.map_append, List.map_cons] at hf
    have hb : [r, ⟨promoted, n⟩].map
        (bucket (afterSplit leafOf r.pageId n left right lsn)) =
          [⟨(bucket leafOf r).low, a₂.rows⟩, ⟨promoted.toNat, b₂.rows⟩] := by
      unfold bucket
      rw [List.map_cons, List.map_singleton, hselfLeft, hselfRight, hcellsLeft.rows,
        hcellsRight.rows]
    rw [hb]
    -- a row of a half was in the leaf, or is the new one
    have hbounds : ∀ row : Record, row ∈ a.rows ∨ row.rowId = k →
        r.low.toNat ≤ row.rowId.toNat ∧
          ∀ b' ∈ ys.map (bucket leafOf), row.rowId.toNat < b'.low := by
      intro row hrow
      rw [hcells.rows] at hrow
      exact h.bounds hlow hhigh hrow
    obtain ⟨first, hfirst, hpromoted⟩ := hp.promoted_mem
    have hfence := hbounds first (.inl hfirst)
    rw [hpromoted] at hfence
    refine hf.cut hfence.1 (fun b' hb' => Nat.le_of_lt (hfence.2 b' hb')) ?_ ?_
    · exact fun row hrow => ⟨(hbounds row (hp.left_mem row hrow)).1, hp.left_lt row hrow⟩
    · exact fun row hrow => ⟨hp.right_ge row hrow, (hbounds row (hp.right_mem row hrow)).2⟩
  · rw [List.flatMap_cons, List.flatMap_singleton, hselfLeft, hselfRight, hcellsLeft.live,
      hcellsRight.live, ← hcells.live]
    exact halves_live hs hrecords hslots hsplit hinsert

end BpTree

end SmolDb
