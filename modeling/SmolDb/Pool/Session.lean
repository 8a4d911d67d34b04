import SmolDb.Page.LeafOp
import SmolDb.Pool.Loans

/-!
# What clients have seen of the pages

A `Session` is a lending whose clients change leaves only through the operations of `LeafNode`,
on a disk without I/O errors, and it remembers three things: the content each page was last seen
with in memory (`last`), the pages with a change that was not followed by `mark_dirty` yet
(`pending`; the last clone of such a frame is not dropped), and the pages that were marked dirty
at least once (`marked`).

From these one can tell what the pool and its file have of a page (`Remembers`). A page with a
pending change is in the frame its client holds. A page that was marked has its last content, in
the cache or in the file. Of a page that was never marked nothing is in the file; what is left of
it depends on which pages clients fetch, so the invariant leaves it open (`Young`).
-/

namespace SmolDb

open WriteBack BufferPool LeafNode

variable {φ : Type}

/-- A lending and what its clients have seen of the pages. -/
structure Session (φ : Type) extends Lending φ where
  last : PageId → BTreeNode
  pending : List PageId
  marked : List PageId

/-- A new page is last seen as it was made. -/
def PoolCall.remember (r : Except DbError (Option (PageId × Frame))) (last : PageId → BTreeNode) :
    PoolCall → PageId → BTreeNode
  | .newPage isLeaf =>
    match handed r with
    | (id, _) :: _ => Function.update last id (BTreeNode.newEmpty id isLeaf)
    | [] => last
  | .fetchPage _ | .flushPage _ | .flushAllPages _ => last

namespace Session

/-- A new pool over an empty file. -/
def start (capacity : ℕ) (w : Option φ) : Session φ where
  toLending := Lending.start [] capacity w
  last _ := zeroNode
  pending := []
  marked := []

section Flusher

variable [WalFlusher φ]

/-- One step. `Allowed` says which pages are fetched. -/
inductive Works (Allowed : Session φ → PageId → Prop) (s : Session φ) : Session φ → Prop
  | call {c : PoolCall} {r : Except DbError (Option (PageId × Frame))} {p' : BufferPool φ}
      (hknown : ∀ id, c = .fetchPage id → id ∈ s.made)
      (hallowed : ∀ id, c = .fetchPage id → Allowed s id) (hrun : c.run s.pool = some (r, p')) :
      Works Allowed s
        { toLending := s.toLending.called c r p'
          last := c.remember r s.last
          pending := s.pending
          marked := s.marked }
  | change {id : PageId} {f : Frame} {leaf leaf' : LeafNode} {op : LeafOp}
      (hloan : (id, f) ∈ s.loans) (hleaf : s.pool.frames[f]? = some (.leaf leaf))
      (hop : op.call leaf = some (.ok (), leaf')) :
      Works Allowed s
        { s with
          pool := s.pool.withNode f (.leaf leaf')
          last := Function.update s.last id (.leaf leaf'.bare)
          pending := id :: s.pending }
  | refuse {id : PageId} {f : Frame} {leaf leaf' : LeafNode} {op : LeafOp} {e : DbError}
      (hloan : (id, f) ∈ s.loans) (hleaf : s.pool.frames[f]? = some (.leaf leaf))
      (hop : op.call leaf = some (.error e, leaf')) :
      Works Allowed s { s with pool := s.pool.withNode f (.leaf leaf') }
  | split {id id' : PageId} {f g : Frame} {a b a' b' : LeafNode} {r : Except DbError UInt64}
      (hloan : (id, f) ∈ s.loans) (hloan' : (id', g) ∈ s.loans) (hne : f ≠ g)
      (hleaf : s.pool.frames[f]? = some (.leaf a)) (hleaf' : s.pool.frames[g]? = some (.leaf b))
      (hop : LeafNode.split (a, b) = some (r, (a', b'))) :
      Works Allowed s
        { s with
          pool := (s.pool.withNode f (.leaf a')).withNode g (.leaf b')
          last := Function.update (Function.update s.last id (.leaf a'.bare)) id' (.leaf b'.bare)
          pending := id' :: id :: s.pending }
  | mark {id : PageId} {f : Frame} {node : BTreeNode} (hloan : (id, f) ∈ s.loans)
      (hnode : s.pool.frames[f]? = some node) (lsn : UInt64) :
      Works Allowed s
        { s with
          pool := s.pool.withNode f (node.markDirty lsn)
          last := Function.update s.last id (node.markDirty lsn).bare
          pending := s.pending.filter (· ≠ id)
          marked := id :: s.marked }
  | clone {id : PageId} {f : Frame} (hloan : (id, f) ∈ s.loans) :
      Works Allowed s
        { s with
          pool := { s.pool with held := f :: s.pool.held }
          loans := (id, f) :: s.loans }
  | drop {id : PageId} {f : Frame} (hloan : (id, f) ∈ s.loans)
      (hdone : id ∉ s.pending ∨ (id, f) ∈ s.loans.erase (id, f)) :
      Works Allowed s
        { s with
          pool := { s.pool with held := s.pool.held.erase f }
          loans := s.loans.erase (id, f) }
  | relog (w : φ) :
      Works Allowed s
        { s with pool := { s.pool with walFlusher := s.pool.walFlusher.map fun _ => w } }

/-- The states any number of steps lead to. -/
inductive Reached (Allowed : Session φ → PageId → Prop) (capacity : ℕ) : Session φ → Prop
  | start (w : Option φ) : Reached Allowed capacity (start capacity w)
  | step {s s' : Session φ} (h : Reached Allowed capacity s) (hstep : Works Allowed s s') :
      Reached Allowed capacity s'

end Flusher

/-- What is true between two steps. `Young` is what is known of the line of a page that was never
marked, from the content it was made with. -/
structure Remembers (Young : BTreeNode → Line BTreeNode → Prop) (s : Session φ) : Prop where
  lawful : s.toLending.Lawful
  unborn : Unborn s.pool
  faults : s.pool.diskManager.faults = []
  loanMade : ∀ id f, (id, f) ∈ s.loans → id ∈ s.made
  markedMade : ∀ id ∈ s.marked, id ∈ s.made
  slotted : ∀ id ∈ s.made, (s.last id).IsSlotted
  pending : ∀ id ∈ s.pending, ∃ f node, (id, f) ∈ s.loans ∧ s.pool.frames[f]? = some node ∧
    node.bare = s.last id
  saved : ∀ id ∈ s.marked, id ∉ s.pending → s.pool.Has id (s.last id)
  young : ∀ id ∈ s.made, id ∉ s.marked → id ∉ s.pending →
    Young (s.last id) (s.pool.line id) ∧ ∃ isLeaf, s.last id = BTreeNode.newEmpty id isLeaf

/-- What has to be known of `Young`: it is true of a page that was just made, every move of the
cache keeps it, and so does an allowed fetch of the page; and a cached copy is the page as it was
made, or a page of zeros. -/
structure Ages (Allowed : Session φ → PageId → Prop)
    (Young : BTreeNode → Line BTreeNode → Prop) : Prop where
  born : ∀ {c : BTreeNode} {f : Frame} {v : Line BTreeNode}, v.blank →
    v.cached = some (f, c, false) → Young c v
  moves : ∀ {pinned : ℕ → Prop} {faulty : Prop} {c : BTreeNode} {v w : Line BTreeNode},
    Moves BTreeNode.IsSlotted pinned faulty v w → Young c v → Young c w
  fetched : ∀ {s : Session φ} {p' : BufferPool φ} {id : PageId} {f : Frame} {c : BTreeNode},
    Allowed s id → Allocated s.pool id → id ∉ s.marked → Fetched s.pool p' id f →
      Young c (s.pool.line id) → Young c (p'.line id)
  copy : ∀ {p : BufferPool φ} {id : PageId} {c c' : BTreeNode} {f : Frame} {d : Bool},
    Young c (p.line id) → (p.line id).cached = some (f, c', d) → c' = c ∨ c' = zeroNode

section Invariant

variable {Allowed : Session φ → PageId → Prop} {Young : BTreeNode → Line BTreeNode → Prop}
  {s s' : Session φ}

/-- The frame of a loan has what was last seen of a page with a change. -/
theorem Remembers.known (h : Remembers Young s) {id : PageId} {f : Frame} {node : BTreeNode}
    (hloan : (id, f) ∈ s.loans) (hnode : s.pool.frames[f]? = some node)
    (hid : id ∈ s.pending ∨ id ∈ s.marked) : node.bare = s.last id := by
  have hlook := h.lawful.loans id f hloan
  by_cases hpending : id ∈ s.pending
  · obtain ⟨f', node', hloan', hnode', hbare⟩ := h.pending id hpending
    have hlook' := h.lawful.loans id f' hloan'
    obtain rfl : f = f' := Option.some.inj (hlook.symm.trans hlook')
    obtain rfl : node = node' := Option.some.inj (hnode.symm.trans hnode')
    exact hbare
  · exact (h.saved id (hid.resolve_left hpending) hpending).node hlook hnode

/-- The frame of a loan has what was last seen, or the page of zeros that a lost page leaves. -/
theorem Remembers.content (h : Remembers Young s) (hages : Ages Allowed Young)
    {id : PageId} {f : Frame} {node : BTreeNode} (hloan : (id, f) ∈ s.loans)
    (hnode : s.pool.frames[f]? = some node) : node.bare = s.last id ∨ node.bare = zeroNode := by
  by_cases hid : id ∈ s.pending ∨ id ∈ s.marked
  · exact .inl (h.known hloan hnode hid)
  · obtain ⟨hpending, hmarked⟩ := not_or.mp hid
    obtain ⟨hyoung, -⟩ := h.young id (h.loanMade id f hloan) hmarked hpending
    exact hages.copy hyoung
      (congrArg Line.cached (line_of_lookup (h.lawful.loans id f hloan) hnode))

/-- A leaf in the frame of a loan is what was last seen: a page of zeros is not a leaf. -/
theorem Remembers.leaf (h : Remembers Young s) (hages : Ages Allowed Young)
    {id : PageId} {f : Frame} {leaf : LeafNode} (hloan : (id, f) ∈ s.loans)
    (hleaf : s.pool.frames[f]? = some (.leaf leaf)) :
    s.last id = .leaf leaf.bare ∧ leaf.IsSlotted := by
  rcases h.content hages hloan hleaf with hlast | hzero
  · refine ⟨hlast.symm, ?_⟩
    have hs := h.slotted id (h.loanMade id f hloan)
    rw [← hlast] at hs
    exact hs
  · cases hzero

/-- The pages of two loans with different frames are different. -/
theorem Remembers.ne_of_frame (h : Remembers Young s) {id id' : PageId} {f g : Frame}
    (hloan : (id, f) ∈ s.loans) (hloan' : (id', g) ∈ s.loans) (hne : f ≠ g) : id ≠ id' := by
  rintro rfl
  exact hne (Option.some.inj
    ((h.lawful.loans id f hloan).symm.trans (h.lawful.loans id g hloan')))

theorem Remembers.start (capacity : ℕ) (w : Option φ) :
    Remembers Young (start capacity w) where
  lawful := .start [] capacity w
  unborn := .new [] capacity w
  faults := rfl
  loanMade := nofun
  markedMade := nofun
  slotted := nofun
  pending := nofun
  saved := nofun
  young := nofun

/-! ### Writing into frames -/

/-- Writing into the frame of a loan leaves a pending change, and the other pages as they are. -/
theorem Remembers.write [WalFlusher φ] (h : Remembers Young s) {id : PageId} {f : Frame}
    {old node : BTreeNode} (hloan : (id, f) ∈ s.loans) (hold : s.pool.frames[f]? = some old)
    (hs : node.IsSlotted) :
    Remembers Young
      { s with
        pool := s.pool.withNode f node
        last := Function.update s.last id node.bare
        pending := id :: s.pending } := by
  have hlook := h.lawful.loans id f hloan
  -- only the line of the page written to changes
  have hother : ∀ id', id' ≠ id → (s.pool.withNode f node).line id' = s.pool.line id' :=
    fun id' hne => h.lawful.wf.line_withNode_of_ne hlook hne node
  exact
    { lawful := h.lawful.step (.write hloan node)
      unborn := h.unborn
      faults := h.faults
      loanMade := h.loanMade
      markedMade := h.markedMade
      slotted := fun id' hid' => by
        show (Function.update s.last id node.bare id').IsSlotted
        by_cases heq : id' = id
        · rw [heq, Function.update_self]
          exact (BTreeNode.isSlotted_bare node).mpr hs
        · rw [Function.update_of_ne heq]
          exact h.slotted id' hid'
      pending := fun id' hid' => by
        show ∃ f' node', (id', f') ∈ s.loans ∧ (s.pool.withNode f node).frames[f']? = some node' ∧
          node'.bare = Function.update s.last id node.bare id'
        by_cases heq : id' = id
        · subst heq
          refine ⟨f, node, hloan, frames_withNode_self hold, ?_⟩
          rw [Function.update_self]
        · obtain ⟨f', node', hloan', hnode', hbare⟩ :=
            h.pending id' ((List.mem_cons.mp hid').resolve_left heq)
          -- two pages do not share a frame
          have hff : f ≠ f' := by
            rintro rfl
            exact heq (h.lawful.wf.inj _ _ f (h.lawful.loans id' f hloan') hlook)
          refine ⟨f', node', hloan', ?_, ?_⟩
          · rw [frames_withNode_of_ne hff]
            exact hnode'
          · rw [Function.update_of_ne heq]
            exact hbare
      saved := fun id' hid' hno => by
        obtain ⟨heq, hno'⟩ := not_or.mp (fun hor => hno (List.mem_cons.mpr hor))
        show (s.pool.withNode f node).Has id' (Function.update s.last id node.bare id')
        rw [Function.update_of_ne heq]
        exact (h.saved id' hid' hno').withNode_of_ne h.lawful.wf hlook heq node
      young := fun id' hid' hunmarked hno => by
        obtain ⟨heq, hno'⟩ := not_or.mp (fun hor => hno (List.mem_cons.mpr hor))
        show Young (Function.update s.last id node.bare id')
            ((s.pool.withNode f node).line id') ∧
          ∃ isLeaf, Function.update s.last id node.bare id' = BTreeNode.newEmpty id' isLeaf
        rw [Function.update_of_ne heq, hother id' heq]
        exact h.young id' hid' hunmarked hno' }

/-- A dirty node in the frame of a loan settles the changes of its page. -/
theorem Remembers.settle (h : Remembers Young s) {id : PageId} {f : Frame} {node : BTreeNode}
    (hloan : (id, f) ∈ s.loans) (hnode : s.pool.frames[f]? = some node)
    (hdirty : node.isDirty = true) (hbare : node.bare = s.last id) :
    Remembers Young
      { s with
        pending := s.pending.filter (· ≠ id)
        marked := id :: s.marked } where
  lawful := h.lawful
  unborn := h.unborn
  faults := h.faults
  loanMade := h.loanMade
  markedMade id' hid' := by
    rcases List.mem_cons.mp hid' with rfl | hold
    · exact h.loanMade _ f hloan
    · exact h.markedMade id' hold
  slotted := h.slotted
  pending id' hid' := h.pending id' (List.mem_filter.mp hid').1
  saved id' hid' hno := by
    by_cases heq : id' = id
    · subst heq
      -- the page is dirty in the cache with the node last written
      refine ⟨h.slotted id' (h.loanMade id' f hloan), .inl ⟨f, ?_⟩⟩
      show (s.pool.line id').cached = _
      rw [line_of_lookup (h.lawful.loans id' f hloan) hnode, hbare, hdirty]
    · refine h.saved id' ((List.mem_cons.mp hid').resolve_left heq) fun hpending => hno ?_
      exact List.mem_filter.mpr ⟨hpending, by simpa using heq⟩
  young id' hid' hunmarked hno := by
    obtain ⟨heq, hunmarked'⟩ := not_or.mp (fun hor => hunmarked (List.mem_cons.mpr hor))
    refine h.young id' hid' hunmarked' fun hpending => hno ?_
    exact List.mem_filter.mpr ⟨hpending, by simpa using heq⟩

/-- Writing a dirty node into the frame of a loan settles its page at once. -/
theorem Remembers.overwrite [WalFlusher φ] (h : Remembers Young s) {id : PageId} {f : Frame}
    {old node : BTreeNode} (hloan : (id, f) ∈ s.loans) (hold : s.pool.frames[f]? = some old)
    (hs : node.IsSlotted) (hdirty : node.isDirty = true) :
    Remembers Young
      { s with
        pool := s.pool.withNode f node
        last := Function.update s.last id node.bare
        pending := s.pending.filter (· ≠ id)
        marked := id :: s.marked } := by
  have hlast : node.bare = Function.update s.last id node.bare id := by
    rw [Function.update_self]
  have hsettle := (h.write hloan hold hs).settle hloan (frames_withNode_self hold) hdirty hlast
  have hfilter : (id :: s.pending).filter (· ≠ id) = s.pending.filter (· ≠ id) :=
    List.filter_cons_of_neg (by simp)
  rw [← hfilter]
  exact hsettle

/-- The order in which pages were changed and marked makes no difference. -/
theorem Remembers.congr (h : Remembers Young s) (hlending : s'.toLending = s.toLending)
    (hlast : ∀ id, s'.last id = s.last id) (hpending : ∀ id, id ∈ s'.pending ↔ id ∈ s.pending)
    (hmarked : ∀ id, id ∈ s'.marked ↔ id ∈ s.marked) : Remembers Young s' := by
  obtain ⟨lending, last, pending, marked⟩ := s'
  -- the two lists are only asked for their members
  obtain rfl : lending = s.toLending := hlending
  obtain rfl : last = s.last := funext hlast
  exact
    { lawful := h.lawful
      unborn := h.unborn
      faults := h.faults
      loanMade := h.loanMade
      markedMade := fun id hid => h.markedMade id ((hmarked id).mp hid)
      slotted := h.slotted
      pending := fun id hid => h.pending id ((hpending id).mp hid)
      saved := fun id hid hno =>
        h.saved id ((hmarked id).mp hid) fun hp => hno ((hpending id).mpr hp)
      young := fun id hid hunmarked hno =>
        h.young id hid (fun hm => hunmarked ((hmarked id).mpr hm))
          fun hp => hno ((hpending id).mpr hp) }

/-! ### The steps -/

section Flusher

variable [WalFlusher φ]

theorem remember_of_notMem {c : PoolCall} {r : Except DbError (Option (PageId × Frame))}
    {last : PageId → BTreeNode} {id : PageId} (hid : id ∉ c.makes r) :
    c.remember r last id = last id := by
  -- only `newPage` is remembered, and it makes the page it hands out
  cases c with
  | newPage isLeaf =>
    change id ∉ (handed r).map Prod.fst at hid
    unfold PoolCall.remember
    cases hr : handed r with
    | nil => rfl
    | cons loan loans =>
      have hne : id ≠ loan.1 := by
        rintro rfl
        rw [hr] at hid
        exact hid (List.mem_cons_self ..)
      exact Function.update_of_ne hne _ _
  | fetchPage id' => rfl
  | flushPage id' => rfl
  | flushAllPages order => rfl

/-- A page that was there before is not one that was made now. -/
theorem Remembers.remember_of_made (h : Remembers Young s) {c : PoolCall}
    {r : Except DbError (Option (PageId × Frame))} {p' : BufferPool φ} {id : PageId}
    (hid : id ∈ s.made) (hrun : c.run s.pool = some (r, p')) :
    c.remember r s.last id = s.last id := by
  refine remember_of_notMem fun hnew => ?_
  obtain ⟨-, -, -, -, hoffset, -⟩ :=
    PoolCall.makes_new h.lawful.wf h.lawful.fresh h.unborn hrun hnew
  exact (h.lawful.made id hid).ne_new hoffset rfl

/-- A call keeps what the pool and its file have of every page. -/
theorem Remembers.call (h : Remembers Young s) (hages : Ages Allowed Young) {c : PoolCall}
    {r : Except DbError (Option (PageId × Frame))} {p' : BufferPool φ}
    (hknown : ∀ id, c = .fetchPage id → id ∈ s.made)
    (hallowed : ∀ id, c = .fetchPage id → Allowed s id) (hrun : c.run s.pool = some (r, p')) :
    Remembers Young
      { toLending := s.toLending.called c r p'
        last := c.remember r s.last
        pending := s.pending
        marked := s.marked } := by
  have hw := h.lawful.wf
  have hfresh := h.lawful.fresh
  have halloc : ∀ id, c = .fetchPage id → Allocated s.pool id := fun id hc =>
    h.lawful.made id (hknown id hc)
  have hkind := (PoolCall.client halloc hrun).kind hw hfresh
  have hlaw := h.lawful.call hknown hrun
  have hold : ∀ id ∈ s.made, c.remember r s.last id = s.last id := fun id hid =>
    h.remember_of_made hid hrun
  have hpendingMade : ∀ id ∈ s.pending, id ∈ s.made := by
    intro id hid
    obtain ⟨f, -, hloan, -⟩ := h.pending id hid
    exact h.loanMade id f hloan
  exact
    { lawful := hlaw
      unborn := hkind.unborn h.unborn
      faults := hkind.faults h.faults
      loanMade := fun id f hloan => by
        rcases List.mem_append.mp hloan with hnew | hbefore
        · rcases PoolCall.handed_cases hrun hnew with hfetch | hmade
          · exact List.mem_append_right _ (hknown id hfetch)
          · exact List.mem_append_left _ hmade
        · exact List.mem_append_right _ (h.loanMade id f hbefore)
      markedMade := fun id hid => List.mem_append_right _ (h.markedMade id hid)
      slotted := fun id hid => by
        show (c.remember r s.last id).IsSlotted
        rcases List.mem_append.mp hid with hnew | hbefore
        · obtain ⟨isLeaf, f, rfl, hhanded, -⟩ :=
            PoolCall.makes_new hw hfresh h.unborn hrun hnew
          rw [PoolCall.remember, hhanded]
          show (Function.update s.last id _ id).IsSlotted
          rw [Function.update_self]
          exact BTreeNode.isSlotted_newEmpty id isLeaf
        · rw [hold id hbefore]
          exact h.slotted id hbefore
      pending := fun id hid => by
        obtain ⟨f, node, hloan, hnode, hbare⟩ := h.pending id hid
        have hlook := h.lawful.loans id f hloan
        have hcached : Resident f node.bare node.isDirty (s.pool.line id) :=
          ⟨node.isDirty, congrArg Line.cached (line_of_lookup hlook hnode), fun hd => hd⟩
        -- the frame is held, so the call leaves the node in it
        obtain ⟨d, hafter, -⟩ := Resident.serves (h.lawful.mem_held hloan)
          (hkind.served id (h.lawful.made id (hpendingMade id hid))) hcached
        have hloan' : (id, f) ∈ handed r ++ s.loans := List.mem_append_right _ hloan
        have hlook' : p'.pageTable.lookup id = some f := hlaw.loans id f hloan'
        obtain ⟨node', hnode'⟩ := hkind.wf.node hlook'
        rw [line_of_lookup hlook' hnode', Option.some.injEq, Prod.mk.injEq, Prod.mk.injEq] at hafter
        refine ⟨f, node', hloan', hnode', ?_⟩
        show node'.bare = c.remember r s.last id
        rw [hold id (hpendingMade id hid), hafter.2.1, hbare]
      saved := fun id hid hno => by
        have hmade := h.markedMade id hid
        show p'.Has id (c.remember r s.last id)
        rw [hold id hmade]
        exact (hkind.served id (h.lawful.made id hmade)).has h.faults (h.saved id hid hno)
      young := fun id hid hunmarked hno => by
        show Young (c.remember r s.last id) (p'.line id) ∧
          ∃ isLeaf, c.remember r s.last id = BTreeNode.newEmpty id isLeaf
        rcases List.mem_append.mp hid with hnew | hbefore
        · obtain ⟨isLeaf, f, rfl, hhanded, -, hblank, hcached⟩ :=
            PoolCall.makes_new hw hfresh h.unborn hrun hnew
          have hlast : (PoolCall.newPage isLeaf).remember r s.last id =
              BTreeNode.newEmpty id isLeaf := by
            rw [PoolCall.remember, hhanded]
            exact Function.update_self ..
          rw [hlast]
          exact ⟨hages.born hblank hcached, isLeaf, rfl⟩
        · rw [hold id hbefore]
          obtain ⟨hyoung, hempty⟩ := h.young id hbefore hunmarked hno
          refine ⟨?_, hempty⟩
          have hid' := h.lawful.made id hbefore
          rcases PoolCall.moves hw hfresh halloc hrun hid' with ⟨f, hc, hfetched⟩ | hmoves
          · exact hages.fetched (hallowed id hc) hid' hunmarked hfetched hyoung
          · exact hages.moves hmoves hyoung }

/-- **The step lemma.** -/
theorem Remembers.step (h : Remembers Young s) (hages : Ages Allowed Young)
    (hstep : Works Allowed s s') : Remembers Young s' := by
  cases hstep with
  | call hknown hallowed hrun => exact h.call hages hknown hallowed hrun
  | @change id f leaf leaf' op hloan hleaf hop =>
    have hs := (h.leaf hages hloan hleaf).2
    have hs' : (BTreeNode.leaf leaf').IsSlotted := (LeafOp.keeps_call op).slotted hs hop
    exact h.write hloan hleaf hs'
  | @refuse id f leaf leaf' op e hloan hleaf hop =>
    -- a refused call leaves the leaf as it was
    have hs := (h.leaf hages hloan hleaf).2
    obtain rfl := (LeafOp.keeps_call op).unchanged hs hop
    have hsame : { s with pool := s.pool.withNode f (.leaf leaf') } = s := by
      rw [withNode_self hleaf]
    rw [hsame]
    exact h
  | @split id id' f g a b a' b' r hloan hloan' hne hleaf hleaf' hop =>
    have hs := (h.leaf hages hloan hleaf).2
    have hs' := (h.leaf hages hloan' hleaf').2
    obtain ⟨⟨hleft, -⟩, hright, -⟩ := hs.split_keeps hs' hop
    have hleftNode : (BTreeNode.leaf a').IsSlotted := hleft
    have hrightNode : (BTreeNode.leaf b').IsSlotted := hright
    have hwrite := h.write hloan hleaf hleftNode
    have hleaf'' : (s.pool.withNode f (.leaf a')).frames[g]? = some (.leaf b) := by
      rw [frames_withNode_of_ne hne]
      exact hleaf'
    exact hwrite.write hloan' hleaf'' hrightNode
  | @mark id f node hloan hnode lsn =>
    have hs : node.IsSlotted := by
      rcases h.content hages hloan hnode with hlast | hzero
      · refine BTreeNode.IsSlotted.congr (b := node) ?_ (h.slotted id (h.loanMade id f hloan))
        rw [← hlast, BTreeNode.bare_bare]
      · refine BTreeNode.IsSlotted.congr (a := zeroNode) (b := node) ?_ (List.Perm.refl _)
        rw [hzero]
        rfl
    exact h.overwrite hloan hnode (hs.markDirty lsn) (BTreeNode.isDirty_markDirty lsn node)
  | @clone id f hloan =>
    exact
      { lawful := h.lawful.step (.clone hloan)
        unborn := h.unborn
        faults := h.faults
        loanMade := fun id' f' hloan' => by
          rcases List.mem_cons.mp hloan' with heq | hbefore
          · cases heq
            exact h.loanMade id f hloan
          · exact h.loanMade id' f' hbefore
        markedMade := h.markedMade
        slotted := h.slotted
        pending := fun id' hid' => by
          obtain ⟨f', node, hloan', hrest⟩ := h.pending id' hid'
          exact ⟨f', node, List.mem_cons_of_mem _ hloan', hrest⟩
        saved := h.saved
        young := h.young }
  | @drop id f hloan hdone =>
    exact
      { lawful := h.lawful.step (.drop hloan)
        unborn := h.unborn
        faults := h.faults
        loanMade := fun id' f' hloan' => h.loanMade id' f' (List.mem_of_mem_erase hloan')
        markedMade := h.markedMade
        slotted := h.slotted
        pending := fun id' hid' => by
          obtain ⟨f', node, hloan', hrest⟩ := h.pending id' hid'
          refine ⟨f', node, ?_, hrest⟩
          show (id', f') ∈ s.loans.erase (id, f)
          by_cases heq : (id', f') = (id, f)
          · -- another clone of the frame is left
            cases heq
            exact hdone.resolve_left fun hno => hno hid'
          · exact (List.mem_erase_of_ne heq).mpr hloan'
        saved := h.saved
        young := h.young }
  | relog w =>
    exact
      { lawful := h.lawful.step (.relog w)
        unborn := h.unborn
        faults := h.faults
        loanMade := h.loanMade
        markedMade := h.markedMade
        slotted := h.slotted
        pending := h.pending
        saved := h.saved
        young := h.young }

theorem Works.mono {Allowed' : Session φ → PageId → Prop}
    (hsub : ∀ s id, Allowed s id → Allowed' s id) (h : Works Allowed s s') :
    Works Allowed' s s' := by
  cases h with
  | call hknown hallowed hrun => exact .call hknown (fun id hc => hsub s id (hallowed id hc)) hrun
  | change hloan hleaf hop => exact .change hloan hleaf hop
  | refuse hloan hleaf hop => exact .refuse hloan hleaf hop
  | split hloan hloan' hne hleaf hleaf' hop => exact .split hloan hloan' hne hleaf hleaf' hop
  | mark hloan hnode lsn => exact .mark hloan hnode lsn
  | clone hloan => exact .clone hloan
  | drop hloan hdone => exact .drop hloan hdone
  | relog w => exact .relog w

/-- A run that fetches fewer pages is one that may fetch more. -/
theorem Reached.mono {Allowed' : Session φ → PageId → Prop} {capacity : ℕ}
    (hsub : ∀ s id, Allowed s id → Allowed' s id) (h : Reached Allowed capacity s) :
    Reached Allowed' capacity s := by
  induction h with
  | start w => exact .start w
  | step _ hstep ih => exact ih.step (hstep.mono hsub)

/-- **The run lemma.** -/
theorem Reached.remembers {capacity : ℕ} (hages : Ages Allowed Young)
    (h : Reached Allowed capacity s) : Remembers Young s := by
  induction h with
  | start w => exact .start capacity w
  | step _ hstep ih => exact ih.step hages hstep

end Flusher

end Invariant

/-- A page that was never marked, and may be lost and found as zeros. -/
theorem ages_unwritten (Allowed : Session φ → PageId → Prop) : Ages Allowed Unwritten where
  born hblank hcached := by
    refine ⟨hblank, fun f' c' d heq => ?_⟩
    rw [hcached] at heq
    cases heq
    exact ⟨rfl, .inl rfl⟩
  moves h := Unwritten.serves h.serves
  fetched _ halloc _ hfetched := Unwritten.serves (hfetched.serves halloc.aligned halloc.ne_zero)
  copy h hcached := by
    obtain ⟨-, hmade | hstored⟩ := h.2 _ _ _ hcached
    · exact .inl hmade
    · -- what is in the file in a place that was never written is zeros
      rcases line_stored_of_blank h.1 with hnone | hzero
      · rw [hnone] at hstored
        cases hstored
      · rw [hzero] at hstored
        exact .inr (Option.some.inj hstored).symm

end Session

end SmolDb
