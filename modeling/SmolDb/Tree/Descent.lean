import SmolDb.Pool.Paging
import SmolDb.Tree.Routes

/-!
# The way down

A lookup fetches the pages of one path of the tree, and each fetch may evict a page that the path
still needs. A page that is in the file, or is dirty in the cache, comes back. A page that
`new_page` made and nobody marked does not: its place in the file was never written, and is read as
a routing node to the header of the file, or not at all.

Which page is evicted depends on the order in which the pages were used (`Listed.fetched`). So it is
known beforehand whether every page of the path lasts until the lookup gets there (`Tree.Lasts`),
and this is when the lookup gives the right answer (`findRecord_correct_iff`).
-/

namespace SmolDb

open WriteBack

namespace BufferPool

variable {φ : Type} [WalFlusher φ] {p p' q : BufferPool φ} {id id' : PageId} {c : BTreeNode}
  {l : List PageId}

/-! ### Pages that were never written -/

omit [WalFlusher φ] in
theorem fleeting_of_extended (h : Fleeting c (p.line id))
    (hext : Extended (p.line id) (p'.line id)) : Fleeting c (p'.line id) := by
  refine ⟨hext.blank h.1, ?_⟩
  rw [hext.cached]
  exact h.2

/-- A page that was never written has no dirty copy, so a flush writes another one. -/
theorem fleeting_of_flush (hw : Wf p) (ha : id.Aligned) (h : Fleeting c (p.line id))
    {q : LruReplacer} {r : Except DbError Unit}
    (hrun : flushPage id' { p with replacer := q } = some (r, p')) :
    Fleeting c (p'.line id) := by
  have hother : ∀ {f node}, p.pageTable.lookup id' = some f → p.frames[f]? = some node →
      node.isDirty = true → id ≠ id' := by
    rintro f node hl hf hdirty rfl
    have hclean := (h.2 _ _ _ (congrArg Line.cached (line_of_lookup hl hf))).2
    rw [hclean] at hdirty
    cases hdirty
  cases flushPage_outcome hrun with
  | skipped => exact h
  | @failed f node e w d data hl hf hdirty _ _ hlen hfile =>
    exact fleeting_of_extended h (extended_of_write_page (n := node) hw hl ha
      (hother hl hf hdirty) hlen hfile rfl (.inl rfl))
  | @written f node w d page hl hf hdirty _ _ _ hfile =>
    exact fleeting_of_extended h (extended_of_write_page hw hl ha (hother hl hf hdirty)
      (Nat.le_of_eq page.size) hfile rfl (.inr rfl))

theorem fleeting_of_makeRoom (hw : Wf p) (ha : id.Aligned) (h : Fleeting c (p.line id))
    {r : Except DbError Unit} (hrun : makeRoom p = some (r, p')) : Fleeting c (p'.line id) := by
  rw [makeRoom, Exec.bind_of_ok (Exec.get_apply p)] at hrun
  split at hrun
  · cases evictPage_outcome hrun with
    | pinned => exact h
    | failed _ hflush => exact fleeting_of_flush hw ha h hflush
    | @evicted victim q p₁ _ hflush =>
      have hkept := fleeting_of_flush hw ha h hflush
      refine ⟨hkept.1, fun f c' d hcached => ?_⟩
      -- the page itself may be the one that is taken out of the table
      by_cases hid : id = victim
      · have hnone : (p₁.pageTable.erase victim).lookup id = none := hid ▸ AList.lookup_erase ..
        rw [line_of_not_cached (p := { p₁ with pageTable := p₁.pageTable.erase victim }) hnone]
          at hcached
        cases hcached
      · have hsame : (p₁.pageTable.erase victim).lookup id = p₁.pageTable.lookup id :=
          AList.lookup_erase_ne hid
        simp only [line, hsame] at hcached
        exact hkept.2 f c' d hcached
  · cases hrun
    exact h

/-- Fetching another page leaves it unwritten. -/
theorem fleeting_of_fetch (hw : Wf p) (ha : id.Aligned) (hne : id ≠ id')
    (h : Fleeting c (p.line id)) {f : Frame} (hrun : fetchPage id' p = some (.ok f, p')) :
    Fleeting c (p'.line id) := by
  generalize hr : Except.ok f = r at hrun
  cases fetchPage_outcome hrun with
  | hit => exact h
  | full => cases hr
  | unread => cases hr
  | corrupt => cases hr
  | @loaded p₁ d page node q hl hroom hread hdecode hrecord =>
    obtain ⟨hw₁, -, -⟩ := hw.makeRoom hroom
    obtain ⟨hfile, -, -, -⟩ := readPage_outcome hread
    have hw₂ : Wf { p₁ with diskManager := d } :=
      ⟨hw₁.replacer, hw₁.bounded, hw₁.framed, hw₁.inj, hw₁.held, hw₁.aligned⟩
    rw [hw₂.line_installed_of_ne q hne]
    have hline : BufferPool.line { p₁ with diskManager := d } id = p₁.line id := by
      simp only [line, hfile]
    rw [hline]
    exact fleeting_of_makeRoom hw ha h hroom

/-- **A page that was lost** is not found in the file, or is read as a page of zeros. -/
theorem fetchPage_lost (h : Serviceable p) (ha : id.Aligned)
    (hl : p.pageTable.lookup id = none) (hfleeting : Fleeting c (p.line id)) :
    (∃ p', fetchPage id p = some (.error (.io .unexpectedEof), p')) ∨
      ∃ f p', fetchPage id p = some (.ok f, p') ∧ Ready p' ∧ p'.held = [f] ∧
        p'.frames[f]? = some zeroNode ∧ Fleeting zeroNode.bare (p'.line id) := by
  obtain ⟨p₁, hroom, hr₁⟩ := h.makeRoom
  have hblank : (p₁.line id).blank := (fleeting_of_makeRoom h.wf ha hfleeting hroom).1
  by_cases hlen : id.val.toNat + pageSize ≤ p₁.diskManager.file.len
  · obtain ⟨q, hrun, hready, hheld⟩ := h.toReady.fetchPage_of_read hr₁ hl hroom ha
      (DataFile.Blank.readAt hblank hlen) DataFile.decode_zero
    rw [h.unpinned] at hheld
    refine .inr ⟨_, _, hrun, hready, hheld, ?_, ?_⟩
    · show (p₁.frames ++ [zeroNode])[p₁.frames.length]? = some zeroNode
      simp
    · rw [line_installed]
      refine ⟨hblank, fun f c' d hcached => ?_⟩
      cases hcached
      exact ⟨rfl, rfl⟩
  · left
    have hread : disk (DiskManager.readPage id) p₁ = some (.error (.io .unexpectedEof), p₁) :=
      Exec.zoom_of_some (readPage_eof hr₁.noFaults (Nat.lt_of_not_le hlen))
    unfold BufferPool.fetchPage
    rw [Exec.bind_of_ok (Exec.get_apply p), hl]
    dsimp only
    rw [Exec.bind_of_ok hroom, Exec.bind_of_error hread]
    exact ⟨p₁, rfl⟩

/-! ### On the way -/

/-- A pool `q` in the middle of a lookup that began with `p`; `l` lists the pages by their last
use. -/
structure Underway (p q : BufferPool φ) (l : List PageId) : Prop where
  serviceable : Serviceable q
  capacity : q.capacity = p.capacity
  listed : Listed q (l.take q.capacity)
  has : ∀ (id : PageId) c, id.Aligned → id.val ≠ 0 → p.Has id c → q.Has id c
  copied : ∀ (id : PageId) c, id.Aligned → id.val ≠ 0 → (p.line id).shows = some c →
    Copied c (q.line id)
  fleeting : ∀ (id : PageId) c, id.Aligned → (∀ c', (p.line id).shows = some c' → c' = c) →
    Fleeting c (p.line id) → Fleeting c (q.line id)

/-- The page comes back when it is read, or is among the pages used last. -/
def Lasting (p : BufferPool φ) (l : List PageId) (id : PageId) (c : BTreeNode) : Prop :=
  p.Has id c ∨ id ∈ l.take p.capacity

theorem Underway.start (hp : Serviceable p) (hl : Listed p l) : Underway p p l where
  serviceable := hp
  capacity := rfl
  listed := by
    rw [List.take_of_length_le hl.length_le]
    exact hl
  has _ _ _ _ h := h
  copied _ _ _ _ h := Line.copied_of_shows h
  fleeting _ _ _ _ h := h

theorem Underway.cached (h : Underway p q l) (hin : id ∈ l.take p.capacity) :
    ∃ f, q.pageTable.lookup id = some f := by
  rw [← h.capacity] at hin
  exact AList.exists_lookup ((h.listed.mem_iff id).mp hin)

/-- A page that lasts is still shown. -/
theorem Underway.shows (h : Underway p q l) (ha : id.Aligned) (hne : id.val ≠ 0)
    (hc : (p.line id).shows = some c) (hlast : p.Lasting l id c) :
    (q.line id).shows = some c := by
  obtain hhas | hin := hlast
  · exact Holds.shows (h.has id c ha hne hhas)
  · obtain ⟨f, hl⟩ := h.cached hin
    obtain ⟨node, hf⟩ := h.serviceable.wf.node hl
    refine (h.copied id c ha hne hc).shows ?_
    rw [line_of_lookup hl hf]
    exact Option.some_ne_none _

/-- So a fetch of it succeeds. -/
theorem Underway.fetchPage (h : Underway p q l) (ha : id.Aligned) (hne : id.val ≠ 0)
    (hlast : p.Lasting l id c) :
    ∃ f q', BufferPool.fetchPage id q = some (.ok f, q') ∧ Ready q' ∧ q'.held = [f] := by
  obtain hhas | hin := hlast
  · exact h.serviceable.fetchPage ha hne (h.has id c ha hne hhas)
  · obtain ⟨f, hl⟩ := h.cached hin
    obtain ⟨q', hrun, hready, hheld, -⟩ := h.serviceable.fetchPage_hit hl
    exact ⟨f, q', hrun, hready, hheld⟩

/-- **A fetch of a page that lasts** leads on. -/
theorem Underway.fetched (h : Underway p q l) (ha : id.Aligned) (hne : id.val ≠ 0)
    (hc : (p.line id).shows = some c) {f : Frame} {node : BTreeNode} {q' : BufferPool φ}
    (hrun : BufferPool.fetchPage id q = some (.ok f, q')) (hready : Ready q')
    (hheld : q'.held = [f]) (hf : q'.frames[f]? = some node) (hnode : node.bare = c) :
    Underway p { q' with held := q'.held.erase f } (Stack.touch l id) := by
  obtain ⟨-, hfetched⟩ := (h.serviceable.wf.fetchPage hrun).2 f rfl ha
  have hcapacity : q'.capacity = q.capacity := hfetched.grown.capacity
  have hcopy := congrArg Line.cached (line_of_lookup hfetched.lookup hf)
  refine ⟨hready.drop hheld, hcapacity.trans h.capacity, ?_, fun id' c' ha' hne' hhas => ?_,
    fun id' c' ha' hne' hc' => ?_, fun id' c' ha' hc' hfleeting => ?_⟩
  · have hlisted := h.listed.fetched h.serviceable.wf h.serviceable.unpinned hrun
    rw [← hcapacity] at hlisted
    exact hlisted.congr rfl rfl rfl
  · have hkept := (h.has id' c' ha' hne' hhas).fetched h.serviceable.noFaults ha' hne' hfetched
    exact hkept
  · show Copied c' (q'.line id')
    by_cases hid : id' = id
    · subst hid
      rw [hc, Option.some.injEq] at hc'
      intro g c'' d hcached
      rw [hcopy] at hcached
      cases hcached
      exact hnode.trans hc'
    · exact (h.copied id' c' ha' hne' hc').moves (hfetched.moves id' ha' hne' hid)
  · show Fleeting c' (q'.line id')
    have hkept := h.fleeting id' c' ha' hc' hfleeting
    by_cases hid : id' = id
    · subst hid
      obtain rfl : c = c' := hc' c hc
      cases hl : q.pageTable.lookup id' with
      | some g =>
        rw [hfetched.hit g hl]
        exact hkept
      | none =>
        -- it is read from where nothing was written
        obtain ⟨v, c', hm, -, hv⟩ := hfetched.miss hl ha hne
        rw [hv, Line.loaded, Option.some.injEq, Prod.mk.injEq, Prod.mk.injEq] at hcopy
        rw [hv]
        refine ⟨(hkept.moves hm).1, fun g c'' d hcached => ?_⟩
        cases hcached
        exact ⟨hcopy.2.1.trans hnode, rfl⟩
    · exact fleeting_of_fetch h.serviceable.wf ha' hid hkept hrun

/-- **A visit to a page that lasts** sees its content. -/
theorem Underway.visit (h : Underway p q l) (ha : id.Aligned) (hne : id.val ≠ 0)
    (hc : (p.line id).shows = some c) (hlast : p.Lasting l id c) {rowId : UInt64}
    {v : BpTree.Visit} (hv : ∀ q : BufferPool φ, BpTree.visitNode rowId c q = some (.ok v, q)) :
    ∃ q', BpTree.visit id rowId q = some (.ok v, q') ∧ Underway p q' (Stack.touch l id) := by
  obtain ⟨f, q', hrun, hready, hheld⟩ := h.fetchPage ha hne hlast
  obtain ⟨hw', hfetched⟩ := (h.serviceable.wf.fetchPage hrun).2 f rfl ha
  obtain ⟨node, hf⟩ := hw'.node hfetched.lookup
  have hnode := hfetched.shows ha hne hf (h.shows ha hne hc hlast)
  have hbody : BpTree.visitNode rowId node q' = some (.ok v, q') := by
    rw [← BpTree.visitNode_bare, hnode, hv]
  exact ⟨_, BpTree.visit_of_fetch hrun hf hbody, h.fetched ha hne hc hrun hready hheld hf hnode⟩

/-- **A visit to a page that was lost** fails, or leads to the header of the file. -/
theorem Serviceable.visit_lost (h : Serviceable p) (ha : id.Aligned)
    (hl : p.pageTable.lookup id = none) (hfleeting : Fleeting c (p.line id)) (rowId : UInt64) :
    (∃ p', BpTree.visit id rowId p = some (.error (.io .unexpectedEof), p')) ∨
      ∃ p', BpTree.visit id rowId p = some (.ok (.descend ⟨0⟩), p') ∧ Serviceable p' ∧
        Fleeting zeroNode.bare (p'.line id) ∧
        ∀ (id' : PageId) c', id'.Aligned → id' ≠ id → Fleeting c' (p.line id') →
          Fleeting c' (p'.line id') := by
  obtain ⟨p', hrun⟩ | ⟨f, p', hrun, hready, hheld, hf, hzero⟩ := fetchPage_lost h ha hl hfleeting
  · exact .inl ⟨p', Exec.bind_of_error hrun⟩
  · have hroute : (default : InternalNode).routeKey rowId = some (.ok ⟨0⟩) := rfl
    have hvisit := BpTree.visit_of_fetch hrun hf (BpTree.visitNode_of_route hroute p')
    refine .inr ⟨_, hvisit, hready.drop hheld, hzero, fun id' c' ha' hid hfleeting' => ?_⟩
    have hkept := fleeting_of_fetch h.wf ha' hid hfleeting' hrun
    exact hkept

end BufferPool

/-! ### The header of the file -/

namespace BpTree

open BufferPool

variable {φ : Type} [WalFlusher φ] {p q : BufferPool φ} {l : List PageId} {rowId : UInt64}

/-- As long as the header was never written, the walk does not come away from there. -/
theorem findRecordLoop_header (h : Serviceable p) (hzero : Fleeting zeroNode.bare (p.line ⟨0⟩))
    (fuel : ℕ) (record : Option (List UInt8)) (p' : BufferPool φ) :
    findRecordLoop rowId fuel ⟨0⟩ p ≠ some (.ok record, p') := by
  have ha : PageId.Aligned ⟨0⟩ := by decide
  induction fuel generalizing p with
  | zero => nofun
  | succ fuel ih =>
    cases hl : p.pageTable.lookup ⟨0⟩ with
    | none =>
      obtain ⟨p₁, hvisit⟩ | ⟨p₁, hvisit, h₁, hzero₁, -⟩ := h.visit_lost ha hl hzero rowId
      · unfold findRecordLoop
        rw [Exec.bind_of_error hvisit]
        nofun
      · unfold findRecordLoop
        rw [Exec.bind_of_ok hvisit]
        exact ih h₁ hzero₁
    | some f =>
      obtain ⟨p₁, hrun, hready, hheld, hframes⟩ := h.fetchPage_hit hl
      obtain ⟨node, hf⟩ := h.wf.node hl
      have hnode : node.bare = zeroNode.bare :=
        (hzero.2 _ _ _ (congrArg Line.cached (line_of_lookup hl hf))).1
      have hbody : visitNode rowId node p₁ = some (.ok (.descend ⟨0⟩), p₁) := by
        rw [← visitNode_bare, hnode]
        exact visitNode_of_route rfl p₁
      have hvisit := visit_of_fetch hrun (hframes ▸ hf) hbody
      have hsame : p₁.line ⟨0⟩ = p.line ⟨0⟩ :=
        ((h.wf.fetchPage hrun).2 f rfl ha).2.hit f hl
      unfold findRecordLoop
      rw [Exec.bind_of_ok hvisit]
      refine ih (hready.drop hheld) ?_
      rw [line_held, hsame]
      exact hzero

end BpTree

/-! ### The walk -/

namespace Tree

open BufferPool

variable {φ : Type}

/-- The pool and its file show the nodes of the tree, wherever they are. -/
def Shown (p : BufferPool φ) (t : Tree) : Prop :=
  ∀ id node, t.HasNode id node → node.IsSlotted ∧ (p.line id).shows = some node.bare

/-- Every page on the way of a row lasts until the lookup gets there; `l` lists the pages by their
last use. -/
def Lasts (p : BufferPool φ) (rowId : UInt64) : List PageId → Tree → Prop
  | l, leaf pageId node => p.Lasting l pageId (BTreeNode.leaf node).bare
  | l, internal pageId node child =>
    p.Lasting l pageId (BTreeNode.internal node).bare ∧
      (child (node.position rowId)).Lasts p rowId (Stack.touch l pageId)

/-- A lookup of the row returns, with the data exactly when a leaf of the tree holds it. -/
def Finds [WalFlusher φ] (p : BufferPool φ) (rowId : UInt64) (t : Tree) : Prop :=
  ∃ rounds, ∀ fuel, rounds ≤ fuel → ∃ record p',
    (BpTree.mk t.pageId).findRecord fuel rowId p = some (.ok record, p') ∧
      ∀ data, record = some data ↔ t.Holds rowId data

variable {p : BufferPool φ} {t : Tree} {rowId : UInt64}

theorem Stored.shown (h : t.Stored p) : t.Shown p := by
  intro id node hnode
  have hhas := stored_iff.mp h id node hnode
  exact ⟨(BTreeNode.isSlotted_bare node).mp hhas.slotted, Holds.shows hhas⟩

theorem Stored.lasts (h : t.Stored p) (l : List PageId) : t.Lasts p rowId l := by
  induction t generalizing l with
  | leaf pageId node => exact .inl h
  | internal pageId node child ih => exact ⟨.inl h.1, ih _ (h.2 _) _⟩

end Tree

namespace BpTree

open BufferPool

variable {φ : Type} [WalFlusher φ] {p q : BufferPool φ} {l : List PageId} {rowId : UInt64}

/-- **The walk down a path that lasts** visits the nodes of the tree. -/
theorem walk_lasts {t : Tree} (ht : t.WellFormed) (hshown : t.Shown p) (h : Underway p q l)
    (hlasts : t.Lasts p rowId l) {fuel : ℕ} (hfuel : t.depthAt rowId ≤ fuel) :
    ∃ record q', findRecordLoop rowId fuel t.pageId q = some (.ok record, q') ∧
      ∀ data, record = some data ↔ t.Holds rowId data := by
  -- by induction on the tree, for any pool that is on the way
  induction t generalizing fuel q l with
  | leaf pageId node =>
    obtain ⟨fuel, rfl⟩ : ∃ n, fuel = n + 1 := ⟨fuel - 1, (Nat.succ_pred_eq_of_pos hfuel).symm⟩
    obtain ⟨hslotted, hc⟩ := hshown pageId (.leaf node) ⟨rfl, rfl⟩
    have hleaf : node.IsSlotted := hslotted
    obtain ⟨record, hget, hiff⟩ := hleaf.getRecord_sorted ht.2.2 rowId
    obtain ⟨q', hvisit, -⟩ := h.visit ht.1 ht.2.1 hc hlasts fun q => by
      rw [visitNode_bare]
      exact visitNode_of_record hget q
    exact ⟨record, q', (Exec.bind_of_ok hvisit).trans rfl, hiff⟩
  | internal pageId node child ih =>
    obtain ⟨fuel, rfl⟩ : ∃ n, fuel = n + 1 :=
      ⟨fuel - 1, (Nat.succ_pred_eq_of_pos (Nat.lt_of_lt_of_le (Nat.succ_pos _) hfuel)).symm⟩
    obtain ⟨hslotted, hc⟩ := hshown pageId (.internal node) (.inl ⟨rfl, rfl⟩)
    have hinner : node.IsSlotted := hslotted
    have hroute := hinner.routeKey_position ht.2.2.1 rowId
    obtain ⟨q', hvisit, h'⟩ := h.visit ht.1 ht.2.1 hc hlasts.1 fun q => by
      rw [visitNode_bare]
      exact visitNode_of_route hroute q
    -- the walk goes on at the root of the child that can hold the row
    obtain ⟨record, q'', hrest, hiff⟩ := ih (node.position rowId) (ht.2.2.2.2.2 _)
      (fun id n hn => hshown id n (.inr ⟨_, hn⟩)) h' hlasts.2 (Nat.le_of_succ_le_succ hfuel)
    rw [ht.2.2.2.1 (node.position rowId)] at hrest
    refine ⟨record, q'', (Exec.bind_of_ok hvisit).trans hrest, fun data => ?_⟩
    obtain ⟨hlow, hhigh⟩ := ht.2.2.1.position_bounds rowId
    rw [hiff]
    exact (ht.holds_child hlow hhigh data).symm

/-- The walk goes on from the page with `q`, in a lookup that began with `p`: it fails at the end of
the file, or comes to the header. -/
def Strays (p q : BufferPool φ) (rowId : UInt64) (id : PageId) : Prop :=
  ∃ n q', (∀ fuel, findRecordLoop rowId (fuel + n + 1) id q =
      some (.error (.io .unexpectedEof), q')) ∨
    (∀ fuel, findRecordLoop rowId (fuel + n + 1) id q = findRecordLoop rowId fuel ⟨0⟩ q') ∧
      Serviceable q' ∧
      (Fleeting zeroNode.bare (p.line ⟨0⟩) → Fleeting zeroNode.bare (q'.line ⟨0⟩))

theorem Strays.visit {q' : BufferPool φ} {id next : PageId}
    (hvisit : BpTree.visit id rowId q = some (.ok (.descend next), q'))
    (h : Strays p q' rowId next) : Strays p q rowId id := by
  obtain ⟨n, q'', hend⟩ := h
  refine ⟨n + 1, q'', hend.imp (fun herror fuel => ?_) (And.imp_left fun hheader fuel => ?_)⟩
  · exact (Exec.bind_of_ok hvisit).trans (herror fuel)
  · exact (Exec.bind_of_ok hvisit).trans (hheader fuel)

/-- A lookup that needs a lost page strays. -/
theorem strays_of_lost {id : PageId} {c : BTreeNode} (h : Underway p q l) (hp : Orderly p)
    (ha : id.Aligned) (hne : id.val ≠ 0) (hc : (p.line id).shows = some c)
    (hlost : ¬ p.Lasting l id c) : Strays p q rowId id := by
  obtain ⟨hhas, hin⟩ := not_or.mp hlost
  have hl : q.pageTable.lookup id = none := by
    rw [← h.capacity, h.listed.mem_iff] at hin
    exact AList.lookup_eq_none.mpr hin
  have hsole : ∀ c', (p.line id).shows = some c' → c' = c := fun c' hc' =>
    Option.some.inj (hc'.symm.trans hc)
  have hfleeting := h.fleeting id c ha hsole (hp.fleeting ha hne hc hhas)
  obtain ⟨q', hvisit⟩ | ⟨q', hvisit, hq', -, hkept⟩ :=
    h.serviceable.visit_lost ha hl hfleeting rowId
  · exact ⟨0, q', .inl fun fuel => Exec.bind_of_error hvisit⟩
  · refine ⟨0, q', .inr ⟨fun fuel => Exec.bind_of_ok hvisit, hq', fun hzero => ?_⟩⟩
    have hheader : PageId.Aligned ⟨0⟩ := by decide
    refine hkept ⟨0⟩ _ hheader (fun heq => hne (heq ▸ rfl)) (h.fleeting _ _ hheader ?_ hzero)
    -- what the header shows is the page of zeros
    intro c' hc'
    unfold Line.shows at hc'
    split at hc'
    · next f c'' d hcached =>
      rw [← (hzero.2 f c'' d hcached).1]
      exact (Option.some.inj hc').symm
    · exact stored_of_blank hzero.1 hc'

/-- **The walk down a path of which a page is lost** leaves the tree. -/
theorem walk_lost {t : Tree} (ht : t.WellFormed) (hshown : t.Shown p) (hp : Orderly p)
    (h : Underway p q l) (hlost : ¬ t.Lasts p rowId l) : Strays p q rowId t.pageId := by
  induction t generalizing q l with
  | leaf pageId node =>
    obtain ⟨-, hc⟩ := hshown pageId (.leaf node) ⟨rfl, rfl⟩
    exact strays_of_lost h hp ht.1 ht.2.1 hc hlost
  | internal pageId node child ih =>
    obtain ⟨hslotted, hc⟩ := hshown pageId (.internal node) (.inl ⟨rfl, rfl⟩)
    have hinner : node.IsSlotted := hslotted
    by_cases hroot : p.Lasting l pageId (BTreeNode.internal node).bare
    · -- the first page that is lost is further down
      have hroute := hinner.routeKey_position ht.2.2.1 rowId
      obtain ⟨q', hvisit, h'⟩ := h.visit ht.1 ht.2.1 hc hroot fun q => by
        rw [visitNode_bare]
        exact visitNode_of_route hroute q
      have hrest := ih (node.position rowId) (ht.2.2.2.2.2 _)
        (fun id n hn => hshown id n (.inr ⟨_, hn⟩)) h' fun hchild => hlost ⟨hroot, hchild⟩
      rw [ht.2.2.2.1 (node.position rowId)] at hrest
      exact hrest.visit hvisit
    · exact strays_of_lost h hp ht.1 ht.2.1 hc hroot

/-- A lookup that strays does not find what the tree holds. -/
theorem Strays.not_finds {t : Tree} (h : Strays p p rowId t.pageId)
    (hzero : Fleeting zeroNode.bare (p.line ⟨0⟩)) : ¬ t.Finds p rowId := by
  rintro ⟨rounds, hfinds⟩
  obtain ⟨n, q, hend⟩ := h
  obtain ⟨record, p', hrun, -⟩ := hfinds (rounds + n + 1) (by omega)
  change findRecordLoop rowId (rounds + n + 1) t.pageId p = _ at hrun
  obtain herror | ⟨hheader, hq, hkept⟩ := hend
  · rw [herror rounds] at hrun
    cases hrun
  · rw [hheader rounds] at hrun
    exact findRecordLoop_header hq (hkept hzero) rounds record p' hrun

/-- **When tree lookup is correct.** It is when every page on its way lasts. A lookup that needs a
page that was lost fails, or goes on at the header of the file; and if this was never written
either, the lookup is correct in no other case. -/
theorem findRecord_correct_iff {t : Tree} (ht : t.WellFormed) (hp : Serviceable p)
    (hlist : Listed p l) (hshown : t.Shown p) (rowId : UInt64) :
    (t.Lasts p rowId l → t.Finds p rowId) ∧
    (Orderly p → ¬ t.Lasts p rowId l → Strays p p rowId t.pageId) ∧
    (Orderly p → Fleeting zeroNode.bare (p.line ⟨0⟩) →
      (t.Finds p rowId ↔ t.Lasts p rowId l)) := by
  have hstart : Underway p p l := .start hp hlist
  have hfinds : t.Lasts p rowId l → t.Finds p rowId := fun hlasts =>
    ⟨t.depthAt rowId, fun _ hfuel => walk_lasts ht hshown hstart hlasts hfuel⟩
  have hstrays : Orderly p → ¬ t.Lasts p rowId l → Strays p p rowId t.pageId :=
    fun horderly hlost => walk_lost ht hshown horderly hstart hlost
  refine ⟨hfinds, hstrays, fun horderly hzero => ⟨fun hfound => ?_, hfinds⟩⟩
  by_contra hlost
  exact (hstrays horderly hlost).not_finds hzero hfound

/-! ### An upper leaf that was just made -/

namespace TwoLeaves

theorem hasNode {upper : LeafNode} {id : PageId} {node : BTreeNode}
    (h : (withUpper upper).HasNode id node) :
    (id = ⟨4096⟩ ∧ node = .internal root) ∨ (id = ⟨8192⟩ ∧ node = .leaf low) ∨
      id = ⟨12288⟩ ∧ node = .leaf upper := by
  rcases h with ⟨rfl, rfl⟩ | ⟨i, hi⟩
  · exact .inl ⟨rfl, rfl⟩
  · match i with
    | ⟨0, _⟩ => exact .inr (.inl hi)
    | ⟨1, _⟩ => exact .inr (.inr hi)

def lowerDisk : DiskManager :=
  ⟨lowerFile, { FileHeader.default with nextFreeOffset := 12288 }, []⟩

/-- The tree over an upper leaf without records. -/
def grown : Tree := withUpper (LeafNode.newEmpty ⟨12288⟩)

theorem wellFormed_grown : grown.WellFormed :=
  wellFormed_withUpper (LeafNode.sorted_newEmpty _) nofun

/-- The upper leaf as `new_page` makes it: cached, clean, and not in the file. -/
structure Grown (capacity : ℕ) (p : BufferPool Empty) : Prop where
  serviceable : Serviceable p
  orderly : Orderly p
  capacity_eq : p.capacity = capacity
  listed : Listed p [⟨12288⟩]
  shown : grown.Shown p
  root : p.Has ⟨4096⟩ (BTreeNode.internal root).bare
  unsaved : ¬ p.Has ⟨12288⟩ (BTreeNode.leaf (LeafNode.newEmpty ⟨12288⟩)).bare
  header : Fleeting zeroNode.bare (p.line ⟨0⟩)

theorem exists_grown {capacity : ℕ} (hcap : 0 < capacity) :
    ∃ (f : Frame) (p₀ p : BufferPool Empty),
      newPage true (new lowerDisk capacity none) = some (.ok (⟨12288⟩, f), p₀) ∧
      dropFrame f p₀ = some (.ok (), p) ∧ Grown capacity p := by
  have hserv : Serviceable (new lowerDisk capacity (none : Option Empty)) :=
    .new rfl hcap WalFlusher.reliable_none
  have hoffset : lowerDisk.header.nextFreeOffset.toNat % pageSize = 0 ∧
      pageSize ≤ lowerDisk.header.nextFreeOffset.toNat ∧
      lowerDisk.header.nextFreeOffset.toNat + pageSize < 2 ^ 64 := by decide
  have hfresh : Fresh (new lowerDisk capacity (none : Option Empty)) :=
    ⟨hoffset.1, hoffset.2.1, fun id hid => absurd hid (AList.notMem_empty id)⟩
  obtain ⟨f, p₀, hnew, hready, hheld⟩ := hserv.newPage hfresh hoffset.2.2 true
  have hnext : (⟨lowerDisk.header.nextFreeOffset⟩ : PageId) = ⟨12288⟩ := rfl
  change newPage true (new lowerDisk capacity (none : Option Empty)) =
    some (.ok (⟨lowerDisk.header.nextFreeOffset⟩, f), p₀) at hnew
  rw [hnext] at hnew
  have hcreated := (hserv.wf.newPage hfresh hnew).2.2 _ _ rfl
  obtain ⟨hline, hother⟩ := hserv.wf.line_newPage hcap hnew
  have hheader : PageId.Aligned ⟨0⟩ := by decide
  have hblank : ∀ id : PageId, id.Aligned → id ≠ ⟨4096⟩ → id ≠ ⟨8192⟩ →
      ((new lowerDisk capacity (none : Option Empty)).line id).blank :=
    fun _ ha hroot hlow => blank_lowerFile ha hroot hlow
  have hdisk : Orderly (new lowerDisk capacity (none : Option Empty)) :=
    .new (fun id ha _ => isSlotted_lowerFile id ha) capacity none
  obtain ⟨horderly, hfleeting⟩ :=
    hdisk.newPage hfresh hcap hnew (hblank _ (by decide) (by decide) (by decide))
  -- the pages below it are those of the file
  have hhas : ∀ (id : PageId) (node : BTreeNode), id ≠ ⟨12288⟩ → node.IsSlotted →
      lowerFile.nodeAt id.val.toNat = some node.decoded → p₀.Has id node.bare := by
    intro id node hid hs hnode
    have hfile := Has.new (d := lowerDisk) hnode hs.decoded capacity (none : Option Empty)
    rw [BTreeNode.bare_decoded] at hfile
    rw [Has, hother id hid]
    exact hfile
  have hroot := hhas ⟨4096⟩ (.internal root) (by decide) slotted_root nodeAt_lowerFile.1
  have hlow := hhas ⟨8192⟩ (.leaf low) (by decide) slotted_low nodeAt_lowerFile.2
  refine ⟨f, p₀, _, hnew, rfl, hready.drop hheld, ⟨horderly.wf.drop f, horderly.slotted,
    horderly.clean⟩, ?_, ?_, ?_, hroot, ?_, ?_⟩
  · exact hcreated.grown.capacity
  · -- it is the only page that was used
    have hlisted := ((Paged.make .start hnew (BTreeNode.newEmpty ⟨12288⟩ true)).recently
      hfresh).1.listed
    rw [withNode_self hcreated.frame, List.take_of_length_le] at hlisted
    · exact hlisted
    · show 1 ≤ p₀.capacity
      rw [hcreated.grown.capacity]
      exact hcap
  · intro id node hnode
    obtain ⟨rfl, rfl⟩ | ⟨rfl, rfl⟩ | ⟨rfl, rfl⟩ := hasNode hnode
    · exact ⟨slotted_root, Holds.shows hroot⟩
    · exact ⟨slotted_low, Holds.shows hlow⟩
    · refine ⟨BTreeNode.isSlotted_newEmpty ⟨12288⟩ true, ?_⟩
      rw [line_held, hline]
      rfl
  · -- a page with a clean copy is saved in the file, where there are only zeros
    rintro ⟨-, ⟨g, hg⟩ | ⟨hstored, -⟩⟩
    · cases (hfleeting.2 _ _ _ hg).2
    · cases stored_of_blank hfleeting.1 hstored
  · rw [line_held, hother _ (by decide)]
    refine ⟨hblank _ hheader (by decide) (by decide), fun g c d hcached => ?_⟩
    rw [line_of_not_cached (AList.lookup_empty _)] at hcached
    cases hcached

end TwoLeaves

/-- With room for two pages the new leaf lasts. -/
theorem findRecord_correct_grown : ∃ (f : Frame) (p₀ p : BufferPool Empty),
    newPage true (new TwoLeaves.lowerDisk 2 none) = some (.ok (⟨12288⟩, f), p₀) ∧
      dropFrame f p₀ = some (.ok (), p) ∧ TwoLeaves.grown.Finds p 10 := by
  obtain ⟨f, p₀, p, hnew, hdrop, h⟩ := @TwoLeaves.exists_grown 2 (by decide)
  refine ⟨f, p₀, p, hnew, hdrop, ?_⟩
  refine (findRecord_correct_iff TwoLeaves.wellFormed_grown h.serviceable h.listed h.shown 10).1 ?_
  refine ⟨.inl h.root, .inr ?_⟩
  rw [h.capacity_eq]
  decide

/-- Without room for two pages the root evicts the new leaf, and the lookup does not find out that
the row is not there. -/
theorem findRecord_lost : ∃ (f : Frame) (p₀ p : BufferPool Empty) (l : List PageId),
    newPage true (new TwoLeaves.lowerDisk 1 none) = some (.ok (⟨12288⟩, f), p₀) ∧
      dropFrame f p₀ = some (.ok (), p) ∧ TwoLeaves.grown.WellFormed ∧ Serviceable p ∧
      Listed p l ∧ TwoLeaves.grown.Shown p ∧ ¬ TwoLeaves.grown.Finds p 10 := by
  obtain ⟨f, p₀, p, hnew, hdrop, h⟩ := TwoLeaves.exists_grown Nat.one_pos
  have hlost : ¬ TwoLeaves.grown.Lasts p 10 [⟨12288⟩] := by
    rintro ⟨-, hhas | hin⟩
    · exact h.unsaved hhas
    · rw [h.capacity_eq] at hin
      exact absurd hin (by decide)
  have hstrays := walk_lost TwoLeaves.wellFormed_grown h.shown h.orderly
    (.start h.serviceable h.listed) hlost
  exact ⟨f, p₀, p, _, hnew, hdrop, TwoLeaves.wellFormed_grown, h.serviceable, h.listed, h.shown,
    hstrays.not_finds h.header⟩

end BpTree

end SmolDb
