import SmolDb.Pool.Service
import SmolDb.Pool.Session

/-!
# What a fetch gives back

A client that fetches a page should not notice which pages were evicted since it last had it. The
pool keeps that promise for a page that is in the cache, and for a page that was marked dirty at
least once, because such a page is written before it gives way (`Retained`). It breaks it for a
page that was made and never marked: `new_page` caches a clean node, the eviction of a clean node
writes nothing, and a later fetch finds the end of the file or the zeros of a gap, which decode as
a routing node without entries.

So a fetch that succeeds gives back what was last seen in exactly the retained pages
(`fetchPage_last_iff`), in every run that fetches no page it has lost.
-/

namespace SmolDb

open WriteBack BufferPool

variable {φ : Type}

namespace Session

/-- The page is cached, or it was marked dirty at least once. -/
def Retained (s : Session φ) (id : PageId) : Prop := id ∈ s.pool.pageTable ∨ id ∈ s.marked

variable {s : Session φ}

/-- A page that was never marked is as it was made for as long as it is cached. -/
theorem ages_fleeting : Ages (@Retained φ) Fleeting where
  born hblank hcached := by
    refine ⟨hblank, fun f' c' d heq => ?_⟩
    rw [hcached] at heq
    cases heq
    exact ⟨rfl, rfl⟩
  moves := Fleeting.moves
  fetched hallowed _ hunmarked hfetched h := by
    have hcached := hallowed.resolve_right hunmarked
    obtain ⟨f', hl⟩ := AList.exists_lookup hcached
    rw [hfetched.hit f' hl]
    exact h
  copy h hcached := .inl (h.2 _ _ _ hcached).1

/-- **A retained page shows what was last seen of it.** -/
theorem Remembers.shows (h : Remembers Fleeting s) {id : PageId} (hmade : id ∈ s.made)
    (hretained : Retained s id) : (s.pool.line id).shows = some (s.last id) := by
  by_cases hpending : id ∈ s.pending
  · -- a client has the frame in which the change is
    obtain ⟨f, node, hloan, hnode, hbare⟩ := h.pending id hpending
    rw [line_of_lookup (h.lawful.loans id f hloan) hnode, hbare]
    rfl
  · by_cases hmarked : id ∈ s.marked
    · exact Holds.shows (h.saved id hmarked hpending)
    · obtain ⟨⟨-, hcopy⟩, -⟩ := h.young id hmade hmarked hpending
      have hcached := hretained.resolve_right hmarked
      obtain ⟨f, hl⟩ := AList.exists_lookup hcached
      obtain ⟨node, hnode⟩ := h.lawful.wf.node hl
      have hline := line_of_lookup hl hnode
      rw [hline]
      exact congrArg some (hcopy _ _ _ (congrArg Line.cached hline)).1

/-- A page that is not retained is loaded as a page of zeros, if at all. -/
theorem Remembers.loaded (h : Remembers Fleeting s) {id : PageId} (hmade : id ∈ s.made)
    (hlost : ¬ Retained s id) {f : Frame} {p' : BufferPool φ} (hfetch : Fetched s.pool p' id f) :
    (∃ isLeaf, s.last id = BTreeNode.newEmpty id isLeaf) ∧
      (p'.line id).cached = some (f, zeroNode, false) := by
  obtain ⟨hnone, hunmarked⟩ := not_or.mp hlost
  have hlookup : s.pool.pageTable.lookup id = none := AList.lookup_eq_none.mpr hnone
  have hpending : id ∉ s.pending := by
    intro hpending
    obtain ⟨f', -, hloan, -⟩ := h.pending id hpending
    rw [h.lawful.loans id f' hloan] at hlookup
    cases hlookup
  obtain ⟨⟨hblank, hcopy⟩, hempty⟩ := h.young id hmade hunmarked hpending
  have hnew : s.pool.Newborn id (s.last id) :=
    ⟨hblank, fun f' c' d hcached => ⟨(hcopy f' c' d hcached).2, .inl (hcopy f' c' d hcached).1⟩⟩
  have halloc := h.lawful.made id hmade
  exact ⟨hempty, (hnew.loaded halloc.aligned halloc.ne_zero hlookup hfetch).2⟩

/-- The page of zeros is no page that a client has made. -/
theorem zeroNode_ne_newEmpty {id : PageId} (hid : id.val ≠ 0) (isLeaf : Bool) :
    zeroNode ≠ BTreeNode.newEmpty id isLeaf := by
  intro heq
  cases isLeaf with
  | true => cases heq
  | false =>
    have hval := congrArg (fun node => node.pageId.val) (BTreeNode.internal.inj heq)
    exact hid hval.symm

section Flusher

variable [WalFlusher φ]

/-! ### One client at a time -/

/-- The pool of a session has one frame on loan and is ready otherwise. -/
structure Lent (s : Session φ) (id : PageId) (f : Frame) : Prop where
  ready : Ready s.pool
  held : s.pool.held = [f]
  loans : s.loans = [(id, f)]

/-- No frame is on loan, and the pool serves requests. -/
structure Idle (s : Session φ) : Prop where
  serviceable : Serviceable s.pool
  loans : s.loans = []

/-- The session after a clone of a frame was dropped. -/
def dropped (s : Session φ) (id : PageId) (f : Frame) : Session φ :=
  { s with
    pool := { s.pool with held := s.pool.held.erase f }
    loans := s.loans.erase (id, f) }

/-- The session after the node in a frame was marked dirty. -/
def marking (s : Session φ) (id : PageId) (f : Frame) (node : BTreeNode) (lsn : UInt64) :
    Session φ :=
  { s with
    pool := s.pool.withNode f (node.markDirty lsn)
    last := Function.update s.last id (node.markDirty lsn).bare
    pending := s.pending.filter (· ≠ id)
    marked := id :: s.marked }

variable {Allowed : Session φ → PageId → Prop} {capacity : ℕ}

theorem Lent.drop {id : PageId} {f : Frame} (h : Lent s id f)
    (hreached : Reached Allowed capacity s) (hdone : id ∉ s.pending) :
    Reached Allowed capacity (s.dropped id f) ∧ Idle (s.dropped id f) := by
  have hloan : (id, f) ∈ s.loans := h.loans ▸ List.mem_singleton_self _
  refine ⟨hreached.step (.drop hloan (.inl hdone)), h.ready.drop h.held, ?_⟩
  show s.loans.erase (id, f) = []
  rw [h.loans, List.erase_cons_head]

theorem Lent.mark {id : PageId} {f : Frame} {node : BTreeNode} (h : Lent s id f)
    (hreached : Reached Allowed capacity s) (hnode : s.pool.frames[f]? = some node)
    (hs : node.IsSlotted) (hfit : node.encodedSize ≤ pageSize) (lsn : UInt64) :
    Reached Allowed capacity (s.marking id f node lsn) ∧ Lent (s.marking id f node lsn) id f := by
  have hloan : (id, f) ∈ s.loans := h.loans ▸ List.mem_singleton_self _
  have hfit' : (node.markDirty lsn).encodedSize ≤ pageSize := by
    cases node with
    | leaf leaf => exact hfit
    | internal internal => exact hfit
  exact ⟨hreached.step (.mark hloan hnode lsn), h.ready.withNode f (hs.markDirty lsn) hfit',
    h.held, h.loans⟩

theorem Idle.newPage (h : Idle s) (hreached : Reached Retained capacity s)
    (hover : s.pool.diskManager.header.nextFreeOffset.toNat + pageSize < 2 ^ 64)
    (isLeaf : Bool) :
    ∃ (id : PageId) (f : Frame) (s' : Session φ), Reached Retained capacity s' ∧
      Lent s' id f ∧ s'.made = id :: s.made ∧ s'.marked = s.marked ∧ s'.pending = s.pending ∧
      id.val = s.pool.diskManager.header.nextFreeOffset ∧
      s'.pool.diskManager.header.nextFreeOffset.toNat = id.val.toNat + pageSize ∧
      s'.pool.frames[f]? = some (BTreeNode.newEmpty id isLeaf) ∧
      s'.pool.capacity = s.pool.capacity := by
  have hlaw := (hreached.remembers ages_fleeting).lawful
  obtain ⟨f, p', hnew, hready, hheld⟩ := h.serviceable.newPage hlaw.fresh hover isLeaf
  have hc := (hlaw.wf.newPage hlaw.fresh hnew).2.2 _ _ rfl
  have hstep : Works Retained s _ :=
    .call (c := .newPage isLeaf) nofun nofun (Exec.bind_of_ok hnew)
  -- the new page is the one loan of the session
  refine ⟨_, f, _, hreached.step hstep, ⟨hready, hheld, ?_⟩, rfl, rfl, rfl, rfl, hc.next_toNat,
    hc.frame, hc.grown.capacity⟩
  show [(_, f)] ++ s.loans = [(_, f)]
  rw [h.loans, List.append_nil]

/-- **A fetch gives back what was last seen** in exactly the pages that are cached or were marked
dirty, in every run that has fetched no others. -/
theorem fetchPage_last_iff {capacity : ℕ} (h : Reached Retained capacity s) {id : PageId}
    (hmade : id ∈ s.made) {f : Frame} {p' : BufferPool φ}
    (hfetch : fetchPage id s.pool = some (.ok f, p')) :
    ∃ node, p'.frames[f]? = some node ∧ (node.bare = s.last id ↔ Retained s id) := by
  have hrem := h.remembers ages_fleeting
  have halloc := hrem.lawful.made id hmade
  obtain ⟨hw, hfetched⟩ := (hrem.lawful.wf.fetchPage hfetch).2 f rfl halloc.aligned
  obtain ⟨node, hnode⟩ := hw.node hfetched.lookup
  refine ⟨node, hnode, fun hlast => ?_, fun hretained => ?_⟩
  · by_contra hlost
    obtain ⟨⟨isLeaf, hempty⟩, hcached⟩ := hrem.loaded hmade hlost hfetched
    have hcopy := congrArg Line.cached (line_of_lookup hfetched.lookup hnode)
    rw [hcached, Option.some.injEq, Prod.mk.injEq, Prod.mk.injEq] at hcopy
    refine zeroNode_ne_newEmpty halloc.ne_zero isLeaf ?_
    rw [← hempty, ← hlast, hcopy.2.1]
  · exact hfetched.shows halloc.aligned halloc.ne_zero hnode (hrem.shows hmade hretained)

end Flusher

/-! ### A cache of one page -/

/-- In a cache for one page there is one page. -/
theorem eq_of_cached {p : BufferPool φ} (hw : Wf p) (hcap : p.capacity = 1) {id id' : PageId}
    (hid : id ∈ p.pageTable) (hid' : id' ∈ p.pageTable) : id = id' := by
  have hlen := hw.bounded
  rw [hcap] at hlen
  cases hkeys : p.pageTable.keys with
  | nil =>
    have hmem := AList.mem_keys.mp hid
    rw [hkeys] at hmem
    cases hmem
  | cons k rest =>
    rw [hkeys] at hlen
    obtain rfl : rest = [] :=
      List.length_eq_zero_iff.mp (Nat.le_zero.mp (Nat.le_of_succ_le_succ hlen))
    have hmem := AList.mem_keys.mp hid
    have hmem' := AList.mem_keys.mp hid'
    rw [hkeys] at hmem hmem'
    rw [List.mem_singleton.mp hmem, List.mem_singleton.mp hmem']

/-- The page of a loan is cached. -/
theorem Remembers.cached {Young : BTreeNode → Line BTreeNode → Prop} {s : Session φ}
    (h : Remembers Young s) {id : PageId} {f : Frame} (hloan : (id, f) ∈ s.loans) :
    id ∈ s.pool.pageTable := AList.mem_of_lookup (h.lawful.loans id f hloan)

/-- Two pages are made one after the other in a cache for one page. -/
theorem twoPages : ∃ (s : Session Empty) (f : Frame), Reached Retained 1 s ∧ Lent s ⟨8192⟩ f ∧
    s.made = [⟨8192⟩, ⟨4096⟩] ∧ s.marked = [] ∧ s.pending = [] ∧ s.pool.capacity = 1 ∧
    s.pool.frames[f]? = some (BTreeNode.newEmpty ⟨8192⟩ true) ∧
    s.pool.diskManager.header.nextFreeOffset.toNat = 12288 := by
  have hstart : Reached Retained 1 (start 1 (none : Option Empty)) := .start none
  have hidle : Idle (start 1 (none : Option Empty)) :=
    ⟨Serviceable.new rfl Nat.one_pos WalFlusher.reliable_none, rfl⟩
  obtain ⟨id₁, f₁, s₁, hreached₁, hlent₁, hmade₁, hmarked₁, hpending₁, hid₁, hnext₁, -, hcap₁⟩ :=
    hidle.newPage hstart (by decide) true
  obtain rfl : id₁ = ⟨4096⟩ := by
    cases id₁
    exact congrArg PageId.mk hid₁
  -- the first page is given back before the second is made
  obtain ⟨hreached₂, hidle₂⟩ := hlent₁.drop hreached₁ (hpending₁ ▸ List.not_mem_nil)
  have hnext : s₁.pool.diskManager.header.nextFreeOffset.toNat = 8192 := hnext₁
  obtain ⟨id₃, f₃, s₃, hreached₃, hlent₃, hmade₃, hmarked₃, hpending₃, hid₃, hnext₃, hframe₃,
    hcap₃⟩ := hidle₂.newPage hreached₂ (show _ + pageSize < _ by rw [dropped, hnext]; decide) true
  obtain rfl : id₃ = ⟨8192⟩ := by
    cases id₃
    refine congrArg PageId.mk (hid₃.trans ?_)
    exact UInt64.toNat_inj.mp hnext
  exact ⟨s₃, f₃, hreached₃, hlent₃, hmade₃.trans (congrArg _ hmade₁), hmarked₃.trans hmarked₁,
    hpending₃.trans hpending₁, hcap₃.trans hcap₁, hframe₃, hnext₃⟩

/-- A page that was marked is evicted and loaded again. -/
theorem fetchPage_last_iff_reloaded : ∃ (s : Session Empty) (p' : BufferPool Empty) (f : Frame)
    (node : BTreeNode), fetchPage ⟨8192⟩ s.pool = some (.ok f, p') ∧
      (⟨8192⟩ : PageId) ∉ s.pool.pageTable ∧ p'.frames[f]? = some node ∧
      (node.bare = s.last ⟨8192⟩ ↔ Retained s ⟨8192⟩) := by
  obtain ⟨s, f, hreached, hlent, hmade, hmarked, hpending, hcap, hnode, hnext⟩ := twoPages
  have hs : (BTreeNode.newEmpty ⟨8192⟩ true).IsSlotted := BTreeNode.isSlotted_newEmpty ⟨8192⟩ true
  obtain ⟨hreached₁, hlent₁⟩ :=
    hlent.mark hreached hnode hs (Nat.le_of_ble_eq_true rfl) 1
  have hpending₁ : (s.marking ⟨8192⟩ f (BTreeNode.newEmpty ⟨8192⟩ true) 1).pending = [] := by
    rw [marking, hpending]
    rfl
  obtain ⟨hreached₂, hidle₂⟩ := hlent₁.drop hreached₁ (hpending₁ ▸ List.not_mem_nil)
  -- a third page takes its place
  obtain ⟨id₃, f₃, s₃, hreached₃, hlent₃, hmade₃, hmarked₃, hpending₃, hid₃, -, -, hcap₃⟩ :=
    hidle₂.newPage hreached₂
      (show _ + pageSize < _ by rw [dropped, marking, withNode, hnext]; decide) true
  have hrem₃ := hreached₃.remembers ages_fleeting
  have hne : (⟨8192⟩ : PageId) ≠ id₃ := by
    rintro rfl
    have hval : s.pool.diskManager.header.nextFreeOffset.toNat = 8192 :=
      congrArg UInt64.toNat hid₃.symm
    rw [hnext] at hval
    cases hval
  have hgone : (⟨8192⟩ : PageId) ∉ s₃.pool.pageTable := fun hcached =>
    hne (eq_of_cached hrem₃.lawful.wf (hcap₃.trans hcap) hcached
      (hrem₃.cached (hlent₃.loans ▸ List.mem_singleton_self _)))
  have hpending₄ : s₃.pending = [] := hpending₃.trans hpending₁
  obtain ⟨hreached₄, hidle₄⟩ := hlent₃.drop hreached₃ (hpending₄ ▸ List.not_mem_nil)
  have hrem₄ := hreached₄.remembers ages_fleeting
  have hmem : (⟨8192⟩ : PageId) ∈ s₃.marked := by
    rw [hmarked₃]
    exact List.mem_cons_self ..
  have hmemMade : (⟨8192⟩ : PageId) ∈ s₃.made := hrem₄.markedMade _ hmem
  have hhas := hrem₄.saved ⟨8192⟩ hmem (by rw [dropped, hpending₄]; exact List.not_mem_nil)
  obtain ⟨f₄, p', hfetch, -⟩ := hidle₄.serviceable.fetchPage (by decide) (by decide) hhas
  obtain ⟨node, hnode₄, hlast⟩ := fetchPage_last_iff hreached₄ hmemMade hfetch
  exact ⟨_, p', f₄, node, hfetch, hgone, hnode₄, hlast⟩

/-- The first page gives way without being marked, and then the file grows over its place: it is
fetched as a page of zeros. -/
theorem fetchPage_not_last : ¬ ∀ (capacity : ℕ) (s : Session Empty),
    Reached (fun _ _ => True) capacity s → ∀ id ∈ s.made, ∀ (f : Frame) (p' : BufferPool Empty),
      fetchPage id s.pool = some (.ok f, p') →
        ∃ node, p'.frames[f]? = some node ∧ node.bare = s.last id := by
  intro h
  obtain ⟨s, f, hreached, hlent, hmade, hmarked, hpending, hcap, hnode, -⟩ := twoPages
  have hs : (BTreeNode.newEmpty ⟨8192⟩ true).IsSlotted := BTreeNode.isSlotted_newEmpty ⟨8192⟩ true
  obtain ⟨hreached₁, hlent₁⟩ := hlent.mark hreached hnode hs (Nat.le_of_ble_eq_true rfl) 1
  set s₁ := s.marking ⟨8192⟩ f (BTreeNode.newEmpty ⟨8192⟩ true) 1 with hs₁
  have hpending₁ : s₁.pending = [] := by
    rw [hs₁, marking, hpending]
    rfl
  -- the second page is flushed
  obtain ⟨p₂, hflush, hready₂⟩ := hlent₁.ready.flushPage ⟨8192⟩
  obtain ⟨-, hk₂, -⟩ := hlent₁.ready.wf.flushPage hflush
  have hstep₂ : Works Retained s₁ { s₁ with pool := p₂ } :=
    .call (c := .flushPage ⟨8192⟩) nofun nofun (Exec.bind_of_ok hflush)
  have hreached₂ := hreached₁.step hstep₂
  have hlent₂ : Lent { s₁ with pool := p₂ } ⟨8192⟩ f :=
    ⟨hready₂, hk₂.held.trans hlent₁.held, hlent₁.loans⟩
  obtain ⟨hreached₃, hidle₃⟩ := hlent₂.drop hreached₂ (hpending₁ ▸ List.not_mem_nil)
  have hrem₂ := hreached₂.remembers ages_fleeting
  have hrem₃ := hreached₃.remembers ages_fleeting
  have hlen : 8192 + pageSize ≤ p₂.diskManager.file.len := by
    obtain ⟨image, himage, -⟩ := (hrem₂.saved ⟨8192⟩ (List.mem_cons_self ..)
      (hpending₁ ▸ List.not_mem_nil)).stored fun _ _ hl hnode₂ =>
        flushPage_ok_clean hlent₁.ready.wf hflush hl hnode₂
    exact DataFile.len_of_nodeAt himage
  -- the first one is in neither the cache nor the file
  have hmade₂ : (⟨4096⟩ : PageId) ∈ s₁.made := by
    show (⟨4096⟩ : PageId) ∈ s.made
    rw [hmade]
    exact List.mem_cons_of_mem _ (List.mem_singleton_self _)
  have hunmarked : (⟨4096⟩ : PageId) ∉ s₁.marked := by
    show (⟨4096⟩ : PageId) ∉ ⟨8192⟩ :: s.marked
    rw [hmarked]
    decide
  have hgone : (⟨4096⟩ : PageId) ∉ p₂.pageTable := by
    intro hcached
    have hcap₂ : p₂.capacity = 1 := hk₂.capacity.trans hcap
    have heq := eq_of_cached hready₂.wf hcap₂ hcached
      (hrem₂.cached (hlent₂.loans ▸ List.mem_singleton_self _))
    exact absurd heq (by decide)
  have hblank : p₂.diskManager.file.Blank 4096 :=
    (hrem₂.young ⟨4096⟩ hmade₂ hunmarked (hpending₁ ▸ List.not_mem_nil)).1.1
  have hhas : BufferPool.Has { p₂ with held := p₂.held.erase f } ⟨4096⟩ zeroNode.bare :=
    .of_stored (AList.lookup_eq_none.mpr hgone)
      (hblank.nodeAt_of_len (Nat.le_trans (by decide) hlen)) (List.Perm.refl _)
  obtain ⟨f', p', hfetch, -⟩ := hidle₃.serviceable.fetchPage (by decide) (by decide) hhas
  obtain ⟨node, hnode', hlast⟩ :=
    h 1 _ (hreached₃.mono fun _ _ _ => trivial) ⟨4096⟩ hmade₂ f' p' hfetch
  have hfetched := ((hrem₃.lawful.wf.fetchPage hfetch).2 f' rfl (by decide)).2
  obtain ⟨⟨isLeaf, hempty⟩, hcopy⟩ :=
    hrem₃.loaded hmade₂ (not_or.mpr ⟨hgone, hunmarked⟩) hfetched
  rw [congrArg Line.cached (line_of_lookup hfetched.lookup hnode'), Option.some.injEq,
    Prod.mk.injEq, Prod.mk.injEq, hlast, hempty] at hcopy
  exact zeroNode_ne_newEmpty (by decide) isLeaf hcopy.2.1.symm

end Session

end SmolDb
