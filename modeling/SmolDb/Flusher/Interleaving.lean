import SmolDb.Flusher.Background
import SmolDb.Pool.Service

/-!
# Pages while the flusher runs

Two things are shown of every interleaving of clients and thread. The first is that no write is
lost: on a disk without errors a page has the content that was last written to it, whoever flushed
it or threw it out of the cache in between (`last_write`). The second is what a guard is good for:
from the moment a client has a guard on a frame its page stays where it is, nobody writes it but
this client, and the flusher does not clean it and does not save it (`guard_isolates`).

Both rest on what a step does to the pool (`Step.kind`, `Step.latched`).
-/

namespace SmolDb

open WriteBack BufferPool

variable {φ : Type}

namespace BufferPool

variable {p p' : BufferPool φ}

/-- Changing the log changes no page. -/
theorem Kind.relog (hw : Wf p) (hfresh : Fresh p) (w : Option φ) :
    Kind p { p with walFlusher := w } :=
  .of_kept ⟨hw.replacer, hw.bounded, hw.framed, hw.inj, hw.held, hw.aligned⟩ hfresh
    ⟨rfl, rfl, rfl, id, rfl, fun _ _ h => h, fun _ _ h _ => h⟩ fun _ _ _ => .refl _

theorem Kind.refl (hw : Wf p) (hfresh : Fresh p) : Kind p p :=
  .of_kept hw hfresh (.refl p) (.refl p)

/-- A dirty node that is written into the frame of a page is the content of the page. -/
theorem Wf.has_withNode (hw : Wf p) {id : PageId} {f : Frame} {node : BTreeNode}
    (hl : p.pageTable.lookup id = some f) (hdirty : node.isDirty = true) (hs : node.IsSlotted) :
    (p.withNode f node).Has id node.bare := by
  refine ⟨(BTreeNode.isSlotted_bare node).mpr hs, .inl ⟨f, ?_⟩⟩
  rw [hw.line_withNode hl, hdirty]

/-- **A call leaves the pages alone whose frames are held**, unless it is a flush of the page. -/
theorem PoolCall.extended [WalFlusher φ] {c : PoolCall}
    {r : Except DbError (Option (PageId × Frame))} (hw : Wf p) (hfresh : Fresh p)
    (hknown : ∀ id, c = .fetchPage id → Allocated p id) (hrun : c.run p = some (r, p'))
    {id : PageId} {f : Frame} (halloc : Allocated p id) (hl : p.pageTable.lookup id = some f)
    (hheld : f ∈ p.held) (hflush : c ≠ .flushPage id) (hall : ∀ order, c ≠ .flushAllPages order) :
    Extended (p.line id) (p'.line id) := by
  have ha := halloc.aligned
  have hne := halloc.ne_zero
  cases PoolCall.run_outcome hrun with
  | fetchFailed hfetch => exact ((hw.fetchPage hfetch).1 _ rfl).2.untouched id f ha hne hl hheld
  | @fetched id' f' p₁ hfetch =>
    exact ((hw.fetchPage hfetch).2 _ rfl (hknown id' rfl).aligned).2.untouched id f ha hne hl hheld
  | makeFailed hnew =>
    exact ((hw.newPage hfresh hnew).2.1 _ rfl).untouched id f ha hne hl hheld
  | made hnew => exact ((hw.newPage hfresh hnew).2.2 _ _ rfl).untouched id f ha hne hl hheld
  | @flushed id' r p₁ hrun' =>
    exact hw.flushPage_other hrun' ha fun heq => hflush (heq ▸ rfl)
  | flushedAll hrun' => exact absurd rfl (hall _)

end BufferPool

/-- What a step has written into the page. -/
def Label.wrote (id : PageId) : Label → Option BTreeNode
  | .write _ id' node => if id' = id then some node else none
  | .background | .release | .foreground => none

/-- What was last written into the page. -/
def lastWrite (id : PageId) (ls : List Label) : Option BTreeNode := ls.findSome? (Label.wrote id)

/-- Clients write dirty nodes that are in order. -/
def Marked (ls : List Label) : Prop :=
  ∀ c id node, Label.write c id node ∈ ls → node.isDirty = true ∧ node.IsSlotted

namespace Shared

variable {s s' : Shared φ} {l : Label} {ls : List Label} {id : PageId}

/-! ### Guards -/

/-- Two guards on one frame, one of them for writing, are one. -/
theorem Latches.guard_eq (h : Latches s) {g g' : Guard} (hg : g ∈ s.guards) (hg' : g' ∈ s.guards)
    (hframe : g.frame = g'.frame) (hwrite : g'.write = true) : g = g' := by
  by_contra hne
  have hsymm : Std.Symm fun g h : Guard =>
      g.frame = h.frame → g.write = false ∧ h.write = false :=
    ⟨fun a b hab heq => (hab heq.symm).symm⟩
  have hboth := h.exclusive.forall hg hg' hne hframe
  rw [hboth.2] at hwrite
  cases hwrite

/-- The page in a frame with a guard is on loan. -/
theorem Latches.loan (h : Latches s) {g : Guard} (hg : g ∈ s.guards)
    (hl : s.pool.pageTable.lookup id = some g.frame) : (id, g.frame) ∈ s.loans := by
  obtain ⟨id', hloan⟩ := h.guarded g hg
  obtain rfl : id' = id := h.lawful.wf.inj _ _ _ (h.lawful.loans id' g.frame hloan) hl
  exact hloan

/-- What a step does to a page while somebody has a guard on its frame. -/
structure Isolated (s s' : Shared φ) (g : Guard) (id : PageId) (l : Label) : Prop where
  lookup : s'.pool.pageTable.lookup id = some g.frame
  writer : ∀ c node, l = .write c id node → g = ⟨c, g.frame, true⟩
  kept : l.wrote id = none → Extended (s.pool.line id) (s'.pool.line id)
  written : ∀ node, l.wrote id = some node →
    s'.pool.line id = { s.pool.line id with cached := some (g.frame, node.bare, node.isDirty) }

/-- A step by which the page keeps its line. -/
theorem Isolated.of_extended {g : Guard} (hl : s'.pool.pageTable.lookup id = some g.frame)
    (hwrote : l.wrote id = none) (hext : Extended (s.pool.line id) (s'.pool.line id)) :
    Isolated s s' g id l where
  lookup := hl
  writer c node heq := by
    rw [heq, Label.wrote, if_pos rfl] at hwrote
    cases hwrote
  kept _ := hext
  written node hsome := by
    rw [hwrote] at hsome
    cases hsome

/-- Saving the header does not touch the page. -/
theorem Isolated.of_save {g : Guard} (h : Sane s) (hg : g ∈ s.guards)
    (hl : s.pool.pageTable.lookup id = some g.frame) {r : Except DbError Unit} {p' : BufferPool φ}
    (hrun : disk DiskManager.saveHeader s.pool = some (r, p')) (hpool : s'.pool = p')
    (hwrote : l.wrote id = none) : Isolated s s' g id l := by
  have halloc := h.lawful.made id (h.made (h.loan hg hl))
  obtain ⟨d, hd, rfl⟩ := disk_outcome hrun
  obtain ⟨-, -, data, hlen, hfile⟩ := saveHeader_outcome hd
  refine .of_extended ?_ hwrote ?_
  · rw [hpool]
    exact hl
  · rw [hpool]
    refine extended_of_write ?_ hfile rfl
    have hle := halloc.aligned.pageSize_le halloc.ne_zero
    have hsize : fileHeaderSize ≤ pageSize := by decide
    omega

section Flusher

variable [WalFlusher φ]

/-- A page that has no last write was not written. -/
theorem not_mem_of_lastWrite (h : lastWrite id ls = none) (c : ℕ) (node : BTreeNode) :
    Label.write c id node ∉ ls := by
  intro hmem
  have hnone := List.findSome?_eq_none_iff.mp h _ hmem
  rw [Label.wrote, if_pos rfl] at hnone
  cases hnone

/-! ### What a step does to the pool -/

/-- The step was a write into the frame of a page on loan. -/
structure Writes (s s' : Shared φ) (c : ℕ) (id : PageId) (node : BTreeNode) (f : Frame) : Prop where
  loan : (id, f) ∈ s.loans
  guard : ⟨c, f, true⟩ ∈ s.guards
  pool : s'.pool = s.pool.withNode f node

/-- A step is a write, or it is kind to all pages and writes none. -/
theorem Step.kind (h : Sane s) (hstep : Step s l s') :
    (Kind s.pool s'.pool ∧ ∀ id, l.wrote id = none) ∨
      ∃ c id node f, l = .write c id node ∧ Writes s s' c id node f := by
  have hw := h.lawful.wf
  have hfresh := h.lawful.fresh
  cases hstep with
  | background hb =>
    refine .inl ⟨?_, fun _ => rfl⟩
    cases hb with
    | timeout | received | disconnected | lock => exact .refl hw hfresh
    | flush hstage hopen hrun => exact (Client.flush hrun).kind hw hfresh
    | fail hstage hopen hrun => exact (Client.flush hrun).kind hw hfresh
    | save hstage hrun =>
      obtain ⟨hw', hk, hm⟩ := within_saveHeader _ _ _ hrun hw
      exact .of_kept hw' hfresh hk hm
  | @foreground c _ _ hf =>
    cases hf with
    | @write id f hrunning hloan hguard node =>
      exact .inr ⟨c, id, node, f, rfl, hloan, hguard, rfl⟩
    | request | lock | unlock | latch | unlatch | signal | take | skip | joined =>
      exact .inl ⟨.refl hw hfresh, fun _ => rfl⟩
    | call hrunning howner hknown hopen hone hrun =>
      refine .inl ⟨Client.kind (PoolCall.client ?_ hrun) hw hfresh, fun _ => rfl⟩
      exact fun id hc => h.lawful.made id (hknown id hc)
    | save hrunning howner hrun =>
      obtain ⟨hw', hk, hm⟩ := within_saveHeader _ _ _ hrun hw
      exact .inl ⟨.of_kept hw' hfresh hk hm, fun _ => rfl⟩
    | clone hrunning hloan =>
      exact .inl ⟨(Client.clone (h.lawful.mem_held hloan)).kind hw hfresh, fun _ => rfl⟩
    | @drop id f hrunning hloan hguards =>
      exact .inl ⟨(Client.drop f).kind hw hfresh, fun _ => rfl⟩
    | relog w => exact .inl ⟨.relog hw hfresh _, fun _ => rfl⟩

theorem Step.faults (h : Sane s) (hstep : Step s l s') (hno : s.pool.diskManager.faults = []) :
    s'.pool.diskManager.faults = [] := by
  rcases hstep.kind h with ⟨hkind, -⟩ | ⟨c, id, node, f, -, hw⟩
  · exact hkind.faults hno
  · rw [hw.pool]
    exact hno

theorem Step.allocated (h : Sane s) (hstep : Step s l s') (halloc : Allocated s.pool id) :
    Allocated s'.pool id := by
  rcases hstep.kind h with ⟨hkind, -⟩ | ⟨c, id', node, f, -, hw⟩
  · exact hkind.allocated id halloc
  · rw [hw.pool]
    exact ⟨halloc.aligned, halloc.ne_zero, halloc.below⟩

/-- A content stays until the page is written. -/
theorem Step.has {c : BTreeNode} (h : Sane s) (hstep : Step s l s')
    (hno : s.pool.diskManager.faults = []) (halloc : Allocated s.pool id) (hc : s.pool.Has id c)
    (hl : l.wrote id = none) : s'.pool.Has id c := by
  rcases hstep.kind h with ⟨hkind, -⟩ | ⟨c', id', node, f, rfl, hw⟩
  · exact (hkind.served id halloc).has hno hc
  · have hne : id ≠ id' := by
      rintro rfl
      rw [Label.wrote, if_pos rfl] at hl
      cases hl
    rw [hw.pool]
    exact hc.withNode_of_ne h.lawful.wf (h.lawful.loans _ _ hw.loan) hne node

/-- What is written is the content. -/
theorem Step.has_write {c : ℕ} {node : BTreeNode} (h : Sane s)
    (hstep : Step s (.write c id node) s') (hdirty : node.isDirty = true) (hs : node.IsSlotted) :
    s'.pool.Has id node.bare := by
  rcases hstep.kind h with ⟨-, hno⟩ | ⟨c', id', node', f, heq, hw⟩
  · have hnone := hno id
    rw [Label.wrote, if_pos rfl] at hnone
    cases hnone
  · cases heq
    rw [hw.pool]
    exact h.lawful.wf.has_withNode (h.lawful.loans _ _ hw.loan) hdirty hs

/-! ### A client with a guard -/

/-- The first page of a file as it was made, marked dirty. -/
def dirtyLeaf : BTreeNode := (BTreeNode.newEmpty ⟨4096⟩ true).markDirty 1

theorem isSlotted_dirtyLeaf : dirtyLeaf.IsSlotted :=
  (BTreeNode.isSlotted_newEmpty ⟨4096⟩ true).markDirty 1

/-- All clients run, the first page is cached, and the thread waits. -/
structure Calm (s : Shared Empty) (owner : Option Party) (guards : List Guard) : Prop where
  ready : Ready s.pool
  keys : s.pool.pageTable.keys = [⟨4096⟩]
  loans : s.loans = [(⟨4096⟩, 0)]
  guards : s.guards = guards
  owner : s.owner = owner
  activity : ∀ c, s.activity c = .running
  stage : s.stage = .waiting
  flusher : s.flusher = ⟨some (), some ()⟩
  sent : s.sent = false
  printed : s.printed = []

/-- A pool over an empty file, and nobody has anything of it yet. -/
def unused : Lending Empty := .start [] 1 none

theorem unused_lawful : unused.Lawful := .start [] 1 none

theorem unused_known : ∀ id ∈ unused.pool.pageTable, id ∈ unused.made :=
  fun id hmem => absurd hmem (AList.notMem_empty id)

theorem newPage_unused : ∃ p', newPage true unused.pool = some (.ok (⟨4096⟩, 0), p') ∧
    Ready p' ∧ p'.pageTable.keys = [⟨4096⟩] := by
  have hserve : Serviceable unused.pool := .new rfl Nat.one_pos WalFlusher.reliable_none
  obtain ⟨f, p', hmade, hready, -⟩ := hserve.newPage unused_lawful.fresh (by decide) true
  have hroom : makeRoom unused.pool = some (.ok (), unused.pool) := rfl
  have hmake : newPage true unused.pool = some (.ok (⟨4096⟩, 0), _) :=
    newPage_ok hroom (by decide) rfl
  obtain ⟨heq, rfl⟩ := Prod.mk.inj (Option.some.inj (hmade.symm.trans hmake))
  exact ⟨_, hmake, hready, rfl⟩

/-- A client makes the first page and takes a guard for writing on its frame. -/
theorem exists_calm : ∃ ls s, Runs (fun _ => True) (start unused) ls s ∧
    (∀ id, lastWrite id ls = none) ∧ Calm s (some (.client 0)) [⟨0, 0, true⟩] := by
  obtain ⟨p', hmake, hready, hkeys⟩ := newPage_unused
  have hstart : Runs (fun _ : Shared Empty => True) (start unused) [] (start unused) := .refl
  have hrequest := hstart.step (.foreground (c := 0) (.request rfl)) trivial
  have hlock := hrequest.step (.foreground (c := 0) (.lock rfl rfl)) trivial
  have hrun : (PoolCall.newPage true).run unused.pool = some (.ok (some (⟨4096⟩, 0)), p') :=
    Exec.bind_of_ok hmake
  have hcall := hlock.step (.foreground (c := 0) (@Foreground.call _ _ _ _ (.newPage true) _ _ rfl
    rfl nofun nofun nofun hrun)) trivial
  have hlatch := hcall.step (.foreground (c := 0) (@Foreground.latch _ _ _ _ ⟨4096⟩ 0 true rfl
    (List.mem_singleton_self _) nofun)) trivial
  refine ⟨_, _, hlatch, fun _ => rfl, hready, hkeys, rfl, rfl, rfl, fun c => ?_, rfl, rfl, rfl, rfl⟩
  by_cases hc : c = 0
  · rw [hc]
    rfl
  · exact (activity_moved_of_ne hc _).trans (activity_moved_of_ne hc _)

/-- The client writes the page. -/
theorem Calm.write {s : Shared Empty} {owner : Option Party}
    (h : Calm s owner [⟨0, 0, true⟩]) :
    ∃ s', Step s (.write 0 ⟨4096⟩ dirtyLeaf) s' ∧ Calm s' owner [⟨0, 0, true⟩] := by
  refine ⟨_, .foreground (.write (f := 0) (h.activity 0) ?_ ?_ dirtyLeaf), ?_⟩
  · rw [h.loans]
    exact List.mem_singleton_self _
  · rw [h.guards]
    exact List.mem_singleton_self _
  · exact { h with ready := h.ready.withNode 0 isSlotted_dirtyLeaf (by decide) }

/-! ### No write is lost -/

theorem lastWrite_cons (l : Label) (ls : List Label) :
    lastWrite id (l :: ls) = (l.wrote id).or (lastWrite id ls) := by
  unfold lastWrite
  rw [List.findSome?_cons]
  cases l.wrote id <;> rfl

theorem wrote_eq_some {node : BTreeNode} (h : l.wrote id = some node) :
    ∃ c, l = .write c id node := by
  cases l with
  | write c id' node' =>
    rw [Label.wrote] at h
    split at h
    · next heq =>
      cases heq
      cases h
      exact ⟨c, rfl⟩
    · cases h
  | background | release | foreground => cases h

theorem Runs.faults {P : Shared φ → Prop} (h : Sane s) (hruns : Runs P s ls s')
    (hno : s.pool.diskManager.faults = []) : s'.pool.diskManager.faults = [] := by
  induction hruns with
  | refl => exact hno
  | step hruns hstep _ ih => exact hstep.faults (h.runs hruns) ih

theorem Runs.allocated {P : Shared φ → Prop} (h : Sane s) (hruns : Runs P s ls s')
    (halloc : Allocated s.pool id) : Allocated s'.pool id := by
  induction hruns with
  | refl => exact halloc
  | step hruns hstep _ ih => exact hstep.allocated (h.runs hruns) ih

/-- A content stays until the page is written. -/
theorem Runs.has {P : Shared φ → Prop} {c : BTreeNode} (h : Sane s) (hruns : Runs P s ls s')
    (hno : s.pool.diskManager.faults = []) (halloc : Allocated s.pool id) (hc : s.pool.Has id c)
    (hls : lastWrite id ls = none) : s'.pool.Has id c := by
  induction hruns with
  | refl => exact hc
  | step hruns hstep _ ih =>
    rw [lastWrite_cons, Option.or_eq_none_iff] at hls
    exact hstep.has (h.runs hruns) (hruns.faults h hno) (hruns.allocated h halloc) (ih hls.2) hls.1

/-- After a write the page has what was written last. -/
theorem Runs.has_write {P : Shared φ → Prop} {node : BTreeNode} (h : Sane s)
    (hruns : Runs P s ls s') (hno : s.pool.diskManager.faults = []) (hmarked : Marked ls)
    (hls : lastWrite id ls = some node) :
    Allocated s'.pool id ∧ s'.pool.Has id node.bare := by
  induction hruns with
  | refl => cases hls
  | @step ls l t t' hruns hstep _ ih =>
    have ht := h.runs hruns
    rw [lastWrite_cons, Option.or_eq_some_iff] at hls
    rcases hls with hnow | ⟨hnone, hbefore⟩
    · -- the last step is the write, into a page on loan
      obtain ⟨c, rfl⟩ := wrote_eq_some hnow
      obtain ⟨hdirty, hs⟩ := hmarked c id node (List.mem_cons_self ..)
      refine ⟨?_, hstep.has_write ht hdirty hs⟩
      rcases hstep.kind ht with ⟨-, hno⟩ | ⟨c', id', node', f, heq, hw⟩
      · rw [hno id] at hnow
        cases hnow
      · cases heq
        exact hstep.allocated ht (ht.lawful.made id (ht.made hw.loan))
    · obtain ⟨halloc, hc⟩ :=
        ih (fun c id node hmem => hmarked c id node (List.mem_cons_of_mem _ hmem)) hbefore
      exact ⟨hstep.allocated ht halloc, hstep.has ht (hruns.faults h hno) halloc hc hnone⟩

/-- **No write is lost**: on a disk without errors a page has what was last written to it, and a
client with a frame of the page sees it there; a page that was not written has what it had when the
flusher was started. -/
theorem last_write {l : Lending φ} (hlaw : l.Lawful)
    (hknown : ∀ id ∈ l.pool.pageTable, id ∈ l.made) (hno : l.pool.diskManager.faults = [])
    (hruns : Runs (fun _ => True) (start l) ls s) (hmarked : Marked ls) (id : PageId) :
    (∀ node, lastWrite id ls = some node → s.pool.Has id node.bare ∧
      ∀ f n, (id, f) ∈ s.loans → s.pool.frames[f]? = some n → n.bare = node.bare) ∧
    (lastWrite id ls = none → Allocated l.pool id → ∀ c, l.pool.Has id c → s.pool.Has id c) := by
  have hstart := Sane.start hlaw hknown
  refine ⟨fun node hls => ?_, fun hls halloc c hc => hruns.has hstart hno halloc hc hls⟩
  obtain ⟨-, hhas⟩ := hruns.has_write hstart hno hmarked hls
  refine ⟨hhas, fun f n hloan hn => ?_⟩
  exact hhas.node ((hstart.runs hruns).lawful.loans id f hloan) hn

/-- A client writes the page it has made, and the thread wakes up. -/
theorem last_write_dirtyLeaf : ∃ ls s, Runs (fun _ => True) (start unused) ls s ∧
    s.stage = .locking false ∧ s.pool.Has ⟨4096⟩ dirtyLeaf.bare := by
  obtain ⟨ls, s, hruns, hnone, hcalm⟩ := exists_calm
  obtain ⟨s', hwrite, hcalm'⟩ := hcalm.write
  have hwritten := hruns.step hwrite trivial
  have hwoken := hwritten.step (.background (.timeout hcalm'.stage hcalm'.sent
    (congrArg BackgroundFlusher.shutdownTx hcalm'.flusher))) trivial
  refine ⟨_, _, hwoken, rfl, ?_⟩
  have hmarked : Marked (.background :: .write 0 ⟨4096⟩ dirtyLeaf :: ls) := by
    intro c id node hmem
    rcases List.mem_cons.mp hmem with heq | hmem
    · cases heq
    · rcases List.mem_cons.mp hmem with heq | hmem
      · cases heq
        exact ⟨rfl, isSlotted_dirtyLeaf⟩
      · exact absurd hmem (not_mem_of_lastWrite (hnone id) c node)
  exact ((last_write unused_lawful unused_known rfl hwoken hmarked ⟨4096⟩).1 dirtyLeaf rfl).1

/-! ### What a guard is good for -/

/-- A flush of a page whose frame nobody has a guard on. -/
theorem Isolated.of_flush {g : Guard} (h : Sane s) (hg : g ∈ s.guards)
    (hl : s.pool.pageTable.lookup id = some g.frame) {id' : PageId} {r : Except DbError Unit}
    {p' : BufferPool φ} (hopen : s.Unlatched id') (hrun : flushPage id' s.pool = some (r, p'))
    (hpool : s'.pool = p') (hwrote : l.wrote id = none) : Isolated s s' g id l := by
  have hw := h.lawful.wf
  have hne : id ≠ id' := by
    rintro rfl
    exact hopen g.frame hl g hg rfl
  subst hpool
  refine .of_extended ?_ hwrote (hw.flushPage_other hrun (hw.aligned_of_lookup hl) hne)
  obtain ⟨-, -, -, htable, -⟩ := hw.flushPage hrun
  rw [htable]
  exact hl

/-- **The step lemma of a guard.** -/
theorem Step.isolated {g : Guard} (h : Sane s) (hstep : Step s l s') (hg : g ∈ s.guards)
    (hl : s.pool.pageTable.lookup id = some g.frame) : Isolated s s' g id l := by
  have hw := h.lawful.wf
  have hloan := h.loan hg hl
  have halloc := h.lawful.made id (h.made hloan)
  have hheld := h.lawful.mem_held hloan
  cases hstep with
  | background hb =>
    cases hb with
    | timeout | received | disconnected | lock => exact .of_extended hl rfl (.refl _)
    | flush hstage hopen hrun => exact .of_flush h hg hl hopen hrun rfl rfl
    | fail hstage hopen hrun => exact .of_flush h hg hl hopen hrun rfl rfl
    | save hstage hrun => exact .of_save h hg hl hrun rfl rfl
  | @foreground c _ _ hf =>
    cases hf with
    | request | lock | unlock | latch | unlatch | signal | take | skip | joined | clone | drop
    | relog =>
      exact .of_extended hl rfl (.refl _)
    | save hrunning howner hrun => exact .of_save h hg hl hrun rfl rfl
    | @call call r p' hrunning howner hknown hopen hone hrun =>
      have hfetch : ∀ id, call = .fetchPage id → Allocated s.pool id := fun id hc =>
        h.lawful.made id (hknown id hc)
      refine .of_extended ?_ rfl ?_
      · exact (PoolCall.hands hw h.lawful.fresh hfetch hrun).pinned id g.frame hl hheld
      · refine PoolCall.extended hw h.lawful.fresh hfetch hrun halloc hl hheld ?_ hone
        rintro rfl
        exact hopen id rfl g.frame hl g hg rfl
    | @write id' f hrunning hloan' hguard node =>
      by_cases hid : id' = id
      · subst hid
        obtain rfl : f = g.frame :=
          Option.some.inj ((h.lawful.loans id' f hloan').symm.trans hl)
        have hwrote : Label.wrote id' (.write c id' node) = some node := if_pos rfl
        refine ⟨hl, ?_, ?_, ?_⟩
        · rintro c' node' heq
          cases heq
          exact h.guard_eq hg hguard rfl rfl
        · intro hnone
          rw [hwrote] at hnone
          cases hnone
        · intro node' hsome
          obtain rfl : node = node' := Option.some.inj (hwrote.symm.trans hsome)
          exact hw.line_withNode hl node
      · have hlook := h.lawful.loans id' f hloan'
        refine .of_extended hl (if_neg hid) ?_
        show Extended _ ((s.pool.withNode f node).line id)
        rw [hw.line_withNode_of_ne hlook (Ne.symm hid)]
        exact .refl _

/-- **A guard isolates its page**: as long as a client has a guard on the frame of a page, the page
stays in the frame, only this client writes it, and only with a guard for writing; its copy is the
one it had, with its dirty flag, or the node the client wrote last; and its image in the file stays
as it is. -/
theorem guard_isolates {l : Lending φ} (hlaw : l.Lawful)
    (hknown : ∀ id ∈ l.pool.pageTable, id ∈ l.made) {before : List Label} {g : Guard}
    (hbefore : Runs (fun _ => True) (start l) before s) (hg : g ∈ s.guards)
    (hl : s.pool.pageTable.lookup id = some g.frame)
    (hruns : Runs (fun t => g ∈ t.guards) s ls s') :
    s'.pool.pageTable.lookup id = some g.frame ∧
      (∀ c node, Label.write c id node ∈ ls → c = g.client ∧ g.write = true) ∧
      (s'.pool.line id).cached = (match lastWrite id ls with
        | some node => some (g.frame, node.bare, node.isDirty)
        | none => (s.pool.line id).cached) ∧
      ∀ image, (s.pool.line id).stored = some image → (s'.pool.line id).stored = some image := by
  have hs := (Sane.start hlaw hknown).runs hbefore
  -- the guard is there in every state of the run
  suffices hall : g ∈ s'.guards ∧ _ from hall.2
  induction hruns with
  | refl => exact ⟨hg, hl, nofun, rfl, fun _ himage => himage⟩
  | @step ls l t t' hruns hstep hP ih =>
    obtain ⟨hgt, hlt, hwriter, hcached, hstored⟩ := ih
    obtain ⟨hl', hwriter', hkept, hwritten⟩ := hstep.isolated (hs.runs hruns) hgt hlt
    refine ⟨hP, hl', ?_, ?_, fun image himage => ?_⟩
    · intro c node hmem
      rcases List.mem_cons.mp hmem with heq | hold
      · have heq' := hwriter' c node heq.symm
        exact ⟨(congrArg Guard.client heq').symm, congrArg Guard.write heq'⟩
      · exact hwriter c node hold
    · rw [lastWrite_cons]
      cases hwrote : l.wrote id with
      | none => rw [(hkept hwrote).cached, hcached, Option.none_or]
      | some node => rw [hwritten node hwrote, Option.some_or]
    · cases hwrote : l.wrote id with
      | none => exact (hkept hwrote).stored image (hstored image himage)
      | some node =>
        rw [hwritten node hwrote]
        exact hstored image himage

/-- The thread wakes up while a client with a guard writes its page. -/
theorem guard_isolates_dirtyLeaf : ∃ ls s s', Runs (fun _ => True) (start unused) ls s ∧
    Runs (fun t => ⟨0, 0, true⟩ ∈ t.guards) s [.background, .write 0 ⟨4096⟩ dirtyLeaf] s' ∧
    (s'.pool.line ⟨4096⟩).cached = some (0, dirtyLeaf.bare, true) := by
  obtain ⟨ls, s, hbefore, hnone, hcalm⟩ := exists_calm
  have hguard : ⟨0, 0, true⟩ ∈ s.guards := by
    rw [hcalm.guards]
    exact List.mem_singleton_self _
  obtain ⟨s', hwrite, hcalm'⟩ := hcalm.write
  have hguard' : ⟨0, 0, true⟩ ∈ s'.guards := by
    rw [hcalm'.guards]
    exact List.mem_singleton_self _
  have hstart : Runs (fun t : Shared Empty => ⟨0, 0, true⟩ ∈ t.guards) s [] s := .refl
  have hwritten := hstart.step hwrite hguard'
  have hwoken := hwritten.step (.background (.timeout hcalm'.stage hcalm'.sent
    (congrArg BackgroundFlusher.shutdownTx hcalm'.flusher))) hguard'
  have hloan := (Sane.start unused_lawful unused_known).runs hbefore |>.lawful.loans ⟨4096⟩ 0 (by
    rw [hcalm.loans]
    exact List.mem_singleton_self _)
  exact ⟨ls, s, _, hbefore, hwoken,
    (guard_isolates unused_lawful unused_known hbefore hguard hloan hwoken).2.2.1⟩

end Flusher

end Shared

end SmolDb
