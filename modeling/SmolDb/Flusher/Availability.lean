import SmolDb.Flusher.Progress

/-!
# What a shared pool can serve

A request for a page needs a place in the pool, and a page that is on loan does not give way. On a
disk without errors, with a log that does not fail, and with writes that fit in a page, this is all
it needs: `fetch_page` and `new_page` succeed, whatever clients and thread have done before, unless
the pool is full and each of its pages is on loan (`Crowded`). Then they report that there is no
page to evict, and leave the pool as it is (`requests_served`).

The invariant is `Ready`. A flush that failed would break it: the replacer forgets a page that stays
in the table. So each of its clauses is needed: that the dirty nodes can be written is what the
flush of a page to be evicted rests on.
-/

namespace SmolDb

open WriteBack BufferPool

variable {φ : Type}

namespace BufferPool

variable {p p' : BufferPool φ}

/-- What can be written is said of the contents of the pages. -/
theorem encodable_iff :
    Encodable p ↔ DirtyNodes (fun c => c.IsSlotted ∧ c.encodedSize ≤ pageSize) p := by
  constructor
  · intro h id f c hcached
    obtain ⟨node, hl, hf, rfl, hdirty⟩ := frame_of_cached hcached
    rw [BTreeNode.isSlotted_bare, BTreeNode.encodedSize_bare]
    exact h id f node hl hf hdirty
  · intro h id f node hl hf hdirty
    have hcached : (p.line id).cached = some (f, node.bare, true) := by
      rw [line_of_lookup hl hf, hdirty]
    rw [← BTreeNode.isSlotted_bare, ← BTreeNode.encodedSize_bare]
    exact h id f node.bare hcached

section Flusher

variable [WalFlusher φ]

theorem Ready.inStep (h : Ready p) : InStep p := ⟨h.tracked, h.wf.framed, h.wf.inj⟩

/-- Every page can be flushed. -/
theorem Ready.flushable (h : Ready p) (id : PageId) : p.Flushable id := by
  obtain ⟨p', hflush, -⟩ := h.flushPage id
  exact (flushPage_ok_iff hflush).mp rfl

/-! ### Making room -/

/-- **Eviction fails only when every page is pinned.** -/
theorem Ready.evictPage_outcome (h : Ready p) :
    (AllPinned p ∧ ∃ q, evictPage p = some (.error .lruEviction, { p with replacer := q })) ∨
      ¬ AllPinned p ∧ ∃ p', evictPage p = some (.ok (), p') ∧ Ready p' := by
  rcases h.inStep.evictIf with ⟨hall, q, hscan, -⟩ | ⟨id, q, hvictim, -, hscan, is, l, ht, hl⟩
  · refine .inl ⟨hall, q, ?_⟩
    rw [evictPage, Exec.bind_of_ok (Exec.get_apply p), hscan,
      Exec.bind_of_ok (Exec.ofOption_some _ _)]
    rfl
  · -- the victim is flushed while the replacer does not track it any more
    have hk : Kept p { p with replacer := q } :=
      ⟨rfl, rfl, rfl, fun h => h, rfl, fun _ _ h => h, fun _ _ h _ => h⟩
    have hw₁ : Wf { p with replacer := q } :=
      h.wf.of_kept hk ⟨is, l, ht, fun id' hid => ((hl id').mp hid).1⟩ h.wf.bounded
    obtain ⟨p₂, hflush, hrel, henc⟩ := flushPage_ok hw₁ h.noFaults h.reliable
      (h.encodable.of_frames (fun _ _ h => h) rfl) id
    have hrun : evictPage p =
        some (.ok (), { p₂ with pageTable := p₂.pageTable.erase id }) := by
      rw [evictPage, Exec.bind_of_ok (Exec.get_apply p), hscan,
        Exec.bind_of_ok (Exec.ofOption_some _ _)]
      dsimp only
      rw [Exec.bind_of_ok (Exec.modify_apply _ _), Exec.bind_of_ok hflush]
      rfl
    obtain ⟨hw', hwork, -⟩ := h.wf.evictPage hrun
    have hstep : InStep { p₂ with pageTable := p₂.pageTable.erase id } := by
      cases h.inStep.evictPage hrun with
      | roomy hstep => exact hstep
    refine .inr ⟨h.inStep.not_allPinned hvictim, _, hrun, hw', hstep.tracked,
      hwork.kept.capacity ▸ h.capacity, hwork.kept.faults h.noFaults, hrel,
      henc.of_frames (fun id' f hlook => ?_) rfl⟩
    have hne : id' ≠ id := by
      rintro rfl
      rw [AList.lookup_erase] at hlook
      cases hlook
    rwa [AList.lookup_erase_ne hne] at hlook

/-- The pool is full, and every cached page is pinned. -/
def Full (p : BufferPool φ) : Prop := p.capacity ≤ p.pageTable.keys.length ∧ AllPinned p

theorem makeRoom_of_full (hfull : p.capacity ≤ p.pageTable.keys.length) :
    makeRoom p = evictPage p := by
  rw [makeRoom, Exec.bind_of_ok (Exec.get_apply p), if_pos hfull]

theorem Ready.makeRoom_ok (h : Ready p) (hroom : ¬ Full p) :
    ∃ p', makeRoom p = some (.ok (), p') ∧ Ready p' := by
  by_cases hfull : p.capacity ≤ p.pageTable.keys.length
  · rw [makeRoom_of_full hfull]
    rcases h.evictPage_outcome with ⟨hall, -⟩ | ⟨-, hrun⟩
    · exact absurd ⟨hfull, hall⟩ hroom
    · exact hrun
  · refine ⟨p, ?_, h⟩
    rw [makeRoom, Exec.bind_of_ok (Exec.get_apply p), if_neg hfull]
    rfl

theorem Ready.makeRoom_full (h : Ready p) (hfull : Full p) :
    ∃ q, makeRoom p = some (.error .lruEviction, { p with replacer := q }) := by
  rw [makeRoom_of_full hfull.1]
  rcases h.evictPage_outcome with ⟨-, hrun⟩ | ⟨hno, -⟩
  · exact hrun
  · exact absurd hfull.2 hno

/-! ### Requests -/

/-- **`fetch_page` succeeds** on a page that is cached, or when the pool is not full of pinned
pages. -/
theorem Ready.fetchPage_ok (h : Ready p) {id : PageId} {c : BTreeNode} (ha : id.Aligned)
    (hne : id.val ≠ 0) (hhas : p.Has id c) (hroom : id ∈ p.pageTable ∨ ¬ Full p) :
    ∃ f p', fetchPage id p = some (.ok f, p') := by
  cases hl : p.pageTable.lookup id with
  | some f =>
    obtain ⟨p', hrun, -⟩ := h.fetchPage_hit hl
    exact ⟨f, p', hrun⟩
  | none =>
    have hnot : ¬ Full p := hroom.resolve_left (AList.lookup_eq_none.mp hl)
    obtain ⟨p₁, hmake, hr₁⟩ := h.makeRoom_ok hnot
    obtain ⟨f, p', hrun, -⟩ := h.fetchPage_of_room hr₁ hl hmake ha hne hhas
    exact ⟨f, p', hrun⟩

theorem Ready.fetchPage_full (h : Ready p) {id : PageId} (hid : id ∉ p.pageTable)
    (hfull : Full p) :
    ∃ q, fetchPage id p = some (.error .lruEviction, { p with replacer := q }) := by
  obtain ⟨q, hrun⟩ := h.makeRoom_full hfull
  refine ⟨q, ?_⟩
  rw [fetchPage, Exec.bind_of_ok (Exec.get_apply p), AList.lookup_eq_none.mpr hid]
  exact Exec.bind_of_error hrun

/-- **`new_page` succeeds** when the pool is not full of pinned pages. -/
theorem Ready.newPage_ok (h : Ready p) (hfresh : Fresh p)
    (hover : p.diskManager.header.nextFreeOffset.toNat + pageSize < 2 ^ 64) (hroom : ¬ Full p)
    (isLeaf : Bool) :
    ∃ f p', newPage isLeaf p = some (.ok (⟨p.diskManager.header.nextFreeOffset⟩, f), p') := by
  obtain ⟨p₁, hmake, hr₁⟩ := h.makeRoom_ok hroom
  obtain ⟨-, ⟨hk₁, -, -⟩, hlt⟩ := h.wf.makeRoom hmake
  obtain ⟨f, p', hmade, -⟩ := hr₁.newPage_of_room (hfresh.of_kept hk₁) hmake (hlt rfl)
    (hk₁.header ▸ hover) isLeaf
  rw [hk₁.header] at hmade
  exact ⟨f, p', hmade⟩

theorem Ready.newPage_full (h : Ready p) (hfull : Full p) (isLeaf : Bool) :
    ∃ q, newPage isLeaf p = some (.error .lruEviction, { p with replacer := q }) := by
  obtain ⟨q, hrun⟩ := h.makeRoom_full hfull
  exact ⟨q, Exec.bind_of_error hrun⟩

end Flusher

end BufferPool

namespace Shared

variable {s s' : Shared φ} {l : Label} {ls : List Label}

/-- The pool is full, and every page in it is on loan. -/
def Crowded (s : Shared φ) : Prop :=
  s.pool.capacity ≤ s.pool.pageTable.keys.length ∧
    ∀ id ∈ s.pool.pageTable, ∃ f, (id, f) ∈ s.loans

/-- The pinned pages are those on loan. -/
theorem crowded_iff (h : s.toLending.Lawful) : s.Crowded ↔ Full s.pool := by
  refine and_congr_right fun _ => forall₂_congr fun id _ => ⟨?_, ?_⟩
  · rintro ⟨f, hloan⟩
    exact ⟨f, h.loans id f hloan, h.mem_held hloan⟩
  · rintro ⟨f, hl, hheld⟩
    obtain ⟨⟨id', f'⟩, hloan, rfl⟩ := List.mem_map.mp (h.held.mem_iff.mp hheld)
    obtain rfl := h.wf.inj id' id f' (h.loans id' f' hloan) hl
    exact ⟨f', hloan⟩

section Flusher

variable [WalFlusher φ]

theorem Step.capacity (h : Latches s) (hstep : Step s l s') :
    s'.pool.capacity = s.pool.capacity := by
  cases hstep with
  | background hb => exact hb.capacity h
  | foreground hf => exact hf.capacity h

theorem Runs.capacity {P : Shared φ → Prop} (h : Sane s) (hruns : Runs P s ls s') :
    s'.pool.capacity = s.pool.capacity := by
  induction hruns with
  | refl => rfl
  | step hruns hstep _ ih => exact (hstep.capacity (h.runs hruns).toLatches).trans ih

/-- The table and the replacer stay in step when every page can be flushed. -/
theorem Step.tracked (h : Ready s.pool) (hstep : Step s l s') : Tracked s'.pool := by
  have hsave : ∀ {r : Except DbError Unit} {p' : BufferPool φ},
      disk DiskManager.saveHeader s.pool = some (r, p') → Tracked p' := by
    intro r p' hrun
    obtain ⟨d, -, rfl⟩ := disk_outcome hrun
    exact h.tracked
  cases hstep with
  | background hb =>
    cases hb with
    | timeout | received | disconnected | lock => exact h.tracked
    | flush hstage hopen hrun => exact (h.inStep.flushPage hrun).tracked
    | fail hstage hopen hrun => exact (h.inStep.flushPage hrun).tracked
    | save hstage hrun => exact hsave hrun
  | foreground hf =>
    cases hf with
    | request | lock | unlock | clone | drop | latch | write | unlatch | relog | signal | take
    | skip | joined => exact h.tracked
    | call hrunning howner hknown hopen hone hrun =>
      exact (PoolCall.keepsStep h.inStep (fun _ id _ => h.flushable id) hrun).1.tracked
    | save hrunning howner hrun => exact hsave hrun

/-- **The step lemma.** Nothing comes to stand in the way of a request. -/
theorem Step.ready (h : Sane s) (hready : Ready s.pool) (hstep : Step s l s')
    (hrel : WalFlusher.Reliable s'.pool.walFlusher)
    (hfits : ∀ c id node, l = .write c id node → node.IsSlotted ∧ node.encodedSize ≤ pageSize) :
    Ready s'.pool where
  wf := (h.step hstep).lawful.wf
  tracked := hstep.tracked hready
  capacity := hstep.capacity h.toLatches ▸ hready.capacity
  noFaults := hstep.faults h hready.noFaults
  reliable := hrel
  encodable := by
    refine encodable_iff.mpr (hstep.dirtyNodes h (encodable_iff.mp hready.encodable) ?_)
    intro c id node hl _
    rw [BTreeNode.isSlotted_bare, BTreeNode.encodedSize_bare]
    exact hfits c id node hl

/-- **The run lemma.** -/
theorem Runs.ready (h : Sane s) (hready : Ready s.pool)
    (hruns : Runs (fun t => WalFlusher.Reliable t.pool.walFlusher) s ls s')
    (hfits : ∀ c id node, Label.write c id node ∈ ls →
      node.IsSlotted ∧ node.encodedSize ≤ pageSize) : Ready s'.pool := by
  induction hruns with
  | refl => exact hready
  | step hruns hstep hrel ih =>
    have hready' := ih fun c id node hmem => hfits c id node (List.mem_cons_of_mem _ hmem)
    refine hstep.ready (h.runs hruns) hready' hrel fun c id node hl => ?_
    exact hfits c id node (hl ▸ List.mem_cons_self ..)

/-- **A request fails only when every page is on loan.** Whatever clients and thread have done, a
client that has the lock gets every page that has a content, and with it this content, and every
page it asks to be made, unless the pool is full of pages on loan and the page is not one of them.
Then it is told so, and only the replacer has changed. -/
theorem requests_served {l : Lending φ} (hlaw : l.Lawful)
    (hknown : ∀ id ∈ l.pool.pageTable, id ∈ l.made) (hready : Ready l.pool)
    (hruns : Runs (fun t => WalFlusher.Reliable t.pool.walFlusher) (start l) ls s)
    (hfits : ∀ c id node, Label.write c id node ∈ ls →
      node.IsSlotted ∧ node.encodedSize ≤ pageSize) :
    (∀ id c, Allocated s.pool id → s.pool.Has id c →
      (id ∈ s.pool.pageTable ∨ ¬ s.Crowded → ∃ f p' node, fetchPage id s.pool = some (.ok f, p') ∧
        p'.frames[f]? = some node ∧ node.bare = c) ∧
      (id ∉ s.pool.pageTable → s.Crowded → ∃ q,
        fetchPage id s.pool = some (.error .lruEviction, { s.pool with replacer := q }))) ∧
    ∀ isLeaf,
      (s.pool.diskManager.header.nextFreeOffset.toNat + pageSize < 2 ^ 64 → ¬ s.Crowded →
        ∃ f p', newPage isLeaf s.pool =
          some (.ok (⟨s.pool.diskManager.header.nextFreeOffset⟩, f), p')) ∧
      (s.Crowded → ∃ q,
        newPage isLeaf s.pool = some (.error .lruEviction, { s.pool with replacer := q })) := by
  have hstart := Sane.start hlaw hknown
  have hs := hstart.runs hruns
  have hready' := hruns.ready hstart hready hfits
  rw [crowded_iff hs.lawful]
  refine ⟨fun id c halloc hc => ⟨fun hroom => ?_, hready'.fetchPage_full⟩, fun isLeaf =>
    ⟨fun hover hroom => hready'.newPage_ok hs.lawful.fresh hover hroom isLeaf,
      fun hfull => hready'.newPage_full hfull isLeaf⟩⟩
  obtain ⟨f, p', hrun⟩ := hready'.fetchPage_ok halloc.aligned halloc.ne_zero hc hroom
  obtain ⟨hw', hfetch⟩ := (hready'.wf.fetchPage hrun).2 f rfl halloc.aligned
  obtain ⟨node, hf, hbare⟩ :=
    hc.fetched_node hw' hready'.noFaults halloc.aligned halloc.ne_zero hfetch
  exact ⟨f, p', node, hrun, hf, hbare⟩

end Flusher

/-- With room for one page, which is on loan, there is no other to be had. -/
theorem requests_served_crowded : ∃ ls s, Runs (fun _ => True) (start unused) ls s ∧
    (∃ f p' node, fetchPage ⟨4096⟩ s.pool = some (.ok f, p') ∧ p'.frames[f]? = some node ∧
      node.bare = dirtyLeaf.bare) ∧
    ∃ q, newPage true s.pool = some (.error .lruEviction, { s.pool with replacer := q }) := by
  obtain ⟨ls, s, hruns, hnone, hcalm⟩ := exists_calm
  obtain ⟨s', hwrite, hcalm'⟩ := hcalm.write
  have hruns' := hruns.step hwrite trivial
  have hstart := Sane.start unused_lawful unused_known
  have hs := hstart.runs hruns
  have hfits : ∀ c id node, Label.write c id node ∈ Label.write 0 ⟨4096⟩ dirtyLeaf :: ls →
      node.IsSlotted ∧ node.encodedSize ≤ pageSize := by
    intro c id node hmem
    rcases List.mem_cons.mp hmem with heq | hmem
    · cases heq
      exact ⟨isSlotted_dirtyLeaf, by decide⟩
    · exact absurd hmem (not_mem_of_lastWrite (hnone id) c node)
  have hserve : Serviceable unused.pool := .new rfl Nat.one_pos WalFlusher.reliable_none
  obtain ⟨hfetch, hnew⟩ := requests_served unused_lawful unused_known hserve.toReady
    (hruns'.imp fun t _ => WalFlusher.reliable_empty t.pool.walFlusher) hfits
  -- the page is cached, and the client has its frame
  have hloan : (⟨4096⟩, 0) ∈ s'.loans := by
    rw [hcalm'.loans]
    exact List.mem_singleton_self _
  have hs' := hstart.runs hruns'
  have hmem : (⟨4096⟩ : PageId) ∈ s'.pool.pageTable :=
    AList.mem_of_lookup (hs'.lawful.loans _ _ hloan)
  have hcrowded : s'.Crowded := by
    refine ⟨?_, fun id hid => ⟨0, ?_⟩⟩
    · rw [hruns'.capacity hstart, hcalm'.keys]
      exact Nat.le_refl 1
    · have hkey := AList.mem_keys.mp hid
      rw [hcalm'.keys] at hkey
      rw [List.mem_singleton.mp hkey]
      exact hloan
  have hhas := hwrite.has_write hs rfl isSlotted_dirtyLeaf
  exact ⟨_, s', hruns', (hfetch _ _ (hs'.lawful.made _ (hs'.known _ hmem)) hhas).1 (.inl hmem),
    (hnew true).2 hcrowded⟩

end Shared

end SmolDb
