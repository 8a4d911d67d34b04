import SmolDb.Page.Budget
import SmolDb.Pool.Coherence

/-!
# When a flush fails

A flush of a dirty page asks three parties in turn: the log, the encoder and the disk. It succeeds
exactly when none of them fails (`flushPage_ok_iff`), and its error is the error of the first that
does (`FlushError`). The encoder is the only one that says `PageFull`, and it never does for a
leaf that stayed within its byte budget.
-/

namespace SmolDb

namespace BufferPool

variable {φ α : Type} {p p' : BufferPool φ}

/-- What the encoder says to a flush. -/
theorem encodePage_result {node : BTreeNode} {r : Except DbError Page}
    (h : encodePage node p = some (r, p')) :
    (∃ e page, r = .error e ∧ node.encode Page.new = some (.error e, page)) ∨
      ∃ page, r = .ok page ∧ node.encode Page.new = some (.ok (), page) := by
  unfold encodePage at h
  cases henc : node.encode Page.new with
  | none =>
    rw [henc] at h
    cases h
  | some done =>
    obtain ⟨e | u, page⟩ := done
    · rw [henc] at h
      cases h
      exact .inl ⟨e, page, rfl, rfl⟩
    · rw [henc] at h
      cases h
      exact .inr ⟨page, rfl, rfl⟩

/-- What the disk says to a flush. -/
theorem writePage_result {id : PageId} {page : Page} {r : Except DbError Unit}
    (h : disk (DiskManager.writePage id page) p = some (r, p')) :
    (r = .ok () ∧ p.diskManager.faults.headD none = none) ∨
      (r = .error (.io .other) ∧ p.diskManager.faults.headD none ≠ none) := by
  obtain ⟨d, hd, -⟩ := disk_outcome h
  unfold DiskManager.writePage DiskManager.writeAllAt at hd
  obtain ⟨hfault, hd⟩ | ⟨k, hfault, hd⟩ := of_nextFault hd
  · cases hd
    exact .inl ⟨rfl, hfault⟩
  · cases hd
    rw [hfault]
    exact .inr ⟨rfl, nofun⟩

section Flusher

variable [WalFlusher φ]

/-- The errors with which a flush of the node can end. The disk is asked when the encoder is
done. -/
inductive FlushError (p : BufferPool φ) (node : BTreeNode) : DbError → Prop
  | log {w : φ} {e : DbError} (hw : p.walFlusher = some w)
      (he : (WalFlusher.flushUpto w node.getLastLsn).1 = .error e) : FlushError p node e
  | encode {page : Page} {e : DbError} (he : node.encode Page.new = some (.error e, page)) :
      FlushError p node e
  | write {page : Page} (henc : node.encode Page.new = some (.ok (), page))
      (hfault : p.diskManager.faults.headD none ≠ none) : FlushError p node (.io .other)

/-- The page is clean or not cached, or neither the log, nor the encoder, nor the disk fails on
its node. -/
def Flushable (p : BufferPool φ) (id : PageId) : Prop :=
  ∀ f node, p.pageTable.lookup id = some f → p.frames[f]? = some node →
    node.isDirty = true → ∀ e, ¬ p.FlushError node e

/-- What the log says to a flush. -/
theorem flushWal_result {lsn : UInt64} {r : Except DbError Unit}
    (h : flushWal lsn p = some (r, p')) :
    p'.diskManager = p.diskManager ∧ (p.walFlusher = none → r = .ok ()) ∧
      ∀ w, p.walFlusher = some w → (WalFlusher.flushUpto w lsn).1 = r := by
  unfold flushWal at h
  cases hw : p.walFlusher with
  | none =>
    rw [hw] at h
    cases h
    exact ⟨rfl, fun _ => rfl, nofun⟩
  | some w =>
    rw [hw] at h
    cases h
    refine ⟨rfl, nofun, fun w' hw' => ?_⟩
    cases hw'
    rfl

theorem flushWal_returns (lsn : UInt64) (p : BufferPool φ) :
    ∃ r p', flushWal lsn p = some (r, p') := by
  unfold flushWal
  cases p.walFlusher with
  | none => exact ⟨_, _, rfl⟩
  | some w => exact ⟨_, _, rfl⟩

/-- What `flush_page` does to a dirty page. -/
theorem flushPage_dirty {id : PageId} {f : Frame} {node : BTreeNode}
    (hl : p.pageTable.lookup id = some f) (hf : p.frames[f]? = some node)
    (hdirty : node.isDirty = true) :
    flushPage id p = (do
      flushWal node.getLastLsn
      let rawPage ← encodePage node
      disk (DiskManager.writePage id rawPage)
      writeFrame f node.clearDirty) p := by
  have hread : readFrame f p = some (.ok node, p) := by
    rw [readFrame, hf]
    rfl
  rw [flushPage, Exec.bind_of_ok (Exec.get_apply p)]
  simp only [hl]
  rw [Exec.bind_of_ok hread, if_pos hdirty]

/-- A flush of a dirty page fails with the error of the first of the three that does. -/
theorem flushPage_dirty_result {id : PageId} {f : Frame} {node : BTreeNode}
    (hl : p.pageTable.lookup id = some f) (hf : p.frames[f]? = some node)
    (hdirty : node.isDirty = true) {r : Except DbError Unit}
    (h : flushPage id p = some (r, p')) :
    (r = .ok () ∧ ∀ e, ¬ p.FlushError node e) ∨ ∃ e, r = .error e ∧ p.FlushError node e := by
  -- log, encoding, write: the first that fails gives the error
  rw [flushPage_dirty hl hf hdirty] at h
  rcases Exec.bind_eq_some.mp h with ⟨e, rfl, hwal⟩ | ⟨_, p₁, hwal, h₁⟩
  · obtain ⟨-, hnone, hlog⟩ := flushWal_result hwal
    cases hw : p.walFlusher with
    | none => cases hnone hw
    | some w => exact .inr ⟨e, rfl, .log hw (hlog w hw)⟩
  obtain ⟨hdisk, -, hlog⟩ := flushWal_result hwal
  rcases Exec.bind_eq_some.mp h₁ with ⟨e, rfl, henc⟩ | ⟨page, p₂, henc, h₂⟩
  · rcases encodePage_result henc with ⟨e', page, heq, he⟩ | ⟨page, heq, -⟩
    · cases heq
      exact .inr ⟨e, rfl, .encode he⟩
    · cases heq
  obtain ⟨rfl, hpage⟩ := encodePage_outcome henc
  have henc' := hpage page rfl
  rcases Exec.bind_eq_some.mp h₂ with ⟨e, rfl, hwrite⟩ | ⟨_, p₃, hwrite, h₃⟩
  · rcases writePage_result hwrite with ⟨heq, -⟩ | ⟨heq, hfault⟩
    · cases heq
    · cases heq
      rw [hdisk] at hfault
      exact .inr ⟨_, rfl, .write henc' hfault⟩
  · rcases writePage_result hwrite with ⟨-, hfault⟩ | ⟨heq, -⟩
    · cases h₃
      rw [hdisk] at hfault
      refine .inl ⟨rfl, fun e he => ?_⟩
      cases he with
      | log hw he =>
        rw [hlog _ hw] at he
        cases he
      | encode he =>
        rw [henc'] at he
        cases he
      | write _ hno => exact hno hfault
    · cases heq

/-- A flush that fails had a dirty node to write. -/
theorem flushPage_error {id : PageId} {e : DbError} (h : flushPage id p = some (.error e, p')) :
    ∃ f node, p.pageTable.lookup id = some f ∧ p.frames[f]? = some node ∧
      node.isDirty = true ∧ p.FlushError node e := by
  cases flushPage_outcome h with
  | @failed f node _ w d data hl hf hdirty =>
    refine ⟨f, node, hl, hf, hdirty, ?_⟩
    rcases flushPage_dirty_result hl hf hdirty h with ⟨heq, -⟩ | ⟨e', heq, he⟩
    · cases heq
    · cases heq
      exact he

/-- **A flush succeeds** exactly when nothing the page needs fails. -/
theorem flushPage_ok_iff {id : PageId} {r : Except DbError Unit}
    (h : flushPage id p = some (r, p')) : r = .ok () ↔ p.Flushable id := by
  constructor
  · rintro rfl f node hl hf hdirty
    rcases flushPage_dirty_result hl hf hdirty h with ⟨-, hno⟩ | ⟨e, heq, -⟩
    · exact hno
    · cases heq
  · intro hflush
    cases r with
    | ok => rfl
    | error e =>
      obtain ⟨f, node, hl, hf, hdirty, he⟩ := flushPage_error h
      exact absurd he (hflush f node hl hf hdirty e)

/-- A flush of a page that is not flushable returns, with an error. -/
theorem flushPage_fails {id : PageId} (h : ¬ p.Flushable id) :
    ∃ e p', flushPage id p = some (.error e, p') := by
  unfold Flushable at h
  push Not at h
  obtain ⟨f, node, hl, hf, hdirty, e, he⟩ := h
  rw [flushPage_dirty hl hf hdirty]
  obtain ⟨r, p₁, hwal⟩ := flushWal_returns node.getLastLsn p
  cases r with
  | error e' => exact ⟨e', p₁, Exec.bind_of_error hwal⟩
  | ok =>
    -- the log does not fail, so the encoder or the disk does
    rw [Exec.bind_of_ok hwal]
    obtain ⟨hdisk, -, hlog⟩ := flushWal_result hwal
    cases he with
    | log hw he =>
      rw [hlog _ hw] at he
      cases he
    | encode henc =>
      refine ⟨e, p₁, Exec.bind_of_error ?_⟩
      rw [encodePage, henc]
    | @write page henc hfault =>
      have hencode : encodePage node p₁ = some (.ok page, p₁) := by
        rw [encodePage, henc]
      rw [Exec.bind_of_ok hencode]
      rw [← hdisk] at hfault
      obtain ⟨k, hk⟩ := Option.ne_none_iff_exists'.mp hfault
      have hwrite : DiskManager.writePage id page p₁.diskManager = some (.error (.io .other),
          { p₁.diskManager with
            file := p₁.diskManager.file.writeAt id.val.toNat (page.data.take k)
            faults := p₁.diskManager.faults.tail }) := by
        unfold DiskManager.writePage DiskManager.writeAllAt
        rw [Exec.bind_of_ok (nextFault_apply p₁.diskManager), hk]
        rfl
      exact ⟨_, _, Exec.bind_of_error (Exec.zoom_of_some hwrite)⟩

/-- What a flush does not change. -/
theorem flushPage_same {id : PageId} {r : Except DbError Unit}
    (h : flushPage id p = some (r, p')) :
    p'.pageTable = p.pageTable ∧ p'.replacer = p.replacer ∧ p'.capacity = p.capacity ∧
      p'.held = p.held ∧ p'.frames.length = p.frames.length := by
  cases flushPage_outcome h with
  | skipped => exact ⟨rfl, rfl, rfl, rfl, rfl⟩
  | failed => exact ⟨rfl, rfl, rfl, rfl, rfl⟩
  | written => exact ⟨rfl, rfl, rfl, rfl, List.length_set ..⟩

/-- Everything a call of `evict_page` that returns can have done. -/
inductive EvictOutcome (p : BufferPool φ) : Except DbError Unit → BufferPool φ → Prop
  | pinned {q : LruReplacer} (hscan : p.replacer.evictIf (fun _ => p.isUnpinned) () =
      some (none, (), q)) : EvictOutcome p (.error .lruEviction) { p with replacer := q }
  | failed {id : PageId} {q : LruReplacer} {e : DbError} {p' : BufferPool φ}
      (hscan : p.replacer.evictIf (fun _ => p.isUnpinned) () = some (some id, (), q))
      (hflush : flushPage id { p with replacer := q } = some (.error e, p')) :
      EvictOutcome p (.error e) p'
  | evicted {id : PageId} {q : LruReplacer} {p₁ : BufferPool φ}
      (hscan : p.replacer.evictIf (fun _ => p.isUnpinned) () = some (some id, (), q))
      (hflush : flushPage id { p with replacer := q } = some (.ok (), p₁)) :
      EvictOutcome p (.ok ()) { p₁ with pageTable := p₁.pageTable.erase id }

theorem evictPage_outcome {r : Except DbError Unit} (h : evictPage p = some (r, p')) :
    EvictOutcome p r p' := by
  rw [evictPage, Exec.bind_of_ok (Exec.get_apply p)] at h
  -- the replacer offers its pages from the oldest on, as far as an unpinned one
  cases hscan : p.replacer.evictIf (fun _ => p.isUnpinned) () with
  | none =>
    rw [hscan, Exec.bind_of_none (Exec.ofOption_none _)] at h
    cases h
  | some done =>
    obtain ⟨found, u, q⟩ := done
    rw [hscan, Exec.bind_of_ok (Exec.ofOption_some _ _)] at h
    dsimp only at h
    rw [Exec.bind_of_ok (Exec.modify_apply _ _)] at h
    cases found with
    | none =>
      cases h
      exact .pinned hscan
    | some id =>
      rcases Exec.bind_eq_some.mp h with ⟨e, rfl, hflush⟩ | ⟨_, p₁, hflush, h₁⟩
      · exact .failed hscan hflush
      · cases h₁
        exact .evicted hscan hflush

/-! ### Leaves within their budget -/

/-- A flush of a leaf within its budget fails by the log or by the disk. -/
theorem flushPage_error_of_inBudget {id : PageId} {f : Frame} {leaf : LeafNode} {e : DbError}
    (hleaf : InBudget leaf) (hl : p.pageTable.lookup id = some f)
    (hf : p.frames[f]? = some (.leaf leaf)) (h : flushPage id p = some (.error e, p')) :
    e = .io .other ∨
      ∃ w, p.walFlusher = some w ∧ (WalFlusher.flushUpto w leaf.lastLsn).1 = .error e := by
  obtain ⟨f', node, hl', hf', -, herror⟩ := flushPage_error h
  obtain rfl : f = f' := Option.some.inj (hl.symm.trans hl')
  obtain rfl : BTreeNode.leaf leaf = node := Option.some.inj (hf.symm.trans hf')
  cases herror with
  | log hw he => exact .inr ⟨_, hw, he⟩
  | encode he =>
    obtain ⟨page, hok⟩ := hleaf.encodes Page.new
    rw [hok] at he
    cases he
  | write => exact .inl rfl

/-- **A leaf can always be written back** when every update on the way to it fits: it encodes, so
a flush of its page, by itself or by an eviction, fails with an error of the log or of the disk
only. The first call that leads out of the budget is an update that does not fit. -/
theorem reached_writtenBack :
    (∀ leaf, Reached LeafOp.Fits leaf → leaf.Encodes) ∧
    (∀ leaf (op : LeafOp) leaf', Reached LeafOp.Fits leaf →
      op.call leaf = some (.ok (), leaf') → (leaf'.Encodes ↔ op.Fits leaf)) ∧
    (∀ (p p' : BufferPool φ) id f leaf e, Reached LeafOp.Fits leaf →
      p.pageTable.lookup id = some f → p.frames[f]? = some (.leaf leaf) →
      flushPage id p = some (.error e, p') →
        e = .io .other ∨
          ∃ w, p.walFlusher = some w ∧ (WalFlusher.flushUpto w leaf.lastLsn).1 = .error e) ∧
    ∀ (p p' : BufferPool φ) e,
      (∀ id f, p.pageTable.lookup id = some f → ∃ leaf,
        Reached LeafOp.Fits leaf ∧ p.frames[f]? = some (.leaf leaf)) →
      evictPage p = some (.error e, p') →
        e = .lruEviction ∨ e = .io .other ∨
          ∃ w lsn, p.walFlusher = some w ∧ (WalFlusher.flushUpto w lsn).1 = .error e := by
  refine ⟨fun leaf h => h.inBudget.encodes, ?_, ?_, ?_⟩
  · intro leaf op leaf' hleaf h
    have hbudget := hleaf.inBudget
    have hs' := (LeafOp.keeps_call op).slotted hbudget.slotted h
    rw [encodes_iff hs', ← hbudget.call_iff h]
    exact ⟨fun hfit => ⟨hs', hfit⟩, fun h => h.fits⟩
  · intro p p' id f leaf e hleaf hl hf h
    exact flushPage_error_of_inBudget hleaf.inBudget hl hf h
  · intro p p' e hleaves h
    -- only the victim's flush can fail, and the victim is one of the reached leaves
    cases evictPage_outcome h with
    | pinned => exact .inl rfl
    | @failed id q _ _ hscan hfail =>
      obtain ⟨f, node, hl, -⟩ := flushPage_error hfail
      obtain ⟨leaf, hleaf, hf⟩ := hleaves id f hl
      rcases flushPage_error_of_inBudget hleaf.inBudget hl hf hfail with hio | ⟨w, hw, he⟩
      · exact .inr (.inl hio)
      · exact .inr (.inr ⟨w, _, hw, he⟩)

end Flusher

end BufferPool

/-! ### A leaf that is too large -/

/-- Nine records of the greatest size and a small one, which is then updated to a large one. -/
@[irreducible] def overfilling : List LeafOp :=
  ((List.range 9).map fun i =>
    LeafOp.insertRecord (UInt64.ofNat i) (List.replicate maxValueSize 0)) ++
  [.insertRecord 9 [], .updateRecord 9 (List.replicate 399 0)]

/-- An update that succeeds can leave a leaf that no page has room for. -/
theorem overfilled_not_encodes :
    ¬ ∀ leaf, Reached (fun _ _ => True) leaf → leaf.Encodes := by
  intro h
  have hsize : (runCalls (LeafNode.newEmpty ⟨4096⟩) overfilling).map LeafNode.encodedSize =
      some 4190 := by
    decide +kernel
  obtain ⟨leaf, hrun, hleaf⟩ := Option.map_eq_some_iff.mp hsize
  have hreached : Reached (fun _ _ => True) leaf := Reached.runCalls (.new _) hrun
  have hfit := (encodes_iff hreached.slotted).mp (h leaf hreached)
  rw [hleaf] at hfit
  exact absurd hfit (by decide)

end SmolDb
