import SmolDb.Pool.Clients
import SmolDb.Pool.InStep

/-!
# Frames in the hands of clients

Any number of clients work on one pool; its lock lets one call through at a time. A client that
was handed a frame keeps it for as long as it likes, clones it, drops it and writes into it. A
`Lending` is the pool with the clones that clients hold (`loans`, each with the page it was asked
for) and the pages that `new_page` has returned (`made`), which are the only ones that are fetched.

What is to be shown is that a client never holds a frame the pool has forgotten: every loan is the
frame the table has for its page (`Lawful.loans`), so that there are never two frames for one page.
Eviction asks the strong count of a frame, and the count sees every loan (`Lawful.held`). The
invariant is one of every state between two calls, whatever fails in them.
-/

namespace SmolDb

open BufferPool

variable {φ : Type}

/-- The frame a call hands to its client, with its page. -/
def handed : Except DbError (Option (PageId × Frame)) → List (PageId × Frame)
  | .ok (some loan) => [loan]
  | _ => []

/-- The page a call has made. -/
def PoolCall.makes : PoolCall → Except DbError (Option (PageId × Frame)) → List PageId
  | .newPage _, r => (handed r).map Prod.fst
  | .fetchPage _, _ | .flushPage _, _ | .flushAllPages _, _ => []

/-- A pool and what its clients have of it. -/
structure Lending (φ : Type) where
  pool : BufferPool φ
  loans : List (PageId × Frame)
  made : List PageId

namespace Lending

/-- A new pool over an empty file, with the faults of the disk to come. -/
def start (faults : List (Option ℕ)) (capacity : ℕ) (w : Option φ) : Lending φ where
  pool := new ⟨.empty, .default, faults⟩ capacity w
  loans := []
  made := []

/-- The state after a call with the result `r`. -/
def called (s : Lending φ) (c : PoolCall) (r : Except DbError (Option (PageId × Frame)))
    (p' : BufferPool φ) : Lending φ where
  pool := p'
  loans := handed r ++ s.loans
  made := c.makes r ++ s.made

section Flusher

variable [WalFlusher φ]

/-- One step: a call, successful or not, or something a client does with a frame it holds, or the
log behind the pool has changed. -/
inductive Lends (s : Lending φ) : Lending φ → Prop
  | call {c : PoolCall} {r : Except DbError (Option (PageId × Frame))} {p' : BufferPool φ}
      (hknown : ∀ id, c = .fetchPage id → id ∈ s.made) (hrun : c.run s.pool = some (r, p')) :
      Lends s (s.called c r p')
  | write {id : PageId} {f : Frame} (hloan : (id, f) ∈ s.loans) (node : BTreeNode) :
      Lends s { s with pool := s.pool.withNode f node }
  | clone {id : PageId} {f : Frame} (hloan : (id, f) ∈ s.loans) :
      Lends s { s with
        pool := { s.pool with held := f :: s.pool.held }
        loans := (id, f) :: s.loans }
  | drop {id : PageId} {f : Frame} (hloan : (id, f) ∈ s.loans) :
      Lends s { s with
        pool := { s.pool with held := s.pool.held.erase f }
        loans := s.loans.erase (id, f) }
  | relog (w : φ) :
      Lends s { s with pool := { s.pool with walFlusher := s.pool.walFlusher.map fun _ => w } }

/-- The states any number of steps lead to. -/
inductive Reached (capacity : ℕ) : Lending φ → Prop
  | start (faults : List (Option ℕ)) (w : Option φ) : Reached capacity (start faults capacity w)
  | step {s s' : Lending φ} (h : Reached capacity s) (hstep : Lends s s') : Reached capacity s'

end Flusher

/-- What is true between two calls. -/
structure Lawful (s : Lending φ) : Prop where
  wf : Wf s.pool
  fresh : Fresh s.pool
  made : ∀ id ∈ s.made, Allocated s.pool id
  held : s.pool.held.Perm (s.loans.map Prod.snd)
  loans : ∀ id f, (id, f) ∈ s.loans → s.pool.pageTable.lookup id = some f

theorem Lawful.start (faults : List (Option ℕ)) (capacity : ℕ) (w : Option φ) :
    Lawful (start faults capacity w) where
  wf := .new _ _ _
  fresh := .new _ _ _ _
  made := nofun
  held := .refl _
  loans := nofun

/-- A frame on loan counts as held. -/
theorem Lawful.mem_held {s : Lending φ} (h : Lawful s) {id : PageId} {f : Frame}
    (hloan : (id, f) ∈ s.loans) : f ∈ s.pool.held :=
  h.held.mem_iff.mpr (List.mem_map.mpr ⟨_, hloan, rfl⟩)

end Lending

/-! ### What a call does to the loans -/

variable {p p' : BufferPool φ} {r : Except DbError (Option (PageId × Frame))}

/-- What a call does to the frames that clients hold: it takes none away, and the one it hands out
is the frame of its page. -/
structure Hands (p p' : BufferPool φ) (r : Except DbError (Option (PageId × Frame))) : Prop where
  held : p'.held = (handed r).map Prod.snd ++ p.held
  pinned : ∀ id f, p.pageTable.lookup id = some f → f ∈ p.held → p'.pageTable.lookup id = some f
  loaned : ∀ id f, (id, f) ∈ handed r → p'.pageTable.lookup id = some f
  capacity : p'.capacity = p.capacity

theorem handed_map_none (r : Except DbError Unit) : handed (r.map fun _ => none) = [] := by
  cases r with
  | error e => rfl
  | ok => rfl

theorem Hands.of_kept (hk : Kept p p') (hr : handed r = []) : Hands p p' r where
  held := by
    rw [hr]
    exact hk.held
  pinned := hk.pinned
  loaned id f h := by
    rw [hr] at h
    cases h
  capacity := hk.capacity

section Flusher

variable [WalFlusher φ] {c : PoolCall}

/-- A call is a step of a client. -/
theorem PoolCall.client (hknown : ∀ id, c = .fetchPage id → Allocated p id)
    (hrun : c.run p = some (r, p')) : Client p p' := by
  cases PoolCall.run_outcome hrun with
  | fetchFailed hfetch => exact .fetch (hknown _ rfl) hfetch
  | fetched hfetch => exact .fetch (hknown _ rfl) hfetch
  | makeFailed hnew => exact .make hnew
  | made hnew => exact .make hnew
  | flushed hflush => exact .flush hflush
  | flushedAll hflush => exact .flushAll hflush

theorem PoolCall.hands (hw : Wf p) (hfresh : Fresh p)
    (hknown : ∀ id, c = .fetchPage id → Allocated p id) (hrun : c.run p = some (r, p')) :
    Hands p p' r := by
  -- only a fetch and a new page hand out a frame, the one they put into the table
  cases PoolCall.run_outcome hrun with
  | fetchFailed hfetch => exact .of_kept ((hw.fetchPage hfetch).1 _ rfl).2.kept rfl
  | fetched hfetch =>
    have hf := ((hw.fetchPage hfetch).2 _ rfl (hknown _ rfl).aligned).2
    refine ⟨hf.held, hf.grown.pinned, fun id' f' hloan => ?_, hf.grown.capacity⟩
    cases List.mem_singleton.mp hloan
    exact hf.lookup
  | makeFailed hnew => exact .of_kept ((hw.newPage hfresh hnew).2.1 _ rfl).kept rfl
  | made hnew =>
    have hc := (hw.newPage hfresh hnew).2.2 _ _ rfl
    refine ⟨hc.held, hc.grown.pinned, fun id' f' hloan => ?_, hc.grown.capacity⟩
    cases List.mem_singleton.mp hloan
    exact hc.lookup
  | flushed hflush =>
    exact .of_kept (within_flushPage _ _ _ _ hflush hw).2.1 (handed_map_none _)
  | flushedAll hflush =>
    exact .of_kept (within_flushAllPages _ _ _ _ hflush hw).2.1 (handed_map_none _)

/-- The page a call has made is an allocated one. -/
theorem PoolCall.makes_allocated (hw : Wf p) (hfresh : Fresh p) (hrun : c.run p = some (r, p')) :
    ∀ id ∈ c.makes r, Allocated p' id := by
  intro id hid
  cases PoolCall.run_outcome hrun with
  | made hnew =>
    cases List.mem_singleton.mp hid
    have hc := (hw.newPage hfresh hnew).2.2 _ _ rfl
    obtain ⟨ha, hne⟩ := hfresh.aligned_next hc
    refine ⟨ha, hne, ?_⟩
    -- the counter stood at the new page and has moved past it
    rw [hc.next_toNat, hc.offset]
    exact Nat.lt_add_of_pos_right (by decide)
  | makeFailed hnew => cases hid
  | fetchFailed hfetch => cases hid
  | fetched hfetch => cases hid
  | flushed hflush => cases hid
  | flushedAll hflush => cases hid

/-- A call hands out the page it fetches or the page it makes. -/
theorem PoolCall.handed_cases (hrun : c.run p = some (r, p')) {id : PageId} {f : Frame}
    (hloan : (id, f) ∈ handed r) : c = .fetchPage id ∨ id ∈ c.makes r := by
  cases PoolCall.run_outcome hrun with
  | fetchFailed hfetch => cases hloan
  | fetched hfetch =>
    cases List.mem_singleton.mp hloan
    exact .inl rfl
  | makeFailed hnew => cases hloan
  | made hnew => exact .inr (List.mem_map.mpr ⟨_, hloan, rfl⟩)
  | flushed hflush =>
    rw [handed_map_none] at hloan
    cases hloan
  | flushedAll hflush =>
    rw [handed_map_none] at hloan
    cases hloan

/-- A page that a call has made is new: it is a clean node without content in the frame that was
handed out, over a place that was never written. -/
theorem PoolCall.makes_new (hw : Wf p) (hfresh : Fresh p) (hunborn : Unborn p)
    (hrun : c.run p = some (r, p')) {id : PageId} (hid : id ∈ c.makes r) :
    ∃ isLeaf f, c = .newPage isLeaf ∧ handed r = [(id, f)] ∧
      id.val = p.diskManager.header.nextFreeOffset ∧
      (p'.line id).blank ∧ (p'.line id).cached = some (f, BTreeNode.newEmpty id isLeaf, false) := by
  cases PoolCall.run_outcome hrun with
  | @made isLeaf id' f p₁ hnew =>
    obtain rfl : id = id' := List.mem_singleton.mp hid
    have hc := (hw.newPage hfresh hnew).2.2 id f rfl
    refine ⟨isLeaf, f, rfl, rfl, hc.offset, hc.blank hunborn hfresh, ?_⟩
    have hcached := congrArg WriteBack.Line.cached (line_of_lookup hc.lookup hc.frame)
    cases isLeaf with
    | false => exact hcached
    | true => exact hcached
  | makeFailed hnew => cases hid
  | fetchFailed hfetch => cases hid
  | fetched hfetch => cases hid
  | flushed hflush => cases hid
  | flushedAll hflush => cases hid

/-- To a page a call is a number of moves of the cache, unless it fetches the page. -/
theorem PoolCall.moves (hw : Wf p) (hfresh : Fresh p)
    (hknown : ∀ id, c = .fetchPage id → Allocated p id) (hrun : c.run p = some (r, p'))
    {id : PageId} (halloc : Allocated p id) :
    (∃ f, c = .fetchPage id ∧ Fetched p p' id f) ∨
      WriteBack.Moves BTreeNode.IsSlotted (· ∈ p.held) (p.diskManager.faults ≠ [])
        (p.line id) (p'.line id) := by
  cases PoolCall.run_outcome hrun with
  | fetchFailed hfetch =>
    exact .inr (((hw.fetchPage hfetch).1 _ rfl).2.moves id halloc.aligned halloc.ne_zero)
  | @fetched id' f p₁ hfetch =>
    have hf := ((hw.fetchPage hfetch).2 f rfl (hknown id' rfl).aligned).2
    -- the one page that is not merely moved is the one fetched
    by_cases heq : id = id'
    · subst heq
      exact .inl ⟨f, rfl, hf⟩
    · exact .inr (hf.moves id halloc.aligned halloc.ne_zero heq)
  | makeFailed hnew =>
    exact .inr (((hw.newPage hfresh hnew).2.1 _ rfl).moves id halloc.aligned halloc.ne_zero)
  | made hnew =>
    have hc := (hw.newPage hfresh hnew).2.2 _ _ rfl
    exact .inr (hc.moves id halloc.aligned halloc.ne_zero (halloc.ne_new hc.offset))
  | flushed hflush =>
    exact .inr ((within_flushPage _ _ _ _ hflush hw).2.2 id halloc.aligned halloc.ne_zero)
  | flushedAll hflush =>
    exact .inr ((within_flushAllPages _ _ _ _ hflush hw).2.2 id halloc.aligned halloc.ne_zero)

end Flusher

/-! ### The invariant -/

namespace Lending

section Flusher

variable [WalFlusher φ] {s s' : Lending φ}

theorem Lawful.call (h : Lawful s) {c : PoolCall} {r : Except DbError (Option (PageId × Frame))}
    {p' : BufferPool φ} (hknown : ∀ id, c = .fetchPage id → id ∈ s.made)
    (hrun : c.run s.pool = some (r, p')) : Lawful (s.called c r p') := by
  have halloc : ∀ id, c = .fetchPage id → Allocated s.pool id := fun id hc =>
    h.made id (hknown id hc)
  have hkind := (PoolCall.client halloc hrun).kind h.wf h.fresh
  -- what the call hands out comes to the loans, and takes none of them away
  have hhands := PoolCall.hands h.wf h.fresh halloc hrun
  refine ⟨hkind.wf, hkind.fresh, fun id hid => ?_, ?_, fun id f hloan => ?_⟩
  · rcases List.mem_append.mp hid with hnew | hold
    · exact PoolCall.makes_allocated h.wf h.fresh hrun id hnew
    · exact hkind.allocated id (h.made id hold)
  · show p'.held.Perm ((handed r ++ s.loans).map Prod.snd)
    rw [hhands.held, List.map_append]
    exact h.held.append_left _
  · rcases List.mem_append.mp hloan with hnew | hold
    · exact hhands.loaned id f hnew
    · -- an eviction does not take the page of a loan
      exact hhands.pinned id f (h.loans id f hold) (h.mem_held hold)

/-- **The step lemma.** -/
theorem Lawful.step (h : Lawful s) (hstep : Lends s s') : Lawful s' := by
  cases hstep with
  | call hknown hrun => exact h.call hknown hrun
  | write hloan node =>
    exact
      { wf := h.wf.withNode _ _
        fresh := ⟨h.fresh.aligned, h.fresh.pos, h.fresh.below⟩
        made := fun id hid => ⟨(h.made id hid).aligned, (h.made id hid).ne_zero,
          (h.made id hid).below⟩
        held := h.held
        loans := h.loans }
  | @clone id f hloan =>
    exact
      { wf := h.wf.hold (h.loans id f hloan)
        fresh := ⟨h.fresh.aligned, h.fresh.pos, h.fresh.below⟩
        made := fun id hid => ⟨(h.made id hid).aligned, (h.made id hid).ne_zero,
          (h.made id hid).below⟩
        held := h.held.cons f
        loans := fun id' f' hloan' => by
          rcases List.mem_cons.mp hloan' with heq | hold
          · cases heq
            exact h.loans id f hloan
          · exact h.loans id' f' hold }
  | @drop id f hloan =>
    exact
      { wf := h.wf.drop f
        fresh := ⟨h.fresh.aligned, h.fresh.pos, h.fresh.below⟩
        made := fun id hid => ⟨(h.made id hid).aligned, (h.made id hid).ne_zero,
          (h.made id hid).below⟩
        held := by
          -- one clone less is held, and one loan less is out
          have hmap := (List.perm_cons_erase hloan).map Prod.snd
          have herase := (h.held.trans hmap).erase f
          rw [List.map_cons, List.erase_cons_head] at herase
          exact herase
        loans := fun id' f' hloan' => h.loans id' f' (List.mem_of_mem_erase hloan') }
  | relog w =>
    exact
      { wf := ⟨h.wf.replacer, h.wf.bounded, h.wf.framed, h.wf.inj, h.wf.held, h.wf.aligned⟩
        fresh := ⟨h.fresh.aligned, h.fresh.pos, h.fresh.below⟩
        made := fun id hid => ⟨(h.made id hid).aligned, (h.made id hid).ne_zero,
          (h.made id hid).below⟩
        held := h.held
        loans := h.loans }

theorem Lends.capacity (h : Lawful s) (hstep : Lends s s') :
    s'.pool.capacity = s.pool.capacity := by
  cases hstep with
  | call hknown hrun =>
    exact (PoolCall.hands h.wf h.fresh (fun id hc => h.made id (hknown id hc)) hrun).capacity
  | write | clone | drop | relog => rfl

/-- **The run lemma.** -/
theorem Reached.lawful {capacity : ℕ} (h : Reached capacity s) :
    Lawful s ∧ s.pool.capacity = capacity := by
  induction h with
  | start faults w => exact ⟨.start faults capacity w, rfl⟩
  | step _ hstep ih => exact ⟨ih.1.step hstep, (hstep.capacity ih.1).trans ih.2⟩

end Flusher

end Lending

/-! ### What follows -/

/-- The assertions of the pool that do not fail: the closure `evict_page` gives to the replacer
finds every tracked page in the table, and the replacer has a place for every page that is
recorded, by a hit or after room was made for a new one. -/
structure Sturdy [WalFlusher φ] (p : BufferPool φ) : Prop where
  scan : ∃ found, p.replacer.evictIf (fun _ => p.isUnpinned) () = some found
  hit : ∀ id ∈ p.pageTable, ∃ q, p.replacer.recordAccess id = some q
  room : ∀ p', makeRoom p = some (.ok (), p') → ∀ id, ∃ q, p'.replacer.recordAccess id = some q

/-- A scan whose predicate has an answer for every page comes to an end. -/
theorem exists_scan {pred : PageId → Option (Bool × Unit)} {l : List PageId}
    (h : ∀ id ∈ l, ∃ b, pred id = some (b, ())) :
    ∃ found, Recency.scan (fun _ => pred) l () = some (found, ()) := by
  induction l with
  | nil => exact ⟨none, rfl⟩
  | cons id l ih =>
    obtain ⟨b, hb⟩ := h id (List.mem_cons_self ..)
    obtain ⟨found, hrest⟩ := ih fun id' hid' => h id' (List.mem_cons_of_mem _ hid')
    -- the scan stops at the first page accepted
    cases b with
    | true =>
      refine ⟨some id, ?_⟩
      rw [Recency.scan, hb]
      rfl
    | false =>
      refine ⟨found, ?_⟩
      rw [Recency.scan, hb]
      exact hrest

/-- The replacer has a place for a page as long as it tracks fewer than it may. -/
theorem exists_recordAccess {q : LruReplacer} {capacity : ℕ} {is : List ℕ} {l : List PageId}
    (ht : q.Threaded capacity is l) {id : PageId} (hroom : id ∈ l ∨ l.length < capacity) :
    ∃ q', q.recordAccess id = some q' := by
  by_cases hid : id ∈ l
  · obtain ⟨q', -, hq, -⟩ := ht.recordAccess_of_mem hid
    exact ⟨q', hq⟩
  · obtain ⟨q', -, hq, -⟩ := ht.recordAccess_of_notMem hid (hroom.resolve_left hid)
    exact ⟨q', hq⟩

theorem sturdy_of_wf [WalFlusher φ] (hw : Wf p) : Sturdy p where
  scan := by
    obtain ⟨is, l, ht, hsub⟩ := hw.replacer
    -- every page on the list is in the table, so the scan finds its frame
    have hpred : ∀ id ∈ l.reverse, ∃ b, p.isUnpinned id = some (b, ()) := by
      intro id hid
      obtain ⟨f, hl⟩ := AList.exists_lookup (hsub id (List.mem_reverse.mp hid))
      refine ⟨p.strongCount f == 1, ?_⟩
      rw [isUnpinned, hl]
      rfl
    obtain ⟨found, hscan⟩ := exists_scan hpred
    rcases ht.evictIf (fun _ => p.isUnpinned) () with ⟨hpanic, -⟩ | ⟨found', s, q, -, -, hc, -⟩
    · rw [Recency.evictIf, hscan] at hpanic
      cases hpanic
    · exact ⟨_, hc⟩
  hit id hid := by
    obtain ⟨is, l, ht, hsub⟩ := hw.replacer
    refine exists_recordAccess ht ?_
    by_cases hmem : id ∈ l
    · exact .inl hmem
    · -- the table is larger than the list, because it has the page as well
      refine .inr (Nat.lt_of_lt_of_le ?_ hw.bounded)
      have hcons := length_le_keys (p := p) (List.nodup_cons.mpr ⟨hmem, ht.nodup⟩)
        (List.forall_mem_cons.mpr ⟨hid, hsub⟩)
      exact hcons
  room p' hroom id := by
    obtain ⟨hw', -, hlt⟩ := hw.makeRoom hroom
    obtain ⟨is, l, ht, hsub⟩ := hw'.replacer
    exact exists_recordAccess ht
      (.inr (Nat.lt_of_le_of_lt (length_le_keys ht.nodup hsub) (hlt rfl)))

namespace Lending

variable [WalFlusher φ] {s : Lending φ}

/-- What clients can rely on. -/
structure Safe (s : Lending φ) (capacity : ℕ) : Prop where
  bounded : s.pool.pageTable.keys.length ≤ capacity
  tracked : ∀ id, id ∈ s.pool.replacer.pages → id ∈ s.pool.pageTable
  clones : s.pool.held.Perm (s.loans.map Prod.snd)
  loaned : ∀ id f, (id, f) ∈ s.loans → s.pool.pageTable.lookup id = some f
  oneFrame : ∀ id f g, (id, f) ∈ s.loans → (id, g) ∈ s.loans → f = g
  sturdy : Sturdy s.pool

/-- **The pool is safe for its clients**: after any run the frame of every loan is the one the
table has for its page, and no assertion of the pool fails in the call that comes next. -/
theorem loans_safe {capacity : ℕ} (h : Reached capacity s) : Safe s capacity := by
  obtain ⟨hlaw, hcapacity⟩ := h.lawful
  refine
    { bounded := hcapacity ▸ hlaw.wf.bounded
      tracked := fun id hid => ?_
      clones := hlaw.held
      loaned := hlaw.loans
      oneFrame := fun id f g hf hg => ?_
      sturdy := sturdy_of_wf hlaw.wf }
  · obtain ⟨is, l, ht, hsub⟩ := hlaw.wf.replacer
    refine hsub id ((ht.mem_iff id).mpr ?_)
    exact AList.exists_lookup hid
  · exact Option.some.inj ((hlaw.loans id f hf).symm.trans (hlaw.loans id g hg))

/-- Two clients with clones of one frame, over a disk whose first write fails. -/
theorem loans_safe_twoClones : ∃ s : Lending Empty,
    s.loans = [(⟨4096⟩, 0), (⟨4096⟩, 0)] ∧ Reached 1 s ∧ Safe s 1 := by
  have hroom : makeRoom (Lending.start [some 0] 1 (none : Option Empty)).pool =
      some (.ok (), (Lending.start [some 0] 1 none).pool) := rfl
  obtain ⟨p', hmake⟩ : ∃ p', newPage true (Lending.start [some 0] 1 (none : Option Empty)).pool =
      some (.ok (⟨4096⟩, 0), p') := ⟨_, newPage_ok hroom (by decide) rfl⟩
  have hcall : Lends (Lending.start [some 0] 1 (none : Option Empty))
      ⟨p', [(⟨4096⟩, 0)], [⟨4096⟩]⟩ :=
    .call (c := .newPage true) nofun (Exec.bind_of_ok hmake)
  have hreached := (Reached.start [some 0] none).step hcall
  have hclone := hreached.step (.clone (List.mem_singleton_self _))
  exact ⟨_, rfl, hclone, loans_safe hclone⟩

end Lending

end SmolDb
