import SmolDb.Page.Decode
import SmolDb.Pool.Flush
import SmolDb.Pool.Service

/-!
# The cache and the replacer stay in step

Every page in the table should be tracked by the replacer: a page it does not track is never
chosen for eviction again. Three structures are updated one after the other on every path of the
pool, and the calls can be left in between. They agree again after every call that is left with an
error, with one exception: `evict_if` takes the victim out of the replacer before it is flushed,
and a flush that fails leaves the victim in the table (`InStep.makeRoom`). So the two stay in step
exactly as long as every page that has to give way can be flushed (`staysInStep_iff`).

A run is a list of turns: a call of the pool, or something a client does between two calls, like
writing into a frame it holds. The log behind the pool may change between two calls as well.
-/

namespace SmolDb

open BufferPool

/-- A call of the pool. -/
inductive PoolCall where
  | fetchPage (pageId : PageId)
  | newPage (isLeaf : Bool)
  | flushPage (pageId : PageId)
  | flushAllPages (order : HashOrder)

/-- What the call does; a page and its frame are what a client is handed. -/
def PoolCall.run {φ : Type} [WalFlusher φ] :
    PoolCall → Exec DbError (BufferPool φ) (Option (PageId × Frame))
  | .fetchPage pageId => do
    let frame ← BufferPool.fetchPage pageId
    pure (some (pageId, frame))
  | .newPage isLeaf => do
    let made ← BufferPool.newPage isLeaf
    pure (some made)
  | .flushPage pageId => do
    BufferPool.flushPage pageId
    pure none
  | .flushAllPages order => do
    BufferPool.flushAllPages order
    pure none

/-- What a call can do: what the function of the pool does, handing out the page and the frame
that it returns. -/
inductive CallOutcome {φ : Type} [WalFlusher φ] (p : BufferPool φ) :
    PoolCall → Except DbError (Option (PageId × Frame)) → BufferPool φ → Prop
  | fetchFailed {id : PageId} {e : DbError} {p' : BufferPool φ}
      (hfetch : fetchPage id p = some (.error e, p')) : CallOutcome p (.fetchPage id) (.error e) p'
  | fetched {id : PageId} {f : Frame} {p' : BufferPool φ}
      (hfetch : fetchPage id p = some (.ok f, p')) :
      CallOutcome p (.fetchPage id) (.ok (some (id, f))) p'
  | makeFailed {isLeaf : Bool} {e : DbError} {p' : BufferPool φ}
      (hnew : newPage isLeaf p = some (.error e, p')) :
      CallOutcome p (.newPage isLeaf) (.error e) p'
  | made {isLeaf : Bool} {id : PageId} {f : Frame} {p' : BufferPool φ}
      (hnew : newPage isLeaf p = some (.ok (id, f), p')) :
      CallOutcome p (.newPage isLeaf) (.ok (some (id, f))) p'
  | flushed {id : PageId} {r : Except DbError Unit} {p' : BufferPool φ}
      (hflush : flushPage id p = some (r, p')) :
      CallOutcome p (.flushPage id) (r.map fun _ => none) p'
  | flushedAll {order : HashOrder} {r : Except DbError Unit} {p' : BufferPool φ}
      (hflush : flushAllPages order p = some (r, p')) :
      CallOutcome p (.flushAllPages order) (r.map fun _ => none) p'

theorem PoolCall.run_outcome {φ : Type} [WalFlusher φ] {p p' : BufferPool φ} {c : PoolCall}
    {r : Except DbError (Option (PageId × Frame))} (hrun : c.run p = some (r, p')) :
    CallOutcome p c r p' := by
  cases c with
  | fetchPage id =>
    obtain ⟨e, rfl, hfetch⟩ | ⟨f, p₁, hfetch, hpure⟩ := Exec.bind_eq_some.mp hrun
    · exact .fetchFailed hfetch
    · cases hpure
      exact .fetched hfetch
  | newPage isLeaf =>
    obtain ⟨e, rfl, hnew⟩ | ⟨⟨id, f⟩, p₁, hnew, hpure⟩ := Exec.bind_eq_some.mp hrun
    · exact .makeFailed hnew
    · cases hpure
      exact .made hnew
  | flushPage id =>
    obtain ⟨e, rfl, hflush⟩ | ⟨_, p₁, hflush, hpure⟩ := Exec.bind_eq_some.mp hrun
    · exact .flushed hflush
    · cases hpure
      exact .flushed hflush
  | flushAllPages order =>
    obtain ⟨e, rfl, hflush⟩ | ⟨_, p₁, hflush, hpure⟩ := Exec.bind_eq_some.mp hrun
    · exact .flushedAll hflush
    · cases hpure
      exact .flushedAll hflush

/-- The call is one of the two that load a page into a frame. -/
def PoolCall.Loads : PoolCall → Prop
  | .fetchPage _ | .newPage _ => True
  | .flushPage _ | .flushAllPages _ => False

/-- The call has to make room for a page. -/
def PoolCall.NeedsRoom {φ : Type} (p : BufferPool φ) : PoolCall → Prop
  | .fetchPage pageId => p.pageTable.lookup pageId = none ∧ p.capacity ≤ p.pageTable.keys.length
  | .newPage _ => p.capacity ≤ p.pageTable.keys.length
  | .flushPage _ | .flushAllPages _ => False

/-- A turn of a run: a call, a client that holds a frame writes into it, clones or drops it, or
the log behind the pool has changed. -/
inductive Turn (φ : Type) where
  | call (c : PoolCall)
  | write (frame : Frame) (node : BTreeNode)
  | clone (frame : Frame)
  | drop (frame : Frame)
  | relog (flusher : φ)

/-- What a turn does. Nobody can use a frame that nobody holds. -/
def Turn.run {φ : Type} [WalFlusher φ] :
    Turn φ → Exec DbError (BufferPool φ) (Option (PageId × Frame))
  | .call c => c.run
  | .write frame node => fun self =>
    if frame ∈ self.held then some (.ok none, self.withNode frame node) else none
  | .clone frame => fun self =>
    if frame ∈ self.held then some (.ok none, { self with held := frame :: self.held }) else none
  | .drop frame => fun self => some (.ok none, { self with held := self.held.erase frame })
  | .relog flusher => fun self =>
    some (.ok none, { self with walFlusher := self.walFlusher.map fun _ => flusher })

namespace BufferPool

variable {φ α : Type} {p p' : BufferPool φ}

/-- The replacer tracks the pages in the table and no others. -/
def SameKeys (p : BufferPool φ) : Prop := ∀ id, id ∈ p.replacer.pages ↔ id ∈ p.pageTable

/-- A client holds the frame of the page. -/
def Pinned (p : BufferPool φ) (id : PageId) : Prop :=
  ∃ f, p.pageTable.lookup id = some f ∧ f ∈ p.held

/-- Every cached page is pinned. -/
def AllPinned (p : BufferPool φ) : Prop := ∀ id, id ∈ p.pageTable → p.Pinned id

/-- The page that has to give way: the least recently used one that is not pinned. -/
def Victim (p : BufferPool φ) (id : PageId) : Prop :=
  ∃ is l₁ l₂, p.replacer.Threaded p.capacity is (l₁ ++ id :: l₂) ∧ ¬ p.Pinned id ∧
    ∀ id' ∈ l₂, p.Pinned id'

/-- What the pool keeps as long as the two are in step. -/
structure InStep (p : BufferPool φ) : Prop where
  tracked : Tracked p
  framed : ∀ id f, p.pageTable.lookup id = some f → f < p.frames.length
  inj : ∀ id id' f, p.pageTable.lookup id = some f → p.pageTable.lookup id' = some f → id = id'

theorem InStep.new (d : DiskManager) (capacity : ℕ) (w : Option φ) :
    InStep (new d capacity w) where
  tracked := .new d capacity w
  framed _ _ h := by cases h
  inj _ _ _ h := by cases h

theorem InStep.sameKeys (h : InStep p) : SameKeys p := by
  obtain ⟨is, l, ht, hl⟩ := h.tracked
  intro id
  rw [AList.mem_iff_exists_lookup, ← ht.mem_iff, hl]

theorem InStep.of_same (h : InStep p) (htable : p'.pageTable = p.pageTable)
    (hreplacer : p'.replacer = p.replacer) (hcapacity : p'.capacity = p.capacity)
    (hframes : p'.frames.length = p.frames.length) : InStep p' where
  tracked := h.tracked.congr htable hreplacer hcapacity
  framed := by
    rw [htable, hframes]
    exact h.framed
  inj := by
    rw [htable]
    exact h.inj

/-- A step after which the two are in step if they were before. -/
def KeepsStep (p p' : BufferPool φ) : Prop := InStep p → InStep p'

theorem KeepsStep.refl (p : BufferPool φ) : KeepsStep p p := fun h => h

theorem KeepsStep.trans (a b c : BufferPool φ) (h : KeepsStep a b) (h' : KeepsStep b c) :
    KeepsStep a c := fun hstep => h' (h hstep)

/-! ### The victim -/

/-- The eviction predicate says of every tracked page whether it is pinned. -/
theorem InStep.isUnpinned (h : InStep p) {id : PageId} (hid : id ∈ p.pageTable) :
    (p.Pinned id ∧ p.isUnpinned id = some (false, ())) ∨
      ¬ p.Pinned id ∧ p.isUnpinned id = some (true, ()) := by
  obtain ⟨f, hl⟩ := AList.exists_lookup hid
  have hone := count_table h.inj hl
  unfold BufferPool.isUnpinned strongCount
  rw [hl]
  -- the table has the frame once, so the count says whether a caller has it too
  by_cases hheld : f ∈ p.held
  · have hpos := List.count_pos_iff.mpr hheld
    refine .inl ⟨⟨f, hl, hheld⟩, ?_⟩
    simp only [Option.bind_eq_bind, Option.bind_some, hone, Option.some.injEq, Prod.mk.injEq,
      and_true, beq_eq_false_iff_ne]
    omega
  · refine .inr ⟨fun ⟨f', hl', hf'⟩ => hheld ?_, ?_⟩
    · rw [hl, Option.some.injEq] at hl'
      exact hl' ▸ hf'
    · simp only [Option.bind_eq_bind, Option.bind_some, hone, List.count_eq_zero_of_not_mem hheld]
      rfl

/-- What a scan over cached pages finds: none when all of them are pinned, else the first that is
not. -/
theorem InStep.scan (h : InStep p) {l : List PageId} (hl : ∀ id ∈ l, id ∈ p.pageTable) :
    ((∀ id ∈ l, p.Pinned id) ∧ Recency.scan (fun _ => p.isUnpinned) l () = some (none, ())) ∨
      ∃ l₁ id l₂, l = l₁ ++ id :: l₂ ∧ (∀ id' ∈ l₁, p.Pinned id') ∧ ¬ p.Pinned id ∧
        Recency.scan (fun _ => p.isUnpinned) l () = some (some id, ()) := by
  -- the scan stops at the first page that is not pinned
  induction l with
  | nil => exact .inl ⟨nofun, rfl⟩
  | cons id l ih =>
    have hid := hl id (List.mem_cons_self ..)
    rcases h.isUnpinned hid with ⟨hpin, hpred⟩ | ⟨hpin, hpred⟩
    · -- the page is pinned, and the scan goes on
      have hscan : Recency.scan (fun _ => p.isUnpinned) (id :: l) () =
          Recency.scan (fun _ => p.isUnpinned) l () := by
        rw [Recency.scan, hpred]
        rfl
      rw [hscan]
      rcases ih fun id' hid' => hl id' (List.mem_cons_of_mem _ hid') with
        ⟨hall, hnone⟩ | ⟨l₁, id', l₂, heq, hall, hno, hsome⟩
      · exact .inl ⟨List.forall_mem_cons.mpr ⟨hpin, hall⟩, hnone⟩
      · refine .inr ⟨id :: l₁, id', l₂, ?_, List.forall_mem_cons.mpr ⟨hpin, hall⟩, hno, hsome⟩
        rw [heq, List.cons_append]
    · refine .inr ⟨[], id, l, rfl, nofun, hpin, ?_⟩
      rw [Recency.scan, hpred]
      rfl

/-- The replacer's answer to `evict_page`: there is no victim and every page is pinned, or it
gives up the victim. -/
theorem InStep.evictIf (h : InStep p) :
    (AllPinned p ∧ ∃ q, p.replacer.evictIf (fun _ => p.isUnpinned) () = some (none, (), q) ∧
        InStep { p with replacer := q }) ∨
      ∃ id q, p.Victim id ∧ id ∈ p.pageTable ∧
        p.replacer.evictIf (fun _ => p.isUnpinned) () = some (some id, (), q) ∧
        ∃ is l, q.Threaded p.capacity is l ∧ ∀ id', id' ∈ l ↔ id' ∈ p.pageTable ∧ id' ≠ id := by
  obtain ⟨is, l, ht, hl⟩ := h.tracked
  -- the replacer scans its list from the back; the pages on it are those of the table
  have hcached : ∀ id ∈ l.reverse, id ∈ p.pageTable := fun id hid =>
    (hl id).mp (List.mem_reverse.mp hid)
  rcases h.scan hcached with ⟨hall, hscan⟩ | ⟨l₁, id, l₂, hrev, hall, hno, hscan⟩
  · refine .inl ⟨fun id hid => hall id (List.mem_reverse.mpr ((hl id).mpr hid)), ?_⟩
    have hevict : Recency.evictIf (fun _ => p.isUnpinned) () l = some (none, (), l) := by
      rw [Recency.evictIf, hscan]
      rfl
    obtain ⟨q, is', hc, ht'⟩ := ht.evictIf_of_some _ hevict
    exact ⟨q, hc, ⟨is', l, ht', hl⟩, h.framed, h.inj⟩
  · have hevict : Recency.evictIf (fun _ => p.isUnpinned) () l =
        some (some id, (), l.erase id) := by
      rw [Recency.evictIf, hscan]
      rfl
    -- the victim is the last page of the list that is not pinned
    have hsplit : l = l₂.reverse ++ id :: l₁.reverse := by
      rw [← List.reverse_reverse l, hrev, List.reverse_append, List.reverse_cons,
        List.append_assoc, List.singleton_append]
    have hid : id ∈ l := by
      rw [hsplit]
      exact List.mem_append_right _ (List.mem_cons_self ..)
    obtain ⟨q, is', hc, ht'⟩ := ht.evictIf_of_some _ hevict
    refine .inr ⟨id, q, ⟨is, l₂.reverse, l₁.reverse, hsplit ▸ ht, hno, fun id' hid' => ?_⟩,
      (hl id).mp hid, hc, is', l.erase id, ht', fun id' => ?_⟩
    · exact hall id' (List.mem_reverse.mp hid')
    · rw [ht.nodup.mem_erase_iff, hl, and_comm]

/-- There is one victim at most. -/
theorem Victim.unique {id id' : PageId} (h : p.Victim id) (h' : p.Victim id') : id = id' := by
  obtain ⟨is, l₁, l₂, ht, hno, hpin⟩ := h
  obtain ⟨is', l₁', l₂', ht', hno', hpin'⟩ := h'
  have heq := ht.unique ht'
  rcases List.append_eq_append_iff.mp heq with ⟨m, hl₁', hm⟩ | ⟨m, hl₁, hm⟩
  · cases m with
    | nil => exact (List.cons.inj hm).1
    | cons a m =>
      -- the second page comes behind the first
      obtain ⟨-, hl₂⟩ := List.cons.inj hm
      refine absurd (hpin id' ?_) hno'
      rw [hl₂]
      exact List.mem_append_right _ (List.mem_cons_self ..)
  · cases m with
    | nil => exact (List.cons.inj hm).1.symm
    | cons a m =>
      obtain ⟨-, hl₂⟩ := List.cons.inj hm
      refine absurd (hpin' id ?_) hno
      rw [hl₂]
      exact List.mem_append_right _ (List.mem_cons_self ..)

/-- As long as there is a victim, not every page is pinned. -/
theorem InStep.not_allPinned (h : InStep p) {id : PageId} (hvictim : p.Victim id) :
    ¬ AllPinned p := by
  obtain ⟨is, l, ht, hl⟩ := h.tracked
  obtain ⟨is', l₁, l₂, ht', hno, -⟩ := hvictim
  intro hall
  refine hno (hall id ((hl id).mp ?_))
  rw [ht.unique ht']
  exact List.mem_append_right _ (List.mem_cons_self ..)

/-! ### Installing a node -/

/-- An installation keeps the two in step, also for a page that is in the table already. -/
theorem InStep.installed (h : InStep p) {id : PageId} {q : LruReplacer}
    (hq : p.replacer.recordAccess id = some q) (node : BTreeNode) :
    InStep (p.installed q id node) := by
  refine ⟨h.tracked.installed hq node, fun id' f hlook => ?_, inj_insert h.framed h.inj id⟩
  show f < (p.frames ++ [node]).length
  rw [List.length_append, List.length_singleton]
  by_cases hid : id' = id
  · subst hid
    obtain rfl := Option.some.inj ((AList.lookup_insert _).symm.trans hlook)
    exact Nat.lt_succ_self _
  · exact Nat.lt_succ_of_lt (h.framed id' f ((AList.lookup_insert_ne hid).symm.trans hlook))

theorem InStep.recorded (h : InStep p) {id : PageId} (hid : id ∈ p.pageTable) {q : LruReplacer}
    (hq : p.replacer.recordAccess id = some q) : InStep { p with replacer := q } :=
  ⟨h.tracked.recorded hid hq, h.framed, h.inj⟩

/-- The disk fails with errors of its own. -/
theorem readPage_error {id : PageId} {e : DbError} {d d' : DiskManager}
    (h : DiskManager.readPage id d = some (.error e, d')) : ∃ kind, e = .io kind := by
  unfold DiskManager.readPage at h
  obtain ⟨-, h⟩ | ⟨k, -, h⟩ := of_nextFault h
  · cases hread : d.file.readAt id.val.toNat pageSize with
    | some page =>
      simp only [hread] at h
      cases h
    | none =>
      simp only [hread] at h
      cases h
      exact ⟨_, rfl⟩
  · cases h
    exact ⟨_, rfl⟩

/-- The decoder fails with one error only. -/
theorem decode_error {page : Page} {e : DbError}
    (h : BTreeNode.decode page = some (.error e)) : ∃ text, e = .corruptPage text := by
  by_cases hframed : page.Framed
  · rcases (decode_framed page).1 hframed with ⟨node, hok⟩ | ⟨text, herror⟩
    · rw [hok] at h
      cases h
    · rw [herror] at h
      cases h
      exact ⟨text, rfl⟩
  · rw [(decode_framed page).2 hframed] at h
    cases h

section Flusher

variable [WalFlusher φ]

/-- Which pages the replacer tracks makes no difference to a flush. -/
theorem flushable_replacer (q : LruReplacer) (id : PageId) :
    Flushable { p with replacer := q } id ↔ p.Flushable id := by
  have herror : ∀ node e, FlushError { p with replacer := q } node e ↔ p.FlushError node e := by
    intro node e
    constructor
    · rintro (⟨hw, he⟩ | he | ⟨henc, hfault⟩)
      · exact .log hw he
      · exact .encode he
      · exact .write henc hfault
    · rintro (⟨hw, he⟩ | he | ⟨henc, hfault⟩)
      · exact .log hw he
      · exact .encode he
      · exact .write henc hfault
  unfold Flushable
  simp only [herror]

/-- Everything a call of `evict_page` or `make_room` that returns can have done to a pool in
step. -/
inductive RoomOutcome (p : BufferPool φ) : Except DbError Unit → BufferPool φ → Prop
  | roomy {p' : BufferPool φ} (h : InStep p')
      (hsub : ∀ id, id ∈ p'.pageTable → id ∈ p.pageTable) : RoomOutcome p (.ok ()) p'
  | pinned {p' : BufferPool φ} (hall : AllPinned p) (h : InStep p') :
      RoomOutcome p (.error .lruEviction) p'
  | lost {p' : BufferPool φ} {id : PageId} {e : DbError} (hvictim : p.Victim id)
      (hfail : ¬ p.Flushable id) (hno : ¬ SameKeys p') : RoomOutcome p (.error e) p'

/-- **What evicting does to a pool in step.** The two part only when the flush of the victim
fails: the victim stays in the table, and the replacer has given it up. -/
theorem InStep.evictPage (h : InStep p) {r : Except DbError Unit}
    (hrun : evictPage p = some (r, p')) : RoomOutcome p r p' := by
  cases evictPage_outcome hrun with
  | @pinned q hscan =>
    rcases h.evictIf with ⟨hall, q', hscan', hstep⟩ | ⟨id, q', -, -, hscan', -⟩
    · rw [hscan] at hscan'
      cases hscan'
      exact .pinned hall hstep
    · rw [hscan] at hscan'
      cases hscan'
  | @failed id q e _ hscan hflush =>
    rcases h.evictIf with ⟨-, q', hscan', -⟩ | ⟨id', q', hvictim, hcached, hscan', is, l, ht, hl⟩
    · rw [hscan] at hscan'
      cases hscan'
    rw [hscan] at hscan'
    cases hscan'
    -- the flush failed: the victim is still in the table, and no longer in the replacer
    refine .lost hvictim (fun hok => ?_) fun hsame => ?_
    · have hflushable := (flushPage_ok_iff hflush).mpr ((flushable_replacer q id).mpr hok)
      cases hflushable
    · obtain ⟨htable, hreplacer, -⟩ := flushPage_same hflush
      have htracked : id ∈ p'.replacer.pages := by
        rw [hsame, htable]
        exact hcached
      rw [hreplacer, AList.mem_iff_exists_lookup, ← ht.mem_iff, hl] at htracked
      exact htracked.2 rfl
  | @evicted id q p₁ hscan hflush =>
    rcases h.evictIf with ⟨-, q', hscan', -⟩ | ⟨id', q', hvictim, hcached, hscan', is, l, ht, hl⟩
    · rw [hscan] at hscan'
      cases hscan'
    rw [hscan] at hscan'
    cases hscan'
    obtain ⟨htable, hreplacer, hcapacity, -, hframes⟩ := flushPage_same hflush
    -- both have lost the victim, and nothing else
    have hlook : ∀ id' f, (p₁.pageTable.erase id).lookup id' = some f →
        p.pageTable.lookup id' = some f := by
      intro id' f hlook
      by_cases hid : id' = id
      · rw [hid, AList.lookup_erase] at hlook
        cases hlook
      · rw [AList.lookup_erase_ne hid, htable] at hlook
        exact hlook
    refine .roomy ⟨⟨is, l, ?_, fun id' => ?_⟩, fun id' f hl' => ?_, fun id₁ id₂ f h₁ h₂ => ?_⟩
      fun id' hid' => ?_
    · show p₁.replacer.Threaded p₁.capacity is l
      rw [hreplacer, hcapacity]
      exact ht
    · show id' ∈ l ↔ id' ∈ p₁.pageTable.erase id
      rw [AList.mem_erase, htable, hl, and_comm]
    · show f < p₁.frames.length
      rw [hframes]
      exact h.framed id' f (hlook id' f hl')
    · exact h.inj id₁ id₂ f (hlook id₁ f h₁) (hlook id₂ f h₂)
    · rw [AList.mem_erase, htable] at hid'
      exact hid'.2

theorem InStep.makeRoom (h : InStep p) {r : Except DbError Unit}
    (hrun : makeRoom p = some (r, p')) : RoomOutcome p r p' := by
  rw [BufferPool.makeRoom, Exec.bind_of_ok (Exec.get_apply p)] at hrun
  split at hrun
  · exact h.evictPage hrun
  · cases hrun
    exact .roomy h fun _ hid => hid

/-- When the victim cannot be flushed, the call that evicts it returns with an error. -/
theorem InStep.makeRoom_fails (h : InStep p) (hfull : p.capacity ≤ p.pageTable.keys.length)
    {id : PageId} (hvictim : p.Victim id) (hfail : ¬ p.Flushable id) :
    ∃ e p', BufferPool.makeRoom p = some (.error e, p') ∧ ¬ SameKeys p' := by
  -- the flush of the victim fails, and its error is the call's
  have hreturns : ∃ e p', BufferPool.makeRoom p = some (.error e, p') := by
    rw [BufferPool.makeRoom, Exec.bind_of_ok (Exec.get_apply p), if_pos hfull,
      BufferPool.evictPage, Exec.bind_of_ok (Exec.get_apply p)]
    rcases h.evictIf with ⟨hall, -⟩ | ⟨id', q, hvictim', -, hscan, -⟩
    · exact absurd hall (h.not_allPinned hvictim)
    obtain rfl := hvictim.unique hvictim'
    obtain ⟨e, p', hflush⟩ := flushPage_fails (mt (flushable_replacer q id).mp hfail)
    refine ⟨e, p', ?_⟩
    rw [hscan, Exec.bind_of_ok (Exec.ofOption_some _ _)]
    show (Exec.modify _ >>= fun _ => _) p = _
    rw [Exec.bind_of_ok (Exec.modify_apply _ _)]
    exact Exec.bind_of_error hflush
  obtain ⟨e, p', hrun⟩ := hreturns
  refine ⟨e, p', hrun, ?_⟩
  cases h.makeRoom hrun with
  | pinned hall => exact absurd hall (h.not_allPinned hvictim)
  | lost _ _ hno => exact hno

/-- When every page that has to give way can be flushed, making room keeps the two in step. -/
theorem InStep.makeRoom_careful (h : InStep p)
    (hcareful : p.capacity ≤ p.pageTable.keys.length → ∀ id, p.Victim id → p.Flushable id)
    {r : Except DbError Unit} (hrun : BufferPool.makeRoom p = some (r, p')) :
    InStep p' ∧ (r = .error .lruEviction → AllPinned p) := by
  cases h.makeRoom hrun with
  | roomy h₁ => exact ⟨h₁, nofun⟩
  | pinned hall h₁ => exact ⟨h₁, fun _ => hall⟩
  | lost hvictim hfail =>
    by_cases hfull : p.capacity ≤ p.pageTable.keys.length
    · exact absurd (hcareful hfull _ hvictim) hfail
    · rw [BufferPool.makeRoom, Exec.bind_of_ok (Exec.get_apply p), if_neg hfull] at hrun
      cases hrun

/-! ### One call -/

theorem InStep.flushPage (h : InStep p) {id : PageId} {r : Except DbError Unit}
    (hrun : flushPage id p = some (r, p')) : InStep p' := by
  obtain ⟨htable, hreplacer, hcapacity, -, hframes⟩ := flushPage_same hrun
  exact h.of_same htable hreplacer hcapacity hframes

/-- A flush of everything keeps the two in step, at whichever page it is left. -/
theorem InStep.flushAllPages (h : InStep p) {order : HashOrder} {r : Except DbError Unit}
    (hrun : flushAllPages order p = some (r, p')) : InStep p' := by
  have hkeep : Exec.Within KeepsStep
      (BufferPool.flushAllPages order : Exec DbError (BufferPool φ) Unit) := by
    refine Exec.Within.bind KeepsStep.trans ?_ fun _ => Exec.Within.bind KeepsStep.trans ?_ ?_
    · exact Exec.Within.of_unchanged KeepsStep.refl fun _ _ _ hget => by cases hget; rfl
    · exact Exec.Within.forEach KeepsStep.refl KeepsStep.trans
        fun _ _ _ _ _ hflush hstep => hstep.flushPage hflush
    · intro _ p₁ r₁ p₂ hsave hstep
      obtain ⟨d, -, rfl⟩ := disk_outcome hsave
      exact hstep.of_same rfl rfl rfl rfl
  exact hkeep p r p' hrun h

/-- A page that has to be loaded is read, decoded and installed once there is room. -/
theorem InStep.fetchPage (h : InStep p) {id : PageId} {r : Except DbError Frame}
    (hcareful : (PoolCall.fetchPage id).NeedsRoom p → ∀ id', p.Victim id' → p.Flushable id')
    (hrun : fetchPage id p = some (r, p')) :
    InStep p' ∧ (r = .error .lruEviction → AllPinned p) := by
  -- only the call that makes room can say that everything is pinned
  have hroomy : ∀ {r₁ p₁}, p.pageTable.lookup id = none → BufferPool.makeRoom p = some (r₁, p₁) →
      InStep p₁ ∧ (r₁ = .error .lruEviction → AllPinned p) := fun hl hroom =>
    h.makeRoom_careful (fun hfull => hcareful ⟨hl, hfull⟩) hroom
  cases fetchPage_outcome hrun with
  | hit hl hrecord =>
    have h₁ := h.recorded (AList.mem_of_lookup hl) hrecord
    exact ⟨h₁.of_same rfl rfl rfl rfl, nofun⟩
  | full hl hroom =>
    obtain ⟨h₁, hall⟩ := hroomy hl hroom
    refine ⟨h₁, fun heq => hall ?_⟩
    cases heq
    rfl
  | unread hl hroom hread =>
    obtain ⟨kind, rfl⟩ := readPage_error hread
    exact ⟨(hroomy hl hroom).1.of_same rfl rfl rfl rfl, nofun⟩
  | corrupt hl hroom hread hdecode =>
    obtain ⟨text, rfl⟩ := decode_error hdecode
    exact ⟨(hroomy hl hroom).1.of_same rfl rfl rfl rfl, nofun⟩
  | @loaded p₁ d page node q hl hroom hread hdecode hrecord =>
    have h₂ : InStep { p₁ with diskManager := d } :=
      (hroomy hl hroom).1.of_same rfl rfl rfl rfl
    exact ⟨h₂.installed hrecord node, nofun⟩

theorem InStep.newPage (h : InStep p) {isLeaf : Bool} {r : Except DbError (PageId × Frame)}
    (hcareful : (PoolCall.newPage isLeaf).NeedsRoom p → ∀ id', p.Victim id' → p.Flushable id')
    (hrun : newPage isLeaf p = some (r, p')) :
    InStep p' ∧ (r = .error .lruEviction → AllPinned p) := by
  cases newPage_outcome hrun with
  | full hroom =>
    obtain ⟨h₁, hall⟩ := h.makeRoom_careful hcareful hroom
    refine ⟨h₁, fun heq => hall ?_⟩
    cases heq
    rfl
  | @made p₁ q hroom hover hrecord =>
    have h₂ : InStep p₁.allocated :=
      (h.makeRoom_careful hcareful hroom).1.of_same rfl rfl rfl rfl
    exact ⟨h₂.installed hrecord _, nofun⟩

end Flusher

end BufferPool

/-! ### Runs -/

section Flusher

variable {φ : Type} [WalFlusher φ] {p p' : BufferPool φ}

/-- If a page has to give way to the call, it can be flushed. -/
def PoolCall.Careful (p : BufferPool φ) (c : PoolCall) : Prop :=
  c.NeedsRoom p → ∀ id, p.Victim id → p.Flushable id

/-- **A careful call** keeps the two in step, and finds no page to evict only when all of them are
pinned. -/
theorem PoolCall.keepsStep {c : PoolCall} (h : InStep p) (hcareful : c.Careful p)
    {r : Except DbError (Option (PageId × Frame))} (hrun : c.run p = some (r, p')) :
    InStep p' ∧ (c.Loads → r = .error .lruEviction → AllPinned p) := by
  -- a call that made a frame did not report an eviction that failed
  cases PoolCall.run_outcome hrun with
  | fetchFailed hfetch =>
    obtain ⟨h₁, hall⟩ := h.fetchPage hcareful hfetch
    refine ⟨h₁, fun _ heq => hall ?_⟩
    cases heq
    rfl
  | fetched hfetch => exact ⟨(h.fetchPage hcareful hfetch).1, nofun⟩
  | makeFailed hnew =>
    obtain ⟨h₁, hall⟩ := h.newPage hcareful hnew
    refine ⟨h₁, fun _ heq => hall ?_⟩
    cases heq
    rfl
  | made hnew => exact ⟨(h.newPage hcareful hnew).1, nofun⟩
  | flushed hflush => exact ⟨h.flushPage hflush, nofun⟩
  | flushedAll hflush => exact ⟨h.flushAllPages hflush, nofun⟩

/-- A call that is not careful returns, and parts the two. -/
theorem PoolCall.parts {c : PoolCall} (h : InStep p) (hcareless : ¬ c.Careful p) :
    ∃ r p', c.run p = some (r, p') ∧ ¬ SameKeys p' := by
  unfold PoolCall.Careful at hcareless
  push Not at hcareless
  -- the call starts by making room, and goes no further
  obtain ⟨hneeds, id, hvictim, hfail⟩ := hcareless
  cases c with
  | fetchPage id' =>
    obtain ⟨e, p', hroom, hno⟩ := h.makeRoom_fails hneeds.2 hvictim hfail
    refine ⟨.error e, p', Exec.bind_of_error ?_, hno⟩
    rw [BufferPool.fetchPage, Exec.bind_of_ok (Exec.get_apply p)]
    simp only [hneeds.1]
    exact Exec.bind_of_error hroom
  | newPage isLeaf =>
    obtain ⟨e, p', hroom, hno⟩ := h.makeRoom_fails hneeds hvictim hfail
    exact ⟨.error e, p', Exec.bind_of_error (Exec.bind_of_error hroom), hno⟩
  | flushPage id' => cases hneeds
  | flushAllPages order => cases hneeds

/-- Only calls of the pool have to be careful. -/
def Turn.Careful (p : BufferPool φ) : Turn φ → Prop
  | .call c => c.Careful p
  | .write _ _ | .clone _ | .drop _ | .relog _ => True

/-- The turn asked for a page, was told that there is none to evict, and was told so wrongly. -/
def Turn.Misled (p : BufferPool φ) (r : Except DbError (Option (PageId × Frame))) :
    Turn φ → Prop
  | .call c => c.Loads ∧ r = .error .lruEviction ∧ ¬ AllPinned p
  | .write _ _ | .clone _ | .drop _ | .relog _ => False

/-- **The step lemma.** What a careful turn keeps. -/
theorem Turn.keepsStep {t : Turn φ} (h : InStep p) (hcareful : t.Careful p)
    {r : Except DbError (Option (PageId × Frame))} (hrun : t.run p = some (r, p')) :
    InStep p' ∧ ¬ t.Misled p r := by
  cases t with
  | call c =>
    obtain ⟨h', hall⟩ := c.keepsStep h hcareful hrun
    exact ⟨h', fun ⟨hloads, hr, hno⟩ => hno (hall hloads hr)⟩
  | write f node =>
    -- clients write through frames they hold, and the table has nothing to do with it
    change (if f ∈ p.held then _ else none) = _ at hrun
    split at hrun
    · cases hrun
      exact ⟨h.of_same rfl rfl rfl (List.length_set ..), id⟩
    · cases hrun
  | clone f =>
    change (if f ∈ p.held then _ else none) = _ at hrun
    split at hrun
    · cases hrun
      exact ⟨h.of_same rfl rfl rfl rfl, id⟩
    · cases hrun
  | drop f =>
    cases hrun
    exact ⟨h.of_same rfl rfl rfl rfl, id⟩
  | relog w =>
    cases hrun
    exact ⟨h.of_same rfl rfl rfl rfl, id⟩

/-- After every turn of the run the replacer tracks the cached pages, and nobody was misled. -/
def StaysInStep : List (Turn φ) → BufferPool φ → Prop
  | [], _ => True
  | t :: ts, p => ∀ r p', t.run p = some (r, p') →
    SameKeys p' ∧ ¬ t.Misled p r ∧ StaysInStep ts p'

/-- Every turn of the run is careful. -/
def StaysCareful : List (Turn φ) → BufferPool φ → Prop
  | [], _ => True
  | t :: ts, p => t.Careful p ∧ ∀ r p', t.run p = some (r, p') → StaysCareful ts p'

theorem InStep.stays_iff (ts : List (Turn φ)) (h : InStep p) :
    StaysInStep ts p ↔ StaysCareful ts p := by
  induction ts generalizing p with
  | nil => exact Iff.rfl
  | cons t ts ih =>
    constructor
    · intro hstays
      -- a careless call parts the two, so a run that stays in step has none
      have hcareful : t.Careful p := by
        cases t with
        | call c =>
          by_contra hcareless
          obtain ⟨r, p', hrun, hno⟩ := c.parts h hcareless
          exact hno (hstays r p' hrun).1
        | write | clone | drop | relog => exact trivial
      refine ⟨hcareful, fun r p' hrun => ?_⟩
      exact (ih (t.keepsStep h hcareful hrun).1).mp (hstays r p' hrun).2.2
    · rintro ⟨hcareful, hrest⟩ r p' hrun
      obtain ⟨h', hmisled⟩ := t.keepsStep h hcareful hrun
      exact ⟨h'.sameKeys, hmisled, (ih h').mpr (hrest r p' hrun)⟩

/-- **The cache and the replacer stay in step** in exactly the runs in which every page that has
to give way can be flushed. -/
theorem staysInStep_iff (ts : List (Turn φ)) (d : DiskManager) (capacity : ℕ) (w : Option φ) :
    StaysInStep ts (new d capacity w) ↔ StaysCareful ts (new d capacity w) :=
  InStep.stays_iff ts (.new d capacity w)

end Flusher

/-- A page is made, written to and dropped, and then has to give way to another. -/
def crowding : List (Turn Empty) :=
  [.call (.newPage true), .write 0 ((BTreeNode.newEmpty ⟨4096⟩ true).markDirty 1), .drop 0,
    .call (.newPage true)]

/-- When the first write to the file fails, the page that should give way stays in the cache and
is not tracked any more. -/
theorem crowding_not_staysInStep :
    ¬ ∀ (ts : List (Turn Empty)) (d : DiskManager) (capacity : ℕ) (w : Option Empty),
      StaysInStep ts (new d capacity w) := by
  intro h
  have hstays := h crowding ⟨.empty, .default, [some 0]⟩ 1 none
  have hroom : makeRoom (new ⟨.empty, .default, [some 0]⟩ 1 (none : Option Empty)) =
      some (.ok (), new ⟨.empty, .default, [some 0]⟩ 1 none) := rfl
  obtain ⟨p₁, hmake, hheld, htable, hframes, hfaults, hcapacity⟩ : ∃ p₁,
      newPage true (new ⟨.empty, .default, [some 0]⟩ 1 (none : Option Empty)) =
        some (.ok (⟨4096⟩, 0), p₁) ∧ p₁.held = [0] ∧
      p₁.pageTable = (∅ : AList fun _ : PageId => Frame).insert ⟨4096⟩ 0 ∧
      p₁.frames = [BTreeNode.newEmpty ⟨4096⟩ true] ∧ p₁.diskManager.faults = [some 0] ∧
      p₁.capacity = 1 :=
    ⟨_, newPage_ok hroom (by decide) rfl, rfl, rfl, rfl, rfl, rfl⟩
  set node := (BTreeNode.newEmpty ⟨4096⟩ true).markDirty 1 with hnode
  set p₃ : BufferPool Empty := { p₁.withNode 0 node with held := p₁.held.erase 0 } with hp₃
  have hrun₁ : (Turn.call (.newPage true)).run
      (new ⟨.empty, .default, [some 0]⟩ 1 (none : Option Empty)) =
        some (.ok (some (⟨4096⟩, 0)), p₁) := Exec.bind_of_ok hmake
  have hrun₂ : (Turn.write 0 node).run p₁ = some (.ok none, p₁.withNode 0 node) :=
    if_pos (hheld ▸ List.mem_singleton_self 0)
  have hrun₃ : (Turn.drop 0).run (p₁.withNode 0 node) = some (.ok none, p₃) := rfl
  -- the two are in step up to here, because no page had to give way
  have hcareful₁ : (Turn.call (.newPage true)).Careful
      (new ⟨.empty, .default, [some 0]⟩ 1 (none : Option Empty)) := fun hfull =>
    absurd (show 1 ≤ 0 from hfull) (by decide)
  have hstep₁ := (Turn.keepsStep (InStep.new _ _ _) hcareful₁ hrun₁).1
  have hstep₂ := (Turn.keepsStep (t := .write 0 node) hstep₁ trivial hrun₂).1
  have hstep₃ := (Turn.keepsStep (t := .drop 0) hstep₂ trivial hrun₃).1
  have hlook : p₃.pageTable.lookup ⟨4096⟩ = some 0 := by
    show p₁.pageTable.lookup ⟨4096⟩ = some 0
    rw [htable]
    rfl
  have hunheld : p₃.held = [] := by
    show p₁.held.erase 0 = []
    rw [hheld]
    rfl
  have hdirty : p₃.frames[0]? = some node := by
    show (p₁.frames.set 0 node)[0]? = some node
    rw [hframes]
    rfl
  have hfail : ¬ p₃.Flushable ⟨4096⟩ := by
    intro hok
    have hs : node.IsSlotted := BTreeNode.isSlotted_newEmpty ⟨4096⟩ true
    obtain ⟨written, _, _, _, henc, _⟩ := hs.placed.encode_ok (Nat.le_of_ble_eq_true rfl) Page.new
    refine hok 0 node hlook hdirty rfl (.io .other) (.write henc ?_)
    show p₁.diskManager.faults.headD none ≠ none
    rw [hfaults]
    nofun
  have hcareless : ¬ (PoolCall.newPage true).Careful p₃ := by
    intro hcareful
    have hfull : (PoolCall.newPage true).NeedsRoom p₃ := by
      show p₁.capacity ≤ p₁.pageTable.keys.length
      rw [hcapacity, htable]
      exact Nat.le_refl 1
    rcases hstep₃.evictIf with ⟨hall, -⟩ | ⟨id, q, hvictim, hcached, -⟩
    · obtain ⟨f, -, hf⟩ := hall ⟨4096⟩
        (AList.mem_of_lookup hlook)
      rw [hunheld] at hf
      cases hf
    · have hid : id = ⟨4096⟩ := by
        have hmem : id ∈ p₁.pageTable := hcached
        rw [htable, AList.mem_insert] at hmem
        exact hmem.resolve_right (AList.notMem_empty _)
      exact hfail (hid ▸ hcareful hfull id hvictim)
  obtain ⟨r, p₄, hrun₄, hno⟩ := PoolCall.parts hstep₃ hcareless
  exact hno ((((hstays _ _ hrun₁).2.2 _ _ hrun₂).2.2 _ _ hrun₃).2.2 r p₄ hrun₄).1

end SmolDb
