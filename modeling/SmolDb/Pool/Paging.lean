import SmolDb.Lib.Stack
import SmolDb.Pool.Clients
import SmolDb.Pool.InStep
import SmolDb.Pool.Service

/-!
# Which pages are in the cache

A client that drops every frame before it asks for the next one leaves nothing pinned, so a page
that has to give way is the least recently used one. The cache is then the front of a list of all
pages that were ever used, by their last use, and this list knows nothing of the capacity
(`Stack.recent`). So it can be told from the history alone whether a page is cached
(`cached_iff`), and a larger pool reads no more pages from the disk (`reads_antitone`).
-/

namespace SmolDb

namespace BufferPool

variable {φ : Type} {p p' : BufferPool φ} {id : PageId} {l : List PageId}

section Flusher

variable [WalFlusher φ]

/-- A run of one client that holds one frame at a time, with the pages that it used, the latest
first, whether they were made, and the number of pages that were read. What the client writes into
a frame does not matter. -/
inductive Paged (p₀ : BufferPool φ) : List (PageId × Bool) → ℕ → BufferPool φ → Prop
  | start : Paged p₀ [] 0 p₀
  | fetch {p p' : BufferPool φ} {uses : List (PageId × Bool)} {n : ℕ} {id : PageId} {f : Frame}
      (h : Paged p₀ uses n p) (halloc : Allocated p id)
      (hrun : fetchPage id p = some (.ok f, p')) (node : BTreeNode) :
      Paged p₀ ((id, false) :: uses) (n + if id ∈ p.pageTable then 0 else 1)
        { p'.withNode f node with held := p'.held.erase f }
  | make {p p' : BufferPool φ} {uses : List (PageId × Bool)} {n : ℕ} {isLeaf : Bool} {id : PageId}
      {f : Frame} (h : Paged p₀ uses n p) (hrun : newPage isLeaf p = some (.ok (id, f), p'))
      (node : BTreeNode) :
      Paged p₀ ((id, true) :: uses) n { p'.withNode f node with held := p'.held.erase f }
  | flush {p p' : BufferPool φ} {uses : List (PageId × Bool)} {n : ℕ} {id : PageId}
      {r : Except DbError Unit} (h : Paged p₀ uses n p) (hrun : flushPage id p = some (r, p')) :
      Paged p₀ uses n p'
  | flushAll {p p' : BufferPool φ} {uses : List (PageId × Bool)} {n : ℕ} {order : HashOrder}
      {r : Except DbError Unit} (h : Paged p₀ uses n p)
      (hrun : flushAllPages order p = some (r, p')) : Paged p₀ uses n p'

end Flusher

/-! ### The list of the replacer -/

/-- The replacer lists the cached pages so, the most recently used one first. -/
def Listed (p : BufferPool φ) (l : List PageId) : Prop :=
  ∃ is, p.replacer.Threaded p.capacity is l ∧ ∀ id, id ∈ l ↔ id ∈ p.pageTable

/-- The pools have the same pages in the same order. -/
structure SameOrder (p p' : BufferPool φ) : Prop where
  table : p'.pageTable = p.pageTable
  replacer : p'.replacer = p.replacer
  capacity : p'.capacity = p.capacity
  held : p'.held = p.held

theorem SameOrder.trans (a b c : BufferPool φ) (h : SameOrder a b) (h' : SameOrder b c) :
    SameOrder a c where
  table := h'.table.trans h.table
  replacer := h'.replacer.trans h.replacer
  capacity := h'.capacity.trans h.capacity
  held := h'.held.trans h.held

theorem Listed.congr (h : Listed p l) (htable : p'.pageTable = p.pageTable)
    (hreplacer : p'.replacer = p.replacer) (hcapacity : p'.capacity = p.capacity) :
    Listed p' l := by
  unfold Listed
  rw [htable, hreplacer, hcapacity]
  exact h

theorem Listed.mem_iff (h : Listed p l) (id : PageId) : id ∈ l ↔ id ∈ p.pageTable := by
  obtain ⟨is, -, hl⟩ := h
  exact hl id

theorem Listed.length_keys (h : Listed p l) : p.pageTable.keys.length = l.length := by
  obtain ⟨is, ht, hl⟩ := h
  refine Nat.le_antisymm ?_ (length_le_keys ht.nodup fun id hid => (hl id).mp hid)
  refine List.Subperm.length_le (List.subperm_of_subset p.pageTable.keys_nodup fun id hid => ?_)
  exact (hl id).mpr (AList.mem_keys.mpr hid)

theorem Listed.length_le (h : Listed p l) : l.length ≤ p.capacity := by
  obtain ⟨is, ht, -⟩ := h
  exact ht.length_le

/-- Using a listed page puts it in front. -/
theorem Listed.touched (h : Listed p l) (hid : id ∈ l) {q : LruReplacer}
    (hq : p.replacer.recordAccess id = some q) :
    Listed { p with replacer := q } ((Stack.touch l id).take p.capacity) := by
  have hlen := h.length_le
  obtain ⟨is, ht, hl⟩ := h
  obtain ⟨q', is', hq', ht'⟩ := ht.recordAccess_of_mem hid
  obtain rfl : q' = q := Option.some.inj (hq'.symm.trans hq)
  have hperm := List.perm_cons_erase hid
  have htake : (Stack.touch l id).take p.capacity = id :: l.erase id :=
    List.take_of_length_le (hperm.length_eq ▸ hlen)
  rw [htake]
  exact ⟨is', ht', fun id' => hperm.mem_iff.symm.trans (hl id')⟩

section Flusher

variable [WalFlusher φ]

theorem flushPage_sameOrder {id : PageId} {r : Except DbError Unit}
    (hrun : flushPage id p = some (r, p')) : SameOrder p p' := by
  obtain ⟨htable, hreplacer, hcapacity, hheld, -⟩ := flushPage_same hrun
  exact ⟨htable, hreplacer, hcapacity, hheld⟩

theorem flushAllPages_sameOrder {order : HashOrder} {r : Except DbError Unit}
    (hrun : flushAllPages order p = some (r, p')) : SameOrder p p' := by
  have hrefl : ∀ p : BufferPool φ, SameOrder p p := fun _ => ⟨rfl, rfl, rfl, rfl⟩
  have hwithin : Exec.Within SameOrder
      (BufferPool.flushAllPages order : Exec DbError (BufferPool φ) Unit) := by
    refine Exec.Within.bind SameOrder.trans ?_ fun _ => Exec.Within.bind SameOrder.trans ?_ ?_
    · exact Exec.Within.of_unchanged hrefl fun _ _ _ hget => by cases hget; rfl
    · exact Exec.Within.forEach hrefl SameOrder.trans fun _ _ _ _ _ => flushPage_sameOrder
    · intro _ p₁ r₁ p₂ hsave
      obtain ⟨d, -, rfl⟩ := disk_outcome hsave
      exact ⟨rfl, rfl, rfl, rfl⟩
  exact hwithin p r p' hrun

omit [WalFlusher φ] in
/-- Without pins the replacer gives up the page used least recently. -/
theorem Listed.gives_up (h : Listed p l) (hw : Wf p) (hheld : p.held = []) {victim : PageId}
    {q : LruReplacer}
    (hscan : p.replacer.evictIf (fun _ => p.isUnpinned) () = some (some victim, (), q)) :
    ∃ xs, l = xs ++ [victim] ∧ victim ∉ xs ∧ ∃ is, q.Threaded p.capacity is xs := by
  obtain ⟨is, ht, hl⟩ := h
  rcases List.eq_nil_or_concat' l with rfl | ⟨xs, last, rfl⟩
  · -- an empty list has no page to give away
    have hnone : Recency.evictIf (fun _ => p.isUnpinned) () [] = some (none, (), []) := rfl
    obtain ⟨q', is', hscan', -⟩ := ht.evictIf_of_some _ hnone
    rw [hscan] at hscan'
    cases hscan'
  · have hcached : last ∈ p.pageTable := (hl last).mp (by simp)
    have hno : last ∉ xs := fun hmem =>
      (List.nodup_append.mp ht.nodup).2.2 last hmem last (List.mem_singleton_self last) rfl
    -- the scan stops at the last page, which nobody holds
    have hevict : Recency.evictIf (fun _ => p.isUnpinned) () (xs ++ [last]) =
        some (some last, (), xs) := by
      unfold Recency.evictIf
      rw [List.reverse_append, List.reverse_singleton, List.singleton_append, Recency.scan,
        isUnpinned_of_unheld hw.inj hheld hcached]
      simp [Recency.without, List.erase_append_right _ hno]
    obtain ⟨q', is', hscan', ht'⟩ := ht.evictIf_of_some _ hevict
    rw [hscan] at hscan'
    cases hscan'
    exact ⟨xs, rfl, hno, is', ht'⟩

/-- **Making room** without pins takes away the last page when there is no room for another. -/
theorem Listed.makeRoom (h : Listed p l) (hw : Wf p) (hheld : p.held = [])
    (hrun : makeRoom p = some (.ok (), p')) :
    ∃ cap, p.capacity = cap + 1 ∧ p'.capacity = p.capacity ∧ p'.held = [] ∧
      Listed p' (l.take cap) := by
  have hkeys := h.length_keys
  have hlen := h.length_le
  rw [BufferPool.makeRoom, Exec.bind_of_ok (Exec.get_apply p)] at hrun
  split at hrun
  · next hfull =>
    generalize hr : Except.ok () = r at hrun
    cases evictPage_outcome hrun with
    | pinned => cases hr
    | failed => cases hr
    | @evicted victim q p₁ hscan hflush =>
      obtain ⟨htable, hreplacer, hcapacity, hheld₁, -⟩ := flushPage_same hflush
      obtain ⟨xs, rfl, hno, is, ht⟩ := h.gives_up hw hheld hscan
      obtain ⟨-, -, hl⟩ := h
      have hcap : p.capacity = xs.length + 1 := by
        rw [List.length_append, List.length_singleton] at hlen hkeys
        omega
      refine ⟨xs.length, hcap, hcapacity, hheld₁.trans hheld, is, ?_, fun id => ?_⟩
      · rw [List.take_left]
        show p₁.replacer.Threaded p₁.capacity is xs
        rw [hreplacer, hcapacity]
        exact ht
      · rw [List.take_left]
        show id ∈ xs ↔ id ∈ p₁.pageTable.erase victim
        rw [AList.mem_erase, htable]
        show id ∈ xs ↔ id ≠ victim ∧ id ∈ p.pageTable
        rw [← hl id, List.mem_append, List.mem_singleton]
        constructor
        · intro hmem
          exact ⟨fun heq => hno (heq ▸ hmem), .inl hmem⟩
        · rintro ⟨hne, hmem | heq⟩
          · exact hmem
          · exact absurd heq hne
  · next hroom =>
    cases hrun
    refine ⟨p.capacity - 1, by omega, rfl, hheld, ?_⟩
    rw [List.take_of_length_le (by omega)]
    exact h

end Flusher

/-- A page that is installed where there is room comes to the front. -/
theorem Listed.installed {cap : ℕ} (h : Listed p (l.take cap)) (hcap : p.capacity = cap + 1)
    (hid : id ∉ l) {q : LruReplacer} (hq : p.replacer.recordAccess id = some q)
    (node : BTreeNode) :
    Listed (p.installed q id node) ((Stack.touch l id).take (cap + 1)) := by
  obtain ⟨is, ht, hl⟩ := h
  have hno : id ∉ l.take cap := fun hmem => hid (List.mem_of_mem_take hmem)
  obtain ⟨q', is', hq', ht'⟩ := ht.recordAccess_of_notMem hno (by
    have hlen := List.length_take_le cap l
    omega)
  obtain rfl : q' = q := Option.some.inj (hq'.symm.trans hq)
  have htake : (Stack.touch l id).take (cap + 1) = id :: l.take cap := by
    unfold Stack.touch
    rw [List.take_succ_cons, List.erase_of_not_mem hid]
  rw [htake]
  refine ⟨is', ht', fun id' => ?_⟩
  show _ ↔ id' ∈ p.pageTable.insert id p.frames.length
  rw [AList.mem_insert, List.mem_cons, hl]

section Flusher

variable [WalFlusher φ]

/-- **A fetch** that succeeds puts its page in front. -/
theorem Listed.fetched (h : Listed p (l.take p.capacity)) (hw : Wf p) (hheld : p.held = [])
    {f : Frame} (hrun : fetchPage id p = some (.ok f, p')) :
    Listed p' ((Stack.touch l id).take p.capacity) := by
  rw [← Stack.take_touch]
  generalize hr : Except.ok f = r at hrun
  cases fetchPage_outcome hrun with
  | hit hl hrecord =>
    have hid := (h.mem_iff id).mpr (AList.mem_of_lookup hl)
    exact (h.touched hid hrecord).congr rfl rfl rfl
  | full => cases hr
  | unread => cases hr
  | corrupt => cases hr
  | @loaded p₁ d page found q hl hroom hread hdecode hrecord =>
    have hid : id ∉ l.take p.capacity := fun hin =>
      AList.lookup_eq_none.mp hl ((h.mem_iff id).mp hin)
    obtain ⟨cap, hcap, hcapacity₁, -, hlisted₁⟩ := h.makeRoom hw hheld hroom
    have hlisted₂ : Listed { p₁ with diskManager := d } _ := hlisted₁.congr rfl rfl rfl
    have hinstalled := hlisted₂.installed (hcapacity₁.trans hcap) hid hrecord found
    rwa [← hcap] at hinstalled

end Flusher

/-! ### Runs -/

/-- The cache has the front of the list of all pages that were used. -/
structure Recently (p₀ p : BufferPool φ) (history : List PageId) : Prop where
  wf : Wf p
  fresh : Fresh p
  held : p.held = []
  capacity : p.capacity = p₀.capacity
  listed : Listed p ((Stack.recent history).take p.capacity)

theorem Recently.mem_iff {p₀ : BufferPool φ} {history : List PageId}
    (h : Recently p₀ p history) (id : PageId) :
    id ∈ p.pageTable ↔ id ∈ (Stack.recent history).take p₀.capacity := by
  rw [← h.listed.mem_iff, h.capacity]

theorem Recently.kept {p₀ : BufferPool φ} {history : List PageId} (h : Recently p₀ p history)
    (hkind : Kind p p') (hsame : SameOrder p p') : Recently p₀ p' history where
  wf := hkind.wf
  fresh := hkind.fresh
  held := hsame.held.trans h.held
  capacity := hsame.capacity.trans h.capacity
  listed := by
    rw [hsame.capacity]
    exact h.listed.congr hsame.table hsame.replacer hsame.capacity

section Flusher

variable [WalFlusher φ] {p₀ : BufferPool φ} {history : List PageId} {uses : List (PageId × Bool)}
  {n : ℕ}

/-- A fetch that succeeds puts its page in front. -/
theorem Recently.fetch (h : Recently p₀ p history) (halloc : Allocated p id) {f : Frame}
    (hrun : fetchPage id p = some (.ok f, p')) (node : BTreeNode) :
    Recently p₀ { p'.withNode f node with held := p'.held.erase f } (id :: history) := by
  have hkind := (Client.fetch halloc hrun).kind h.wf h.fresh
  obtain ⟨-, hfetched⟩ := (h.wf.fetchPage hrun).2 f rfl halloc.aligned
  have hcapacity : p'.capacity = p.capacity := hfetched.grown.capacity
  have hlisted : Listed p' ((Stack.recent (id :: history)).take p.capacity) :=
    h.listed.fetched h.wf h.held hrun
  refine ⟨(hkind.wf.withNode f node).drop f,
    ⟨hkind.fresh.aligned, hkind.fresh.pos, hkind.fresh.below⟩, ?_, hcapacity.trans h.capacity, ?_⟩
  · show p'.held.erase f = []
    rw [hfetched.held, List.erase_cons_head, h.held]
  · show Listed _ ((Stack.recent (id :: history)).take p'.capacity)
    rw [hcapacity]
    exact hlisted.congr rfl rfl rfl

/-- So does making a page. -/
theorem Recently.make (h : Recently p₀ p history) {isLeaf : Bool} {f : Frame}
    (hrun : newPage isLeaf p = some (.ok (id, f), p')) (node : BTreeNode) :
    Recently p₀ { p'.withNode f node with held := p'.held.erase f } (id :: history) := by
  have hkind := (Client.make hrun).kind h.wf h.fresh
  obtain ⟨-, -, hok⟩ := h.wf.newPage h.fresh hrun
  have hcreated := hok id f rfl
  have hcapacity : p'.capacity = p.capacity := hcreated.grown.capacity
  have hlisted : Listed p' ((Stack.recent (id :: history)).take p.capacity) := by
    show Listed p' ((Stack.touch (Stack.recent history) id).take p.capacity)
    rw [← Stack.take_touch]
    -- the page that is made was not there
    have hid : id ∉ (Stack.recent history).take p.capacity := by
      intro hin
      have hbelow := h.fresh.below id ((h.listed.mem_iff id).mp hin)
      rw [hcreated.offset] at hbelow
      exact Nat.lt_irrefl _ hbelow
    generalize hr : Except.ok (id, f) = r at hrun
    cases newPage_outcome hrun with
    | full => cases hr
    | @made p₁ q hroom hover hrecord =>
      obtain ⟨rfl, rfl⟩ := Prod.mk.inj (Except.ok.inj hr)
      obtain ⟨cap, hcap, hcapacity₁, -, hlisted₁⟩ := h.listed.makeRoom h.wf h.held hroom
      have hlisted₂ : Listed p₁.allocated _ := hlisted₁.congr rfl rfl rfl
      have hinstalled := hlisted₂.installed (hcapacity₁.trans hcap) hid hrecord
        (BTreeNode.newEmpty ⟨p₁.diskManager.header.nextFreeOffset⟩ isLeaf)
      rwa [← hcap] at hinstalled
  refine ⟨(hkind.wf.withNode f node).drop f,
    ⟨hkind.fresh.aligned, hkind.fresh.pos, hkind.fresh.below⟩, ?_, hcapacity.trans h.capacity, ?_⟩
  · show p'.held.erase f = []
    rw [hcreated.held, List.erase_cons_head, h.held]
  · show Listed _ ((Stack.recent (id :: history)).take p'.capacity)
    rw [hcapacity]
    exact hlisted.congr rfl rfl rfl

/-- **Along a run** the cache has the front of the list, and the pages that were read are those
that a store of the capacity of the pool loads. -/
theorem Paged.recently {d : DiskManager} {capacity : ℕ} {w : Option φ}
    (hfresh : Fresh (new d capacity w)) (h : Paged (new d capacity w) uses n p) :
    Recently (new d capacity w) p (uses.map Prod.fst) ∧ n = Stack.loads capacity uses := by
  induction h with
  | start =>
    refine ⟨⟨.new d capacity w, hfresh, rfl, rfl, ?_⟩, rfl⟩
    show Listed _ (([] : List PageId).take capacity)
    rw [List.take_nil]
    exact ⟨[], .new capacity, fun id => ⟨nofun, fun hmem => absurd hmem (AList.notMem_empty _)⟩⟩
  | @fetch p p' uses n id f _ halloc hrun node ih =>
    obtain ⟨hrecent, rfl⟩ := ih
    refine ⟨hrecent.fetch halloc hrun node, ?_⟩
    rw [Stack.loads_used]
    exact congrArg _ (if_congr (hrecent.mem_iff id) rfl rfl)
  | make _ hrun node ih =>
    obtain ⟨hrecent, rfl⟩ := ih
    exact ⟨hrecent.make hrun node, rfl⟩
  | flush _ hrun ih =>
    obtain ⟨hrecent, hn⟩ := ih
    have hkind := (Client.flush hrun).kind hrecent.wf hrecent.fresh
    exact ⟨hrecent.kept hkind (flushPage_sameOrder hrun), hn⟩
  | flushAll _ hrun ih =>
    obtain ⟨hrecent, hn⟩ := ih
    have hkind := (Client.flushAll hrun).kind hrecent.wf hrecent.fresh
    exact ⟨hrecent.kept hkind (flushAllPages_sameOrder hrun), hn⟩

/-- Any uses of pages that have a content can be served. -/
theorem exists_paged {d : DiskManager} {capacity : ℕ} {w : Option φ}
    (hserv : Serviceable (new d capacity w)) (hfresh : Fresh (new d capacity w)) (ids : List PageId)
    (hpages : ∀ id ∈ ids, Allocated (new d capacity w) id ∧ ∃ c, (new d capacity w).Has id c) :
    ∃ n p, Paged (new d capacity w) (ids.map fun id => (id, false)) n p := by
  -- the pool goes on to serve, and the pages keep their contents
  suffices h : ∀ pages : List PageId, pages ⊆ ids →
      ∃ n p, Paged (new d capacity w) (pages.map fun id => (id, false)) n p ∧ Serviceable p ∧
        ∀ id ∈ ids, Allocated p id ∧ ∃ c, p.Has id c by
    obtain ⟨n, p, h, -⟩ := h ids (List.Subset.refl _)
    exact ⟨n, p, h⟩
  intro pages hsub
  induction pages with
  | nil => exact ⟨0, _, .start, hserv, hpages⟩
  | cons id pages ih =>
    obtain ⟨n, p, h, hp, hkept⟩ := ih fun id' hid' => hsub (List.mem_cons_of_mem _ hid')
    obtain ⟨halloc, c, hc⟩ := hkept id (hsub (List.mem_cons_self ..))
    obtain ⟨f, p', hrun, hready, hheld⟩ := hp.fetchPage halloc.aligned halloc.ne_zero hc
    have hkind := (Client.fetch halloc hrun).kind hp.wf (h.recently hfresh).1.fresh
    obtain ⟨-, hfetched⟩ := (hp.wf.fetchPage hrun).2 f rfl halloc.aligned
    obtain ⟨node, hnode⟩ := hkind.wf.node hfetched.lookup
    have hnext := Paged.fetch h halloc hrun node
    rw [withNode_self hnode] at hnext
    refine ⟨_, _, hnext, hready.drop hheld, fun id' hid' => ?_⟩
    obtain ⟨halloc', c', hc'⟩ := hkept id' hid'
    have hafter := hkind.allocated id' halloc'
    exact ⟨⟨hafter.aligned, hafter.ne_zero, hafter.below⟩, c',
      (hkind.served id' halloc').has hp.noFaults hc'⟩

/-! ### Two pages -/

namespace TwoPages

theorem allocated {id : PageId} (hid : id ∈ pages) (capacity : ℕ) :
    Allocated (new disk capacity (none : Option Empty)) id := by
  obtain ⟨ha, hne⟩ := aligned hid
  have hbelow : (4096 : UInt64).toNat < disk.header.nextFreeOffset.toNat ∧
      (8192 : UInt64).toNat < disk.header.nextFreeOffset.toNat := by decide
  obtain rfl | rfl := hid
  · exact ⟨ha, hne, hbelow.1⟩
  · exact ⟨ha, hne, hbelow.2⟩

theorem fresh (capacity : ℕ) : Fresh (new disk capacity (none : Option Empty)) := by
  have hheader : disk.header.nextFreeOffset.toNat % pageSize = 0 ∧
      pageSize ≤ disk.header.nextFreeOffset.toNat := by decide
  exact ⟨hheader.1, hheader.2, fun _ h => absurd h (AList.notMem_empty _)⟩

theorem exists_uses {capacity : ℕ} (hcap : 0 < capacity) :
    ∃ n p, Paged (new disk capacity (none : Option Empty))
      [(⟨4096⟩, false), (⟨8192⟩, false), (⟨4096⟩, false)] n p := by
  refine exists_paged (serviceable hcap) (fresh capacity) [⟨4096⟩, ⟨8192⟩, ⟨4096⟩] ?_
  intro id hid
  have hmem : id ∈ pages := by
    rcases List.mem_cons.mp hid with rfl | hid
    · exact first_mem
    rcases List.mem_cons.mp hid with rfl | hid
    · exact second_mem
    · exact List.mem_singleton.mp hid ▸ first_mem
  exact ⟨allocated hmem capacity, _, has hmem capacity⟩

end TwoPages

/-- **Which pages are cached**: those since whose last use fewer other pages were used than the
pool has room for. -/
theorem cached_iff {d : DiskManager} {capacity : ℕ} {w : Option φ}
    (hfresh : Fresh (new d capacity w)) (h : Paged (new d capacity w) uses n p) (id : PageId) :
    id ∈ p.pageTable ↔ ∃ newer older, uses.map Prod.fst = newer ++ id :: older ∧ id ∉ newer ∧
      newer.toFinset.card < capacity :=
  ((h.recently hfresh).1.mem_iff id).trans Stack.mem_take_recent

/-- With room for one page the page before the last is gone. -/
theorem cached_iff_twoPages : ∃ n p,
    Paged (new TwoPages.disk 1 (none : Option Empty))
      [(⟨4096⟩, false), (⟨8192⟩, false), (⟨4096⟩, false)] n p ∧
      (⟨4096⟩ : PageId) ∈ p.pageTable ∧ (⟨8192⟩ : PageId) ∉ p.pageTable := by
  obtain ⟨n, p, h⟩ := TwoPages.exists_uses Nat.one_pos
  refine ⟨n, p, h, (cached_iff (TwoPages.fresh 1) h _).mpr ?_, fun hmem => ?_⟩
  · exact ⟨[], [⟨8192⟩, ⟨4096⟩], rfl, List.not_mem_nil, by decide⟩
  · obtain ⟨newer, older, huses, hno, hcard⟩ := (cached_iff (TwoPages.fresh 1) h _).mp hmem
    have hnil : newer = [] := by
      rw [← List.toFinset_eq_empty_iff, ← Finset.card_eq_zero]
      omega
    subst hnil
    cases huses

/-- **A larger pool** that serves the same uses has every page that the smaller one has, and has
read no more pages from the disk. -/
theorem reads_antitone {φ' : Type} [WalFlusher φ'] {d d' : DiskManager} {capacity capacity' : ℕ}
    {w : Option φ} {w' : Option φ'} {n' : ℕ} {p' : BufferPool φ'}
    (hfresh : Fresh (new d capacity w)) (hfresh' : Fresh (new d' capacity' w'))
    (hle : capacity ≤ capacity') (h : Paged (new d capacity w) uses n p)
    (h' : Paged (new d' capacity' w') uses n' p') :
    (∀ id, id ∈ p.pageTable → id ∈ p'.pageTable) ∧ n' ≤ n := by
  obtain ⟨hrecent, rfl⟩ := h.recently hfresh
  obtain ⟨hrecent', rfl⟩ := h'.recently hfresh'
  refine ⟨fun id hid => ?_, Stack.loads_antitone hle uses⟩
  rw [hrecent.mem_iff] at hid
  rw [hrecent'.mem_iff]
  exact List.take_subset_take_left _ hle hid

theorem reads_antitone_twoPages : ∃ n p n' p',
    Paged (new TwoPages.disk 1 (none : Option Empty))
      [(⟨4096⟩, false), (⟨8192⟩, false), (⟨4096⟩, false)] n p ∧
    Paged (new TwoPages.disk 2 (none : Option Empty))
      [(⟨4096⟩, false), (⟨8192⟩, false), (⟨4096⟩, false)] n' p' ∧
    (∀ id, id ∈ p.pageTable → id ∈ p'.pageTable) ∧ n' ≤ n := by
  obtain ⟨n, p, h⟩ := @TwoPages.exists_uses 1 (by decide)
  obtain ⟨n', p', h'⟩ := @TwoPages.exists_uses 2 (by decide)
  exact ⟨n, p, n', p', h, h',
    reads_antitone (TwoPages.fresh 1) (TwoPages.fresh 2) (by decide) h h'⟩

end Flusher

end BufferPool

end SmolDb
