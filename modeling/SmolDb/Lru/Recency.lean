import SmolDb.Lib.Linked
import SmolDb.Lib.Runs
import SmolDb.Lru.Replacer

/-!
# The replacer is a recency list

What the replacer is for: a list of pages without duplicates, from most to least recently used
(`Recency`). `LruReplacer.Threaded r cap is l` says that the arena threads the indices `is` and that
they hold the pages `l`; every other slot of the arena is in the free list. Each operation of the
replacer is shown to keep it, with the matching operation on the list, and the runs from
`LruReplacer.new` follow.
-/

namespace SmolDb

/-! ### The recency list -/

namespace Recency

/-- Move a page to the front, or add it there when there is room. -/
def access (capacity : ℕ) (l : List PageId) (id : PageId) : Option (List PageId) :=
  if id ∈ l then some (id :: l.erase id)
  else if l.length = capacity then none
  else some (id :: l)

section

variable {σ : Type} (predicate : σ → PageId → Option (Bool × σ))

/-- Consult the predicate on one page after another up to the first it accepts. -/
def scan : List PageId → σ → Option (Option PageId × σ)
  | [], s => some (none, s)
  | id :: ids, s => do
    let (accepted, s) ← predicate s id
    if accepted then some (some id, s) else scan ids s

/-- The list without the page that was evicted, if any. -/
def without (l : List PageId) : Option PageId → List PageId
  | some id => l.erase id
  | none => l

/-- Evict the least recently used page that the predicate accepts. -/
def evictIf (s : σ) (l : List PageId) : Option (Option PageId × σ × List PageId) := do
  let (found, s) ← scan predicate l.reverse s
  some (found, s, without l found)

/-- The page a scan finds is listed, and the predicate accepted it. -/
theorem scan_found {l : List PageId} {s s' : σ} {id : PageId}
    (h : scan predicate l s = some (some id, s')) :
    id ∈ l ∧ ∃ s₁ s₂, predicate s₁ id = some (true, s₂) := by
  induction l generalizing s with
  | nil => cases h
  | cons id' ids ih =>
    rw [scan] at h
    obtain ⟨⟨accepted, s₁⟩, hp, h⟩ := Option.bind_eq_some_iff.mp h
    cases accepted with
    | true =>
      cases h
      exact ⟨List.mem_cons_self .., s, s', hp⟩
    | false =>
      obtain ⟨hmem, hacc⟩ := ih h
      exact ⟨List.mem_cons_of_mem _ hmem, hacc⟩

theorem evictIf_found {l l' : List PageId} {s s' : σ} {id : PageId}
    (h : evictIf predicate s l = some (some id, s', l')) :
    id ∈ l ∧ ∃ s₁ s₂, predicate s₁ id = some (true, s₂) := by
  obtain ⟨⟨found, s₁⟩, hscan, heq⟩ := Option.bind_eq_some_iff.mp h
  cases heq
  obtain ⟨hmem, hacc⟩ := scan_found predicate hscan
  exact ⟨List.mem_reverse.mp hmem, hacc⟩

end

end Recency

/-! ### The links of the arena -/

namespace LruReplacer

variable {q r : LruReplacer}

/-- The links the arena holds. -/
def linksAt (arena : List LruNode) (i : ℕ) : Links ℕ :=
  match arena[i]? with
  | some node => ⟨node.prev, node.next⟩
  | none => ⟨none, none⟩

/-- The linked list of the replacer. -/
def linked (self : LruReplacer) : Linked ℕ := ⟨linksAt self.arena, self.headIdx, self.tailIdx⟩

/-- The pages the arena holds. -/
def pageIds (self : LruReplacer) : List PageId := self.arena.map LruNode.pageId

@[simp] theorem length_pageIds : q.pageIds.length = q.arena.length := List.length_map ..

/-- The two replacers differ in their links only. -/
structure Relinked (r₁ r₂ : LruReplacer) : Prop where
  pages : r₂.pages = r₁.pages
  pageIds : r₂.pageIds = r₁.pageIds
  capacity : r₂.capacity = r₁.capacity
  freeList : r₂.freeList = r₁.freeList

theorem Relinked.trans {r₁ r₂ r₃ : LruReplacer} (h : Relinked r₁ r₂) (h' : Relinked r₂ r₃) :
    Relinked r₁ r₃ where
  pages := h'.pages.trans h.pages
  pageIds := h'.pageIds.trans h.pageIds
  capacity := h'.capacity.trans h.capacity
  freeList := h'.freeList.trans h.freeList

theorem Relinked.length_arena (h : Relinked q r) : r.arena.length = q.arena.length := by
  rw [← length_pageIds, h.pageIds, length_pageIds]

theorem linksAt_set {arena : List LruNode} {i : ℕ} (hi : i < arena.length) (node : LruNode) :
    linksAt (arena.set i node) = Function.update (linksAt arena) i ⟨node.prev, node.next⟩ := by
  funext j
  by_cases hij : j = i
  · subst hij
    rw [Function.update_self, linksAt, List.getElem?_set_self hi]
  · rw [Function.update_of_ne hij, linksAt, linksAt, List.getElem?_set_ne (Ne.symm hij)]

theorem map_pageId_set {arena : List LruNode} {i : ℕ} {node node' : LruNode}
    (hi : arena[i]? = some node) (hid : node'.pageId = node.pageId) :
    (arena.set i node').map LruNode.pageId = arena.map LruNode.pageId := by
  rw [List.map_set, hid]
  refine List.ext_getElem? fun j => ?_
  by_cases hij : i = j
  · subst hij
    have hlt := (List.getElem?_eq_some_iff.mp hi).1
    rw [List.getElem?_set_self (by simpa using hlt), List.getElem?_map, hi, Option.map_some]
  · rw [List.getElem?_set_ne hij]

theorem exists_setPrev {i : ℕ} (hi : i < q.arena.length) (m : Option ℕ) :
    ∃ r, q.setPrev i m = some r ∧ Relinked q r ∧
      r.linked = { q.linked with links := Linked.setPrev q.linked.links (some i) m } := by
  have hnode := List.getElem?_eq_getElem hi
  have hset : q.setPrev i m =
      some { q with arena := q.arena.set i { q.arena[i] with prev := m } } := by
    rw [setPrev, hnode]
    rfl
  refine ⟨_, hset, ⟨rfl, map_pageId_set hnode rfl, rfl, rfl⟩, ?_⟩
  have hlinks : linksAt q.arena i = ⟨q.arena[i].prev, q.arena[i].next⟩ := by
    rw [linksAt, hnode]
  simp only [linked, linksAt_set hi, Linked.setPrev, hlinks]

theorem exists_setNext {i : ℕ} (hi : i < q.arena.length) (m : Option ℕ) :
    ∃ r, q.setNext i m = some r ∧ Relinked q r ∧
      r.linked = { q.linked with links := Linked.setNext q.linked.links (some i) m } := by
  have hnode := List.getElem?_eq_getElem hi
  have hset : q.setNext i m =
      some { q with arena := q.arena.set i { q.arena[i] with next := m } } := by
    rw [setNext, hnode]
    rfl
  refine ⟨_, hset, ⟨rfl, map_pageId_set hnode rfl, rfl, rfl⟩, ?_⟩
  have hlinks : linksAt q.arena i = ⟨q.arena[i].prev, q.arena[i].next⟩ := by
    rw [linksAt, hnode]
  simp only [linked, linksAt_set hi, Linked.setNext, hlinks]

theorem exists_setNextOrHead {o : Option ℕ} (ho : ∀ p, o = some p → p < q.arena.length)
    (m : Option ℕ) :
    ∃ r, q.setNextOrHead o m = some r ∧ Relinked q r ∧
      r.linked =
        { q.linked with
          links := Linked.setNext q.linked.links o m
          head := if o = none then m else q.linked.head } := by
  cases o with
  | none => exact ⟨_, rfl, ⟨rfl, rfl, rfl, rfl⟩, rfl⟩
  | some p => exact exists_setNext (ho p rfl) m

theorem exists_setPrevOrTail {o : Option ℕ} (ho : ∀ p, o = some p → p < q.arena.length)
    (m : Option ℕ) :
    ∃ r, q.setPrevOrTail o m = some r ∧ Relinked q r ∧
      r.linked =
        { q.linked with
          links := Linked.setPrev q.linked.links o m
          tail := if o = none then m else q.linked.tail } := by
  cases o with
  | none => exact ⟨_, rfl, ⟨rfl, rfl, rfl, rfl⟩, rfl⟩
  | some p => exact exists_setPrev (ho p rfl) m

theorem exists_unlink {i : ℕ} (hi : i < q.arena.length)
    (hprev : ∀ p, (q.linked.links i).prev = some p → p < q.arena.length)
    (hnext : ∀ n, (q.linked.links i).next = some n → n < q.arena.length) :
    ∃ r, q.unlink i = some r ∧ Relinked q r ∧ r.linked = q.linked.unlink i := by
  have hnode := List.getElem?_eq_getElem hi
  have hlinks : q.linked.links i = ⟨q.arena[i].prev, q.arena[i].next⟩ := by
    simp only [linked, linksAt, hnode]
  rw [hlinks] at hprev hnext
  -- the two neighbours are relinked, each or the end it stands for
  obtain ⟨r₁, h₁, hre₁, hl₁⟩ := exists_setNextOrHead hprev q.arena[i].next
  obtain ⟨r₂, h₂, hre₂, hl₂⟩ := exists_setPrevOrTail (q := r₁)
    (fun n hn => by rw [hre₁.length_arena]; exact hnext n hn) q.arena[i].prev
  refine ⟨r₂, ?_, hre₁.trans hre₂, ?_⟩
  · rw [unlink, hnode]
    simp only [Option.bind_eq_bind, Option.bind_some, h₁, h₂]
  · rw [hl₂, hl₁, Linked.unlink, hlinks]

theorem exists_insertHead {i : ℕ} (hi : i < q.arena.length)
    (hhead : ∀ h, q.headIdx = some h → h < q.arena.length) :
    ∃ r, q.insertHead i = some r ∧ Relinked q r ∧ r.linked = q.linked.pushFront i := by
  obtain ⟨r₁, h₁, hre₁, hl₁⟩ := exists_setPrev hi none
  obtain ⟨r₂, h₂, hre₂, hl₂⟩ := exists_setNext (q := r₁)
    (by rw [hre₁.length_arena]; exact hi) r₁.headIdx
  have hhead₁ : r₁.headIdx = q.headIdx := congrArg Linked.head hl₁
  -- the head is read before it is replaced
  have hhead₂ : r₂.headIdx = q.headIdx := (congrArg Linked.head hl₂).trans hhead₁
  obtain ⟨r₃, h₃, hre₃, hl₃⟩ := exists_setPrevOrTail (q := r₂) (o := r₂.headIdx)
    (fun h hh => by
      rw [(hre₁.trans hre₂).length_arena]
      exact hhead h (hhead₂ ▸ hh)) (some i)
  refine ⟨{ r₃ with headIdx := some i }, ?_, ?_, ?_⟩
  · rw [insertHead, h₁]
    simp only [Option.bind_eq_bind, Option.bind_some, h₂, h₃]
  · exact ((hre₁.trans hre₂).trans hre₃).trans ⟨rfl, rfl, rfl, rfl⟩
  · have hlinks := congrArg Linked.links hl₃
    have htail := congrArg Linked.tail hl₃
    rw [hl₂, hl₁, hhead₁, hhead₂] at hlinks htail
    simp only [linked] at hlinks htail ⊢
    simp [Linked.pushFront, hlinks, htail, Linked.setNext, Linked.setPrev]

/-! ### Threading -/

/-- The arena threads the slots `is`, which hold the pages `l`, and every other slot is free. -/
structure Threaded (r : LruReplacer) (cap : ℕ) (is : List ℕ) (l : List PageId) : Prop where
  capacity_eq : r.capacity = cap
  linked : r.linked.Is is
  slots : (is ++ r.freeList).Perm (List.range r.arena.length)
  pages_at : is.map (r.pageIds[·]?) = l.map some
  nodup : l.Nodup
  lookup : ∀ id i, r.pages.lookup id = some i ↔ i ∈ is ∧ r.pageIds[i]? = some id
  length_le : l.length ≤ cap

namespace Threaded

variable {cap : ℕ} {is : List ℕ} {l : List PageId}

theorem new (cap : ℕ) : Threaded (LruReplacer.new cap) cap [] [] where
  capacity_eq := rfl
  linked := Linked.Is.empty
  slots := List.Perm.refl _
  pages_at := rfl
  nodup := List.nodup_nil
  lookup := by simp [LruReplacer.new]
  length_le := Nat.zero_le _

theorem length_eq (h : Threaded q cap is l) : is.length = l.length := by
  simpa using congrArg List.length h.pages_at

theorem lt_of_mem (h : Threaded q cap is l) {i : ℕ} (hi : i ∈ is) : i < q.arena.length :=
  List.mem_range.mp (h.slots.mem_iff.mp (List.mem_append_left _ hi))

theorem length_le_arena (h : Threaded q cap is l) : is.length ≤ q.arena.length := by
  have hperm := h.slots.length_eq
  rw [List.length_append, List.length_range] at hperm
  omega

/-- A list split at one of its slots is split at the page of this slot. -/
theorem split_pages (h : Threaded q cap is l) {xs ys : List ℕ} {i : ℕ} (his : is = xs ++ i :: ys) :
    ∃ l₁ id l₂, l = l₁ ++ id :: l₂ ∧ q.pageIds[i]? = some id ∧
      xs.map (q.pageIds[·]?) = l₁.map some ∧ ys.map (q.pageIds[·]?) = l₂.map some := by
  have hpages := h.pages_at
  rw [his, List.map_append, List.map_cons] at hpages
  obtain ⟨l₁, l', rfl, hl₁, hl'⟩ := List.map_eq_append_iff.mp hpages.symm
  obtain ⟨id, l₂, rfl, hid, hl₂⟩ := List.map_eq_cons_iff.mp hl'
  exact ⟨l₁, id, l₂, rfl, hid.symm, hl₁.symm, hl₂.symm⟩

/-- A list split at one of its pages is split at the slot of this page. -/
theorem split_slots (h : Threaded q cap is l) {l₁ l₂ : List PageId} {id : PageId}
    (hl : l = l₁ ++ id :: l₂) :
    ∃ xs i ys, is = xs ++ i :: ys ∧ q.pageIds[i]? = some id ∧
      xs.map (q.pageIds[·]?) = l₁.map some ∧ ys.map (q.pageIds[·]?) = l₂.map some := by
  have hpages := h.pages_at
  rw [hl, List.map_append, List.map_cons] at hpages
  obtain ⟨xs, is', rfl, hxs, his'⟩ := List.map_eq_append_iff.mp hpages
  obtain ⟨i, ys, rfl, hi, hys⟩ := List.map_eq_cons_iff.mp his'
  exact ⟨xs, i, ys, rfl, hi, hxs, hys⟩

/-- The map has exactly the listed pages. -/
theorem mem_iff (h : Threaded q cap is l) (id : PageId) :
    id ∈ l ↔ ∃ i, q.pages.lookup id = some i := by
  constructor
  · intro hid
    -- a page of the list stands in a listed slot, and the map leads there
    obtain ⟨l₁, l₂, hl⟩ := List.append_of_mem hid
    obtain ⟨xs, i, ys, rfl, hi, -, -⟩ := h.split_slots hl
    exact ⟨i, (h.lookup id i).mpr ⟨by simp, hi⟩⟩
  · rintro ⟨i, hi⟩
    obtain ⟨hmem, hid⟩ := (h.lookup id i).mp hi
    obtain ⟨xs, ys, his⟩ := List.append_of_mem hmem
    obtain ⟨l₁, id', l₂, rfl, hid', -, -⟩ := h.split_pages his
    rw [hid, Option.some.injEq] at hid'
    rw [hid']
    simp

theorem lookup_eq_none (h : Threaded q cap is l) {id : PageId} (hid : id ∉ l) :
    q.pages.lookup id = none := by
  cases hlook : q.pages.lookup id with
  | none => rfl
  | some i => exact absurd ((h.mem_iff id).mpr ⟨i, hlook⟩) hid

theorem size_eq (h : Threaded q cap is l) : q.size = l.length := by
  refine ((List.perm_ext_iff_of_nodup q.pages.keys_nodup h.nodup).mpr fun id => ?_).length_eq
  rw [← AList.mem_keys, ← AList.lookup_isSome, h.mem_iff, Option.isSome_iff_exists]

/-- A page is listed once, so the rest of the list does not hold it. -/
theorem notMem_of_split (h : Threaded q cap is l) {l₁ l₂ : List PageId} {id : PageId}
    (hl : l = l₁ ++ id :: l₂) : id ∉ l₁ ++ l₂ := by
  have hnd := h.nodup
  rw [hl, List.nodup_middle] at hnd
  exact (List.nodup_cons.mp hnd).1

theorem erase_of_split (h : Threaded q cap is l) {l₁ l₂ : List PageId} {id : PageId}
    (hl : l = l₁ ++ id :: l₂) : l.erase id = l₁ ++ l₂ := by
  have hno := h.notMem_of_split hl
  rw [hl, List.erase_append_right _ fun hmem => hno (List.mem_append_left _ hmem),
    List.erase_cons_head]

theorem unlink (h : Threaded q cap is l) {xs ys : List ℕ} {i : ℕ} (his : is = xs ++ i :: ys) :
    ∃ r, q.unlink i = some r ∧ Relinked q r ∧ r.linked.Is (xs ++ ys) := by
  have hlinked := h.linked
  rw [his] at hlinked
  have hlinks := hlinked.links_mid
  have hlt : ∀ j, j ∈ xs ++ i :: ys → j < q.arena.length := fun j hj =>
    h.lt_of_mem (his ▸ hj)
  obtain ⟨r, hr, hre, hl⟩ := exists_unlink (hlt i (by simp))
    (fun p hp => hlt p (by
      rw [hlinks] at hp
      exact List.mem_append_left _ (List.mem_of_mem_getLast? hp)))
    (fun n hn => hlt n (by
      rw [hlinks] at hn
      exact List.mem_append_right _ (List.mem_cons_of_mem _ (List.mem_of_mem_head? hn))))
  exact ⟨r, hr, hre, hl ▸ hlinked.unlink_mid⟩

theorem insertHead (hlinked : q.linked.Is is) (hlt : ∀ j ∈ is, j < q.arena.length) {i : ℕ}
    (hi : i < q.arena.length) (hnew : i ∉ is) :
    ∃ r, q.insertHead i = some r ∧ Relinked q r ∧ r.linked.Is (i :: is) := by
  obtain ⟨r, hr, hre, hl⟩ := exists_insertHead hi fun j hj => hlt j (by
    have hhead : q.headIdx = is.head? := hlinked.head_eq
    rw [hhead] at hj
    exact List.mem_of_mem_head? hj)
  exact ⟨r, hr, hre, hl ▸ hlinked.pushFront hnew⟩

/-- **`record_access` of a tracked page** moves it to the front. -/
theorem recordAccess_of_mem (h : Threaded q cap is l) {id : PageId} (hid : id ∈ l) :
    ∃ r is', q.recordAccess id = some r ∧ Threaded r cap is' (id :: l.erase id) := by
  -- the slot of the page is taken out of the chain and put in front
  obtain ⟨l₁, l₂, hl⟩ := List.append_of_mem hid
  obtain ⟨xs, i, ys, his, hi, hxs, hys⟩ := h.split_slots hl
  obtain ⟨r₁, h₁, hre₁, hl₁⟩ := h.unlink his
  have hperm : (i :: (xs ++ ys)).Perm is := his ▸ List.perm_middle.symm
  have hnd : (i :: (xs ++ ys)).Nodup := hperm.nodup_iff.mpr h.linked.nodup
  have hlt : ∀ j ∈ i :: (xs ++ ys), j < r₁.arena.length := fun j hj => by
    rw [hre₁.length_arena]
    exact h.lt_of_mem (hperm.mem_iff.mp hj)
  obtain ⟨r, hr, hre, hlr⟩ := insertHead hl₁ (fun j hj => hlt j (List.mem_cons_of_mem _ hj))
    (hlt i (List.mem_cons_self ..)) (List.nodup_cons.mp hnd).1
  have hreq := hre₁.trans hre
  refine ⟨r, i :: (xs ++ ys), ?_, ?_⟩
  · have hlook : q.pages.lookup id = some i := (h.lookup id i).mpr ⟨by rw [his]; simp, hi⟩
    rw [recordAccess, hlook]
    simp only [h₁, Option.bind_eq_bind, Option.bind_some, hr]
  · rw [h.erase_of_split hl]
    exact
      { capacity_eq := hreq.capacity.trans h.capacity_eq
        linked := hlr
        slots := by
          rw [hreq.freeList, hreq.length_arena]
          exact (hperm.append_right _).trans h.slots
        pages_at := by
          rw [hreq.pageIds, List.map_cons, List.map_append, hi, hxs, hys, List.map_cons,
            List.map_append]
        nodup := by
          rw [← List.nodup_middle, ← hl]
          exact h.nodup
        lookup := fun id' j => by
          rw [hreq.pages, hreq.pageIds, h.lookup, hperm.mem_iff]
        length_le := by
          have hle := h.length_le
          simp only [hl, List.length_append, List.length_cons] at hle ⊢
          omega }

theorem claimSlot_of_nil (hfree : q.freeList = []) (id : PageId) :
    q.claimSlot id = some (q.arena.length, { q with arena := q.arena ++ [⟨none, id, none⟩] }) := by
  rw [LruReplacer.claimSlot, hfree]
  rfl

theorem claimSlot_of_concat {free : List ℕ} {i : ℕ} (hfree : q.freeList = free ++ [i])
    (hi : i < q.arena.length) (id : PageId) :
    q.claimSlot id = some (i,
      { q with arena := q.arena.set i ⟨none, id, none⟩, freeList := free }) := by
  have hlast : q.freeList.getLast? = some i := by rw [hfree, List.getLast?_concat]
  rw [LruReplacer.claimSlot, hlast]
  simp only [if_pos hi, hfree, List.dropLast_concat]

/-- The slot a new page gets was free or did not exist. -/
theorem claimSlot (h : Threaded q cap is l) (id : PageId) :
    ∃ i r, q.claimSlot id = some (i, r) ∧ i ∉ is ∧ r.linked.Is is ∧
      ((i :: is) ++ r.freeList).Perm (List.range r.arena.length) ∧
      r.pageIds[i]? = some id ∧ (∀ j ∈ is, r.pageIds[j]? = q.pageIds[j]?) ∧
      r.pages = q.pages ∧ r.capacity = q.capacity := by
  have hnd : (is ++ q.freeList).Nodup := h.slots.nodup_iff.mpr List.nodup_range
  -- the arena grows when no slot is free; else the last free slot is used again
  rcases List.eq_nil_or_concat q.freeList with hfree | ⟨free, i, hfree⟩
  · refine ⟨_, _, claimSlot_of_nil hfree id, ?_, ?_, ?_, ?_, ?_, rfl, rfl⟩
    · exact fun hmem => Nat.lt_irrefl _ (h.lt_of_mem hmem)
    · refine ⟨h.linked.nodup, h.linked.head_eq, h.linked.tail_eq, h.linked.segment.congr ?_⟩
      intro j hj
      simp only [LruReplacer.linked, linksAt, List.getElem?_append_left (h.lt_of_mem hj)]
    · have hslots := h.slots
      rw [hfree, List.append_nil] at hslots
      simp only [hfree, List.append_nil, List.length_append, List.length_singleton,
        List.range_succ]
      exact (hslots.cons _).trans (List.perm_append_singleton _ _).symm
    · simp [LruReplacer.pageIds]
    · intro j hj
      rw [LruReplacer.pageIds, LruReplacer.pageIds, List.map_append,
        List.getElem?_append_left (by simpa using h.lt_of_mem hj)]
  · rw [List.concat_eq_append] at hfree
    have hi : i < q.arena.length := by
      refine List.mem_range.mp (h.slots.mem_iff.mp (List.mem_append_right _ ?_))
      rw [hfree]
      simp
    have hnew : i ∉ is := fun hmem =>
      (List.nodup_append.mp hnd).2.2 i hmem i (by rw [hfree]; simp) rfl
    refine ⟨_, _, claimSlot_of_concat hfree hi id, hnew, ?_, ?_, ?_, ?_, rfl, rfl⟩
    · refine ⟨h.linked.nodup, h.linked.head_eq, h.linked.tail_eq, h.linked.segment.congr ?_⟩
      intro j hj
      simp only [LruReplacer.linked]
      rw [linksAt_set hi, Function.update_of_ne (ne_of_mem_of_not_mem hj hnew)]
    · have hslots := h.slots
      rw [hfree] at hslots
      simp only [List.length_set, List.cons_append]
      calc (i :: (is ++ free)).Perm (is ++ free ++ [i]) := (List.perm_append_singleton _ _).symm
        _ = is ++ (free ++ [i]) := List.append_assoc ..
        List.Perm _ _ := hslots
    · simp [LruReplacer.pageIds, hi]
    · intro j hj
      rw [LruReplacer.pageIds, LruReplacer.pageIds, List.map_set,
        List.getElem?_set_ne (ne_of_mem_of_not_mem hj hnew).symm]

/-- **`record_access` of a new page** adds it at the front, when there is room. -/
theorem recordAccess_of_notMem (h : Threaded q cap is l) {id : PageId} (hid : id ∉ l)
    (hroom : l.length < cap) :
    ∃ r is', q.recordAccess id = some r ∧ Threaded r cap is' (id :: l) := by
  obtain ⟨i, r₁, h₁, hnew, hl₁, hslots, hi, hold, hpages, hcap⟩ := h.claimSlot id
  -- the claimed slot is in the arena, and on neither list
  have hlt : ∀ j ∈ i :: is, j < r₁.arena.length := fun j hj =>
    List.mem_range.mp (hslots.mem_iff.mp (List.mem_append_left _ hj))
  obtain ⟨r, hr, hre, hlr⟩ := insertHead (q := { r₁ with pages := r₁.pages.insert id i }) hl₁
    (fun j hj => hlt j (List.mem_cons_of_mem _ hj)) (hlt i (List.mem_cons_self ..)) hnew
  have hids : r.pageIds = r₁.pageIds := hre.pageIds
  refine ⟨r, i :: is, ?_, ?_⟩
  · rw [recordAccess, h.lookup_eq_none hid]
    simp only [h.size_eq, h.capacity_eq, if_pos hroom, h₁, Option.bind_eq_bind, Option.bind_some]
    rw [← hr]
  · exact
      { capacity_eq := (hre.capacity.trans hcap).trans h.capacity_eq
        linked := hlr
        slots := by
          rw [hre.freeList, hre.length_arena]
          exact hslots
        pages_at := by
          rw [hids, List.map_cons, List.map_cons, ← h.pages_at]
          exact congrArg₂ _ hi (List.map_congr_left hold)
        nodup := List.nodup_cons.mpr ⟨hid, h.nodup⟩
        lookup := fun id' j => by
          rw [hre.pages, hids]
          by_cases hid' : id' = id
          · subst hid'
            rw [AList.lookup_insert, Option.some.injEq]
            constructor
            · rintro rfl
              exact ⟨List.mem_cons_self .., hi⟩
            · rintro ⟨hj, hjid⟩
              rcases List.mem_cons.mp hj with rfl | hj
              · rfl
              · -- a listed slot holds a listed page, and this page is new
                rw [hold j hj] at hjid
                exact absurd ((h.mem_iff id').mpr ⟨j, (h.lookup id' j).mpr ⟨hj, hjid⟩⟩) hid
          · rw [AList.lookup_insert_ne hid', hpages, h.lookup]
            constructor
            · rintro ⟨hj, hjid⟩
              exact ⟨List.mem_cons_of_mem _ hj, (hold j hj).trans hjid⟩
            · rintro ⟨hj, hjid⟩
              rcases List.mem_cons.mp hj with rfl | hj
              · exact absurd (Option.some.inj (hjid.symm.trans hi)) hid'
              · exact ⟨hj, (hold j hj).symm.trans hjid⟩
        length_le := hroom }

/-- **`record_access` of a new page** panics when the replacer is full. -/
theorem recordAccess_of_full (h : Threaded q cap is l) {id : PageId} (hid : id ∉ l)
    (hfull : l.length = cap) : q.recordAccess id = none := by
  have hno : ¬ q.size < q.capacity := by
    rw [h.size_eq, h.capacity_eq, hfull]
    exact Nat.lt_irrefl _
  rw [recordAccess, h.lookup_eq_none hid]
  simp only [if_neg hno]

/-- **Releasing a slot** takes its page out of the list. -/
theorem release (h : Threaded q cap is l) {xs ys : List ℕ} {i : ℕ} {l₁ l₂ : List PageId}
    {id : PageId} (his : is = xs ++ i :: ys) (hl : l = l₁ ++ id :: l₂)
    (hi : q.pageIds[i]? = some id) (hxs : xs.map (q.pageIds[·]?) = l₁.map some)
    (hys : ys.map (q.pageIds[·]?) = l₂.map some) :
    ∃ r, q.release i id = some r ∧ Threaded r cap (xs ++ ys) (l₁ ++ l₂) := by
  obtain ⟨r₁, h₁, hre, hl₁⟩ := h.unlink his
  have hids : r₁.pageIds = q.pageIds := hre.pageIds
  have hperm : is.Perm (i :: (xs ++ ys)) := his ▸ List.perm_middle
  have hnew : i ∉ xs ++ ys := (List.nodup_cons.mp (hperm.nodup_iff.mp h.linked.nodup)).1
  refine ⟨{ r₁ with pages := r₁.pages.erase id, freeList := r₁.freeList ++ [i] }, ?_, ?_⟩
  · rw [LruReplacer.release, h₁]
    rfl
  · exact
      { capacity_eq := hre.capacity.trans h.capacity_eq
        linked := hl₁
        slots := by
          simp only [hre.freeList, hre.length_arena]
          -- the slot moves from the list to the end of the free list
          calc (xs ++ ys ++ (q.freeList ++ [i])).Perm (xs ++ ys ++ q.freeList ++ [i]) := by
                rw [List.append_assoc (xs ++ ys)]
            List.Perm _ (i :: (xs ++ ys) ++ q.freeList) := List.perm_append_singleton _ _
            List.Perm _ (is ++ q.freeList) := hperm.symm.append_right _
            List.Perm _ _ := h.slots
        pages_at := by
          change (xs ++ ys).map (r₁.pageIds[·]?) = _
          rw [hids, List.map_append, hxs, hys, List.map_append]
        nodup := by
          have hnd := h.nodup
          rw [hl, List.nodup_middle] at hnd
          exact (List.nodup_cons.mp hnd).2
        lookup := fun id' j => by
          change (r₁.pages.erase id).lookup id' = some j ↔ j ∈ xs ++ ys ∧ r₁.pageIds[j]? = some id'
          rw [hids, hre.pages]
          by_cases hid' : id' = id
          · subst hid'
            rw [AList.lookup_erase]
            refine ⟨nofun, fun ⟨hj, hjid⟩ => ?_⟩
            -- the map leads from a page to one slot only
            have hlook := (h.lookup id' j).mpr
              ⟨hperm.mem_iff.mpr (List.mem_cons_of_mem _ hj), hjid⟩
            have hlook' := (h.lookup id' i).mpr
              ⟨hperm.mem_iff.mpr (List.mem_cons_self ..), hi⟩
            rw [hlook, Option.some.injEq] at hlook'
            exact absurd (hlook' ▸ hj) hnew
          · rw [AList.lookup_erase_ne hid', h.lookup, hperm.mem_iff]
            refine ⟨fun ⟨hj, hjid⟩ => ⟨?_, hjid⟩,
              fun ⟨hj, hjid⟩ => ⟨List.mem_cons_of_mem _ hj, hjid⟩⟩
            rcases List.mem_cons.mp hj with rfl | hj
            · exact absurd (Option.some.inj (hjid.symm.trans hi)) hid'
            · exact hj
        length_le := by
          have hle := h.length_le
          simp only [hl, List.length_append, List.length_cons] at hle ⊢
          omega }

/-- Releasing the slot the map gives for a page. -/
theorem release_of_mem (h : Threaded q cap is l) {id : PageId} (hid : id ∈ l) :
    ∃ i r is', q.pages.lookup id = some i ∧ q.release i id = some r ∧
      Threaded r cap is' (l.erase id) := by
  obtain ⟨l₁, l₂, hl⟩ := List.append_of_mem hid
  obtain ⟨xs, i, ys, his, hi, hxs, hys⟩ := h.split_slots hl
  obtain ⟨r, hr, ht⟩ := h.release his hl hi hxs hys
  refine ⟨i, r, xs ++ ys, (h.lookup id i).mpr ⟨by rw [his]; simp, hi⟩, hr, ?_⟩
  rw [h.erase_of_split hl]
  exact ht

/-- The node in a listed slot: its page, and the slot before it. -/
theorem node_at (h : Threaded q cap is l) {xs ys : List ℕ} {i : ℕ} {id : PageId}
    (his : is = xs ++ i :: ys) (hi : q.pageIds[i]? = some id) :
    ∃ node, q.arena[i]? = some node ∧ node.pageId = id ∧ node.prev = xs.getLast? := by
  have hlinked := h.linked
  rw [his] at hlinked
  have hlinks := hlinked.links_mid
  rw [LruReplacer.pageIds, List.getElem?_map, Option.map_eq_some_iff] at hi
  obtain ⟨node, hnode, hid⟩ := hi
  refine ⟨node, hnode, hid, ?_⟩
  simp only [LruReplacer.linked, linksAt, hnode] at hlinks
  exact congrArg Links.prev hlinks

/-- The last of some slots holds the last of their pages. -/
theorem last_page {xs : List ℕ} {i : ℕ}
    (h : (xs ++ [i]).map (q.pageIds[·]?) = l.map some) :
    ∃ l₀ id, l = l₀ ++ [id] ∧ xs.map (q.pageIds[·]?) = l₀.map some ∧
      q.pageIds[i]? = some id := by
  rw [List.map_append, List.map_singleton] at h
  obtain ⟨l₀, l', rfl, hl₀, hl'⟩ := List.map_eq_append_iff.mp h.symm
  obtain ⟨id, l'', rfl, hid, hnil⟩ := List.map_eq_cons_iff.mp hl'
  obtain rfl : l'' = [] := List.map_eq_nil_iff.mp hnil
  exact ⟨l₀, id, rfl, hl₀.symm, hid.symm⟩

/-- **`remove`** deletes a page, and does nothing to a page that is not tracked. -/
theorem remove (h : Threaded q cap is l) (id : PageId) :
    ∃ r is', q.remove id = some r ∧ Threaded r cap is' (l.erase id) := by
  by_cases hid : id ∈ l
  · obtain ⟨i, r, is', hlook, hr, ht⟩ := h.release_of_mem hid
    exact ⟨r, is', by rw [LruReplacer.remove, hlook]; exact hr, ht⟩
  · refine ⟨q, is, by rw [LruReplacer.remove, h.lookup_eq_none hid], ?_⟩
    rw [List.erase_of_not_mem hid]
    exact h

/-- **`evict`** removes the last page. -/
theorem evict (h : Threaded q cap is l) :
    ∃ r is', q.evict = some (l.getLast?, r) ∧ Threaded r cap is' l.dropLast := by
  have htail : q.tailIdx = is.getLast? := h.linked.tail_eq
  rcases List.eq_nil_or_concat is with rfl | ⟨xs, i, his⟩
  · obtain rfl : l = [] := List.eq_nil_of_length_eq_zero h.length_eq.symm
    exact ⟨q, [], by rw [LruReplacer.evict, htail]; rfl, h⟩
  · rw [List.concat_eq_append] at his
    obtain ⟨l₁, id, l₂, hl, hi, hxs, hys⟩ := h.split_pages his
    -- the last slot holds the last page
    obtain rfl : l₂ = [] := List.map_eq_nil_iff.mp hys.symm
    obtain ⟨node, hnode, hid, -⟩ := h.node_at his hi
    obtain ⟨r, hr, ht⟩ := h.release his hl hi hxs hys
    rw [List.append_nil, List.append_nil] at ht
    refine ⟨r, xs, ?_, ?_⟩
    · rw [LruReplacer.evict, htail, his, List.getLast?_concat]
      simp only [hnode, hid, hr, Option.bind_eq_bind, Option.bind_some, hl,
        List.getLast?_concat]
    · rw [hl, List.dropLast_concat]
      exact ht

section EvictIf

variable {σ : Type} (predicate : σ → PageId → Option (Bool × σ))

/-- The loop of `evict_if`, started in the middle of the list, consults the predicate on the
pages from there to the head. The induction is on the slots still ahead of the cursor. -/
theorem evictIfLoop (h : Threaded q cap is l) {xs zs : List ℕ} {l₁ l₂ : List PageId}
    (his : is = xs ++ zs) (hl : l = l₁ ++ l₂) (hxs : xs.map (q.pageIds[·]?) = l₁.map some)
    (hzs : zs.map (q.pageIds[·]?) = l₂.map some) {fuel : ℕ} (hfuel : xs.length ≤ fuel) (s : σ) :
    (Recency.scan predicate l₁.reverse s = none ∧
        q.evictIfLoop predicate fuel xs.getLast? s = none) ∨
      ∃ found s' r is', Recency.scan predicate l₁.reverse s = some (found, s') ∧
        q.evictIfLoop predicate fuel xs.getLast? s = some (found, s', r) ∧
        Threaded r cap is' (Recency.without l found) := by
  induction xs using List.reverseRecOn generalizing zs l₁ l₂ fuel s with
  | nil =>
    obtain rfl : l₁ = [] := List.map_eq_nil_iff.mp hxs.symm
    right
    exact ⟨none, s, q, is, rfl, by cases fuel <;> rfl, h⟩
  | append_singleton xs i ih =>
    obtain ⟨fuel, rfl⟩ : ∃ f, fuel = f + 1 := ⟨fuel - 1, by simp at hfuel; omega⟩
    obtain ⟨l₀, id, rfl, hl₀, hid⟩ := last_page hxs
    rw [List.append_assoc, List.singleton_append] at his hl
    obtain ⟨node, hnode, hnid, hprev⟩ := h.node_at his hid
    have hscan : Recency.scan predicate (l₀ ++ [id]).reverse s =
        (predicate s id).bind fun p =>
          if p.1 then some (some id, p.2) else Recency.scan predicate l₀.reverse p.2 := by
      rw [List.reverse_append, List.reverse_singleton, List.singleton_append]
      rfl
    have hloop : q.evictIfLoop predicate (fuel + 1) (some i) s =
        (predicate s id).bind fun p =>
          if p.1 then (q.release i id).bind fun r => some (some id, p.2, r)
          else q.evictIfLoop predicate fuel xs.getLast? p.2 := by
      rw [LruReplacer.evictIfLoop, hnode]
      simp only [Option.bind_eq_bind, Option.bind_some, hnid, hprev]
    rw [List.getLast?_concat, hscan, hloop]
    -- both scans ask about the same page, and go on with the same rest
    rcases hp : predicate s id with _ | ⟨accepted, s'⟩
    · exact .inl ⟨rfl, rfl⟩
    · cases accepted with
      | true =>
        obtain ⟨r, hr, ht⟩ := h.release his hl hid hl₀ hzs
        refine .inr ⟨some id, s', r, xs ++ zs, rfl, by simp [hr], ?_⟩
        rw [Recency.without, h.erase_of_split hl]
        exact ht
      | false =>
        refine ih his hl hl₀ ?_ (by simp at hfuel; omega) s'
        rw [List.map_cons, List.map_cons, hzs, hid]

/-- **`evict_if`** removes the least recently used page the predicate accepts. -/
theorem evictIf (h : Threaded q cap is l) (s : σ) :
    (Recency.evictIf predicate s l = none ∧ q.evictIf predicate s = none) ∨
      ∃ found s' r is', Recency.evictIf predicate s l = some (found, s', Recency.without l found) ∧
        q.evictIf predicate s = some (found, s', r) ∧
        Threaded r cap is' (Recency.without l found) := by
  have htail : q.tailIdx = is.getLast? := h.linked.tail_eq
  have hlen := Nat.le_succ_of_le h.length_le_arena
  rw [LruReplacer.evictIf, htail, Recency.evictIf]
  rcases h.evictIfLoop predicate (List.append_nil is).symm (List.append_nil l).symm h.pages_at
      rfl hlen s with ⟨hscan, hloop⟩ | ⟨found, s', r, is', hscan, hloop, ht⟩
  · exact .inl ⟨by rw [hscan]; rfl, hloop⟩
  · exact .inr ⟨found, s', r, is', by rw [hscan]; rfl, hloop, ht⟩

/-- What the list says of a scan that ends, the replacer does. -/
theorem evictIf_of_some (h : Threaded q cap is l) {s s' : σ} {found : Option PageId}
    {l' : List PageId} (hlist : Recency.evictIf predicate s l = some (found, s', l')) :
    ∃ r is', q.evictIf predicate s = some (found, s', r) ∧ Threaded r cap is' l' := by
  rcases h.evictIf predicate s with ⟨hpanic, -⟩ | ⟨found', s'', r, is', hlist', hcall, ht⟩
  · rw [hlist] at hpanic
    cases hpanic
  · rw [hlist] at hlist'
    cases hlist'
    exact ⟨r, is', hcall, ht⟩

end EvictIf

/-- The loop of `peek_rev` takes the pages from the cursor to the head, up to one more than the
limit in all. -/
theorem peekRevLoop (h : Threaded q cap is l) {xs zs : List ℕ} {l₁ l₂ : List PageId}
    (his : is = xs ++ zs) (hl : l = l₁ ++ l₂) (hxs : xs.map (q.pageIds[·]?) = l₁.map some)
    (hzs : zs.map (q.pageIds[·]?) = l₂.map some) {fuel : ℕ} (hfuel : xs.length ≤ fuel)
    (limit : ℕ) (candidates : List PageId) :
    q.peekRevLoop limit fuel xs.getLast? candidates =
      some (candidates ++ l₁.reverse.take (limit + 1 - candidates.length)) := by
  induction xs using List.reverseRecOn generalizing zs l₁ l₂ fuel candidates with
  | nil =>
    obtain rfl : l₁ = [] := List.map_eq_nil_iff.mp hxs.symm
    cases fuel <;> simp [LruReplacer.peekRevLoop]
  | append_singleton xs i ih =>
    obtain ⟨fuel, rfl⟩ : ∃ f, fuel = f + 1 := ⟨fuel - 1, by simp at hfuel; omega⟩
    obtain ⟨l₀, id, rfl, hl₀, hid⟩ := last_page hxs
    rw [List.append_assoc, List.singleton_append] at his hl
    obtain ⟨node, hnode, hnid, hprev⟩ := h.node_at his hid
    rw [List.getLast?_concat, LruReplacer.peekRevLoop, List.reverse_append,
      List.reverse_singleton, List.singleton_append]
    by_cases hmore : candidates.length > limit
    · rw [if_pos hmore, Nat.sub_eq_zero_of_le hmore, List.take_zero, List.append_nil]
    · rw [if_neg hmore, hnode]
      simp only [Option.bind_eq_bind, Option.bind_some, hnid, hprev]
      rw [ih his hl hl₀ (by rw [List.map_cons, List.map_cons, hzs, hid])
        (by simp at hfuel; omega)]
      obtain ⟨k, hk⟩ : ∃ k, limit + 1 - candidates.length = k + 1 :=
        ⟨limit - candidates.length, by omega⟩
      have hk' : limit + 1 - (candidates ++ [id]).length = k := by
        rw [List.length_append, List.length_singleton]
        omega
      rw [hk, hk', List.take_succ_cons, List.append_assoc, List.singleton_append]

/-- **`peek_rev`** shows the least recently used pages, one more than its limit, if there can be
room for so many. -/
theorem peekRev (h : Threaded q cap is l) (limit : ℕ) :
    q.peekRev limit =
      if maxCandidates < limit then none else some (l.reverse.take (limit + 1)) := by
  have htail : q.tailIdx = is.getLast? := h.linked.tail_eq
  rw [LruReplacer.peekRev, htail, h.peekRevLoop (List.append_nil is).symm
    (List.append_nil l).symm h.pages_at rfl (Nat.le_succ_of_le h.length_le_arena) limit []]
  simp

end Threaded

/-! ### Runs -/

/-- What a replacer shows of the list it stands for: the slots `is` that its links lead through,
and the pages `l` in them. The links are followed with any number of rounds that the list fits
in, so a walk along them ends. -/
structure IsList (r : LruReplacer) (is : List ℕ) (l : List PageId) : Prop where
  nodup : l.Nodup
  size_eq : r.size = l.length
  walk_next : ∀ fuel, l.length ≤ fuel →
    Linked.walk (fun i => (r.linked.links i).next) fuel r.headIdx = some is
  walk_prev : ∀ fuel, l.length ≤ fuel →
    Linked.walk (fun i => (r.linked.links i).prev) fuel r.tailIdx = some is.reverse
  page_at : is.map (r.pageIds[·]?) = l.map some
  lookup : ∀ id i, r.pages.lookup id = some i ↔ ∃ k : ℕ, is[k]? = some i ∧ l[k]? = some id
  peekRev : ∀ limit, r.peekRev limit =
    if maxCandidates < limit then none else some (l.reverse.take (limit + 1))

theorem Threaded.isList {cap : ℕ} {is : List ℕ} {l : List PageId} (h : Threaded q cap is l) :
    IsList q is l where
  nodup := h.nodup
  size_eq := h.size_eq
  walk_next fuel hfuel := h.linked.walk_next (h.length_eq ▸ hfuel)
  walk_prev fuel hfuel := h.linked.walk_prev (h.length_eq ▸ hfuel)
  page_at := h.pages_at
  peekRev := h.peekRev
  lookup id i := by
    -- the slots and the pages stand at the same positions
    have hk : ∀ k : ℕ, (is[k]?).map (q.pageIds[·]?) = (l[k]?).map some := fun k => by
      rw [← List.getElem?_map, h.pages_at, List.getElem?_map]
    rw [h.lookup]
    constructor
    · rintro ⟨hi, hid⟩
      obtain ⟨k, hik⟩ := List.mem_iff_getElem?.mp hi
      have hlk := hk k
      rw [hik, Option.map_some, hid] at hlk
      obtain ⟨id', hid', heq⟩ := Option.map_eq_some_iff.mp hlk.symm
      cases heq
      exact ⟨k, hik, hid'⟩
    · rintro ⟨k, hi, hid⟩
      have hlk := hk k
      rw [hi, hid, Option.map_some, Option.map_some] at hlk
      exact ⟨List.mem_of_getElem? hi, Option.some.inj hlk⟩

/-- A replacer stands for one list only. -/
theorem Threaded.unique {cap cap' : ℕ} {is is' : List ℕ} {l l' : List PageId}
    (h : Threaded q cap is l) (h' : Threaded q cap' is' l') : l = l' := by
  have hwalk := h.isList.walk_next (max l.length l'.length) (Nat.le_max_left ..)
  rw [h'.isList.walk_next _ (Nat.le_max_right ..), Option.some.injEq] at hwalk
  have hpages := h.pages_at
  rw [← hwalk, h'.pages_at] at hpages
  exact ((List.map_inj_right fun _ _ => Option.some.inj).mp hpages).symm

end LruReplacer

/-- The calls of the replacer. A predicate reads and writes a state `σ` of the caller. -/
inductive LruOp (σ : Type) where
  | recordAccess (pageId : PageId)
  | remove (pageId : PageId)
  | evict
  | evictIf (predicate : σ → PageId → Option (Bool × σ))

section

variable {σ : Type}

/-- One call, on the caller's state and the replacer. -/
def LruReplacer.step : LruOp σ → σ × LruReplacer → Option (Option PageId × (σ × LruReplacer))
  | .recordAccess pageId, (s, r) => (r.recordAccess pageId).map fun r => (none, (s, r))
  | .remove pageId, (s, r) => (r.remove pageId).map fun r => (none, (s, r))
  | .evict, (s, r) => r.evict.map fun (found, r) => (found, (s, r))
  | .evictIf predicate, (s, r) => (r.evictIf predicate s).map fun (found, s, r) => (found, (s, r))

/-- One call, on the caller's state and the recency list. -/
def Recency.step (capacity : ℕ) :
    LruOp σ → σ × List PageId → Option (Option PageId × (σ × List PageId))
  | .recordAccess pageId, (s, l) => (access capacity l pageId).map fun l => (none, (s, l))
  | .remove pageId, (s, l) => some (none, (s, l.erase pageId))
  | .evict, (s, l) => some (l.getLast?, (s, l.dropLast))
  | .evictIf predicate, (s, l) => (evictIf predicate s l).map fun (found, s, l) => (found, (s, l))

/-- The replacer stands for a recency list of the given capacity. -/
def LruReplacer.Stands (capacity : ℕ) (c : σ × LruReplacer) (a : σ × List PageId) : Prop :=
  c.1 = a.1 ∧ ∃ is, c.2.Threaded capacity is a.2

theorem LruReplacer.step_agree {capacity : ℕ} (op : LruOp σ) (c : σ × LruReplacer)
    (a : σ × List PageId) (h : Stands capacity c a) :
    Runs.Agree (Stands capacity) (step op c) (Recency.step capacity op a) := by
  obtain ⟨s, q⟩ := c
  obtain ⟨s', l⟩ := a
  obtain ⟨rfl, is, ht⟩ := h
  cases op with
  | recordAccess id =>
    rw [step, Recency.step, Recency.access]
    -- a listed page is moved, a new one is put in front, and a full list panics in both
    by_cases hid : id ∈ l
    · obtain ⟨r, is', hr, ht'⟩ := ht.recordAccess_of_mem hid
      rw [hr, if_pos hid]
      exact ⟨rfl, rfl, is', ht'⟩
    · by_cases hfull : l.length = capacity
      · rw [ht.recordAccess_of_full hid hfull, if_neg hid, if_pos hfull]
        trivial
      · obtain ⟨r, is', hr, ht'⟩ :=
          ht.recordAccess_of_notMem hid (Nat.lt_of_le_of_ne ht.length_le hfull)
        rw [hr, if_neg hid, if_neg hfull]
        exact ⟨rfl, rfl, is', ht'⟩
  | remove id =>
    obtain ⟨r, is', hr, ht'⟩ := ht.remove id
    rw [step, Recency.step, hr]
    exact ⟨rfl, rfl, is', ht'⟩
  | evict =>
    obtain ⟨r, is', hr, ht'⟩ := ht.evict
    rw [step, Recency.step, hr]
    exact ⟨rfl, rfl, is', ht'⟩
  | evictIf predicate =>
    rw [step, Recency.step]
    rcases ht.evictIf predicate s with ⟨ha, hc⟩ | ⟨found, s', r, is', ha, hc, ht'⟩
    · rw [ha, hc]
      trivial
    · rw [ha, hc]
      exact ⟨rfl, rfl, is', ht'⟩

/-- **The replacer refines a recency list.** Every sequence of calls on a new replacer panics
where the list does, and otherwise returns what the list returns, leaves the caller's state as
the list does, and leaves a replacer that shows the list. -/
theorem LruReplacer.run_refines (capacity : ℕ) (ops : List (LruOp σ)) (s : σ) :
    Runs.Agree (fun c a => c.1 = a.1 ∧ a.2.length ≤ capacity ∧ ∃ is, c.2.IsList is a.2)
      (Runs.run step ops (s, LruReplacer.new capacity))
      (Runs.run (Recency.step capacity) ops (s, [])) := by
  have hrun := Runs.run_agree step_agree ops
    (⟨rfl, [], Threaded.new capacity⟩ : Stands capacity (s, LruReplacer.new capacity) (s, []))
  refine hrun.mono fun c a ⟨hs, is, ht⟩ => ⟨hs, ht.length_le, is, ht.isList⟩

end

end SmolDb
