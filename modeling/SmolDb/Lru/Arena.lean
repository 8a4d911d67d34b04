import SmolDb.Lru.Recency

/-!
# The slots of the arena, and the candidates of an eviction

Two results about every run of a new replacer that no call of panics in.

The first is about slots. A slot of the arena is linked, and then the map leads from one page to
it, or it waits in the free list, and never both. The arena grows only when no slot waits, so it
is as long as the most pages that were tracked at once (`LruReplacer.arena_exact`).

The second is about `peek_rev`, which is to show the pages that `evict` would return next. Its
loop tests the number of candidates before it takes one more, so it stops one page late: it shows
the right pages when the limit is no bound at all, and only then. A limit that no `Vec` has room for
makes it panic before that (`LruReplacer.peekRev_candidates_iff`).
-/

namespace SmolDb

namespace LruReplacer

variable {q r : LruReplacer} {cap : ℕ} {is : List ℕ} {l : List PageId}

/-! ### What a call does to the arena -/

theorem relinked_setPrev {i : ℕ} {m : Option ℕ} (h : q.setPrev i m = some r) : Relinked q r := by
  obtain ⟨node, hnode, heq⟩ := Option.bind_eq_some_iff.mp h
  cases heq
  exact ⟨rfl, map_pageId_set hnode rfl, rfl, rfl⟩

theorem relinked_setNext {i : ℕ} {m : Option ℕ} (h : q.setNext i m = some r) : Relinked q r := by
  obtain ⟨node, hnode, heq⟩ := Option.bind_eq_some_iff.mp h
  cases heq
  exact ⟨rfl, map_pageId_set hnode rfl, rfl, rfl⟩

theorem relinked_setNextOrHead {o m : Option ℕ} (h : q.setNextOrHead o m = some r) :
    Relinked q r := by
  cases o with
  | none =>
    cases h
    exact ⟨rfl, rfl, rfl, rfl⟩
  | some i => exact relinked_setNext h

theorem relinked_setPrevOrTail {o m : Option ℕ} (h : q.setPrevOrTail o m = some r) :
    Relinked q r := by
  cases o with
  | none =>
    cases h
    exact ⟨rfl, rfl, rfl, rfl⟩
  | some i => exact relinked_setPrev h

theorem relinked_unlink {i : ℕ} (h : q.unlink i = some r) : Relinked q r := by
  obtain ⟨node, -, h⟩ := Option.bind_eq_some_iff.mp h
  obtain ⟨q₁, h₁, h₂⟩ := Option.bind_eq_some_iff.mp h
  exact (relinked_setNextOrHead h₁).trans (relinked_setPrevOrTail h₂)

theorem relinked_insertHead {i : ℕ} (h : q.insertHead i = some r) : Relinked q r := by
  obtain ⟨q₁, h₁, h⟩ := Option.bind_eq_some_iff.mp h
  obtain ⟨q₂, h₂, h⟩ := Option.bind_eq_some_iff.mp h
  obtain ⟨q₃, h₃, heq⟩ := Option.bind_eq_some_iff.mp h
  cases heq
  have hlinks := ((relinked_setPrev h₁).trans (relinked_setNext h₂)).trans
    (relinked_setPrevOrTail h₃)
  exact hlinks.trans ⟨rfl, rfl, rfl, rfl⟩

/-- Releasing a slot leaves the arena its length. -/
theorem length_release {i : ℕ} {id : PageId} (h : q.release i id = some r) :
    r.arena.length = q.arena.length := by
  obtain ⟨q₁, h₁, heq⟩ := Option.bind_eq_some_iff.mp h
  cases heq
  exact (relinked_unlink h₁).length_arena

section

variable {σ : Type} (predicate : σ → PageId → Option (Bool × σ))

/-- The loop of `evict_if` releases one slot, or none. -/
theorem length_evictIfLoop {fuel : ℕ} {cur : Option ℕ} {s s' : σ} {found : Option PageId}
    (h : q.evictIfLoop predicate fuel cur s = some (found, s', r)) :
    r.arena.length = q.arena.length := by
  induction fuel generalizing cur s with
  | zero =>
    cases cur with
    | none =>
      cases h
      rfl
    | some i => cases h
  | succ fuel ih =>
    cases cur with
    | none =>
      cases h
      rfl
    | some i =>
      obtain ⟨node, -, h⟩ := Option.bind_eq_some_iff.mp h
      -- an accepted candidate gives its slot back; a refused one leaves the arena to the rest
      obtain ⟨⟨accepted, s₁⟩, -, h⟩ := Option.bind_eq_some_iff.mp h
      cases accepted with
      | true =>
        obtain ⟨q₁, hrel, heq⟩ := Option.bind_eq_some_iff.mp h
        cases heq
        exact length_release hrel
      | false => exact ih h

end

/-- `record_access` makes the arena longer only when no slot is free. -/
theorem length_recordAccess {id : PageId} (h : q.recordAccess id = some r) :
    r.arena.length = q.arena.length ∨ r.freeList = [] ∧ q.arena.length ≤ r.arena.length := by
  rw [recordAccess] at h
  cases hlook : q.pages.lookup id with
  | some i =>
    rw [hlook] at h
    obtain ⟨q₁, h₁, h₂⟩ := Option.bind_eq_some_iff.mp h
    -- a known page is only moved to the head
    exact .inl ((relinked_unlink h₁).trans (relinked_insertHead h₂)).length_arena
  | none =>
    rw [hlook] at h
    by_cases hroom : q.size < q.capacity
    · simp only [if_pos hroom] at h
      obtain ⟨⟨i, q₁⟩, hclaim, hhead⟩ := Option.bind_eq_some_iff.mp h
      have hre := relinked_insertHead hhead
      -- the arena grows only when no freed slot is left
      rcases List.eq_nil_or_concat q.freeList with hfree | ⟨free, j, hfree⟩
      · rw [Threaded.claimSlot_of_nil hfree] at hclaim
        cases hclaim
        refine .inr ⟨hre.freeList.trans hfree, ?_⟩
        rw [hre.length_arena]
        exact List.length_append ▸ Nat.le_add_right ..
      · -- the slot on top of the free list is used again
        rw [claimSlot, hfree, List.concat_eq_append, List.getLast?_concat] at hclaim
        obtain ⟨-, heq⟩ := Option.ite_none_right_eq_some.mp hclaim
        cases heq
        exact .inl (hre.length_arena.trans List.length_set)
    · simp only [if_neg hroom] at h
      cases h

namespace Threaded

/-- The slots of the arena are the tracked pages' and the free ones. -/
theorem length_arena (h : Threaded q cap is l) :
    q.arena.length = q.size + q.freeList.length := by
  have hperm := h.slots.length_eq
  rw [List.length_append, List.length_range, h.length_eq, ← h.size_eq] at hperm
  exact hperm.symm

/-- A call that leaves the arena its length, or no slot free, leaves the arena as long as it was or
as the pages now tracked need it, whichever is more. -/
theorem length_arena_max (h : Threaded r cap is l)
    (hlen : r.arena.length = q.arena.length ∨
      r.freeList = [] ∧ q.arena.length ≤ r.arena.length) :
    r.arena.length = max q.arena.length r.size := by
  have hsize := h.length_arena
  rcases hlen with hkept | ⟨hnone, hgrown⟩
  · rw [← hkept, max_eq_left]
    exact hsize ▸ Nat.le_add_right ..
  · have hfull : r.arena.length = r.size := by rw [hsize, hnone, List.length_nil, Nat.add_zero]
    rw [← hfull, max_eq_right hgrown]

end Threaded

/-- The arena slots of a replacer: the ones `is` the links lead through from the head, which are
the ones the map leads to, and the ones of the free list. -/
structure HasSlots (r : LruReplacer) (is : List ℕ) : Prop where
  walk_next : ∀ fuel, r.size ≤ fuel →
    Linked.walk (fun i => (r.linked.links i).next) fuel r.headIdx = some is
  nodup : is.Nodup
  mapped : ∀ i, i ∈ is ↔ ∃ id, r.pages.lookup id = some i
  free_nodup : r.freeList.Nodup
  disjoint : r.freeList.Disjoint is
  covers : ∀ i, i ∈ r.freeList ∨ i ∈ is ↔ i < r.arena.length

theorem Threaded.hasSlots (h : Threaded q cap is l) : HasSlots q is where
  walk_next fuel hfuel := h.isList.walk_next fuel (h.size_eq ▸ hfuel)
  nodup := h.linked.nodup
  mapped i := by
    constructor
    · intro hi
      obtain ⟨xs, ys, his⟩ := List.append_of_mem hi
      obtain ⟨l₁, id, l₂, -, hid, -, -⟩ := h.split_pages his
      exact ⟨id, (h.lookup id i).mpr ⟨hi, hid⟩⟩
    · rintro ⟨id, hid⟩
      exact ((h.lookup id i).mp hid).1
  free_nodup := (List.nodup_append.mp (h.slots.nodup_iff.mpr List.nodup_range)).2.1
  disjoint := fun _ hfree hmem =>
    List.disjoint_of_nodup_append (h.slots.nodup_iff.mpr List.nodup_range) hmem hfree
  covers i := by
    rw [or_comm, ← List.mem_append, h.slots.mem_iff, List.mem_range]

/-! ### What the next evictions would take -/

/-- The pages that `n` calls of `evict` return, in the order of the calls. -/
def evictions : ℕ → LruReplacer → Option (List PageId)
  | 0, _ => some []
  | n + 1, self => do
    let (found, self) ← self.evict
    let ids ← evictions n self
    some (found.toList ++ ids)

/-- Evicting takes the list from its end. -/
theorem Threaded.evictions (h : Threaded q cap is l) (n : ℕ) :
    q.evictions n = some (l.reverse.take n) := by
  induction n generalizing q is l with
  | zero => rfl
  | succ n ih =>
    obtain ⟨r, is', hevict, ht⟩ := h.evict
    rw [LruReplacer.evictions, hevict]
    simp only [Option.bind_eq_bind, Option.bind_some, ih ht]
    rcases List.eq_nil_or_concat l with rfl | ⟨l₀, id, rfl⟩
    · simp
    · rw [List.concat_eq_append, List.getLast?_concat, List.dropLast_concat, List.reverse_append,
        List.reverse_singleton, List.singleton_append, List.take_succ_cons]
      rfl

/-- What `peek_rev` is for, in a replacer that stands for the recency list `l`: it shows the pages
`ids`, as many as the limit allows, from the least recently used one on, which are the ones that
as many calls of `evict` return. -/
structure Candidates (r : LruReplacer) (l : List PageId) (limit : ℕ) (ids : List PageId) :
    Prop where
  peekRev : r.peekRev limit = some ids
  length_eq : ids.length = min limit r.size
  nodup : ids.Nodup
  order : ids = l.reverse.take (min limit r.size)
  evictions : r.evictions (min limit r.size) = some ids

theorem Threaded.candidates_iff (h : Threaded q cap is l) (limit : ℕ) :
    (∃ ids, Candidates q l limit ids) ↔ q.size ≤ limit ∧ limit ≤ maxCandidates := by
  constructor
  · rintro ⟨ids, hids⟩
    have hshown := (h.peekRev limit).symm.trans hids.peekRev
    split at hshown
    · cases hshown
    · next hroom =>
      -- one page more than the limit is shown, unless there is none
      have hlen := hids.length_eq
      rw [← Option.some.inj hshown, List.length_take, List.length_reverse, ← h.size_eq] at hlen
      exact ⟨by omega, Nat.le_of_not_lt hroom⟩
  · rintro ⟨hlimit, hroom⟩
    have hlen : l.reverse.length ≤ limit := by rw [List.length_reverse, ← h.size_eq]; exact hlimit
    have hshown : l.reverse.take (limit + 1) = l.reverse :=
      List.take_of_length_le (Nat.le_succ_of_le hlen)
    have hevicted : l.reverse.take (min limit q.size) = l.reverse := by
      rw [Nat.min_eq_right hlimit]
      exact List.take_of_length_le (by rw [List.length_reverse, h.size_eq])
    exact ⟨l.reverse,
      { peekRev := by rw [h.peekRev, if_neg (Nat.not_lt_of_le hroom), hshown]
        length_eq := by rw [List.length_reverse, ← h.size_eq, Nat.min_eq_right hlimit]
        nodup := List.nodup_reverse.mpr h.nodup
        order := hevicted.symm
        evictions := by rw [h.evictions, hevicted] }⟩

end LruReplacer

/-! ### Runs -/

section

variable {σ : Type}

theorem LruReplacer.length_evict {q r : LruReplacer} {found : Option PageId}
    (h : q.evict = some (found, r)) : r.arena.length = q.arena.length := by
  rw [evict] at h
  cases htail : q.tailIdx with
  | none =>
    rw [htail] at h
    cases h
    rfl
  | some i =>
    rw [htail] at h
    obtain ⟨node, -, h⟩ := Option.bind_eq_some_iff.mp h
    obtain ⟨q₁, hrel, heq⟩ := Option.bind_eq_some_iff.mp h
    cases heq
    exact length_release hrel

theorem LruReplacer.length_remove {q r : LruReplacer} {id : PageId}
    (h : q.remove id = some r) : r.arena.length = q.arena.length := by
  rw [remove] at h
  cases hlook : q.pages.lookup id with
  | none =>
    rw [hlook] at h
    cases h
    rfl
  | some i =>
    rw [hlook] at h
    exact length_release h

/-- **The arena grows only when no slot is free.** -/
theorem LruReplacer.step_arena {op : LruOp σ} {s s' : σ} {q r : LruReplacer}
    {out : Option PageId} (h : step op (s, q) = some (out, (s', r))) :
    r.arena.length = q.arena.length ∨ r.freeList = [] ∧ q.arena.length ≤ r.arena.length := by
  cases op with
  | recordAccess id =>
    obtain ⟨r', hcall, heq⟩ := Option.map_eq_some_iff.mp h
    cases heq
    exact length_recordAccess hcall
  | remove id =>
    obtain ⟨r', hcall, heq⟩ := Option.map_eq_some_iff.mp h
    cases heq
    exact .inl (length_remove hcall)
  | evict =>
    obtain ⟨⟨found, r'⟩, hcall, heq⟩ := Option.map_eq_some_iff.mp h
    cases heq
    exact .inl (length_evict hcall)
  | evictIf predicate =>
    obtain ⟨⟨found, s₁, r'⟩, hcall, heq⟩ := Option.map_eq_some_iff.mp h
    cases heq
    exact .inl (length_evictIfLoop predicate hcall)

/-- A replacer that stands for some recency list still does after a call, with an arena as long as
the most pages so far need it. -/
theorem LruReplacer.step_highWater {capacity : ℕ} (op : LruOp σ) (c : σ × LruReplacer)
    (out : Option PageId) (c' : σ × LruReplacer) (h : ∃ a, Stands capacity c a)
    (hstep : step op c = some (out, c')) :
    (∃ a, Stands capacity c' a) ∧ c'.2.arena.length = max c.2.arena.length c'.2.size := by
  obtain ⟨a, ha⟩ := h
  have hagree := step_agree op c a ha
  rw [hstep] at hagree
  rcases habs : Recency.step capacity op a with _ | ⟨out', a'⟩
  · rw [habs] at hagree
    exact hagree.elim
  · rw [habs] at hagree
    obtain ⟨-, hs, is, ht⟩ := hagree
    exact ⟨⟨a', hs, is, ht⟩, ht.length_arena_max (step_arena hstep)⟩

/-- **Arena slots are neither leaked nor shared.** After every run of calls on a new replacer, each
slot of the arena is either linked or free and no slot is both, the free list holds no slot twice,
and the arena is as long as the most pages that were tracked at once so far, which is within the
capacity. -/
theorem LruReplacer.arena_exact (capacity : ℕ) (ops : List (LruOp σ)) (s s' : σ)
    (outs : List (Option PageId)) (r : LruReplacer)
    (h : Runs.run step ops (s, LruReplacer.new capacity) = some (outs, (s', r))) :
    (∃ is, r.HasSlots is) ∧
      IsGreatest
        (Runs.Passed step (fun c => c.2.size) ops (s, LruReplacer.new capacity)) r.arena.length ∧
      r.arena.length ≤ capacity := by
  have hnew : Stands capacity (s, LruReplacer.new capacity) (s, []) :=
    ⟨rfl, [], Threaded.new capacity⟩
  obtain ⟨⟨a, -, is, ht⟩, hgreatest⟩ :=
    Runs.isGreatest_passed (I := fun c => ∃ a, Stands capacity c a)
      (κ := fun c => c.2.arena.length) (μ := fun c => c.2.size) step_highWater ⟨_, hnew⟩ rfl h
  refine ⟨⟨is, ht.hasSlots⟩, hgreatest, ?_⟩
  -- the greatest size is the size of some state of the run, and every size is within the capacity
  obtain ⟨k, bs, c, hc, hsize⟩ := hgreatest.1
  obtain ⟨⟨a', -, is', ht'⟩, -⟩ :=
    Runs.isGreatest_passed (I := fun c => ∃ a, Stands capacity c a)
      (κ := fun c => c.2.arena.length) (μ := fun c => c.2.size) step_highWater ⟨_, hnew⟩ rfl hc
  have hle : c.2.size ≤ capacity := ht'.size_eq ▸ ht'.length_le
  exact hsize ▸ hle

/-- Two pages, one of them evicted, and a third page, which gets the free slot. -/
theorem LruReplacer.arena_reused :
    ∃ outs r, Runs.run step
        ([.recordAccess ⟨1⟩, .recordAccess ⟨2⟩, .evict, .recordAccess ⟨3⟩] : List (LruOp Unit))
        ((), LruReplacer.new 3) = some (outs, ((), r)) ∧
      r.arena.length = 2 ∧ ∃ is, r.HasSlots is := by
  obtain ⟨⟨outs, s, r⟩, hrun⟩ := Option.isSome_iff_exists.mp (by decide : (Runs.run step
    ([.recordAccess ⟨1⟩, .recordAccess ⟨2⟩, .evict, .recordAccess ⟨3⟩] : List (LruOp Unit))
    ((), LruReplacer.new 3)).isSome = true)
  have hlen : (Runs.run step
      ([.recordAccess ⟨1⟩, .recordAccess ⟨2⟩, .evict, .recordAccess ⟨3⟩] : List (LruOp Unit))
      ((), LruReplacer.new 3)).map (fun c => c.2.2.arena.length) = some 2 := by decide
  rw [hrun] at hlen
  exact ⟨outs, r, hrun, Option.some.inj hlen, (arena_exact 3 _ () () outs r hrun).1⟩

/-- **When `peek_rev` shows the right pages.** After every run of calls on a new replacer, which
leaves the pages `l` tracked, `peek_rev` shows the pages the next evictions take if and only if
its limit leaves none of the tracked pages out, and is one that there can be room for. -/
theorem LruReplacer.peekRev_candidates_iff (capacity : ℕ) (ops : List (LruOp σ)) (s s' : σ)
    (outs : List (Option PageId)) (r : LruReplacer)
    (h : Runs.run step ops (s, LruReplacer.new capacity) = some (outs, (s', r))) :
    ∃ l, Runs.run (Recency.step capacity) ops (s, []) = some (outs, (s', l)) ∧
      ∀ limit, (∃ ids, r.Candidates l limit ids) ↔
        r.size ≤ limit ∧ limit ≤ LruReplacer.maxCandidates := by
  have hrun := Runs.run_agree step_agree ops
    (⟨rfl, [], Threaded.new capacity⟩ : Stands capacity (s, LruReplacer.new capacity) (s, []))
  rw [h] at hrun
  rcases habs : Runs.run (Recency.step capacity) ops (s, []) with _ | ⟨outs', s'', l⟩
  · rw [habs] at hrun
    exact hrun.elim
  · rw [habs] at hrun
    obtain ⟨rfl, rfl, is, ht⟩ := hrun
    exact ⟨l, rfl, ht.candidates_iff⟩

theorem LruReplacer.peekRev_candidates_two :
    ∃ outs r l, Runs.run step ([.recordAccess ⟨10⟩, .recordAccess ⟨20⟩] : List (LruOp Unit))
        ((), LruReplacer.new 2) = some (outs, ((), r)) ∧ r.size = 2 ∧
      ∃ ids, r.Candidates l 2 ids := by
  obtain ⟨⟨outs, s, r⟩, hrun⟩ := Option.isSome_iff_exists.mp (by decide : (Runs.run step
    ([.recordAccess ⟨10⟩, .recordAccess ⟨20⟩] : List (LruOp Unit))
    ((), LruReplacer.new 2)).isSome = true)
  have hsize : (Runs.run step ([.recordAccess ⟨10⟩, .recordAccess ⟨20⟩] : List (LruOp Unit))
      ((), LruReplacer.new 2)).map (fun c => c.2.2.size) = some 2 := by decide
  rw [hrun] at hsize
  have hsize := Option.some.inj hsize
  obtain ⟨l, -, hl⟩ := peekRev_candidates_iff 2 _ () () outs r hrun
  exact ⟨outs, r, l, hrun, hsize, (hl 2).mpr ⟨hsize.le, by decide⟩⟩

/-- With two pages tracked and a limit of one, `peek_rev` shows both. -/
theorem LruReplacer.peekRev_past_limit :
    ∃ outs r, Runs.run step ([.recordAccess ⟨10⟩, .recordAccess ⟨20⟩] : List (LruOp Unit))
        ((), LruReplacer.new 2) = some (outs, ((), r)) ∧
      Runs.run (Recency.step 2) ([.recordAccess ⟨10⟩, .recordAccess ⟨20⟩] : List (LruOp Unit))
        ((), []) = some (outs, ((), [⟨20⟩, ⟨10⟩])) ∧
      r.peekRev 1 = some [⟨10⟩, ⟨20⟩] ∧ r.evictions 1 = some [⟨10⟩] ∧
      ¬ ∃ ids, r.Candidates [⟨20⟩, ⟨10⟩] 1 ids := by
  -- the state holds a function, so it is not decided: only what the run shows of it is
  obtain ⟨⟨outs, s, r⟩, hrun⟩ := Option.isSome_iff_exists.mp (by decide : (Runs.run step
    ([.recordAccess ⟨10⟩, .recordAccess ⟨20⟩] : List (LruOp Unit))
    ((), LruReplacer.new 2)).isSome = true)
  have hshown : (Runs.run step ([.recordAccess ⟨10⟩, .recordAccess ⟨20⟩] : List (LruOp Unit))
      ((), LruReplacer.new 2)).map (fun c => (c.1, c.2.2.peekRev 1, c.2.2.evictions 1)) =
      some ([none, none], some [⟨10⟩, ⟨20⟩], some [⟨10⟩]) := by decide
  rw [hrun] at hshown
  obtain ⟨houts, hpeek, hevict⟩ := by
    simpa only [Option.map_some, Option.some.injEq, Prod.mk.injEq] using hshown
  refine ⟨outs, r, hrun, by rw [houts]; rfl, hpeek, hevict, ?_⟩
  -- two pages come back where one was asked for
  rintro ⟨ids, hids⟩
  have hlen := hids.length_eq
  rw [← Option.some.inj (hpeek.symm.trans hids.peekRev)] at hlen
  exact absurd (hlen.trans_le (Nat.min_le_left ..)) (by decide)

end

end SmolDb
