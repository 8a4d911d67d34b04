import Mathlib.Data.List.Induction
import Mathlib.Data.List.Nodup
import Mathlib.Logic.Function.Basic

/-!
# Doubly linked lists threaded through an indexed memory

A `Linked` list is a memory of links (each index has an optional predecessor and an optional
successor) with a head and a tail index. `Linked.Is d is` says that the links thread exactly the
indices `is`, in this order, in both directions; indices outside `is` may hold anything.

A node put behind a member keeps such a list (`Segment.insertAfter`). So do two operations on the
memory itself, `pushFront` and `unlink`, and both are stated through the same two rules: rewriting
the successor of the last node of a segment, and the predecessor of the first, moves the segment
to new surroundings (`Segment.setNext`, `Segment.setPrev`). Walks along the successors and along
the predecessors yield the list and its reverse.
-/

/-- The two neighbours of a node. -/
structure Links (ι : Type*) where
  prev : Option ι
  next : Option ι

/-- A memory of links and the two ends of the list threaded through it. -/
structure Linked (ι : Type*) where
  links : ι → Links ι
  head : Option ι
  tail : Option ι

namespace Linked

variable {ι : Type*}

/-- The links thread the indices `is` between a predecessor `p` and a successor `n`. -/
def Segment (L : ι → Links ι) : Option ι → List ι → Option ι → Prop
  | _, [], _ => True
  | p, i :: is, n => L i = ⟨p, is.head?.or n⟩ ∧ Segment L (some i) is n

/-- The list threaded from the head to the tail is `is`. -/
structure Is (d : Linked ι) (is : List ι) : Prop where
  nodup : is.Nodup
  head_eq : d.head = is.head?
  tail_eq : d.tail = is.getLast?
  segment : Segment d.links none is none

/-! ### Segments -/

theorem Segment.congr {L L' : ι → Links ι} {p n : Option ι} {is : List ι}
    (h : ∀ i ∈ is, L' i = L i) (hs : Segment L p is n) : Segment L' p is n := by
  induction is generalizing p with
  | nil => trivial
  | cons i is ih =>
    refine ⟨?_, ih (fun j hj => h j (List.mem_cons_of_mem _ hj)) hs.2⟩
    rw [h i (List.mem_cons_self ..)]
    exact hs.1

theorem segment_append {L : ι → Links ι} {p n : Option ι} {xs ys : List ι} :
    Segment L p (xs ++ ys) n ↔
      Segment L p xs (ys.head?.or n) ∧ Segment L (xs.getLast?.or p) ys n := by
  induction xs generalizing p with
  | nil => simp [Segment]
  | cons x xs ih =>
    have hhead : (xs ++ ys).head?.or n = xs.head?.or (ys.head?.or n) := by
      cases xs <;> simp
    have hlast : (x :: xs).getLast?.or p = xs.getLast?.or (some x) := by
      cases xs with
      | nil => simp
      | cons y xs => simp [List.getLast?_cons]
    rw [List.cons_append, Segment, Segment, ih, hhead, hlast, and_assoc]

theorem Is.empty {L : ι → Links ι} : Is ⟨L, none, none⟩ [] :=
  ⟨List.nodup_nil, rfl, rfl, trivial⟩

/-- What the two neighbours of a member are. -/
theorem Is.links_mid {d : Linked ι} {xs ys : List ι} {i : ι} (h : d.Is (xs ++ i :: ys)) :
    d.links i = ⟨xs.getLast?, ys.head?⟩ := by
  have hs := (segment_append.mp h.segment).2.1
  rwa [Option.or_none, Option.or_none] at hs

/-- A node is put behind the member `i`: `i` gets it as successor, it takes over the old one, and
the old one gets it as predecessor. -/
theorem Segment.insertAfter {L L' : ι → Links ι} {p n : Option ι} {xs ys : List ι} {i j : ι}
    (hs : Segment L p (xs ++ i :: ys) n) (hi : L' i = { L i with next := some j })
    (hj : L' j = ⟨some i, (L i).next⟩)
    (hhead : ∀ k ∈ ys.head?, L' k = { L k with prev := some j })
    (hother : ∀ k ∈ xs ++ ys.tail, L' k = L k) : Segment L' p (xs ++ i :: j :: ys) n := by
  obtain ⟨hpre, hlink, hsuf⟩ := segment_append.mp hs
  refine segment_append.mpr ⟨?_, ?_, ?_, ?_⟩
  · exact hpre.congr fun k hk => hother k (List.mem_append_left _ hk)
  · rw [hi, hlink]
    rfl
  · rw [hj, hlink]
  · cases ys with
    | nil => trivial
    | cons k ys =>
      refine ⟨?_, hsuf.2.congr fun m hm => hother m (List.mem_append_right _ hm)⟩
      rw [hhead k rfl, hsuf.1]

/-! ### Walks -/

/-- The nodes met by following `step` from `o`; `none` when more than `fuel` of them are met. -/
def walk (step : ι → Option ι) : ℕ → Option ι → Option (List ι)
  | _, none => some []
  | 0, some _ => none
  | fuel + 1, some i => (walk step fuel (step i)).map (i :: ·)

theorem walk_segment {L : ι → Links ι} {p : Option ι} {is : List ι} (hs : Segment L p is none)
    {fuel : ℕ} (hfuel : is.length ≤ fuel) :
    walk (fun i => (L i).next) fuel is.head? = some is := by
  induction is generalizing p fuel with
  | nil => cases fuel <;> rfl
  | cons i is ih =>
    obtain ⟨fuel, rfl⟩ : ∃ f, fuel = f + 1 := ⟨fuel - 1, by simp at hfuel; omega⟩
    have hnext : (L i).next = is.head? := by rw [hs.1, Option.or_none]
    rw [List.head?_cons, walk, hnext, ih hs.2 (by simpa using hfuel), Option.map_some]

theorem walk_segment_rev {L : ι → Links ι} {is : List ι} {n : Option ι}
    (hs : Segment L none is n) {fuel : ℕ} (hfuel : is.length ≤ fuel) :
    walk (fun i => (L i).prev) fuel is.getLast? = some is.reverse := by
  induction is using List.reverseRecOn generalizing n fuel with
  | nil => cases fuel <;> rfl
  | append_singleton is i ih =>
    obtain ⟨fuel, rfl⟩ : ∃ f, fuel = f + 1 := ⟨fuel - 1, by simp at hfuel; omega⟩
    obtain ⟨hpre, hi, -⟩ := segment_append.mp hs
    have hprev : (L i).prev = is.getLast? := by rw [hi, Option.or_none]
    rw [List.getLast?_concat, walk, hprev, ih hpre (by simpa using hfuel), Option.map_some,
      List.reverse_append, List.reverse_singleton, List.singleton_append]

/-- Following the successors from the head visits the list. -/
theorem Is.walk_next {d : Linked ι} {is : List ι} (h : d.Is is) {fuel : ℕ}
    (hfuel : is.length ≤ fuel) :
    walk (fun i => (d.links i).next) fuel d.head = some is := by
  rw [h.head_eq]
  exact walk_segment h.segment hfuel

/-- Following the predecessors from the tail visits it backwards. -/
theorem Is.walk_prev {d : Linked ι} {is : List ι} (h : d.Is is) {fuel : ℕ}
    (hfuel : is.length ≤ fuel) :
    walk (fun i => (d.links i).prev) fuel d.tail = some is.reverse := by
  rw [h.tail_eq]
  exact walk_segment_rev h.segment hfuel

/-! ### The operations -/

section Operations

variable [DecidableEq ι]

/-- Rewrite the successor of a node, if there is one. -/
def setNext (L : ι → Links ι) : Option ι → Option ι → ι → Links ι
  | none, _ => L
  | some i, m => Function.update L i { L i with next := m }

/-- Rewrite the predecessor of a node, if there is one. -/
def setPrev (L : ι → Links ι) : Option ι → Option ι → ι → Links ι
  | none, _ => L
  | some i, m => Function.update L i { L i with prev := m }

/-- Put a node before the head. -/
def pushFront (d : Linked ι) (i : ι) : Linked ι where
  links := setPrev (Function.update d.links i ⟨none, d.head⟩) d.head (some i)
  head := some i
  tail := if d.head = none then some i else d.tail

/-- Take a node out and join its neighbours. -/
def unlink (d : Linked ι) (i : ι) : Linked ι where
  links := setPrev (setNext d.links (d.links i).prev (d.links i).next)
    (d.links i).next (d.links i).prev
  head := if (d.links i).prev = none then (d.links i).next else d.head
  tail := if (d.links i).next = none then (d.links i).prev else d.tail

theorem setNext_of_notMem {L : ι → Links ι} {o m : Option ι} {i : ι} (h : o ≠ some i) :
    setNext L o m i = L i := by
  cases o with
  | none => rfl
  | some j => exact Function.update_of_ne (fun hij => h (by rw [hij])) _ _

theorem setPrev_of_notMem {L : ι → Links ι} {o m : Option ι} {i : ι} (h : o ≠ some i) :
    setPrev L o m i = L i := by
  cases o with
  | none => rfl
  | some j => exact Function.update_of_ne (fun hij => h (by rw [hij])) _ _

/-- The successor of a segment's last node is what the segment is followed by. -/
theorem Segment.setNext {L : ι → Links ι} {p n : Option ι} {is : List ι}
    (hs : Segment L p is n) (hnd : is.Nodup) (m : Option ι) :
    Segment (Linked.setNext L is.getLast? m) p is m := by
  rcases List.eq_nil_or_concat is with rfl | ⟨xs, q, rfl⟩
  · trivial
  · rw [List.concat_eq_append] at hs hnd ⊢
    rw [segment_append] at hs ⊢
    have hq : q ∉ xs := fun hmem =>
      (List.nodup_append.mp hnd).2.2 q hmem q (List.mem_singleton_self q) rfl
    rw [List.getLast?_concat]
    refine ⟨hs.1.congr fun i hi => setNext_of_notMem ?_, ?_, trivial⟩
    · intro h
      exact hq (by rwa [Option.some.inj h])
    · have hL : L q = ⟨xs.getLast?.or p, n⟩ := by simpa using hs.2.1
      simp [Linked.setNext, hL]

/-- The predecessor of a segment's first node is what the segment is preceded by. -/
theorem Segment.setPrev {L : ι → Links ι} {p n : Option ι} {is : List ι}
    (hs : Segment L p is n) (hnd : is.Nodup) (m : Option ι) :
    Segment (Linked.setPrev L is.head? m) m is n := by
  cases is with
  | nil => trivial
  | cons q ys =>
    refine ⟨?_, hs.2.congr fun i hi => setPrev_of_notMem ?_⟩
    · simp [Linked.setPrev, hs.1]
    · intro h
      have hqi : q = i := Option.some.inj h
      exact (List.nodup_cons.mp hnd).1 (by rwa [hqi])

theorem Is.pushFront {d : Linked ι} {is : List ι} (h : d.Is is) {i : ι} (hi : i ∉ is) :
    (d.pushFront i).Is (i :: is) where
  nodup := List.nodup_cons.mpr ⟨hi, h.nodup⟩
  head_eq := rfl
  tail_eq := by
    unfold Linked.pushFront
    cases is with
    | nil => simp [h.head_eq]
    | cons j js => simp [h.head_eq, h.tail_eq, List.getLast?_cons_cons]
  segment := by
    -- the only old cell that changes is the head, whose `prev` now names the new one
    have hne : is.head? ≠ some i := fun hh => hi (List.mem_of_mem_head? hh)
    have hold : Segment (Function.update d.links i ⟨none, d.head⟩) none is none :=
      h.segment.congr fun j hj => Function.update_of_ne (ne_of_mem_of_not_mem hj hi) _ _
    unfold Linked.pushFront
    refine ⟨?_, ?_⟩
    · simp only
      rw [h.head_eq, setPrev_of_notMem hne, Function.update_self, Option.or_none]
    · rw [h.head_eq] at hold ⊢
      exact hold.setPrev h.nodup (some i)

/-- Unlinking a member keeps the order of the others. -/
theorem Is.unlink_mid {d : Linked ι} {xs ys : List ι} {i : ι} (h : d.Is (xs ++ i :: ys)) :
    (d.unlink i).Is (xs ++ ys) := by
  have hmid := h.links_mid
  obtain ⟨hpre, hsuf⟩ := segment_append.mp h.segment
  obtain ⟨hndx, hndi, hdisj⟩ := List.nodup_append.mp h.nodup
  obtain ⟨hiy, hndy⟩ := List.nodup_cons.mp hndi
  -- the cell before the gap and the cell after it are two cells
  have hxy : ∀ a ∈ xs, a ∉ ys := fun a ha ha' => hdisj a ha a (List.mem_cons_of_mem _ ha') rfl
  refine ⟨?_, ?_, ?_, ?_⟩
  · exact List.nodup_append.mpr ⟨hndx, hndy, fun a ha b hb hab => hxy a ha (hab ▸ hb)⟩
  · simp only [Linked.unlink, hmid, h.head_eq]
    cases xs <;> simp
  · simp only [Linked.unlink, hmid, h.tail_eq]
    cases ys with
    | nil => simp
    | cons y ys => simp [List.getLast?_append, List.getLast?_cons]
  · simp only [Linked.unlink, hmid]
    refine segment_append.mpr ⟨?_, ?_⟩
    · rw [Option.or_none]
      refine (hpre.setNext hndx ys.head?).congr fun j hj => setPrev_of_notMem fun hh => ?_
      exact hxy j hj (List.mem_of_mem_head? hh)
    · rw [Option.or_none]
      refine Segment.setPrev (p := some i) ?_ hndy _
      refine hsuf.2.congr fun j hj => setNext_of_notMem fun hh => ?_
      exact hxy j (List.mem_of_mem_getLast? hh) hj

end Operations

end Linked
