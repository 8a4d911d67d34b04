import Mathlib.Data.List.Pairwise
import Mathlib.Order.Lattice

/-!
# Keys partitioned by fences

A list of buckets, each with the least key it may hold. A bucket ends where the next one begins,
so `Fenced` says of every bucket that its keys lie between its own fence and all the later ones.

A bucket may be refilled within its bounds, and it may be cut in two at a new fence. When every
bucket is sorted, so are the buckets one after another (`Fenced.sorted`).
-/

variable {κ α : Type*}

/-- A bucket: the least key it may hold, and its cells. -/
structure Bucket (κ α : Type*) where
  low : κ
  cells : List α

variable [LinearOrder κ]

/-- Every key lies in the interval that the fences cut out for its bucket. -/
structure Fenced (key : α → κ) (bs : List (Bucket κ α)) : Prop where
  above : ∀ b ∈ bs, ∀ x ∈ b.cells, b.low ≤ key x
  apart : bs.Pairwise fun b b' => b.low ≤ b'.low ∧ ∀ x ∈ b.cells, key x < b'.low

namespace Fenced

variable {key : α → κ} {bs xs ys : List (Bucket κ α)} {b : Bucket κ α}

/-- **Sorted buckets are sorted one after another.** -/
theorem sorted (h : Fenced key bs)
    (hs : ∀ b ∈ bs, b.cells.Pairwise fun x y => key x < key y) :
    (bs.flatMap Bucket.cells).Pairwise fun x y => key x < key y := by
  rw [List.pairwise_flatMap]
  refine ⟨hs, h.apart.imp_of_mem ?_⟩
  intro b b' hb hb' hapart x hx y hy
  calc key x < b'.low := hapart.2 x hx
    _ ≤ key y := h.above b' hb' y hy

/-- Whatever lies below the next fence lies below all the later ones. -/
theorem lt_later (h : Fenced key (xs ++ b :: ys)) {k : κ} (hk : ∀ b' ∈ ys.head?, k < b'.low) :
    ∀ b' ∈ ys, k < b'.low := by
  have hys := (List.pairwise_cons.mp (List.pairwise_append.mp h.apart).2.1).2
  cases ys with
  | nil => nofun
  | cons b₁ ys =>
    intro b' hb'
    have hfirst : k < b₁.low := hk b₁ rfl
    rcases List.mem_cons.mp hb' with rfl | hlater
    · exact hfirst
    · exact lt_of_lt_of_le hfirst ((List.pairwise_cons.mp hys).1 b' hlater).1

/-- The keys of a bucket lie between its own fence and all the later ones. -/
theorem within (h : Fenced key (xs ++ b :: ys)) {x : α} (hx : x ∈ b.cells) :
    b.low ≤ key x ∧ ∀ b' ∈ ys, key x < b'.low := by
  refine ⟨h.above b (by simp) x hx, ?_⟩
  intro b' hb'
  have htail := (List.pairwise_append.mp h.apart).2.1
  exact ((List.pairwise_cons.mp htail).1 b' hb').2 x hx

/-- A bucket between others may be exchanged for buckets that keep to its bounds. -/
theorem exchange (h : Fenced key (xs ++ b :: ys)) {zs : List (Bucket κ α)} (hzs : Fenced key zs)
    (hlow : ∀ z ∈ zs, b.low ≤ z.low)
    (hhigh : ∀ z ∈ zs, ∀ b' ∈ ys, z.low ≤ b'.low ∧ ∀ x ∈ z.cells, key x < b'.low) :
    Fenced key (xs ++ (zs ++ ys)) := by
  obtain ⟨hxs, htail, hcross⟩ := List.pairwise_append.mp h.apart
  have hys := (List.pairwise_cons.mp htail).2
  constructor
  · intro b' hb'
    rcases List.mem_append.mp hb' with hx | hrest
    · exact h.above b' (List.mem_append_left _ hx)
    · rcases List.mem_append.mp hrest with hz | hy
      · exact hzs.above b' hz
      · exact h.above b' (List.mem_append_right _ (List.mem_cons_of_mem _ hy))
  · refine List.pairwise_append.mpr ⟨hxs, ?_, ?_⟩
    · exact List.pairwise_append.mpr ⟨hzs.apart, hys, hhigh⟩
    · intro a ha b' hb'
      have hab := hcross a ha b (List.mem_cons_self ..)
      rcases List.mem_append.mp hb' with hz | hy
      · -- the new buckets start no earlier than the old one
        refine ⟨le_trans hab.1 (hlow b' hz), ?_⟩
        intro x hx
        exact lt_of_lt_of_le (hab.2 x hx) (hlow b' hz)
      · exact hcross a ha b' (List.mem_cons_of_mem _ hy)

/-- A bucket is refilled within its bounds. -/
theorem refill (h : Fenced key (xs ++ b :: ys)) {cells : List α}
    (hcells : ∀ x ∈ cells, b.low ≤ key x ∧ ∀ b' ∈ ys, key x < b'.low) :
    Fenced key (xs ++ ⟨b.low, cells⟩ :: ys) := by
  have hlater : ∀ b' ∈ ys, b.low ≤ b'.low := by
    intro b' hb'
    have htail := (List.pairwise_append.mp h.apart).2.1
    exact ((List.pairwise_cons.mp htail).1 b' hb').1
  have hone : Fenced key [⟨b.low, cells⟩] := by
    refine ⟨?_, List.pairwise_singleton _ _⟩
    intro z hz x hx
    obtain rfl := List.mem_singleton.mp hz
    exact (hcells x hx).1
  refine h.exchange hone ?_ ?_
  · intro z hz
    obtain rfl := List.mem_singleton.mp hz
    exact le_rfl
  · intro z hz b' hb'
    obtain rfl := List.mem_singleton.mp hz
    exact ⟨hlater b' hb', fun x hx => (hcells x hx).2 b' hb'⟩

/-- A bucket is cut in two at a new fence. -/
theorem cut (h : Fenced key (xs ++ b :: ys)) {s : κ} {lower upper : List α}
    (hlow : b.low ≤ s) (hhigh : ∀ b' ∈ ys, s ≤ b'.low)
    (hlower : ∀ x ∈ lower, b.low ≤ key x ∧ key x < s)
    (hupper : ∀ x ∈ upper, s ≤ key x ∧ ∀ b' ∈ ys, key x < b'.low) :
    Fenced key (xs ++ ⟨b.low, lower⟩ :: ⟨s, upper⟩ :: ys) := by
  have hpair : ∀ {P : Bucket κ α → Prop}, P ⟨b.low, lower⟩ → P ⟨s, upper⟩ →
      ∀ z ∈ [(⟨b.low, lower⟩ : Bucket κ α), ⟨s, upper⟩], P z := by
    intro P hl hu
    exact List.forall_mem_cons.mpr ⟨hl, List.forall_mem_singleton.mpr hu⟩
  have htwo : Fenced key [⟨b.low, lower⟩, ⟨s, upper⟩] := by
    refine ⟨hpair (fun x hx => (hlower x hx).1) fun x hx => (hupper x hx).1, ?_⟩
    exact List.pairwise_pair.mpr ⟨hlow, fun x hx => (hlower x hx).2⟩
  refine h.exchange htwo ?_ ?_
  · exact hpair le_rfl hlow
  · refine hpair ?_ ?_
    · intro b' hb'
      refine ⟨le_trans hlow (hhigh b' hb'), ?_⟩
      intro x hx
      exact lt_of_lt_of_le (hlower x hx).2 (hhigh b' hb')
    · intro b' hb'
      exact ⟨hhigh b' hb', fun x hx => (hupper x hx).2 b' hb'⟩

end Fenced
