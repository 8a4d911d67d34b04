import Mathlib.Data.List.Basic

/-!
# Binary search over a slice

`[T]::binary_search_by` and `[T]::partition_point` of the Rust standard library, with the loop
the library runs: the window `[base, base + size)` is halved until one element is left, and that
element decides between `Ok` and `Err`. The comparison is a function of the index that may panic
(`none`).

The rules speak about a comparison that is *graded*: no element compares greater before one that
does not (`Graded`). The search then ends at the last element that does not compare greater.
-/

namespace BinarySearch

/-- The window loop: the base of the window when one element is left in it. The first argument
bounds the number of halvings; `size` of them are always enough. -/
def narrow (cmp : ℕ → Option Ordering) : ℕ → ℕ → ℕ → Option ℕ
  | 0, base, _ => some base
  | fuel + 1, base, size =>
    if size ≤ 1 then some base
    else do
      let half := size / 2
      let mid := base + half
      let c ← cmp mid
      narrow cmp fuel (if c = .gt then base else mid) (size - half)

/-- `binary_search_by` on a slice of `len` elements: `.ok i` for an element that compares equal,
`.error i` for the place where one could be inserted. -/
def search (len : ℕ) (cmp : ℕ → Option Ordering) : Option (Except ℕ ℕ) :=
  if len = 0 then some (.error 0)
  else do
    let base ← narrow cmp len 0 len
    let c ← cmp base
    if c = .eq then some (.ok base)
    else some (.error (base + if c = .lt then 1 else 0))

/-- `partition_point`: the number of leading elements that satisfy `pred`. -/
def partitionPoint (len : ℕ) (pred : ℕ → Option Bool) : Option ℕ := do
  match ← search len fun i => (pred i).map fun b => if b then Ordering.lt else .gt with
  | .ok i => some i
  | .error i => some i

/-- On the first `len` indices the comparison is defined, and it is not `gt` exactly on the
first `q` of them. -/
structure Graded (len q : ℕ) (cmp : ℕ → Option Ordering) : Prop where
  le : q ≤ len
  le_gt : ∀ i, i < q → ∃ c, cmp i = some c ∧ c ≠ .gt
  gt : ∀ i, q ≤ i → i < len → cmp i = some .gt

/-- The window always contains the last element that does not compare greater, if there is one. -/
theorem narrow_eq {len q : ℕ} {cmp : ℕ → Option Ordering} (hg : Graded len q cmp) :
    ∀ fuel base size, size ≤ fuel → base + size ≤ len → q ≤ base + size →
      (base = 0 ∨ base < q) → 0 < size → narrow cmp fuel base size = some (q - 1) := by
  intro fuel
  induction fuel with
  | zero => intro base size hfuel _ _ _ hpos; omega
  | succ fuel ih =>
    intro base size hfuel hlen hq hbase hpos
    rw [narrow]
    by_cases hone : size ≤ 1
    · rw [if_pos hone]
      congr 1
      omega
    · rw [if_neg hone]
      -- the loop keeps `q` inside the window or at its end, and its base below `q`
      by_cases hmid : base + size / 2 < q
      · obtain ⟨c, hc, hne⟩ := hg.le_gt _ hmid
        simp only [hc, Option.bind_eq_bind, Option.bind_some, if_neg hne]
        exact ih _ _ (by omega) (by omega) (by omega) (.inr hmid) (by omega)
      · have hc := hg.gt (base + size / 2) (by omega) (by omega)
        simp only [hc, Option.bind_eq_bind, Option.bind_some, if_true]
        exact ih _ _ (by omega) (by omega) (by omega) hbase (by omega)

/-- A graded search looks at the last element that does not compare greater and nothing else. -/
theorem search_eq_of_graded {len q : ℕ} {cmp : ℕ → Option Ordering} (hg : Graded len q cmp)
    (hpos : 0 < q) : search len cmp =
      if cmp (q - 1) = some .eq then some (.ok (q - 1)) else some (.error q) := by
  have hlen := hg.le
  have hnar := narrow_eq hg len 0 len (Nat.le_refl _) (by omega) (by omega) (.inl rfl) (by omega)
  -- the loop stops at the last element that does not compare greater
  obtain ⟨c, hc, hne⟩ := hg.le_gt (q - 1) (by omega)
  rw [search, if_neg (by omega), hnar]
  simp only [Option.bind_eq_bind, Option.bind_some, hc, Option.some.injEq]
  cases c with
  | gt => exact absurd rfl hne
  | eq => rfl
  | lt =>
    simp only [reduceCtorEq, if_false, if_true]
    congr 2
    omega

/-- When every element compares greater, the place to insert is the front. -/
theorem search_eq_of_all_gt {len : ℕ} {cmp : ℕ → Option Ordering} (hg : Graded len 0 cmp) :
    search len cmp = some (.error 0) := by
  rw [search]
  by_cases hlen : len = 0
  · rw [if_pos hlen]
  · have hnar := narrow_eq hg len 0 len (Nat.le_refl _) (by omega) (by omega) (.inl rfl) (by omega)
    rw [if_neg hlen, hnar]
    simp [hg.gt 0 (Nat.le_refl _) (Nat.pos_of_ne_zero hlen)]

/-- **Found.** An element that compares equal, after smaller and before greater ones. -/
theorem search_eq_ok {len i : ℕ} {cmp : ℕ → Option Ordering} (hi : i < len)
    (hlt : ∀ j, j < i → cmp j = some .lt) (heq : cmp i = some .eq)
    (hgt : ∀ j, i < j → j < len → cmp j = some .gt) : search len cmp = some (.ok i) := by
  have hg : Graded len (i + 1) cmp :=
    { le := hi
      le_gt := fun j hj => by
        rcases Nat.lt_succ_iff_lt_or_eq.mp hj with hj | rfl
        · exact ⟨.lt, hlt j hj, by decide⟩
        · exact ⟨.eq, heq, by decide⟩
      gt := fun j hj => hgt j hj }
  rw [search_eq_of_graded hg (Nat.succ_pos i), Nat.add_sub_cancel, if_pos heq]

/-- **Not found.** The place to insert, between the smaller and the greater elements. -/
theorem search_eq_error {len i : ℕ} {cmp : ℕ → Option Ordering} (hi : i ≤ len)
    (hlt : ∀ j, j < i → cmp j = some .lt)
    (hgt : ∀ j, i ≤ j → j < len → cmp j = some .gt) : search len cmp = some (.error i) := by
  have hg : Graded len i cmp :=
    { le := hi
      le_gt := fun j hj => ⟨.lt, hlt j hj, by decide⟩
      gt := hgt }
  rcases Nat.eq_zero_or_pos i with rfl | hpos
  · exact search_eq_of_all_gt hg
  · rw [search_eq_of_graded hg hpos, hlt (i - 1) (by omega)]
    simp

/-- **Partitioned.** A predicate that holds of the first `i` elements and of no later one. -/
theorem partitionPoint_eq {len i : ℕ} {pred : ℕ → Option Bool} (hi : i ≤ len)
    (htrue : ∀ j, j < i → pred j = some true)
    (hfalse : ∀ j, i ≤ j → j < len → pred j = some false) :
    partitionPoint len pred = some i := by
  have h : search len (fun i => (pred i).map fun b => if b then Ordering.lt else .gt)
      = some (.error i) := by
    refine search_eq_error hi (fun j hj => ?_) (fun j hj hj' => ?_)
    · simp [htrue j hj]
    · simp [hfalse j hj hj']
  rw [partitionPoint, h]
  rfl

/-- The loop reads only elements of the window, so a comparison that is defined on the slice
makes every search end with a result in range. -/
theorem narrow_isSome {len : ℕ} {cmp : ℕ → Option Ordering}
    (hdef : ∀ i, i < len → (cmp i).isSome) :
    ∀ fuel base size, base + size ≤ len → 0 < size →
      ∃ b, narrow cmp fuel base size = some b ∧ b < len := by
  intro fuel
  induction fuel with
  | zero => intro base size hlen hpos; exact ⟨base, rfl, by omega⟩
  | succ fuel ih =>
    intro base size hlen hpos
    rw [narrow]
    by_cases hone : size ≤ 1
    · exact ⟨base, by rw [if_pos hone], by omega⟩
    · -- the middle of a window of two or more lies inside it
      obtain ⟨c, hc⟩ := Option.isSome_iff_exists.mp (hdef (base + size / 2) (by omega))
      rw [if_neg hone]
      simp only [hc, Option.bind_eq_bind, Option.bind_some]
      split
      · exact ih _ _ (by omega) (by omega)
      · exact ih _ _ (by omega) (by omega)

/-- On a defined comparison a search ends, with an index in range. -/
theorem search_isSome {len : ℕ} {cmp : ℕ → Option Ordering}
    (hdef : ∀ i, i < len → (cmp i).isSome) :
    (∃ i, search len cmp = some (.ok i)) ∨ ∃ i, i ≤ len ∧ search len cmp = some (.error i) := by
  rw [search]
  by_cases hlen : len = 0
  · exact .inr ⟨0, Nat.zero_le _, by rw [if_pos hlen]⟩
  · obtain ⟨b, hb, hblt⟩ := narrow_isSome hdef len 0 len (by omega) (by omega)
    obtain ⟨c, hc⟩ := Option.isSome_iff_exists.mp (hdef b hblt)
    rw [if_neg hlen, hb]
    simp only [Option.bind_eq_bind, Option.bind_some, hc]
    split
    · exact .inl ⟨b, rfl⟩
    · exact .inr ⟨_, by split <;> omega, rfl⟩

/-- A hit is an element of the slice that compares equal, whatever the order of the slice. -/
theorem search_ok_sound {len i : ℕ} {cmp : ℕ → Option Ordering}
    (hdef : ∀ i, i < len → (cmp i).isSome) (h : search len cmp = some (.ok i)) :
    i < len ∧ cmp i = some .eq := by
  rw [search] at h
  by_cases hlen : len = 0
  · simp [hlen] at h
  · obtain ⟨b, hb, hblt⟩ := narrow_isSome hdef len 0 len (by omega) (by omega)
    obtain ⟨c, hc⟩ := Option.isSome_iff_exists.mp (hdef b hblt)
    rw [if_neg hlen, hb] at h
    simp only [Option.bind_eq_bind, Option.bind_some, hc] at h
    split at h
    · next heq =>
      cases h
      exact ⟨hblt, by rw [hc, heq]⟩
    · cases h

/-- A predicate that is defined on the slice has a partition point, in range. -/
theorem partitionPoint_isSome {len : ℕ} {pred : ℕ → Option Bool}
    (hdef : ∀ i, i < len → (pred i).isSome) :
    ∃ i, i ≤ len ∧ partitionPoint len pred = some i := by
  have hcmp : ∀ i, i < len → ((pred i).map fun b => if b then Ordering.lt else .gt).isSome := by
    intro i hi
    rw [Option.isSome_map]
    exact hdef i hi
  unfold partitionPoint
  rcases search_isSome hcmp with ⟨i, hsearch⟩ | ⟨i, hi, hsearch⟩
  · exact ⟨i, Nat.le_of_lt (search_ok_sound hcmp hsearch).1, by rw [hsearch]; rfl⟩
  · exact ⟨i, hi, by rw [hsearch]; rfl⟩

/-! ### Searching a list sorted by key -/

section Sorted

variable {α : Type} {key : α → ℕ} {xs : List α}

/-- A list sorted by key is cut by a key into the smaller elements and the others. -/
theorem exists_cut (hs : xs.Pairwise fun a b => key a < key b) (k : ℕ) :
    ∃ as bs, xs = as ++ bs ∧ (∀ a ∈ as, key a < k) ∧ ∀ b ∈ bs, k ≤ key b := by
  induction xs with
  | nil => exact ⟨[], [], rfl, by simp, by simp⟩
  | cons x xs ih =>
    obtain ⟨hx, hxs⟩ := List.pairwise_cons.mp hs
    -- the first element that is not below `k` starts the upper part
    by_cases hlt : key x < k
    · obtain ⟨as, bs, rfl, has, hbs⟩ := ih hxs
      exact ⟨x :: as, bs, rfl, List.forall_mem_cons.mpr ⟨hlt, has⟩, hbs⟩
    · refine ⟨[], x :: xs, rfl, by simp, List.forall_mem_cons.mpr ⟨Nat.le_of_not_lt hlt, ?_⟩⟩
      intro b hb
      have := hx b hb
      omega

/-- **Searching by key.** Either an element has the key and is found, or none has it and the
place where it belongs is found; in both cases the elements before are smaller and those behind
are greater. -/
theorem search_sorted (hs : xs.Pairwise fun a b => key a < key b) (k : ℕ) :
    (∃ as x bs, xs = as ++ x :: bs ∧ key x = k ∧ (∀ a ∈ as, key a < k) ∧
      (∀ b ∈ bs, k < key b) ∧
      search xs.length (fun i => xs[i]?.map fun x => compare (key x) k)
        = some (.ok as.length)) ∨
    ∃ as bs, xs = as ++ bs ∧ (∀ a ∈ as, key a < k) ∧ (∀ b ∈ bs, k < key b) ∧
      search xs.length (fun i => xs[i]?.map fun x => compare (key x) k)
        = some (.error as.length) := by
  -- cut before the first key that is not below `k`: `k` is there or nowhere
  obtain ⟨as, bs, rfl, has, hbs⟩ := exists_cut hs k
  have hlow : ∀ j, j < as.length →
      ((as ++ bs)[j]?.map fun x => compare (key x) k) = some .lt := fun j hj => by
    rw [List.getElem?_append_left hj, List.getElem?_eq_getElem hj, Option.map_some,
      Nat.compare_eq_lt.mpr (has _ (List.getElem_mem hj))]
  have hhigh : ∀ j, as.length ≤ j → j < (as ++ bs).length →
      (∀ b, bs[j - as.length]? = some b → k < key b) →
      ((as ++ bs)[j]?.map fun x => compare (key x) k) = some .gt := fun j hj hj' hb => by
    have hlt : j - as.length < bs.length := by
      rw [List.length_append] at hj'
      omega
    rw [List.getElem?_append_right hj, List.getElem?_eq_getElem hlt, Option.map_some,
      Nat.compare_eq_gt.mpr (hb _ (List.getElem?_eq_getElem hlt))]
  cases bs with
  | nil =>
    refine .inr ⟨as, [], rfl, has, by simp, search_eq_error (by simp) hlow fun j hj hj' => ?_⟩
    exact hhigh j hj hj' (by simp)
  | cons b bs =>
    have hbs' : ∀ c ∈ bs, key b < key c :=
      (List.pairwise_cons.mp (List.pairwise_append.mp hs).2.1).1
    rcases Nat.lt_or_eq_of_le (hbs b (List.mem_cons_self ..)) with hlt | heq
    · have hgt : ∀ c ∈ b :: bs, k < key c := by
        refine List.forall_mem_cons.mpr ⟨hlt, fun c hc => ?_⟩
        exact Nat.lt_trans hlt (hbs' c hc)
      refine .inr ⟨as, b :: bs, rfl, has, hgt,
        search_eq_error (by simp) hlow fun j hj hj' => hhigh j hj hj' fun c hc => ?_⟩
      exact hgt c (List.mem_of_getElem? hc)
    · subst heq
      refine .inl ⟨as, b, bs, rfl, rfl, has, hbs',
        search_eq_ok (by simp) hlow ?_ fun j hj hj' => ?_⟩
      · rw [List.getElem?_append_right (Nat.le_refl _), Nat.sub_self, List.getElem?_cons_zero,
          Option.map_some, Nat.compare_eq_eq.mpr rfl]
      · refine hhigh j (Nat.le_of_lt hj) hj' fun c hc => hbs' c ?_
        obtain ⟨d, hd⟩ : ∃ d, j - as.length = d + 1 := ⟨j - as.length - 1, by omega⟩
        rw [hd, List.getElem?_cons_succ] at hc
        exact List.mem_of_getElem? hc

/-- **Partitioning by key.** The partition point separates the elements with a key at most `k`
from those with a greater key. -/
theorem partitionPoint_sorted (hs : xs.Pairwise fun a b => key a < key b) (k : ℕ) :
    ∃ as bs, xs = as ++ bs ∧ (∀ a ∈ as, key a ≤ k) ∧ (∀ b ∈ bs, k < key b) ∧
      partitionPoint xs.length (fun i => xs[i]?.map fun x => decide (key x ≤ k))
        = some as.length := by
  -- at most `k` is below `k + 1`
  obtain ⟨as, bs, rfl, has, hbs⟩ := exists_cut hs (k + 1)
  refine ⟨as, bs, rfl, fun a ha => Nat.le_of_lt_succ (has a ha), hbs,
    partitionPoint_eq (by simp) (fun j hj => ?_) fun j hj hj' => ?_⟩
  · rw [List.getElem?_append_left hj, List.getElem?_eq_getElem hj, Option.map_some,
      decide_eq_true (Nat.le_of_lt_succ (has _ (List.getElem_mem hj)))]
  · have hlt : j - as.length < bs.length := by
      rw [List.length_append] at hj'
      omega
    rw [List.getElem?_append_right hj, List.getElem?_eq_getElem hlt, Option.map_some,
      decide_eq_false (Nat.not_le.mpr (hbs _ (List.getElem_mem hlt)))]

end Sorted

end BinarySearch
