import Mathlib.Data.List.Induction
import Mathlib.Order.Bounds.Basic

/-!
# Runs of partial step functions

A system that takes a list of operations one after another, each with an output, and that may
panic (`none`). Two such systems *agree* along a relation of their states when they panic at the
same operations and otherwise give equal outputs and related states. Agreement of single steps
is agreement of runs.

A counter that each step raises to the measure of the state it reaches, and no further, is the
*high-water mark* of the measure: the greatest value the measure had after any prefix of the run.
-/

namespace Runs

variable {ι σ τ α : Type*}

/-- The outputs and the last state of a list of operations. -/
def run (step : ι → σ → Option (α × σ)) : List ι → σ → Option (List α × σ)
  | [], s => some ([], s)
  | i :: is, s => do
    let (a, s) ← step i s
    let (as, s) ← run step is s
    some (a :: as, s)

/-- Both panic, or both return the same output and related states. -/
def Agree (R : σ → τ → Prop) : Option (α × σ) → Option (α × τ) → Prop
  | none, none => True
  | some (a, s), some (b, t) => a = b ∧ R s t
  | _, _ => False

theorem Agree.of_some {R : σ → τ → Prop} {o : Option (α × σ)} {a : α} {t : τ}
    (h : Agree R o (some (a, t))) : ∃ s, o = some (a, s) ∧ R s t := by
  rcases o with _ | ⟨b, s⟩
  · exact h.elim
  · obtain ⟨rfl, hR⟩ := h
    exact ⟨s, rfl, hR⟩

theorem Agree.of_none {R : σ → τ → Prop} {o : Option (α × σ)} (h : Agree R o none) :
    o = none := by
  rcases o with _ | ⟨b, s⟩
  · rfl
  · exact h.elim

theorem Agree.mono {R R' : σ → τ → Prop} {o : Option (α × σ)} {o' : Option (α × τ)}
    (h : Agree R o o') (hR : ∀ s t, R s t → R' s t) : Agree R' o o' := by
  rcases o with _ | ⟨a, s⟩ <;> rcases o' with _ | ⟨b, t⟩
  · trivial
  · exact h.elim
  · exact h.elim
  · exact ⟨h.1, hR s t h.2⟩

/-- **Agreement of runs.** -/
theorem run_agree {R : σ → τ → Prop} {step : ι → σ → Option (α × σ)}
    {step' : ι → τ → Option (α × τ)}
    (hstep : ∀ i s t, R s t → Agree R (step i s) (step' i t)) (is : List ι) {s : σ} {t : τ}
    (hR : R s t) : Agree R (run step is s) (run step' is t) := by
  induction is generalizing s t with
  | nil => exact ⟨rfl, hR⟩
  | cons i is ih =>
    have hi := hstep i s t hR
    rcases ht : step' i t with _ | ⟨a, t'⟩
    · rw [ht] at hi
      rw [run, run, ht, hi.of_none]
      trivial
    · rw [ht] at hi
      obtain ⟨s', hs, hR'⟩ := hi.of_some
      have his := ih hR'
      rcases ht' : run step' is t' with _ | ⟨as, t''⟩
      · rw [ht'] at his
        simp only [run, hs, ht, ht', his.of_none, Option.bind_eq_bind, Option.bind_some,
          Option.bind_none]
        trivial
      · rw [ht'] at his
        obtain ⟨s'', hs', hR''⟩ := his.of_some
        simp only [run, hs, ht, ht', hs', Option.bind_eq_bind, Option.bind_some]
        exact ⟨rfl, hR''⟩

/-! ### The last step, and high-water marks -/

/-- A run of one more operation is the run, then the operation. -/
theorem run_concat {step : ι → σ → Option (α × σ)} {is : List ι} {i : ι} {s t : σ} {as : List α}
    (h : run step (is ++ [i]) s = some (as, t)) :
    ∃ bs u b, run step is s = some (bs, u) ∧ step i u = some (b, t) := by
  induction is generalizing s as with
  | nil =>
    obtain ⟨⟨b, t'⟩, hi, h⟩ := Option.bind_eq_some_iff.mp h
    cases h
    exact ⟨[], s, b, rfl, hi⟩
  | cons j is ih =>
    rw [List.cons_append, run] at h
    obtain ⟨⟨b, s'⟩, hj, h⟩ := Option.bind_eq_some_iff.mp h
    obtain ⟨⟨as', t'⟩, hrun, h⟩ := Option.bind_eq_some_iff.mp h
    cases h
    obtain ⟨bs, u, c, hu, hi⟩ := ih hrun
    refine ⟨b :: bs, u, c, ?_, hi⟩
    simp only [run, hj, hu, Option.bind_eq_bind, Option.bind_some]

/-- The values `μ` has in the states of a run: the first one, and the one after each operation. -/
def Passed (step : ι → σ → Option (α × σ)) (μ : σ → ℕ) (is : List ι) (s : σ) : Set ℕ :=
  {n | ∃ k as t, run step (is.take k) s = some (as, t) ∧ μ t = n}

/-- One more operation adds the value of the state it reaches. -/
theorem passed_concat {step : ι → σ → Option (α × σ)} {μ : σ → ℕ} {is : List ι} {i : ι} {s t : σ}
    {as : List α} (h : run step (is ++ [i]) s = some (as, t)) :
    Passed step μ (is ++ [i]) s = insert (μ t) (Passed step μ is s) := by
  ext n
  constructor
  · rintro ⟨k, bs, u, hu, rfl⟩
    rcases Nat.lt_or_ge is.length k with hk | hk
    · rw [List.take_of_length_le (by rw [List.length_append]; exact hk), h] at hu
      cases hu
      exact .inl rfl
    · rw [List.take_append_of_le_length hk] at hu
      exact .inr ⟨k, bs, u, hu, rfl⟩
  · rintro (rfl | ⟨k, bs, u, hu, rfl⟩)
    · exact ⟨(is ++ [i]).length, as, t, by rw [List.take_length]; exact h, rfl⟩
    · refine ⟨min k is.length, bs, u, ?_, rfl⟩
      rw [List.take_append_of_le_length (Nat.min_le_right ..), ← List.take_eq_take_min]
      exact hu

/-- **The high-water mark.** Where every step keeps `I` and raises `κ` to the measure it reaches,
`κ` is the greatest value the measure had so far. -/
theorem isGreatest_passed {step : ι → σ → Option (α × σ)} {I : σ → Prop} {κ μ : σ → ℕ}
    (hstep : ∀ i s a t, I s → step i s = some (a, t) → I t ∧ κ t = max (κ s) (μ t))
    {is : List ι} {s t : σ} {as : List α} (hI : I s) (hs : κ s = μ s)
    (h : run step is s = some (as, t)) : I t ∧ IsGreatest (Passed step μ is s) (κ t) := by
  -- the last step is peeled off: it either raises the greatest value passed or keeps it
  induction is using List.reverseRecOn generalizing as t with
  | nil =>
    cases h
    refine ⟨hI, ⟨0, [], s, rfl, hs.symm⟩, ?_⟩
    rintro n ⟨k, bs, u, hu, rfl⟩
    rw [List.take_nil] at hu
    cases hu
    exact hs.ge
  | append_singleton is i ih =>
    obtain ⟨bs, u, b, hu, hi⟩ := run_concat h
    obtain ⟨hIu, hgreatest⟩ := ih hu
    obtain ⟨hIt, hκ⟩ := hstep i u b t hIu hi
    refine ⟨hIt, ?_⟩
    rw [passed_concat h, hκ, max_comm]
    exact hgreatest.insert _

end Runs
