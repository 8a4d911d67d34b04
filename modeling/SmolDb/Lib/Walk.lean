import Mathlib.Data.Fintype.Pigeonhole
import Mathlib.Logic.Function.Iterate

/-!
# Walks along a partial successor

A walk starts somewhere and goes from each place to its successor, as long as there is one.
Whether it ends is decided by whether it is ever in the same place twice (`Returns`): a walk that
returns goes round for ever (`Returns.after_ne_none`), and one that does not return visits each
place once, so it ends when only finitely many places have a successor (`after_eq_none`).
-/

namespace Walk

variable {α : Type*} {next : α → Option α} {a b : α}

/-- Where the walk from a place is after a number of steps. -/
def after (next : α → Option α) (a : α) (n : ℕ) : Option α := (fun o => o.bind next)^[n] (some a)

/-- The walk is in the same place twice. -/
def Returns (next : α → Option α) (a : α) : Prop :=
  ∃ i j, i < j ∧ after next a i = after next a j ∧ after next a i ≠ none

@[simp] theorem after_zero : after next a 0 = some a := rfl

theorem after_succ (n : ℕ) : after next a (n + 1) = (after next a n).bind next :=
  Function.iterate_succ_apply' ..

/-- A walk that has ended stays so. -/
theorem iterate_none (n : ℕ) : (fun o : Option α => o.bind next)^[n] none = none :=
  Function.iterate_fixed rfl n

/-- The walk after a first step is a walk from the successor. -/
theorem after_succ_of_next (h : next a = some b) (n : ℕ) :
    after next a (n + 1) = after next b n := by
  show (fun o => o.bind next)^[n] ((some a).bind next) = _
  rw [Option.bind_some, h]
  rfl

theorem after_of_le {m n : ℕ} (hle : m ≤ n) (h : after next a m = none) :
    after next a n = none := by
  obtain ⟨k, rfl⟩ := Nat.exists_eq_add_of_le hle
  rw [after, Nat.add_comm, Function.iterate_add_apply]
  show (fun o => o.bind next)^[k] (after next a m) = none
  rw [h, iterate_none]

/-- From two equal places on the walk is the same. -/
theorem after_add_congr {i j : ℕ} (h : after next a i = after next a j) (k : ℕ) :
    after next a (i + k) = after next a (j + k) := by
  induction k with
  | zero => exact h
  | succ k ih =>
    show after next a (i + k + 1) = after next a (j + k + 1)
    rw [after_succ, after_succ, ih]

/-- **A walk that returns never ends.** -/
theorem Returns.after_ne_none (h : Returns next a) (n : ℕ) : after next a n ≠ none := by
  obtain ⟨i, j, hij, hsame, hne⟩ := h
  -- a walk that is longer than `j` was in the same place one turn before
  induction n using Nat.strong_induction_on with
  | _ n ih =>
    intro hend
    by_cases hle : n ≤ j
    · apply hne
      rw [hsame]
      exact after_of_le hle hend
    · obtain ⟨k, rfl⟩ : ∃ k, n = j + k := ⟨n - j, by omega⟩
      apply ih (i + k) (by omega)
      rw [after_add_congr hsame k]
      exact hend

/-- A place on the walk that has a next one has a successor. -/
theorem next_ne_none {n : ℕ} (h : after next a (n + 1) ≠ none) :
    ∃ c, after next a n = some c ∧ next c ≠ none := by
  rw [after_succ] at h
  cases hn : after next a n with
  | none => exact absurd (by rw [hn]; rfl) h
  | some c =>
    rw [hn] at h
    exact ⟨c, rfl, h⟩

/-- **A walk that does not return ends**, when the places that have a successor can be told apart
by numbers below `n`: after `n + 1` steps two of them would be the same. -/
theorem after_eq_none {place : α → ℕ} (hplace : Function.Injective place) {n : ℕ}
    (hlt : ∀ c, next c ≠ none → place c < n) (h : ¬ Returns next a) :
    after next a (n + 1) = none := by
  by_contra hne
  -- a walk of more than `n` steps visits more places than there are
  have hvisit : ∀ i : Fin (n + 1), ∃ c, after next a i.val = some c ∧ next c ≠ none := by
    intro i
    apply next_ne_none
    intro hend
    exact hne (after_of_le (by omega) hend)
  choose visited hvisited hnext using hvisit
  obtain ⟨i, j, hij, hsame⟩ := Fintype.exists_ne_map_eq_of_card_lt
    (fun i => (⟨place (visited i), hlt _ (hnext i)⟩ : Fin n)) (by simp)
  have hplaces : visited i = visited j := hplace (congrArg Fin.val hsame)
  -- two visits to one place make the walk return
  have hafter : after next a i.val = after next a j.val := by
    rw [hvisited, hvisited, hplaces]
  apply h
  rcases Nat.lt_or_gt_of_ne (fun heq => hij (Fin.ext heq)) with hlt | hgt
  · exact ⟨i.val, j.val, hlt, hafter, by rw [hvisited]; exact Option.some_ne_none _⟩
  · exact ⟨j.val, i.val, hgt, hafter.symm, by rw [hvisited]; exact Option.some_ne_none _⟩

end Walk
