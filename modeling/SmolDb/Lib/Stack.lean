import Mathlib.Data.Finset.Card
import Mathlib.Data.List.Basic

/-!
# Least recently used, as a stack

A history lists the keys that were used, the latest first. `recent` lists its keys by their last
use. A store that has room for `cap` keys and gives up the least recently used one has the first
`cap` keys of this list (`take_touch`), so it has a key exactly when fewer than `cap` other keys
were used since the key was used last (`mem_take_recent`). The list does not depend on the room, so
a larger store has what a smaller one has.
-/

namespace Stack

variable {α : Type*} [DecidableEq α]

/-- Use a key: it goes to the front. -/
def touch (l : List α) (a : α) : List α := a :: l.erase a

/-- The keys of a history by their last use. -/
def recent : List α → List α
  | [] => []
  | a :: history => touch (recent history) a

variable {history newer : List α} {a : α} {cap : ℕ}

theorem take_erase_take (l : List α) (a : α) (cap : ℕ) :
    ((l.take (cap + 1)).erase a).take cap = (l.erase a).take cap := by
  induction l generalizing cap with
  | nil => rfl
  | cons b l ih =>
    rw [List.take_succ_cons]
    by_cases hab : b = a
    · rw [hab, List.erase_cons_head, List.erase_cons_head, List.take_take, Nat.min_self]
    · rw [List.erase_cons_tail (by simpa using hab), List.erase_cons_tail (by simpa using hab)]
      cases cap with
      | zero => rfl
      | succ cap => rw [List.take_succ_cons, List.take_succ_cons, ih]

/-- **A store with room for `cap` keys** has the first ones of the list. -/
theorem take_touch (l : List α) (a : α) (cap : ℕ) :
    (touch (l.take cap) a).take cap = (touch l a).take cap := by
  cases cap with
  | zero => rfl
  | succ cap => exact congrArg (a :: ·) (take_erase_take l a cap)

theorem mem_recent : a ∈ recent history ↔ a ∈ history := by
  induction history with
  | nil => exact Iff.rfl
  | cons b history ih =>
    show a ∈ b :: (recent history).erase b ↔ _
    by_cases hab : a = b
    · simp [hab]
    · rw [List.mem_cons, List.mem_cons, List.mem_erase_of_ne hab, ih]

/-- In front of a key are the keys used since, each once. -/
theorem recent_append (older : List α) (hno : a ∉ newer) :
    ∃ xs ys, recent (newer ++ a :: older) = xs ++ a :: ys ∧ a ∉ xs ∧ xs.Nodup ∧
      xs.toFinset = newer.toFinset := by
  induction newer with
  | nil => exact ⟨[], _, rfl, List.not_mem_nil, List.nodup_nil, rfl⟩
  | cons b newer ih =>
    have hne : a ≠ b := fun heq => hno (heq ▸ List.mem_cons_self ..)
    obtain ⟨xs, ys, hrecent, hxs, hnodup, hset⟩ := ih fun hmem => hno (List.mem_cons_of_mem _ hmem)
    have hset' : (b :: xs.erase b).toFinset = (b :: newer).toFinset := by
      rw [List.toFinset_cons, List.toFinset_cons, ← hset]
      ext x
      by_cases hxb : x = b
      · simp [hxb]
      · simp [hxb, List.mem_erase_of_ne hxb]
    have hfront : a ∉ b :: xs.erase b := by
      rw [List.mem_cons, not_or]
      exact ⟨hne, fun hmem => hxs (List.mem_of_mem_erase hmem)⟩
    have hnodup' : (b :: xs.erase b).Nodup :=
      List.nodup_cons.mpr ⟨hnodup.not_mem_erase, hnodup.erase b⟩
    show ∃ xs ys, b :: (recent (newer ++ a :: older)).erase b = xs ++ a :: ys ∧ _
    rw [hrecent]
    -- the key used last is taken from in front of `a`, or from behind it
    by_cases hb : b ∈ xs
    · refine ⟨b :: xs.erase b, ys, ?_, hfront, hnodup', hset'⟩
      rw [List.erase_append_left _ hb, List.cons_append]
    · refine ⟨b :: xs.erase b, ys.erase b, ?_, hfront, hnodup', hset'⟩
      rw [List.erase_append_right _ hb, List.erase_of_not_mem hb,
        List.erase_cons_tail (by simpa using hne), List.cons_append]

/-- **A store has a key** when fewer keys than it has room for were used since. -/
theorem mem_take_recent : a ∈ (recent history).take cap ↔
    ∃ newer older, history = newer ++ a :: older ∧ a ∉ newer ∧ newer.toFinset.card < cap := by
  -- where the key stands when it was used
  have hplace : ∀ newer older, a ∉ newer → (a ∈ (recent (newer ++ a :: older)).take cap ↔
      newer.toFinset.card < cap) := by
    intro newer older hno
    obtain ⟨xs, ys, hrecent, hxs, hnodup, hset⟩ := recent_append older hno
    rw [← hset, List.toFinset_card_of_nodup hnodup, hrecent, List.take_append, List.mem_append,
      or_iff_right fun hmem => hxs (List.mem_of_mem_take hmem)]
    constructor
    · intro hmem
      by_contra hle
      rw [Nat.sub_eq_zero_of_le (Nat.le_of_not_lt hle)] at hmem
      cases hmem
    · intro hlt
      obtain ⟨n, hn⟩ : ∃ n, cap - xs.length = n + 1 := ⟨cap - xs.length - 1, by omega⟩
      rw [hn]
      exact List.mem_cons_self ..
  constructor
  · intro hmem
    obtain ⟨newer, older, rfl, hno⟩ :=
      List.eq_append_cons_of_mem (mem_recent.mp (List.mem_of_mem_take hmem))
    exact ⟨newer, older, rfl, hno, (hplace newer older hno).mp hmem⟩
  · rintro ⟨newer, older, rfl, hno, hcard⟩
    exact (hplace newer older hno).mpr hcard

/-! ### Loads -/

/-- How many keys a store has to load over a history. A key that is made is not loaded. -/
def loads (cap : ℕ) : List (α × Bool) → ℕ
  | [] => 0
  | (a, made) :: history =>
    loads cap history +
      if made ∨ a ∈ (recent (history.map Prod.fst)).take cap then 0 else 1

theorem loads_used (cap : ℕ) (a : α) (history : List (α × Bool)) :
    loads cap ((a, false) :: history) =
      loads cap history + if a ∈ (recent (history.map Prod.fst)).take cap then 0 else 1 := by
  show _ + (if false = true ∨ _ then 0 else 1) = _
  simp only [Bool.false_eq_true, false_or]

/-- **A larger store loads no more.** -/
theorem loads_antitone {cap' : ℕ} (h : cap ≤ cap') (history : List (α × Bool)) :
    loads cap' history ≤ loads cap history := by
  induction history with
  | nil => exact Nat.le_refl _
  | cons use history ih =>
    obtain ⟨a, made⟩ := use
    refine Nat.add_le_add ih ?_
    by_cases hhit : made ∨ a ∈ (recent (history.map Prod.fst)).take cap
    · have hhit' : made ∨ a ∈ (recent (history.map Prod.fst)).take cap' :=
        hhit.imp_right fun hmem => List.take_subset_take_left _ h hmem
      rw [if_pos hhit, if_pos hhit']
    · rw [if_neg hhit]
      split <;> decide

end Stack
