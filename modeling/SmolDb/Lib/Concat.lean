import Mathlib.Data.List.Basic

/-!
# Cutting a concatenation

A file that is written piece by piece is the concatenation of its pieces, and a crash cuts it at
some length. `take_flatten` says what is left of the pieces: some of them in full, and a proper
prefix of the next one. When the pieces come in groups, the pieces left in full are those of the
first so many groups, or the cut is inside a group (`groups_or_inside`), and never both
(`Inside.not_groups`).
-/

namespace Concat

variable {α : Type*}

/-- **What a cut leaves** of a concatenation: everything, or some pieces in full and a proper
prefix of the next one. -/
theorem take_flatten (pieces : List (List α)) (n : ℕ) :
    (pieces.flatten.length ≤ n ∧ pieces.flatten.take n = pieces.flatten) ∨
      ∃ as piece bs k, pieces = as ++ piece :: bs ∧ k < piece.length ∧
        n = as.flatten.length + k ∧ pieces.flatten.take n = as.flatten ++ piece.take k := by
  induction pieces generalizing n with
  | nil => exact .inl ⟨Nat.zero_le _, List.take_nil⟩
  | cons piece pieces ih =>
    rw [List.flatten_cons, List.length_append]
    by_cases hn : n < piece.length
    · right
      refine ⟨[], piece, pieces, n, rfl, hn, (Nat.zero_add n).symm, ?_⟩
      exact List.take_append_of_le_length (Nat.le_of_lt hn)
    · obtain ⟨m, rfl⟩ := Nat.exists_eq_add_of_le (Nat.le_of_not_lt hn)
      have htake : (piece ++ pieces.flatten).take (piece.length + m) =
          piece ++ pieces.flatten.take m := List.take_length_add_append m
      rw [htake]
      rcases ih m with ⟨hle, hall⟩ | ⟨as, last, bs, k, rfl, hk, rfl, hcut⟩
      · left
        exact ⟨Nat.add_le_add_left hle _, by rw [hall]⟩
      · right
        refine ⟨piece :: as, last, bs, k, rfl, hk, ?_, ?_⟩
        · rw [List.flatten_cons, List.length_append, Nat.add_assoc]
        · rw [hcut, List.flatten_cons, List.append_assoc]

/-- The elements of `as` end inside a group: behind at least one of its elements and before at
least one. -/
def Inside (groups : List (List α)) (as : List α) : Prop :=
  ∃ pre first x rest post, groups = pre ++ (first ++ x :: rest) :: post ∧ first ≠ [] ∧
    as = pre.flatten ++ first

/-- An initial segment of the elements consists of whole groups, or ends inside one. -/
theorem groups_or_inside (groups : List (List α)) {as bs : List α}
    (h : groups.flatten = as ++ bs) : (∃ k, as = (groups.take k).flatten) ∨ Inside groups as := by
  induction groups generalizing as with
  | nil =>
    obtain ⟨rfl, -⟩ := List.append_eq_nil_iff.mp h.symm
    exact .inl ⟨0, rfl⟩
  | cons group groups ih =>
    rw [List.flatten_cons] at h
    rcases List.append_eq_append_iff.mp h with ⟨more, rfl, hrest⟩ | ⟨more, rfl, hbs⟩
    · -- the first group is among the elements
      rcases ih hrest with ⟨k, rfl⟩ | ⟨pre, first, x, rest, post, rfl, hfirst, rfl⟩
      · exact .inl ⟨k + 1, rfl⟩
      · refine .inr ⟨group :: pre, first, x, rest, post, rfl, hfirst, ?_⟩
        rw [List.flatten_cons, List.append_assoc]
    · cases more with
      | nil =>
        refine .inl ⟨1, ?_⟩
        rw [List.take_succ_cons, List.take_zero, List.flatten_singleton, List.append_nil]
      | cons x rest =>
        cases as with
        | nil => exact .inl ⟨0, rfl⟩
        | cons a as =>
          exact .inr ⟨[], a :: as, x, rest, groups, rfl, List.cons_ne_nil a as, rfl⟩

/-- **What ends inside a group is no sequence of whole groups.** -/
theorem Inside.not_groups {groups : List (List α)} {as : List α} (h : Inside groups as) (k : ℕ) :
    as ≠ (groups.take k).flatten := by
  obtain ⟨pre, first, x, rest, post, rfl, hfirst, rfl⟩ := h
  intro heq
  have hlen := congrArg List.length heq
  have hpos : 0 < first.length := List.length_pos_of_ne_nil hfirst
  rw [List.take_append, List.flatten_append, List.length_append, List.length_append] at hlen
  rcases Nat.lt_or_ge pre.length k with hlt | hge
  · -- the whole group is among the first `k`
    obtain ⟨m, rfl⟩ := Nat.exists_eq_add_of_lt hlt
    rw [List.take_of_length_le (by omega), show pre.length + m + 1 - pre.length = m + 1 by omega,
      List.take_succ_cons, List.flatten_cons, List.length_append, List.length_append,
      List.length_cons] at hlen
    omega
  · rw [Nat.sub_eq_zero_of_le hge, List.take_zero, List.flatten_nil, List.length_nil] at hlen
    have hle : (pre.take k).flatten.length ≤ pre.flatten.length := by
      conv_rhs => rw [← List.take_append_drop k pre, List.flatten_append, List.length_append]
      exact Nat.le_add_right ..
    omega

end Concat
