import Mathlib.Data.List.AList
import Mathlib.Logic.Function.Basic

/-!
# Lists of pairs as partial functions

A list of pairs `Lists` a partial function when it is the function's graph. If no key occurs twice,
putting a pair into the list, taking one out and replacing the value of one are the updates of the
function at the pair's key, wherever in the list the pair stands.
-/

namespace Listing

variable {K V : Type*}

/-- The list is the graph of the partial function. -/
def Lists (m : K → Option V) (l : List (K × V)) : Prop := ∀ k v, m k = some v ↔ (k, v) ∈ l

/-- No two pairs of the list have the same key. -/
def Keyed (l : List (K × V)) : Prop := l.Pairwise fun a b => a.1 ≠ b.1

variable {m : K → Option V} {l as bs : List (K × V)} {k : K} {v : V}

theorem Lists.nil : Lists (fun _ => none) ([] : List (K × V)) :=
  fun _ _ => ⟨nofun, nofun⟩

/-- The function is undefined exactly off the keys of the list. -/
theorem Lists.eq_none_iff (h : Lists m l) : m k = none ↔ ∀ v, (k, v) ∉ l := by
  constructor
  · intro hnone v hmem
    rw [(h k v).mpr hmem] at hnone
    cases hnone
  · intro hno
    cases hk : m k with
    | none => rfl
    | some v => exact absurd ((h k v).mp hk) (hno v)

/-- The list determines the function. -/
theorem Lists.eq_of_iff (h : Lists m l) {o : Option V} (ho : ∀ v, o = some v ↔ (k, v) ∈ l) :
    o = m k := by
  ext v
  rw [ho v, h k v]

/-- The key of a pair occurs nowhere else. -/
theorem Keyed.not_mem (h : Keyed (as ++ (k, v) :: bs)) (w : V) : (k, w) ∉ as ++ bs := by
  obtain ⟨-, hcons, hcross⟩ := List.pairwise_append.mp h
  intro hmem
  rcases List.mem_append.mp hmem with ha | hb
  · exact hcross _ ha _ (List.mem_cons_self ..) rfl
  · exact (List.pairwise_cons.mp hcons).1 _ hb rfl

theorem mem_insert_iff {p : K × V} : p ∈ as ++ (k, v) :: bs ↔ p = (k, v) ∨ p ∈ as ++ bs := by
  rw [List.mem_append, List.mem_cons, List.mem_append, or_left_comm]

/-- The order of the pairs does not matter. -/
theorem Lists.perm {l' : List (K × V)} (h : Lists m l) (hperm : l'.Perm l) : Lists m l' :=
  fun k v => (h k v).trans hperm.mem_iff.symm

theorem Keyed.perm {l' : List (K × V)} (h : Keyed l) (hperm : l'.Perm l) : Keyed l' :=
  (hperm.pairwise_iff fun hne => hne.symm).mpr h

/-- **Cutting a list** in two by a property of the keys cuts the function. -/
theorem Lists.cut {P : K → Prop} [DecidablePred P] (h : Lists m (as ++ bs))
    (has : ∀ pair ∈ as, P pair.1) (hbs : ∀ pair ∈ bs, ¬ P pair.1) :
    Lists (fun k => if P k then m k else none) as := by
  intro k v
  dsimp only
  by_cases hk : P k
  · rw [if_pos hk, h k v, List.mem_append]
    exact or_iff_left fun hb => hbs _ hb hk
  · rw [if_neg hk]
    exact ⟨nofun, fun ha => absurd (has _ ha) hk⟩

variable [DecidableEq K]

/-- **Taking a pair out** makes the function undefined at its key. -/
theorem Lists.remove (h : Lists m (as ++ (k, v) :: bs)) (hkey : Keyed (as ++ (k, v) :: bs)) :
    Lists (Function.update m k none) (as ++ bs) := by
  intro k' w
  by_cases hk : k' = k
  · subst hk
    rw [Function.update_self]
    exact ⟨nofun, fun hmem => absurd hmem (hkey.not_mem w)⟩
  · rw [Function.update_of_ne hk, h k' w, mem_insert_iff]
    exact or_iff_right fun heq => hk (congrArg Prod.fst heq)

/-- **Putting a pair in** at a new key defines the function there. -/
theorem Lists.put (h : Lists m (as ++ bs)) (hkey : Keyed (as ++ (k, v) :: bs)) :
    Lists (Function.update m k (some v)) (as ++ (k, v) :: bs) := by
  intro k' w
  rw [mem_insert_iff, Prod.mk.injEq]
  by_cases hk : k' = k
  · subst hk
    rw [Function.update_self, Option.some.injEq, or_iff_left (hkey.not_mem w)]
    exact ⟨fun hv => ⟨rfl, hv.symm⟩, fun hv => hv.2.symm⟩
  · rw [Function.update_of_ne hk, h k' w]
    exact (or_iff_right fun heq => hk heq.1).symm

/-- **Replacing a value** changes the function at its key. -/
theorem Lists.replace {w : V} (h : Lists m (as ++ (k, w) :: bs))
    (hkey : Keyed (as ++ (k, w) :: bs)) (hkey' : Keyed (as ++ (k, v) :: bs)) :
    Lists (Function.update m k (some v)) (as ++ (k, v) :: bs) := by
  have hput := (h.remove hkey).put hkey'
  rwa [Function.update_idem] at hput

end Listing

namespace AList

variable {α : Type*} {β : α → Type*} [DecidableEq α] {a a' : α} {s : AList β}

/-- The keys of an association list are where its lookup is defined. -/
theorem mem_iff_exists_lookup : a ∈ s ↔ ∃ b, s.lookup a = some b := by
  rw [← lookup_isSome, Option.isSome_iff_exists]

theorem mem_of_lookup {b : β a} (h : s.lookup a = some b) : a ∈ s :=
  mem_iff_exists_lookup.mpr ⟨b, h⟩

theorem exists_lookup (h : a ∈ s) : ∃ b, s.lookup a = some b :=
  mem_iff_exists_lookup.mp h

theorem ne_of_lookup {b : β a'} (ha : a ∉ s) (h : s.lookup a' = some b) : a' ≠ a := by
  rintro rfl
  exact ha (mem_of_lookup h)

end AList
