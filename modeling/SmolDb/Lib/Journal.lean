import SmolDb.Lib.Exec

/-!
# Calls that keep a journal

The state a call leaves behind does not tell in which order the call did things. A `Journaled`
state does: it has an entry for each event that was noted, with the states before and after it. A
call is written over such states as it is written over the bare ones, except that a step in which
something happens is taken by `noting` it, and the other steps `quietly`.

There are two kinds of rules:

* `Erases`: without the journal the call is the one over bare states. The rules follow the shape
  of the call.
* `Reports`: what is true of the entries a step adds, between its two states, is true of the
  entries of every sequence and every loop, when it can be composed (`Composes`). It may depend on
  whether the call succeeded, since a sequence goes on only then.
-/

namespace Exec

variable {ε σ ι α β : Type}

/-- An event, and the states before and after it. -/
structure Entry (ι σ : Type) where
  before : σ
  event : ι
  after : σ

/-- A state, and the journal of what happened up to it. -/
structure Journaled (ι σ : Type) where
  state : σ
  journal : List (Entry ι σ)

/-- Run a call without an entry. -/
def quietly (x : Exec ε σ α) : Exec ε (Journaled ι σ) α := fun s =>
  (x s.state).map fun (r, state) => (r, { s with state })

/-- Run a call and note it, with its result. -/
def noting (event : Except ε α → ι) (x : Exec ε σ α) : Exec ε (Journaled ι σ) α := fun s =>
  (x s.state).map fun (r, state) =>
    (r, { state, journal := s.journal ++ [⟨s.state, event r, state⟩] })

theorem map_result_eq_some {β γ δ : Type} {o : Option (β × γ)} {f : β → γ → δ} {b : β} {d : δ} :
    (o.map fun out => (out.1, f out.1 out.2)) = some (b, d) ↔ ∃ c, o = some (b, c) ∧ d = f b c := by
  rw [Option.map_eq_some_iff]
  constructor
  · rintro ⟨⟨b', c⟩, hout, heq⟩
    cases heq
    exact ⟨c, hout, rfl⟩
  · rintro ⟨c, hout, rfl⟩
    exact ⟨(b, c), hout, rfl⟩

theorem quietly_eq_some {x : Exec ε σ α} {s s' : Journaled ι σ} {r : Except ε α} :
    quietly x s = some (r, s') ↔ ∃ t, x s.state = some (r, t) ∧ s' = { s with state := t } :=
  map_result_eq_some (o := x s.state)
    (f := fun _ state => ({ s with state } : Journaled ι σ))

theorem noting_eq_some {event : Except ε α → ι} {x : Exec ε σ α} {s s' : Journaled ι σ}
    {r : Except ε α} :
    noting event x s = some (r, s') ↔ ∃ t, x s.state = some (r, t) ∧
      s' = ⟨t, s.journal ++ [⟨s.state, event r, t⟩]⟩ :=
  map_result_eq_some (o := x s.state)
    (f := fun r t => Journaled.mk t (s.journal ++ [Entry.mk s.state (event r) t]))

/-! ### Without the journal -/

/-- Without the journal `x'` does what `x` does. -/
def Erases (x' : Exec ε (Journaled ι σ) α) (x : Exec ε σ α) : Prop :=
  ∀ s, (x' s).map (fun out => (out.1, out.2.state)) = x s.state

namespace Erases

theorem pure (a : α) : Erases (Pure.pure a : Exec ε (Journaled ι σ) α) (Pure.pure a) := fun _ => rfl

theorem throw (e : ε) :
    Erases (Exec.throw e : Exec ε (Journaled ι σ) α) (Exec.throw e) := fun _ => rfl

theorem ofOption (o : Option α) :
    Erases (Exec.ofOption o : Exec ε (Journaled ι σ) α) (Exec.ofOption o) := by
  intro s
  cases o <;> rfl

theorem quietly (x : Exec ε σ α) : Erases (Exec.quietly x : Exec ε (Journaled ι σ) α) x := by
  intro s
  unfold Exec.quietly
  cases x s.state <;> rfl

theorem noting (event : Except ε α → ι) (x : Exec ε σ α) : Erases (Exec.noting event x) x := by
  intro s
  unfold Exec.noting
  cases x s.state <;> rfl

theorem bind {x' : Exec ε (Journaled ι σ) α} {x : Exec ε σ α}
    {f' : α → Exec ε (Journaled ι σ) β} {f : α → Exec ε σ β} (hx : Erases x' x)
    (hf : ∀ a, Erases (f' a) (f a)) : Erases (x' >>= f') (x >>= f) := by
  intro s
  rw [bind_apply x, ← hx s, bind_apply x']
  cases x' s with
  | none => rfl
  | some out =>
    obtain ⟨e | a, s'⟩ := out
    · rfl
    · exact hf a s'

theorem forEach {f' : β → Exec ε (Journaled ι σ) Unit} {f : β → Exec ε σ Unit}
    (hf : ∀ b, Erases (f' b) (f b)) (bs : List β) :
    Erases (Exec.forEach f' bs) (Exec.forEach f bs) := by
  induction bs with
  | nil => exact .pure ()
  | cons b bs ih => exact (hf b).bind fun _ => ih

/-- A run over bare states is one over journaled states. -/
theorem exists_run {x' : Exec ε (Journaled ι σ) α} {x : Exec ε σ α} (h : Erases x' x)
    {s : Journaled ι σ} {r : Except ε α} {t : σ} (hx : x s.state = some (r, t)) :
    ∃ s', x' s = some (r, s') ∧ s'.state = t := by
  rw [← h s] at hx
  obtain ⟨⟨r', s'⟩, hrun, heq⟩ := Option.map_eq_some_iff.mp hx
  cases heq
  exact ⟨s', hrun, rfl⟩

end Erases

/-! ### What the journal says -/

/-- The entries that a run of `x` adds satisfy `Good`, between its two states. -/
def Reports (Good : σ → List (Entry ι σ) → Bool → σ → Prop) (x : Exec ε (Journaled ι σ) α) : Prop :=
  ∀ s r s', x s = some (r, s') →
    ∃ entries, s'.journal = s.journal ++ entries ∧ Good s.state entries r.isOk s'.state

/-- A property of entries that holds of none, and of the entries of two calls in a row, the first
of which succeeded. -/
structure Composes (Good : σ → List (Entry ι σ) → Bool → σ → Prop) : Prop where
  nil : ∀ s ok, Good s [] ok s
  append : ∀ {a b c es es' ok}, Good a es true b → Good b es' ok c → Good a (es ++ es') ok c

namespace Reports

variable {Good : σ → List (Entry ι σ) → Bool → σ → Prop}

theorem pure (hc : Composes Good) (a : α) :
    Reports Good (Pure.pure a : Exec ε (Journaled ι σ) α) := by
  intro s r s' h
  cases h
  exact ⟨[], (List.append_nil _).symm, hc.nil _ _⟩

theorem throw (hc : Composes Good) (e : ε) :
    Reports Good (Exec.throw e : Exec ε (Journaled ι σ) α) := by
  intro s r s' h
  cases h
  exact ⟨[], (List.append_nil _).symm, hc.nil _ _⟩

theorem ofOption (hc : Composes Good) (o : Option α) :
    Reports Good (Exec.ofOption o : Exec ε (Journaled ι σ) α) := by
  intro s r s' h
  obtain ⟨a, -, -, rfl⟩ := ofOption_eq_some.mp h
  exact ⟨[], (List.append_nil _).symm, hc.nil _ _⟩

theorem quietly {x : Exec ε σ α}
    (h : ∀ s r s', x s = some (r, s') → Good s [] r.isOk s') :
    Reports Good (Exec.quietly x : Exec ε (Journaled ι σ) α) := by
  intro s r s' hx
  obtain ⟨t, hrun, rfl⟩ := quietly_eq_some.mp hx
  exact ⟨[], (List.append_nil _).symm, h _ _ _ hrun⟩

theorem noting {event : Except ε α → ι} {x : Exec ε σ α}
    (h : ∀ s r s', x s = some (r, s') → Good s [⟨s, event r, s'⟩] r.isOk s') :
    Reports Good (Exec.noting event x) := by
  intro s r s' hx
  obtain ⟨t, hrun, rfl⟩ := noting_eq_some.mp hx
  exact ⟨_, rfl, h _ _ _ hrun⟩

/-- **Sequences.** -/
theorem bind (hc : Composes Good) {x : Exec ε (Journaled ι σ) α}
    {f : α → Exec ε (Journaled ι σ) β} (hx : Reports Good x) (hf : ∀ a, Reports Good (f a)) :
    Reports Good (x >>= f) := by
  intro s r s'' h
  rcases bind_eq_some.mp h with ⟨e, rfl, hfail⟩ | ⟨a, s', ha, hb⟩
  · exact hx s _ s'' hfail
  · obtain ⟨es, hes, hgood⟩ := hx s _ s' ha
    obtain ⟨es', hes', hgood'⟩ := hf a s' r s'' hb
    refine ⟨es ++ es', ?_, hc.append hgood hgood'⟩
    rw [hes', hes, List.append_assoc]

/-- **Loops.** -/
theorem forEach (hc : Composes Good) {f : β → Exec ε (Journaled ι σ) Unit}
    (hf : ∀ b, Reports Good (f b)) (bs : List β) : Reports Good (Exec.forEach f bs) := by
  induction bs with
  | nil => exact .pure hc ()
  | cons b bs ih => exact .bind hc (hf b) fun _ => ih

end Reports

end Exec
