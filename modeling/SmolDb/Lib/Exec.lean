import Mathlib.Logic.Basic

/-!
# Calls that mutate, may fail and may panic

`Exec ε σ α` is the meaning of a method on `&mut self` (the state is a `σ`) that returns a
`Result<α, ε>`. A call that panics, or that never returns, has no outcome (`none`). Every other
call has a result *and* the state it leaves behind, also when the result is an error: an early
return between two writes leaves the first of them in place.

The library has the combinators the embedding is written with and five kinds of rules about them:

* the inversion rules `bind_eq_ok` and `bind_eq_error` read a finished sequence back as the steps
  it went through;
* the rule `Ensures` for what is true of every value a sequence returns;
* the rule `Through` for what a call does not look at, and `Lifts` for what it does not look at
  when it succeeds;
* the rule `Returns` for a call that does not panic;
* the frame rule `Within`: a reflexive and transitive relation between the state before and the
  state after each step relates the two ends of every sequence and every loop built from them.
-/

/-- A call on a state `σ` with results in `α` and errors in `ε`; `none` is a panic. -/
def Exec (ε σ α : Type) : Type := σ → Option (Except ε α × σ)

namespace Exec

variable {ε σ τ α β : Type}

instance : Monad (Exec ε σ) where
  pure a := fun s => some (.ok a, s)
  bind x f := fun s =>
    match x s with
    | none => none
    | some (.error e, s') => some (.error e, s')
    | some (.ok a, s') => f a s'

theorem bind_pure_self (x : Exec ε σ α) : (x >>= fun a => pure a) = x := by
  funext s
  change (match x s with | none => none | some (.error e, s') => _ | some (.ok a, s') => _) = _
  rcases x s with _ | ⟨e | a, s'⟩ <;> rfl

theorem bind_bind {γ : Type} (x : Exec ε σ α) (f : α → Exec ε σ β) (g : β → Exec ε σ γ) :
    (x >>= f >>= g) = x >>= fun a => f a >>= g := by
  funext s
  simp only [bind]
  rcases x s with _ | ⟨e | a, s'⟩ <;> rfl

instance : LawfulMonad (Exec ε σ) :=
  LawfulMonad.mk' (Exec ε σ) bind_pure_self (fun _ _ => rfl) bind_bind

/-- Return an error, with the state as it is. -/
def throw (e : ε) : Exec ε σ α := fun s => some (.error e, s)

/-- Panic. -/
def abort : Exec ε σ α := fun _ => none

/-- Read the state. -/
def get : Exec ε σ σ := fun s => some (.ok s, s)

/-- Write the state. -/
def modify (f : σ → σ) : Exec ε σ Unit := fun s => some (.ok (), f s)

/-- The value of an operation that panics on `none`. -/
def ofOption (o : Option α) : Exec ε σ α := fun s => o.map fun a => (.ok a, s)

/-- The value of a call that leaves the state alone. -/
def ofResult (r : Except ε α) : Exec ε σ α := fun s => some (r, s)

/-- Run a call and hand its result, error or not, to what follows. -/
def attempt (x : Exec ε σ α) : Exec ε σ (Except ε α) := fun s => (x s).map fun p => (.ok p.1, p.2)

/-- Run a call on the part `view s` of the state, and put the part it leaves back. -/
def zoom (view : σ → τ) (put : τ → σ → σ) (x : Exec ε τ α) : Exec ε σ α := fun s =>
  (x (view s)).map fun p => (p.1, put p.2 s)

/-- The `for` loop over a list, left at the first error. -/
def forEach (f : β → Exec ε σ Unit) : List β → Exec ε σ Unit
  | [] => pure ()
  | b :: bs => do f b; forEach f bs

/-! ### Running a sequence forwards -/

@[simp] theorem pure_apply (a : α) (s : σ) : (pure a : Exec ε σ α) s = some (.ok a, s) := rfl

@[simp] theorem throw_apply (e : ε) (s : σ) :
    (throw e : Exec ε σ α) s = some (.error e, s) := rfl

@[simp] theorem abort_apply (s : σ) : (abort : Exec ε σ α) s = none := rfl

@[simp] theorem get_apply (s : σ) : (get : Exec ε σ σ) s = some (.ok s, s) := rfl

@[simp] theorem modify_apply (f : σ → σ) (s : σ) :
    (modify f : Exec ε σ Unit) s = some (.ok (), f s) := rfl

@[simp] theorem ofResult_apply (r : Except ε α) (s : σ) :
    (ofResult r : Exec ε σ α) s = some (r, s) := rfl

@[simp] theorem ofOption_some (a : α) (s : σ) :
    (ofOption (some a) : Exec ε σ α) s = some (.ok a, s) := rfl

@[simp] theorem ofOption_none (s : σ) : (ofOption none : Exec ε σ α) s = none := rfl

theorem bind_apply (x : Exec ε σ α) (f : α → Exec ε σ β) (s : σ) :
    (x >>= f) s = match x s with
      | none => none
      | some (.error e, s') => some (.error e, s')
      | some (.ok a, s') => f a s' := rfl

theorem bind_of_ok {x : Exec ε σ α} {f : α → Exec ε σ β} {s s' : σ} {a : α}
    (h : x s = some (.ok a, s')) : (x >>= f) s = f a s' := by
  rw [bind_apply, h]

theorem bind_of_error {x : Exec ε σ α} {f : α → Exec ε σ β} {s s' : σ} {e : ε}
    (h : x s = some (.error e, s')) : (x >>= f) s = some (.error e, s') := by
  rw [bind_apply, h]

theorem bind_of_none {x : Exec ε σ α} {f : α → Exec ε σ β} {s : σ} (h : x s = none) :
    (x >>= f) s = none := by
  rw [bind_apply, h]

/-! ### Reading a finished sequence back -/

theorem bind_eq_ok {x : Exec ε σ α} {f : α → Exec ε σ β} {s s'' : σ} {b : β} :
    (x >>= f) s = some (.ok b, s'') ↔
      ∃ a s', x s = some (.ok a, s') ∧ f a s' = some (.ok b, s'') := by
  constructor
  · intro h
    rw [bind_apply] at h
    rcases hx : x s with _ | ⟨e | a, s'⟩ <;> rw [hx] at h
    · cases h
    · cases h
    · exact ⟨a, s', rfl, h⟩
  · rintro ⟨a, s', hx, hf⟩
    rw [bind_of_ok hx, hf]

theorem bind_eq_error {x : Exec ε σ α} {f : α → Exec ε σ β} {s s'' : σ} {e : ε} :
    (x >>= f) s = some (.error e, s'') ↔
      x s = some (.error e, s'') ∨
        ∃ a s', x s = some (.ok a, s') ∧ f a s' = some (.error e, s'') := by
  constructor
  · intro h
    rw [bind_apply] at h
    rcases hx : x s with _ | ⟨e' | a, s'⟩ <;> rw [hx] at h
    · cases h
    · cases h; exact .inl rfl
    · exact .inr ⟨a, s', rfl, h⟩
  · rintro (hx | ⟨a, s', hx, hf⟩)
    · rw [bind_of_error hx]
    · rw [bind_of_ok hx, hf]

/-- Any finished sequence: its first part failed, or both parts ran. -/
theorem bind_eq_some {x : Exec ε σ α} {f : α → Exec ε σ β} {s s'' : σ} {r : Except ε β} :
    (x >>= f) s = some (r, s'') ↔
      (∃ e, r = .error e ∧ x s = some (.error e, s'')) ∨
        ∃ a s', x s = some (.ok a, s') ∧ f a s' = some (r, s'') := by
  cases r with
  | ok b => simp [bind_eq_ok]
  | error e => simp [bind_eq_error]

theorem ofOption_eq_some {o : Option α} {s s' : σ} {r : Except ε α} :
    (ofOption o : Exec ε σ α) s = some (r, s') ↔ ∃ a, o = some a ∧ r = .ok a ∧ s' = s := by
  cases o <;> simp [eq_comm]

theorem zoom_eq_some {view : σ → τ} {put : τ → σ → σ} {x : Exec ε τ α} {s s' : σ}
    {r : Except ε α} :
    zoom view put x s = some (r, s') ↔ ∃ t, x (view s) = some (r, t) ∧ s' = put t s := by
  unfold zoom
  rcases x (view s) with _ | ⟨r', t⟩
  · simp
  · simp only [Option.map_some, Option.some.injEq, Prod.mk.injEq]
    constructor
    · rintro ⟨rfl, rfl⟩; exact ⟨t, ⟨rfl, rfl⟩, rfl⟩
    · rintro ⟨t', ⟨rfl, rfl⟩, rfl⟩; exact ⟨rfl, rfl⟩

theorem zoom_of_some {view : σ → τ} {put : τ → σ → σ} {x : Exec ε τ α} {s : σ} {t : τ}
    {r : Except ε α} (h : x (view s) = some (r, t)) :
    zoom view put x s = some (r, put t s) := zoom_eq_some.mpr ⟨t, h, rfl⟩

theorem attempt_eq_some {x : Exec ε σ α} {s s' : σ} {r : Except ε (Except ε α)} :
    attempt x s = some (r, s') ↔ ∃ r', x s = some (r', s') ∧ r = .ok r' := by
  unfold attempt
  rcases x s with _ | ⟨r', t⟩
  · simp
  · simp only [Option.map_some, Option.some.injEq, Prod.mk.injEq]
    constructor
    · rintro ⟨rfl, rfl⟩
      exact ⟨r', ⟨rfl, rfl⟩, rfl⟩
    · rintro ⟨_, ⟨rfl, rfl⟩, rfl⟩
      exact ⟨rfl, rfl⟩

theorem attempt_of_some {x : Exec ε σ α} {s s' : σ} {r : Except ε α} (h : x s = some (r, s')) :
    attempt x s = some (.ok r, s') := attempt_eq_some.mpr ⟨r, h, rfl⟩

@[simp] theorem forEach_nil (f : β → Exec ε σ Unit) (s : σ) :
    forEach f [] s = some (.ok (), s) := rfl

theorem forEach_cons (f : β → Exec ε σ Unit) (b : β) (bs : List β) :
    forEach f (b :: bs) = (f b >>= fun _ => forEach f bs) := rfl

/-! ### Values -/

/-- Every value `x` returns satisfies `P`. -/
def Ensures (P : α → Prop) (x : Exec ε σ α) : Prop :=
  ∀ s a s', x s = some (.ok a, s') → P a

theorem Ensures.pure {P : α → Prop} {a : α} (h : P a) :
    Ensures P (Pure.pure a : Exec ε σ α) := by
  intro s b s' hx
  cases hx
  exact h

/-- The value of a sequence is the value of its last call. -/
theorem Ensures.bind {P : β → Prop} {x : Exec ε σ α} {f : α → Exec ε σ β}
    (h : ∀ a, Ensures P (f a)) : Ensures P (x >>= f) := by
  intro s b s'' hx
  obtain ⟨a, s', -, hf⟩ := bind_eq_ok.mp hx
  exact h a s' b s'' hf

/-! ### Other states -/

/-- In the state `g s` the call does what it does in `s`, and leaves `g` of the state. -/
def Through (g : σ → σ) (x : Exec ε σ α) (s : σ) : Prop :=
  x (g s) = (x s).map fun out => (out.1, g out.2)

theorem Through.bind {g : σ → σ} {x : Exec ε σ α} {f : α → Exec ε σ β} {s : σ}
    (hx : Through g x s) (hf : ∀ a s', x s = some (.ok a, s') → Through g (f a) s') :
    Through g (x >>= f) s := by
  unfold Through at hx ⊢
  cases hs : x s with
  | none =>
    rw [hs] at hx
    rw [bind_of_none hs, bind_of_none hx]
    rfl
  | some out =>
    obtain ⟨e | a, s'⟩ := out
    · rw [hs] at hx
      rw [bind_of_error hs, bind_of_error hx]
      rfl
    · rw [hs] at hx
      rw [bind_of_ok hs, bind_of_ok hx]
      exact hf a s' hs

/-- When the call succeeds in `s`, it does the same in `g s`, and leaves `g` of the state. -/
def Lifts (g : σ → σ) (x : Exec ε σ α) (s : σ) : Prop :=
  ∀ a s', x s = some (.ok a, s') → x (g s) = some (.ok a, g s')

theorem Through.lifts {g : σ → σ} {x : Exec ε σ α} {s : σ} (h : Through g x s) : Lifts g x s := by
  intro a s' hx
  rw [h, hx]
  rfl

theorem Lifts.bind {g : σ → σ} {x : Exec ε σ α} {f : α → Exec ε σ β} {s : σ}
    (hx : Lifts g x s) (hf : ∀ a s', x s = some (.ok a, s') → Lifts g (f a) s') :
    Lifts g (x >>= f) s := by
  intro b s'' h
  obtain ⟨a, s', ha, hb⟩ := bind_eq_ok.mp h
  rw [bind_of_ok (hx a s' ha)]
  exact hf a s' ha b s'' hb

theorem Lifts.pure {g : σ → σ} (a : α) (s : σ) : Lifts g (Pure.pure a : Exec ε σ α) s := by
  intro b s' h
  cases h
  rfl

theorem Lifts.throw {g : σ → σ} (e : ε) (s : σ) : Lifts g (Exec.throw e : Exec ε σ α) s := by
  intro a s' h
  cases h

theorem Lifts.modify {g f : σ → σ} {s : σ} (h : f (g s) = g (f s)) :
    Lifts g (Exec.modify f : Exec ε σ Unit) s := by
  intro u s' hs
  cases hs
  exact congrArg (fun t => some (Except.ok (), t)) h

/-- What the call reads of the state is the same in both. -/
theorem Lifts.get_bind {g : σ → σ} {F : σ → Exec ε σ α} {s : σ} (hF : F (g s) = F s)
    (h : Lifts g (F s) s) : Lifts g (get >>= F) s := by
  intro a s' hs
  rw [bind_of_ok (get_apply s)] at hs
  rw [bind_of_ok (get_apply (g s)), hF]
  exact h a s' hs

/-- A loop in which every round lifts. -/
theorem Lifts.forEach {g : σ → σ} {f : β → Exec ε σ Unit} {bs : List β}
    (hf : ∀ b s, Lifts g (f b) s) (s : σ) : Lifts g (forEach f bs) s := by
  induction bs generalizing s with
  | nil =>
    intro a s' h
    cases h
    rfl
  | cons b bs ih => exact (hf b s).bind fun _ s' _ => ih s'

theorem Lifts.zoom {g : σ → σ} {k : τ → τ} {view : σ → τ} {put : τ → σ → σ} {x : Exec ε τ α}
    {s : σ} (hview : view (g s) = k (view s)) (hput : ∀ t, put (k t) (g s) = g (put t s))
    (hx : Lifts k x (view s)) : Lifts g (zoom view put x) s := by
  intro a s' h
  obtain ⟨t, ht, rfl⟩ := zoom_eq_some.mp h
  rw [← hput t]
  refine zoom_of_some ?_
  rw [hview]
  exact hx a t ht

/-- A run of which the result and something of the state have been computed. -/
theorem ok_of_map {x : Exec ε σ α} {view : σ → β} {s : σ} {a : α} {b : β}
    (h : (x s).map (fun (r, s') => (r.toOption, view s')) = some (some a, b)) :
    ∃ s', x s = some (.ok a, s') ∧ view s' = b := by
  obtain ⟨⟨r, s'⟩, hrun, heq⟩ := Option.map_eq_some_iff.mp h
  obtain ⟨hok, hview⟩ := Prod.mk.inj heq
  cases r with
  | error e => cases hok
  | ok a' =>
    cases hok
    exact ⟨s', hrun, hview⟩

/-! ### Calls that return -/

/-- The call returns, with or without an error. -/
def Returns (x : Exec ε σ α) (s : σ) : Prop := ∃ r s', x s = some (r, s')

theorem Returns.bind {x : Exec ε σ α} {f : α → Exec ε σ β} {s : σ} (hx : Returns x s)
    (hf : ∀ a s', x s = some (.ok a, s') → Returns (f a) s') : Returns (x >>= f) s := by
  obtain ⟨r, s', hrun⟩ := hx
  cases r with
  | error e => exact ⟨.error e, s', bind_of_error hrun⟩
  | ok a =>
    obtain ⟨r, s'', hrest⟩ := hf a s' hrun
    exact ⟨r, s'', (bind_of_ok hrun).trans hrest⟩

theorem Returns.zoom {view : σ → τ} {put : τ → σ → σ} {x : Exec ε τ α} {s : σ}
    (hx : Returns x (view s)) : Returns (Exec.zoom view put x) s := by
  obtain ⟨r, t, hrun⟩ := hx
  exact ⟨r, put t s, zoom_of_some hrun⟩

/-! ### The frame rule -/

/-- Whatever the outcome of `x`, the states before and after it are related by `R`. -/
def Within (R : σ → σ → Prop) (x : Exec ε σ α) : Prop :=
  ∀ s r s', x s = some (r, s') → R s s'

section Within

variable {R : σ → σ → Prop}

theorem Within.of_unchanged (hrefl : ∀ s, R s s) {x : Exec ε σ α}
    (h : ∀ s r s', x s = some (r, s') → s' = s) : Within R x := by
  intro s r s' hx
  rw [h s r s' hx]
  exact hrefl s

theorem Within.bind (htrans : ∀ a b c, R a b → R b c → R a c) {x : Exec ε σ α}
    {f : α → Exec ε σ β} (hx : Within R x) (hf : ∀ a, Within R (f a)) :
    Within R (x >>= f) := by
  intro s r s'' h
  rcases bind_eq_some.mp h with ⟨e, -, he⟩ | ⟨a, s', ha, hb⟩
  · exact hx s _ s'' he
  · exact htrans _ _ _ (hx s _ s' ha) (hf a s' r s'' hb)

/-- A loop whose body keeps `R` keeps `R`, at whichever element it is left. -/
theorem Within.forEach (hrefl : ∀ s, R s s) (htrans : ∀ a b c, R a b → R b c → R a c)
    {f : β → Exec ε σ Unit} {bs : List β} (hf : ∀ b ∈ bs, Within R (f b)) :
    Within R (forEach f bs) := by
  induction bs with
  | nil =>
    intro s r s' h
    cases h
    exact hrefl s
  | cons b bs ih =>
    rw [forEach_cons]
    exact Within.bind htrans (hf b (List.mem_cons_self ..))
      (fun _ => ih fun c hc => hf c (List.mem_cons_of_mem _ hc))

end Within

end Exec
