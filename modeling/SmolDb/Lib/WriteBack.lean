import Mathlib.Data.Nat.Notation
import Mathlib.Logic.Relation

/-!
# One page of a write-back cache

What a write-back cache does to a single page, seen from the page: `Line` is what the cache and
the store have of it, and `Move` is one step of the cache's own work on it. A page is flushed, and
is dropped when it is clean and not pinned; a write can be torn when the device is faulty; and the
store can grow over a place where nothing was ever written. Loading a page is not the cache's own
work but a caller's request (`Line.loaded`).

A line `Holds` a content when the content is cached, or stored and not cached, and a clean copy
in the cache agrees with the store. This is what every move keeps, and with it the content. A
page without it, cached and clean but never written, is `Fleeting`: it lasts until it is dropped.
-/

namespace WriteBack

variable {C : Type*}

/-- A page: the copy in the cache (its frame, its content, whether it is dirty), what the store
gives back for it, and whether its place in the store was never written. -/
structure Line (C : Type*) where
  cached : Option (ℕ × C × Bool)
  stored : Option C
  blank : Prop

/-- What a request for the page gives: the cached copy, else the stored one. -/
def Line.shows (v : Line C) : Option C :=
  match v.cached with
  | some (_, c, _) => some c
  | none => v.stored

/-- The line after its page was loaded into the frame `f`. -/
def Line.loaded (v : Line C) (f : ℕ) (c : C) : Line C := { v with cached := some (f, c, false) }

section

variable (Storable : C → Prop) (pinned : ℕ → Prop) (faulty : Prop)

/-- One step of the cache. `Storable` contents survive being written. -/
inductive Move : Line C → Line C → Prop
  | flush {f : ℕ} {c : C} {s s' : Option C} {b b' : Prop} (hs : Storable c → s' = some c) :
      Move ⟨some (f, c, true), s, b⟩ ⟨some (f, c, false), s', b'⟩
  | tear {f : ℕ} {c : C} {s s' : Option C} {b b' : Prop} (hf : faulty) :
      Move ⟨some (f, c, true), s, b⟩ ⟨some (f, c, true), s', b'⟩
  | drop {f : ℕ} {c : C} {s : Option C} {b : Prop} (hf : ¬ pinned f) :
      Move ⟨some (f, c, false), s, b⟩ ⟨none, s, b⟩
  | extend {x : Option (ℕ × C × Bool)} {s s' : Option C} {b b' : Prop}
      (hs : ∀ c, s = some c → s' = some c) (hb : b → b') :
      Move ⟨x, s, b⟩ ⟨x, s', b'⟩

/-- One step of a cache that serves requests: a move, or the page is loaded. -/
inductive Serve : Line C → Line C → Prop
  | move {v w : Line C} (h : Move Storable pinned faulty v w) : Serve v w
  | load {v : Line C} {c : C} (f : ℕ) (hnone : v.cached = none) (hc : v.stored = some c) :
      Serve v (v.loaded f c)

/-- The cache did nothing to the line; at most the store grew over it. -/
structure Extended (v w : Line C) : Prop where
  cached : w.cached = v.cached
  stored : ∀ c, v.stored = some c → w.stored = some c
  blank : v.blank → w.blank

/-- Any number of moves. -/
def Moves : Line C → Line C → Prop := Relation.ReflTransGen (Move Storable pinned faulty)

/-- Any number of steps. -/
def Serves : Line C → Line C → Prop := Relation.ReflTransGen (Serve Storable pinned faulty)

/-- The line has the content `c`, and has it in the store unless its copy is dirty. -/
def Holds (c : C) (v : Line C) : Prop :=
  Storable c ∧
    ((∃ f, v.cached = some (f, c, true)) ∨
      v.stored = some c ∧ ∀ f c' d, v.cached = some (f, c', d) → c' = c ∧ d = false)

/-- The line has the content `c` in a clean copy only, or has lost it. -/
def Fleeting (c : C) (v : Line C) : Prop :=
  v.blank ∧ ∀ f c' d, v.cached = some (f, c', d) → c' = c ∧ d = false

/-- A copy of the line has the content `c`. -/
def Copied (c : C) (v : Line C) : Prop := ∀ f c' d, v.cached = some (f, c', d) → c' = c

/-- The line was never written: a copy of it is clean, and is the content `c` that it was made with
or what the store has in the unwritten place. -/
def Unwritten (c : C) (v : Line C) : Prop :=
  v.blank ∧ ∀ f c' d, v.cached = some (f, c', d) → d = false ∧ (c' = c ∨ v.stored = some c')

/-- What the store has of the line is as `S` says; or its place was never written, and `Q`. -/
def Traced (Q : Prop) (S : C → Prop) (v : Line C) : Prop :=
  v.blank ∧ Q ∨ ∃ s, v.stored = some s ∧ S s

/-- The line is cached in the frame `f`, with the content `c`, and dirty only if it was. -/
def Resident (f : ℕ) (c : C) (dirty : Bool) (v : Line C) : Prop :=
  ∃ d, v.cached = some (f, c, d) ∧ (d = true → dirty = true)

end

variable {Storable : C → Prop} {pinned : ℕ → Prop} {faulty : Prop}

/-- A property every move keeps is kept by any number of them. -/
theorem Moves.keep {P : Line C → Prop}
    (hmove : ∀ v w, Move Storable pinned faulty v w → P v → P w) {v w : Line C}
    (h : Moves Storable pinned faulty v w) (hv : P v) : P w := by
  induction h with
  | refl => exact hv
  | tail _ hstep ih => exact hmove _ _ hstep ih

theorem Moves.refl (v : Line C) : Moves Storable pinned faulty v v :=
  Relation.ReflTransGen.refl

theorem Moves.trans {u v w : Line C} (h : Moves Storable pinned faulty u v)
    (h' : Moves Storable pinned faulty v w) : Moves Storable pinned faulty u w :=
  Relation.ReflTransGen.trans h h'

theorem Extended.refl (v : Line C) : Extended v v := ⟨rfl, fun _ h => h, id⟩

theorem Extended.trans {u v w : Line C} (h : Extended u v) (h' : Extended v w) :
    Extended u w :=
  ⟨h'.cached.trans h.cached, fun c hc => h'.stored c (h.stored c hc), h'.blank ∘ h.blank⟩

theorem Extended.moves {v w : Line C} (h : Extended v w) :
    Moves Storable pinned faulty v w := by
  have hw : w = ⟨v.cached, w.stored, w.blank⟩ := by
    rw [← h.cached]
  rw [hw]
  exact Relation.ReflTransGen.single (.extend h.stored h.blank)

theorem Move.moves {v w : Line C} (h : Move Storable pinned faulty v w) :
    Moves Storable pinned faulty v w := Relation.ReflTransGen.single h

/-- More pins and a device with faults allow no more and no fewer moves than they should: a move
under stronger conditions is a move under weaker ones. -/
theorem Move.mono {pinned' : ℕ → Prop} {faulty' : Prop} (hp : ∀ f, pinned' f → pinned f)
    (hf : faulty → faulty') {v w : Line C} (h : Move Storable pinned faulty v w) :
    Move Storable pinned' faulty' v w := by
  cases h with
  | flush hs => exact .flush hs
  | tear h => exact .tear (hf h)
  | drop h => exact .drop fun hpin => h (hp _ hpin)
  | extend hs hb => exact .extend hs hb

theorem Moves.mono {pinned' : ℕ → Prop} {faulty' : Prop} (hp : ∀ f, pinned' f → pinned f)
    (hf : faulty → faulty') {v w : Line C} (h : Moves Storable pinned faulty v w) :
    Moves Storable pinned' faulty' v w :=
  Relation.ReflTransGen.mono (fun _ _ hm => Move.mono hp hf hm) _ _ h

/-- **A held content stays.** -/
theorem Holds.moves {c : C} {v w : Line C} (hfaulty : ¬ faulty)
    (h : Moves Storable pinned faulty v w) (hv : Holds Storable c v) :
    Holds Storable c w := by
  -- a move keeps the content, or is the tear that no fault allows
  refine h.keep (fun v w hmove ⟨hc, hv⟩ => ⟨hc, ?_⟩) hv
  cases hmove with
  | flush hs =>
    rcases hv with ⟨f, hf⟩ | ⟨-, hcache⟩
    · cases hf
      exact .inr ⟨hs hc, fun _ _ _ heq => by cases heq; exact ⟨rfl, rfl⟩⟩
    · exact absurd (hcache _ _ _ rfl).2 nofun
  | tear hf => exact absurd hf hfaulty
  | drop =>
    rcases hv with ⟨f, hf⟩ | ⟨hs, -⟩
    · cases hf
    · exact .inr ⟨hs, fun _ _ _ heq => nomatch heq⟩
  | extend hs =>
    rcases hv with hdirty | ⟨hst, hcache⟩
    · exact .inl hdirty
    · exact .inr ⟨hs _ hst, hcache⟩

/-- What the store has is what it had, or the content. -/
theorem Holds.traced_moves {c : C} {Q : Prop} {S : C → Prop} {v w : Line C} (hfaulty : ¬ faulty)
    (hS : S c) (h : Moves Storable pinned faulty v w) (hv : Holds Storable c v)
    (htraced : Traced Q S v) : Traced Q S w := by
  refine (h.keep (P := fun u => Holds Storable c u ∧ Traced Q S u) ?_ ⟨hv, htraced⟩).2
  rintro u w hmove ⟨hu, htraced⟩
  refine ⟨Holds.moves hfaulty hmove.moves hu, ?_⟩
  cases hmove with
  | flush hst =>
    -- only the content is written
    rcases hu.2 with ⟨f, hf⟩ | ⟨-, hcache⟩
    · cases hf
      exact .inr ⟨c, hst hu.1, hS⟩
    · exact absurd (hcache _ _ _ rfl).2 nofun
  | tear hf => exact absurd hf hfaulty
  | drop => exact htraced
  | extend hst hext =>
    obtain ⟨hb, hQ⟩ | ⟨s, hus, hs⟩ := htraced
    · exact .inl ⟨hext hb, hQ⟩
    · exact .inr ⟨s, hst _ hus, hs⟩

/-- Loading a page whose content is held brings its content into the cache. -/
theorem Holds.loaded {c c' : C} {v : Line C} (hv : Holds Storable c v) (hnone : v.cached = none)
    (hc' : v.stored = some c') (f : ℕ) : c' = c ∧ Holds Storable c (v.loaded f c') := by
  obtain ⟨hc, ⟨f', hf'⟩ | ⟨hs, -⟩⟩ := hv
  · rw [hnone] at hf'
    cases hf'
  · rw [hs, Option.some.injEq] at hc'
    subst hc'
    exact ⟨rfl, hc, .inr ⟨hs, fun _ _ _ heq => by cases heq; exact ⟨rfl, rfl⟩⟩⟩

/-! ### Serving requests -/

theorem Serves.refl (v : Line C) : Serves Storable pinned faulty v v :=
  Relation.ReflTransGen.refl

theorem Serves.trans {u v w : Line C} (h : Serves Storable pinned faulty u v)
    (h' : Serves Storable pinned faulty v w) : Serves Storable pinned faulty u w :=
  Relation.ReflTransGen.trans h h'

theorem Moves.serves {v w : Line C} (h : Moves Storable pinned faulty v w) :
    Serves Storable pinned faulty v w :=
  Relation.ReflTransGen.mono (fun _ _ hm => .move hm) _ _ h

theorem Serve.serves {v w : Line C} (h : Serve Storable pinned faulty v w) :
    Serves Storable pinned faulty v w := Relation.ReflTransGen.single h

theorem Serves.mono {pinned' : ℕ → Prop} {faulty' : Prop} (hp : ∀ f, pinned' f → pinned f)
    (hf : faulty → faulty') {v w : Line C} (h : Serves Storable pinned faulty v w) :
    Serves Storable pinned' faulty' v w := by
  refine Relation.ReflTransGen.mono ?_ _ _ h
  rintro v w (hm | ⟨f, hnone, hc⟩)
  · exact .move (hm.mono hp hf)
  · exact .load f hnone hc

/-- **A held content stays**, also when the page is loaded again. -/
theorem Holds.serves {c : C} {v w : Line C} (hfaulty : ¬ faulty)
    (h : Serves Storable pinned faulty v w) (hv : Holds Storable c v) :
    Holds Storable c w := by
  induction h with
  | refl => exact hv
  | tail _ hstep ih =>
    cases hstep with
    | move hm => exact ih.moves hfaulty hm.moves
    | load f hnone hc => exact (ih.loaded hnone hc f).2

/-- What the store has of a held content is what it had, or the content. -/
theorem Holds.traced_serves {c : C} {Q : Prop} {S : C → Prop} {v w : Line C} (hfaulty : ¬ faulty)
    (hS : S c) (h : Serves Storable pinned faulty v w) (hv : Holds Storable c v)
    (htraced : Traced Q S v) : Traced Q S w := by
  induction h with
  | refl => exact htraced
  | tail hrun hstep ih =>
    cases hstep with
    | move hm => exact (hv.serves hfaulty hrun).traced_moves hfaulty hS hm.moves ih
    | load f hnone hc => exact ih

theorem Holds.stored_serves {c : C} {S : C → Prop} {v w : Line C} (hfaulty : ¬ faulty) (hS : S c)
    (h : Serves Storable pinned faulty v w) (hv : Holds Storable c v)
    (hstored : ∃ s, v.stored = some s ∧ S s) : ∃ s, w.stored = some s ∧ S s :=
  (hv.traced_serves (Q := False) hfaulty hS h (.inr hstored)).resolve_left And.right

theorem Traced.mono {Q Q' : Prop} {S S' : C → Prop} {v : Line C} (h : Traced Q S v)
    (hQ : Q → Q') (hS : ∀ s, S s → S' s) : Traced Q' S' v := by
  obtain ⟨hb, hq⟩ | ⟨s, hstored, hs⟩ := h
  · exact .inl ⟨hb, hQ hq⟩
  · exact .inr ⟨s, hstored, hS s hs⟩

/-- A held content is what the line shows. -/
theorem Holds.shows {c : C} {v : Line C} (hv : Holds Storable c v) : v.shows = some c := by
  obtain ⟨-, ⟨f, hf⟩ | ⟨hstored, hclean⟩⟩ := hv
  · rw [Line.shows, hf]
  · cases hcached : v.cached with
    | none => rw [Line.shows, hcached, hstored]
    | some copy =>
      obtain ⟨f, c', d⟩ := copy
      rw [Line.shows, hcached, (hclean f c' d hcached).1]

/-- A held content that is cached is what the cache has. -/
theorem Holds.eq_of_cached {c c' : C} {v : Line C} (hv : Holds Storable c v) {f : ℕ} {d : Bool}
    (hcached : v.cached = some (f, c', d)) : c' = c := by
  obtain ⟨-, ⟨f', hf'⟩ | ⟨-, hclean⟩⟩ := hv
  · rw [hcached] at hf'
    cases hf'
    rfl
  · exact (hclean _ _ _ hcached).1

/-- A fleeting page is never written. -/
theorem Fleeting.moves {c : C} {v w : Line C} (h : Moves Storable pinned faulty v w)
    (hv : Fleeting c v) : Fleeting c w := by
  refine h.keep (fun v w hmove ⟨hb, hv⟩ => ?_) hv
  cases hmove with
  | flush => exact absurd (hv _ _ _ rfl).2 nofun
  | tear => exact absurd (hv _ _ _ rfl).2 nofun
  | drop => exact ⟨hb, fun _ _ _ heq => nomatch heq⟩
  | extend _ hext => exact ⟨hext hb, hv⟩

/-- An unwritten page stays unwritten, however often it is dropped and loaded. -/
theorem Unwritten.serves {c : C} {v w : Line C} (h : Serves Storable pinned faulty v w)
    (hv : Unwritten c v) : Unwritten c w := by
  induction h with
  | refl => exact hv
  | tail _ hstep ih =>
    obtain ⟨hb, hcopy⟩ := ih
    cases hstep with
    | move hm =>
      cases hm with
      | flush => exact absurd (hcopy _ _ _ rfl).1 nofun
      | tear => exact absurd (hcopy _ _ _ rfl).1 nofun
      | drop => exact ⟨hb, fun _ _ _ heq => nomatch heq⟩
      | extend hs hext =>
        -- what the store had it still has
        refine ⟨hext hb, fun f c' d hcached => ?_⟩
        obtain ⟨hclean, hmade | hstored⟩ := hcopy f c' d hcached
        · exact ⟨hclean, .inl hmade⟩
        · exact ⟨hclean, .inr (hs c' hstored)⟩
    | load f hnone hc =>
      refine ⟨hb, fun f' c' d hcached => ?_⟩
      cases hcached
      exact ⟨rfl, .inr hc⟩

theorem Fleeting.unwritten {c : C} {v : Line C} (h : Fleeting c v) : Unwritten c v :=
  ⟨h.1, fun f c' d hcached => ⟨(h.2 f c' d hcached).2, .inl (h.2 f c' d hcached).1⟩⟩

/-- What a line shows is in its copy, if there is one. -/
theorem Line.copied_of_shows {c : C} {v : Line C} (h : v.shows = some c) : Copied c v := by
  intro f c' d hcached
  rw [Line.shows, hcached] at h
  exact Option.some.inj h

theorem Copied.shows {c : C} {v : Line C} (h : Copied c v) (hcached : v.cached ≠ none) :
    v.shows = some c := by
  obtain ⟨⟨f, c', d⟩, hcopy⟩ := Option.ne_none_iff_exists'.mp hcached
  rw [Line.shows, hcopy, h f c' d hcopy]

/-- No move changes what is in a copy. -/
theorem Copied.moves {c : C} {v w : Line C} (h : Moves Storable pinned faulty v w)
    (hv : Copied c v) : Copied c w := by
  refine h.keep (fun v w hmove hv => ?_) hv
  intro f c' d hcached
  cases hmove with
  | flush =>
    cases hcached
    exact hv _ _ _ rfl
  | tear => exact hv f c' d hcached
  | drop => cases hcached
  | extend => exact hv f c' d hcached

/-- A page that is not cached is not brought into the cache. -/
theorem Moves.not_cached {v w : Line C} (h : Moves Storable pinned faulty v w)
    (hv : v.cached = none) : w.cached = none := by
  refine h.keep (P := fun u => u.cached = none) (fun v w hmove hv => ?_) hv
  cases hmove with
  | flush => cases hv
  | tear => cases hv
  | drop => rfl
  | extend => exact hv

/-- The moves of a page that is not cached only extend the store. -/
theorem Moves.extended {v w : Line C} (h : Moves Storable pinned faulty v w)
    (hv : v.cached = none) : Extended v w := by
  induction h with
  | refl => exact .refl v
  | tail hrun hstep ih =>
    have hnone := Moves.not_cached hrun hv
    cases hstep with
    | flush => cases hnone
    | tear => cases hnone
    | drop => cases hnone
    | extend hs hb => exact ih.trans ⟨rfl, hs, hb⟩

/-- No move changes the content of the cached copy. -/
theorem Moves.cached_of {v w : Line C} (h : Moves Storable pinned faulty v w) {f : ℕ} {c : C}
    {d : Bool} (hw : w.cached = some (f, c, d)) : ∃ d', v.cached = some (f, c, d') := by
  induction h generalizing d with
  | refl => exact ⟨d, hw⟩
  | tail _ hstep ih =>
    cases hstep with
    | flush =>
      cases hw
      exact ih rfl
    | tear => exact ih hw
    | drop => cases hw
    | extend => exact ih hw

/-- A clean page is not made dirty. -/
theorem Moves.clean {v w : Line C} (h : Moves Storable pinned faulty v w)
    (hv : ∀ f c d, v.cached = some (f, c, d) → d = false) :
    ∀ f c d, w.cached = some (f, c, d) → d = false := by
  refine h.keep (P := fun u => ∀ f c d, u.cached = some (f, c, d) → d = false)
    (fun v w hmove hv => ?_) hv
  cases hmove with
  | flush => exact fun _ _ _ heq => by cases heq; rfl
  | tear => exact hv
  | drop => exact fun _ _ _ heq => nomatch heq
  | extend => exact hv

/-- A pinned page stays where it is. -/
theorem Resident.moves {f : ℕ} {c : C} {dirty : Bool} {v w : Line C} (hpin : pinned f)
    (h : Moves Storable pinned faulty v w) (hv : Resident f c dirty v) :
    Resident f c dirty w := by
  refine h.keep (fun v w hmove hv => ?_) hv
  obtain ⟨d, hcached, hd⟩ := hv
  cases hmove with
  | flush =>
    cases hcached
    exact ⟨false, rfl, nofun⟩
  | tear => exact ⟨d, hcached, hd⟩
  | drop hno =>
    cases hcached
    exact absurd hpin hno
  | extend => exact ⟨d, hcached, hd⟩

/-- A pinned page stays where it is, also when requests are served. -/
theorem Resident.serves {f : ℕ} {c : C} {dirty : Bool} {v w : Line C} (hpin : pinned f)
    (h : Serves Storable pinned faulty v w) (hv : Resident f c dirty v) :
    Resident f c dirty w := by
  induction h with
  | refl => exact hv
  | tail _ hstep ih =>
    cases hstep with
    | move hm => exact ih.moves hpin hm.moves
    | load f' hnone hc =>
      -- a page that is cached is not loaded
      obtain ⟨d, hcached, -⟩ := ih
      rw [hnone] at hcached
      cases hcached

end WriteBack
