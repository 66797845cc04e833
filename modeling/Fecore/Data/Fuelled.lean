import Mathlib.Tactic.Common

set_option relaxedAutoImplicit false
set_option autoImplicit false

/-!
# Calls on stacks of every height

A recursive call is given on a stack of each height, and has no end where the stack is too small for
it. When a higher stack never changes how it ends, it ends in at most one way, and two calls one
after the other end as the second one does after the first.

## Main definitions

* `Fuelled.Monotone` — a call that ends on a stack ends the same on a higher one.
* `Fuelled.Ends` — how a call ends on the stacks that are high enough.

## Main results

* `Fuelled.run_bind_eq_some` — how two calls, one after the other, end on one stack.
* `Fuelled.Ends.unique` — there is one end.
* `Fuelled.Ends.bind`, `Fuelled.Ends.bind_error` — the rules for two calls, one after the other.
-/

namespace Fuelled

variable {ε α β : Type}

/-- A call that ends on a stack ends the same on a higher one. -/
def Monotone (call : ℕ → ExceptT ε Option α) : Prop :=
  ∀ depth res, (call depth).run = some res → (call (depth + 1)).run = some res

/-- The call ends this way, on a stack that is high enough. -/
def Ends (call : ℕ → ExceptT ε Option α) (res : Except ε α) : Prop :=
  ∃ depth, (call depth).run = some res

/-- Two calls, one after the other, end as the second one does, or as the first one does with an
error. -/
lemma run_bind_eq_some {x : ExceptT ε Option α} {f : α → ExceptT ε Option β} {res : Except ε β} :
    (x >>= f).run = some res ↔
      (∃ a, x.run = some (.ok a) ∧ (f a).run = some res) ∨
        ∃ e, x.run = some (.error e) ∧ res = .error e := by
  rw [ExceptT.run_bind, Option.bind_eq_bind, Option.bind_eq_some_iff]
  constructor
  · rintro ⟨r, hr, hres⟩
    cases r with
    | ok a => exact .inl ⟨a, hr, hres⟩
    | error e => exact .inr ⟨e, hr, (Option.some.inj hres).symm⟩
  · rintro (⟨a, ha, hres⟩ | ⟨e, he, rfl⟩)
    · exact ⟨_, ha, hres⟩
    · exact ⟨_, he, rfl⟩

/-- Where the first call needs more stack, so do both. -/
lemma run_bind_eq_none {x : ExceptT ε Option α} (f : α → ExceptT ε Option β)
    (h : x.run = none) : (x >>= f).run = none := by
  rw [ExceptT.run_bind, h]
  rfl

section Monotone

variable {call : ℕ → ExceptT ε Option α}

/-- What a call returns on some stack it returns on every higher one. -/
lemma Monotone.run_of_le (h : Monotone call) {depth depth' : ℕ} (hle : depth ≤ depth')
    {res : Except ε α} (hres : (call depth).run = some res) : (call depth').run = some res := by
  induction hle with
  | refl => exact hres
  | step _ ih => exact h _ res ih

/-- A call ends in one way. -/
lemma Ends.run_eq (h : Monotone call) {res res' : Except ε α} (hends : Ends call res) {depth : ℕ}
    (hres : (call depth).run = some res') : res' = res := by
  obtain ⟨depth', hres'⟩ := hends
  have hmax := h.run_of_le (Nat.le_max_left depth depth') hres
  exact Option.some.inj (hmax.symm.trans (h.run_of_le (Nat.le_max_right depth depth') hres'))

/-- A call ends in one way on all stacks. -/
lemma Ends.unique (h : Monotone call) {res res' : Except ε α} (hres : Ends call res)
    (hres' : Ends call res') : res' = res := by
  obtain ⟨depth, hrun⟩ := hres'
  exact hres.run_eq h hrun

/-- A call that ends, ends so on a stack that is as high as another one. -/
lemma Ends.exists_ge (h : Monotone call) {res : Except ε α} (hends : Ends call res) (depth : ℕ) :
    ∃ depth', depth ≤ depth' ∧ (call depth').run = some res := by
  obtain ⟨depth', hres⟩ := hends
  exact ⟨max depth depth', Nat.le_max_left .., h.run_of_le (Nat.le_max_right ..) hres⟩

/-- A call that needs no stack is monotone. -/
lemma monotone_const (x : ExceptT ε Option α) : Monotone fun _ => x := fun _ _ h => h

/-- A value is returned on every stack. -/
lemma ends_pure (a : α) : Ends (fun _ => (pure a : ExceptT ε Option α)) (.ok a) := ⟨0, rfl⟩

variable {next : ℕ → α → ExceptT ε Option β}

/-- One call after another is monotone when both are. -/
lemma Monotone.bind (h : Monotone call) (hnext : ∀ a, Monotone fun depth => next depth a) :
    Monotone fun depth => call depth >>= next depth := by
  intro depth res hres
  rcases run_bind_eq_some.mp hres with ⟨a, ha, hres⟩ | ⟨e, he, rfl⟩
  · exact run_bind_eq_some.mpr (.inl ⟨a, h depth _ ha, hnext a depth res hres⟩)
  · exact run_bind_eq_some.mpr (.inr ⟨e, h depth _ he, rfl⟩)

/-- **The rule for two calls, one after the other.** -/
theorem Ends.bind (h : Monotone call) (hnext : ∀ a, Monotone fun depth => next depth a) {a : α}
    {res : Except ε β} (hfirst : Ends call (.ok a))
    (hsecond : Ends (fun depth => next depth a) res) :
    Ends (fun depth => call depth >>= next depth) res := by
  obtain ⟨depth, ha⟩ := hfirst
  obtain ⟨depth', hle, hres⟩ := hsecond.exists_ge (hnext a) depth
  exact ⟨depth', run_bind_eq_some.mpr (.inl ⟨a, h.run_of_le hle ha, hres⟩)⟩

/-- **The rule for a first call that fails.** -/
theorem Ends.bind_error {e : ε} (hfirst : Ends call (.error e)) :
    Ends (fun depth => call depth >>= next depth) (.error e) := by
  obtain ⟨depth, he⟩ := hfirst
  exact ⟨depth, run_bind_eq_some.mpr (.inr ⟨e, he, rfl⟩)⟩

end Monotone

section Loop

variable {f : ℕ → β → α → ExceptT ε Option β}

/-- A loop is monotone when its body is. -/
lemma Monotone.foldlM (h : ∀ b a, Monotone fun depth => f depth b a) (l : List α) (b : β) :
    Monotone fun depth => l.foldlM (f depth) b := by
  induction l generalizing b with
  | nil => exact monotone_const _
  | cons a l ih => exact (h b a).bind ih

/-- A loop in two parts. -/
lemma Ends.foldlM_append (h : ∀ b a, Monotone fun depth => f depth b a) {l k : List α} {b b' : β}
    {res : Except ε β} (hfirst : Ends (fun depth => l.foldlM (f depth) b) (.ok b'))
    (hsecond : Ends (fun depth => k.foldlM (f depth) b') res) :
    Ends (fun depth => (l ++ k).foldlM (f depth) b) res := by
  simp only [List.foldlM_append]
  exact hfirst.bind (Monotone.foldlM h l b) (Monotone.foldlM h k) hsecond

/-- A loop whose first part has ended goes on with the second one. -/
lemma run_foldlM_append (h : ∀ b a, Monotone fun depth => f depth b a) {l l' : List α} {b b' : β}
    (hfirst : Ends (fun depth => l.foldlM (f depth) b) (.ok b')) {depth : ℕ} {res : Except ε β}
    (hres : ((l ++ l').foldlM (f depth) b).run = some res) :
    (l'.foldlM (f depth) b').run = some res := by
  rw [List.foldlM_append] at hres
  rcases run_bind_eq_some.mp hres with ⟨b₁, hb, hres⟩ | ⟨e, he, -⟩
  · cases hfirst.run_eq (Monotone.foldlM h l b) hb
    exact hres
  · cases hfirst.run_eq (Monotone.foldlM h l b) he

end Loop

end Fuelled
