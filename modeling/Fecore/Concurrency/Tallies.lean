import Mathlib.Algebra.Order.Group.Multiset
import Mathlib.Algebra.Order.Monoid.Defs
import Mathlib.Tactic.Abel
import Fecore.Concurrency.Runs

set_option relaxedAutoImplicit false
set_option autoImplicit false

/-!
# What a run adds up to

A tally counts something at every step of a run: how often a loop turns, or which items a queue
loses. When every step pays for what it counts out of a measure of the state, so does every run.

## Main definitions

* `Runs.tally` — the sum over the steps of a run.

## Main results

* `Runs.tally_add_le` — a bound on one step bounds the run; the measure is what is left.
* `Runs.tally_add_eq` — an equation for one step gives the equation for the run.
* `Runs.tally_le_highWater` — the level of a measure bounds what a run counts, up to its losses.
* `Runs.forall_mem_tally` — what holds of everything that a step counts.
* `Runs.Along.of_append` — a condition met along a run is met along its end.
-/

namespace Runs

variable {σ ε M : Type*} {step : σ → ε → Option σ}

/-- The condition is met along the end of a run. -/
lemma Along.of_append {ok : σ → ε → Prop} {s s' : σ} {es es' : List ε}
    (h : Along step ok s (es ++ es')) (hr : run step s es = some s') : Along step ok s' es' := by
  induction es generalizing s with
  | nil =>
    obtain rfl : s = s' := by simpa using hr
    exact h
  | cons e es ih =>
    obtain ⟨s₁, h₁, hr⟩ := run_cons_eq_some.mp hr
    exact ih (h s₁ h₁).2 hr

/-- The condition is met along the beginning of a run. -/
lemma Along.left {ok : σ → ε → Prop} {s : σ} {es es' : List ε}
    (h : Along step ok s (es ++ es')) : Along step ok s es := by
  induction es generalizing s with
  | nil => trivial
  | cons e es ih => exact fun s' hs' => ⟨(h s' hs').1, ih (h s' hs').2⟩

section Tally

variable [AddCommMonoid M]

variable (step) in
/-- The sum of what the steps of a run count, up to an event that is not enabled. -/
def tally (f : σ → ε → M) : σ → List ε → M
  | _, [] => 0
  | s, e :: es =>
    match step s e with
    | none => 0
    | some s' => f s e + tally f s' es

/-- No event counts nothing. -/
@[simp] lemma tally_nil (f : σ → ε → M) (s : σ) : tally step f s [] = 0 := rfl

/-- A run counts its first event and what the rest counts. -/
lemma tally_cons_of_some (f : σ → ε → M) {s s' : σ} {e : ε} (es : List ε)
    (h : step s e = some s') : tally step f s (e :: es) = f s e + tally step f s' es := by
  rw [tally, h]

/-- Nothing is counted from an event on that cannot happen. -/
lemma tally_cons_of_none (f : σ → ε → M) {s : σ} {e : ε} (es : List ε) (h : step s e = none) :
    tally step f s (e :: es) = 0 := by
  rw [tally, h]

/-- What a run in two parts adds up to. -/
lemma tally_append {f : σ → ε → M} {s s' : σ} {es es' : List ε} (hr : run step s es = some s') :
    tally step f s (es ++ es') = tally step f s es + tally step f s' es' := by
  induction es generalizing s with
  | nil =>
    obtain rfl := Option.some.inj hr
    rw [List.nil_append, tally_nil, zero_add]
  | cons e es ih =>
    obtain ⟨s₁, h₁, hr⟩ := run_cons_eq_some.mp hr
    rw [List.cons_append, tally_cons_of_some f _ h₁, tally_cons_of_some f _ h₁, ih hr, add_assoc]

/-- A tally of nothings is nothing. -/
@[simp] lemma tally_zero : ∀ (s : σ) (es : List ε), tally step (fun _ _ => (0 : M)) s es = 0
  | _, [] => rfl
  | s, e :: es => by
    cases h : step s e with
    | none => rw [tally_cons_of_none _ es h]
    | some s' => rw [tally_cons_of_some _ es h, tally_zero, add_zero]

/-- **The tally rule.** When every step pays for what it counts out of a measure, or out of what it
earns, then so does a run; what is left of the measure is that of the last state.

**Proof sketch.** Induct on the events. A refused step ends the run and counts nothing; one that is
taken pays for what it counts, and the two inequalities add up. -/
theorem tally_add_le [PartialOrder M] [IsOrderedAddMonoid M] {I : σ → Prop} {ok : σ → ε → Prop}
    {μ : σ → M} {f g : σ → ε → M}
    (hinv : ∀ s e s', I s → ok s e → step s e = some s' → I s')
    (hstep : ∀ s e s', I s → ok s e → step s e = some s' → μ s' + f s e ≤ μ s + g s e) :
    ∀ {s : σ} {es : List ε}, I s → Along step ok s es →
      ∃ s', I s' ∧ (∀ s'', run step s es = some s'' → s'' = s') ∧
        μ s' + tally step f s es ≤ μ s + tally step g s es
  | s, [], hI, _ => ⟨s, hI, fun s'' h => (Option.some.inj h).symm, le_rfl⟩
  | s, e :: es, hI, hal => by
    cases h : step s e with
    | none =>
      refine ⟨s, hI, fun s'' hr => ?_, ?_⟩
      · rw [run_cons, h] at hr
        cases hr
      · rw [tally_cons_of_none f es h, tally_cons_of_none g es h]
    | some s₁ =>
      obtain ⟨hok, hal⟩ := hal s₁ h
      obtain ⟨s', hI', hlast, hle⟩ := tally_add_le hinv hstep (hinv s e s₁ hI hok h) hal
      refine ⟨s', hI', fun s'' hr => hlast s'' (by rwa [run_cons, h] at hr), ?_⟩
      rw [tally_cons_of_some f es h, tally_cons_of_some g es h]
      calc μ s' + (f s e + tally step f s₁ es)
          = (μ s' + tally step f s₁ es) + f s e := by abel
        _ ≤ (μ s₁ + tally step g s₁ es) + f s e := add_le_add_left hle _
        _ = (μ s₁ + f s e) + tally step g s₁ es := by abel
        _ ≤ (μ s + g s e) + tally step g s₁ es := add_le_add_left (hstep s e s₁ hI hok h) _
        _ = μ s + (g s e + tally step g s₁ es) := by abel

/-- **The tally rule for equations.**

**Proof sketch.** Induct on the run: add the equation of the first step and the one of the rest. -/
theorem tally_add_eq {I : σ → Prop} {ok : σ → ε → Prop} {μ : σ → M} {f g : σ → ε → M}
    (hinv : ∀ s e s', I s → ok s e → step s e = some s' → I s')
    (hstep : ∀ s e s', I s → ok s e → step s e = some s' → μ s' + f s e = μ s + g s e) :
    ∀ {s s' : σ} {es : List ε}, I s → Along step ok s es → run step s es = some s' →
      μ s' + tally step f s es = μ s + tally step g s es
  | s, s', [], _, _, hr => by
    obtain rfl : s = s' := by simpa using hr
    rfl
  | s, s', e :: es, hI, hal, hr => by
    obtain ⟨s₁, h, hr⟩ := run_cons_eq_some.mp hr
    obtain ⟨hok, hal⟩ := hal s₁ h
    have heq := tally_add_eq hinv hstep (hinv s e s₁ hI hok h) hal hr
    rw [tally_cons_of_some f es h, tally_cons_of_some g es h]
    calc μ s' + (f s e + tally step f s₁ es)
        = (μ s' + tally step f s₁ es) + f s e := by abel
      _ = (μ s₁ + tally step g s₁ es) + f s e := by rw [heq]
      _ = (μ s₁ + f s e) + tally step g s₁ es := by abel
      _ = (μ s + g s e) + tally step g s₁ es := by rw [hstep s e s₁ hI hok h]
      _ = μ s + (g s e + tally step g s₁ es) := by abel

/-- **The high-water rule.** Every step adds what it counts to a measure, except for a loss that it
books. When the measure is at most `B` after every step that counts something, a run counts at most
`B` and its losses.

**Proof sketch.** By induction over the run: it counts nothing, or what it counts is in the measure
after the last step that did, up to the losses. -/
theorem tally_le_highWater {I : σ → Prop} {ok : σ → ε → Prop} {μ : σ → ℕ} {f g : σ → ε → ℕ} {B : ℕ}
    (hinv : ∀ s e s', I s → ok s e → step s e = some s' → I s')
    (hstep : ∀ s e s', I s → ok s e → step s e = some s' → f s e + μ s ≤ μ s' + g s e)
    (hwater : ∀ s e s', I s → ok s e → step s e = some s' → f s e ≠ 0 → μ s' ≤ B) {s : σ}
    {es : List ε} (hI : I s) (hal : Along step ok s es) :
    tally step f s es ≤ B + tally step g s es := by
  suffices h : tally step f s es = 0 ∨ tally step f s es + μ s ≤ B + tally step g s es by omega
  induction es generalizing s with
  | nil => exact .inl rfl
  | cons e es ih =>
    cases h : step s e with
    | none => exact .inl (tally_cons_of_none f es h)
    | some s₁ =>
      obtain ⟨hok, hal⟩ := hal s₁ h
      have hpay := hstep s e s₁ hI hok h
      have hlevel := hwater s e s₁ hI hok h
      rw [tally_cons_of_some f es h, tally_cons_of_some g es h]
      rcases ih (hinv s e s₁ hI hok h) hal with hzero | hle
      · by_cases hcounts : f s e = 0
        · exact .inl (by omega)
        · have := hlevel hcounts
          exact .inr (by omega)
      · exact .inr (by omega)

/-- A run counts less when every step does. -/
lemma tally_le_tally [Preorder M] [AddLeftMono M] {I : σ → Prop} {ok : σ → ε → Prop}
    {f g : σ → ε → M} (hinv : ∀ s e s', I s → ok s e → step s e = some s' → I s')
    (hle : ∀ s e s', I s → ok s e → step s e = some s' → f s e ≤ g s e) :
    ∀ {s : σ} {es : List ε}, I s → Along step ok s es → tally step f s es ≤ tally step g s es
  | _, [], _, _ => le_rfl
  | s, e :: es, hI, hal => by
    cases h : step s e with
    | none => rw [tally_cons_of_none f es h, tally_cons_of_none g es h]
    | some s₁ =>
      obtain ⟨hok, hal⟩ := hal s₁ h
      rw [tally_cons_of_some f es h, tally_cons_of_some g es h]
      exact add_le_add (hle s e s₁ hI hok h)
        (tally_le_tally hinv hle (hinv s e s₁ hI hok h) hal)

/-- A tally of sums is a sum of tallies. -/
lemma tally_add (f g : σ → ε → M) : ∀ (s : σ) (es : List ε),
    tally step (fun s e => f s e + g s e) s es = tally step f s es + tally step g s es
  | _, [] => (add_zero 0).symm
  | s, e :: es => by
    cases h : step s e with
    | none =>
      rw [tally_cons_of_none _ es h, tally_cons_of_none _ es h, tally_cons_of_none _ es h,
        add_zero]
    | some s₁ =>
      rw [tally_cons_of_some _ es h, tally_cons_of_some _ es h, tally_cons_of_some _ es h,
        tally_add f g s₁ es]
      abel

/-- A homomorphism maps a tally to a tally. -/
lemma map_tally {N : Type*} [AddCommMonoid N] (φ : M →+ N) (f : σ → ε → M) :
    ∀ (s : σ) (es : List ε), φ (tally step f s es) = tally step (fun s e => φ (f s e)) s es
  | _, [] => φ.map_zero
  | s, e :: es => by
    cases h : step s e with
    | none => rw [tally_cons_of_none _ es h, tally_cons_of_none _ es h, φ.map_zero]
    | some s₁ =>
      rw [tally_cons_of_some _ es h, tally_cons_of_some _ es h, φ.map_add, map_tally φ f s₁ es]

end Tally

/-- **What holds of everything that a step counts** holds of everything that a run counts.

**Proof sketch.** Induct on the run. What is counted is counted in the first step or in the rest. -/
theorem forall_mem_tally {α : Type*} {I : σ → Prop} {ok : σ → ε → Prop} {Q : α → Prop}
    {f : σ → ε → Multiset α}
    (hinv : ∀ s e s', I s → ok s e → step s e = some s' → I s')
    (hQ : ∀ s e s', I s → ok s e → step s e = some s' → ∀ a ∈ f s e, Q a) :
    ∀ {s : σ} {es : List ε}, I s → Along step ok s es → ∀ a ∈ tally step f s es, Q a
  | _, [], _, _, a, ha => absurd ha (Multiset.notMem_zero a)
  | s, e :: es, hI, hal, a, ha => by
    cases h : step s e with
    | none =>
      rw [tally_cons_of_none f es h] at ha
      exact absurd ha (Multiset.notMem_zero a)
    | some s₁ =>
      obtain ⟨hok, hal⟩ := hal s₁ h
      rw [tally_cons_of_some f es h] at ha
      obtain ha | ha := Multiset.mem_add.mp ha
      · exact hQ s e s₁ hI hok h a ha
      · exact forall_mem_tally hinv hQ (hinv s e s₁ hI hok h) hal a ha

end Runs
