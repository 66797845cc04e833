import Mathlib.Logic.Basic
import Mathlib.Data.Nat.Init
import Mathlib.Data.Option.Basic

set_option relaxedAutoImplicit false
set_option autoImplicit false

/-!
# Runs of partial step functions

A system is given by a step function `step : σ → ε → Option σ`: the event `e` is enabled in
the state `s` when `step s e` is `some` state. A run follows a list of events. This file has
the invariant rules for runs: the plain one, the one for runs whose steps all meet a
condition, and the equivalence of "the invariant holds in every state visited" with "every
step meets the condition" when the condition is exactly what one step needs.

## Main definitions

* `Runs.run` — the state after a list of events.
* `Runs.Along` — every step of a run meets a condition on the state before it.
* `Runs.Throughout` — a property holds in every state a run visits.

## Main results

* `Runs.invariant`, `Runs.invariant_of_along` — invariants of runs by induction.
* `Runs.throughout_of_along`, `Runs.along_of_along` — what invariants give at every state and at
  every step.
* `Runs.throughout_iff_along` — exact step conditions give exact run conditions, and
  `Runs.throughout_iff_along_of_invariant` with the help of an invariant;
  `Runs.throughout_iff_head_and_along` when the start is part of the condition.
* `Runs.along_congr` — conditions that agree where an invariant holds are met along the same runs.
* `Runs.exists_run_to` — a measure that some event decreases leads to where none has to.
-/

namespace Runs

variable {σ ε : Type*} (step : σ → ε → Option σ)

/-- The state after the events, when each of them is enabled where it happens. -/
def run : σ → List ε → Option σ
  | s, [] => some s
  | s, e :: es => (step s e).bind fun s' => run s' es

/-- Every step of the run from a state meets `ok`, a condition on the state before the step
and the event. -/
def Along (ok : σ → ε → Prop) : σ → List ε → Prop
  | _, [] => True
  | s, e :: es => ∀ s', step s e = some s' → ok s e ∧ Along ok s' es

/-- Every state visited by the run from a state, the first one included, satisfies `P`. -/
def Throughout (P : σ → Prop) : σ → List ε → Prop
  | s, [] => P s
  | s, e :: es => P s ∧ ∀ s', step s e = some s' → Throughout P s' es

variable {step}

/-- A run of no events stays where it is. -/
@[simp] lemma run_nil (s : σ) : run step s [] = some s := rfl

/-- A run takes its first event and goes on from where that leads. -/
@[simp] lemma run_cons (s : σ) (e : ε) (es : List ε) :
    run step s (e :: es) = (step s e).bind fun s' => run step s' es := rfl

/-- A run over `e :: es` that succeeds takes an enabled first step. -/
lemma run_cons_eq_some {s s' : σ} {e : ε} {es : List ε} :
    run step s (e :: es) = some s' ↔ ∃ s₁, step s e = some s₁ ∧ run step s₁ es = some s' := by
  simp [Option.bind_eq_some_iff]

/-- A run over two lists of events is one after the other. -/
lemma run_append (s : σ) (es es' : List ε) :
    run step s (es ++ es') = (run step s es).bind fun s' => run step s' es' := by
  induction es generalizing s with
  | nil => rfl
  | cons e es ih =>
    rw [List.cons_append, run_cons, run_cons, Option.bind_assoc]
    exact congrArg _ (funext fun s' => ih s')

/-- Where the first event is disabled the run stops, and no condition is left to meet. -/
lemma along_cons_of_none {ok : σ → ε → Prop} {s : σ} {e : ε} (es : List ε)
    (h : step s e = none) : Along step ok s (e :: es) := by
  intro s' hs'
  rw [h] at hs'
  exact absurd hs' (by simp)

/-- Meeting a condition along `e :: es`, at an enabled first step. -/
lemma along_cons_of_some {ok : σ → ε → Prop} {s s' : σ} {e : ε} {es : List ε}
    (h : step s e = some s') : Along step ok s (e :: es) ↔ ok s e ∧ Along step ok s' es := by
  constructor
  · intro hal
    exact hal s' h
  · rintro hal s₁ hs₁
    obtain rfl : s' = s₁ := Option.some.inj (h.symm.trans hs₁)
    exact hal

/-- A condition with a decision procedure can be checked along a concrete run. -/
instance decidableAlong {ok : σ → ε → Prop} [∀ s e, Decidable (ok s e)] :
    ∀ (s : σ) (es : List ε), Decidable (Along step ok s es)
  | _, [] => isTrue trivial
  | s, e :: es =>
    match h : step s e with
    | none => isTrue (along_cons_of_none es h)
    | some s' =>
      have : Decidable (Along step ok s' es) := decidableAlong s' es
      decidable_of_iff (ok s e ∧ Along step ok s' es) (along_cons_of_some h).symm

/-- A property kept by every step holds after every run. -/
theorem invariant {I : σ → Prop} (hstep : ∀ s e s', I s → step s e = some s' → I s') :
    ∀ {s s' : σ} {es : List ε}, I s → run step s es = some s' → I s'
  | s, s', [], hI, hr => by
    obtain rfl : s = s' := by simpa using hr
    exact hI
  | s, s', e :: es, hI, hr => by
    obtain ⟨s₁, h₁, hr⟩ := run_cons_eq_some.mp hr
    exact invariant hstep (hstep s e s₁ hI h₁) hr

/-- A property kept by every step that meets `ok` holds after every run whose steps all meet
`ok`. -/
theorem invariant_of_along {I : σ → Prop} {ok : σ → ε → Prop}
    (hstep : ∀ s e s', I s → ok s e → step s e = some s' → I s') :
    ∀ {s s' : σ} {es : List ε}, I s → Along step ok s es → run step s es = some s' → I s'
  | s, s', [], hI, _, hr => by
    obtain rfl : s = s' := by simpa using hr
    exact hI
  | s, s', e :: es, hI, hal, hr => by
    obtain ⟨s₁, h₁, hr⟩ := run_cons_eq_some.mp hr
    obtain ⟨hok, hal⟩ := hal s₁ h₁
    exact invariant_of_along hstep (hstep s e s₁ hI hok h₁) hal hr

/-- A condition on the events alone is met along a run when all its events meet it. -/
lemma along_of_forall {ok : ε → Prop} : ∀ {s : σ} {es : List ε}, (∀ e ∈ es, ok e) →
    Along step (fun _ e => ok e) s es
  | _, [], _ => trivial
  | _, e :: _, h => fun _ _ => ⟨h e List.mem_cons_self,
      along_of_forall fun e' he' => h e' (List.mem_cons_of_mem _ he')⟩

/-- Invariants hold throughout the runs whose steps all meet `ok`, and so does what follows from
them. -/
theorem throughout_of_along {I P : σ → Prop} {ok : σ → ε → Prop}
    (hstep : ∀ s e s', I s → ok s e → step s e = some s' → I s') (hP : ∀ s, I s → P s) :
    ∀ {s : σ} {es : List ε}, I s → Along step ok s es → Throughout step P s es
  | _, [], hI, _ => hP _ hI
  | _, e :: _, hI, hal => ⟨hP _ hI, fun s' hs' =>
      throughout_of_along hstep hP (hstep _ e s' hI (hal s' hs').1 hs') (hal s' hs').2⟩

/-- What an invariant and `ok` give at a step is met along the runs whose steps all meet `ok`. -/
theorem along_of_along {I : σ → Prop} {ok ok' : σ → ε → Prop}
    (hstep : ∀ s e s', I s → ok s e → step s e = some s' → I s')
    (hok : ∀ s e, I s → ok s e → ok' s e) :
    ∀ {s : σ} {es : List ε}, I s → Along step ok s es → Along step ok' s es
  | _, [], _, _ => trivial
  | _, e :: _, hI, hal => fun s' hs' => ⟨hok _ e hI (hal s' hs').1,
      along_of_along hstep hok (hstep _ e s' hI (hal s' hs').1 hs') (hal s' hs').2⟩

/-- The property holds in the first state of a run throughout which it holds. -/
lemma Throughout.head {P : σ → Prop} {s : σ} : ∀ {es : List ε}, Throughout step P s es → P s
  | [], h => h
  | _ :: _, h => h.1

/-- What holds in every state that a run visits holds before each of its steps. -/
lemma Throughout.along {P : σ → Prop} : ∀ {s : σ} {es : List ε}, Throughout step P s es →
    Along step (fun s _ => P s) s es
  | _, [], _ => trivial
  | _, _ :: _, h => fun s' hs' => ⟨h.1, (h.2 s' hs').along⟩

/-- The property holds in the last state of a run throughout which it holds. -/
lemma Throughout.of_run {P : σ → Prop} : ∀ {s s' : σ} {es : List ε}, Throughout step P s es →
    run step s es = some s' → P s'
  | _, _, [], h, hr => by
    obtain rfl := Option.some.inj hr
    exact h
  | _, _, _ :: _, h, hr => by
    obtain ⟨s₁, h₁, hr⟩ := run_cons_eq_some.mp hr
    exact (h.2 s₁ h₁).of_run hr

/-- A property with a decision procedure can be checked throughout a concrete run. -/
instance decidableThroughout {P : σ → Prop} [DecidablePred P] :
    ∀ (s : σ) (es : List ε), Decidable (Throughout step P s es)
  | s, [] => inferInstanceAs (Decidable (P s))
  | s, e :: es =>
    match h : step s e with
    | none => decidable_of_iff (P s)
        ⟨fun hP => ⟨hP, fun s' hs' => by rw [h] at hs'; cases hs'⟩, fun hP => hP.1⟩
    | some s' =>
      have : Decidable (Throughout step P s' es) := decidableThroughout s' es
      decidable_of_iff (P s ∧ Throughout step P s' es)
        ⟨fun hP => ⟨hP.1, fun s₁ hs₁ => by
          obtain rfl := Option.some.inj (h.symm.trans hs₁)
          exact hP.2⟩, fun hP => ⟨hP.1, hP.2 s' h⟩⟩

/-- What holds in all states holds throughout every run. -/
lemma throughout_of_forall {P : σ → Prop} (h : ∀ s, P s) :
    ∀ {s : σ} {es : List ε}, Throughout step P s es
  | _, [] => h _
  | _, _ :: _ => ⟨h _, fun _ _ => throughout_of_forall h⟩

/-- A run in two parts. -/
lemma Throughout.of_append {P : σ → Prop} {s s' : σ} {es es' : List ε}
    (h : Throughout step P s (es ++ es')) (hr : run step s es = some s') :
    Throughout step P s es ∧ Throughout step P s' es' := by
  induction es generalizing s with
  | nil =>
    obtain rfl := Option.some.inj hr
    exact ⟨h.head, h⟩
  | cons e es ih =>
    obtain ⟨s₁, h₁, hr⟩ := run_cons_eq_some.mp hr
    refine ⟨⟨h.1, fun s₂ h₂ => ?_⟩, (ih (h.2 s₁ h₁) hr).2⟩
    obtain rfl := Option.some.inj (h₁.symm.trans h₂)
    exact (ih (h.2 s₁ h₁) hr).1

/-- A weaker property holds throughout the same runs. -/
lemma Throughout.mono {P Q : σ → Prop} (h : ∀ s, P s → Q s) :
    ∀ {s : σ} {es : List ε}, Throughout step P s es → Throughout step Q s es
  | _, [], hP => h _ hP
  | _, _ :: _, hP => ⟨h _ hP.1, fun s' hs' => (hP.2 s' hs').mono h⟩

/-- A run that ends where the property fails refutes it. -/
lemma not_throughout {P : σ → Prop} [DecidablePred P] {s : σ} {es : List ε}
    (h : (run step s es).any (fun s' => !decide (P s')) = true) : ¬ Throughout step P s es := by
  intro hP
  obtain ⟨s', hs', hn⟩ := (Option.any_eq_true _ _).mp h
  have := hP.of_run hs'
  simp [this] at hn

/-- **Exact step conditions give exact run conditions, under an invariant.** If, from states with
`I` and `J`, a step leads to a state with `I` exactly when it meets `ok`, and then to one with `J`,
then a run from a state with both visits only states with `I` exactly when all its steps meet
`ok`.

**Proof sketch.** Induct on the run. In both directions the first step leads to a state with both
invariants, from which the rest of the run goes on. -/
theorem throughout_iff_along_of_invariant {I J : σ → Prop} {ok : σ → ε → Prop}
    (hstep : ∀ s e s', J s → I s → step s e = some s' → (I s' ↔ ok s e))
    (hinv : ∀ s e s', J s → I s → ok s e → step s e = some s' → J s') :
    ∀ {s : σ} {es : List ε}, J s → I s → (Throughout step I s es ↔ Along step ok s es)
  | _, [], _, hI => by simp only [Throughout, Along, hI]
  | s, e :: es, hJ, hI => by
    constructor
    · rintro ⟨-, h⟩ s' hs'
      have hI' := (h s' hs').head
      have hok := (hstep s e s' hJ hI hs').mp hI'
      have hJ' := hinv s e s' hJ hI hok hs'
      exact ⟨hok, (throughout_iff_along_of_invariant hstep hinv hJ' hI').mp (h s' hs')⟩
    · intro h
      refine ⟨hI, fun s' hs' => ?_⟩
      obtain ⟨hok, hal⟩ := h s' hs'
      have hI' := (hstep s e s' hJ hI hs').mpr hok
      have hJ' := hinv s e s' hJ hI hok hs'
      exact (throughout_iff_along_of_invariant hstep hinv hJ' hI').mpr hal

/-- **Exact step conditions give exact run conditions, with one for the start.** As before, but the
first state need not be one with `I`: a run visits only states with `I` exactly when it starts in
one and all its steps meet `ok`. -/
theorem throughout_iff_head_and_along {I J : σ → Prop} {ok : σ → ε → Prop}
    (hstep : ∀ s e s', J s → I s → step s e = some s' → (I s' ↔ ok s e))
    (hinv : ∀ s e s', J s → I s → ok s e → step s e = some s' → J s') {s : σ} {es : List ε}
    (hJ : J s) : Throughout step I s es ↔ I s ∧ Along step ok s es := by
  constructor
  · intro h
    exact ⟨h.head, (throughout_iff_along_of_invariant hstep hinv hJ h.head).mp h⟩
  · rintro ⟨hI, hal⟩
    exact (throughout_iff_along_of_invariant hstep hinv hJ hI).mpr hal

/-- **Exact step conditions give exact run conditions.** If, from states with `I`, a step leads
to a state with `I` exactly when it meets `ok`, then a run from a state with `I` visits only
states with `I` exactly when all its steps meet `ok`. -/
theorem throughout_iff_along {I : σ → Prop} {ok : σ → ε → Prop}
    (hstep : ∀ s e s', I s → step s e = some s' → (I s' ↔ ok s e)) {s : σ} {es : List ε}
    (hI : I s) : Throughout step I s es ↔ Along step ok s es :=
  throughout_iff_along_of_invariant (J := fun _ => True)
    (fun s e s' _ hI hs' => hstep s e s' hI hs') (fun _ _ _ _ _ _ _ => trivial) trivial hI

/-- **Conditions that agree under an invariant.** If two conditions on a step agree in the states
with `I`, which every step keeps, then a run from such a state meets both or neither. -/
theorem along_congr {I : σ → Prop} {ok ok' : σ → ε → Prop}
    (hinv : ∀ s e s', I s → step s e = some s' → I s')
    (hok : ∀ s e s', I s → step s e = some s' → (ok s e ↔ ok' s e)) :
    ∀ {s : σ} {es : List ε}, I s → (Along step ok s es ↔ Along step ok' s es)
  | _, [], _ => Iff.rfl
  | s, e :: es, hI => by
    constructor
    · intro h s' hs'
      obtain ⟨hhead, hal⟩ := h s' hs'
      exact ⟨(hok s e s' hI hs').mp hhead,
        (along_congr hinv hok (hinv s e s' hI hs')).mp hal⟩
    · intro h s' hs'
      obtain ⟨hhead, hal⟩ := h s' hs'
      exact ⟨(hok s e s' hI hs').mpr hhead,
        (along_congr hinv hok (hinv s e s' hI hs')).mpr hal⟩

/-- **The progress rule.** When in every state with `I` that is not a goal some event of the kind
`ok` leads to a state with `I` of a smaller measure, then a run of such events leads to a goal. -/
theorem exists_run_to {I goal : σ → Prop} {ok : ε → Prop} (μ : σ → ℕ)
    (hstep : ∀ s, I s → ¬ goal s → ∃ e s', ok e ∧ step s e = some s' ∧ I s' ∧ μ s' < μ s) {s : σ}
    (hI : I s) : ∃ es s', (∀ e ∈ es, ok e) ∧ run step s es = some s' ∧ goal s' := by
  induction hn : μ s using Nat.strong_induction_on generalizing s with
  | _ n ih =>
    by_cases hgoal : goal s
    · exact ⟨[], s, fun _ he => absurd he List.not_mem_nil, rfl, hgoal⟩
    · obtain ⟨e, s₁, hok, hs₁, hI₁, hlt⟩ := hstep s hI hgoal
      obtain ⟨es, s', hes, hrun, hgoal'⟩ := ih _ (hn ▸ hlt) hI₁ rfl
      exact ⟨e :: es, s', List.forall_mem_cons.mpr ⟨hok, hes⟩,
        run_cons_eq_some.mpr ⟨s₁, hs₁, hrun⟩, hgoal'⟩

end Runs
