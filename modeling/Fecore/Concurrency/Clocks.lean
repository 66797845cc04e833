import Mathlib.Order.Defs.PartialOrder
import Mathlib.Tactic.Common
import Fecore.Concurrency.Tallies

set_option relaxedAutoImplicit false
set_option autoImplicit false

/-!
# Runs with a clock

Some events of a system happen at a time. A run with a clock is one in which these times never go
back.

## Main definitions

* `Clocks.clocked` — the step function of a system with a clock.

## Main results

* `Clocks.clocked_eq_some` — a step of a system with a clock is one of the system, and later.
* `Clocks.run_of_clocked` — a run with a clock is a run; it meets the same conditions
  (`Clocks.along_clocked_iff`) and counts the same (`Clocks.tally_clocked`).
-/

namespace Clocks

variable {σ ε T : Type*}

/-- The step function of a system with a clock: an event at a time is enabled when it is not
earlier than the clock. -/
def clocked [LE T] [DecidableLE T] (step : σ → ε → Option σ) (time : ε → Option T) (s : σ × T)
    (e : ε) : Option (σ × T) :=
  match time e with
  | none => (step s.1 e).map fun s' => (s', s.2)
  | some now => if s.2 ≤ now then (step s.1 e).map fun s' => (s', now) else none

variable [Preorder T] [DecidableLE T] {step : σ → ε → Option σ} {time : ε → Option T}

/-- **A step of a system with a clock** is one of the system; the clock shows its time.

**Proof sketch.** Case split on whether the event carries a time; one that does is refused when the
clock is past it. -/
lemma clocked_eq_some {s s' : σ × T} {e : ε} :
    clocked step time s e = some s' ↔
      step s.1 e = some s'.1 ∧ s.2 ≤ s'.2 ∧ s'.2 = (time e).getD s.2 := by
  obtain ⟨s₁, t⟩ := s
  obtain ⟨s₁', t'⟩ := s'
  unfold clocked
  cases h : time e with
  | none =>
    simp only [Option.map_eq_some_iff, Prod.mk.injEq, Option.getD_none]
    constructor
    · rintro ⟨_, hstep, rfl, rfl⟩
      exact ⟨hstep, le_rfl, rfl⟩
    · rintro ⟨hstep, -, rfl⟩
      exact ⟨s₁', hstep, rfl, rfl⟩
  | some now =>
    simp only [Option.getD_some]
    constructor
    · intro hstep
      split at hstep
      · next hle =>
        simp only [Option.map_eq_some_iff, Prod.mk.injEq] at hstep
        obtain ⟨_, hstep, rfl, rfl⟩ := hstep
        exact ⟨hstep, hle, rfl⟩
      · cases hstep
    · rintro ⟨hstep, hle, rfl⟩
      rw [if_pos hle, hstep]
      rfl

/-- **A run with a clock is a run.** -/
lemma run_of_clocked : ∀ {s s' : σ × T} {es : List ε},
    Runs.run (clocked step time) s es = some s' → Runs.run step s.1 es = some s'.1
  | s, s', [], h => by
    obtain rfl : s = s' := by simpa using h
    rfl
  | s, s', e :: es, h => by
    obtain ⟨s₁, h₁, h⟩ := Runs.run_cons_eq_some.mp h
    rw [Runs.run_cons, (clocked_eq_some.mp h₁).1, Option.bind_some]
    exact run_of_clocked h

/-- A run with a clock meets the conditions of the run. -/
lemma along_clocked_iff {ok : σ → ε → Prop} : ∀ {s s' : σ × T} {es : List ε},
    Runs.run (clocked step time) s es = some s' →
      (Runs.Along (clocked step time) (fun s e => ok s.1 e) s es ↔ Runs.Along step ok s.1 es)
  | _, _, [], _ => Iff.rfl
  | s, s', e :: es, h => by
    obtain ⟨s₁, h₁, h⟩ := Runs.run_cons_eq_some.mp h
    rw [Runs.along_cons_of_some h₁, Runs.along_cons_of_some (clocked_eq_some.mp h₁).1,
      along_clocked_iff h]

/-- A run with a clock counts what the run counts. -/
lemma tally_clocked {M : Type*} [AddCommMonoid M] (f : σ → ε → M) : ∀ {s s' : σ × T} {es : List ε},
    Runs.run (clocked step time) s es = some s' →
      Runs.tally (clocked step time) (fun s e => f s.1 e) s es = Runs.tally step f s.1 es
  | _, _, [], _ => rfl
  | s, s', e :: es, h => by
    obtain ⟨s₁, h₁, h⟩ := Runs.run_cons_eq_some.mp h
    rw [Runs.tally_cons_of_some _ es h₁, Runs.tally_cons_of_some f es (clocked_eq_some.mp h₁).1,
      tally_clocked f h]

end Clocks
