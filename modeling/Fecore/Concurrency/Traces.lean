import Mathlib.Data.List.Iterate
import Fecore.Concurrency.Tallies

set_option relaxedAutoImplicit false
set_option autoImplicit false

/-!
# What a run gives out

A trace lists, in order, what the steps of a run give out. A *dispenser* is a system that has a
current item, gives it out at some of its steps and then moves on to the next one; its traces are
the iterates of the item that it starts with.

## Main definitions

* `Runs.trace` — what the steps of a run give out.

## Main results

* `Runs.length_trace` — a run gives out as many items as it has steps that give one out.
* `Runs.trace_eq_iterate` — the traces of a dispenser.
-/

namespace Runs

variable {σ ε α : Type*} {step : σ → ε → Option σ} {f : σ → ε → Option α}

variable (step) in
/-- What the steps of a run give out, up to an event that is not enabled. -/
def trace (f : σ → ε → Option α) : σ → List ε → List α
  | _, [] => []
  | s, e :: es =>
    match step s e with
    | none => []
    | some s' => (f s e).toList ++ trace f s' es

/-- The first event leaves its mark before those of the rest. -/
lemma trace_cons_of_some {s s' : σ} {e : ε} (es : List ε) (h : step s e = some s') :
    trace step f s (e :: es) = (f s e).toList ++ trace step f s' es := by
  rw [trace, h]

/-- No mark is left from an event on that cannot happen. -/
lemma trace_cons_of_none {s : σ} {e : ε} (es : List ε) (h : step s e = none) :
    trace step f s (e :: es) = [] := by
  rw [trace, h]

/-- A run gives out as many items as it has steps that give one out. -/
lemma length_trace : ∀ (s : σ) (es : List ε), (trace step f s es).length =
    tally step (fun s e => (f s e).toList.length) s es
  | _, [] => rfl
  | s, e :: es => by
    cases h : step s e with
    | none =>
      rw [trace_cons_of_none es h, tally_cons_of_none _ es h]
      rfl
    | some s' =>
      rw [trace_cons_of_some es h, tally_cons_of_some _ es h, List.length_append, length_trace]

/-- **The traces of a dispenser** are the iterates of its current item.

**Proof sketch.** Induct on the run. A step that gives nothing leaves the current item, and one that
gives the item goes on to the next. -/
theorem trace_eq_iterate (cur : σ → α) (next : α → α)
    (hstep : ∀ s e s', step s e = some s' →
      f s e = none ∧ cur s' = cur s ∨ f s e = some (cur s) ∧ cur s' = next (cur s)) :
    ∀ (s : σ) (es : List ε),
      trace step f s es = List.iterate next (cur s) (trace step f s es).length
  | _, [] => rfl
  | s, e :: es => by
    cases h : step s e with
    | none =>
      rw [trace_cons_of_none es h]
      rfl
    | some s' =>
      rw [trace_cons_of_some es h]
      have ih := trace_eq_iterate cur next hstep s' es
      rcases hstep s e s' h with ⟨hf, hcur⟩ | ⟨hf, hcur⟩
      · rw [hf, Option.toList_none, List.nil_append, ← hcur]
        exact ih
      · rw [hf, Option.toList_some, List.singleton_append, List.length_cons, List.iterate, ← hcur]
        exact congrArg _ ih

end Runs
