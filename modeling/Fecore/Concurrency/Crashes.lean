import Fecore.Concurrency.Runs

set_option relaxedAutoImplicit false
set_option autoImplicit false

/-!
# Runs with crashes

A machine has a state in memory and a storage. A step moves the state and writes to the storage; a
crash loses the state, and the machine starts again from what is stored.

## Main definitions

* `Crashes.Machine` — the steps, what they write, and the start from a storage.
* `Crashes.Event`, `Crashes.Machine.next` — a step, or a crash and the start after it.

## Main results

* `Crashes.Machine.next_cases` — what an event does.
* `Crashes.Machine.invariant`, `Crashes.Machine.invariant_of_along` — what every start establishes
  and every step keeps holds after every run, however often the machine crashes.
-/

namespace Crashes

variable {σ δ ε ρ : Type*}

/-- A machine with a storage: its steps, what a step writes, and the start from what is stored, in
which it meets an `ρ`. -/
structure Machine (σ δ ε ρ : Type*) where
  step : σ → ε → Option σ
  write : σ → ε → δ → δ
  start : δ → ρ → Option σ

/-- A step, or a crash with what the start after it meets. -/
inductive Event (ε ρ : Type*)
  | step (e : ε)
  | crash (r : ρ)

namespace Machine

variable (M : Machine σ δ ε ρ)

/-- The state and the storage after an event. -/
def next (c : σ × δ) : Event ε ρ → Option (σ × δ)
  | .step e => (M.step c.1 e).map fun s' => (s', M.write c.1 e c.2)
  | .crash r => (M.start c.2 r).map fun s' => (s', c.2)

variable {M}

/-- **What an event does.** -/
theorem next_cases {c c' : σ × δ} {m : Event ε ρ} (h : M.next c m = some c') :
    (∃ e, m = .step e ∧ M.step c.1 e = some c'.1 ∧ c'.2 = M.write c.1 e c.2) ∨
      ∃ r, m = .crash r ∧ M.start c.2 r = some c'.1 ∧ c'.2 = c.2 := by
  cases m with
  | step e =>
    obtain ⟨s', hstep, rfl⟩ := Option.map_eq_some_iff.mp h
    exact .inl ⟨e, rfl, hstep, rfl⟩
  | crash r =>
    obtain ⟨s', hstart, rfl⟩ := Option.map_eq_some_iff.mp h
    exact .inr ⟨r, rfl, hstart, rfl⟩

/-- **The invariant rule for runs with crashes.** A relation of the state to the storage that every
step meeting `ok` keeps, and every start establishes from a storage that had it, holds after every
run whose steps all meet `ok`. -/
theorem invariant_of_along {I : σ → δ → Prop} (ok : σ → Prop)
    (hstep : ∀ s d e s', I s d → ok s → M.step s e = some s' → I s' (M.write s e d))
    (hstart : ∀ s d r s', I s d → M.start d r = some s' → I s' d) {c c' : σ × δ}
    {events : List (Event ε ρ)} (hI : I c.1 c.2)
    (hok : Runs.Throughout M.next (fun c => ok c.1) c events)
    (hrun : Runs.run M.next c events = some c') : I c'.1 c'.2 := by
  have hnext : ∀ c m c', I c.1 c.2 → ok c.1 → M.next c m = some c' → I c'.1 c'.2 := by
    intro c m c' hI hok hnext
    obtain ⟨e, rfl, hs, hd⟩ | ⟨r, rfl, hs, hd⟩ := next_cases hnext
    · rw [hd]
      exact hstep _ _ _ _ hI hok hs
    · rw [hd]
      exact hstart _ _ _ _ hI hs
  exact Runs.invariant_of_along hnext hI hok.along hrun

/-- The rule without a condition on the steps. -/
theorem invariant {I : σ → δ → Prop}
    (hstep : ∀ s d e s', I s d → M.step s e = some s' → I s' (M.write s e d))
    (hstart : ∀ s d r s', I s d → M.start d r = some s' → I s' d) {c c' : σ × δ}
    {events : List (Event ε ρ)} (hI : I c.1 c.2)
    (hrun : Runs.run M.next c events = some c') : I c'.1 c'.2 := by
  have hok : Runs.Throughout M.next (fun _ => True) c events :=
    Runs.throughout_of_forall fun _ => trivial
  exact invariant_of_along (fun _ => True) (fun s d e s' hI _ hs => hstep s d e s' hI hs) hstart hI
    hok hrun

end Machine

end Crashes
