import Fecore.Concurrency.Interleaving

set_option relaxedAutoImplicit false
set_option autoImplicit false

/-!
# A shared state that is also written from outside

The threads of a program are not always the only writers of their shared state. Between two sections
something else may write to it, in steps of its own kind, which leave the threads where they stand.

## Main definitions

* `Interleaving.Program.stepWith` — one move of the program, or one write from outside.

## Main results

* `Interleaving.stepWith_keeps` — what both kinds of steps keep.
* `Interleaving.thread_of_run` — the rule for one thread, whatever the others do in between.
-/

namespace Interleaving

open Runs (run Throughout)

variable {σ τ ε ω : Type*}

/-- One move of the program, or one write from outside. -/
def Program.stepWith (P : Program σ τ ε) (write : σ → ω → Option σ) (c : Config σ τ) :
    Move τ ε ⊕ ω → Option (Config σ τ)
  | .inl m => P.step c m
  | .inr x => (write c.shared x).map fun s => ⟨s, c.threads⟩

section Writes

variable {P : Program σ τ ε} {write : σ → ω → Option σ}

/-- A property that the moves and the writes keep is kept by every step. -/
lemma stepWith_keeps {I : Config σ τ → Prop} {c c' : Config σ τ} {m : Move τ ε ⊕ ω}
    (hmove : ∀ m c', P.step c m = some c' → I c → I c')
    (hwrite : ∀ x s, write c.shared x = some s → I c → I ⟨s, c.threads⟩)
    (hstep : P.stepWith write c m = some c') (hI : I c) : I c' := by
  cases m with
  | inl m => exact hmove m c' hstep hI
  | inr x =>
    obtain ⟨s, hs, rfl⟩ := Option.map_eq_some_iff.mp hstep
    exact hwrite x s hs hI

/-- What a step does to one thread: it stays where it stands, or it takes its next section. -/
lemma stepWith_thread {c c' : Config σ τ} {m : Move τ ε ⊕ ω}
    (hstep : P.stepWith write c m = some c') {i : ℕ} {t : τ} (ht : c.threads[i]? = some t) :
    c'.threads[i]? = some t ∨
      ∃ e s' t' new, P.next c.shared t e = some (s', t', new) ∧ c'.threads[i]? = some t' := by
  cases m with
  | inl m =>
    by_cases hm : ∃ e, m = .step i e
    · obtain ⟨e, rfl⟩ := hm
      obtain ⟨s', t', new, hn, rfl⟩ := step_of_getElem? hstep ht
      exact .inr ⟨e, s', t', new, hn, getElem?_section t' new ht⟩
    · exact .inl (getElem?_of_step hstep (not_exists.mp hm) ht)
  | inr x =>
    obtain ⟨s, -, rfl⟩ := Option.map_eq_some_iff.mp hstep
    exact .inl ht

/-- **The rule for one thread.** What its own sections keep, in the states with an invariant and
with what holds throughout the run, holds of a thread after the run.

**Proof sketch.** Induct on the run, with the cases of `stepWith_thread`: the thread stays, or it
takes a section that keeps the property. -/
theorem thread_of_run {I S : Config σ τ → Prop} {Q : τ → Prop} {i : ℕ}
    (hI : ∀ c m c', I c → P.stepWith write c m = some c' → I c')
    (hnext : ∀ c t e s' t' new, I c → S c → c.threads[i]? = some t →
      P.next c.shared t e = some (s', t', new) → Q t → Q t') :
    ∀ {c c' : Config σ τ} {ms : List (Move τ ε ⊕ ω)} {t : τ}, I c →
      Throughout (P.stepWith write) S c ms → run (P.stepWith write) c ms = some c' →
        c.threads[i]? = some t → Q t → ∃ t', c'.threads[i]? = some t' ∧ Q t'
  | c, c', [], t, _, _, hr, ht, hQ => by
    obtain rfl : c = c' := by simpa using hr
    exact ⟨t, ht, hQ⟩
  | c, c', m :: ms, t, hIc, hS, hr, ht, hQ => by
    obtain ⟨c₁, hstep, hr⟩ := Runs.run_cons_eq_some.mp hr
    have hI₁ := hI c m c₁ hIc hstep
    rcases stepWith_thread hstep ht with ht₁ | ⟨e, s', t', new, hn, ht₁⟩
    · exact thread_of_run hI hnext hI₁ (hS.2 c₁ hstep) hr ht₁ hQ
    · exact thread_of_run hI hnext hI₁ (hS.2 c₁ hstep) hr ht₁
        (hnext c t e s' t' new hIc hS.1 ht hn hQ)

end Writes

end Interleaving
