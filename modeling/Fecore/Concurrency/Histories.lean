import Fecore.Concurrency.Interleaving
import Fecore.Concurrency.Tallies

set_option relaxedAutoImplicit false
set_option autoImplicit false

/-!
# The history of one thread

What the sections of one thread add up to, while the other threads take theirs in between. A
*history assertion* relates where the thread stands to what it has added up; it holds after every
run when each section of the thread keeps it, whatever the shared state is then.

## Main definitions

* `Interleaving.Config.countOf` — what a move counts, if it takes a section of a given thread.

## Main results

* `Interleaving.history_of_run` — the rule for history assertions.
-/

namespace Interleaving

open Runs (run tally)

variable {σ τ ε M : Type*}

/-- What the section of the move counts, if it is a section of thread `i`. -/
def Config.countOf [Zero M] (i : ℕ) (g : σ → ε → τ → M) (c : Config σ τ) : Move τ ε → M
  | .arrive _ => 0
  | .step j e => if j = i then c.count g (.step j e) else 0

section History

variable [AddCommMonoid M] {P : Program σ τ ε} {g : σ → ε → τ → M} {H : τ → M → Prop} {i : ℕ}

/-- One move keeps a history assertion.

**Proof sketch.** Case split on whose move it is. A section of the thread extends its history by
what it counts; any other move leaves the thread as it is and counts nothing for it. -/
lemma history_step
    (hnext : ∀ s e t s' t' new m, P.next s t e = some (s', t', new) → H t m → H t' (m + g s e t))
    {c c' : Config σ τ} {m : Move τ ε} (hstep : P.step c m = some c') {t : τ} {n : M}
    (ht : c.threads[i]? = some t) (hH : H t n) :
    ∃ t', c'.threads[i]? = some t' ∧ H t' (n + c.countOf i g m) := by
  by_cases hm : ∃ e, m = .step i e
  · obtain ⟨e, rfl⟩ := hm
    obtain ⟨s', t', new, hn, rfl⟩ := step_of_getElem? hstep ht
    refine ⟨t', getElem?_section t' new ht, ?_⟩
    rw [Config.countOf, if_pos rfl, Config.count_step g ht]
    exact hnext _ _ _ _ _ _ _ hn hH
  · rw [not_exists] at hm
    refine ⟨t, getElem?_of_step hstep hm ht, ?_⟩
    have hzero : c.countOf i g m = 0 := by
      cases m with
      | arrive u => rfl
      | step j e => exact if_neg fun hj => hm e (by rw [hj])
    rwa [hzero, add_zero]

/-- **The rule for history assertions.** An assertion about where thread `i` stands and what its
sections have added up to holds after every run, when each section of the thread keeps it. -/
theorem history_of_run
    (hnext : ∀ s e t s' t' new m, P.next s t e = some (s', t', new) → H t m → H t' (m + g s e t)) :
    ∀ {c c' : Config σ τ} {ms : List (Move τ ε)} {t : τ} {n : M}, run P.step c ms = some c' →
      c.threads[i]? = some t → H t n →
        ∃ t', c'.threads[i]? = some t' ∧ H t' (n + tally P.step (Config.countOf i g) c ms)
  | c, c', [], t, n, hr, ht, hH => by
    obtain rfl : c = c' := by simpa using hr
    exact ⟨t, ht, by rwa [Runs.tally_nil, add_zero]⟩
  | c, c', m :: ms, t, n, hr, ht, hH => by
    obtain ⟨c₁, hstep, hr⟩ := Runs.run_cons_eq_some.mp hr
    obtain ⟨t₁, ht₁, hH₁⟩ := history_step hnext hstep ht hH
    rw [Runs.tally_cons_of_some _ ms hstep, ← add_assoc]
    exact history_of_run hnext hr ht₁ hH₁

end History

end Interleaving
