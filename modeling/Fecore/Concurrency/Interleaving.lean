import Mathlib.Algebra.BigOperators.Group.List.Basic
import Mathlib.Algebra.Order.BigOperators.Group.List
import Mathlib.Algebra.Order.Group.Defs
import Mathlib.Algebra.Order.Group.Nat
import Mathlib.Tactic.Abel
import Fecore.Concurrency.Runs

set_option relaxedAutoImplicit false
set_option autoImplicit false

/-!
# Threads over a shared state

A program of threads over a shared state: `next` takes one atomic section of one thread, which
may change the shared state, moves the thread on and may start further threads; `entry` says
which threads may arrive from outside. Any thread may take the next section, so a run of moves
is one interleaving.

Two proof rules. A *ledger* adds a measure of the shared state and of each thread; what one
section does to it is what it does to the shared state, to its own thread and to the threads it
starts, so a bound on one section bounds the ledger along every interleaving. A *thread
assertion* relates the shared state to one thread; it holds for all threads after a section when
the section establishes it for its own thread and leaves it true for every other one.

## Main definitions

* `Interleaving.Program`, `Config`, `Move` — programs, their configurations, and the moves.
* `Interleaving.Config.ledger` — the sum of a measure over the shared state and the threads.
* `Interleaving.Config.count`, `Meets` — what the section of a move counts, and a condition on it.
* `Interleaving.Config.All` — an assertion that holds for every thread.

## Main results

* `Interleaving.Program.step_cases` — what a move does.
* `Interleaving.ledger_step_le`, `ledger_step_eq` — the ledger rules.
* `Interleaving.getElem?_of_step`, `step_of_getElem?` — what a move does to one thread.
* `Interleaving.all_step` — the rule for thread assertions.
-/

namespace Interleaving

variable {σ τ ε M : Type*}

/-- A program: the threads that may arrive, and the sections of the threads. -/
structure Program (σ τ ε : Type*) where
  entry : τ → Bool
  next : σ → τ → ε → Option (σ × τ × List τ)

/-- A shared state and the threads over it. -/
structure Config (σ τ : Type*) where
  shared : σ
  threads : List τ

/-- A move: a thread arrives, or thread `i` takes its next section, in which it meets `e`. -/
inductive Move (τ ε : Type*)
  | arrive (t : τ)
  | step (i : ℕ) (e : ε)

namespace Program

variable (P : Program σ τ ε)

/-- One move. -/
def step (c : Config σ τ) : Move τ ε → Option (Config σ τ)
  | .arrive t => if P.entry t then some ⟨c.shared, c.threads ++ [t]⟩ else none
  | .step i e =>
    match c.threads[i]? with
    | none => none
    | some t =>
      match P.next c.shared t e with
      | none => none
      | some (s', t', new) => some ⟨s', c.threads.set i t' ++ new⟩

variable {P}

/-- An arrival adds the thread at the end. -/
lemma step_arrive {c c' : Config σ τ} {t : τ} :
    P.step c (.arrive t) = some c' ↔
      P.entry t = true ∧ c' = ⟨c.shared, c.threads ++ [t]⟩ := by
  cases h : P.entry t with
  | false => simp [step, h]
  | true =>
    simp only [step, h, if_true, Option.some.injEq, true_and]
    exact eq_comm

/-- A section replaces its thread and adds the threads it starts at the end.

**Proof sketch.** Unfold the step: without a thread at the place, or without a next section, there
is none, and otherwise the two sides name the same values. -/
lemma step_section {c c' : Config σ τ} {i : ℕ} {e : ε} :
    P.step c (.step i e) = some c' ↔ ∃ t s' t' new, c.threads[i]? = some t ∧
      P.next c.shared t e = some (s', t', new) ∧ c' = ⟨s', c.threads.set i t' ++ new⟩ := by
  simp only [step]
  constructor
  · intro h
    cases ht : c.threads[i]? with
    | none => simp [ht] at h
    | some t =>
      cases hn : P.next c.shared t e with
      | none => simp [ht, hn] at h
      | some r =>
        obtain ⟨s', t', new⟩ := r
        simp only [ht, hn, Option.some.injEq] at h
        exact ⟨t, s', t', new, rfl, hn, h.symm⟩
  · rintro ⟨t, s', t', new, ht, hn, rfl⟩
    simp [ht, hn]

/-- **What a move does**: a thread arrives, or a thread takes a section. -/
theorem step_cases {c c' : Config σ τ} {m : Move τ ε} (h : P.step c m = some c') :
    (∃ t, m = .arrive t ∧ P.entry t = true ∧ c' = ⟨c.shared, c.threads ++ [t]⟩) ∨
    (∃ i e t s' t' new, m = .step i e ∧ c.threads[i]? = some t ∧
      P.next c.shared t e = some (s', t', new) ∧ c' = ⟨s', c.threads.set i t' ++ new⟩) := by
  cases m with
  | arrive t =>
    obtain ⟨hent, rfl⟩ := step_arrive.mp h
    exact .inl ⟨t, rfl, hent, rfl⟩
  | step i e =>
    obtain ⟨t, s', t', new, ht, hn, rfl⟩ := step_section.mp h
    exact .inr ⟨i, e, t, s', t', new, rfl, ht, hn, rfl⟩

end Program

/-! ### Ledgers -/

/-- Replacing one element of a list moves the sum of a measure by the difference. -/
lemma sum_map_set_add [AddCommMonoid M] (h : τ → M) (t' : τ) :
    ∀ {ts : List τ} {i : ℕ} {t : τ}, ts[i]? = some t →
      ((ts.set i t').map h).sum + h t = (ts.map h).sum + h t'
  | [], _, _, hi => by simp at hi
  | u :: ts, 0, t, hi => by
    obtain rfl : u = t := by simpa using hi
    simp only [List.set_cons_zero, List.map_cons, List.sum_cons]
    rw [add_comm (h t'), add_assoc, add_comm (h t'), ← add_assoc, add_comm (List.sum _) (h u)]
  | u :: ts, i + 1, t, hi => by
    have ih : ((ts.set i t').map h).sum + h t = (ts.map h).sum + h t' :=
      sum_map_set_add h t' (by simpa using hi)
    simp only [List.set_cons_succ, List.map_cons, List.sum_cons, add_assoc, ih]

/-- The sum of a measure `f` of the shared state and a measure `h` of every thread. -/
def Config.ledger [AddCommMonoid M] (f : σ → M) (h : τ → M) (c : Config σ τ) : M :=
  f c.shared + (c.threads.map h).sum

section Order

variable [AddCommMonoid M] [PartialOrder M] [IsOrderedAddMonoid M] {h : τ → M}

/-- A measure is part of the sum it contributes to. -/
lemma le_sum_of_getElem? (h₀ : ∀ t, 0 ≤ h t) {ts : List τ} {i : ℕ} {t : τ}
    (ht : ts[i]? = some t) : h t ≤ (ts.map h).sum := by
  refine List.single_le_sum (fun x hx => ?_) _ (List.mem_map_of_mem (List.mem_of_getElem? ht))
  obtain ⟨u, -, rfl⟩ := List.mem_map.mp hx
  exact h₀ u

/-- Sums of measures are not negative. -/
lemma sum_map_nonneg (h₀ : ∀ t, 0 ≤ h t) (ts : List τ) : 0 ≤ (ts.map h).sum := by
  refine List.sum_nonneg fun x hx => ?_
  obtain ⟨u, -, rfl⟩ := List.mem_map.mp hx
  exact h₀ u

/-- Two threads contribute to the sum together. -/
lemma add_le_sum_of_getElem? (h₀ : ∀ t, 0 ≤ h t) : ∀ {ts : List τ} {i j : ℕ} {t u : τ}, i ≠ j →
    ts[i]? = some t → ts[j]? = some u → h t + h u ≤ (ts.map h).sum
  | [], _, _, _, _, _, hi, _ => by simp at hi
  | v :: ts, 0, 0, _, _, hne, _, _ => absurd rfl hne
  | v :: ts, 0, j + 1, t, u, _, hi, hj => by
    obtain rfl : v = t := by simpa using hi
    exact add_le_add_right (le_sum_of_getElem? h₀ (by simpa using hj)) (h v)
  | v :: ts, i + 1, 0, t, u, _, hi, hj => by
    obtain rfl : v = u := by simpa using hj
    rw [add_comm]
    exact add_le_add_right (le_sum_of_getElem? h₀ (by simpa using hi)) (h v)
  | v :: ts, i + 1, j + 1, t, u, hne, hi, hj => by
    have ih := add_le_sum_of_getElem? h₀ (show i ≠ j by omega) (by simpa using hi)
      (by simpa using hj)
    exact ih.trans (le_add_of_nonneg_left (h₀ v))

end Order

/-- A thread that contributes less to a sum than to a larger one makes the difference. -/
lemma sum_add_sub_le {g h : τ → ℕ} (hle : ∀ t, h t ≤ g t) {ts : List τ} {i : ℕ} {t : τ}
    (ht : ts[i]? = some t) : (ts.map h).sum + (g t - h t) ≤ (ts.map g).sum := by
  have hrest := le_sum_of_getElem? (h := fun t => g t - h t) (fun _ => Nat.zero_le _) ht
  have hsum : (ts.map g).sum = (ts.map h).sum + (ts.map fun t => g t - h t).sum := by
    rw [← List.sum_map_add]
    refine congrArg List.sum (List.map_congr_left fun t _ => ?_)
    exact (Nat.add_sub_cancel' (hle t)).symm
  omega

section Ledger

variable {P : Program σ τ ε} {c c' : Config σ τ} {m : Move τ ε}

/-- What one section adds to the ledger is what it adds to the shared state, to its own thread
and by the threads it starts. -/
lemma ledger_section [AddCommMonoid M] (f : σ → M) (h : τ → M) {i : ℕ} {t : τ} (s' : σ) (t' : τ)
    (new : List τ) (ht : c.threads[i]? = some t) :
    Config.ledger f h ⟨s', c.threads.set i t' ++ new⟩ + (f c.shared + h t) =
      c.ledger f h + (f s' + h t' + (new.map h).sum) := by
  have hset := sum_map_set_add h t' ht
  simp only [Config.ledger, List.map_append, List.sum_append]
  calc f s' + (((c.threads.set i t').map h).sum + (new.map h).sum) + (f c.shared + h t)
      = f s' + (((c.threads.set i t').map h).sum + h t) + (new.map h).sum + f c.shared := by abel
    _ = f s' + ((c.threads.map h).sum + h t') + (new.map h).sum + f c.shared := by rw [hset]
    _ = f c.shared + (c.threads.map h).sum + (f s' + h t' + (new.map h).sum) := by abel

/-- **The ledger rule.** A move does not raise the ledger when arriving threads bring nothing and
the section taken raises nothing.

**Proof sketch.** Case split on the move. An arriving thread brings nothing; for a section,
`ledger_section` gives the two ledgers the same remainder, so that it suffices to compare what the
section has written. -/
theorem ledger_step_le [AddCommGroup M] [PartialOrder M] [IsOrderedAddMonoid M] {f : σ → M}
    {h : τ → M} (hstep : P.step c m = some c') (hentry : ∀ t, P.entry t = true → h t ≤ 0)
    (hnext : ∀ i e t s' t' new, m = .step i e → c.threads[i]? = some t →
      P.next c.shared t e = some (s', t', new) →
      f s' + h t' + (new.map h).sum ≤ f c.shared + h t) :
    c'.ledger f h ≤ c.ledger f h := by
  obtain ⟨t, rfl, hent, rfl⟩ | ⟨i, e, t, s', t', new, rfl, ht, hn, rfl⟩ :=
    Program.step_cases hstep
  · have := hentry t hent
    simp only [Config.ledger, List.map_append, List.sum_append, List.map_cons, List.map_nil,
      List.sum_cons, List.sum_nil, add_zero]
    rw [← add_assoc]
    exact add_le_of_nonpos_right this
  · have hle := hnext i e t s' t' new rfl ht hn
    have heq := ledger_section f h s' t' new ht
    have := add_le_add_right hle (c.ledger f h)
    rw [← heq] at this
    exact le_of_add_le_add_right this

/-- **The ledger rule for equations.** A move keeps the ledger when arriving threads bring
nothing and the section taken keeps it. -/
theorem ledger_step_eq [AddCommGroup M] {f : σ → M} {h : τ → M}
    (hstep : P.step c m = some c') (hentry : ∀ t, P.entry t = true → h t = 0)
    (hnext : ∀ i e t s' t' new, m = .step i e → c.threads[i]? = some t →
      P.next c.shared t e = some (s', t', new) →
      f s' + h t' + (new.map h).sum = f c.shared + h t) :
    c'.ledger f h = c.ledger f h := by
  obtain ⟨t, rfl, hent, rfl⟩ | ⟨i, e, t, s', t', new, rfl, ht, hn, rfl⟩ :=
    Program.step_cases hstep
  · simp [Config.ledger, hentry t hent]
  · have heq := ledger_section f h s' t' new ht
    rw [hnext i e t s' t' new rfl ht hn] at heq
    exact add_right_cancel heq

end Ledger

/-! ### One thread -/

section Threads

variable {P : Program σ τ ε} {c c' : Config σ τ} {m : Move τ ε} {i : ℕ} {t t' : τ}

/-- A thread stays where it stands while the others move. -/
lemma getElem?_of_step (hstep : P.step c m = some c') (hm : ∀ e, m ≠ .step i e)
    (ht : c.threads[i]? = some t) : c'.threads[i]? = some t := by
  have hlt : i < c.threads.length := (List.getElem?_eq_some_iff.mp ht).1
  obtain ⟨u, rfl, -, rfl⟩ | ⟨j, e, u, s', u', new, rfl, -, -, rfl⟩ := Program.step_cases hstep
  · rw [List.getElem?_append_left hlt, ht]
  · have hji : j ≠ i := fun h => hm e (by rw [h])
    rw [List.getElem?_append_left (by rwa [List.length_set]), List.getElem?_set_ne hji, ht]

/-- A thread after its own section. -/
lemma getElem?_section (t' : τ) (new : List τ) (ht : c.threads[i]? = some t) :
    (c.threads.set i t' ++ new)[i]? = some t' := by
  have hlt : i < c.threads.length := (List.getElem?_eq_some_iff.mp ht).1
  rw [List.getElem?_append_left (by rwa [List.length_set]), List.getElem?_set_self hlt]

/-- What a section of a given thread does. -/
lemma step_of_getElem? {e : ε} (hstep : P.step c (.step i e) = some c')
    (ht : c.threads[i]? = some t) :
    ∃ s' t' new, P.next c.shared t e = some (s', t', new) ∧
      c' = ⟨s', c.threads.set i t' ++ new⟩ := by
  obtain ⟨u, s', t', new, hu, hn, hc'⟩ := Program.step_section.mp hstep
  obtain rfl : t = u := Option.some.inj (ht.symm.trans hu)
  exact ⟨s', t', new, hn, hc'⟩

end Threads

/-! ### What the section of a move counts -/

section Count

variable {c : Config σ τ} {i : ℕ} {t : τ}

/-- What the section counts that the move takes; an arrival counts nothing. -/
def Config.count [Zero M] (g : σ → ε → τ → M) (c : Config σ τ) : Move τ ε → M
  | .arrive _ => 0
  | .step i e =>
    match c.threads[i]? with
    | none => 0
    | some t => g c.shared e t

/-- The section that the move takes meets a condition. -/
def Config.Meets (A : σ → τ → Prop) (c : Config σ τ) : Move τ ε → Prop
  | .arrive _ => True
  | .step i _ => ∀ t, c.threads[i]? = some t → A c.shared t

/-- An arrival counts nothing. -/
@[simp] lemma Config.count_arrive [Zero M] (g : σ → ε → τ → M) (c : Config σ τ) (t : τ) :
    c.count g (.arrive t) = 0 := rfl

/-- A step counts what it does to the shared state and the thread. -/
lemma Config.count_step [Zero M] (g : σ → ε → τ → M) (ht : c.threads[i]? = some t) (e : ε) :
    c.count g (.step i e) = g c.shared e t := by
  rw [Config.count, ht]

end Count

/-! ### Thread assertions -/

/-- The assertion holds for every thread. -/
def Config.All (A : σ → τ → Prop) (c : Config σ τ) : Prop := ∀ t ∈ c.threads, A c.shared t

/-- A thread after a section is another thread of before, the thread that took the section, or
one that it started. -/
lemma mem_set_append {ts new : List τ} {i : ℕ} {t' u : τ} (h : u ∈ ts.set i t' ++ new) :
    (∃ j, j ≠ i ∧ ts[j]? = some u) ∨ u = t' ∨ u ∈ new := by
  rcases List.mem_append.mp h with h | h
  · obtain ⟨j, hj⟩ := List.mem_iff_getElem?.mp h
    by_cases hji : j = i
    · subst hji
      rw [List.getElem?_set] at hj
      split at hj
      · split at hj
        · exact .inr (.inl (Option.some.inj hj).symm)
        · exact absurd hj (by simp)
      · contradiction
    · rw [List.getElem?_set_ne (Ne.symm hji)] at hj
      exact .inl ⟨j, hji, hj⟩
  · exact .inr (.inr h)

/-- **The rule for thread assertions.** An assertion holds for every thread after a move when it
holds for arriving threads, the section taken establishes it for its own thread and for those it
starts, and keeps it for every other thread.

**Proof sketch.** A thread of the new configuration is an old one at another place, the one that has
stepped or one that has been started (`mem_set_append`); each has its hypothesis. -/
theorem all_step {P : Program σ τ ε} {A : σ → τ → Prop} {c c' : Config σ τ} {m : Move τ ε}
    (hall : c.All A) (hstep : P.step c m = some c')
    (hentry : ∀ t, m = .arrive t → P.entry t = true → A c.shared t)
    (hnext : ∀ i e t s' t' new, m = .step i e → c.threads[i]? = some t →
      P.next c.shared t e = some (s', t', new) →
      A s' t' ∧ (∀ u ∈ new, A s' u) ∧
        ∀ j u, j ≠ i → c.threads[j]? = some u → A c.shared u → A s' u) :
    c'.All A := by
  obtain ⟨t, rfl, hent, rfl⟩ | ⟨i, e, t, s', t', new, rfl, ht, hn, rfl⟩ :=
    Program.step_cases hstep
  · intro u hu
    rcases List.mem_append.mp hu with hu | hu
    · exact hall u hu
    · obtain rfl := List.mem_singleton.mp hu
      exact hentry u rfl hent
  · obtain ⟨hown, hnew, hothers⟩ := hnext i e t s' t' new rfl ht hn
    intro u hu
    obtain ⟨j, hji, hj⟩ | rfl | hu := mem_set_append hu
    · exact hothers j u hji hj (hall u (List.mem_of_getElem? hj))
    · exact hown
    · exact hnew u hu

end Interleaving
