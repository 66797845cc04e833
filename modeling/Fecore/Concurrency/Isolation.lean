import Mathlib.Data.List.Induction
import Mathlib.Data.List.Nodup
import Mathlib.Tactic.Common
import Fecore.Concurrency.Interleaving

set_option relaxedAutoImplicit false
set_option autoImplicit false

/-!
# Isolated threads

Each thread has a zone of the shared state. A view of a zone is what a thread with that zone can
see. When a section of a thread depends on its own view only, and changes no other, then nothing
flows from one thread to another: a thread in a run of many is where it would be if it had run
alone.

## Main definitions

* `Interleaving.Isolated` — the conditions on the sections.
* `Interleaving.arrivals`, `Interleaving.movesOf` — the threads that arrive in a run, and the moves
  of one of them.

## Main results

* `Interleaving.Isolated.runs_alone` — every thread of a run is where it would be alone.
* `Interleaving.Isolated.each` — what a thread keeps while it is alone it keeps among others.
-/

namespace Interleaving

variable {σ τ ε ι ν : Type*}

/-- **The threads are isolated**: a section depends on the view of its own thread, and leaves the
views of the other zones. -/
structure Isolated (P : Program σ τ ε) (zone : τ → ι) (view : ι → σ → ν) : Prop where
  own : ∀ s s₁ t e s' t' new, view (zone t) s = view (zone t) s₁ →
    P.next s t e = some (s', t', new) → zone t' = zone t ∧ new = [] ∧
      ∃ s₁', P.next s₁ t e = some (s₁', t', []) ∧ view (zone t) s' = view (zone t) s₁'
  others : ∀ s t e s' t' new, P.next s t e = some (s', t', new) →
    ∀ z, z ≠ zone t → view z s' = view z s

/-- The threads that arrive, in their order. -/
def arrivals (ms : List (Move τ ε)) : List τ :=
  ms.filterMap fun
    | .arrive t => some t
    | .step _ _ => none

/-- The moves of a thread, as those of the only one. -/
def movesOf (i : ℕ) (ms : List (Move τ ε)) : List (Move τ ε) :=
  ms.filterMap fun
    | .arrive _ => none
    | .step j e => if j = i then some (.step 0 e) else none

/-- The arrivals in one part and then in another. -/
@[simp] lemma arrivals_append (ms ms' : List (Move τ ε)) :
    arrivals (ms ++ ms') = arrivals ms ++ arrivals ms' := List.filterMap_append

/-- The moves of a thread in one part and then in another. -/
@[simp] lemma movesOf_append (i : ℕ) (ms ms' : List (Move τ ε)) :
    movesOf i (ms ++ ms') = movesOf i ms ++ movesOf i ms' := List.filterMap_append

/-- An arrival is one. -/
@[simp] lemma arrivals_arrive (t : τ) : arrivals [(.arrive t : Move τ ε)] = [t] := rfl

/-- A step is no arrival. -/
@[simp] lemma arrivals_step (i : ℕ) (e : ε) : arrivals [(.step i e : Move τ ε)] = [] := rfl

/-- An arrival is no move of a thread that is there. -/
@[simp] lemma movesOf_arrive (i : ℕ) (t : τ) : movesOf i [(.arrive t : Move τ ε)] = [] := rfl

/-- A step of the thread is its move, and its own run knows it as thread 0. -/
@[simp] lemma movesOf_own (i : ℕ) (e : ε) :
    movesOf i [(.step i e : Move τ ε)] = [.step 0 e] := by
  simp [movesOf]

/-- A step of another thread is no move of it. -/
lemma movesOf_other {i j : ℕ} (h : j ≠ i) (e : ε) : movesOf i [(.step j e : Move τ ε)] = [] := by
  simp [movesOf, h]

section Alone

variable {P : Program σ τ ε} {zone : τ → ι} {view : ι → σ → ν} {s₀ : σ}
  {ms : List (Move τ ε)} {c c' : Config σ τ} {i : ℕ} {t : τ}

/-- A thread is where it would be if it had run alone, from the same start. -/
def Alone (P : Program σ τ ε) (zone : τ → ι) (view : ι → σ → ν) (s₀ : σ) (ms : List (Move τ ε))
    (i : ℕ) (t : τ) (s : σ) : Prop :=
  ∃ t₀ c₁, (arrivals ms)[i]? = some t₀ ∧ zone t = zone t₀ ∧
    Runs.run P.step ⟨s₀, []⟩ (.arrive t₀ :: movesOf i ms) = some c₁ ∧ c₁.threads = [t] ∧
    view (zone t) c₁.shared = view (zone t) s

/-- What holds after a run of isolated threads: they are those that have arrived, no other has
moved, the other zones have not been changed, and each thread is where it would be alone. -/
structure EachAlone (P : Program σ τ ε) (zone : τ → ι) (view : ι → σ → ν) (s₀ : σ)
    (ms : List (Move τ ε)) (c : Config σ τ) : Prop where
  zones : c.threads.map zone = (arrivals ms).map zone
  fresh : ∀ z, z ∉ (arrivals ms).map zone → view z c.shared = view z s₀
  notYet : ∀ i, c.threads.length ≤ i → movesOf i ms = []
  alone : ∀ i t, c.threads[i]? = some t → Alone P zone view s₀ ms i t c.shared

/-- A thread arrives alone. -/
lemma alone_of_arrive (hent : P.entry t = true) (hi : (arrivals ms).length = i)
    (hnone : movesOf i ms = []) {s : σ} (hview : view (zone t) s = view (zone t) s₀) :
    Alone P zone view s₀ (ms ++ [.arrive t]) i t s := by
  refine ⟨t, ⟨s₀, [t]⟩, ?_, rfl, ?_, rfl, hview.symm⟩
  · rw [arrivals_append, arrivals_arrive, List.getElem?_append_right hi.le, hi, Nat.sub_self]
    rfl
  · rw [movesOf_append, hnone, movesOf_arrive, List.append_nil, Runs.run_cons]
    have harrive : P.step ⟨s₀, []⟩ (.arrive t) = some ⟨s₀, [t]⟩ :=
      Program.step_arrive.mpr ⟨hent, rfl⟩
    rw [harrive]
    rfl

/-- A thread stays where it is while others move. -/
lemma Alone.of_others (h : Alone P zone view s₀ ms i t c.shared) {m : Move τ ε}
    (hm : movesOf i [m] = []) (hview : view (zone t) c'.shared = view (zone t) c.shared) :
    Alone P zone view s₀ (ms ++ [m]) i t c'.shared := by
  obtain ⟨t₀, c₁, hi, hzone, hrun, hthreads, heq⟩ := h
  refine ⟨t₀, c₁, ?_, hzone, ?_, hthreads, heq.trans hview.symm⟩
  · rw [arrivals_append]
    exact (List.getElem?_append_left (List.getElem?_eq_some_iff.mp hi).1).trans hi
  · rwa [movesOf_append, hm, List.append_nil]

/-- A section of a thread is one that it takes alone.

**Proof sketch.** The run of the thread alone has the same view, so it can take the same section
(`Isolated.own`); append that section to it. -/
lemma Alone.section_ (hiso : Isolated P zone view) (h : Alone P zone view s₀ ms i t c.shared)
    {e : ε} {s' : σ} {t' : τ} {new : List τ} (hn : P.next c.shared t e = some (s', t', new)) :
    Alone P zone view s₀ (ms ++ [.step i e]) i t' s' := by
  obtain ⟨t₀, c₁, hi, hzone, hrun, hthreads, heq⟩ := h
  obtain ⟨hsame, -, s₁', hn₁, heq'⟩ := hiso.own _ _ t e s' t' new heq.symm hn
  refine ⟨t₀, ⟨s₁', [t']⟩, ?_, hsame.trans hzone, ?_, rfl, ?_⟩
  · rw [arrivals_append, arrivals_step, List.append_nil]
    exact hi
  · rw [movesOf_append, movesOf_own, ← List.cons_append, Runs.run_append, hrun, Option.bind_some,
      Runs.run_cons]
    have hstep : P.step c₁ (.step 0 e) = some ⟨s₁', [t']⟩ := by
      refine Program.step_section.mpr ⟨t, s₁', t', [], ?_, hn₁, ?_⟩
      · rw [hthreads]
        rfl
      · rw [hthreads]
        rfl
    rw [hstep]
    rfl
  · rw [hsame]
    exact heq'.symm

/-- A thread arrives among isolated ones.

**Proof sketch.** The new thread has a zone of its own, which is as it was at the beginning, and no
move yet; the moves of the others are the same. -/
lemma EachAlone.arrive (h : EachAlone P zone view s₀ ms c) (hent : P.entry t = true)
    (hnew : zone t ∉ (arrivals ms).map zone) :
    EachAlone P zone view s₀ (ms ++ [.arrive t]) ⟨c.shared, c.threads ++ [t]⟩ where
  zones := by simp [h.zones]
  fresh z hz := by
    rw [arrivals_append, List.map_append, List.mem_append, not_or] at hz
    exact h.fresh z hz.1
  notYet i hi := by
    rw [List.length_append] at hi
    rw [movesOf_append, h.notYet i (by omega), movesOf_arrive, List.append_nil]
  alone i u hu := by
    have hlength : (arrivals ms).length = c.threads.length := by
      simpa using congrArg List.length h.zones.symm
    rcases Nat.lt_or_ge i c.threads.length with hlt | hge
    · rw [List.getElem?_append_left hlt] at hu
      exact (h.alone i u hu).of_others (movesOf_arrive i t) rfl
    · have hlt := (List.getElem?_eq_some_iff.mp hu).1
      rw [List.length_append, List.length_singleton] at hlt
      obtain rfl : i = c.threads.length := by omega
      rw [List.getElem?_append_right (le_refl _), Nat.sub_self] at hu
      obtain rfl : t = u := Option.some.inj hu
      exact alone_of_arrive hent hlength (h.notYet _ (le_refl _)) (h.fresh _ hnew)

/-- A thread takes a section among isolated ones.

**Proof sketch.** A section stays within its own zone, so the views of the others are as before; the
thread that takes it goes on as it would alone (`Alone.section_`). -/
lemma EachAlone.section_ (hiso : Isolated P zone view) (h : EachAlone P zone view s₀ ms c)
    (hnodup : ((arrivals ms).map zone).Nodup) (hi : c.threads[i]? = some t) {e : ε} {s' : σ}
    {t' : τ} {new : List τ} (hn : P.next c.shared t e = some (s', t', new)) :
    EachAlone P zone view s₀ (ms ++ [.step i e]) ⟨s', c.threads.set i t' ++ new⟩ := by
  obtain ⟨hsame, rfl, -⟩ := hiso.own _ _ t e s' t' new rfl hn
  have hlt := (List.getElem?_eq_some_iff.mp hi).1
  have hzone : (c.threads.map zone)[i]? = some (zone t) := by simp [hi]
  rw [List.append_nil]
  refine ⟨?_, fun z hz => ?_, fun j hj => ?_, fun j u hu => ?_⟩
  · have hset : (c.threads.map zone).set i (zone t') = c.threads.map zone := by
      obtain ⟨_, heq⟩ := List.getElem?_eq_some_iff.mp hzone
      rw [hsame, ← heq, List.set_getElem_self]
    rw [List.map_set, hset, arrivals_append, arrivals_step, List.append_nil, h.zones]
  · rw [arrivals_append, arrivals_step, List.append_nil] at hz
    have hne : z ≠ zone t := by
      rintro rfl
      exact hz (h.zones ▸ List.mem_of_getElem? hzone)
    exact (hiso.others _ _ _ _ _ _ hn z hne).trans (h.fresh z hz)
  · rw [List.length_set] at hj
    rw [movesOf_append, h.notYet j hj, movesOf_other (by omega), List.append_nil]
  · by_cases hij : i = j
    · subst hij
      rw [List.getElem?_set_self hlt] at hu
      obtain rfl : t' = u := Option.some.inj hu
      exact (h.alone i t hi).section_ hiso hn
    · rw [List.getElem?_set_ne hij] at hu
      have hne : zone u ≠ zone t := by
        intro heq
        have hj : (c.threads.map zone)[j]? = some (zone u) := by simp [hu]
        have hnodup' : (c.threads.map zone).Nodup := h.zones ▸ hnodup
        exact hij ((List.getElem?_inj (by simpa using hlt) hnodup').mp
          (hzone.trans ((congrArg some heq.symm).trans hj.symm)))
      exact (h.alone j u hu).of_others (movesOf_other hij e) (hiso.others _ _ _ _ _ _ hn _ hne)

/-- **Every thread of a run is where it would be alone.** Isolated threads that arrive with
different zones do not influence one another: after every run, each of them stands where its own
moves alone would have taken it from the same start, and sees the same.

**Proof sketch.** By induction on the run from its end. An arrival sees the start, as no one has
changed its zone (`EachAlone.arrive`); a section is one that its thread would take alone, and the
others do not see it (`EachAlone.section_`). -/
theorem Isolated.runs_alone (hiso : Isolated P zone view)
    (hnodup : ((arrivals ms).map zone).Nodup) (hrun : Runs.run P.step ⟨s₀, []⟩ ms = some c) :
    EachAlone P zone view s₀ ms c := by
  induction ms using List.reverseRecOn generalizing c with
  | nil =>
    obtain rfl := Option.some.inj hrun
    exact ⟨rfl, fun _ _ => rfl, fun _ _ => rfl, fun _ _ ht => absurd ht (by simp)⟩
  | append_singleton ms m ih =>
    rw [arrivals_append, List.map_append] at hnodup
    obtain ⟨hold, -, hdisjoint⟩ := List.nodup_append.mp hnodup
    obtain ⟨c₀, hrun₀, hlast⟩ := Option.bind_eq_some_iff.mp (Runs.run_append _ ms [m] ▸ hrun)
    obtain ⟨_, hstep, hend⟩ := Runs.run_cons_eq_some.mp hlast
    obtain rfl := Option.some.inj hend
    have h := ih hold hrun₀
    obtain ⟨t, rfl, hent, rfl⟩ | ⟨i, e, t, s', t', new, rfl, hi, hn, rfl⟩ :=
      Program.step_cases hstep
    · refine h.arrive hent fun hmem => ?_
      exact hdisjoint _ hmem _ (List.mem_singleton_self _) rfl
    · exact h.section_ hiso hold hi hn

/-- What a thread keeps while it is alone.

**Proof sketch.** An invariant of the run: there is one thread, and it keeps the property, since it
starts no others. -/
lemma keeps_alone {I : σ → τ → Prop} {s : σ} {es : List (Move τ ε)} (hnew : ∀ s t e s' t' new,
      P.next s t e = some (s', t', new) → new = [])
    (hstep : ∀ s t e s' t' new, I s t → P.next s t e = some (s', t', new) → I s' t')
    (hes : ∀ m ∈ es, ∃ j e, m = .step j e) (h : I s t)
    (hrun : Runs.run P.step ⟨s, [t]⟩ es = some c) : ∀ u ∈ c.threads, I c.shared u := by
  have hinv : ∀ d m d', (∃ u, d.threads = [u] ∧ I d.shared u) → (∃ j e, m = Move.step j e) →
      P.step d m = some d' → ∃ u, d'.threads = [u] ∧ I d'.shared u := by
    rintro d m d' ⟨u, hu, hI⟩ ⟨j, e, rfl⟩ hd
    obtain ⟨u₁, s', u', new, hj, hn, rfl⟩ := Program.step_section.mp hd
    rw [hu] at hj ⊢
    obtain rfl : j = 0 := by
      have hlt := (List.getElem?_eq_some_iff.mp hj).1
      simpa using hlt
    obtain rfl : u = u₁ := Option.some.inj hj
    obtain rfl := hnew _ _ _ _ _ _ hn
    exact ⟨u', rfl, hstep _ _ _ _ _ _ hI hn⟩
  obtain ⟨u, hu, hI⟩ := Runs.invariant_of_along hinv ⟨t, rfl, h⟩ (Runs.along_of_forall hes) hrun
  intro v hv
  rw [hu] at hv
  exact List.mem_singleton.mp hv ▸ hI

/-- **What a thread keeps while it is alone it keeps among others**, when it speaks of what the
thread can see.

**Proof sketch.** The thread is where it would be alone (`Isolated.runs_alone`), and in that run it
keeps the property by induction (`keeps_alone`); what it can see is the same in both runs. -/
theorem Isolated.each (hiso : Isolated P zone view) {I : σ → τ → Prop}
    (hview : ∀ s s' t, view (zone t) s = view (zone t) s' → I s t → I s' t)
    (hstart : ∀ t, P.entry t = true → I s₀ t)
    (hstep : ∀ s t e s' t' new, I s t → P.next s t e = some (s', t', new) → I s' t')
    (hnodup : ((arrivals ms).map zone).Nodup) (hrun : Runs.run P.step ⟨s₀, []⟩ ms = some c) :
    ∀ t ∈ c.threads, I c.shared t := by
  intro t ht
  obtain ⟨i, hi⟩ := List.mem_iff_getElem?.mp ht
  obtain ⟨t₀, c₁, -, -, hrun₁, hthreads, heq⟩ := (hiso.runs_alone hnodup hrun).alone i t hi
  obtain ⟨c₀, harrive, hrest⟩ := Runs.run_cons_eq_some.mp hrun₁
  obtain ⟨hent, rfl⟩ := Program.step_arrive.mp harrive
  have hmoves : ∀ m ∈ movesOf i ms, ∃ j e, m = Move.step j e := by
    intro m hm
    obtain ⟨m₀, -, hm₀⟩ := List.mem_filterMap.mp hm
    cases m₀ with
    | arrive t => cases hm₀
    | step j e =>
      dsimp only at hm₀
      split at hm₀
      · exact ⟨0, e, (Option.some.inj hm₀).symm⟩
      · cases hm₀
  have hkept := keeps_alone (fun _ _ _ _ _ _ hn => (hiso.own _ _ _ _ _ _ _ rfl hn).2.1) hstep
    hmoves (hstart t₀ hent) hrest t (hthreads ▸ List.mem_singleton_self t)
  exact hview _ _ t heq hkept

end Alone

end Interleaving
