import Mathlib.Tactic.Common

set_option relaxedAutoImplicit false
set_option autoImplicit false

/-!
# Computations with early returns

A computation on a state returns a value or stops early, and what it has done to the state by then
stays. Whether it leaves something behind is a question about the state at its end, whichever way it
ends.

## Main definitions

* `EarlyReturns.finalState` — the state at the end.
* `EarlyReturns.Keeps` — a predicate on the state that a computation keeps, whichever way it ends.

## Main results

* `EarlyReturns.bind_of_ok`, `bind_of_error` — a computation after another.
* `EarlyReturns.Keeps.bind` — a chain keeps what its parts keep.
* `EarlyReturns.Keeps.forM_of_mem`, `EarlyReturns.Keeps.foldlM` — a loop keeps what its turns keep.
* `EarlyReturns.Keeps.of_error` — what holds when a chain stops early.
* `EarlyReturns.forM_rule`, `EarlyReturns.forM_ok` — the rule for a loop whose turns build on the
  turns before them, and the one for a loop in which no turn fails.
-/

namespace EarlyReturns

variable {ε ε' σ α β : Type}

/-- The state at the end of a computation. -/
def finalState : EStateM.Result ε σ α → σ
  | .ok _ s => s
  | .error _ s => s

/-! ### Chains -/

/-- After a call that has returned, the rest goes on with its value in the state it has left. -/
lemma bind_of_ok {x : EStateM ε σ α} {s s' : σ} {a : α} (h : x s = .ok a s')
    (f : α → EStateM ε σ β) : (x >>= f) s = f a s' := by
  change EStateM.bind x f s = _
  rw [EStateM.bind, h]

/-- After a call that has failed, the rest is not run. -/
lemma bind_of_error {x : EStateM ε σ α} {s s' : σ} {err : ε} (h : x s = .error err s')
    (f : α → EStateM ε σ β) : (x >>= f) s = .error err s' := by
  change EStateM.bind x f s = _
  rw [EStateM.bind, h]

/-- The rest cannot tell two calls apart that end in the same way. -/
lemma bind_congr_left {x y : EStateM ε σ α} {s s' : σ} (h : x s = y s')
    (f : α → EStateM ε σ β) : (x >>= f) s = (y >>= f) s' := by
  change EStateM.bind x f s = EStateM.bind y f s'
  rw [EStateM.bind, EStateM.bind, h]

/-! ### What is kept -/

/-- **The predicate is kept**, whichever way the computation ends. -/
def Keeps (P : σ → Prop) (x : EStateM ε σ α) : Prop := ∀ s, P s → P (finalState (x s))

variable {P : σ → Prop}

/-- A call that only returns leaves the state as it is. -/
lemma keeps_pure (a : α) : Keeps P (pure a : EStateM ε σ α) := fun _ h => h

/-- A call that only fails leaves the state as it is. -/
lemma keeps_throw (err : ε) : Keeps P (throw err : EStateM ε σ α) := fun _ h => h

/-- A change of the state keeps what it keeps. -/
lemma keeps_modify {f : σ → σ} (hf : ∀ s, P s → P (f s)) :
    Keeps P (modify f : EStateM ε σ Unit) := hf

/-- **A chain keeps what its parts keep.** -/
lemma Keeps.bind {x : EStateM ε σ α} {f : α → EStateM ε σ β} (hx : Keeps P x)
    (hf : ∀ a, Keeps P (f a)) : Keeps P (x >>= f) := by
  intro s hs
  have hx := hx s hs
  cases h : x s with
  | ok a s' =>
    rw [h] at hx
    rw [bind_of_ok h]
    exact hf a s' hx
  | error err s' =>
    rw [h] at hx
    rw [bind_of_error h]
    exact hx

/-- **A loop keeps what its turns keep.** -/
lemma Keeps.forM_of_mem {f : α → EStateM ε σ PUnit} {l : List α} (hf : ∀ a ∈ l, Keeps P (f a)) :
    Keeps P (l.forM f) := by
  induction l with
  | nil => exact keeps_pure _
  | cons a l ih =>
    exact (hf a List.mem_cons_self).bind fun _ => ih fun b hb => hf b (List.mem_cons_of_mem a hb)

/-- A loop keeps what its body keeps. -/
lemma Keeps.forM {f : α → EStateM ε σ PUnit} (hf : ∀ a, Keeps P (f a)) (l : List α) :
    Keeps P (l.forM f) :=
  .forM_of_mem fun a _ => hf a

/-- A loop that carries a value keeps what its turns keep. -/
lemma Keeps.foldlM {f : β → α → EStateM ε σ β} (hf : ∀ b a, Keeps P (f b a)) (l : List α) (b : β) :
    Keeps P (l.foldlM f b) := by
  induction l generalizing b with
  | nil => exact keeps_pure b
  | cons a l ih =>
    rw [List.foldlM_cons]
    exact (hf b a).bind ih

/-- What holds when the computation stops early. -/
lemma Keeps.of_error {x : EStateM ε σ α} {s s' : σ} {err : ε} (hx : Keeps P x) (hs : P s)
    (h : x s = .error err s') : P s' := by
  have := hx s hs
  rwa [h] at this

/-! ### Loops -/

variable {f : α → EStateM ε σ PUnit} {I : List α → σ → Prop}

/-- A loop goes on after a turn that has returned. -/
lemma forM_cons_of_ok {a : α} {s s' : σ} (h : f a s = .ok () s') (l : List α) :
    (a :: l).forM f s = l.forM f s' := bind_of_ok h fun _ => l.forM f

/-- A loop ends with a turn that has failed. -/
lemma forM_cons_of_error {a : α} {s s' : σ} {err : ε} (h : f a s = .error err s') (l : List α) :
    (a :: l).forM f s = .error err s' := bind_of_error h fun _ => l.forM f

/-- **The rule for a loop.** What each turn that goes on adds to what the turns before it have done
holds at the end of the loop, or before the turn in which it stops.

**Proof sketch.** Induct on the list. A turn that stops ends the loop, and the turns before it are
none; a turn that goes on is moved to those that are done. -/
theorem forM_rule (hturn : ∀ done a s s', I done s → f a s = .ok () s' → I (done ++ [a]) s') :
    ∀ (l done : List α) {s : σ}, I done s →
      (∃ s', l.forM f s = .ok () s' ∧ I (done ++ l) s') ∨
        ∃ l₁ a l₂ s₁ err s', l = l₁ ++ a :: l₂ ∧ I (done ++ l₁) s₁ ∧ f a s₁ = .error err s' ∧
          l.forM f s = .error err s'
  | [], done, s, hs => .inl ⟨s, rfl, by rwa [List.append_nil]⟩
  | a :: l, done, s, hs => by
    cases h : f a s with
    | error err s' =>
      refine .inr ⟨[], a, l, s, err, s', rfl, by rwa [List.append_nil], h, ?_⟩
      exact forM_cons_of_error h l
    | ok u s' =>
      rw [forM_cons_of_ok h]
      rcases forM_rule hturn l (done ++ [a]) (hturn done a s s' hs h) with
        ⟨s₂, hok, hI⟩ | ⟨l₁, b, l₂, s₁, err, s₂, rfl, hI, herr, hstop⟩
      · exact .inl ⟨s₂, hok, by simpa using hI⟩
      · exact .inr ⟨a :: l₁, b, l₂, s₁, err, s₂, rfl, by simpa using hI, herr, hstop⟩

/-- **The rule for a loop in which no turn fails.**

**Proof sketch.** Induct on the rest of the list, for any turns that have been done before it. -/
theorem forM_ok {l : List α} (hturn : ∀ done a rest s, l = done ++ a :: rest → I done s →
    ∃ s', f a s = .ok () s' ∧ I (done ++ [a]) s') {s : σ} (hs : I [] s) :
    ∃ s', l.forM f s = .ok () s' ∧ I l s' := by
  have hloop : ∀ (rest done : List α) (s : σ), l = done ++ rest → I done s →
      ∃ s', rest.forM f s = .ok () s' ∧ I l s' := by
    intro rest
    induction rest with
    | nil =>
      intro done s hl hs
      rw [List.append_nil] at hl
      exact ⟨s, rfl, hl ▸ hs⟩
    | cons a rest ih =>
      intro done s hl hs
      obtain ⟨s', hok, hI⟩ := hturn done a rest s hl hs
      rw [forM_cons_of_ok hok]
      exact ih (done ++ [a]) s' (by rw [hl, List.append_assoc]; rfl) hI
  exact hloop l [] s rfl hs

end EarlyReturns
