import Mathlib.Data.List.Basic
import Mathlib.Tactic.Common

set_option relaxedAutoImplicit false
set_option autoImplicit false

/-!
# Computations that hold locks

One thread computes on a state and takes and drops locks. It ends with a value or with a panic, and
either way leaves the state and the locks it still holds. What is deferred runs in both cases; what
stands after a panic does not.

## Main definitions

* `Locks.Comp`, `Locks.Outcome` — computations and how they end.
* `Locks.Comp.reads`, `updates`, `lock`, `unlock`, `deferring` — the steps of a computation.
* `Locks.Comp.locked` — a computation under a lock whose release is deferred.
* `Locks.Comp.Balanced` — the computation leaves the locks as it finds them.

## Main results

* `Locks.Comp.bind_of_ok`, `bind_of_error` — a computation after another.
* `Locks.Comp.Balanced.bind`, `Balanced.locked` — balanced computations; a deferred release makes up
  for a panic.
-/

namespace Locks

/-- How a computation ends: its value or its panic, the state, and the locks that are held. -/
structure Outcome (ι σ φ α : Type) where
  result : Except φ α
  state : σ
  held : List ι

/-- A computation from the locks that are held and the state. -/
def Comp (ι σ φ α : Type) := List ι → σ → Outcome ι σ φ α

namespace Comp

variable {ι σ φ α β : Type}

/-- Computations in a row: a fault ends them, with the locks that are held by then. -/
instance : Monad (Comp ι σ φ) where
  pure a := fun held s => ⟨.ok a, s, held⟩
  bind x f := fun held s =>
    match x held s with
    | ⟨.ok a, s', held'⟩ => f a held' s'
    | ⟨.error fault, s', held'⟩ => ⟨.error fault, s', held'⟩

/-- A look at the state, which may panic. -/
def reads (f : σ → Except φ α) : Comp ι σ φ α := fun held s => ⟨f s, s, held⟩

/-- A change of the state. -/
def updates (f : σ → σ) : Comp ι σ φ Unit := fun held s => ⟨.ok (), f s, held⟩

/-- A section on the state, which may panic after it has changed it. -/
def runs (f : σ → Except φ α × σ) : Comp ι σ φ α := fun held s => ⟨(f s).1, (f s).2, held⟩

/-- Takes a lock. -/
def lock (l : ι) : Comp ι σ φ Unit := fun held s => ⟨.ok (), s, l :: held⟩

/-- Drops a lock. -/
def unlock [DecidableEq ι] (l : ι) : Comp ι σ φ Unit := fun held s => ⟨.ok (), s, held.erase l⟩

/-- The computation, and then what is deferred, also after a panic. -/
def deferring (d : Comp ι σ φ Unit) (x : Comp ι σ φ α) : Comp ι σ φ α := fun held s =>
  match d (x held s).held (x held s).state with
  | ⟨.ok _, s', held'⟩ => ⟨(x held s).result, s', held'⟩
  | ⟨.error fault, s', held'⟩ => ⟨.error fault, s', held'⟩

/-- The computation under a lock whose release is deferred. -/
def locked [DecidableEq ι] (l : ι) (x : Comp ι σ φ α) : Comp ι σ φ α := do
  lock l
  deferring (unlock l) x

/-! ### Steps -/

/-- A value is returned with the state and the locks as they are. -/
@[simp] lemma pure_apply (a : α) (held : List ι) (s : σ) :
    (pure a : Comp ι σ φ α) held s = ⟨.ok a, s, held⟩ := rfl

/-- A read leaves the state and the locks as they are. -/
@[simp] lemma reads_apply (f : σ → Except φ α) (held : List ι) (s : σ) :
    reads f held s = ⟨f s, s, held⟩ := rfl

/-- A lock is held from then on. -/
@[simp] lemma lock_apply (l : ι) (held : List ι) (s : σ) :
    (lock l : Comp ι σ φ Unit) held s = ⟨.ok (), s, l :: held⟩ := rfl

/-- An unlock gives up one hold of the lock. -/
@[simp] lemma unlock_apply [DecidableEq ι] (l : ι) (held : List ι) (s : σ) :
    (unlock l : Comp ι σ φ Unit) held s = ⟨.ok (), s, held.erase l⟩ := rfl

/-- After a computation that has returned, the rest goes on from what it has left. -/
lemma bind_of_ok {x : Comp ι σ φ α} {held held' : List ι} {s s' : σ} {a : α}
    (h : x held s = ⟨.ok a, s', held'⟩) (f : α → Comp ι σ φ β) :
    (x >>= f) held s = f a held' s' := by
  change (match x held s with
    | ⟨.ok a, s', held'⟩ => f a held' s'
    | ⟨.error fault, s', held'⟩ => ⟨.error fault, s', held'⟩) = _
  rw [h]

/-- After a fault the rest is not run, and the locks stay held. -/
lemma bind_of_error {x : Comp ι σ φ α} {held held' : List ι} {s s' : σ} {fault : φ}
    (h : x held s = ⟨.error fault, s', held'⟩) (f : α → Comp ι σ φ β) :
    (x >>= f) held s = ⟨.error fault, s', held'⟩ := by
  change (match x held s with
    | ⟨.ok a, s', held'⟩ => f a held' s'
    | ⟨.error fault, s', held'⟩ => ⟨.error fault, s', held'⟩) = _
  rw [h]

/-- **A computation under a lock**: the lock is dropped however it ends. -/
lemma locked_apply [DecidableEq ι] (l : ι) (x : Comp ι σ φ α) (held : List ι) (s : σ) :
    locked l x held s =
      ⟨(x (l :: held) s).result, (x (l :: held) s).state, (x (l :: held) s).held.erase l⟩ :=
  bind_of_ok (lock_apply l held s) _

/-! ### Balanced computations -/

/-- **The computation leaves the locks as it finds them**, whether it returns or panics. -/
def Balanced (x : Comp ι σ φ α) : Prop := ∀ held s, (x held s).held = held

/-- A value holds no more locks than before. -/
lemma balanced_pure (a : α) : Balanced (pure a : Comp ι σ φ α) := fun _ _ => rfl

/-- A read holds no more locks than before. -/
lemma balanced_reads (f : σ → Except φ α) : Balanced (reads f : Comp ι σ φ α) := fun _ _ => rfl

/-- A run holds no more locks than before. -/
lemma balanced_runs (f : σ → Except φ α × σ) : Balanced (runs f : Comp ι σ φ α) := fun _ _ => rfl

/-- One balanced computation after another. -/
lemma Balanced.bind {x : Comp ι σ φ α} {f : α → Comp ι σ φ β} (hx : Balanced x)
    (hf : ∀ a, Balanced (f a)) : Balanced (x >>= f) := by
  intro held s
  rcases h : x held s with ⟨result, s', held'⟩
  have hheld : held' = held := by
    have := hx held s
    rwa [h] at this
  subst hheld
  cases result with
  | ok a => rw [bind_of_ok h, hf a]
  | error fault => rw [bind_of_error h]

/-- **A deferred release** makes a computation under a lock balanced, also where it panics. -/
lemma Balanced.locked [DecidableEq ι] {x : Comp ι σ φ α} (hx : Balanced x) (l : ι) :
    Balanced (locked l x) := by
  intro held s
  rw [locked_apply, hx, List.erase_cons_head]

end Comp

end Locks
