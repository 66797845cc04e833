import Mathlib.Tactic.Common
import Fecore.Handlers.PoolClocks

set_option relaxedAutoImplicit false
set_option autoImplicit false

/-!
# The order of an idle pool

The calls on the idle pool of one function, each as a whole and none during another
(`AddIdleReplica`, `GetIdleReplica` and the sweep of `CleanupDaemon` in
`pkg/provider/handlers/function_store.go`), and what the three parts of the pool have to do with
each other between them.

## Main definitions

* `Fecore.IdleReplicas.cleanup` — the sweep of one pool, section by section.
* `Fecore.PoolCall`, `Fecore.Function.callStep` — the calls; `Fecore.clockedPool` is with a clock.
* `Fecore.IdleReplicas.InOrder` — the pool is one queue, from the `LRU` over `containers[]` to the
  `MRU`.

## Main results

* `Fecore.IdleReplicas.inOrder_sweep` — a section of the sweep keeps the order.
* `Fecore.callStep_inOrder`, `Fecore.inOrder_throughout` — so do every call and every run.
-/

namespace Fecore

namespace IdleReplicas

/-- What `CleanupDaemon` makes of one pool: expired replicas are taken from the old end, and then
the `MRU` is looked at. -/
def cleanup (cfg : Config) (currTs : Time) (p : IdleReplicas) : IdleReplicas :=
  match _h : p.sweep cfg currTs with
  | (p', .lru _) => cleanup cfg currTs p'
  | (p', .mru _) => p'
termination_by p.stored.length
decreasing_by
  have hstored := stored_sweep cfg currTs p
  rw [_h] at hstored
  rw [hstored.1, List.length_cons]
  exact Nat.lt_succ_self _

/-- **The pool is one queue**: there is nothing in `containers[]` without a replica at each end, no
replica is in it twice, and they stand in the order of their last use. -/
structure InOrder (p : IdleReplicas) : Prop where
  lru : p.lru = none → p.containers = []
  mru : p.mru = none → p.containers = []
  once : (p.stored.map Replica.uuid).Nodup
  sorted : p.stored.Pairwise fun r r' => r.lastAccess ≤ r'.lastAccess

end IdleReplicas

/-- A call on the pool of a function. -/
inductive PoolCall
  | addIdleReplica (replica : Replica) (now : Time)
  | getIdleReplica
  | cleanupDaemon (currTs : Time)

/-- The time that a call stamps on a replica of the pool. A sweep only looks at its own. -/
def PoolCall.stamp : PoolCall → Option Time
  | .addIdleReplica _ now => some now
  | .getIdleReplica => none
  | .cleanupDaemon _ => none

/-- The function after a call on its pool. -/
def Function.callStep (cfg : Config) (f : Function) : PoolCall → Option Function
  | .addIdleReplica replica now =>
    some { f with idleReplicas := f.idleReplicas.add replica now }
  | .getIdleReplica => some (f.takeIdle.elim f Prod.snd)
  | .cleanupDaemon currTs => some { f with idleReplicas := f.idleReplicas.cleanup cfg currTs }

/-- The calls on the pool of a function, with a clock that does not go back. -/
def clockedPool (cfg : Config) : Function × Time → PoolCall → Option (Function × Time) :=
  Clocks.clocked (Function.callStep cfg) PoolCall.stamp

/-- A replica that is added is not already in the pool. -/
def PoolCall.AddsNew (f : Function) : PoolCall → Prop
  | .addIdleReplica replica _ => replica.uuid ∉ f.idleReplicas.stored.map Replica.uuid
  | _ => True

/-- Whether a replica is new to the pool can be looked up. -/
instance (f : Function) : ∀ call : PoolCall, Decidable (call.AddsNew f)
  | .addIdleReplica replica _ =>
    inferInstanceAs (Decidable (replica.uuid ∉ f.idleReplicas.stored.map Replica.uuid))
  | .getIdleReplica => isTrue trivial
  | .cleanupDaemon _ => isTrue trivial

/-! ### The calls keep the order -/

namespace IdleReplicas

/-- The empty pool is a queue. -/
lemma inOrder_empty : ({} : IdleReplicas).InOrder where
  lru _ := rfl
  mru _ := rfl
  once := List.nodup_nil
  sorted := List.Pairwise.nil

/-- What stays of a queue is in order as the queue was. -/
lemma InOrder.of_sublist {p p' : IdleReplicas} (h : p.InOrder) (hsub : p'.stored.Sublist p.stored)
    (hlru : p'.lru = none → p'.containers = []) (hmru : p'.mru = none → p'.containers = []) :
    p'.InOrder where
  lru := hlru
  mru := hmru
  once := h.once.sublist (hsub.map Replica.uuid)
  sorted := h.sorted.sublist hsub

/-- In a queue `MRU` is set when `LRU` is. -/
lemma InOrder.ordered {p : IdleReplicas} (h : p.InOrder) : p.Ordered :=
  fun hcs hlru => hcs (h.lru hlru)

/-- A replica that is new, and used after all others, comes to the young end.

**Proof sketch.** Field by field. The new replica is the last one of the list: its identifier is
new, and no other was used after it. -/
lemma inOrder_add {p : IdleReplicas} (h : p.InOrder) {replica : Replica}
    (hnew : replica.uuid ∉ p.stored.map Replica.uuid) {now : Time}
    (hpast : ∀ r ∈ p.stored, r.lastAccess ≤ now) : (p.add replica now).InOrder := by
  refine ⟨fun hlru => ?_, fun hmru => ?_, ?_, ?_⟩
  · by_contra hcs
    exact ordered_add h.ordered replica now hcs hlru
  · unfold add at hmru
    split at hmru
    · nomatch hmru
    · dsimp only at hmru
      split at hmru <;> cases hmru
  · rw [stored_add, List.map_append, List.map_singleton]
    exact List.Nodup.append h.once (List.nodup_singleton _) (by simpa [Replica.accessed] using hnew)
  · rw [stored_add]
    refine List.pairwise_append.mpr ⟨h.sorted, List.pairwise_singleton _ _, fun r hr r' hr' => ?_⟩
    rw [List.mem_singleton.mp hr']
    exact hpast r hr

/-- **A section of the sweep keeps the order.**

**Proof sketch.** The `MRU` is taken out where the `LRU` has not expired. As all others were used
after it, that is the case only without an `LRU`, and then there is nothing in `containers[]`. -/
theorem inOrder_sweep {p : IdleReplicas} (h : p.InOrder) (cfg : Config) (currTs : Time) :
    (p.sweep cfg currTs).1.InOrder := by
  refine h.of_sublist (stored_sweep_sublist cfg currTs p) ?_ ?_
  · unfold sweep
    split
    · intro hlru
      by_contra hcs
      exact ordered_remove p hcs hlru
    · split
      · exact h.lru
      · exact h.lru
  · unfold sweep
    split
    next l hl =>
      intro hmru
      have hp : p.mru = none := by
        unfold remove at hmru
        split at hmru <;> exact hmru
      unfold remove
      rw [h.mru hp]
    next hl =>
      split
      next m hm =>
        intro _
        obtain ⟨hmru, hexpired⟩ := Option.filter_eq_some_iff.mp hm
        by_contra hcs
        obtain ⟨l, hlru⟩ := Option.ne_none_iff_exists'.mp fun hnone => hcs (h.lru hnone)
        have hmem : m ∈ p.containers ++ p.mru.toList := by simp [hmru]
        have hsorted := h.sorted
        rw [stored, hlru, Option.toList_some, List.append_assoc, List.singleton_append,
          List.pairwise_cons] at hsorted
        have hfresh := Option.filter_eq_none_iff.mp hl l hlru
        exact hfresh (Config.expired_mono (hsorted.1 m hmem) hexpired)
      next => exact h.mru

/-- **What each section of the sweep keeps** the whole sweep keeps. -/
lemma cleanup_of_sweep {cfg : Config} {currTs : Time} {P : IdleReplicas → Prop}
    (hsweep : ∀ p, P p → P (p.sweep cfg currTs).1) {p : IdleReplicas} (h : P p) :
    P (p.cleanup cfg currTs) := by
  fun_induction cleanup with
  | case1 p p' r hp ih =>
    have hsection := hsweep p h
    rw [hp] at hsection
    exact ih hsection
  | case2 p p' r hp =>
    have hsection := hsweep p h
    rw [hp] at hsection
    exact hsection

/-- A sweep keeps the queue. -/
lemma inOrder_cleanup {p : IdleReplicas} (h : p.InOrder) (cfg : Config) (currTs : Time) :
    (p.cleanup cfg currTs).InOrder :=
  cleanup_of_sweep (P := InOrder) (fun _ hp => inOrder_sweep hp cfg currTs) h

/-- The sweep keeps a sublist of the queue. -/
lemma stored_cleanup_sublist (cfg : Config) (currTs : Time) (p : IdleReplicas) :
    (p.cleanup cfg currTs).stored.Sublist p.stored :=
  cleanup_of_sweep (P := fun p' => p'.stored.Sublist p.stored)
    (fun p' hp' => (stored_sweep_sublist cfg currTs p').trans hp') (List.Sublist.refl _)

end IdleReplicas

/-- **A call of `GetIdleReplica` keeps the order.** Where it takes the `MRU`, the last one of
`containers[]` comes in its place.

**Proof sketch.** What is left is a sublist, so the order and the identifiers stay. Where the `MRU`
is taken, case split on whether there is a last one to take its place. -/
lemma Function.inOrder_takeIdle {f f' : Function} {r : Replica} (h : f.idleReplicas.InOrder)
    (htake : f.takeIdle = some (r, f')) : f'.idleReplicas.InOrder := by
  have hsub : f'.idleReplicas.stored.Sublist f.idleReplicas.stored := by
    rw [(takeIdle_spec htake).1]
    exact List.sublist_append_left _ _
  refine h.of_sublist hsub (fun hlru => ?_) fun hmru => ?_
  · by_contra hcs
    exact ordered_takeIdle h.ordered htake hcs hlru
  · unfold takeIdle at htake
    split at htake
    · cases htake
    · dsimp only at htake
      split at htake
      · cases htake
        cases hmru
      · next hlast =>
        cases htake
        exact List.getLast?_eq_none_iff.mp hlast

/-- **One call keeps the order.**

**Proof sketch.** A new replica has the latest time of all. `GetIdleReplica` and `CleanupDaemon`
only take replicas out, and put no other in their place than the next one. -/
lemma callStep_inOrder {cfg : Config} {s s' : Function × Time} {call : PoolCall}
    (h : s.1.idleReplicas.InOrder ∧ ∀ r ∈ s.1.idleReplicas.stored, r.lastAccess ≤ s.2)
    (hnew : call.AddsNew s.1) (hstep : clockedPool cfg s call = some s') :
    s'.1.idleReplicas.InOrder ∧ ∀ r ∈ s'.1.idleReplicas.stored, r.lastAccess ≤ s'.2 := by
  obtain ⟨f, now⟩ := s
  obtain ⟨f', now'⟩ := s'
  obtain ⟨hcall, hle, hnow⟩ := Clocks.clocked_eq_some.mp hstep
  dsimp only at h hcall hle hnow ⊢
  obtain ⟨hord, hpast⟩ := h
  cases call with
  | addIdleReplica replica time =>
    obtain rfl := Option.some.inj hcall
    obtain rfl : now' = time := hnow
    have hpast' : ∀ r ∈ f.idleReplicas.stored, r.lastAccess ≤ now' :=
      fun r hr => (hpast r hr).trans hle
    refine ⟨IdleReplicas.inOrder_add hord hnew hpast', fun r hr => ?_⟩
    rw [IdleReplicas.stored_add, List.mem_append, List.mem_singleton] at hr
    rcases hr with hr | rfl
    · exact hpast' r hr
    · exact le_rfl
  | getIdleReplica =>
    obtain rfl := Option.some.inj hcall
    obtain rfl : now' = now := hnow
    cases htake : f.takeIdle with
    | none => exact ⟨hord, hpast⟩
    | some taken =>
      obtain ⟨r, f₁⟩ := taken
      refine ⟨Function.inOrder_takeIdle hord htake, fun r' hr' => hpast r' ?_⟩
      rw [(Function.takeIdle_spec htake).1]
      exact List.mem_append_left _ hr'
  | cleanupDaemon currTs =>
    obtain rfl := Option.some.inj hcall
    obtain rfl : now' = now := hnow
    exact ⟨IdleReplicas.inOrder_cleanup hord cfg currTs, fun r hr =>
      hpast r ((IdleReplicas.stored_cleanup_sublist cfg currTs _).subset hr)⟩

/-- **An idle pool is one queue.** While the calls on the pool of a function come one after the
other, the clock does not go back and no replica is added that is in the pool already, there is
nothing in `containers[]` without a replica at each end, no replica is in the pool twice, and they
stand in the order of their last use.

**Proof sketch.** One call keeps the order (`callStep_inOrder`), and that no replica was used after
the last one was added. -/
theorem inOrder_throughout (cfg : Config) (f₀ : Function) (now₀ : Time) (calls : List PoolCall)
    (hnew : Runs.Along (clockedPool cfg) (fun s call => call.AddsNew s.1)
      ({ f₀ with idleReplicas := {} }, now₀) calls) :
    Runs.Throughout (clockedPool cfg) (fun s => s.1.idleReplicas.InOrder)
      ({ f₀ with idleReplicas := {} }, now₀) calls := by
  refine Runs.throughout_of_along
    (I := fun s => s.1.idleReplicas.InOrder ∧ ∀ r ∈ s.1.idleReplicas.stored, r.lastAccess ≤ s.2)
    (fun _ _ _ hI hok hstep => callStep_inOrder hI hok hstep) (fun _ hI => hI.1)
    ⟨IdleReplicas.inOrder_empty, fun _ hr => absurd hr List.not_mem_nil⟩ hnew

/-- Three replicas are added, one is taken and the rest is swept. -/
theorem inOrder_throughout_three :
    Runs.Throughout (clockedPool defaultConfig) (fun s => s.1.idleReplicas.InOrder)
      ({ exampleFunction with idleReplicas := {} }, 0)
      [.addIdleReplica (exampleReplica 'a') 1, .addIdleReplica (exampleReplica 'b') 2,
        .addIdleReplica (exampleReplica 'c') 2, .getIdleReplica, .cleanupDaemon 3] :=
  inOrder_throughout defaultConfig exampleFunction 0 _ (by decide)

end Fecore
