import Mathlib.Algebra.Group.Nat.Defs
import Mathlib.Data.List.Basic
import Mathlib.Tactic.Common
import Fecore.Concurrency.Runs
import Fecore.Handlers.Functions

set_option relaxedAutoImplicit false
set_option autoImplicit false

/-!
# The idle pool of a function

The sections of `AddIdleReplica`, `GetIdleReplica`, `RemoveIdleReplica` and `CleanupDaemon`
(`pkg/provider/handlers/function_store.go`) that run under `idleReplicasLock`, as functions on
one pool, and the runs they make.

The pool is meant to be one queue: replicas are added at the young end, taken back from the
young end, and swept at the old end. `Fecore.IdleReplicas.stored` is that queue; the lemmas
`stored_add`, `stored_remove`, `stored_sweep` and `stored_takeIdle` say what each section does
to it. The two claims of the file compare the code with the queue: when `GetIdleReplica` takes
the youngest replica, and when the counter is the length.

## Main definitions

* `Fecore.IdleReplicas.add`, `remove`, `sweep` — the sections that change the pool alone.
* `Fecore.Function.takeIdle` — the section of `GetIdleReplica`.
* `Fecore.PoolEvent`, `Fecore.Function.poolStep` — the steps of a run of one pool.

## Main results

* `Fecore.handsOutNewest_iff` — in every reachable pool `GetIdleReplica` takes the youngest
  replica, or finds none when none is stored, exactly when `MRU` is set or the pool is empty.
* `Fecore.count_throughout_iff` — `count` stays the number of stored replicas exactly along
  the runs whose steps meet `Fecore.CountKept`.
-/

namespace Fecore

namespace IdleReplicas

/-- The replicas stored in the pool, the oldest first. -/
def stored (p : IdleReplicas) : List Replica := p.lru.toList ++ p.containers ++ p.mru.toList

/-- The section of `AddIdleReplica`. -/
def add (p : IdleReplicas) (replica : Replica) (now : Time) : IdleReplicas :=
  let replica := replica.accessed now
  match p.mru with
  | none => { p with mru := some replica, count := p.count + 1 }
  | some mru =>
    if p.lru = none ∧ p.containers.length = 0 then
      { p with lru := some mru, mru := some replica, count := p.count + 1 }
    else
      -- push current MRU to containers[] slice, replace current MRU with replica
      { p with containers := p.containers ++ [mru], mru := some replica, count := p.count + 1 }

/-- `RemoveIdleReplica`: the next replica of `containers[]` becomes the `LRU`. -/
def remove (p : IdleReplicas) : IdleReplicas :=
  match p.containers with
  | c :: cs => { p with lru := some c, containers := cs, count := p.count - 1 }
  | [] => { p with lru := none, count := 0 }

/-- What one section of the sweep found: an expired `LRU`, which was removed and is deleted
after the lock is dropped, or no expired `LRU`; then the loop ends and an expired `MRU` is
removed. -/
inductive Swept
  | lru (r : Replica)
  | mru (r : Option Replica)
deriving DecidableEq

/-- One section of the sweep of a pool: from taking `idleReplicasLock` to dropping it. -/
def sweep (cfg : Config) (currTs : Time) (p : IdleReplicas) : IdleReplicas × Swept :=
  match p.lru.filter (cfg.expired currTs) with
  | some r => (p.remove, .lru r)
  | none =>
    match p.mru.filter (cfg.expired currTs) with
    | some r => ({ p with mru := none }, .mru (some r))
    | none => (p, .mru none)

/-! ### The sections on the queue of stored replicas -/

/-- Adding puts the replica, stamped with the time, at the young end. -/
lemma stored_add (p : IdleReplicas) (r : Replica) (now : Time) :
    (p.add r now).stored = p.stored ++ [r.accessed now] := by
  obtain ⟨cs, n, lru, mru⟩ := p
  cases mru with
  | none => simp [add, stored]
  | some m =>
    by_cases h : lru = none ∧ cs.length = 0
    · obtain ⟨rfl, hcs⟩ := h
      obtain rfl := List.length_eq_zero_iff.mp hcs
      simp [add, stored]
    · simp only [add, if_neg h]
      simp [stored]

/-- `RemoveIdleReplica` keeps a suffix of the queue. -/
lemma stored_remove_suffix (p : IdleReplicas) : p.remove.stored <:+ p.stored := by
  obtain ⟨cs, n, lru, mru⟩ := p
  cases cs with
  | nil => simp [remove, stored]
  | cons c cs => simp [remove, stored]

/-- With an `LRU` set, `RemoveIdleReplica` removes just that one. -/
lemma stored_remove {p : IdleReplicas} {r : Replica} (h : p.lru = some r) :
    p.stored = r :: p.remove.stored := by
  obtain ⟨cs, n, lru, mru⟩ := p
  obtain rfl : lru = some r := h
  cases cs <;> simp [remove, stored]

/-- A section of the sweep either removes an expired replica from the old end or from the young
end, or leaves the queue alone.

**Proof sketch.** Case split on the oldest replica: an expired one is the head of the list. If it is
not expired, case split on the youngest, which is its last. -/
lemma stored_sweep (cfg : Config) (currTs : Time) (p : IdleReplicas) :
    match p.sweep cfg currTs with
    | (p', .lru r) => p.stored = r :: p'.stored ∧ cfg.expired currTs r = true
    | (p', .mru (some r)) => p.stored = p'.stored ++ [r] ∧ cfg.expired currTs r = true
    | (p', .mru none) => p' = p := by
  unfold sweep
  cases hl : p.lru.filter (cfg.expired currTs) with
  | some r =>
    obtain ⟨hr, hexp⟩ := Option.filter_eq_some_iff.mp hl
    exact ⟨stored_remove hr, hexp⟩
  | none =>
    cases hm : p.mru.filter (cfg.expired currTs) with
    | some r =>
      obtain ⟨hr, hexp⟩ := Option.filter_eq_some_iff.mp hm
      refine ⟨?_, hexp⟩
      simp [stored, hr]
    | none => rfl

/-- An expired `LRU` was the oldest of the queue. -/
lemma stored_of_sweep_lru {cfg : Config} {currTs : Time} {p : IdleReplicas} {r : Replica}
    (h : (p.sweep cfg currTs).2 = .lru r) : p.stored = r :: p.remove.stored := by
  unfold sweep at h
  split at h
  · next r' hl =>
    obtain rfl : r' = r := by simpa using h
    exact stored_remove (Option.filter_eq_some_iff.mp hl).1
  · split at h <;> cases h

/-- An expired `MRU` was the youngest of the queue. -/
lemma stored_of_sweep_mru {cfg : Config} {currTs : Time} {p : IdleReplicas} {r : Replica}
    (h : (p.sweep cfg currTs).2 = .mru (some r)) :
    p.stored = { p with mru := none }.stored ++ [r] := by
  unfold sweep at h
  split at h
  · cases h
  · split at h
    · next r' hm =>
      obtain rfl : r' = r := by simpa using h
      simp [stored, (Option.filter_eq_some_iff.mp hm).1]
    · cases h

/-- A section of the sweep keeps a sublist of the queue. -/
lemma stored_sweep_sublist (cfg : Config) (currTs : Time) (p : IdleReplicas) :
    (p.sweep cfg currTs).1.stored.Sublist p.stored := by
  have h := stored_sweep cfg currTs p
  revert h
  rcases p.sweep cfg currTs with ⟨p', r | _ | r⟩
  · rintro ⟨h, -⟩
    exact h ▸ List.sublist_cons_self r p'.stored
  · rintro rfl
    exact List.Sublist.refl _
  · rintro ⟨h, -⟩
    exact h ▸ List.sublist_append_left p'.stored [r]

/-- While replicas sit in `containers[]`, an older one sits in `LRU`. -/
def Ordered (p : IdleReplicas) : Prop := p.containers ≠ [] → p.lru ≠ none

/-- An insertion keeps the shape of the pool: `MRU` is set when `LRU` is. -/
lemma ordered_add {p : IdleReplicas} (h : p.Ordered) (r : Replica) (now : Time) :
    (p.add r now).Ordered := by
  unfold add
  split
  · exact h
  · split
    · exact fun _ => by simp
    · next hne =>
      intro _ hlru
      refine hne ⟨hlru, ?_⟩
      by_contra hcs
      exact h (fun hnil => hcs (by rw [hnil]; rfl)) hlru

/-- A removal keeps the shape of the pool. -/
lemma ordered_remove (p : IdleReplicas) : p.remove.Ordered := by
  unfold remove
  split
  · exact fun _ => by simp
  · next hnil => exact fun hcs => absurd hnil hcs

end IdleReplicas

namespace Function

/-- The section of `GetIdleReplica`: `none` when the `MRU` is empty, else the recycled replica,
now recorded in `activeReplicas`, and the function after it. -/
def takeIdle (f : Function) : Option (Replica × Function) :=
  match f.idleReplicas.mru with
  | none => none
  | some recycled =>
    let active := f.activeReplicas.insert recycled.uuid recycled
    match f.idleReplicas.containers.getLast? with
    | some last =>
      -- if there's still a container in the slice, assign it to MRU
      some (recycled, { f with
        activeReplicas := active
        idleReplicas := { f.idleReplicas with
          mru := some last
          count := f.idleReplicas.count - 1
          containers := f.idleReplicas.containers.dropLast } })
    | none =>
      some (recycled, { f with
        activeReplicas := active
        idleReplicas := { f.idleReplicas with mru := none, count := 0 } })

/-- `GetIdleReplica` finds no replica exactly when the `MRU` is empty. -/
lemma takeIdle_eq_none {f : Function} : f.takeIdle = none ↔ f.idleReplicas.mru = none := by
  unfold takeIdle
  cases f.idleReplicas.mru with
  | none => simp
  | some r => cases f.idleReplicas.containers.getLast? <;> simp

/-- **What a successful `GetIdleReplica` does**: it takes the youngest replica off the queue,
records it in `activeReplicas` and changes nothing else. -/
lemma takeIdle_spec {f f' : Function} {r : Replica} (h : f.takeIdle = some (r, f')) :
    f.idleReplicas.stored = f'.idleReplicas.stored ++ [r] ∧
      f'.activeReplicas = f.activeReplicas.insert r.uuid r ∧
      f' = { f with activeReplicas := f'.activeReplicas, idleReplicas := f'.idleReplicas } := by
  obtain ⟨⟨cs, n, lru, mru⟩, hp⟩ : ∃ p, f.idleReplicas = p := ⟨_, rfl⟩
  cases mru with
  | none => simp [takeIdle, hp] at h
  | some m =>
    rcases List.eq_nil_or_concat cs with rfl | ⟨cs, c, rfl⟩
    · simp only [takeIdle, hp, List.getLast?_nil, Option.some.injEq, Prod.mk.injEq] at h
      obtain ⟨rfl, rfl⟩ := h
      simp [IdleReplicas.stored, hp]
    · simp only [takeIdle, hp, List.concat_eq_append, List.getLast?_concat,
        List.dropLast_concat, Option.some.injEq, Prod.mk.injEq] at h
      obtain ⟨rfl, rfl⟩ := h
      simp [IdleReplicas.stored, hp]

/-- A function that gives a replica out keeps the shape of its pool. -/
lemma ordered_takeIdle {f f' : Function} {r : Replica} (h : f.idleReplicas.Ordered)
    (htake : f.takeIdle = some (r, f')) : f'.idleReplicas.Ordered := by
  unfold takeIdle at htake
  split at htake
  · cases htake
  · dsimp only at htake
    split at htake
    · next last hlast =>
      cases htake
      refine fun _ => h fun hnil => ?_
      rw [hnil] at hlast
      cases hlast
    · cases htake
      exact h

end Function

/-! ### Runs of one pool -/

/-- A step on one idle pool. -/
inductive PoolEvent
  | add (r : Replica) (now : Time)
  | get
  | remove
  | sweep (currTs : Time)

/-- The function after a step on its pool; every step is enabled. -/
def Function.poolStep (cfg : Config) (f : Function) : PoolEvent → Option Function
  | .add r now => some { f with idleReplicas := f.idleReplicas.add r now }
  | .get => some (f.takeIdle.elim f Prod.snd)
  | .remove => some { f with idleReplicas := f.idleReplicas.remove }
  | .sweep currTs => some { f with idleReplicas := (f.idleReplicas.sweep cfg currTs).1 }

/-- The function after a run of steps on its pool. -/
def Function.poolRun (cfg : Config) (f : Function) : List PoolEvent → Function
  | [] => f
  | e :: es => ((f.poolStep cfg e).getD f).poolRun cfg es

/-- The replicas a run adds, in the order in which it adds them. -/
def added : List PoolEvent → List Replica
  | [] => []
  | .add r now :: es => r.accessed now :: added es
  | _ :: es => added es

/-- One step keeps a sublist of the queue, behind which it puts the replica it adds. -/
lemma poolStep_stored_sublist (cfg : Config) (f : Function) (e : PoolEvent) :
    (((f.poolStep cfg e).getD f).idleReplicas.stored).Sublist
      (f.idleReplicas.stored ++ added [e]) := by
  cases e with
  | add r now => simp [Function.poolStep, added, IdleReplicas.stored_add]
  | get =>
    cases h : f.takeIdle with
    | none => simp [Function.poolStep, added, h]
    | some rf =>
      obtain ⟨hst, -, -⟩ := Function.takeIdle_spec h
      simp [Function.poolStep, added, h, hst]
  | remove =>
    simpa [Function.poolStep, added] using (IdleReplicas.stored_remove_suffix _).sublist
  | sweep currTs =>
    simpa [Function.poolStep, added] using IdleReplicas.stored_sweep_sublist cfg currTs _

/-- The queue lists its replicas in the order in which the run added them. -/
lemma poolRun_stored_sublist (cfg : Config) (f : Function) (es : List PoolEvent) :
    (f.poolRun cfg es).idleReplicas.stored.Sublist (f.idleReplicas.stored ++ added es) := by
  induction es generalizing f with
  | nil => simp [Function.poolRun, added]
  | cons e es ih =>
    have hstep := poolStep_stored_sublist cfg f e
    have hadd : added (e :: es) = added [e] ++ added es := by cases e <;> rfl
    rw [hadd, ← List.append_assoc]
    exact (ih _).trans (hstep.append_right _)

/-- What `GetIdleReplica` is for, on a pool filled by adding `history`: it fails only when no
replica is stored; otherwise it takes the stored replica added last, which the stored replicas
being listed in the order of `history` makes the last one of the queue, records it in
`activeReplicas`, and leaves the others stored in the same order. -/
def HandsOutNewest (history : List Replica) (f : Function) : Prop :=
  f.idleReplicas.stored.Sublist history ∧
    match f.takeIdle with
    | none => f.idleReplicas.stored = []
    | some (r, f') => f.idleReplicas.stored = f'.idleReplicas.stored ++ [r] ∧
        f'.activeReplicas = f.activeReplicas.insert r.uuid r

/-- **When `GetIdleReplica` takes the newest replica.** In every pool reached by adding, taking,
removing and sweeping, `GetIdleReplica` does what it is for exactly when the `MRU` is set or
the pool is empty.

**Proof sketch.** With the `MRU` set the call succeeds, and `takeIdle_spec` says what it does.
With the `MRU` empty it fails, which is right only when nothing is stored. -/
theorem handsOutNewest_iff (cfg : Config) (f₀ : Function) (es : List PoolEvent) :
    HandsOutNewest (added es) (Function.poolRun cfg { f₀ with idleReplicas := {} } es) ↔
      (Function.poolRun cfg { f₀ with idleReplicas := {} } es).idleReplicas.mru ≠ none ∨
        (Function.poolRun cfg { f₀ with idleReplicas := {} } es).idleReplicas.stored = [] := by
  have hsub := poolRun_stored_sublist cfg { f₀ with idleReplicas := {} } es
  have hnil : ({} : IdleReplicas).stored = [] := rfl
  simp only [hnil, List.nil_append] at hsub
  generalize Function.poolRun cfg { f₀ with idleReplicas := {} } es = f at hsub ⊢
  cases h : f.takeIdle with
  | none => simp [HandsOutNewest, h, hsub, Function.takeIdle_eq_none.mp h]
  | some rf =>
    have hmru : f.idleReplicas.mru ≠ none := by
      intro hn
      rw [Function.takeIdle_eq_none.mpr hn] at h
      exact absurd h (by simp)
    obtain ⟨hst, hact, -⟩ := Function.takeIdle_spec h
    refine ⟨fun _ => Or.inl hmru, fun _ => ⟨hsub, ?_⟩⟩
    rw [h]
    exact ⟨hst, hact⟩

section Examples

/-- A function with an empty pool. -/
def exampleFunction : Function := { name := "f-n".toList, namespace_ := [], image := [] }

/-- The native replica number `n` of `exampleFunction`. -/
def exampleReplica (n : Char) : Replica :=
  { fname := "f-n".toList, ctrType := native, uuid := "f-n_".toList ++ [n] ++ "_n".toList,
    pid := 1, ip := "10.62.0.2".toList, netNS := 0, lastAccess := 0 }

/-- The limits of `CreateDefaultConfig`. -/
def defaultConfig : Config :=
  { maxWasmContainers := 500, maxNativeContainers := 500, containerExpirationTime := 60 }

/-- Two replicas are added and one is taken: the other one sits in the `LRU`, and the next
`GetIdleReplica` does not find it. -/
theorem not_handsOutNewest_add_add_get :
    ¬ HandsOutNewest (added [.add (exampleReplica 'a') 0, .add (exampleReplica 'b') 1, .get])
      (exampleFunction.poolRun defaultConfig
        [.add (exampleReplica 'a') 0, .add (exampleReplica 'b') 1, .get]) := by
  rintro ⟨-, h⟩
  have hnone : (exampleFunction.poolRun defaultConfig
      [.add (exampleReplica 'a') 0, .add (exampleReplica 'b') 1, .get]).takeIdle = none := by
    decide
  rw [hnone] at h
  exact absurd h (by decide)

end Examples

/-! ### The counter -/

/-- `count` is the number of replicas really stored. -/
def CountExact (f : Function) : Prop :=
  f.idleReplicas.count.toNat = f.idleReplicas.stored.length

/-- `RemoveIdleReplica` finds an `LRU` to drop when it shifts `containers[]`, and nothing left
behind when it resets the counter. -/
def RemoveKeepsCount (p : IdleReplicas) : Prop :=
  (p.containers ≠ [] → p.lru ≠ none) ∧ (p.containers = [] → p.mru = none)

/-- What one step needs for the counter to stay exact: an addition does not wrap the counter
around, a removal that resets the counter to zero leaves the pool empty, and a section of the
sweep does not remove an expired `MRU`, which leaves the counter alone. -/
def CountKept (cfg : Config) (f : Function) : PoolEvent → Prop
  | .add _ _ => f.idleReplicas.stored.length + 1 < 2 ^ 32
  | .get => f.idleReplicas.mru ≠ none → f.idleReplicas.containers = [] → f.idleReplicas.lru = none
  | .remove => RemoveKeepsCount f.idleReplicas
  | .sweep currTs =>
    if f.idleReplicas.lru.any (cfg.expired currTs) then RemoveKeepsCount f.idleReplicas
    else f.idleReplicas.mru.any (cfg.expired currTs) = false

/-- Counting one more is right below `2 ^ 32`. -/
lemma toNat_add_one_eq_iff {n : UInt32} {k : ℕ} (h : n.toNat = k) :
    (n + 1).toNat = k + 1 ↔ k + 1 < 2 ^ 32 := by
  have := n.toNat_lt
  rw [UInt32.toNat_add]
  simp only [UInt32.reduceToNat]
  omega

/-- Counting one less is right above zero. -/
lemma toNat_sub_one {n : UInt32} {k : ℕ} (h : n.toNat = k + 1) : (n - 1).toNat = k := by
  have := n.toNat_lt
  rw [UInt32.toNat_sub]
  simp only [UInt32.reduceToNat]
  omega

/-- An exact counter stays exact over `RemoveIdleReplica` exactly when the call keeps it. -/
lemma IdleReplicas.remove_count_iff {p : IdleReplicas} (h : p.count.toNat = p.stored.length) :
    p.remove.count.toNat = p.remove.stored.length ↔ RemoveKeepsCount p := by
  obtain ⟨cs, n, lru, mru⟩ := p
  cases cs with
  | nil => cases mru <;> simp [IdleReplicas.remove, IdleReplicas.stored, RemoveKeepsCount]
  | cons c cs =>
    have hn : (n - 1).toNat = lru.toList.length + cs.length + mru.toList.length := by
      refine toNat_sub_one ?_
      simp only [IdleReplicas.stored, List.length_append, List.length_cons] at h
      omega
    simp only [IdleReplicas.remove, IdleReplicas.stored, RemoveKeepsCount, hn, List.length_append]
    cases lru with
    | none => simp
    | some l => simp [Nat.add_comm]

/-- **One step and the counter.** From an exact counter a step leads to an exact counter
exactly when it meets `CountKept`.

**Proof sketch.** By cases on the step. An addition adds one to both sides; the counter wraps
around at `2 ^ 32`. A removal that shifts `containers[]` takes one off both sides, one that
resets the counter must leave nothing stored. The sweep removes an expired `MRU` without
touching the counter. -/
lemma poolStep_countExact_iff (cfg : Config) {f f' : Function} {e : PoolEvent}
    (h : CountExact f) (hstep : f.poolStep cfg e = some f') :
    CountExact f' ↔ CountKept cfg f e := by
  cases e with
  | add r now =>
    obtain rfl := Option.some.inj hstep
    have hcount : (f.idleReplicas.add r now).count = f.idleReplicas.count + 1 := by
      unfold IdleReplicas.add
      cases f.idleReplicas.mru <;> dsimp only
      split <;> rfl
    simp only [CountExact, CountKept, IdleReplicas.stored_add, hcount, List.length_append,
      List.length_singleton]
    exact toNat_add_one_eq_iff h
  | get =>
    obtain rfl := Option.some.inj hstep
    obtain ⟨⟨cs, n, lru, mru⟩, hp⟩ : ∃ p, f.idleReplicas = p := ⟨_, rfl⟩
    cases mru with
    | none =>
      have hnone : f.takeIdle = none := Function.takeIdle_eq_none.mpr (by rw [hp])
      simpa [CountKept, hnone, hp] using h
    | some m =>
      rcases List.eq_nil_or_concat cs with rfl | ⟨cs, c, rfl⟩
      · cases lru <;> simp [CountExact, CountKept, Function.takeIdle, IdleReplicas.stored, hp]
      · have hn : (n - 1).toNat = lru.toList.length + cs.length + 1 := by
          refine toNat_sub_one ?_
          simp [CountExact, IdleReplicas.stored, hp] at h
          omega
        simp [CountExact, CountKept, Function.takeIdle, IdleReplicas.stored, hp, hn]
        omega
  | remove =>
    obtain rfl := Option.some.inj hstep
    exact IdleReplicas.remove_count_iff h
  | sweep currTs =>
    obtain rfl := Option.some.inj hstep
    have hst := IdleReplicas.stored_sweep cfg currTs f.idleReplicas
    cases hl : f.idleReplicas.lru.filter (cfg.expired currTs) with
    | some r =>
      have hany : f.idleReplicas.lru.any (cfg.expired currTs) = true := by
        obtain ⟨hr, hexp⟩ := Option.filter_eq_some_iff.mp hl
        simp [hr, hexp]
      have hsw : f.idleReplicas.sweep cfg currTs = (f.idleReplicas.remove, .lru r) := by
        simp [IdleReplicas.sweep, hl]
      simp only [CountExact, CountKept, hsw, hany, if_true]
      exact IdleReplicas.remove_count_iff h
    | none =>
      have hany : f.idleReplicas.lru.any (cfg.expired currTs) = false := by
        cases hr : f.idleReplicas.lru with
        | none => rfl
        | some r => simpa [hr, Option.filter] using hl
      cases hm : f.idleReplicas.mru.filter (cfg.expired currTs) with
      | some r =>
        obtain ⟨hr, hexp⟩ := Option.filter_eq_some_iff.mp hm
        have hsw : f.idleReplicas.sweep cfg currTs =
            ({ f.idleReplicas with mru := none }, .mru (some r)) := by
          simp [IdleReplicas.sweep, hl, hm]
        rw [hsw] at hst
        have hlen := congrArg List.length hst.1
        simp only [CountExact, CountKept, hsw, hany, hr, hexp, Option.any_some]
        simp only [CountExact, List.length_append, List.length_singleton] at h hlen
        simp
        omega
      | none =>
        have hsw : f.idleReplicas.sweep cfg currTs = (f.idleReplicas, .mru none) := by
          simp [IdleReplicas.sweep, hl, hm]
        have hmany : f.idleReplicas.mru.any (cfg.expired currTs) = false := by
          cases hr : f.idleReplicas.mru with
          | none => rfl
          | some r => simpa [hr, Option.filter] using hm
        simpa [CountKept, hsw, hany, hmany] using h

/-- **When the counter is the number of stored replicas.** Starting from the empty pool of a
fresh deployment, `count` equals the number of stored replicas in every state of a run exactly
when every step of the run meets `CountKept`.

**Proof sketch.** `poolStep_countExact_iff` for one step, and the rule for exact step
conditions. -/
theorem count_throughout_iff (cfg : Config) (f₀ : Function) (es : List PoolEvent) :
    Runs.Throughout (Function.poolStep cfg) CountExact { f₀ with idleReplicas := {} } es ↔
      Runs.Along (Function.poolStep cfg) (CountKept cfg) { f₀ with idleReplicas := {} } es :=
  Runs.throughout_iff_along (fun _ _ _ h hstep => poolStep_countExact_iff cfg h hstep) rfl

/-- Two replicas are added and one is taken: the counter says zero, and one replica is
stored. -/
theorem not_countExact_add_add_get :
    ¬ CountExact (exampleFunction.poolRun defaultConfig
      [.add (exampleReplica 'a') 0, .add (exampleReplica 'b') 1, .get]) := by
  unfold CountExact
  decide

end Fecore
