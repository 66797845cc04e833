import Mathlib.Algebra.Order.BigOperators.Group.List
import Mathlib.Algebra.Order.Group.Int
import Mathlib.Tactic.Common
import Fecore.Concurrency.Interleaving
import Fecore.Data.Assoc
import Fecore.Handlers.WellFormed

set_option relaxedAutoImplicit false
set_option autoImplicit false

/-!
# Who owns a replica

A replica is one token. It is made once, under a fresh name, in the hands of the goroutine that
creates it, and moves between the idle pool of a function, `activeReplicas`, and the hands of a
goroutine that releases or sweeps it, until a deletion takes it.

The ledger of a name adds up all its places. Every section keeps it: what one section takes out
of a place it puts into at most one other. One section does not when functions are deleted: a
sweep that holds a pointer to a function which has been deployed anew finds the expired replica in
the old object and removes one from the new. So there are two ledgers: one without the hands of
the sweeps and without the deleted replicas, for all runs, and one with them, for the runs in which
no function is deleted.

## Main definitions

* `Fecore.World.places`, `Fecore.Thread.places` — the places of a name in the store and in the
  hands of a goroutine.

## Main results

* `Fecore.section_places_le` — one section keeps the ledger.
* `Fecore.Reachable.places_le_one` — the ledger of every name is at most one in every run.
-/

namespace Fecore

/-! ### The places of a name -/

/-- How often the idle pool of a function has the replica. -/
def Function.idleCount (f : Function) (u : Str) : ℕ :=
  f.idleReplicas.stored.countP fun r => r.uuid = u

/-- How often the active replicas of a function have the replica. -/
def Function.activeCount (f : Function) (u : Str) : ℕ :=
  f.activeReplicas.count fun e => e.2.uuid = u

/-- How often a function has the replica. -/
def Function.places (f : Function) (u : Str) : ℤ := f.idleCount u + f.activeCount u

/-- One when the name is `u`. -/
def one (name : Option Str) (u : Str) : ℤ := if name = some u then 1 else 0

/-- How often the functions have the replica. -/
def World.held (w : World) (u : Str) : ℤ := (w.heap.map (·.places u)).sum

/-- How often the replica has been deleted. -/
def World.deleted (w : World) (u : Str) : ℤ := (w.deleteCalls.countP fun call => call.2 = u : ℕ)

/-- One when no replica has been given the name yet. -/
def World.unborn (w : World) (u : Str) : ℤ := if u ∈ w.created then 0 else 1

/-- The places of a name in the store; a strict ledger has the deletions too. -/
def World.places (strict : Bool) (u : Str) (w : World) : ℤ :=
  w.unborn u + w.held u + if strict then w.deleted u else 0

/-- The replica that a creation is about to hand over. -/
def CreatePc.carried : CreatePc → Option Str
  | .storage replicaName _ => some replicaName
  | .net replicaName => some replicaName
  | .start replicaName _ => some replicaName
  | .add replica => some replica.uuid
  | _ => none

/-- The replica in the hands of an invocation: one it creates or one it releases. -/
def RequestPc.carried : RequestPc → Option Str
  | .create _ pc => pc.carried
  | .look _ (some replica) => some replica.uuid
  | .give replica => some replica.uuid
  | .del replica => some replica.uuid
  | _ => none

/-- The replica in the hands of a sweep. -/
def SweepPc.carried : SweepPc → Option Str
  | .del _ _ _ _ replica => some replica.uuid
  | _ => none

/-- The places of a name in the hands of a goroutine; a strict ledger has the sweeps too. -/
def Thread.places (strict : Bool) (u : Str) : Thread → ℤ
  | .request _ pc => one pc.carried u
  | .spawn _ pc => one pc.carried u
  | .sweep pc => if strict then one pc.carried u else 0
  | .deploy (.map fn) => fn.places u
  | _ => 0

/-! ### Places are not negative -/

/-- A name is not another one less than not at all. -/
lemma one_nonneg (name : Option Str) (u : Str) : 0 ≤ one name u := by
  unfold one
  split <;> decide

/-- A name is another one at most once. -/
lemma one_le_one (name : Option Str) (u : Str) : one name u ≤ 1 := by
  unfold one
  split <;> omega

/-- Where there is no name there is none. -/
@[simp] lemma one_none (u : Str) : one none u = 0 := by simp [one]

/-- A name is one of itself. -/
@[simp] lemma one_some_self (u : Str) : one (some u) u = 1 := by simp [one]

/-- A function does not have a replica less than never. -/
lemma Function.places_nonneg (f : Function) (u : Str) : 0 ≤ f.places u := by
  unfold Function.places
  omega

/-- The functions do not have a replica less than never. -/
lemma World.held_nonneg (w : World) (u : Str) : 0 ≤ w.held u :=
  Interleaving.sum_map_nonneg (fun f => f.places_nonneg u) _

/-- A name is unborn or not. -/
lemma World.unborn_nonneg (w : World) (u : Str) : 0 ≤ w.unborn u := by
  unfold World.unborn
  split <;> decide

/-- A replica has not been deleted less than never. -/
lemma World.deleted_nonneg (w : World) (u : Str) : 0 ≤ w.deleted u := Int.natCast_nonneg _

/-- A name has no negative number of places in the store. -/
lemma World.places_nonneg (strict : Bool) (u : Str) (w : World) : 0 ≤ w.places strict u := by
  have h₁ := w.unborn_nonneg u
  have h₂ := w.held_nonneg u
  have h₃ := w.deleted_nonneg u
  unfold World.places
  split <;> omega

/-- A name has no negative number of places in the hands of a goroutine. -/
lemma Thread.places_nonneg (strict : Bool) (u : Str) (t : Thread) : 0 ≤ t.places strict u := by
  unfold Thread.places
  split
  · exact one_nonneg _ _
  · exact one_nonneg _ _
  · split
    · exact one_nonneg _ _
    · exact le_rfl
  · exact Function.places_nonneg _ _
  · exact le_rfl

/-- A function of the heap has at most what all of them have. -/
lemma World.places_le_held {w : World} {f : Function} (hf : f ∈ w.heap) (u : Str) :
    f.places u ≤ w.held u := by
  obtain ⟨o, ho⟩ := List.mem_iff_getElem?.mp hf
  exact Interleaving.le_sum_of_getElem? (h := fun f => f.places u) (fun g => g.places_nonneg u) ho

/-! ### The places of a name after a write -/

section Writes

variable {w w' : World}

/-- An update of a function changes what the functions have by what it changes in that one. -/
lemma World.held_setFn {o : Ref} {f : Function} (ho : w.heap[o]? = some f) (f' : Function)
    (u : Str) : (w.setFn o f').held u + f.places u = w.held u + f'.places u :=
  Interleaving.sum_map_set_add (fun g : Function => g.places u) f' ho

/-- An update of a function changes the places in the store by what it changes in that one. -/
lemma World.places_setFn {o : Ref} {f : Function} (ho : w.heap[o]? = some f) (strict : Bool)
    (u : Str) (f' : Function) :
    (w.setFn o f').places strict u + f.places u = w.places strict u + f'.places u := by
  have h := World.held_setFn ho f' u
  have hrest : (w.setFn o f').places strict u =
      w.unborn u + (w.setFn o f').held u + if strict then w.deleted u else 0 := rfl
  rw [hrest, World.places]
  omega

/-- A fresh name is no longer unborn once it is given. -/
lemma World.unborn_cons {name : Str} (hfresh : name ∉ w.created) (u : Str) :
    (if u ∈ name :: w.created then (0 : ℤ) else 1) + one (some name) u = w.unborn u := by
  unfold World.unborn one
  by_cases hname : name = u
  · subst hname
    simp [hfresh]
  · simp [hname, Ne.symm hname]

/-- A token that is made from a fresh name is no longer unborn. -/
lemma World.places_born {name u : Str} {strict : Bool} (hfresh : name ∉ w.created)
    (hcreated : w'.created = name :: w.created) (hheap : w'.heap = w.heap)
    (hcalls : w'.deleteCalls = w.deleteCalls) :
    w'.places strict u + one (some name) u = w.places strict u := by
  have hborn := World.unborn_cons hfresh u
  have hunborn : w'.unborn u = if u ∈ name :: w.created then 0 else 1 := by
    rw [World.unborn, hcreated]
  have hheld : w'.held u = w.held u := by rw [World.held, hheap, World.held]
  have hdeleted : w'.deleted u = w.deleted u := by rw [World.deleted, hcalls, World.deleted]
  simp only [World.places, hunborn, hheld, hdeleted]
  omega

/-- A deployment puts a new object behind the others. -/
lemma World.places_putFunction (f : Function) (strict : Bool) (u : Str) :
    (w.putFunction f).places strict u = w.places strict u + f.places u := by
  have hheld : (w.putFunction f).held u = w.held u + f.places u := by
    simp [World.held, World.putFunction]
  have hrest : (w.putFunction f).places strict u =
      w.unborn u + (w.putFunction f).held u + if strict then w.deleted u else 0 := rfl
  rw [hrest, hheld, World.places]
  omega

/-- A ledger that is not strict is about the functions and the names only. -/
lemma World.places_of_sameStore (h : SameStore w w') (u : Str) :
    w'.places false u = w.places false u := by
  simp only [World.places, World.unborn, World.held, h.created, h.heap, Bool.false_eq_true,
    if_false]

/-- A deletion of a replica takes one token, in a strict ledger.

**Proof sketch.** A deletion leaves the store, so it moves no token but its own: the names that were
made and the replicas that are held stay, and at most the one call of the deletion is new. -/
lemma World.places_deleteReplica {a : Answers} {r : Replica} {fault : Option Fault}
    (h : w.deleteReplica a r = (w', fault)) (strict : Bool) (u : Str) :
    w'.places strict u ≤ w.places strict u + if strict then one (some r.uuid) u else 0 := by
  have hsame := sameStore_of_deleteReplica h
  have hcalls := w.deleteIn_deleteCalls defaultFunctionNamespace a r
  rw [World.deleteReplica] at h
  rw [h] at hcalls
  have hunborn : w'.unborn u = w.unborn u := by rw [World.unborn, hsame.created, World.unborn]
  have hheld : w'.held u = w.held u := by rw [World.held, hsame.heap, World.held]
  have hdel : w'.deleted u ≤ w.deleted u + one (some r.uuid) u := by
    have hone := one_nonneg (some r.uuid) u
    dsimp only at hcalls
    simp only [World.deleted, hcalls]
    split
    · simp only [List.countP_cons, one, Option.some.injEq, decide_eq_true_eq]
      split <;> simp
    · omega
  simp only [World.places, hunborn, hheld]
  split <;> omega

/-- A deletion of a replica makes at most one token, in any ledger. -/
lemma World.places_deleteReplica_le {a : Answers} {r : Replica} {fault : Option Fault}
    (h : w.deleteReplica a r = (w', fault)) (strict : Bool) (u : Str) :
    w'.places strict u ≤ w.places strict u + one (some r.uuid) u := by
  have hle := World.places_deleteReplica h strict u
  have hone := one_nonneg (some r.uuid) u
  split at hle <;> omega

end Writes

/-! ### The places of a name after a change of a function -/

namespace Function

variable {f : Function}

/-- The replica that `AddIdleReplica` inserts gets one place more. -/
lemma places_add (u : Str) (r : Replica) (now : Time) :
    { f with idleReplicas := f.idleReplicas.add r now }.places u =
      f.places u + one (some r.uuid) u := by
  have hidle : { f with idleReplicas := f.idleReplicas.add r now }.idleCount u =
      f.idleCount u + if r.uuid = u then 1 else 0 := by
    by_cases h : r.uuid = u <;> simp [idleCount, IdleReplicas.stored_add, h]
  have hact : { f with idleReplicas := f.idleReplicas.add r now }.activeCount u =
      f.activeCount u := rfl
  simp only [places, hidle, hact, one, Option.some.injEq]
  split <;> omega

/-- A replica that becomes active gets one place more at most. -/
lemma places_insertActive_le (u : Str) (r : Replica) :
    { f with activeReplicas := f.activeReplicas.insert r.uuid r }.places u ≤
      f.places u + one (some r.uuid) u := by
  have hact : { f with activeReplicas := f.activeReplicas.insert r.uuid r }.activeCount u ≤
      f.activeCount u + if r.uuid = u then 1 else 0 := by
    simpa [activeCount] using AList.count_insert_le (p := fun e => decide (e.2.uuid = u))
      (s := f.activeReplicas) (a := r.uuid) (b := r)
  simp only [places, one, Option.some.injEq]
  split at hact <;> simp [idleCount, *] at hact ⊢ <;> omega

/-- Taking an idle replica moves its token to `activeReplicas`. -/
lemma places_takeIdle_le (u : Str) {f' : Function} {r : Replica} (h : f.takeIdle = some (r, f')) :
    f'.places u ≤ f.places u := by
  obtain ⟨hst, hact, -⟩ := takeIdle_spec h
  have hidle : f.idleCount u = f'.idleCount u + if r.uuid = u then 1 else 0 := by
    simp [idleCount, hst]
  have hactive : f'.activeCount u ≤ f.activeCount u + if r.uuid = u then 1 else 0 := by
    simp only [activeCount, hact]
    simpa using AList.count_insert_le (p := fun e => decide (e.2.uuid = u))
      (s := f.activeReplicas) (a := r.uuid) (b := r)
  simp only [places, hidle]
  omega

/-- Taking an active replica takes its token out of the function. -/
lemma places_eraseActive (u : Str) (name : Str) :
    { f with activeReplicas := f.activeReplicas.erase name }.places u +
      one ((f.activeReplicas.lookup name).map (·.uuid)) u = f.places u := by
  cases h : f.activeReplicas.lookup name with
  | none => simp [AList.erase_of_lookup_eq_none h]
  | some r =>
    have hact := AList.count_erase_of_lookup (p := fun e => decide (e.2.uuid = u)) h
    simp only [decide_eq_true_eq] at hact
    simp only [places, activeCount, idleCount, hact, Option.map_some, one, Option.some.injEq]
    split <;> omega

/-- Removing from the pool never adds a token. -/
lemma places_remove_le (f : Function) (u : Str) :
    { f with idleReplicas := f.idleReplicas.remove }.places u ≤ f.places u := by
  have h : f.idleReplicas.remove.stored.countP (fun r => decide (r.uuid = u)) ≤
      f.idleReplicas.stored.countP (fun r => decide (r.uuid = u)) :=
    (IdleReplicas.stored_remove_suffix _).sublist.countP_le
  simp only [places, idleCount, activeCount]
  omega

/-- The sweep takes the token of an expired `LRU` out of the function. -/
lemma places_sweep_lru (u : Str) {cfg : Config} {currTs : Time} {r : Replica}
    (h : (f.idleReplicas.sweep cfg currTs).2 = .lru r) :
    { f with idleReplicas := f.idleReplicas.remove }.places u + one (some r.uuid) u =
      f.places u := by
  have hst := IdleReplicas.stored_of_sweep_lru h
  simp only [places, idleCount, activeCount, hst, List.countP_cons, one, Option.some.injEq,
    decide_eq_true_eq]
  split <;> omega

/-- The sweep takes the token of an expired `MRU` out of the function. -/
lemma places_sweep_mru (u : Str) {cfg : Config} {currTs : Time} {r : Replica}
    (h : (f.idleReplicas.sweep cfg currTs).2 = .mru (some r)) :
    { f with idleReplicas := { f.idleReplicas with mru := none } }.places u +
      one (some r.uuid) u = f.places u := by
  have hst := IdleReplicas.stored_of_sweep_mru h
  simp only [places, idleCount, activeCount, hst, List.countP_append, List.countP_singleton,
    one, Option.some.injEq, decide_eq_true_eq]
  split <;> omega

end Function

/-- An expired `MRU` that is deleted leaves its place, for that of a deletion in a strict ledger. -/
lemma World.places_sweep_mru_le {w w' : World} {a : Answers} {fault : Option Fault} {fn : Ref}
    {f : Function} {cfg : Config} {currTs : Time} {r : Replica} (hf : w.heap[fn]? = some f)
    (hsweep : (f.idleReplicas.sweep cfg currTs).2 = .mru (some r))
    (hdel : (w.setFn fn { f with
      idleReplicas := { f.idleReplicas with mru := none } }).deleteReplica a r = (w', fault))
    (strict : Bool) (u : Str) :
    w'.places strict u + one (some r.uuid) u ≤
      w.places strict u + if strict then one (some r.uuid) u else 0 := by
  have hset := World.places_setFn hf strict u { f with
    idleReplicas := { f.idleReplicas with mru := none } }
  have hswept := Function.places_sweep_mru u hsweep
  have hdeleted := World.places_deleteReplica hdel strict u
  split at hdeleted <;> simp_all <;> omega

/-! ### One section -/

/-- The replica that the result of a section of a creation carries on. -/
def CreateResult.carried : CreateResult → Option Str
  | .running pc => pc.carried
  | _ => none

/-- A section of a creation makes a token from an unborn name, carries it on, hands it to a
function, or loses it.

**Proof sketch.** Case split on the section. A name that is taken is unborn before
(`World.places_born`), and the last section hands it on to the pool or the active ones; a section
that fails loses it. -/
lemma createSection_places_le {w w' : World} {call : CreateCall} {e : Env} {pc : CreatePc}
    {result : CreateResult} (hsec : CreateSection w call e pc w' result) (strict : Bool) (u : Str) :
    w'.places strict u + one result.carried u ≤ w.places strict u + one pc.carried u := by
  cases hsec with
  | nativeSlot => exact le_rfl
  | wasmSlot => exact le_rfl
  | wait => exact le_rfl
  | limit => exact le_rfl
  | missing => exact le_rfl
  | neither => exact le_rfl
  | nativeLookup => exact le_rfl
  | wasmLookup _ _ hfresh =>
    exact le_trans (le_of_eq (World.places_born hfresh rfl rfl rfl))
      (le_add_of_nonneg_right (one_nonneg _ _))
  | @buildFailed fnName _ _ hfresh =>
    -- the token is lost
    have hone := one_nonneg (some (nativeName fnName e.uuid)) u
    refine add_le_add_left (le_of_add_le_of_nonneg_left (le_of_eq ?_) hone) _
    exact World.places_born hfresh rfl rfl rfl
  | built _ hfresh =>
    exact le_trans (le_of_eq (World.places_born hfresh rfl rfl rfl))
      (le_add_of_nonneg_right (one_nonneg _ _))
  | noStorage => exact add_le_add_right (one_nonneg _ _) _
  | storage => exact le_rfl
  | noNet => exact add_le_add_right (one_nonneg _ _) _
  | net => exact le_rfl
  | startFailed => exact add_le_add_right (one_nonneg _ _) _
  | started => exact le_rfl
  | @addActive replica o f n hact hf hstats =>
    have hset := World.places_setFn (World.heap_of_fn? hf) strict u { f with
      activeReplicas := f.activeReplicas.insert replica.uuid replica }
    have hins := Function.places_insertActive_le (f := f) u replica
    have hrest : World.places strict u { w.setFn o { f with
        activeReplicas := f.activeReplicas.insert replica.uuid replica } with
          functionStats := w.functionStats.insert replica.fname (n + 1) } =
        (w.setFn o { f with
          activeReplicas := f.activeReplicas.insert replica.uuid replica }).places strict u := rfl
    simp only [hrest, CreateResult.carried, CreatePc.carried, one_none]
    omega
  | @noStats replica o f hact hf =>
    have hset := World.places_setFn (World.heap_of_fn? hf) strict u { f with
      activeReplicas := f.activeReplicas.insert replica.uuid replica }
    have hins := Function.places_insertActive_le (f := f) u replica
    simp only [CreateResult.carried, CreatePc.carried, one_none]
    omega
  | @addIdle replica o f hact hf =>
    have hset := World.places_setFn (World.heap_of_fn? hf) strict u { f with
      idleReplicas := f.idleReplicas.add replica e.now }
    have hadd := Function.places_add (f := f) u replica e.now
    simp only [CreateResult.carried, CreatePc.carried, one_none]
    omega
  | addAbsent => exact add_le_add_right (one_nonneg _ _) _

/-- What the invocation carries on from a creation is what the result carries. -/
lemma afterCreate_places (req : Request) (fn : Resolving) (result : CreateResult) (strict : Bool)
    (u : Str) : (Thread.afterCreate req fn result).1.places strict u +
      ((Thread.afterCreate req fn result).2.map (·.places strict u)).sum =
        one result.carried u := by
  cases result with
  | running pc => simp [Thread.afterCreate, Thread.places, RequestPc.carried, CreateResult.carried]
  | returned replicaName replicaIP =>
    simp only [Thread.afterCreate, sum_spawns (h := (·.places strict u)) fun _ => one_none u]
    simp [Thread.places, RequestPc.carried, CreateResult.carried]
  | failed =>
    simp only [Thread.afterCreate]
    split <;> simp [Thread.places, RequestPc.carried, CreateResult.carried]
  | panicked fault => simp [Thread.afterCreate, Thread.places, CreateResult.carried]

/-- A section of an invocation keeps the ledger.

**Proof sketch.** Case split on the section. The look-up of an idle replica takes it out of a pool
(`Function.places_takeIdle_le`), the release takes it out of the active ones and puts it back or has
it deleted, and a creation is `createSection_places_le`. -/
lemma requestSection_places_le {w w' : World} {req : Request} {e : Env} {pc : RequestPc}
    {t' : Thread} {new : List Thread} (hsec : RequestSection w req e pc w' t' new)
    (strict : Bool) (u : Str) :
    w'.places strict u + (t'.places strict u + (new.map (·.places strict u)).sum) ≤
      w.places strict u + one pc.carried u := by
  -- a section that only looks and carries nothing further
  have hlook : ∀ name : Option Str, w.places strict u + (0 + 0) ≤ w.places strict u + one name u :=
    fun name => add_le_add_right (by have := one_nonneg name u; omega) _
  cases hsec with
  | unresolved => exact hlook _
  | resolvedHybrid => exact hlook _
  | resolvedCold => exact hlook _
  | resolved => exact hlook _
  | policyAbsent => exact hlook _
  | policy => exact hlook _
  | idleAbsent => exact hlook _
  | idleNone => exact hlook _
  | @idle fn o f f' replica hf htake =>
    have hset := World.places_setFn (World.heap_of_fn? hf) strict u f'
    have := Function.places_takeIdle_le u htake
    simp only [Thread.places, RequestPc.carried, one_none, List.map_nil, List.sum_nil]
    omega
  | create hsec =>
    have h := createSection_places_le hsec strict u
    rw [afterCreate_places]
    exact h
  | buildFailed => exact hlook _
  | build => exact hlook _
  | execNil => exact hlook _
  | execBad => exact hlook _
  | exec => exact hlook _
  | labelsIndex => exact hlook _
  | labelsAbsent => exact hlook _
  | labels => exact hlook _
  | takeAbsent => exact hlook _
  | @take _ replicaName o f hf =>
    have hset := World.places_setFn (World.heap_of_fn? hf) strict u { f with
      activeReplicas := f.activeReplicas.erase replicaName }
    have herase := Function.places_eraseActive (f := f) u replicaName
    cases hr : f.activeReplicas.lookup replicaName <;>
      simp only [hr, Option.map_none, Option.map_some, one_none, Thread.places,
        RequestPc.carried, List.map_nil, List.sum_nil] at herase ⊢ <;>
      omega
  | lookAbsent => exact hlook _
  | lookNil => exact hlook _
  | lookDel => exact le_of_eq (by simp [Thread.places, RequestPc.carried])
  | lookGive => exact le_of_eq (by simp [Thread.places, RequestPc.carried])
  | giveAbsent => exact hlook _
  | @give replica o f hf =>
    have hset := World.places_setFn (World.heap_of_fn? hf) strict u { f with
      idleReplicas := f.idleReplicas.add replica e.now }
    have hadd := Function.places_add (f := f) u replica e.now
    simp only [Thread.places, RequestPc.carried, List.map_nil, List.sum_nil]
    omega
  | @del replica _ hdel =>
    simp only [Thread.places, List.map_nil, List.sum_nil, add_zero]
    exact World.places_deleteReplica_le hdel strict u
  | @delFault replica _ _ hdel =>
    simp only [Thread.places, List.map_nil, List.sum_nil, add_zero]
    exact World.places_deleteReplica_le hdel strict u

/-- The pointer of a sweep still leads to the deployed object. -/
def World.Current (w : World) (fn : Ref) : Prop :=
  ∃ f, w.heap[fn]? = some f ∧ w.fn? f.name = some (fn, f)

/-- A section of a sweep keeps the ledger, the strict one when its pointer is current.

**Proof sketch.** Case split on the section. What the sweep takes out of a pool it carries, when the
object that it removes from is the one that it has looked at; a deletion spends it. -/
lemma sweepSection_places_le {w w' : World} {e : Env} {pc : SweepPc} {t' : Thread}
    (hsec : SweepSection w e pc w' t') (strict : Bool) (u : Str)
    (hcur : strict = true → ∀ currTs began visited fn, pc = .pool currTs began visited fn →
      w.Current fn) :
    w'.places strict u + t'.places strict u ≤
      w.places strict u + if strict then one pc.carried u else 0 := by
  have hlook : ∀ name : Option Str,
      w.places strict u + 0 ≤ w.places strict u + if strict then one name u else 0 := by
    intro name
    have := one_nonneg name u
    refine add_le_add_right ?_ _
    split <;> omega
  cases hsec with
  | locked => exact hlook _
  | lock => exact le_rfl
  | visit => exact le_rfl
  | done => exact hlook _
  | lruAbsent => exact hlook _
  | @lru currTs began visited fn o f f' replica hheap hsweep hf =>
    have hset := World.places_setFn (World.heap_of_fn? hf) strict u { f' with
      idleReplicas := f'.idleReplicas.remove }
    cases strict with
    | false =>
      have := f'.places_remove_le u
      simp only [Thread.places, Bool.false_eq_true, if_false]
      omega
    | true =>
      -- the removal is from the very object in which the replica was found
      obtain ⟨f₁, hf₁, hcur₁⟩ := hcur rfl _ _ _ _ rfl
      obtain rfl := Option.some.inj (hf₁.symm.trans hheap)
      obtain ⟨rfl, rfl⟩ : o = fn ∧ f' = f₁ := by simpa [hf] using hcur₁
      have := Function.places_sweep_lru u hsweep
      simp only [Thread.places, SweepPc.carried, one_none, if_true]
      omega
  | @mru currTs began visited fn f replica _ hheap hsweep hdel =>
    have hle := World.places_sweep_mru_le hheap hsweep hdel strict u
    have hone := one_nonneg (some replica.uuid) u
    simp only [Thread.places, SweepPc.carried, one_none]
    split at hle <;> omega
  | @mruFault currTs began visited fn f replica w₁ fault hheap hsweep hdel =>
    have hle := World.places_sweep_mru_le hheap hsweep hdel strict u
    have hone := one_nonneg (some replica.uuid) u
    have hrest : World.places strict u { w₁ with cleanupMu := false } = w₁.places strict u := rfl
    simp only [hrest, Thread.places, SweepPc.carried, one_none]
    split at hle <;> omega
  | fresh => exact le_rfl
  | @del currTs began visited fn replica w₁ hdel =>
    have h := World.places_deleteReplica hdel strict u
    have hone := one_nonneg (some replica.uuid) u
    simp only [Thread.places, SweepPc.carried, one_none]
    split at h <;> simp_all
  | @delFault currTs began visited fn replica w₁ fault hdel =>
    have h := World.places_deleteReplica hdel strict u
    have hrest : World.places strict u { w₁ with cleanupMu := false } = w₁.places strict u := rfl
    simp only [hrest, Thread.places, SweepPc.carried]
    split at h <;> simp_all

/-- **One section keeps the ledger of every name**, the strict one when it deletes no function and
the pointer of a sweep is current.

**Proof sketch.** By cases on the section. A creation makes one token; every other section moves a
token from one place to one other, or drops it. -/
theorem section_places_le {w w' : World} {e : Env} {t t' : Thread} {new : List Thread}
    (hsec : Section w e t w' t' new) (strict : Bool) (u : Str)
    (hdel : strict = true → ∀ req pc, t ≠ .delete req pc)
    (hcur : strict = true → ∀ currTs began visited fn,
      t = .sweep (.pool currTs began visited fn) → w.Current fn) :
    w'.places strict u + t'.places strict u + (new.map (·.places strict u)).sum ≤
      w.places strict u + t.places strict u := by
  rw [add_assoc]
  cases hsec with
  | request hsec => exact requestSection_places_le hsec strict u
  | @spawn call pc _ result hsec =>
    have h := createSection_places_le hsec strict u
    cases result <;>
      simpa [Thread.afterSpawn, Thread.places, CreateResult.carried] using h
  | sweep hsec =>
    have h := sweepSection_places_le hsec strict u
      (fun hs currTs began visited fn hpc => hcur hs currTs began visited fn (by rw [hpc]))
    simpa [Thread.places] using h
  | @deleteAll req w₁ hall =>
    cases strict with
    | true => exact absurd rfl (hdel rfl req _)
    | false =>
      exact le_of_eq (by
        simp [World.places_of_sameStore (World.sameStore_of_deleteAllReplicas hall) u,
          Thread.places])
  | @deleteAllFault req w₁ fault hall =>
    cases strict with
    | true => exact absurd rfl (hdel rfl req _)
    | false =>
      exact le_of_eq (by
        simp [World.places_of_sameStore (World.sameStore_of_deleteAllReplicas hall) u,
          Thread.places])
  | read => exact le_rfl
  | rowsFailed => exact le_rfl
  | rowsAbsent => exact le_rfl
  | rows => exact le_rfl
  | unmap => exact le_rfl
  | refused => exact le_rfl
  | insert hdeploy hins =>
    obtain ⟨-, rows, rfl⟩ := World.insertFunction_eq hins
    obtain ⟨-, hidle, hact⟩ := deploy_empty hdeploy
    refine le_of_eq ?_
    have : (w.places strict u) = (World.places strict u { w with containerTable := rows }) := rfl
    simp [Thread.places, Function.places, Function.idleCount, Function.activeCount, hidle, hact,
      IdleReplicas.stored, World.places, World.unborn, World.held, World.deleted]
  | map =>
    refine le_of_eq ?_
    simp [World.places_putFunction, Thread.places]
  | stats => exact le_rfl
  | policyAbsent => exact le_rfl
  | @policy fn updated o f hf =>
    have hset := World.places_setFn (World.heap_of_fn? hf) strict u { f with
      policy := World.updatedPolicy f.policy updated }
    have hsame : { f with policy := World.updatedPolicy f.policy updated }.places u =
      f.places u := rfl
    simp only [Thread.places, List.map_nil, List.sum_nil]
    omega

/-! ### Runs -/

/-- Arriving goroutines have empty hands. -/
lemma entry_places {t : Thread} (h : t.entry = true) (strict : Bool) (u : Str) :
    t.places strict u = 0 := by
  obtain ⟨req, rfl⟩ | rfl | ⟨req, rfl⟩ | ⟨req, rfl⟩ | ⟨fn, updated, rfl⟩ := entry_cases h <;>
    simp [Thread.places, RequestPc.carried, SweepPc.carried]

/-- The ledger of a name: all its places. -/
def State.places (strict : Bool) (u : Str) (c : State) : ℤ :=
  c.ledger (World.places strict u) (Thread.places strict u)

/-- What the store and one goroutine have is part of the ledger. -/
lemma State.places_ge {c : State} {i : ℕ} {t : Thread} (ht : c.threads[i]? = some t)
    (strict : Bool) (u : Str) :
    c.shared.places strict u + t.places strict u ≤ c.places strict u := by
  exact add_le_add_right
    (Interleaving.le_sum_of_getElem? (Thread.places_nonneg strict u) ht)
    _

/-- What the store has is part of the ledger. -/
lemma State.shared_places_le (c : State) (strict : Bool) (u : Str) :
    c.shared.places strict u ≤ c.places strict u := by
  exact le_add_of_nonneg_right (Interleaving.sum_map_nonneg (Thread.places_nonneg strict u) _)

/-- One move keeps the ledger that is not strict. -/
lemma step_places_le {c c' : State} {m : Event} (hstep : provider.step c m = some c') (u : Str) :
    c'.places false u ≤ c.places false u := by
  refine Interleaving.ledger_step_le hstep (fun t hent => (entry_places hent false u).le) ?_
  intro i e t w' t' new _ _ hn
  exact section_places_le (next_cases hn) false u (fun h => by cases h) (fun h => by cases h)

/-- In a fresh store every name is in at most one place. -/
lemma World.Fresh.places_le_one {w : World} (h : w.Fresh) (strict : Bool) (u : Str) :
    State.places strict u ⟨w, []⟩ ≤ 1 := by
  have hheld : w.held u = 0 := by
    refine List.sum_eq_zero fun x hx => ?_
    obtain ⟨f, hf, rfl⟩ := List.mem_map.mp hx
    obtain ⟨hidle, hact⟩ := h.pools f hf
    simp [Function.places, Function.idleCount, Function.activeCount, hidle, hact,
      IdleReplicas.stored]
  have hdel : w.deleted u = 0 := by simp [World.deleted, h.deleteCalls]
  have hunborn : w.unborn u ≤ 1 := by
    unfold World.unborn
    split <;> decide
  simp only [State.places, Interleaving.Config.ledger, World.places, hheld, hdel, List.map_nil,
    List.sum_nil, ite_self, add_zero]
  exact hunborn

/-- **In every run a name is in at most one place**: unborn, in one function, or in the hands of one
goroutine that creates or releases it.

**Proof sketch.** It holds in a fresh store, and every section keeps the ledger. -/
theorem Reachable.places_le_one {c : State} (h : Reachable c) (u : Str) :
    c.places false u ≤ 1 := by
  obtain ⟨cfg, storage, now, w, events, hstart, hrun⟩ := h
  refine Runs.invariant (I := fun c : State => c.places false u ≤ 1) ?_ ?_ hrun
  · intro c m c' hc hstep
    exact (step_places_le hstep u).trans hc
  · exact (startProvider_fresh hstart).1.places_le_one false u

end Fecore
