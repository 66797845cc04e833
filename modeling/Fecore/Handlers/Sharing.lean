import Mathlib.Tactic.Common
import Fecore.Handlers.Deployments

set_option relaxedAutoImplicit false
set_option autoImplicit false

/-!
# No two invocations share a replica

An invocation in flight works with the replica that it has been given by name; the replica itself
sits in `activeReplicas`. This file shows that what is given is active, and puts the ledgers
together: while no function is deleted, every replica is in at most one place, at most one
invocation works with it, and none works with a replica that has been deleted.

## Main definitions

* `Fecore.Thread.given` — the replica an invocation in flight has been given.
* `Fecore.OwnedOnce` — the exclusive ownership of replicas.

## Main results

* `Fecore.section_claims_le` — one section keeps "what is given is active".
* `Fecore.ownedOnce_throughout` — replicas are owned exclusively throughout every run in which no
  function is deleted.
-/

namespace Fecore

/-! ### What is given is active -/

/-- The replica that `Resolve` has returned; the name is empty when it has none. -/
def givenName (replicaName : Str) : Option Str :=
  if replicaName = [] then none else some replicaName

/-- The replica an invocation has been given and has not released yet. -/
def RequestPc.given : RequestPc → Option Str
  | .build _ replicaName => givenName replicaName
  | .exec _ replicaName => givenName replicaName
  | .labels _ replicaName => givenName replicaName
  | .take _ replicaName => givenName replicaName
  | _ => none

/-- The replica an invocation in flight has been given. -/
def Thread.given : Thread → Option Str
  | .request _ pc => pc.given
  | _ => none

/-- How often the functions have the replica active. -/
def World.active (w : World) (u : Str) : ℤ := (w.heap.map fun f => (f.activeCount u : ℤ)).sum

/-- How often the replica is given to an invocation, beyond how often it is active. -/
def State.claims (u : Str) (c : State) : ℤ :=
  c.ledger (fun w => - w.active u) fun t => one t.given u

/-- An update of a function changes what is active by what it changes in that one. -/
lemma World.active_setFn {w : World} {o : Ref} {f : Function} (ho : w.heap[o]? = some f)
    (f' : Function) (u : Str) :
    (w.setFn o f').active u + f.activeCount u = w.active u + f'.activeCount u :=
  Interleaving.sum_map_set_add (fun g : Function => (g.activeCount u : ℤ)) f' ho

/-- What is active is in a pool. -/
lemma World.active_le_held (w : World) (u : Str) : w.active u ≤ w.held u := by
  refine List.sum_le_sum fun f _ => ?_
  simp only [Function.places]
  omega

/-- A replica is not active less than never. -/
lemma World.active_nonneg (w : World) (u : Str) : 0 ≤ w.active u :=
  Interleaving.sum_map_nonneg (fun _ => Int.natCast_nonneg _) _

/-- What is active is read off the objects. -/
lemma World.active_congr {w w' : World} (h : w'.heap = w.heap) (u : Str) :
    w'.active u = w.active u := by
  rw [World.active, h, World.active]

namespace Function

variable {f : Function}

/-- Erasing one key leaves the other replicas active. -/
lemma activeCount_erase_of_ne (h : f.WellFormed) {name u : Str} (hne : name ≠ u) :
    { f with activeReplicas := f.activeReplicas.erase name }.activeCount u = f.activeCount u := by
  cases hr : f.activeReplicas.lookup name with
  | none => simp [AList.erase_of_lookup_eq_none hr]
  | some r =>
    have huuid := (h.active name r hr).2.2
    have hcount := AList.count_erase_of_lookup (p := fun e => decide (e.2.uuid = u)) hr
    simpa [activeCount, huuid, hne] using hcount.symm

/-- Erasing a key takes at most one active replica. -/
lemma activeCount_le_erase (f : Function) (name u : Str) :
    f.activeCount u ≤
      { f with activeReplicas := f.activeReplicas.erase name }.activeCount u + 1 := by
  cases hr : f.activeReplicas.lookup name with
  | none => simp [AList.erase_of_lookup_eq_none hr]
  | some r =>
    have hcount := AList.count_erase_of_lookup (p := fun e => decide (e.2.uuid = u)) hr
    simp only [activeCount, hcount]
    split <;> omega

/-- Inserting a replica makes it active and leaves the others active.

**Proof sketch.** What the name stood for is erased, and the replica is put in its place. Another
name keeps its count; the replica's own is at least one now. -/
lemma activeCount_insert (h : f.WellFormed) (r : Replica) (u : Str) :
    f.activeCount u ≤ { f with
      activeReplicas := f.activeReplicas.insert r.uuid r }.activeCount u ∧
    (r.uuid = u → 1 ≤ { f with
      activeReplicas := f.activeReplicas.insert r.uuid r }.activeCount u) := by
  have hins : { f with
      activeReplicas := f.activeReplicas.insert r.uuid r }.activeCount u = { f with
        activeReplicas := f.activeReplicas.erase r.uuid }.activeCount u +
          if r.uuid = u then 1 else 0 := by
    have h := AList.count_insert (p := fun e => decide (e.2.uuid = u)) (s := f.activeReplicas)
      (a := r.uuid) (b := r)
    by_cases hu : r.uuid = u <;> simpa [activeCount, hu] using h
  by_cases hu : r.uuid = u
  · have hle := f.activeCount_le_erase r.uuid u
    rw [hins, if_pos hu]
    exact ⟨hle, fun _ => by omega⟩
  · rw [hins, if_neg hu, activeCount_erase_of_ne h hu]
    exact ⟨le_rfl, fun h => absurd h hu⟩

end Function

/-- A replica in the pool of a function, in the hands of a goroutine or unborn is not active. -/
lemma World.active_eq_zero {w : World} {u : Str} {n : ℤ} (hle : w.places false u + n ≤ 1)
    (hn : 1 ≤ n) : w.held u = 0 := by
  have h₁ := w.unborn_nonneg u
  have h₂ := w.held_nonneg u
  simp only [World.places, Bool.false_eq_true, if_false] at hle
  omega

/-- A name that is empty or another one is not given. -/
lemma one_givenName_of_ne {replicaName u : Str} (h : ¬ (replicaName ≠ [] ∧ replicaName = u)) :
    one (givenName replicaName) u = 0 := by
  unfold givenName one
  split
  · simp
  · simp_all

/-- A replica that is taken from the active ones is given to nobody afterwards.

**Proof sketch.** Only the replica of this name is taken, and it is counted as given unless the name
is empty; but no replica has the empty name. -/
lemma Function.activeCount_le_erase_add_given {f : Function} (h : f.WellFormed)
    (replicaName u : Str) :
    (f.activeCount u : ℤ) ≤
      { f with activeReplicas := f.activeReplicas.erase replicaName }.activeCount u +
        one (givenName replicaName) u := by
  have hgiven := one_nonneg (givenName replicaName) u
  by_cases hu : replicaName = u
  · subst hu
    by_cases hnil : replicaName = []
    · -- no replica has the empty name
      have hnone : f.activeReplicas.lookup replicaName = none := by
        cases hr : f.activeReplicas.lookup replicaName with
        | none => rfl
        | some r =>
          obtain ⟨hr, -, huuid⟩ := h.active _ _ hr
          have := hr.uuid
          simp [huuid, hnil] at this
      have hsame : { f with
          activeReplicas := f.activeReplicas.erase replicaName }.activeCount replicaName =
            f.activeCount replicaName := by
        simp [Function.activeCount, AList.erase_of_lookup_eq_none hnone]
      omega
    · have hle := f.activeCount_le_erase replicaName replicaName
      simp only [givenName, if_neg hnil, one_some_self]
      omega
  · have hsame := Function.activeCount_erase_of_ne h hu
    omega

/-- What an invocation is given from the pool was not active, and is active now.

**Proof sketch.** The replica is idle before, so it is not active, as it has one place only;
afterwards it is active (`Function.activeCount_insert`). -/
lemma World.activeCount_takeIdle {w : World} {fn u : Str} {o : Ref} {f f' : Function}
    {replica : Replica} (hw : w.WellFormed) (hf : w.fn? fn = some (o, f))
    (htake : f.takeIdle = some (replica, f')) (hle : w.places false u ≤ 1) :
    (f.activeCount u : ℤ) + one (givenName replica.uuid) u ≤ f'.activeCount u := by
  obtain ⟨hst, hact, -⟩ := Function.takeIdle_spec htake
  have hsame : f'.activeCount u = { f with
      activeReplicas := f.activeReplicas.insert replica.uuid replica }.activeCount u := by
    simp only [Function.activeCount, hact]
  obtain ⟨hmono, hone⟩ := Function.activeCount_insert (hw.function hf).1 replica u
  by_cases hu : replica.uuid = u
  · have hheld := w.unborn_nonneg u
    have hf₀ := World.places_le_held (List.mem_of_getElem? (World.heap_of_fn? hf)) u
    have hidle : 1 ≤ f.idleCount u := by
      simp [Function.idleCount, hst, hu]
    have hnow := hone hu
    simp only [World.places, Bool.false_eq_true, if_false] at hle
    simp only [Function.places] at hf₀
    have hgiven := one_le_one (givenName replica.uuid) u
    omega
  · have hgiven : one (givenName replica.uuid) u = 0 :=
      one_givenName_of_ne fun h => hu h.2
    omega

/-- An invocation is given what its creation returns. -/
lemma afterCreate_given (req : Request) (fn : Resolving) (result : CreateResult) (u : Str) :
    one (Thread.afterCreate req fn result).1.given u +
      ((Thread.afterCreate req fn result).2.map fun t => one t.given u).sum =
      match result with
      | .returned replicaName _ => one (givenName replicaName) u
      | _ => 0 := by
  cases result with
  | running pc => simp [Thread.afterCreate, Thread.given, RequestPc.given]
  | returned replicaName replicaIP =>
    simp only [Thread.afterCreate, sum_spawns (h := fun t => one t.given u) fun _ => one_none u,
      add_zero]
    rfl
  | failed =>
    simp only [Thread.afterCreate]
    split <;> simp [Thread.given, RequestPc.given, givenName]
  | panicked fault => simp [Thread.afterCreate, Thread.given]

/-- What a creation hands over is active, when it is to be active.

**Proof sketch.** Only the section that adds the replica to the active ones makes one active. It has
been in the hands of the creation, so it was not active before. -/
lemma createSection_claims_le {w w' : World} {call : CreateCall} {e : Env} {pc : CreatePc}
    {result : CreateResult} (hsec : CreateSection w call e pc w' result) (hw : w.WellFormed)
    {u : Str} (hle : w.places false u + one pc.carried u ≤ 1) :
    w.active u ≤ w'.active u ∧
      ∀ replicaName replicaIP, result = .returned replicaName replicaIP →
        call.setActive = true → replicaName ≠ [] → replicaName = u →
          w.active u + 1 ≤ w'.active u := by
  cases hsec with
  | neither => exact ⟨le_rfl, fun _ _ h _ hne => by cases h; exact absurd rfl hne⟩
  | @addActive replica o f n hact hf hstats =>
    have hset := World.active_setFn (World.heap_of_fn? hf) { f with
      activeReplicas := f.activeReplicas.insert replica.uuid replica } u
    have hrest : World.active { w.setFn o { f with
        activeReplicas := f.activeReplicas.insert replica.uuid replica } with
          functionStats := w.functionStats.insert replica.fname (n + 1) } u =
        (w.setFn o { f with
          activeReplicas := f.activeReplicas.insert replica.uuid replica }).active u := rfl
    obtain ⟨hmono, hone⟩ := Function.activeCount_insert (hw.function hf).1 replica u
    rw [hrest]
    refine ⟨by omega, ?_⟩
    rintro _ _ h - - rfl
    cases h
    -- the replica is in the hands of the creation, so the function does not have it yet
    have hheld := World.active_eq_zero hle (by simp [CreatePc.carried])
    have hf₀ := World.places_le_held (List.mem_of_getElem? (World.heap_of_fn? hf)) replica.uuid
    have := hone rfl
    simp only [Function.places] at hf₀
    omega
  | @noStats replica o f hact hf =>
    have hset := World.active_setFn (World.heap_of_fn? hf) { f with
      activeReplicas := f.activeReplicas.insert replica.uuid replica } u
    have hmono := (Function.activeCount_insert (hw.function hf).1 replica u).1
    exact ⟨by omega, fun _ _ h => by cases h⟩
  | @addIdle replica o f hact hf =>
    have hset := World.active_setFn (World.heap_of_fn? hf) { f with
      idleReplicas := f.idleReplicas.add replica e.now } u
    have hsame : { f with idleReplicas := f.idleReplicas.add replica e.now }.activeCount u =
      f.activeCount u := rfl
    exact ⟨by omega, fun _ _ _ h => absurd (hact.symm.trans h) (by decide)⟩
  | _ => exact ⟨le_rfl, fun _ _ h => by cases h⟩

/-- What an invocation is given is active, and it is released when it is no longer active.

**Proof sketch.** Case split on the section. An idle replica becomes active when it is given
(`World.activeCount_takeIdle`), a new one when it is created (`createSection_claims_le`), and the
release takes it from the active ones (`Function.activeCount_le_erase_add_given`). -/
lemma requestSection_claims_le {w w' : World} {req : Request} {e : Env} {pc : RequestPc}
    {t' : Thread} {new : List Thread} (hsec : RequestSection w req e pc w' t' new)
    (hw : w.WellFormed) {u : Str} (hle : w.places false u + one pc.carried u ≤ 1) :
    - w'.active u + (one t'.given u + (new.map fun t => one t.given u).sum) ≤
      - w.active u + one pc.given u := by
  -- a section that leaves the store alone and gives nothing
  have hlook : ∀ name : Option Str, - w.active u + (0 + 0) ≤ - w.active u + one name u :=
    fun name => add_le_add_right (by have := one_nonneg name u; omega) _
  cases hsec with
  | unresolved => exact hlook _
  | resolvedHybrid => exact hlook _
  | resolvedCold => exact hlook _
  | resolved => exact hlook _
  | policyAbsent => exact hlook _
  | policy => exact hlook _
  | idleAbsent => exact hlook _
  | idleNone => exact hlook _
  | @idle fn o f f' replica hf htake =>
    have hset := World.active_setFn (World.heap_of_fn? hf) f' u
    simp only [RequestPc.carried, one_none, add_zero] at hle
    have htaken := World.activeCount_takeIdle hw hf htake hle
    simp only [Thread.given, RequestPc.given, one_none, List.map_nil, List.sum_nil]
    omega
  | @create fn pc _ result hsec =>
    obtain ⟨hmono, hnew⟩ := createSection_claims_le hsec hw hle
    rw [afterCreate_given]
    cases result with
    | returned replicaName replicaIP =>
      by_cases hname : replicaName ≠ [] ∧ replicaName = u
      · have := hnew _ _ rfl fn.call_setActive hname.1 hname.2
        have hgiven := one_le_one (givenName replicaName) u
        simp only [RequestPc.given, one_none]
        omega
      · simp only [one_givenName_of_ne hname, RequestPc.given, one_none]
        omega
    | _ =>
      simp only [RequestPc.given, one_none]
      omega
  | buildFailed => exact hlook _
  | build => exact le_of_eq (by simp [Thread.given, RequestPc.given])
  | execNil => exact hlook _
  | execBad => exact hlook _
  | exec => exact le_of_eq (by simp [Thread.given, RequestPc.given])
  | labelsIndex => exact hlook _
  | labelsAbsent => exact hlook _
  | labels => exact le_of_eq (by simp [Thread.given, RequestPc.given])
  | takeAbsent => exact hlook _
  | @take _ replicaName o f hf =>
    have hset := World.active_setFn (World.heap_of_fn? hf) { f with
      activeReplicas := f.activeReplicas.erase replicaName } u
    have herase := Function.activeCount_le_erase_add_given (hw.function hf).1 replicaName u
    simp only [Thread.given, RequestPc.given, one_none, List.map_nil, List.sum_nil]
    omega
  | lookAbsent => exact hlook _
  | lookNil => exact hlook _
  | lookDel => exact hlook _
  | lookGive => exact hlook _
  | giveAbsent => exact hlook _
  | @give replica o f hf =>
    have hset := World.active_setFn (World.heap_of_fn? hf) { f with
      idleReplicas := f.idleReplicas.add replica e.now } u
    have hsame : { f with idleReplicas := f.idleReplicas.add replica e.now }.activeCount u =
      f.activeCount u := rfl
    simp only [Thread.given, RequestPc.given, one_none, List.map_nil, List.sum_nil]
    omega
  | del hdel =>
    rw [World.active_congr (World.sameStore_of_deleteReplica hdel).heap]
    exact hlook _
  | delFault hdel =>
    rw [World.active_congr (World.sameStore_of_deleteReplica hdel).heap]
    exact hlook _

/-- A sweep leaves the active replicas alone and is given nothing.

**Proof sketch.** A sweep writes to the idle replicas of an object only, and its deletions keep the
store. -/
lemma sweepSection_active {w w' : World} {e : Env} {pc : SweepPc} {t' : Thread}
    (hsec : SweepSection w e pc w' t') (u : Str) : w'.active u = w.active u ∧ t'.given = none := by
  cases hsec with
  | @lru currTs began visited fn o f f' replica hheap hsweep hf =>
    have hset := World.active_setFn (World.heap_of_fn? hf) { f' with
      idleReplicas := f'.idleReplicas.remove } u
    have hsame : { f' with idleReplicas := f'.idleReplicas.remove }.activeCount u =
      f'.activeCount u := rfl
    exact ⟨by omega, rfl⟩
  | @mru currTs began visited fn f replica w₁ hheap hsweep hdel =>
    have hset := World.active_setFn hheap { f with
      idleReplicas := { f.idleReplicas with mru := none } } u
    have hsame : { f with idleReplicas := { f.idleReplicas with mru := none } }.activeCount u =
      f.activeCount u := rfl
    rw [World.active_congr (World.sameStore_of_deleteReplica hdel).heap]
    exact ⟨by omega, rfl⟩
  | @mruFault currTs began visited fn f replica w₁ fault hheap hsweep hdel =>
    have hset := World.active_setFn hheap { f with
      idleReplicas := { f.idleReplicas with mru := none } } u
    have hsame : { f with idleReplicas := { f.idleReplicas with mru := none } }.activeCount u =
      f.activeCount u := rfl
    have hrest : World.active { w₁ with cleanupMu := false } u = w₁.active u := rfl
    rw [hrest, World.active_congr (World.sameStore_of_deleteReplica hdel).heap]
    exact ⟨by omega, rfl⟩
  | del hdel => exact ⟨World.active_congr (World.sameStore_of_deleteReplica hdel).heap u, rfl⟩
  | @delFault currTs began visited fn replica w₁ fault hdel =>
    have hrest : World.active { w₁ with cleanupMu := false } u = w₁.active u := rfl
    rw [hrest]
    exact ⟨World.active_congr (World.sameStore_of_deleteReplica hdel).heap u, rfl⟩
  | _ => exact ⟨rfl, rfl⟩

/-- **One section keeps "what is given is active".**

**Proof sketch.** An invocation is given a replica in the section that makes it active, and takes
it out of `activeReplicas` in the section in which it gives it up. That the replica was not active
before is the ledger of its name: it came out of a pool or out of the hands of its creation. -/
theorem section_claims_le {w w' : World} {e : Env} {t t' : Thread} {new : List Thread}
    (hsec : Section w e t w' t' new) (hw : w.WellFormed) {u : Str}
    (hle : w.places false u + t.places false u ≤ 1) :
    - w'.active u + one t'.given u + (new.map fun t => one t.given u).sum ≤
      - w.active u + one t.given u := by
  rw [add_assoc]
  cases hsec with
  | request hsec => exact requestSection_claims_le hsec hw hle
  | @spawn call pc _ result hsec =>
    have hmono := (createSection_claims_le hsec hw hle).1
    cases result <;> simp [Thread.afterSpawn, Thread.given] <;> omega
  | sweep hsec =>
    obtain ⟨hact, hgiven⟩ := sweepSection_active hsec u
    rw [hact, hgiven]
    exact le_rfl
  | deleteAll hall =>
    rw [World.active_congr (World.sameStore_of_deleteAllReplicas hall).heap]
    exact le_rfl
  | deleteAllFault hall =>
    rw [World.active_congr (World.sameStore_of_deleteAllReplicas hall).heap]
    exact le_rfl
  | read => exact le_rfl
  | rowsFailed => exact le_rfl
  | rowsAbsent => exact le_rfl
  | rows => exact le_rfl
  | unmap => exact le_rfl
  | refused => exact le_rfl
  | insert hdeploy hins =>
    obtain ⟨-, rows, rfl⟩ := World.insertFunction_eq hins
    exact le_rfl
  | @map fn =>
    have hput : (w.putFunction fn).active u = w.active u + fn.activeCount u := by
      simp [World.active, World.putFunction]
    simp [hput, Thread.given]
  | stats => exact le_rfl
  | policyAbsent => exact le_rfl
  | @policy fn updated o f hf =>
    have hset := World.active_setFn (World.heap_of_fn? hf) { f with
      policy := World.updatedPolicy f.policy updated } u
    have hsame : { f with policy := World.updatedPolicy f.policy updated }.activeCount u =
      f.activeCount u := rfl
    simp only [Thread.given, one_none, List.map_nil, List.sum_nil]
    omega

/-- A request that arrives has been given nothing. -/
lemma entry_given {t : Thread} (h : t.entry = true) : t.given = none := by
  obtain ⟨req, rfl⟩ | rfl | ⟨req, rfl⟩ | ⟨req, rfl⟩ | ⟨fn, updated, rfl⟩ := entry_cases h <;> rfl

/-- One move keeps "what is given is active". -/
lemma step_claims_le {c c' : State} {m : Event} (hc : State.WellFormed c)
    (hplaces : ∀ u, c.places false u ≤ 1) (hstep : provider.step c m = some c') (u : Str) :
    c'.claims u ≤ c.claims u := by
  refine Interleaving.ledger_step_le hstep (fun t hent => by simp [entry_given hent]) ?_
  intro i e t w' t' new _ ht hn
  exact section_claims_le (next_cases hn) hc.1 ((State.places_ge ht false u).trans (hplaces u))

/-- At the start nothing is given. -/
lemma World.Fresh.claims_le {w : World} (h : w.Fresh) (u : Str) : State.claims u ⟨w, []⟩ ≤ 0 := by
  have hact : w.active u = 0 := by
    refine List.sum_eq_zero fun x hx => ?_
    obtain ⟨f, hf, rfl⟩ := List.mem_map.mp hx
    simp [Function.activeCount, (h.pools f hf).2]
  simp [State.claims, Interleaving.Config.ledger, hact]

/-- A replica that is given to an invocation is active. -/
lemma State.active_of_given {c : State} {u : Str} (hcl : c.claims u ≤ 0) {t : Thread}
    (ht : t ∈ c.threads) (hgiven : t.given = some u) : 1 ≤ c.shared.active u := by
  obtain ⟨i, hi⟩ := List.mem_iff_getElem?.mp ht
  have hsum := Interleaving.le_sum_of_getElem? (h := fun t : Thread => one t.given u)
    (fun t => one_nonneg _ _) hi
  simp only [State.claims, Interleaving.Config.ledger] at hcl
  simp only [hgiven, one_some_self] at hsum
  omega

/-! ### Exclusive ownership -/

/-- The pointer that a sweep holds to a function. -/
def Thread.pointer : Thread → Option Ref
  | .sweep (.pool _ _ _ fn) => some fn
  | .sweep (.del _ _ _ fn _) => some fn
  | _ => none

/-- A delete request arrives. -/
def undeploys : Event → Bool
  | .arrive (.delete _ _) => true
  | _ => false

/-- What holds in the runs in which no function is deleted. -/
structure State.Kept (c : State) : Prop where
  wellFormed : State.WellFormed c
  noDelete : c.All fun _ t => ∀ req pc, t ≠ .delete req pc
  rows : ∀ n, c.rows n ≤ 0
  current : c.All fun w t => ∀ fn, t.pointer = some fn → w.Current fn
  loose : ∀ u, c.places false u ≤ 1
  strict : ∀ u, c.places true u ≤ 1
  claims : ∀ u, c.claims u ≤ 0

/-- Only delete requests go on as delete requests.

**Proof sketch.** Case split on the section, and for a creation on how it ends. -/
lemma section_noDelete {w w' : World} {e : Env} {t t' : Thread} {new : List Thread}
    (hsec : Section w e t w' t' new) (ht : ∀ req pc, t ≠ .delete req pc) :
    ∀ req pc, t' ≠ .delete req pc := by
  cases hsec with
  | request hsec =>
    cases hsec with
    | @create fn pc _ result hsec =>
      cases result with
      | failed =>
        simp only [Thread.afterCreate]
        split <;> exact fun _ _ h => (by cases h)
      | _ => exact fun _ _ h => (by cases h)
    | _ => exact fun _ _ h => (by cases h)
  | @spawn call pc _ result hsec => cases result <;> exact fun _ _ h => (by cases h)
  | sweep hsec => cases hsec <;> exact fun _ _ h => (by cases h)
  | deleteAll => exact absurd rfl (ht _ _)
  | deleteAllFault => exact absurd rfl (ht _ _)
  | read => exact absurd rfl (ht _ _)
  | rowsFailed => exact absurd rfl (ht _ _)
  | rowsAbsent => exact absurd rfl (ht _ _)
  | rows => exact absurd rfl (ht _ _)
  | unmap => exact absurd rfl (ht _ _)
  | _ => exact fun _ _ h => (by cases h)

/-- A pointer stays current, but for a second deployment of its function. -/
lemma World.Current.putFunction {w : World} {fn : Ref} (h : w.Current fn) (hw : w.WellFormed)
    {f : Function} (hf : w.deployedFunctions.lookup f.name = none) :
    (w.putFunction f).Current fn := by
  obtain ⟨g, hg, hcur⟩ := h
  have hlt : fn < w.heap.length := (List.getElem?_eq_some_iff.mp hg).1
  refine ⟨g, by rw [World.putFunction, List.getElem?_append_left hlt, hg], ?_⟩
  have hne : g.name ≠ f.name := by
    intro heq
    rw [heq] at hcur
    rw [(World.fn?_eq_some.mp hcur).1] at hf
    cases hf
  rw [World.fn?_putFunction hw.valid, if_neg hne, hcur]

/-- What the range over `deployedFunctions` yields is a current pointer. -/
lemma World.WellFormed.current {w : World} (hw : w.WellFormed) {name : Str} {fn : Ref}
    (h : w.deployedFunctions.lookup name = some fn) : w.Current fn := by
  have hlt := hw.valid name fn h
  have hf : w.fn? name = some (fn, w.heap[fn]) :=
    World.fn?_eq_some.mpr ⟨h, List.getElem?_eq_getElem hlt⟩
  refine ⟨_, World.heap_of_fn? hf, ?_⟩
  rw [hw.named _ _ _ hf]
  exact hf

/-- While no function is deleted, one section keeps the pointers of the sweeps current.

**Proof sketch.** A section keeps the names and the map, but for the one that puts a function into
the map; its name is not there yet, so no pointer is to another object of this name. -/
lemma section_current {w w' : World} {e : Env} {t t' : Thread} {new : List Thread}
    (hsec : Section w e t w' t' new) (hw : w.WellFormed) (hdel : ∀ req pc, t ≠ .delete req pc)
    (hmap : ∀ fn, t = .deploy (.map fn) → w.deployedFunctions.lookup fn.name = none)
    (ht : ∀ fn, t.pointer = some fn → w.Current fn) :
    (∀ fn, t'.pointer = some fn → w'.Current fn) ∧ ∀ fn, w.Current fn → w'.Current fn := by
  cases hsec with
  | request hsec =>
    refine ⟨?_, fun fn => (requestSection_sameNames hsec).current⟩
    cases hsec with
    | @create fn pc _ result hsec =>
      cases result with
      | failed =>
        simp only [Thread.afterCreate]
        split <;> exact fun _ h => (by cases h)
      | _ => exact fun _ h => (by cases h)
    | _ => exact fun _ h => (by cases h)
  | @spawn call pc _ result hsec =>
    refine ⟨?_, fun fn => (createSection_sameNames hsec).current⟩
    cases result <;> exact fun _ h => (by cases h)
  | sweep hsec =>
    have hsame := sweepSection_sameNames hsec
    refine ⟨?_, fun fn => hsame.current⟩
    cases hsec with
    | visit hlookup =>
      intro fn h
      obtain rfl := Option.some.inj h
      exact hw.current hlookup
    | lru hheap hsweep hf => exact fun fn h => hsame.current (ht fn h)
    | del hdel => exact fun fn h => hsame.current (ht fn h)
    | _ => exact fun _ h => (by cases h)
  | deleteAll => exact absurd rfl (hdel _ _)
  | deleteAllFault => exact absurd rfl (hdel _ _)
  | read => exact absurd rfl (hdel _ _)
  | rowsFailed => exact absurd rfl (hdel _ _)
  | rowsAbsent => exact absurd rfl (hdel _ _)
  | rows => exact absurd rfl (hdel _ _)
  | unmap => exact absurd rfl (hdel _ _)
  | insert hdeploy hins =>
    obtain ⟨-, rows, rfl⟩ := World.insertFunction_eq hins
    exact ⟨fun _ h => (by cases h), fun _ h => h⟩
  | @map fn => exact ⟨fun _ h => (by cases h), fun _ h => h.putFunction hw (hmap fn rfl)⟩
  | policy hf =>
    refine ⟨fun _ h => (by cases h), fun fn => World.SameNames.current ?_⟩
    exact .setFn (World.heap_of_fn? hf) rfl
  | _ => exact ⟨fun _ h => (by cases h), fun _ h => h⟩

/-- **A move that is not a delete request keeps the ledgers, the strict one too.**

**Proof sketch.** Each part is kept by a section: `section_noDelete`, `section_rows_le`,
`section_current` and the ledgers of the places. A pointer stays current because no function is put
into the map a second time (`State.not_deployed_of_pending`). -/
lemma step_kept {c c' : State} {m : Event} (hc : c.Kept) (hm : undeploys m = false)
    (hstep : provider.step c m = some c') : c'.Kept where
  wellFormed := step_wellFormed hc.wellFormed hstep
  noDelete := by
    refine Interleaving.all_step hc.noDelete hstep ?_ ?_
    · rintro t rfl hent req pc rfl
      cases hm
    · intro i e t w' t' new _ ht hn
      have hsec := next_cases hn
      refine ⟨section_noDelete hsec (hc.noDelete t (List.mem_of_getElem? ht)), fun u hu => ?_,
        fun _ _ _ _ h => h⟩
      obtain ⟨call, rfl⟩ := section_new hsec u hu
      exact fun _ _ h => by cases h
  rows n := by
    refine (Interleaving.ledger_step_le hstep (fun t hent => (entry_pending hent n).le) ?_).trans
      (hc.rows n)
    intro i e t w' t' new _ ht hn
    exact section_rows_le (next_cases hn) (hc.noDelete t (List.mem_of_getElem? ht)) n
  current := by
    refine Interleaving.all_step hc.current hstep ?_ ?_
    · intro t _ hent fn hfn
      obtain ⟨req, rfl⟩ | rfl | ⟨req, rfl⟩ | ⟨req, rfl⟩ | ⟨name, updated, rfl⟩ :=
        entry_cases hent <;> cases hfn
    · intro i e t w' t' new _ ht hn
      have hmem := List.mem_of_getElem? ht
      have hsec := next_cases hn
      obtain ⟨hown, hkeep⟩ := section_current hsec hc.wellFormed.1 (hc.noDelete t hmem)
        (fun fn hfn => State.not_deployed_of_pending (hc.rows fn.name) (by rw [ht, hfn]) rfl)
        (hc.current t hmem)
      refine ⟨hown, fun u hu => ?_, fun _ _ _ _ h fn hfn => hkeep fn (h fn hfn)⟩
      obtain ⟨call, rfl⟩ := section_new hsec u hu
      exact fun _ h => by cases h
  loose u := (step_places_le hstep u).trans (hc.loose u)
  strict u := by
    refine (Interleaving.ledger_step_le hstep (fun t hent => (entry_places hent true u).le)
      ?_).trans (hc.strict u)
    intro i e t w' t' new _ ht hn
    have hmem := List.mem_of_getElem? ht
    refine section_places_le (next_cases hn) true u (fun _ => hc.noDelete t hmem) ?_
    rintro - currTs began visited fn rfl
    exact hc.current _ hmem fn rfl
  claims u := (step_claims_le hc.wellFormed hc.loose hstep u).trans (hc.claims u)

/-- At the start all of it holds. -/
lemma World.Fresh.kept {w : World} (h : w.Fresh) : State.Kept ⟨w, []⟩ where
  wellFormed := ⟨h.wellFormed, fun _ ht => absurd ht List.not_mem_nil⟩
  noDelete _ ht := absurd ht List.not_mem_nil
  rows := h.rows_le
  current _ ht := absurd ht List.not_mem_nil
  loose := h.places_le_one false
  strict := h.places_le_one true
  claims := h.claims_le

/-- The places of a replica: the slots of the idle pools and the entries of `activeReplicas` that
have it, the goroutines that create, release or sweep it, and the deletions called on it. -/
def State.replicaPlaces (u : Str) (c : State) : ℤ :=
  c.ledger (fun w => w.held u + w.deleted u) (Thread.places true u)

/-- **Replicas are owned exclusively**: a replica is in at most one place, is given to at most one
invocation in flight, and none is deleted that an invocation has been given. -/
structure OwnedOnce (c : State) : Prop where
  onePlace : ∀ u, c.replicaPlaces u ≤ 1
  oneInvocation : ∀ (i j : ℕ) (t t' : Thread) (u : Str), c.threads[i]? = some t →
    c.threads[j]? = some t' → t.given = some u → t'.given = some u → i = j
  notDeleted : ∀ t ∈ c.threads, ∀ u, t.given = some u → ∀ ct, (ct, u) ∉ c.shared.deleteCalls

/-- The places of a replica are among those of its name. -/
lemma State.replicaPlaces_le (c : State) (u : Str) : c.replicaPlaces u ≤ c.places true u := by
  have h := c.shared.unborn_nonneg u
  simp only [State.replicaPlaces, State.places, Interleaving.Config.ledger, World.places, if_true]
  omega

/-- The ledgers say that replicas are owned exclusively.

**Proof sketch.** Two invocations that were given one replica would need two active replicas of its
name, and a replica that is active and has been deleted would have two places; the ledgers allow
one. -/
lemma State.Kept.ownedOnce {c : State} (hc : c.Kept) : OwnedOnce c where
  onePlace u := (c.replicaPlaces_le u).trans (hc.strict u)
  oneInvocation i j t t' u hi hj ht ht' := by
    by_contra hne
    have hsum := Interleaving.add_le_sum_of_getElem? (h := fun t : Thread => one t.given u)
      (fun t => one_nonneg _ _) hne hi hj
    have hclaims := hc.claims u
    have hactive := c.shared.active_le_held u
    have hheld := (c.replicaPlaces_le u).trans (hc.strict u)
    have hhands := Interleaving.sum_map_nonneg (Thread.places_nonneg true u) c.threads
    have hdel := c.shared.deleted_nonneg u
    -- two invocations would need two active replicas of the name
    simp only [State.claims, State.replicaPlaces, Interleaving.Config.ledger] at hclaims hheld
    simp only [ht, ht', one_some_self] at hsum
    omega
  notDeleted t ht u hgiven ct hmem := by
    have hactive := State.active_of_given (hc.claims u) ht hgiven
    have hheld := c.shared.active_le_held u
    have hle := (c.replicaPlaces_le u).trans (hc.strict u)
    have hhands := Interleaving.sum_map_nonneg (Thread.places_nonneg true u) c.threads
    have hdel : 1 ≤ c.shared.deleted u := by
      have : 0 < c.shared.deleteCalls.countP fun call => call.2 = u :=
        List.countP_pos_iff.mpr ⟨_, hmem, by simp⟩
      unfold World.deleted
      omega
    simp only [State.replicaPlaces, Interleaving.Config.ledger] at hle
    omega

/-- **Replicas are owned exclusively in every state of every run in which no function is
deleted**: any interleaving of invocations, creations in the background, sweeps, deployments and
changes of policies.

**Proof sketch.** The strict ledger of every name starts at most at one, and no section but those
of a delete request raises it; what is given is active; and an active replica is held by its
function, which leaves no room for a second invocation or a deletion. -/
theorem ownedOnce_throughout {cfg : Config} {storage : Storage} {now : Time} {w : World}
    (hstart : startProvider cfg storage now = .ok w) {events : List Event}
    (hkeep : ∀ m ∈ events, undeploys m = false) :
    Runs.Throughout provider.step OwnedOnce ⟨w, []⟩ events :=
  Runs.throughout_of_along (fun _ _ _ hI hok hstep => step_kept hI hok hstep)
    (fun _ hI => hI.ownedOnce) (startProvider_fresh hstart).1.kept (Runs.along_of_forall hkeep)

/-- An invocation of `f` creates a replica and releases it, and a second one is given the same
replica while a sweep runs. -/
def twoInvocations : List Event :=
  deployF ∅ ++ invokeF 1 12 { uuid := "1".toList, pid := 7 } ++ invokeF 2 4 ++
    .arrive (.sweep .tryLock) :: sections 3 1

/-- The run goes through, and replicas are owned exclusively throughout. -/
theorem ownedOnce_throughout_twoInvocations :
    ((smallRun twoInvocations).map fun c => c.threads.map Thread.given) =
        some [none, none, some "f_1_n".toList, none] ∧
      Runs.Throughout provider.step OwnedOnce ⟨smallWorld, []⟩ twoInvocations :=
  ⟨by decide, ownedOnce_throughout startProvider_small (by decide)⟩

end Fecore
