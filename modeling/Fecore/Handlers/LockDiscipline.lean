import Mathlib.Tactic.Common
import Fecore.Concurrency.LockOrder
import Fecore.Handlers.Functions

set_option relaxedAutoImplicit false
set_option autoImplicit false

/-!
# The locks of the provider

Every call of the function store by the locks that it takes and drops and the stats that it sends
(`pkg/provider/handlers/function_store.go`, `policy.go`, `stats.go`, `metrics.go`, `replicas.go`,
`invoke_resolver.go`, `ipam.go`, `wasm_network.go` and `pkg/provider/proxy/function_proxy.go`). What
depends on the state of the store (whether an idle replica is found, which replicas have expired,
where a call returns early) is a parameter, so the runs are all those that some state may lead to.

The locks of one function are taken in the order idle replicas, active replicas, statistics; the
counters come last, and all other locks are taken alone. Nothing is sent under a lock.

## Main definitions

* `Fecore.Mutex`, `Fecore.Mutex.rank` — the locks of the provider, and their order.
* `Fecore.Locking.getIdleReplica`, … — the calls, by their locks.
* `Fecore.Locking.Goroutine` — the goroutines that arrive: requests, sweeps, creations in the
  background, and evaluations of the policies.
* `Fecore.Locking.Goroutine.thread`, `Goroutine.keeps` — a goroutine that may panic, and the locks
  that it keeps then.
* `Fecore.Locking.process`, `Fecore.Locking.start` — `ProcessFunctionStats`, and the state in which
  it waits for the first stat.

## Main results

* `Fecore.Locking.Goroutine.disciplined` — every goroutine takes the locks in their order.
* `Fecore.Locking.locking_completes` — there is no deadlock while no goroutine panics under a lock
  that no deferred statement gives back: however the goroutines are scheduled, they end.

## Design

A goroutine may panic at any of its steps; deferred statements then give locks back, and the others
are kept for good. Among the requests, `GetMetricsReport` keeps `statMu` when it divides by zero,
and `UpdateReplicaStatusInactive` keeps `dfMu` when the function is no longer deployed; a panic that
is not in a request ends the provider. A lock belongs to an object of a function: a call that looks
a function up by its name twice is taken to find the same object, as it does while the function is
neither deleted nor deployed again. Calls outside the provider return.
-/

namespace Fecore

open LockOrder (Op Hold Balanced Disciplined)

/-- The locks of the function store and of one function. -/
inductive Mutex
  | cleanupMu
  | dfMu
  | ccMu
  | nsMu
  | metricMu
  | idleReplicasLock (fn : Str)
  | activeReplicasLock (fn : Str)
  | policyMu (fn : Str)
  | statMu (fn : Str)
deriving DecidableEq

/-- The order in which the locks are taken. -/
def Mutex.rank : Mutex → ℕ
  | .cleanupMu => 0
  | .idleReplicasLock _ => 1
  | .activeReplicasLock _ => 2
  | _ => 3

/-- A stat in `statsChan`: its function, and whether `functionStats` has it when it is processed. -/
structure Stat where
  fn : Str
  known : Bool

/-- A step of a call, and whether it takes or gives back a lock by a deferred statement. -/
structure Step where
  op : Op Mutex Stat
  deferred : Bool := false

/-- What a call does about locks and stats. -/
abbrev Script := List Step

namespace Locking

/-- The steps without the statements that they come from. -/
def ops (script : Script) : List (Op Mutex Stat) := script.map Step.op

/-- A lock around something else. -/
def around (k : Hold Mutex) (deferred : Bool) (script : Script) : Script :=
  ⟨k.take, deferred⟩ :: (script ++ [⟨k.give, deferred⟩])

/-- `Lock`, and `Unlock` after something else. -/
def write (l : Mutex) (script : Script := []) : Script := around (.writing l) false script

/-- `RLock`, and `RUnlock` after something else. -/
def read (l : Mutex) (script : Script := []) : Script := around (.reading l) false script

/-- `Lock`, and `Unlock` in a deferred statement. -/
def writeDeferred (l : Mutex) (script : Script := []) : Script := around (.writing l) true script

/-- `RLock`, and `RUnlock` in a deferred statement. -/
def readDeferred (l : Mutex) (script : Script := []) : Script := around (.reading l) true script

/-! ### The function store -/

/-- `GetDeployedFunctions`. -/
def getDeployedFunctions : Script := readDeferred .dfMu

/-- `GetDeployedFunction`. -/
def getDeployedFunction : Script := readDeferred .dfMu

/-- `GetFunctionLabels`. -/
def getFunctionLabels : Script := readDeferred .dfMu

/-- `GetFunctionImage`. -/
def getFunctionImage : Script := readDeferred .dfMu

/-- `AddDeployedFunction`, which returns early when an insertion into the storage fails. -/
def addDeployedFunction (inserted : Bool) : Script := if inserted then write .dfMu else []

/-- `RemoveDeployedFunction`, which returns early when the deletion from the storage fails. -/
def removeDeployedFunction (deleted : Bool) : Script :=
  read .dfMu ++ if deleted then writeDeferred .dfMu else []

/-- `AddIdleReplica`. -/
def addIdleReplica (fn : Str) : Script := writeDeferred (.idleReplicasLock fn)

/-- `GetIdleReplica`; the replica that is found becomes active under both locks. -/
def getIdleReplica (fn : Str) (found : Bool) : Script :=
  writeDeferred (.idleReplicasLock fn) (if found then write (.activeReplicasLock fn) else [])

/-- `AddActiveReplica`. -/
def addActiveReplica (fn : Str) : Script :=
  writeDeferred (.activeReplicasLock fn) (write (.statMu fn))

/-- `AddContainerCount`. -/
def addContainerCount : Script := writeDeferred .ccMu

/-- `AddWasmContainerCount`. -/
def addWasmContainerCount : Script := writeDeferred .ccMu

/-- `DelContainerCount`. -/
def delContainerCount : Script := writeDeferred .ccMu

/-- `DelWasmContainerCount`. -/
def delWasmContainerCount : Script := writeDeferred .ccMu

/-- How `DeleteReplica` turns out. -/
inductive Deletion
  /-- `DeleteNativeReplica`, and whether the container is removed -/
  | native (removed : Bool)
  /-- `DeleteWasmReplica`, and whether the process and the files are removed -/
  | wasm (removed : Bool)
  /-- there is no matching delete operation -/
  | other

/-- `DeleteReplica`. -/
def deleteReplica : Deletion → Script
  | .native removed => if removed then delContainerCount else []
  | .wasm removed => if removed then delWasmContainerCount else []
  | .other => []

/-- `DeleteAllReplicas`. -/
def deleteAllReplicas (fn : Str) (deletions : List Deletion) : Script :=
  writeDeferred (.idleReplicasLock fn) (deletions.flatMap deleteReplica)

/-- `GetNetNS`. -/
def getNetNS : Script := writeDeferred .nsMu

/-- `RecordColdStartTime`. -/
def recordColdStartTime : Script := writeDeferred .metricMu

/-- `RecordInvocationTime`. -/
def recordInvocationTime : Script := writeDeferred .metricMu

/-- `LastReservedIP`. -/
def lastReservedIP : Script := write .metricMu

/-- A sweep at one function: the `LRU` replicas that have expired, and the `MRU` when it has. -/
structure Visit where
  fn : Str
  lru : List Deletion
  mru : Option Deletion

/-- The pass of `CleanupDaemon` over one function: the lock is dropped while an expired `LRU` is
deleted, and kept while an expired `MRU` is. -/
def Visit.script (v : Visit) : Script :=
  v.lru.flatMap (fun d => write (.idleReplicasLock v.fn) ++ deleteReplica d) ++
    write (.idleReplicasLock v.fn) (v.mru.elim [] deleteReplica)

/-- `CleanupDaemon`. -/
def cleanupDaemon (visits : List Visit) : Script :=
  ⟨.tryLock .cleanupMu, true⟩ :: (visits.flatMap Visit.script ++ [⟨.unlock .cleanupMu, true⟩])

/-! ### Policies and statistics -/

/-- `GetInvocationPolicy`. -/
def getInvocationPolicy (fn : Str) : Script := readDeferred (.policyMu fn)

/-- `GetPolicyView`. -/
def getPolicyView (fn : Str) : Script := readDeferred (.policyMu fn)

/-- `UpdatePolicy`, which writes under a lock for reading. -/
def updatePolicy (fn : Str) : Script := readDeferred (.policyMu fn)

/-- `EvalSpawnAddlCtrs`. -/
def evalSpawnAddlCtrs (fn : Str) : Script := write (.policyMu fn)

/-- `EvalSandboxUtilization`. -/
def evalSandboxUtilization (fn nativeDeployment wasmDeployment : Str) : Script :=
  read .dfMu ++ read (.activeReplicasLock nativeDeployment) ++
    read (.idleReplicasLock nativeDeployment) ++ read (.activeReplicasLock wasmDeployment) ++
    read (.idleReplicasLock wasmDeployment) ++ write (.statMu fn) ++ evalSpawnAddlCtrs fn

/-- `EvalColdStartPolicy`. -/
def evalColdStartPolicy (fn nativeDeployment wasmDeployment : Str) : Script :=
  read .dfMu ++ read (.statMu nativeDeployment) ++ read (.statMu wasmDeployment) ++
    write (.policyMu fn)

/-- `EvalWarmStartPolicy`. -/
def evalWarmStartPolicy (fn nativeDeployment wasmDeployment : Str) : Script :=
  read .dfMu ++ read (.statMu nativeDeployment) ++ read (.statMu wasmDeployment) ++
    write (.policyMu fn)

/-- `GetMetricsReport`. -/
def getMetricsReport (fn : Str) : Script := read (.statMu fn) ++ write (.policyMu fn)

/-- `UpdateFunctionStats`: two stats for a hybrid function, one for any other. -/
def updateFunctionStats (stats : List Stat) : Script := stats.map fun stat => ⟨.send stat, false⟩

/-- What `ProcessFunctionStats` does for a stat. -/
def process (stat : Stat) : List (Op Mutex Stat) :=
  if stat.known then (Hold.writing (.statMu stat.fn)).around [] else []

/-! ### Creations and invocations -/

/-- A call of `createReplica`. -/
structure Creation where
  fname : Str
  wasm : Bool
  setActive : Bool
  /-- how often a slot is asked for -/
  tries : ℕ
  /-- how many of the calls under the slot are made before it returns -/
  calls : ℕ

/-- The replica is added to its function. -/
def Creation.add (c : Creation) : Script :=
  if c.setActive then addActiveReplica c.fname else addIdleReplica c.fname

/-- `createNativeReplica` and `createWasmReplica`, call by call. -/
def Creation.parts (c : Creation) : List Script :=
  if c.wasm then [getFunctionLabels, getFunctionImage, getNetNS, c.add]
  else [getDeployedFunction, c.add]

/-- `createReplica`. -/
def createReplica (c : Creation) : Script :=
  (List.replicate c.tries (if c.wasm then addWasmContainerCount else addContainerCount)).flatten ++
    (c.parts.take c.calls).flatten

/-- A call of `proxyRequest`. -/
structure Invocation where
  functionName : Str
  /-- the policy that a hybrid function is asked for -/
  hybrid : Bool
  /-- the function whose idle pool is asked, when one is -/
  pool : Option Str
  found : Bool
  creation : Creation
  stats : List Stat
  effectiveFname : Str
  /-- the deletion of the replica, or the function that it goes back to -/
  release : Deletion ⊕ Str
  /-- how many of the calls are made before it returns -/
  calls : ℕ

/-- `Resolve`, call by call. -/
def Invocation.resolve (i : Invocation) : List Script :=
  [getDeployedFunction] ++ (if i.hybrid then [getInvocationPolicy i.functionName] else []) ++
    (match i.pool with
    | some fn => [getIdleReplica fn i.found]
    | none => []) ++
    if i.found then []
    else createReplica i.creation :: if i.hybrid then [] else [recordColdStartTime]

/-- `UpdateReplicaStatusInactive`, call by call. -/
def Invocation.updateReplicaStatusInactive (i : Invocation) : List Script :=
  [read .dfMu, write (.activeReplicasLock i.effectiveFname), getInvocationPolicy i.functionName,
    match i.release with
    | .inl d => deleteReplica d
    | .inr fn => addIdleReplica fn]

/-- `proxyRequest`. -/
def proxyRequest (i : Invocation) : Script :=
  ((i.resolve ++ [recordInvocationTime, updateFunctionStats i.stats] ++
    i.updateReplicaStatusInactive).take i.calls).flatten

/-! ### Goroutines -/

/-- The goroutines that arrive. -/
inductive Goroutine
  | proxyRequest (i : Invocation)
  /-- a creation in the background -/
  | createReplica (c : Creation)
  | cleanupDaemon (visits : List Visit)
  | makeDeployHandler (inserted : Bool)
  | makeDeleteHandler (fn : Str) (deletions : List Deletion) (deleted : Bool)
  | makeUpdateHandler
  | makeReadHandler
  | makeReplicaReaderHandler
  | lastReservedIP
  | getPolicyView (fn : Str)
  | updatePolicy (fn : Str)
  | getMetricsReport (fn : Str)
  | evalSandboxUtilization (fn nativeDeployment wasmDeployment : Str)
  | evalColdStartPolicy (fn nativeDeployment wasmDeployment : Str)
  | evalWarmStartPolicy (fn nativeDeployment wasmDeployment : Str)

/-- What a goroutine does about locks and stats. -/
def Goroutine.script : Goroutine → Script
  | .proxyRequest i => Locking.proxyRequest i
  | .createReplica c => Locking.createReplica c
  | .cleanupDaemon visits => Locking.cleanupDaemon visits
  | .makeDeployHandler inserted => addDeployedFunction inserted
  | .makeDeleteHandler fn deletions deleted =>
    deleteAllReplicas fn deletions ++ removeDeployedFunction deleted
  | .makeUpdateHandler => getDeployedFunction
  | .makeReadHandler => getDeployedFunctions
  | .makeReplicaReaderHandler => getDeployedFunction
  | .lastReservedIP => Locking.lastReservedIP
  | .getPolicyView fn => Locking.getPolicyView fn
  | .updatePolicy fn => Locking.updatePolicy fn
  | .getMetricsReport fn => Locking.getMetricsReport fn
  | .evalSandboxUtilization fn native wasm => Locking.evalSandboxUtilization fn native wasm
  | .evalColdStartPolicy fn native wasm => Locking.evalColdStartPolicy fn native wasm
  | .evalWarmStartPolicy fn native wasm => Locking.evalWarmStartPolicy fn native wasm

/-- The locks that a goroutine keeps when it panics after some steps: no deferred statement gives
them back. -/
def Goroutine.keeps (g : Goroutine) (steps : ℕ) : List (Hold Mutex) :=
  LockOrder.heldAfter [] (ops ((g.script.take steps).filter fun step => !step.deferred))

/-- What a goroutine does that panics after some steps: the deferred statements run. -/
def Goroutine.panicking (g : Goroutine) (steps : ℕ) : List (Op Mutex Stat) :=
  let done := ops (g.script.take steps)
  done ++ ((LockOrder.heldAfter [] done).diff (g.keeps steps)).map Hold.give

/-- The goroutine when it arrives, and after how many steps it panics, if it does. -/
def Goroutine.thread (g : Goroutine) : Option ℕ → LockOrder.Thread Mutex Stat
  | none => ⟨ops g.script, []⟩
  | some steps => ⟨g.panicking steps, []⟩

/-- The goroutine does not panic while it holds a lock that no deferred statement gives back. -/
def Goroutine.GivesBack (g : Goroutine) (panics : Option ℕ) : Prop :=
  ∀ steps ∈ panics, g.keeps steps = []

-- a division by zero in `GetMetricsReport`
example (fn : Str) : (Goroutine.getMetricsReport fn).keeps 1 = [.reading (.statMu fn)] := rfl

/-- `ProcessFunctionStats` waits for the first stat. -/
def start : Interleaving.Config (LockOrder.Shared Mutex Stat) (LockOrder.Thread Mutex Stat) :=
  ⟨{}, [⟨[.receive], []⟩]⟩

/-- The provider by its locks; `statsChan` holds 100 stats. -/
def provider : Interleaving.Program (LockOrder.Shared Mutex Stat) (LockOrder.Thread Mutex Stat)
    Unit := LockOrder.program 100 process

/-! ### Every goroutine takes the locks in their order -/

section Discipline

variable {m : ℕ} {script script' : Script}

/-- A call of the store leaves the locks as it finds them, and takes none of a rank below `m`. -/
def Keeps (m : ℕ) (script : Script) : Prop := Balanced Mutex.rank m (ops script)

/-- A call without steps. -/
lemma keeps_nil : Keeps m [] := LockOrder.balanced_nil

/-- One call after another. -/
lemma Keeps.append (h : Keeps m script) (h' : Keeps m script') : Keeps m (script ++ script') := by
  unfold Keeps ops at *
  rw [List.map_append]
  exact Balanced.append h h'

/-- A call that takes no locks of a low rank takes none of a lower one. -/
lemma Keeps.mono {n : ℕ} (h : Keeps m script) (hle : n ≤ m) : Keeps n script :=
  Balanced.mono h hle

/-- Calls in a row. -/
lemma keeps_flatten {parts : List Script} (h : ∀ p ∈ parts, Keeps m p) : Keeps m parts.flatten := by
  induction parts with
  | nil => exact keeps_nil
  | cons p parts ih =>
    rw [List.flatten_cons]
    exact (h p List.mem_cons_self).append (ih fun q hq => h q (List.mem_cons_of_mem p hq))

/-- A call for each of some things. -/
lemma keeps_flatMap {β : Type} {f : β → Script} (h : ∀ b, Keeps m (f b)) (bs : List β) :
    Keeps m (bs.flatMap f) := by
  rw [List.flatMap_def]
  refine keeps_flatten fun p hp => ?_
  obtain ⟨b, -, rfl⟩ := List.mem_map.mp hp
  exact h b

/-- A lock around a call that takes locks of higher ranks. -/
lemma keeps_around {k : Hold Mutex} {deferred : Bool} (h : Keeps (k.of.rank + 1) script)
    (hm : m ≤ k.of.rank) : Keeps m (around k deferred script) := by
  have heq : ops (around k deferred script) = k.around (ops script) := by
    simp [ops, around, Hold.around]
  unfold Keeps
  rw [heq]
  exact Balanced.around h hm

/-- A lock alone. -/
lemma keeps_around_nil {k : Hold Mutex} {deferred : Bool} (hm : m ≤ k.of.rank) :
    Keeps m (around k deferred []) :=
  keeps_around keeps_nil hm

/-- Stats are sent while nothing is held. -/
lemma keeps_send (stats : List Stat) : Keeps 0 (updateFunctionStats stats) := by
  have heq : ops (updateFunctionStats stats) = stats.map Op.send := by
    simp [ops, updateFunctionStats]
  unfold Keeps
  rw [heq]
  exact LockOrder.balanced_send stats

/-- The beginning of a list of calls. -/
lemma keeps_take {parts : List Script} (h : ∀ p ∈ parts, Keeps m p) (n : ℕ) :
    Keeps m (parts.take n).flatten :=
  keeps_flatten fun p hp => h p (List.mem_of_mem_take hp)

/-- A deletion gives a slot back under the lock of the counters, which come after all others. -/
lemma keeps_deleteReplica : ∀ d : Deletion, Keeps 3 (deleteReplica d)
  | .native true => keeps_around_nil le_rfl
  | .native false => keeps_nil
  | .wasm true => keeps_around_nil le_rfl
  | .wasm false => keeps_nil
  | .other => keeps_nil

/-- The locks of the pools are taken under `dfMu`. -/
lemma keeps_getIdleReplica (fn : Str) : ∀ found : Bool, Keeps 0 (getIdleReplica fn found)
  | true => keeps_around (keeps_around_nil le_rfl) (Nat.zero_le _)
  | false => keeps_around_nil (Nat.zero_le _)

/-- The lock of the idle replicas is taken under `dfMu`. -/
lemma keeps_addIdleReplica (fn : Str) : Keeps 0 (addIdleReplica fn) :=
  keeps_around_nil (Nat.zero_le _)

/-- The lock of the active replicas is taken under `dfMu`. -/
lemma keeps_addActiveReplica (fn : Str) : Keeps 0 (addActiveReplica fn) :=
  keeps_around (keeps_around_nil le_rfl) (Nat.zero_le _)

/-- The deletions are made under the lock of the idle replicas. -/
lemma keeps_deleteAllReplicas (fn : Str) (deletions : List Deletion) :
    Keeps 0 (deleteAllReplicas fn deletions) :=
  keeps_around ((keeps_flatMap keeps_deleteReplica deletions).mono (by decide : 2 ≤ 3))
    (Nat.zero_le _)

/-- A sweep at one function takes no lock below that of the idle replicas. -/
lemma keeps_visit (v : Visit) : Keeps 1 v.script := by
  have hlru : ∀ d, Keeps 1 (write (.idleReplicasLock v.fn) ++ deleteReplica d) := fun d =>
    Keeps.append (m := 1) (keeps_around_nil le_rfl) ((keeps_deleteReplica d).mono (by decide))
  have hmru : Keeps 2 (v.mru.elim [] deleteReplica) := by
    cases v.mru with
    | none => exact keeps_nil
    | some d => exact (keeps_deleteReplica d).mono (by decide)
  exact (keeps_flatMap hlru v.lru).append (keeps_around hmru le_rfl)

/-- A replica is added to either pool. -/
lemma keeps_add (c : Creation) : Keeps 0 c.add := by
  unfold Creation.add
  split
  · exact keeps_addActiveReplica _
  · exact keeps_addIdleReplica _

/-- A creation takes its locks one after the other.

**Proof sketch.** The attempts at a slot take the lock of the count, and the parts after them take
one lock each. Append them. -/
lemma keeps_createReplica (c : Creation) : Keeps 0 (createReplica c) := by
  have hslot : Keeps 0 (if c.wasm then addWasmContainerCount else addContainerCount) := by
    split <;> exact keeps_around_nil (Nat.zero_le _)
  have hslots : Keeps 0 (List.replicate c.tries
      (if c.wasm then addWasmContainerCount else addContainerCount)).flatten :=
    keeps_flatten fun p hp => List.eq_of_mem_replicate hp ▸ hslot
  refine hslots.append (keeps_take (fun p hp => ?_) _)
  unfold Creation.parts at hp
  split at hp
  · simp only [List.mem_cons, List.not_mem_nil, or_false] at hp
    rcases hp with rfl | rfl | rfl | rfl
    · exact keeps_around_nil (Nat.zero_le _)
    · exact keeps_around_nil (Nat.zero_le _)
    · exact keeps_around_nil (Nat.zero_le _)
    · exact keeps_add c
  · simp only [List.mem_cons, List.not_mem_nil, or_false] at hp
    rcases hp with rfl | rfl
    · exact keeps_around_nil (Nat.zero_le _)
    · exact keeps_add c

/-- Every call of `Resolve` is made while nothing is held.

**Proof sketch.** Go through the calls that a request may make one after another; each of them
begins and ends with nothing held. -/
lemma keeps_resolve (i : Invocation) : ∀ p ∈ i.resolve, Keeps 0 p := by
  intro p hp
  simp only [Invocation.resolve, List.mem_append, List.mem_singleton] at hp
  rcases hp with ((rfl | hp) | hp) | hp
  · exact keeps_around_nil (Nat.zero_le _)
  · split at hp
    · rw [List.mem_singleton.mp hp]
      exact keeps_around_nil (Nat.zero_le _)
    · cases hp
  · split at hp
    · rw [List.mem_singleton.mp hp]
      exact keeps_getIdleReplica _ _
    · cases hp
  · split at hp
    · cases hp
    · rcases List.mem_cons.mp hp with rfl | hp
      · exact keeps_createReplica _
      · split at hp
        · cases hp
        · rw [List.mem_singleton.mp hp]
          exact keeps_around_nil (Nat.zero_le _)

/-- Every call of `UpdateReplicaStatusInactive` is made while nothing is held. -/
lemma keeps_release (i : Invocation) : ∀ p ∈ i.updateReplicaStatusInactive, Keeps 0 p := by
  intro p hp
  simp only [Invocation.updateReplicaStatusInactive, List.mem_cons, List.not_mem_nil,
    or_false] at hp
  rcases hp with rfl | rfl | rfl | rfl
  · exact keeps_around_nil (Nat.zero_le _)
  · exact keeps_around_nil (Nat.zero_le _)
  · exact keeps_around_nil (Nat.zero_le _)
  · split
    · exact (keeps_deleteReplica _).mono (Nat.zero_le _)
    · exact keeps_addIdleReplica _

/-- An invocation takes its locks one after the other. -/
lemma keeps_proxyRequest (i : Invocation) : Keeps 0 (proxyRequest i) := by
  refine keeps_take (fun p hp => ?_) _
  simp only [List.mem_append, List.mem_cons, List.not_mem_nil, or_false] at hp
  rcases hp with (hp | rfl | rfl) | hp
  · exact keeps_resolve i p hp
  · exact keeps_around_nil (Nat.zero_le _)
  · exact keeps_send _
  · exact keeps_release i p hp

/-- A sweep holds `cleanupMu` when it takes the locks of the functions. -/
lemma disciplined_cleanupDaemon (visits : List Visit) :
    Disciplined Mutex.rank [] (ops (cleanupDaemon visits)) := by
  have heq : ops (cleanupDaemon visits) =
      .tryLock .cleanupMu :: (ops (visits.flatMap Visit.script) ++ [.unlock .cleanupMu]) := by
    simp [ops, cleanupDaemon]
  rw [heq]
  refine ⟨rfl, keeps_flatMap keeps_visit visits [.writing .cleanupMu] _ (fun k hk => ?_)
    ⟨List.mem_cons_self, rfl⟩⟩
  rw [List.mem_singleton.mp hk]
  exact Nat.one_pos

/-- **Every goroutine takes the locks in their order.**

**Proof sketch.** Case split on the goroutine. Its script is built out of critical sections of one
lock (`keeps_around_nil`), joined with `Keeps.append`; the proxy request, the creation, the cleanup
and the deletion of all replicas have their own lemmas. -/
theorem Goroutine.disciplined (g : Goroutine) : Disciplined Mutex.rank [] (ops g.script) := by
  have hread : ∀ {l l₁ l₂ l₃ : Mutex}, Keeps 0 (read l ++ read l₁ ++ read l₂ ++ write l₃) :=
    ((((keeps_around_nil (Nat.zero_le _)).append (keeps_around_nil (Nat.zero_le _))).append
      (keeps_around_nil (Nat.zero_le _))).append (keeps_around_nil (Nat.zero_le _)))
  cases g with
  | proxyRequest i => exact (keeps_proxyRequest i).disciplined
  | createReplica c => exact (keeps_createReplica c).disciplined
  | cleanupDaemon visits => exact disciplined_cleanupDaemon visits
  | makeDeployHandler inserted =>
    cases inserted with
    | true => exact (keeps_around_nil le_rfl).disciplined
    | false => exact keeps_nil (m := 0).disciplined
  | makeDeleteHandler fn deletions deleted =>
    refine ((keeps_deleteAllReplicas fn deletions).append
      ((keeps_around_nil (Nat.zero_le _)).append ?_)).disciplined
    cases deleted with
    | true => exact keeps_around_nil (Nat.zero_le _)
    | false => exact keeps_nil
  | makeUpdateHandler => exact (keeps_around_nil le_rfl).disciplined
  | makeReadHandler => exact (keeps_around_nil le_rfl).disciplined
  | makeReplicaReaderHandler => exact (keeps_around_nil le_rfl).disciplined
  | lastReservedIP => exact (keeps_around_nil le_rfl).disciplined
  | getPolicyView fn => exact (keeps_around_nil le_rfl).disciplined
  | updatePolicy fn => exact (keeps_around_nil le_rfl).disciplined
  | getMetricsReport fn =>
    exact ((keeps_around_nil (Nat.zero_le _)).append (keeps_around_nil (Nat.zero_le _))).disciplined
  | evalSandboxUtilization fn native wasm =>
    refine Balanced.disciplined (m := 0) (Keeps.append (Keeps.append (Keeps.append
      (Keeps.append (Keeps.append (Keeps.append ?_ ?_) ?_) ?_) ?_) ?_) ?_)
    · exact keeps_around_nil (Nat.zero_le _)
    · exact keeps_around_nil (Nat.zero_le _)
    · exact keeps_around_nil (Nat.zero_le _)
    · exact keeps_around_nil (Nat.zero_le _)
    · exact keeps_around_nil (Nat.zero_le _)
    · exact keeps_around_nil (Nat.zero_le _)
    · exact keeps_around_nil (Nat.zero_le _)
  | evalColdStartPolicy fn native wasm => exact hread.disciplined
  | evalWarmStartPolicy fn native wasm => exact hread.disciplined

/-- A goroutine that panics gives back the locks in their order too. -/
lemma Goroutine.disciplined_thread {g : Goroutine} {panics : Option ℕ} (h : g.GivesBack panics) :
    Disciplined Mutex.rank [] (g.thread panics).ops := by
  cases panics with
  | none => exact g.disciplined
  | some steps =>
    have hcut := g.disciplined.cut steps
    rw [ops, ← List.map_take, ← ops] at hcut
    simpa only [Goroutine.thread, Goroutine.panicking, h steps rfl, List.diff_nil] using hcut

/-- What is done for a stat takes one lock, and sends nothing. -/
lemma serving_process : LockOrder.Serving Mutex.rank process where
  balanced stat := by
    unfold process
    split
    · exact Balanced.around LockOrder.balanced_nil (Nat.zero_le _)
    · exact LockOrder.balanced_nil
  plain stat op hop := by
    unfold process at hop
    split at hop
    · simp only [Hold.around, Hold.take, Hold.give, List.nil_append, List.mem_cons,
        List.not_mem_nil, or_false] at hop
      rcases hop with rfl | rfl <;> rfl
    · cases hop

end Discipline

/-! ### Runs -/

/-- At the start no lock is taken, and the channel is empty. -/
lemma orderly_start : LockOrder.Orderly Mutex.rank start where
  taken _ := rfl
  disciplined t ht := by
    rw [List.mem_singleton.mp ht]
    exact ⟨rfl, rfl⟩
  served := ⟨_, List.mem_singleton_self _, [], rfl, fun _ hop => absurd hop List.not_mem_nil⟩

/-- **The provider has no deadlock** while no goroutine panics under a lock that it keeps. Whatever
goroutines have arrived, and however far they have come, they can go on until all have ended, no
lock is held and every stat has been processed. They go on only so often in whichever order they do,
and where none can go on, this is so.

**Proof sketch.** Every goroutine takes the locks in their order (`Goroutine.disciplined_thread`),
and `statsChan` is always received from: the rules for locks that are taken in an order. -/
theorem locking_completes
    {events : List (Interleaving.Move (LockOrder.Thread Mutex Stat) Unit)}
    (harrive : ∀ t, .arrive t ∈ events → ∃ (g : Goroutine) (panics : Option ℕ),
      g.GivesBack panics ∧ t = g.thread panics)
    {c : Interleaving.Config (LockOrder.Shared Mutex Stat) (LockOrder.Thread Mutex Stat)}
    (hrun : Runs.run provider.step start events = some c) :
    (∃ is c', Runs.run provider.step c (LockOrder.schedule is) = some c' ∧ LockOrder.Quiet c') ∧
      ∀ is c', Runs.run provider.step c (LockOrder.schedule is) = some c' →
        is.length ≤ LockOrder.work process c ∧
          (LockOrder.Stuck 100 process c' → LockOrder.Quiet c') := by
  have hcap : 0 < 100 := by decide
  have horderly : LockOrder.Orderly Mutex.rank c := by
    refine orderly_start.of_run serving_process (fun t ht => ?_) hrun
    obtain ⟨g, panics, hback, rfl⟩ := harrive t ht
    exact Goroutine.disciplined_thread hback
  refine ⟨LockOrder.exists_quiet hcap serving_process horderly, fun is c' hrun' => ⟨?_, ?_⟩⟩
  · exact (Nat.le_add_right _ _).trans (LockOrder.length_le_work serving_process hrun')
  · exact LockOrder.quiet_of_stuck hcap (horderly.of_schedule serving_process hrun')

/-- An invocation of the native function `f` that finds an idle replica and gives it back. -/
def warmInvocation : Invocation :=
  { functionName := "f".toList
    hybrid := false
    pool := some "f".toList
    found := true
    creation := { fname := "f".toList, wasm := false, setActive := true, tries := 0, calls := 0 }
    stats := [⟨"f".toList, true⟩]
    effectiveFname := "f".toList
    release := .inr "f".toList
    calls := 8 }

/-- A sweep has taken the lock of the idle replicas of `f` and found an expired `MRU`; an invocation
of `f` comes to the lock, and will panic when it has it. -/
def sweepFirst : List (Interleaving.Move (LockOrder.Thread Mutex Stat) Unit) :=
  [.arrive ((Goroutine.cleanupDaemon [⟨"f".toList, [], some (.native true)⟩]).thread none),
    .step 1 (), .step 1 (), .step 1 (),
    .arrive ((Goroutine.proxyRequest warmInvocation).thread (some 3)), .step 2 (), .step 2 ()]

/-- The invocation waits for the sweep, which goes on, and its panic gives the lock back. -/
theorem locking_completes_sweepFirst :
    (∃ is c', Runs.run provider.step ((Runs.run provider.step start sweepFirst).get rfl)
        (LockOrder.schedule is) = some c' ∧ LockOrder.Quiet c') ∧
      ∀ is c', Runs.run provider.step ((Runs.run provider.step start sweepFirst).get rfl)
          (LockOrder.schedule is) = some c' →
        is.length ≤ LockOrder.work process
          ((Runs.run provider.step start sweepFirst).get rfl) ∧
          (LockOrder.Stuck 100 process c' → LockOrder.Quiet c') :=
  locking_completes (fun t ht => by
    simp only [sweepFirst, List.mem_cons, Interleaving.Move.arrive.injEq, reduceCtorEq,
      List.not_mem_nil, or_false, false_or] at ht
    rcases ht with rfl | rfl
    · exact ⟨_, none, nofun, rfl⟩
    · exact ⟨_, some 3, fun steps hsteps => by
        cases hsteps
        rfl, rfl⟩) (Option.some_get _).symm

/-- A report of `f` has divided by zero, and then an invocation of `f` comes to its end. -/
def reportPanics : List (Interleaving.Move (LockOrder.Thread Mutex Stat) Unit) :=
  [.arrive ((Goroutine.getMetricsReport "f".toList).thread (some 1)), .step 1 (),
    .arrive ((Goroutine.proxyRequest warmInvocation).thread none)] ++
    List.replicate 18 (.step 2 ()) ++ [.step 0 (), .step 0 ()]

-- `ProcessFunctionStats` waits for `statMu` for good
example : (((Runs.run provider.step start reportPanics).bind
    fun c => provider.step c (.step 0 ())).isNone ∧
      (Runs.run provider.step start reportPanics).isSome) := by decide

end Locking

end Fecore
