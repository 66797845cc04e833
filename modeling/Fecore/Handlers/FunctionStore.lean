import Mathlib.Data.List.AList
import Mathlib.Tactic.Common
import Fecore.Data.Decimal
import Fecore.Handlers.IdleReplicas
import Fecore.Service.Remove

set_option relaxedAutoImplicit false
set_option autoImplicit false

/-!
# The function store

The state of the provider and the sections of `pkg/provider/handlers/function_store.go`,
`policy.go` and `wasm_network.go` that read and write it. One section is what a goroutine does
between taking a lock and dropping it; one deletion of a replica is one section too.

## Main definitions

* `Fecore.World` — the function store, the node under it, and the history of deletions.
* `Fecore.Fault` — the ways in which a goroutine panics.
* `Fecore.World.addIdleReplica`, `getIdleReplica`, `addActiveReplica`, `takeActive`, … — the
  sections on the replicas of a deployed function.
* `Fecore.World.deleteReplica`, `deleteAllReplicas` — the deletion of replicas.
* `Fecore.initFunctionStore`, `Fecore.startProvider` — the states a run starts in.

## Main results

* `Fecore.startProvider_keeps` — what holds of the states a run starts in, by the steps of restoring
  the stored functions.

## Design

The objects of type `Function` live in a heap and are never freed: a goroutine may keep a pointer
to one that is no longer in `deployedFunctions`. A section that panics after a write leaves the
write behind, so such a section returns the state together with the fault.
-/

namespace Fecore

/-- The ways in which a goroutine panics. -/
inductive Fault
  /-- `fs.deployedFunctions[fn]` is absent and dereferenced -/
  | absentFunction
  /-- `fs.functionStats[fn]` is absent and dereferenced -/
  | absentStats
  /-- a nil `*Replica` is dereferenced -/
  | nilReplica
  /-- a nil `*http.Response` is dereferenced -/
  | nilResponse
  /-- an index is out of range -/
  | indexRange
deriving DecidableEq

/-- A WASM process that runs: the name of its replica, its PID, and the network namespace it was
started in. -/
structure WasmProc where
  name : Str
  pid : ℕ
  netns : WasmIPInfo
deriving DecidableEq

/-- A row of the table `Container` of the storage. -/
structure StorageContainer where
  name : Str
  parentFunction : Str
  ip : Str
deriving DecidableEq

/-- The function store, the node, and the history. -/
structure World where
  cfg : Config
  /-- all the `Function` objects allocated so far -/
  heap : List Function := []
  deployedFunctions : GoMap Ref := ∅
  /-- `activeCount` of the statistics of each function -/
  functionStats : GoMap ℤ := ∅
  /-- the names in the table `Function` of the storage -/
  functionTable : List Str := []
  containerTable : List StorageContainer := []
  containerCount : ℤ := 0
  wasmContainerCount : ℤ := 0
  netnsList : List WasmIPInfo := []
  cleanupMu : Bool := false
  containerd : Containerd := {}
  wasmProcs : List WasmProc := []
  /-- the native replicas that exist: created successfully, and their container not removed since -/
  nativeReplicas : List Key := []
  /-- the names given to replicas so far -/
  created : List Str := []
  /-- the calls of `DeleteNativeReplica` and `DeleteWasmReplica` so far: the container type that
  names the callee, and the replica -/
  deleteCalls : List (Str × Str) := []
  /-- the replicas that the loop of `DeleteAllReplicas` has come to -/
  deletedByAll : List Str := []

/-- What a deletion meets outside: the calls of `service.Remove`, `os.FindProcess`, and
`os.RemoveAll` on the replica's directory. -/
structure Answers where
  remove : RemoveErrors := {}
  findProcess : Bool := false
  removeAll : Bool := false

namespace World

/-- `fs.deployedFunctions[name]`, with the object it points to. -/
def fn? (w : World) (name : Str) : Option (Ref × Function) :=
  match w.deployedFunctions.lookup name with
  | none => none
  | some o => w.heap[o]?.map (o, ·)

/-- Writes the object at `o`. -/
def setFn (w : World) (o : Ref) (f : Function) : World := { w with heap := w.heap.set o f }

/-! ### Replicas of a deployed function -/

/-- `AddIdleReplica`. -/
def addIdleReplica (w : World) (replica : Replica) (now : Time) : Except Fault World :=
  match w.fn? replica.fname with
  | none => .error .absentFunction
  | some (o, f) => .ok (w.setFn o { f with idleReplicas := f.idleReplicas.add replica now })

/-- `GetIdleReplica`: no replica is the error it returns. -/
def getIdleReplica (w : World) (fn : Str) : Except Fault (Option (Replica × World)) :=
  match w.fn? fn with
  | none => .error .absentFunction
  | some (o, f) =>
    match f.takeIdle with
    | none => .ok none
    | some (replica, f') => .ok (some (replica, w.setFn o f'))

/-- `RemoveIdleReplica`. -/
def removeIdleReplica (w : World) (fn : Str) : Except Fault World :=
  match w.fn? fn with
  | none => .error .absentFunction
  | some (o, f) => .ok (w.setFn o { f with idleReplicas := f.idleReplicas.remove })

/-- `AddActiveReplica`: the replica is in the map when the statistics turn out to be absent. -/
def addActiveReplica (w : World) (replica : Replica) : World × Option Fault :=
  match w.fn? replica.fname with
  | none => (w, some .absentFunction)
  | some (o, f) =>
    let w := w.setFn o { f with activeReplicas := f.activeReplicas.insert replica.uuid replica }
    match w.functionStats.lookup replica.fname with
    | none => (w, some .absentStats)
    | some activeCount =>
      ({ w with functionStats := w.functionStats.insert replica.fname (activeCount + 1) }, none)

/-- The section of `UpdateReplicaStatusInactive` under `activeReplicasLock`: the entry is read,
nil when it is absent, and deleted. -/
def takeActive (w : World) (effectiveFname replicaName : Str) :
    Except Fault (Option Replica × World) :=
  match w.fn? effectiveFname with
  | none => .error .absentFunction
  | some (o, f) =>
    .ok (f.activeReplicas.lookup replicaName,
      w.setFn o { f with activeReplicas := f.activeReplicas.erase replicaName })

/-- `GetInvocationPolicy`. -/
def getInvocationPolicy (w : World) (fn : Str) : Except Fault Policy :=
  match w.fn? fn with
  | none => .error .absentFunction
  | some (_, f) => .ok f.policy

/-! ### The counters -/

/-- `AddContainerCount`: the limit is a constant of the code, not the one of the config. -/
def addContainerCount (w : World) : Option World :=
  if w.containerCount < 1000 then some { w with containerCount := w.containerCount + 1 }
  else none

/-- `AddWasmContainerCount`. -/
def addWasmContainerCount (w : World) : Option World :=
  if w.wasmContainerCount < w.cfg.maxWasmContainers then
    some { w with wasmContainerCount := w.wasmContainerCount + 1 }
  else none

/-- `DelContainerCount`. -/
def delContainerCount (w : World) : World :=
  if 0 < w.containerCount then { w with containerCount := w.containerCount - 1 } else w

/-- `DelWasmContainerCount`. -/
def delWasmContainerCount (w : World) : World :=
  if 0 < w.wasmContainerCount then { w with wasmContainerCount := w.wasmContainerCount - 1 } else w

/-! ### Deleting replicas -/

/-- `service.Remove` on the records of the node; a replica is there until the record of its
container is removed. -/
def removeContainer (w : World) (errs : RemoveErrors) (key : Key) : World :=
  let c := (errs.remove key w.containerd).1
  { w with
    containerd := c
    nativeReplicas :=
      if c.containers = w.containerd.containers then w.nativeReplicas
      else w.nativeReplicas.erase key }

/-- `DeleteNativeReplica` in the namespace `ns` of its context. -/
def deleteNativeReplica (w : World) (ns : Str) (a : Answers) (replica : Replica) : World :=
  let w := { w with deleteCalls := (native, replica.uuid) :: w.deleteCalls }
  let key := (ns, replica.uuid)
  let w' := w.removeContainer a.remove key
  if (a.remove.remove key w.containerd).2.isSome then w' else w'.delContainerCount

/-- `DeleteWasmReplica`: the image is read before anything else; the process is killed by its PID,
and the result of `Kill` is not looked at. -/
def deleteWasmReplica (w : World) (a : Answers) (replica : Replica) : World × Option Fault :=
  let w := { w with deleteCalls := (wasm, replica.uuid) :: w.deleteCalls }
  match w.fn? replica.fname with
  | none => (w, some .absentFunction)
  | some _ =>
    if a.findProcess then (w, none)
    else
      let w := { w with wasmProcs := w.wasmProcs.filter fun p => p.pid ≠ replica.pid }
      if a.removeAll then (w, none) else (w.delWasmContainerCount, none)

/-- The deletion according to `ctrType`, in the namespace `ns`. -/
def deleteIn (w : World) (ns : Str) (a : Answers) (replica : Replica) : World × Option Fault :=
  if replica.ctrType = native then (w.deleteNativeReplica ns a replica, none)
  else if replica.ctrType = wasm then w.deleteWasmReplica a replica
  else (w, none) -- could not find matching delete operation

/-- `DeleteReplica`: always in the default namespace. -/
def deleteReplica (w : World) (a : Answers) (replica : Replica) : World × Option Fault :=
  w.deleteIn defaultFunctionNamespace a replica

/-- The loop of `DeleteAllReplicas` over `containers[]`, up to a panic. -/
def deleteEach (ns : Str) (answers : Str → Answers) : World → List Replica → World × Option Fault
  | w, [] => (w, none)
  | w, replica :: rest =>
    let w := { w with deletedByAll := replica.uuid :: w.deletedByAll }
    match w.deleteIn ns (answers replica.uuid) replica with
    | (w', none) => deleteEach ns answers w' rest
    | (w', some fault) => (w', some fault)

/-- `DeleteAllReplicas`, in the namespace of the request; `idleReplicas` stays as it is. -/
def deleteAllReplicas (w : World) (ns : Str) (answers : Str → Answers) (fn : Str) :
    World × Option Fault :=
  match w.fn? fn with
  | none => (w, some .absentFunction)
  | some (_, f) =>
    if f.idleReplicas.count ≤ 0 then (w, none)
    else deleteEach ns answers w f.idleReplicas.containers

/-! ### The deployed functions -/

/-- `getContainers`: the active replicas and those of `containers[]`. -/
def getContainers (f : Function) : List StorageContainer :=
  f.activeReplicas.entries.map (fun e => ⟨e.1, f.name, e.2.ip⟩) ++
    f.idleReplicas.containers.map fun r => ⟨r.uuid, f.name, r.ip⟩

/-- A function without replicas has no rows to insert or to delete. -/
lemma getContainers_eq_nil {f : Function} (hidle : f.idleReplicas = {})
    (hact : f.activeReplicas = ∅) : getContainers f = [] := by
  simp [getContainers, hidle, hact]

/-- `storageManager.InsertContainer` for each of the rows; the name is the primary key. -/
def insertContainers : World → List StorageContainer → Option World
  | w, [] => some w
  | w, c :: cs =>
    if c.name ∈ w.containerTable.map (·.name) then none
    else insertContainers { w with containerTable := c :: w.containerTable } cs

/-- The insertions of `AddDeployedFunction`; the name is the primary key. -/
def insertFunction (w : World) (f : Function) : Option World :=
  if f.name ∈ w.functionTable then none
  else insertContainers { w with functionTable := f.name :: w.functionTable } (getContainers f)

/-- The deletions of `RemoveDeployedFunction` from the storage. -/
def deleteRows (w : World) (name : Str) (f : Function) : World :=
  { w with
    functionTable := w.functionTable.filter (· ≠ name)
    containerTable :=
      w.containerTable.filter fun c => c.name ∉ (getContainers f).map (·.name) }

/-- `fs.deployedFunctions[fn.name] = fn` for a new object. -/
def putFunction (w : World) (f : Function) : World :=
  { w with
    heap := w.heap ++ [f]
    deployedFunctions := w.deployedFunctions.insert f.name w.heap.length }

/-- `delete(fs.deployedFunctions, name)`, which does nothing to an absent name. -/
def dropFunction (w : World) (name : Str) : World :=
  { w with deployedFunctions := w.deployedFunctions.erase name }

/-- `fs.functionStats[fn.name] = &fnStats`. -/
def putStats (w : World) (name : Str) : World :=
  { w with functionStats := w.functionStats.insert name 0 }

/-- `fs.MAX_ADDL_CTRS`. -/
def maxAddlCtrs : ℤ := 5

/-- `fs.MAX_KEEPALIVE_TIME`. -/
def maxKeepaliveTime : ℤ := 60

/-- The policy after the checks of `UpdatePolicy`. -/
def updatedPolicy (policy updated : Policy) : Policy :=
  { coldStartCtrType :=
      if updated.coldStartCtrType = native ∨ updated.coldStartCtrType = wasm then
        updated.coldStartCtrType
      else policy.coldStartCtrType
    warmStartCtrType :=
      if updated.warmStartCtrType = native ∨ updated.warmStartCtrType = wasm then
        updated.warmStartCtrType
      else policy.warmStartCtrType
    spawnAddlCtrs :=
      if updated.spawnAddlCtrs ≠ -1 ∧ updated.spawnAddlCtrs < maxAddlCtrs then
        updated.spawnAddlCtrs
      else policy.spawnAddlCtrs
    keepaliveColdStartCtr :=
      if 0 ≤ updated.keepaliveColdStartCtr ∧ updated.keepaliveColdStartCtr < maxKeepaliveTime then
        updated.keepaliveColdStartCtr
      else policy.keepaliveColdStartCtr }

/-- `UpdatePolicy`. -/
def updatePolicy (w : World) (fn : Str) (updated : Policy) : Except Fault World :=
  match w.fn? fn with
  | none => .error .absentFunction
  | some (o, f) => .ok (w.setFn o { f with policy := updatedPolicy f.policy updated })

/-! ### Network namespaces -/

/-- `GetNetNS`. -/
def getNetNS (w : World) : Option (WasmIPInfo × World) :=
  match w.netnsList with
  | [] => none
  | ipInfo :: rest => some (ipInfo, { w with netnsList := rest })

/-- `ReturnNetNS`, which no code calls. -/
def returnNetNS (w : World) (ipInfo : WasmIPInfo) : World :=
  { w with netnsList := w.netnsList ++ [ipInfo] }

end World

/-! ### The start of the provider -/

/-- The decimal digits of `n`. -/
def itoa (n : ℕ) : Str := (toString n).toList

/-- What is written is a number. -/
lemma numeral_itoa (n : ℕ) : Decimal.Numeral (itoa n) n := Decimal.numeral_toString n

/-- Different numbers have different numerals. -/
lemma itoa_injective : Function.Injective itoa := by
  intro m n h
  have hm := numeral_itoa m
  rw [h] at hm
  exact_mod_cast hm.unique (numeral_itoa n)

/-- A numeral has no dot. -/
lemma dot_notMem_itoa (n : ℕ) : '.' ∉ itoa n :=
  (Decimal.digits_toString n).notMem (by decide)

/-- The pairs of `CreateWasmInterfaces`, from the counters `ns`, `v2` and `v3` on. -/
def wasmInterfaces : ℕ → ℕ → ℕ → ℕ → List WasmIPInfo
  | 0, _, _, _ => []
  | k + 1, ns, v2, v3 =>
    let (v2, v3) := if 254 < v3 then (v2 + 1, 1) else (v2, v3)
    let thisIP := "10.63.".toList ++ itoa v2 ++ ".".toList ++ itoa v3
    { netnsNum := (ns : ℤ), ip := thisIP } :: wasmInterfaces k (ns + 1) v2 (v3 + 1)

/-- `CreateWasmInterfaces` on an empty pool: the pairs it creates, at most 1000. -/
def createWasmInterfaces (numNS : ℤ) : List WasmIPInfo :=
  wasmInterfaces (min numNS 1000).toNat 1 100 1

/-- The JSON texts in the storage, which encode maps of strings and lists of strings. -/
inductive Json
  | null
  | object (m : GoMap Str)
  | array (xs : List Str)

/-- `json.Unmarshal` into a map of strings: null clears it, an object is merged into it, an array
is an error and leaves it. -/
def Json.unmarshal : Json → GoMap Str → GoMap Str
  | .null, _ => ∅
  | .object o, m => o ∪ m
  | .array _, m => m

/-- A row of the table `Function`. -/
structure StorageFunction where
  name : Str
  namespace_ : Str
  image : Str
  labels : Json := .null
  annotations : Json := .null
  secrets : Json := .null
  secretsPath : Str := []
  envVars : Json := .null
  envProcess : Str := []
  memoryLimit : ℤ := 0

/-- The tables of the storage; the name is the primary key of `Function`. -/
structure Storage where
  functions : List StorageFunction := []
  containers : List StorageContainer := []
  functions_nodup : (functions.map (·.name)).Nodup := by decide

/-- `getFunction`: the columns of the environment and of the secrets are decoded into
`annotations`; the image files, the sandboxes and the policy, for which there is no column, stay
zero. -/
def getFunction (f : StorageFunction) : Function :=
  { name := f.name
    namespace_ := f.namespace_
    image := f.image
    labels := f.labels.unmarshal ∅
    annotations := f.secrets.unmarshal (f.envVars.unmarshal (f.annotations.unmarshal ∅))
    secretsPath := f.secretsPath
    envProcess := f.envProcess
    memoryLimit := f.memoryLimit }

/-- `InitFunctionStore` for the replicas stored for a function: they are added to an idle pool that
is looked up in `deployedFunctions`. -/
def restoreContainers (now : Time) (fname : Str) :
    World → List StorageContainer → Except Fault World
  | w, [] => .ok w
  | w, c :: cs =>
    let replica : Replica :=
      { fname := fname, ctrType := [], uuid := c.name, pid := 1, ip := c.ip, netNS := 0,
        lastAccess := now }
    match w.addIdleReplica replica now with
    | .error fault => .error fault
    | .ok w => restoreContainers now fname w cs

/-- `InitFunctionStore` for the stored functions: each is put into `deployedFunctions` after its
replicas have been added. -/
def restoreFunctions (now : Time) : World → List StorageFunction → Except Fault World
  | w, [] => .ok w
  | w, row :: rows =>
    let fn := getFunction row
    let cns := w.containerTable.filter (·.parentFunction = fn.name)
    match restoreContainers now fn.name w cns with
    | .error fault => .error fault
    | .ok w => restoreFunctions now (w.putFunction fn) rows

/-- `InitFunctionStore` over the tables of the storage. -/
def initFunctionStore (cfg : Config) (storage : Storage) (now : Time) : Except Fault World :=
  restoreFunctions now
    { cfg := cfg
      functionTable := storage.functions.map (·.name)
      containerTable := storage.containers } storage.functions

/-- The provider when it begins to serve: `CreateWasmInterfaces(cfg.MaxWasmContainers)` logs its
first pair, and panics when there is none. -/
def startProvider (cfg : Config) (storage : Storage) (now : Time) : Except Fault World :=
  match initFunctionStore cfg storage now with
  | .error fault => .error fault
  | .ok w =>
    match createWasmInterfaces cfg.maxWasmContainers with
    | [] => .error .indexRange
    | pairs => .ok { w with netnsList := pairs }

/-- **A start of the provider** restores the stored functions and makes the pairs. -/
lemma startProvider_eq_ok {cfg : Config} {storage : Storage} {now : Time} {w : World}
    (h : startProvider cfg storage now = .ok w) :
    ∃ w₀, initFunctionStore cfg storage now = .ok w₀ ∧
      createWasmInterfaces cfg.maxWasmContainers ≠ [] ∧
      w = { w₀ with netnsList := createWasmInterfaces cfg.maxWasmContainers } := by
  unfold startProvider at h
  split at h
  · cases h
  next w₀ hinit =>
    split at h
    · cases h
    next pairs hpairs => exact ⟨w₀, hinit, hpairs, (Except.ok.inj h).symm⟩

section Keeps

variable {I : World → Prop}
  (hadd : ∀ w replica now w', I w → World.addIdleReplica w replica now = .ok w' → I w')

include hadd

/-- What the addition of an idle replica keeps, restoring the replicas of a function keeps. -/
lemma restoreContainers_keeps {now : Time} {fname : Str} {w w' : World}
    {cs : List StorageContainer} (h : restoreContainers now fname w cs = .ok w') (hw : I w) :
    I w' := by
  induction cs generalizing w with
  | nil =>
    obtain rfl := Except.ok.inj h
    exact hw
  | cons c cs ih =>
    simp only [restoreContainers] at h
    split at h
    · cases h
    next w₁ hadded => exact ih h (hadd _ _ _ _ hw hadded)

variable (hput : ∀ w row, I w → I (w.putFunction (getFunction row)))

include hput

/-- What putting a function into the store keeps as well, restoring all functions keeps. -/
lemma restoreFunctions_keeps {now : Time} {w w' : World} {rows : List StorageFunction}
    (h : restoreFunctions now w rows = .ok w') (hw : I w) : I w' := by
  induction rows generalizing w with
  | nil =>
    obtain rfl := Except.ok.inj h
    exact hw
  | cons row rows ih =>
    simp only [restoreFunctions] at h
    split at h
    · cases h
    next w₁ hcontainers =>
      exact ih h (hput _ _ (restoreContainers_keeps hadd hcontainers hw))

/-- **What restoring keeps** holds of the store that the provider starts with, if it holds of the
store without functions and has nothing to do with the pairs. -/
theorem startProvider_keeps {cfg : Config} {storage : Storage} {now : Time} {w : World}
    (hpairs : ∀ w pairs, I w → I { w with netnsList := pairs })
    (hempty : I { cfg := cfg
                  functionTable := storage.functions.map (·.name)
                  containerTable := storage.containers })
    (h : startProvider cfg storage now = .ok w) : I w := by
  obtain ⟨w₀, hinit, -, rfl⟩ := startProvider_eq_ok h
  exact hpairs _ _ (restoreFunctions_keeps hadd hput hinit hempty)

end Keeps

end Fecore
