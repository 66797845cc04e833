import Mathlib.Data.List.Infix
import Mathlib.Tactic.Common
import Fecore.Concurrency.Interleaving
import Fecore.Handlers.Replicas

set_option relaxedAutoImplicit false
set_option autoImplicit false

/-!
# The provider

The goroutines of the provider, each as the sections it goes through: invocations
(`proxyRequest` with `InvokeResolver.Resolve` and `UpdateReplicaStatusInactive`), the creations
of replicas that a hybrid function spawns, sweeps (`CleanupDaemon`), and the deploy, delete and
policy requests.

## Main definitions

* `Fecore.Thread` — a goroutine and where it stands.
* `Fecore.Thread.next` — its next section.
* `Fecore.provider` — the program; `Fecore.State` and `Fecore.Event` are its configurations and
  moves.

## Design

A section is what a goroutine does under one lock, or between two of them. `Remove` of a container
and `DelContainerCount` (or the kill of the process and `DelWasmContainerCount`) of one deletion
are one section: the time between the two, when the replica is gone and still counted, is left out.
So are the copy of the response body, after `UpdateReplicaStatusInactive` has given the replica
back, and the statistics, which other modules follow.
-/

namespace Fecore

/-! ### Invocations -/

/-- `strings.Contains`. -/
def contains (s substr : Str) : Bool := decide (substr <:+: s)

/-- `strings.Contains` looks for an infix. -/
lemma contains_iff {s substr : Str} : contains s substr = true ↔ substr <:+: s :=
  decide_eq_true_iff

/-- `strings.TrimSuffix`. -/
def trimSuffix (s suffix : Str) : Str :=
  if suffix <:+ s then s.take (s.length - suffix.length) else s

/-- `getNamespace`: what stands behind the last dot of the name. -/
def getNamespace (name defaultNamespace : Str) : Str :=
  if '.' ∈ name then (name.reverse.takeWhile (· ≠ '.')).reverse else defaultNamespace

/-- `actualFunctionName` of `Resolve`: the name without its namespace. -/
def actualFunctionName (functionName : Str) : Str :=
  if '.' ∈ functionName then
    trimSuffix functionName ('.' :: getNamespace functionName defaultFunctionNamespace)
  else functionName

/-- `replicaType` of `UpdateReplicaStatusInactive`, from the name of the replica. -/
def replicaType (replicaName : Str) : Str :=
  if contains replicaName "_w".toList then wasm
  else if contains replicaName "_n".toList then native
  else []

/-- `effectiveFname` of `UpdateReplicaStatusInactive`: for a hybrid function the sandbox of the
replica's type. -/
def Function.effectiveFname (f : Function) (fn replicaName : Str) : Str :=
  if index f.labels ctrTypeLabel = hybrid then index f.sandboxes (replicaType replicaName) else fn

/-- The container type that `Resolve` uses for a function. -/
def containerType (f : Function) : Str :=
  match f.labels.lookup ctrTypeLabel with
  | some val => if val = wasm ∨ val = hybrid then val else native
  | none => native

/-- An invocation: the name in its path, and whether its header asks for a cold start. -/
structure Request where
  functionName : Str
  cold : Bool := false

/-- What `Resolve` has read about the function. -/
structure Resolving where
  name : Str
  sandboxes : GoMap Str
  containerType : Str
  /-- the function has a label for its container type -/
  labelled : Bool
  policy : Policy := {}

/-- The function whose idle pool is asked for a replica. -/
def Resolving.pool (fn : Resolving) : Str :=
  if fn.containerType = hybrid then index fn.sandboxes fn.policy.warmStartCtrType else fn.name

/-- The call of `createReplica` for a cold start. -/
def Resolving.call (fn : Resolving) : CreateCall :=
  if fn.containerType = hybrid then
    ⟨index fn.sandboxes fn.policy.coldStartCtrType, fn.policy.coldStartCtrType, true⟩
  else ⟨fn.name, fn.containerType, true⟩

/-- The replica that `Resolve` creates becomes active at once. -/
lemma Resolving.call_setActive (fn : Resolving) : fn.call.setActive = true := by
  unfold Resolving.call
  split <;> rfl

/-- Where an invocation stands. -/
inductive RequestPc
  /-- `GetDeployedFunction` is next -/
  | resolve
  /-- `GetInvocationPolicy` of a hybrid function is next -/
  | policy (fn : Resolving)
  /-- `GetIdleReplica` is next -/
  | idle (fn : Resolving)
  | create (fn : Resolving) (pc : CreatePc)
  /-- `Resolve` has returned; `buildProxyRequest` is next -/
  | build (containerType replicaName : Str)
  /-- `proxyClient.Do` is next -/
  | exec (containerType replicaName : Str)
  /-- `UpdateFunctionStats` and the section of `UpdateReplicaStatusInactive` under `dfMu` are
  next -/
  | labels (containerType replicaName : Str)
  /-- the section under `activeReplicasLock` is next -/
  | take (effectiveFname replicaName : Str)
  /-- `GetInvocationPolicy` is next -/
  | look (replicaName : Str) (replica : Option Replica)
  /-- `AddIdleReplica` is next -/
  | give (replica : Replica)
  /-- `DeleteReplica` is next -/
  | del (replica : Replica)

/-! ### Sweeps, deletions and deployments -/

/-- Where a sweep stands. -/
inductive SweepPc
  /-- `cleanupMu.TryLock` is next -/
  | tryLock
  /-- the range over `deployedFunctions`: the entries it began with and those it has visited -/
  | range (currTs : Time) (began visited : List Str)
  /-- a section on the pool of the object is next -/
  | pool (currTs : Time) (began visited : List Str) (fn : Ref)
  /-- the lock is dropped; `DeleteReplica` is next -/
  | del (currTs : Time) (began visited : List Str) (fn : Ref) (replica : Replica)

/-- A delete request: the name in its body and the namespace in its query. -/
structure DeleteRequest where
  functionName : Str
  lookupNamespace : Str := defaultFunctionNamespace

/-- Where a delete request stands. -/
inductive DeletePc
  /-- `DeleteAllReplicas` is next -/
  | deleteAll
  /-- `RemoveDeployedFunction` reads the function next -/
  | read
  /-- the deletion from the storage is next -/
  | rows (fn : Option Ref)
  /-- the deletion from `deployedFunctions` is next -/
  | unmap

/-- A deploy request. -/
structure FunctionDeployment where
  service : Str
  namespace_ : Str := defaultFunctionNamespace
  envProcess : Str := []
  envVars : GoMap Str := ∅
  labels : Option (GoMap Str) := none
  annotations : Option (GoMap Str) := none
  secretMountPath : Str := []

/-- Where a deploy request stands. -/
inductive DeployPc
  /-- the function is built and inserted into the storage next -/
  | insert (req : FunctionDeployment)
  /-- the write to `deployedFunctions` is next -/
  | map (fn : Function)
  /-- the write to `functionStats` is next -/
  | stats (fn : Str)

/-- A goroutine and where it stands. -/
inductive Thread
  | request (req : Request) (pc : RequestPc)
  /-- a creation that runs in the background -/
  | spawn (call : CreateCall) (pc : CreatePc)
  | sweep (pc : SweepPc)
  | delete (req : DeleteRequest) (pc : DeletePc)
  | deploy (pc : DeployPc)
  | updatePolicy (fn : Str) (updated : Policy)
  | returned
  | panicked (fault : Fault)

/-! ### The sections -/

/-- The creations that a hybrid function spawns after a cold start. -/
def Resolving.spawns (fn : Resolving) : List Thread :=
  if fn.containerType = hybrid then
    List.replicate fn.policy.spawnAddlCtrs.toNat
      (.spawn ⟨index fn.sandboxes fn.policy.warmStartCtrType, fn.policy.warmStartCtrType, false⟩
        (.slot 0))
  else []

/-- What becomes of an invocation after a section of its `createReplica`: the error of a function
with a container type is logged and lost. -/
def Thread.afterCreate (req : Request) (fn : Resolving) : CreateResult → Thread × List Thread
  | .running pc => (.request req (.create fn pc), [])
  | .returned replicaName _ => (.request req (.build fn.containerType replicaName), fn.spawns)
  | .failed => (if fn.labelled then .request req (.build fn.containerType []) else .returned, [])
  | .panicked fault => (.panicked fault, [])

/-- What becomes of a background creation. -/
def Thread.afterSpawn (call : CreateCall) : CreateResult → Thread
  | .running pc => .spawn call pc
  | .returned _ _ | .failed => .returned
  | .panicked fault => .panicked fault

/-- The next section of an invocation. -/
def requestNext (w : World) (req : Request) (pc : RequestPc) (e : Env) :
    Option (World × Thread × List Thread) :=
  match pc with
  | .resolve =>
    if req.functionName = [] then some (w, .returned, [])
    else
      match w.fn? (actualFunctionName req.functionName) with
      | none => some (w, .returned, []) -- no endpoints available
      | some (_, f) =>
        let fn : Resolving :=
          { name := f.name
            sandboxes := f.sandboxes
            containerType := containerType f
            labelled := (f.labels.lookup ctrTypeLabel).isSome }
        if fn.containerType = hybrid then some (w, .request req (.policy fn), [])
        else if req.cold then some (w, .request req (.create fn (.slot 0)), [])
        else some (w, .request req (.idle fn), [])
  | .policy fn =>
    match w.getInvocationPolicy fn.name with
    | .error fault => some (w, .panicked fault, [])
    | .ok policy => some (w, .request req (.idle { fn with policy := policy }), [])
  | .idle fn =>
    match w.getIdleReplica fn.pool with
    | .error fault => some (w, .panicked fault, [])
    | .ok none => some (w, .request req (.create fn (.slot 0)), [])
    | .ok (some (replica, w')) =>
      some (w', .request req (.build fn.containerType replica.uuid), [])
  | .create fn pc =>
    match createNext w fn.call pc e with
    | none => none
    | some (w', result) => some (w', Thread.afterCreate req fn result)
  | .build containerType replicaName =>
    if e.err then some (w, .returned, []) -- failed to resolve service
    else some (w, .request req (.exec containerType replicaName), [])
  | .exec containerType replicaName =>
    match (proxyClientDo e.exchange).response with
    | none => some (w, .panicked .nilResponse, []) -- the log line reads response.StatusCode
    | some statusCode =>
      if statusCode ≠ 200 then some (w, .returned, [])
      else some (w, .request req (.labels containerType replicaName), [])
  | .labels containerType replicaName =>
    if containerType = hybrid ∧ replicaName.count '_' < 2 then
      some (w, .panicked .indexRange, []) -- tokens[2]
    else
      match w.fn? req.functionName with
      | none => some (w, .panicked .absentFunction, [])
      | some (_, f) =>
        some (w, .request req
          (.take (f.effectiveFname req.functionName replicaName) replicaName), [])
  | .take effectiveFname replicaName =>
    match w.takeActive effectiveFname replicaName with
    | .error fault => some (w, .panicked fault, [])
    | .ok (replica, w') => some (w', .request req (.look replicaName replica), [])
  | .look _ replica =>
    match w.getInvocationPolicy req.functionName with
    | .error fault => some (w, .panicked fault, [])
    | .ok policy =>
      match replica with
      | none => some (w, .panicked .nilReplica, [])
      | some replica =>
        if policy.keepaliveColdStartCtr ≠ 0 ∧ replica.ctrType = policy.coldStartCtrType then
          some (w, .request req (.del replica), [])
        else some (w, .request req (.give replica), [])
  | .give replica =>
    match w.addIdleReplica replica e.now with
    | .error fault => some (w, .panicked fault, [])
    | .ok w' => some (w', .returned, [])
  | .del replica =>
    match w.deleteReplica (e.answers replica.uuid) replica with
    | (w', none) => some (w', .returned, [])
    | (w', some fault) => some (w', .panicked fault, [])

/-- The next section of a sweep. -/
def sweepNext (w : World) (pc : SweepPc) (e : Env) : Option (World × Thread) :=
  match pc with
  | .tryLock =>
    if w.cleanupMu then some (w, .returned)
    else some ({ w with cleanupMu := true }, .sweep (.range e.now w.deployedFunctions.keys []))
  | .range currTs began visited =>
    match e.entry with
    | some name =>
      if name ∈ visited then none
      else
        match w.deployedFunctions.lookup name with
        | none => none
        | some fn => some (w, .sweep (.pool currTs began (name :: visited) fn))
    | none =>
      -- entries added while the range runs may be left out
      if began.all fun name => name ∈ visited ∨ name ∉ w.deployedFunctions then
        some ({ w with cleanupMu := false }, .returned)
      else none
  | .pool currTs began visited fn =>
    match w.heap[fn]? with
    | none => none
    | some f =>
      match (f.idleReplicas.sweep w.cfg currTs).2 with
      | .lru replica =>
        match w.removeIdleReplica f.name with
        | .error fault => some ({ w with cleanupMu := false }, .panicked fault)
        | .ok w' => some (w', .sweep (.del currTs began visited fn replica))
      | .mru (some replica) =>
        let w := w.setFn fn { f with idleReplicas := { f.idleReplicas with mru := none } }
        match w.deleteReplica (e.answers replica.uuid) replica with
        | (w', none) => some (w', .sweep (.range currTs began visited))
        | (w', some fault) => some ({ w' with cleanupMu := false }, .panicked fault)
      | .mru none => some (w, .sweep (.range currTs began visited))
  | .del currTs began visited fn replica =>
    match w.deleteReplica (e.answers replica.uuid) replica with
    | (w', none) => some (w', .sweep (.pool currTs began visited fn))
    | (w', some fault) => some ({ w' with cleanupMu := false }, .panicked fault)

/-- The next section of a delete request. -/
def deleteNext (w : World) (req : DeleteRequest) (pc : DeletePc) (e : Env) :
    World × Thread :=
  match pc with
  | .deleteAll =>
    match w.deleteAllReplicas req.lookupNamespace e.answers req.functionName with
    | (w', none) => (w', .delete req .read)
    | (w', some fault) => (w', .panicked fault)
  | .read => (w, .delete req (.rows (w.deployedFunctions.lookup req.functionName)))
  | .rows fn =>
    if e.err then (w, .returned)
    else
      match fn.bind fun o => w.heap[o]? with
      | none =>
        ({ w with functionTable := w.functionTable.filter (· ≠ req.functionName) },
          .panicked .absentFunction)
      | some f => (w.deleteRows req.functionName f, .delete req .unmap)
  | .unmap => (w.dropFunction req.functionName, .returned)

/-- `annotationLabelPrefix`. -/
def annotationLabelPrefix : Str := "com.openfaas.annotations.".toList

/-- `buildLabels`: none when an annotation conflicts with a label. -/
def buildLabels (req : FunctionDeployment) : Option (GoMap Str) :=
  ((req.annotations.getD ∅).entries).foldl
    (fun labels kv =>
      match labels with
      | none => none
      | some labels =>
        let key := annotationLabelPrefix ++ kv.1
        if key ∈ labels then none else some (labels.insert key kv.2))
    (some (req.labels.getD ∅))

/-- `strings.Split(val, ",")`. -/
def splitComma (val : Str) : List Str := val.splitOn ','

/-- The map `fn.sandboxes` of a hybrid function from its label. -/
def sandboxesOf (tokens : List Str) : GoMap Str :=
  tokens.foldl
    (fun sandboxes v =>
      if contains v "-n".toList then sandboxes.insert native v
      else if contains v "-w".toList then sandboxes.insert wasm v
      else sandboxes) ∅

/-- The default policy of a hybrid function. -/
def defaultPolicy : Policy :=
  { coldStartCtrType := wasm
    warmStartCtrType := native
    spawnAddlCtrs := 1
    keepaliveColdStartCtr := 0 }

/-- `WASM_IMAGES_ROOT`. -/
def wasmImagesRoot : Str := "/mnt/faasedge/images".toList

/-- `deploy` on the function that `MakeDeployHandler` has made; none is an error. -/
def deploy (req : FunctionDeployment) (e : Env) : Option Function :=
  match buildLabels req with
  | none => none
  | some labels =>
    let fn : Function :=
      { name := req.service
        namespace_ := req.namespace_
        image := []
        secretsPath := req.secretMountPath
        labels := labels
        envVars := req.envVars
        envProcess := req.envProcess
        memoryLimit := 50000000 }
    if labels.lookup ctrTypeLabel = some wasm then
      if e.err then none
      else some { fn with image := wasmImagesRoot ++ "/".toList ++ req.service,
                          imageFiles := e.imageFiles }
    else if labels.lookup ctrTypeLabel = some hybrid then
      match labels.lookup "sandboxes".toList with
      | none => none
      | some val =>
        some { fn with sandboxes := sandboxesOf (splitComma val), policy := defaultPolicy }
    else if e.err then none
    else some { fn with image := e.image }

/-- The next section of a deploy request. -/
def deployNext (w : World) (pc : DeployPc) (e : Env) : World × Thread :=
  match pc with
  | .insert req =>
    match deploy req e with
    | none => (w, .returned)
    | some fn =>
      match w.insertFunction fn with
      | none => (w, .returned)
      | some w' => (w', .deploy (.map fn))
  | .map fn => (w.putFunction fn, .deploy (.stats fn.name))
  | .stats fn => (w.putStats fn, .returned)

/-- The next section of a goroutine: the store after it, the goroutine after it, and the
goroutines it starts. -/
def Thread.next (w : World) (t : Thread) (e : Env) : Option (World × Thread × List Thread) :=
  match t with
  | .request req pc => requestNext w req pc e
  | .spawn call pc =>
    match createNext w call pc e with
    | none => none
    | some (w', result) => some (w', .afterSpawn call result, [])
  | .sweep pc => (sweepNext w pc e).map fun (w', t') => (w', t', [])
  | .delete req pc =>
    let (w', t') := deleteNext w req pc e
    some (w', t', [])
  | .deploy pc =>
    let (w', t') := deployNext w pc e
    some (w', t', [])
  | .updatePolicy fn updated =>
    match w.updatePolicy fn updated with
    | .error fault => some (w, .panicked fault, [])
    | .ok w' => some (w', .returned, [])
  | .returned | .panicked _ => none

/-- The goroutine has returned. -/
def Thread.isReturned : Thread → Bool
  | .returned => true
  | _ => false

/-- The goroutine has returned or panicked. -/
def Thread.ended : Thread → Bool
  | .returned => true
  | .panicked _ => true
  | _ => false

/-- The goroutines that arrive from outside: the requests and the sweeps, at their first
section. -/
def Thread.entry : Thread → Bool
  | .request _ .resolve => true
  | .sweep .tryLock => true
  | .delete _ .deleteAll => true
  | .deploy (.insert _) => true
  | .updatePolicy _ _ => true
  | _ => false

/-- The provider. -/
def provider : Interleaving.Program World Thread Env where
  entry := Thread.entry
  next := Thread.next

/-- The store and the goroutines. -/
abbrev State := Interleaving.Config World Thread

/-- A goroutine arrives or takes its next section. -/
abbrev Event := Interleaving.Move Thread Env

/-! ### Small runs -/

/-- The limits of a small node: two WASM replicas and one native one. -/
def smallConfig : Config :=
  { maxWasmContainers := 2, maxNativeContainers := 1, containerExpirationTime := 60 }

/-- The store in which the provider begins to serve on the small node. -/
def smallWorld : World := { cfg := smallConfig, netnsList := createWasmInterfaces 2 }

/-- The small node starts with an empty store. -/
lemma startProvider_small : startProvider smallConfig {} 0 = .ok smallWorld := rfl

/-- The next sections of goroutine `i`. -/
def sections (i n : ℕ) (e : Env := {}) : List Event := List.replicate n (.step i e)

/-- Goroutine 0 deploys the function `f` with the labels. -/
def deployF (labels : GoMap Str) : List Event :=
  .arrive (.deploy (.insert { service := "f".toList, labels := some labels })) :: sections 0 3

/-- An invocation of `f` arrives as goroutine `i` and takes its first sections. -/
def invokeF (i n : ℕ) (e : Env := {}) : List Event :=
  .arrive (.request { functionName := "f".toList } .resolve) :: sections i n e

/-- A sweep arrives as goroutine `i`, when what was idle at the start has expired, and looks at the
pool of `f`. -/
def sweepF (i : ℕ) : List Event :=
  .arrive (.sweep .tryLock) :: .step i { now := 60 * 10 ^ 9 } ::
    .step i { entry := some "f".toList } :: sections i 1

/-- A run on the small node. -/
def smallRun (events : List Event) : Option State := Runs.run provider.step ⟨smallWorld, []⟩ events

end Fecore
