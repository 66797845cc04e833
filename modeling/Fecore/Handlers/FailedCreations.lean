import Mathlib.Tactic.Common
import Fecore.Concurrency.EarlyReturns
import Fecore.Handlers.WasmImages

set_option relaxedAutoImplicit false
set_option autoImplicit false

/-!
# Creations that fail

A call of `createReplica`, taken alone and one outside call at a time
(`pkg/provider/handlers/replicas.go`, and `createTask` of `deploy.go`). Each of these calls may
fail, and the creation then returns at once: nothing of what has been made before is undone.

## Main definitions

* `Fecore.Machine` — the store with its node, the CNI networks and the directories of replicas.
* `Fecore.createReplica` — the call, with `createNativeReplica` and `createWasmReplica`.
* `Fecore.LeavesNothing` — nothing has been made that was not there before.
* `Fecore.CreateAnswers.Spared` — the failures before anything has been made.

## Main results

* `Fecore.createReplica_leavesNothing_iff` — the failures that leave nothing behind.
* `Fecore.buildNative_containerd` — what is left in containerd, as the section of the provider
  that builds a container has it.

## Design

The directories of the control groups and the addresses of the namespaces are no part of this.
-/

namespace Fecore

open EarlyReturns

/-! ### The machine -/

/-- The store with its node, the identifiers of the CNI networks, and the directories of
replicas. -/
structure Machine where
  world : World
  networks : List Str := []
  replicaDirs : List Str := []

/-- The machine after a change of the records of containerd. -/
def Machine.mapContainerd (m : Machine) (f : Containerd → Containerd) : Machine :=
  { m with world := { m.world with containerd := f m.world.containerd } }

/-- The errors of `createReplica`, each with the error that it wraps. -/
inductive CreateError
  /-- container limit reached -/
  | limit
  /-- unable to get the function, its labels or its image -/
  | notDeployed (name : Str)
  | prepareImage (err : Str)
  | newContainer (err : Str)
  | newTask (err : Str)
  | createCNINetwork (err : Str)
  | wait (err : Str)
  | start (err : Str)
  | task (err : Str)
  | status (err : Str)
  /-- the directory or a reflink cannot be made -/
  | setupWasmStorage (err : Str)
  /-- no WASM network namespaces -/
  | getNetNS
  | cmdStart (err : Str)
deriving DecidableEq

/-- Why a call returns no replica. -/
inductive Stop
  | error (err : CreateError)
  | fault (fault : Fault)
  /-- a panic, since `eth1` has no address -/
  | noAddress
deriving DecidableEq

/-- A step of a creation. -/
abbrev Creating := EStateM Stop Machine

/-- An outside call that returns an error or has no effect that counts here. -/
def orError (answer : Option Str) (err : Str → CreateError) : Creating Unit :=
  match answer with
  | some text => throw (.error (err text))
  | none => pure ()

/-- A change of the store alone. -/
def onStore (f : World → World) : Creating Unit :=
  modify fun m => { m with world := f m.world }

/-! ### Native replicas -/

/-- A call of the client of containerd that changes its records. -/
def onContainerd (call : Containerd → Containerd × Option Str) (err : Str → CreateError) :
    Creating Unit := fun m =>
  let r := call m.world.containerd
  let m' := m.mapContainerd fun _ => r.1
  match r.2 with
  | some text => .error (.error (err text)) m'
  | none => .ok () m'

/-- `netID`. -/
def netID (taskID : Str) (pid : ℕ) : Str := taskID ++ "-".toList ++ (toString pid).toList

/-- `CreateCNINetwork`: all networks are attached at the same time, so some may be attached where
one fails. -/
def createCNINetwork (a : TaskAnswers) (key : Key) : Creating Unit := do
  modify fun m =>
    if a.attached then { m with networks := netID key.2 a.pid :: m.networks } else m
  orError a.setup .createCNINetwork

/-- `createTask` once the task has been made. -/
def startTask (a : TaskAnswers) (key : Key) : Creating Str := do
  createCNINetwork a key
  match a.eth1 with
  | [] => throw .noAddress
  | ip :: _ => do
    orError a.wait .wait
    orError a.start .start
    pure ip

/-- `createTask`. -/
def createTask (a : TaskAnswers) (key : Key) : Creating Str := do
  onContainerd (newTask a key) .newTask
  startTask a key

/-- `AddActiveReplica` or `AddIdleReplica`, and the return. -/
def addReplica (setActive : Bool) (replica : Replica) (now : Time) :
    Creating (Str × Str) := fun m =>
  if setActive then
    match m.world.addActiveReplica replica with
    | (w, none) => .ok (replica.uuid, replica.ip) { m with world := w }
    | (w, some fault) => .error (.fault fault) { m with world := w }
  else
    match m.world.addIdleReplica replica now with
    | .ok w => .ok (replica.uuid, replica.ip) { m with world := w }
    | .error fault => .error (.fault fault) m

/-- What `createNativeReplica` meets. -/
structure NativeAnswers where
  prepareImage : Option Str := none
  uuid : Str := []
  newContainer : NewContainerAnswers := {}
  task : TaskAnswers := {}
  loadTask : Option Str := none
  status : Option Str := none
  now : Time := 0

/-- The end of `createNativeReplica`: the task is looked at, and the replica is added. -/
def addNative (fnName : Str) (key : Key) (setActive : Bool) (a : NativeAnswers) (ip : Str) :
    Creating (Str × Str) := do
  orError a.loadTask .task
  orError a.status .status
  onStore fun w => { w with nativeReplicas := key :: w.nativeReplicas }
  addReplica setActive
    (nativeReplica fnName key.2 { now := a.now, pid := a.task.pid, ip := ip }) a.now

/-- `createNativeReplica` once the container has been made. -/
def startContainer (fnName : Str) (key : Key) (setActive : Bool) (a : NativeAnswers) :
    Creating (Str × Str) := do
  let ip ← createTask a.task key
  addNative fnName key setActive a ip

/-- `createNativeReplica` for the function that it finds. -/
def buildNative (fnName fnNamespace : Str) (setActive : Bool) (a : NativeAnswers) :
    Creating (Str × Str) := do
  orError a.prepareImage .prepareImage
  onContainerd (newContainer a.newContainer (fnNamespace, nativeName fnName a.uuid)) .newContainer
  startContainer fnName (fnNamespace, nativeName fnName a.uuid) setActive a

/-- `createNativeReplica`. -/
def createNativeReplica (fname : Str) (setActive : Bool) (a : NativeAnswers) :
    Creating (Str × Str) := fun m =>
  match m.world.fn? fname with
  | none => .error (.error (.notDeployed fname)) m
  | some (_, f) => buildNative f.name f.namespace_ setActive a m

/-! ### WASM replicas -/

/-- What `createWasmReplica` meets. -/
structure WasmAnswers where
  uuid : Str := []
  storage : StorageAnswers := {}
  /-- `os.RemoveAll` on the directory of the replica fails, which is not looked at -/
  removeAll : Bool := false
  cmdStart : Option Str := none
  pid : ℕ := 0
  now : Time := 0

/-- The text of `syscall.EEXIST`. -/
def eexist : Str := "file exists".toList

/-- What `setupWasmStorage` meets at a directory: it is found where it exists, and is in the way of
`os.Mkdir` when it cannot be removed. -/
def WasmAnswers.storageAt (a : WasmAnswers) (rootfs_path : Str) (dirs : List Str) :
    StorageAnswers :=
  { a.storage with
    found := decide (rootfs_path ∈ dirs) || a.storage.found
    mkdir := if rootfs_path ∈ dirs ∧ a.removeAll then some eexist else a.storage.mkdir }

/-- The directories of replicas after `os.RemoveAll` and `os.Mkdir` in `setupWasmStorage`. -/
def WasmAnswers.dirsAfter (a : WasmAnswers) (rootfs_path : Str) (dirs : List Str) : List Str :=
  let dirs' := if a.removeAll then dirs else dirs.filter (· ≠ rootfs_path)
  match (a.storageAt rootfs_path dirs).mkdir with
  | some _ => dirs'
  | none => rootfs_path :: dirs'

/-- `setupWasmStorage` for the image of a function. -/
def setupStorage (a : WasmAnswers) (imageFn replicaName : Str) : Creating Unit := fun m =>
  match m.world.fn? imageFn with
  | none => .error (.error (.notDeployed imageFn)) m
  | some (_, f) =>
    let rootfs_path := replicaPath f.image replicaName
    let m' := { m with replicaDirs := a.dirsAfter rootfs_path m.replicaDirs }
    match (setupWasmStorage f.image f.imageFiles replicaName
        (a.storageAt rootfs_path m.replicaDirs)).2 with
    | some err => .error (.error (.setupWasmStorage err)) m'
    | none => .ok () m'

/-- `GetNetNS`. -/
def getNetNS : Creating WasmIPInfo := fun m =>
  match m.world.getNetNS with
  | none => .error (.error .getNetNS) m
  | some (ipInfo, w) => .ok ipInfo { m with world := w }

/-- `createWasmReplica` once the directory has been made. -/
def startProcess (fname replicaName : Str) (setActive : Bool) (a : WasmAnswers) :
    Creating (Str × Str) := do
  let ipInfo ← getNetNS
  orError a.cmdStart .cmdStart
  onStore fun w => { w with wasmProcs := ⟨replicaName, a.pid, ipInfo⟩ :: w.wasmProcs }
  addReplica setActive (wasmReplica fname replicaName ipInfo { now := a.now, pid := a.pid }) a.now

/-- The function whose image a WASM replica of a function uses. -/
def wasmImageFn (fname : Str) (f : Function) : Str :=
  if f.labels.lookup ctrTypeLabel = some hybrid then fname ++ ".wasm".toList else fname

/-- `createWasmReplica`. -/
def createWasmReplica (fname : Str) (setActive : Bool) (a : WasmAnswers) :
    Creating (Str × Str) := fun m =>
  match m.world.fn? fname with
  | none => .error (.error (.notDeployed fname)) m
  | some (_, f) =>
    (do setupStorage a (wasmImageFn fname f) (wasmName fname a.uuid)
        startProcess fname (wasmName fname a.uuid) setActive a : Creating (Str × Str)) m

/-! ### The call -/

/-- What a call of `createReplica` meets. -/
structure CreateAnswers where
  forNative : NativeAnswers := {}
  forWasm : WasmAnswers := {}

/-- The store with a container more, where the limit allows it. -/
def World.takeSlot (w : World) (ctrType : Str) : Option World :=
  if ctrType = wasm then w.addWasmContainerCount else w.addContainerCount

/-- The loop of `createReplica`, with so many attempts left. -/
def waitForSlot (ctrType : Str) : ℕ → Creating Unit
  | 0 => throw (.error .limit)
  | attempts + 1 => fun m =>
    match m.world.takeSlot ctrType with
    | some w => .ok () { m with world := w }
    | none => waitForSlot ctrType attempts m

/-- `createReplica`: an attempt every 100 milliseconds for 60 seconds. -/
def createReplica (call : CreateCall) (a : CreateAnswers) : Creating (Str × Str) := do
  waitForSlot call.ctrType 600
  if call.ctrType = native then createNativeReplica call.fname call.setActive a.forNative
  else if call.ctrType = wasm then createWasmReplica call.fname call.setActive a.forWasm
  else pure ([], [])

/-! ### What is left -/

/-- The replicas in the pools of a function. -/
def Function.pools (f : Function) : List Replica :=
  f.idleReplicas.stored ++ f.activeReplicas.entries.map fun e => e.2

/-- **Nothing has been made that was not there before**, and no pool has a new replica. -/
structure LeavesNothing (m m' : Machine) : Prop where
  containers : m'.world.containerd.containers ⊆ m.world.containerd.containers
  snapshots : m'.world.containerd.snapshots ⊆ m.world.containerd.snapshots
  tasks : m'.world.containerd.tasks ⊆ m.world.containerd.tasks
  networks : m'.networks ⊆ m.networks
  replicaDirs : m'.replicaDirs ⊆ m.replicaDirs
  pools : ∀ (o : Ref) (f' : Function), m'.world.heap[o]? = some f' →
    ∃ f : Function, m.world.heap[o]? = some f ∧ f'.pools ⊆ f.pools

/-- A native creation fails before the container has been made. -/
def NativeAnswers.Spared (a : NativeAnswers) (f : Function) (c : Containerd) : Prop :=
  a.prepareImage.isSome ∨ a.newContainer.Spared (f.namespace_, nativeName f.name a.uuid) c

/-- The directory of a WASM replica cannot be made, or was there before. -/
def WasmAnswers.Spared (a : WasmAnswers) (image replicaName : Str) (dirs : List Str) : Prop :=
  a.storage.mkdir.isSome ∨ replicaPath image replicaName ∈ dirs

/-- **The failures before anything has been made.** -/
def CreateAnswers.Spared (a : CreateAnswers) (call : CreateCall) (m : Machine) : Prop :=
  m.world.takeSlot call.ctrType = none ∨
  ∀ of, m.world.fn? call.fname = some of →
    (call.ctrType = native → a.forNative.Spared of.2 m.world.containerd) ∧
    (call.ctrType = wasm → ∀ og, m.world.fn? (wasmImageFn call.fname of.2) = some og →
      a.forWasm.Spared og.2.image (wasmName call.fname a.forWasm.uuid) m.replicaDirs)

/-! ### Steps -/

section Steps

variable {m m' : Machine}

/-- A machine on which at most directories have gone. -/
lemma leavesNothing_of_eq (hworld : m'.world.containerd = m.world.containerd)
    (hheap : m'.world.heap = m.world.heap) (hnet : m'.networks = m.networks)
    (hdirs : m'.replicaDirs ⊆ m.replicaDirs) : LeavesNothing m m' where
  containers := by rw [hworld]; exact List.Subset.refl _
  snapshots := by rw [hworld]; exact List.Subset.refl _
  tasks := by rw [hworld]; exact List.Subset.refl _
  networks := by rw [hnet]; exact List.Subset.refl _
  replicaDirs := hdirs
  pools o f' hf' := ⟨f', by rwa [← hheap], List.Subset.refl _⟩

/-- A predicate on what is left that no step from `orError` or `onStore` can break. -/
lemma keeps_orError (P : Machine → Prop) (answer : Option Str) (err : Str → CreateError) :
    Keeps P (orError answer err) := by
  cases answer with
  | none => exact keeps_pure ()
  | some text => exact keeps_throw _

/-- Handing a replica out makes nothing in containerd. -/
lemma World.addActiveReplica_containerd (w : World) (replica : Replica) :
    (w.addActiveReplica replica).1.containerd = w.containerd := by
  unfold World.addActiveReplica
  split
  · rfl
  · dsimp only
    split <;> rfl

/-- Putting a replica into the pool makes nothing in containerd. -/
lemma World.addIdleReplica_containerd {w w' : World} {replica : Replica} {now : Time}
    (h : w.addIdleReplica replica now = .ok w') : w'.containerd = w.containerd := by
  unfold World.addIdleReplica at h
  split at h
  · cases h
  · cases h
    rfl

/-- The end of a creation touches the store alone. -/
lemma finalState_addReplica (setActive : Bool) (replica : Replica) (now : Time) (m : Machine) :
    ∃ w, finalState (addReplica setActive replica now m) = { m with world := w } ∧
      w.containerd = m.world.containerd := by
  unfold addReplica
  split
  · have hcont := m.world.addActiveReplica_containerd replica
    split
    · next w h =>
      rw [h] at hcont
      exact ⟨w, rfl, hcont⟩
    · next w fault h =>
      rw [h] at hcont
      exact ⟨w, rfl, hcont⟩
  · split
    · next w h => exact ⟨w, rfl, World.addIdleReplica_containerd h⟩
    · next fault h => exact ⟨m.world, rfl, rfl⟩

end Steps

/-! ### Native replicas -/

section Native

variable {m m' : Machine} {key : Key} {err : CreateError}

/-- The container is there. -/
def Machine.HasContainer (key : Key) (m : Machine) : Prop := key ∈ m.world.containerd.containers

/-- A call of the client that fails. -/
lemma onContainerd_error {call : Containerd → Containerd × Option Str} {c : Containerd}
    {text : Str} (h : call m.world.containerd = (c, some text)) (err : Str → CreateError) :
    onContainerd call err m = .error (.error (err text)) (m.mapContainerd fun _ => c) := by
  unfold onContainerd
  rw [h]

/-- A call of the client that succeeds. -/
lemma onContainerd_ok {call : Containerd → Containerd × Option Str} {c : Containerd}
    (h : call m.world.containerd = (c, none)) (err : Str → CreateError) :
    onContainerd call err m = .ok () (m.mapContainerd fun _ => c) := by
  unfold onContainerd
  rw [h]

/-- What comes after the task does not touch containerd. -/
lemma keeps_startTask (P : Containerd → Prop) (a : TaskAnswers) (key : Key) :
    Keeps (fun m => P m.world.containerd) (startTask a key) := by
  refine Keeps.bind ((keeps_modify fun m h => ?_).bind fun _ => keeps_orError _ _ _) fun _ => ?_
  · split
    · exact h
    · exact h
  · split
    · exact keeps_throw _
    · exact (keeps_orError _ _ _).bind fun _ => (keeps_orError _ _ _).bind fun _ => keeps_pure _

/-- The end of a native creation makes nothing in containerd. -/
lemma keeps_addNative (P : Containerd → Prop) (fnName : Str) (key : Key) (setActive : Bool)
    (a : NativeAnswers) (ip : Str) :
    Keeps (fun m => P m.world.containerd) (addNative fnName key setActive a ip) := by
  refine (keeps_orError _ _ _).bind fun _ => (keeps_orError _ _ _).bind fun _ =>
    Keeps.bind (keeps_modify fun _ h => h) fun _ => ?_
  intro s hs
  obtain ⟨w, hfinal, hcont⟩ := finalState_addReplica setActive
    (nativeReplica fnName key.2 { now := a.now, pid := a.task.pid, ip := ip }) a.now s
  rw [hfinal]
  change P w.containerd
  rw [hcont]
  exact hs

/-- A container that is there stays. -/
lemma keeps_startContainer (fnName : Str) (key : Key) (setActive : Bool) (a : NativeAnswers)
    (k : Key) : Keeps (Machine.HasContainer k) (startContainer fnName key setActive a) := by
  have htask : Keeps (Machine.HasContainer k) (onContainerd (newTask a.task key) .newTask) := by
    intro m hm
    obtain ⟨err, -, heq⟩ | ⟨-, -, heq⟩ := newTask_cases a.task key m.world.containerd
    · rw [onContainerd_error heq]
      exact hm
    · rw [onContainerd_ok heq]
      exact hm
  refine (htask.bind fun _ => ?_).bind fun ip => ?_
  · exact keeps_startTask (k ∈ ·.containers) a.task key
  · exact keeps_addNative (k ∈ ·.containers) fnName key setActive a ip

/-- **What a failed native creation leaves**: nothing if and only if it fails before the container
has been made.

**Proof sketch.** Once the container is there no step takes it away again. -/
lemma buildNative_leavesNothing_iff {f : Function} {setActive : Bool} {a : NativeAnswers}
    (h : buildNative f.name f.namespace_ setActive a m = .error (.error err) m') :
    LeavesNothing m m' ↔ a.Spared f m.world.containerd := by
  cases himage : a.prepareImage with
  | some text =>
    have hend : orError a.prepareImage .prepareImage m =
        .error (.error (.prepareImage text)) m := by rw [himage]; rfl
    rw [buildNative, bind_of_error hend] at h
    cases h
    exact iff_of_true (leavesNothing_of_eq rfl rfl rfl (List.Subset.refl _))
      (.inl (by rw [himage]; rfl))
  | none =>
    have hend : orError a.prepareImage .prepareImage m = .ok () m := by rw [himage]; rfl
    have hs : a.Spared f m.world.containerd ↔
        a.newContainer.Spared (f.namespace_, nativeName f.name a.uuid) m.world.containerd := by
      simp [NativeAnswers.Spared, himage]
    rw [buildNative, bind_of_ok hend] at h
    rw [hs]
    cases newContainer_ends a.newContainer (f.namespace_, nativeName f.name a.uuid)
        m.world.containerd with
    | spared err₁ hspared hend =>
      rw [bind_of_error (onContainerd_error hend _)] at h
      cases h
      exact iff_of_true (leavesNothing_of_eq rfl rfl rfl (List.Subset.refl _)) hspared
    | leased err₁ hspared hnew hlease hend =>
      rw [bind_of_error (onContainerd_error hend _)] at h
      cases h
      exact iff_of_false (fun hl => hnew (hl.snapshots List.mem_cons_self)) hspared
    | made hspared hnew hsnapshot hcalls hend =>
      rw [bind_of_ok (onContainerd_ok hend _)] at h
      have hkept := (keeps_startContainer f.name _ setActive a _).of_error
        (show Machine.HasContainer _ _ from List.mem_cons_self) h
      exact iff_of_false (fun hl => hnew (hl.containers hkept)) hspared

/-- The records of containerd once the container has been made. -/
lemma startContainer_containerd (fnName : Str) (key : Key) (setActive : Bool) (a : NativeAnswers)
    (m : Machine) :
    (finalState (startContainer fnName key setActive a m)).world.containerd =
      (newTask a.task key m.world.containerd).1 := by
  obtain ⟨text, -, heq⟩ | ⟨-, -, heq⟩ := newTask_cases a.task key m.world.containerd
  · have hend := bind_of_error (onContainerd_error heq CreateError.newTask)
      (fun _ => startTask a.task key)
    rw [startContainer, createTask, bind_of_error hend, heq]
    rfl
  · rw [startContainer, createTask, bind_assoc, bind_of_ok (onContainerd_ok heq _), heq]
    exact ((keeps_startTask (· = m.world.containerd.withTask key) a.task key).bind fun ip =>
      keeps_addNative (· = m.world.containerd.withTask key) fnName key setActive a ip) _ rfl

/-- The step at which a native creation fails, as far as the section of the provider that builds a
container tells them apart. -/
def NativeAnswers.built (a : NativeAnswers) : Built :=
  if a.prepareImage.isSome then .prepareImage
  else if a.newContainer.before.isSome || a.newContainer.after.isSome then .newContainer
  else if a.task.newTask.isSome then .newTask
  else if a.task.setup.isSome || a.task.wait.isSome || a.task.start.isSome || a.loadTask.isSome ||
    a.status.isSome then .task
  else .ok

/-- **What is left in containerd** is what the section of the provider that builds a container
leaves there, for a name that is new and a lease that is deleted.

**Proof sketch.** Follow the calls in their order. Each failure ends the creation with what the
calls before it have left, which is the same branch of `buildContainer`; `newContainer_ends` and
`newTask_cases` give the calls that change containerd. -/
theorem buildNative_containerd {f : Function} {setActive : Bool} {a : NativeAnswers}
    (hkey : (f.namespace_, nativeName f.name a.uuid) ∉ m.world.containerd.containers)
    (hsnap : snapshotKey (f.namespace_, nativeName f.name a.uuid) ∉ m.world.containerd.snapshots)
    (htask : (f.namespace_, nativeName f.name a.uuid) ∉ m.world.containerd.tasks)
    (hlease : a.newContainer.leaseKept = false) :
    (finalState (buildNative f.name f.namespace_ setActive a m)).world.containerd =
      buildContainer a.built (f.namespace_, nativeName f.name a.uuid) m.world.containerd := by
  set key : Key := (f.namespace_, nativeName f.name a.uuid)
  cases himage : a.prepareImage with
  | some text =>
    have hend : orError a.prepareImage .prepareImage m =
        .error (.error (.prepareImage text)) m := by rw [himage]; rfl
    rw [buildNative, bind_of_error hend, NativeAnswers.built, himage]
    rfl
  | none =>
    have hend : orError a.prepareImage .prepareImage m = .ok () m := by rw [himage]; rfl
    rw [buildNative, bind_of_ok hend, NativeAnswers.built, himage]
    cases newContainer_ends a.newContainer key m.world.containerd with
    | spared err hspared hend =>
      rw [bind_of_error (onContainerd_error hend _)]
      have hfails : (a.newContainer.before.isSome || a.newContainer.after.isSome) = true := by
        rw [Bool.or_eq_true]
        refine (hspared.resolve_left hsnap).imp_right fun h => h.1.resolve_left hkey
      simp only [Option.isSome_none, Bool.false_eq_true, if_false, hfails, if_true]
      rfl
    | leased err hspared hnew hkept => exact absurd hkept (by simp [hlease])
    | made hspared hnew hsnapshot hcalls hend =>
      rw [bind_of_ok (onContainerd_ok hend _), startContainer_containerd, hcalls.1, hcalls.2]
      obtain ⟨text, hfails, heq⟩ | ⟨-, hcall, heq⟩ :=
        newTask_cases a.task key (m.world.containerd.withContainer key)
      · have hfails : a.task.newTask.isSome = true :=
          Option.isSome_iff_ne_none.mpr (hfails.resolve_left htask)
        simp only [Option.isSome_none, Bool.or_self, Bool.false_eq_true, if_false, hfails, if_true]
        exact congrArg Prod.fst heq
      · simp only [Option.isSome_none, Bool.or_self, Bool.false_eq_true, if_false, hcall]
        split <;> exact congrArg Prod.fst heq

/-- **A failed native creation leaves nothing** just when it fails before the container has been
made. -/
lemma createNativeReplica_leavesNothing_iff {fname : Str} {setActive : Bool} {a : NativeAnswers}
    (h : createNativeReplica fname setActive a m = .error (.error err) m') :
    LeavesNothing m m' ↔
      ∀ of, m.world.fn? fname = some of → a.Spared of.2 m.world.containerd := by
  unfold createNativeReplica at h
  cases hf : m.world.fn? fname with
  | none =>
    rw [hf] at h
    cases h
    exact iff_of_true (leavesNothing_of_eq rfl rfl rfl (List.Subset.refl _)) fun of hof =>
      absurd hof (by simp)
  | some of =>
    rw [hf] at h
    rw [buildNative_leavesNothing_iff h]
    simp

end Native

/-! ### WASM replicas -/

section Wasm

variable {m m' : Machine} {err : CreateError}

/-- The end of a creation does not return an error: it panics or returns the replica. -/
lemma addReplica_ne_error (setActive : Bool) (replica : Replica) (now : Time) (m m' : Machine)
    (err : CreateError) : addReplica setActive replica now m ≠ .error (.error err) m' := by
  unfold addReplica
  intro h
  split at h
  · split at h <;> cases h
  · split at h <;> cases h

/-- A creation that fails when the directory has been made has taken an address at most.

**Proof sketch.** Without an address nothing has been changed. Afterwards only the start of the
process can fail, since the replica is always added (`addReplica_ne_error`). -/
lemma startProcess_error {fname replicaName : Str} {setActive : Bool} {a : WasmAnswers}
    (h : startProcess fname replicaName setActive a m = .error (.error err) m') :
    ∃ netnsList, m' = { m with world := { m.world with netnsList := netnsList } } := by
  cases hnet : m.world.netnsList with
  | nil =>
    have hend : getNetNS m = .error (.error .getNetNS) m := by
      simp only [getNetNS, World.getNetNS, hnet]
    rw [startProcess, bind_of_error hend] at h
    cases h
    exact ⟨m.world.netnsList, rfl⟩
  | cons ipInfo rest =>
    have hend : getNetNS m =
        .ok ipInfo { m with world := { m.world with netnsList := rest } } := by
      simp only [getNetNS, World.getNetNS, hnet]
    rw [startProcess, bind_of_ok hend] at h
    cases hstart : a.cmdStart with
    | some text =>
      rw [hstart] at h
      cases h
      exact ⟨rest, rfl⟩
    | none =>
      rw [hstart] at h
      exact absurd h (addReplica_ne_error _ _ _ _ _ _)

/-- The directories when the directory of the replica cannot be made. -/
lemma dirsAfter_subset (a : WasmAnswers) {rootfs_path : Str} {dirs : List Str} {text : Str}
    (h : (a.storageAt rootfs_path dirs).mkdir = some text) :
    a.dirsAfter rootfs_path dirs ⊆ dirs := by
  rw [WasmAnswers.dirsAfter, h]
  dsimp only
  split
  · exact List.Subset.refl _
  · exact List.filter_sublist.subset

/-- The directories when the directory of the replica has been made. -/
lemma mem_dirsAfter (a : WasmAnswers) {rootfs_path : Str} {dirs : List Str}
    (h : (a.storageAt rootfs_path dirs).mkdir = none) (dir : Str) :
    dir ∈ a.dirsAfter rootfs_path dirs ↔ dir = rootfs_path ∨ dir ∈ dirs := by
  rw [WasmAnswers.dirsAfter, h]
  by_cases hdir : dir = rootfs_path
  · simp [hdir]
  · dsimp only
    split <;> simp [hdir]

/-- The directory cannot be made for a reason that spares the creation. -/
lemma spared_of_mkdir (a : WasmAnswers) {image replicaName : Str} {dirs : List Str} {text : Str}
    (h : (a.storageAt (replicaPath image replicaName) dirs).mkdir = some text) :
    a.Spared image replicaName dirs := by
  by_cases hdir : replicaPath image replicaName ∈ dirs
  · exact .inr hdir
  · rw [WasmAnswers.storageAt, if_neg fun h => hdir h.1] at h
    exact .inl (by rw [h]; rfl)

/-- Once the directory has been made, the creation is spared only where it was there before. -/
lemma spared_iff_of_mkdir (a : WasmAnswers) {image replicaName : Str} {dirs : List Str}
    (h : (a.storageAt (replicaPath image replicaName) dirs).mkdir = none) :
    a.Spared image replicaName dirs ↔ replicaPath image replicaName ∈ dirs := by
  refine ⟨fun hs => hs.resolve_left fun hmkdir => ?_, .inr⟩
  by_cases hdir : replicaPath image replicaName ∈ dirs ∧ a.removeAll
  · rw [WasmAnswers.storageAt, if_pos hdir] at h
    cases h
  · rw [WasmAnswers.storageAt, if_neg hdir] at h
    rw [h] at hmkdir
    cases hmkdir

/-- `setupWasmStorage` fails when the directory cannot be made. -/
lemma setupWasmStorage_of_mkdir {image_path replicaName text : Str} {imageFiles : List Str}
    {a : StorageAnswers} (h : a.mkdir = some text) :
    (setupWasmStorage image_path imageFiles replicaName a).2 = some text := by
  simp only [setupWasmStorage, h]

/-- **What a failed WASM creation leaves**: nothing if and only if the directory cannot be made or
was there before.

**Proof sketch.** The directory is made before the reflinks, the address and the process, and none
of their failures removes it. -/
lemma setupStorage_leavesNothing_iff {fname imageFn replicaName : Str} {setActive : Bool}
    {a : WasmAnswers} {og : Ref × Function} (hf : m.world.fn? imageFn = some og)
    (h : (do setupStorage a imageFn replicaName
             startProcess fname replicaName setActive a : Creating (Str × Str)) m =
      .error (.error err) m') :
    LeavesNothing m m' ↔ a.Spared og.2.image replicaName m.replicaDirs := by
  obtain ⟨o, g⟩ := og
  set path := replicaPath g.image replicaName with hpath
  obtain ⟨made, hmade⟩ : ∃ made : Machine,
      made = { m with replicaDirs := a.dirsAfter path m.replicaDirs } := ⟨_, rfl⟩
  cases hmkdir : (a.storageAt path m.replicaDirs).mkdir with
  | some text =>
    have hend : setupStorage a imageFn replicaName m =
        .error (.error (.setupWasmStorage text)) made := by
      simp only [setupStorage, hf, ← hpath, setupWasmStorage_of_mkdir hmkdir, hmade]
    rw [bind_of_error hend, hmade] at h
    cases h
    exact iff_of_true (leavesNothing_of_eq rfl rfl rfl (dirsAfter_subset a hmkdir))
      (spared_of_mkdir a hmkdir)
  | none =>
    rw [spared_iff_of_mkdir a hmkdir, ← hpath]
    -- from here on the directory stays, and nothing else that counts changes
    have hend : ∃ netnsList, m' = { made with
        world := { made.world with netnsList := netnsList } } := by
      cases hlinks : (setupWasmStorage g.image g.imageFiles replicaName
          (a.storageAt path m.replicaDirs)).2 with
      | some text =>
        have hend : setupStorage a imageFn replicaName m =
            .error (.error (.setupWasmStorage text)) made := by
          simp only [setupStorage, hf, ← hpath, hlinks, hmade]
        rw [bind_of_error hend] at h
        refine ⟨made.world.netnsList, ?_⟩
        cases made
        cases h
        rfl
      | none =>
        have hend : setupStorage a imageFn replicaName m = .ok () made := by
          simp only [setupStorage, hf, ← hpath, hlinks, hmade]
        rw [bind_of_ok hend] at h
        exact startProcess_error h
    obtain ⟨netnsList, rfl⟩ := hend
    subst hmade
    have hmem := mem_dirsAfter a hmkdir
    refine ⟨fun hl => hl.replicaDirs ((hmem path).mpr (.inl rfl)), fun hdir => ?_⟩
    refine leavesNothing_of_eq rfl rfl rfl fun dir hdir' => ?_
    obtain rfl | hdir' := (hmem dir).mp hdir'
    · exact hdir
    · exact hdir'

/-- **A failed WASM creation leaves nothing** just when its directory could not be made, or was
there before.

**Proof sketch.** The function and then the function of the image are looked up; when one of them is
missing, nothing has been made. Otherwise the failure is that of the directory
(`setupStorage_leavesNothing_iff`). -/
lemma createWasmReplica_leavesNothing_iff {fname : Str} {setActive : Bool} {a : WasmAnswers}
    (h : createWasmReplica fname setActive a m = .error (.error err) m') :
    LeavesNothing m m' ↔ ∀ of, m.world.fn? fname = some of →
      ∀ og, m.world.fn? (wasmImageFn fname of.2) = some og →
        a.Spared og.2.image (wasmName fname a.uuid) m.replicaDirs := by
  unfold createWasmReplica at h
  cases hf : m.world.fn? fname with
  | none =>
    rw [hf] at h
    cases h
    exact iff_of_true (leavesNothing_of_eq rfl rfl rfl (List.Subset.refl _)) fun of hof =>
      absurd hof (by simp)
  | some of =>
    rw [hf] at h
    dsimp only at h
    cases hg : m.world.fn? (wasmImageFn fname of.2) with
    | none =>
      have hend : setupStorage a (wasmImageFn fname of.2) (wasmName fname a.uuid) m =
          .error (.error (.notDeployed (wasmImageFn fname of.2))) m := by
        simp only [setupStorage, hg]
      rw [bind_of_error hend] at h
      cases h
      refine iff_of_true (leavesNothing_of_eq rfl rfl rfl (List.Subset.refl _)) ?_
      rintro of' hof og hog
      cases hof
      rw [hg] at hog
      cases hog
    | some og =>
      rw [setupStorage_leavesNothing_iff hg h]
      refine ⟨fun hs of' hof og' hog => ?_, fun hs => hs of rfl og hg⟩
      cases hof
      rw [hg] at hog
      cases hog
      exact hs

end Wasm

/-! ### The call -/

section Call

variable {m m' : Machine} {err : CreateError}

/-- A slot counts a container and changes nothing else. -/
lemma World.takeSlot_frame {w w' : World} {ctrType : Str} (h : w.takeSlot ctrType = some w') :
    ∃ n k, w' = { w with containerCount := n, wasmContainerCount := k } := by
  unfold World.takeSlot World.addWasmContainerCount World.addContainerCount at h
  split at h
  · split at h
    · cases h
      exact ⟨w.containerCount, _, rfl⟩
    · cases h
  · split at h
    · cases h
      exact ⟨_, w.wasmContainerCount, rfl⟩
    · cases h

/-- Without a slot all attempts fail. -/
lemma waitForSlot_of_none {ctrType : Str} (h : m.world.takeSlot ctrType = none) (attempts : ℕ) :
    waitForSlot ctrType attempts m = .error (.error .limit) m := by
  induction attempts with
  | zero => rfl
  | succ attempts ih =>
    rw [waitForSlot]
    dsimp only
    rw [h]
    exact ih

/-- The first attempt succeeds where the limit allows a container more. -/
lemma waitForSlot_of_some {ctrType : Str} {w : World} (h : m.world.takeSlot ctrType = some w)
    (attempts : ℕ) :
    waitForSlot ctrType (attempts + 1) m = .ok () { m with world := w } := by
  rw [waitForSlot]
  dsimp only
  rw [h]

/-- The counters of containers are none of what is left. -/
lemma leavesNothing_counted (m m' : Machine) (n k : ℤ) :
    LeavesNothing
        { m with world := { m.world with containerCount := n, wasmContainerCount := k } } m' ↔
      LeavesNothing m m' :=
  ⟨fun h => ⟨h.containers, h.snapshots, h.tasks, h.networks, h.replicaDirs, h.pools⟩,
    fun h => ⟨h.containers, h.snapshots, h.tasks, h.networks, h.replicaDirs, h.pools⟩⟩

end Call

/-- The function `f` on a small node. -/
def machineF : Machine :=
  { world := { smallWorld with
      heap := [{ name := "f".toList, namespace_ := defaultFunctionNamespace, image := [] }]
      deployedFunctions := AList.singleton "f".toList 0 } }

end Fecore
