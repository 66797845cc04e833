import Mathlib.Tactic.Common
import Fecore.Handlers.FunctionStore
import Fecore.Proxy.Retry

set_option relaxedAutoImplicit false
set_option autoImplicit false

/-!
# Creating replicas

`createReplica`, `createNativeReplica` and `createWasmReplica` of
`pkg/provider/handlers/replicas.go`, one section at a time. The creation of a container and the
start of a process are sections of their own; what they meet outside is an `Env`.

## Main definitions

* `Fecore.Env` — what a section meets outside.
* `Fecore.CreateCall`, `Fecore.CreatePc`, `Fecore.CreateResult` — a call of `createReplica`, where
  it stands, and what a section of it leads to.
* `Fecore.createNext` — the next section of a call.

## Main results

* `Fecore.createNext_cases` — everything that a section can do, as a `Fecore.CreateSection`.
-/

namespace Fecore

/-- How the native container turns out: where the creation fails, and what is left of it. -/
inductive Built
  /-- the image cannot be prepared -/
  | prepareImage
  /-- `client.NewContainer` fails -/
  | newContainer
  /-- `container.NewTask` fails: the container and its snapshot are left -/
  | newTask
  /-- the network, the wait, the start or the status of the task fails: the task is left too -/
  | task
  | ok
deriving DecidableEq

/-- What a section meets outside. -/
structure Env where
  now : Time := 0
  /-- `uuid.New().String()` -/
  uuid : Str := []
  /-- the outside call of the section fails -/
  err : Bool := false
  built : Built := .ok
  /-- the PID and the IP of the container or the process -/
  pid : ℕ := 0
  ip : Str := []
  /-- the answers to the deletion of each replica -/
  answers : Str → Answers := fun _ => {}
  /-- the exchange with the replica -/
  exchange : Exchange := answersAlways 200
  /-- the next entry of `deployedFunctions` that the range over it yields -/
  entry : Option Str := none
  /-- the image and its files, as a deployment finds them -/
  image : Str := []
  imageFiles : List Str := []

/-- The arguments of a call of `createReplica`. -/
structure CreateCall where
  fname : Str
  ctrType : Str
  setActive : Bool
deriving DecidableEq

/-- Where a call of `createReplica` stands. -/
inductive CreatePc
  /-- waiting for a slot, for `sleepTime` milliseconds so far -/
  | slot (sleepTime : ℕ)
  /-- a slot is taken; the function is read next -/
  | lookup
  /-- the function has been read; the native container is built next -/
  | build (fnName fnNamespace : Str)
  /-- the name has been made; `setupWasmStorage` for the image of `imageFn` is next -/
  | storage (replicaName imageFn : Str)
  /-- `GetNetNS` is next -/
  | net (replicaName : Str)
  /-- `cmd.Start` is next -/
  | start (replicaName : Str) (ipInfo : WasmIPInfo)
  /-- the replica runs and is added to its function next -/
  | add (replica : Replica)
deriving DecidableEq

/-- What a section of a call leads to. -/
inductive CreateResult
  | running (pc : CreatePc)
  | returned (replicaName replicaIP : Str)
  | failed
  | panicked (fault : Fault)
deriving DecidableEq

/-- `fname + "_" + uuid + "_n"`. -/
def nativeName (fname uuid : Str) : Str := fname ++ "_".toList ++ uuid ++ "_n".toList

/-- `fname + "_" + uuid + "_w"`. -/
def wasmName (fname uuid : Str) : Str := fname ++ "_".toList ++ uuid ++ "_w".toList

/-- The records of containerd that `NewContainer` and `NewTask` leave. -/
def buildContainer (built : Built) (key : Key) (c : Containerd) : Containerd :=
  match built with
  | .prepareImage => c
  | .newContainer => c
  | .newTask => c.withContainer key
  | .task | .ok => (c.withContainer key).withTask key

/-- The replica of `createNativeReplica`. -/
def nativeReplica (fnName name : Str) (e : Env) : Replica :=
  { fname := fnName, ctrType := native, uuid := name, pid := e.pid, ip := e.ip, netNS := 0,
    lastAccess := e.now }

/-- The replica of `createWasmReplica`. -/
def wasmReplica (fname name : Str) (ipInfo : WasmIPInfo) (e : Env) : Replica :=
  { fname := fname, ctrType := wasm, uuid := name, pid := e.pid, ip := ipInfo.ip,
    netNS := ipInfo.netnsNum, lastAccess := e.now }

/-- The next section of a call of `createReplica`. A section that makes a name needs one that is
fresh, and one that starts a process needs a PID that is free. -/
def createNext (w : World) (call : CreateCall) (pc : CreatePc) (e : Env) :
    Option (World × CreateResult) :=
  match pc with
  | .slot sleepTime =>
    match (if call.ctrType = wasm then w.addWasmContainerCount else w.addContainerCount) with
    | some w' => some (w', .running .lookup)
    | none =>
      -- the loop ends when it has slept for 60 seconds
      if sleepTime + 100 < 60000 then some (w, .running (.slot (sleepTime + 100)))
      else some (w, .failed)
  | .lookup =>
    if call.ctrType = native then
      match w.fn? call.fname with
      | none => some (w, .failed)
      | some (_, f) => some (w, .running (.build f.name f.namespace_))
    else if call.ctrType = wasm then
      match w.fn? call.fname with
      | none => some (w, .failed)
      | some (_, f) =>
        let name := wasmName call.fname e.uuid
        let imageFn :=
          if f.labels.lookup ctrTypeLabel = some hybrid then call.fname ++ ".wasm".toList
          else call.fname
        if name ∈ w.created then none
        else some ({ w with created := name :: w.created }, .running (.storage name imageFn))
    else some (w, .returned [] []) -- neither type: no replica and no error
  | .build fnName fnNamespace =>
    let name := nativeName fnName e.uuid
    let key := (fnNamespace, name)
    if name ∈ w.created then none
    else
      let w := { w with
        created := name :: w.created
        containerd := buildContainer e.built key w.containerd }
      if e.built = .ok then
        some ({ w with nativeReplicas := key :: w.nativeReplicas },
          .running (.add (nativeReplica fnName name e)))
      else some (w, .failed)
  | .storage replicaName imageFn =>
    match w.fn? imageFn with
    | none => some (w, .failed)
    | some _ =>
      -- the directory or a reflink cannot be made
      if e.err then some (w, .failed) else some (w, .running (.net replicaName))
  | .net replicaName =>
    match w.getNetNS with
    | none => some (w, .failed)
    | some (ipInfo, w') => some (w', .running (.start replicaName ipInfo))
  | .start replicaName ipInfo =>
    if e.err then some (w, .failed)
    else if e.pid ∈ w.wasmProcs.map (·.pid) then none
    else
      some ({ w with wasmProcs := ⟨replicaName, e.pid, ipInfo⟩ :: w.wasmProcs },
        .running (.add (wasmReplica call.fname replicaName ipInfo e)))
  | .add replica =>
    if call.setActive then
      match w.addActiveReplica replica with
      | (w', none) => some (w', .returned replica.uuid replica.ip)
      | (w', some fault) => some (w', .panicked fault)
    else
      match w.addIdleReplica replica e.now with
      | .ok w' => some (w', .returned replica.uuid replica.ip)
      | .error fault => some (w, .panicked fault)

/-! ### What a section does -/

/-- Everything that a section of a call can do. -/
inductive CreateSection (w : World) (call : CreateCall) (e : Env) :
    CreatePc → World → CreateResult → Prop
  | nativeSlot {sleepTime : ℕ} (hct : call.ctrType ≠ wasm) (hlt : w.containerCount < 1000) :
      CreateSection w call e (.slot sleepTime)
        { w with containerCount := w.containerCount + 1 } (.running .lookup)
  | wasmSlot {sleepTime : ℕ} (hct : call.ctrType = wasm)
      (hlt : w.wasmContainerCount < w.cfg.maxWasmContainers) :
      CreateSection w call e (.slot sleepTime)
        { w with wasmContainerCount := w.wasmContainerCount + 1 } (.running .lookup)
  | wait {sleepTime : ℕ} :
      CreateSection w call e (.slot sleepTime) w (.running (.slot (sleepTime + 100)))
  | limit {sleepTime : ℕ} : CreateSection w call e (.slot sleepTime) w .failed
  | missing (hf : w.fn? call.fname = none) : CreateSection w call e .lookup w .failed
  | neither (hn : call.ctrType ≠ native) (hw : call.ctrType ≠ wasm) :
      CreateSection w call e .lookup w (.returned [] [])
  | nativeLookup {o : Ref} {f : Function} (hct : call.ctrType = native)
      (hf : w.fn? call.fname = some (o, f)) :
      CreateSection w call e .lookup w (.running (.build f.name f.namespace_))
  | wasmLookup {o : Ref} {f : Function} {imageFn : Str} (hct : call.ctrType = wasm)
      (hf : w.fn? call.fname = some (o, f)) (hfresh : wasmName call.fname e.uuid ∉ w.created) :
      CreateSection w call e .lookup
        { w with created := wasmName call.fname e.uuid :: w.created }
        (.running (.storage (wasmName call.fname e.uuid) imageFn))
  | buildFailed {fnName fnNamespace : Str} (hb : e.built ≠ .ok)
      (hfresh : nativeName fnName e.uuid ∉ w.created) :
      CreateSection w call e (.build fnName fnNamespace)
        { w with
          created := nativeName fnName e.uuid :: w.created
          containerd :=
            buildContainer e.built (fnNamespace, nativeName fnName e.uuid) w.containerd }
        .failed
  | built {fnName fnNamespace : Str} (hb : e.built = .ok)
      (hfresh : nativeName fnName e.uuid ∉ w.created) :
      CreateSection w call e (.build fnName fnNamespace)
        { w with
          created := nativeName fnName e.uuid :: w.created
          containerd := buildContainer .ok (fnNamespace, nativeName fnName e.uuid) w.containerd
          nativeReplicas := (fnNamespace, nativeName fnName e.uuid) :: w.nativeReplicas }
        (.running (.add (nativeReplica fnName (nativeName fnName e.uuid) e)))
  | noStorage {replicaName imageFn : Str} (hf : w.fn? imageFn = none ∨ e.err = true) :
      CreateSection w call e (.storage replicaName imageFn) w .failed
  | storage {replicaName imageFn : Str} {of : Ref × Function} (hf : w.fn? imageFn = some of)
      (herr : e.err = false) :
      CreateSection w call e (.storage replicaName imageFn) w (.running (.net replicaName))
  | noNet {replicaName : Str} (hnil : w.netnsList = []) :
      CreateSection w call e (.net replicaName) w .failed
  | net {replicaName : Str} {ipInfo : WasmIPInfo} {rest : List WasmIPInfo}
      (hcons : w.netnsList = ipInfo :: rest) :
      CreateSection w call e (.net replicaName) { w with netnsList := rest }
        (.running (.start replicaName ipInfo))
  | startFailed {replicaName : Str} {ipInfo : WasmIPInfo} (herr : e.err = true) :
      CreateSection w call e (.start replicaName ipInfo) w .failed
  | started {replicaName : Str} {ipInfo : WasmIPInfo} (herr : e.err = false)
      (hfree : e.pid ∉ w.wasmProcs.map (·.pid)) :
      CreateSection w call e (.start replicaName ipInfo)
        { w with wasmProcs := ⟨replicaName, e.pid, ipInfo⟩ :: w.wasmProcs }
        (.running (.add (wasmReplica call.fname replicaName ipInfo e)))
  | addActive {replica : Replica} {o : Ref} {f : Function} {activeCount : ℤ}
      (hact : call.setActive = true) (hf : w.fn? replica.fname = some (o, f))
      (hstats : w.functionStats.lookup replica.fname = some activeCount) :
      CreateSection w call e (.add replica)
        { w.setFn o { f with
            activeReplicas := f.activeReplicas.insert replica.uuid replica } with
          functionStats := w.functionStats.insert replica.fname (activeCount + 1) }
        (.returned replica.uuid replica.ip)
  | noStats {replica : Replica} {o : Ref} {f : Function} (hact : call.setActive = true)
      (hf : w.fn? replica.fname = some (o, f)) :
      CreateSection w call e (.add replica)
        (w.setFn o { f with
          activeReplicas := f.activeReplicas.insert replica.uuid replica })
        (.panicked .absentStats)
  | addIdle {replica : Replica} {o : Ref} {f : Function} (hact : call.setActive = false)
      (hf : w.fn? replica.fname = some (o, f)) :
      CreateSection w call e (.add replica)
        (w.setFn o { f with idleReplicas := f.idleReplicas.add replica e.now })
        (.returned replica.uuid replica.ip)
  | addAbsent {replica : Replica} (hf : w.fn? replica.fname = none) :
      CreateSection w call e (.add replica) w (.panicked .absentFunction)

/-- **Everything that a section does.**

**Proof sketch.** Case split on where the creation is, and there on the container type and on the
answers of the calls, as in the definition. -/
theorem createNext_cases {w w' : World} {call : CreateCall} {pc : CreatePc} {e : Env}
    {result : CreateResult} (h : createNext w call pc e = some (w', result)) :
    CreateSection w call e pc w' result := by
  cases pc with
  | slot sleepTime =>
    by_cases hct : call.ctrType = wasm
    · by_cases hlt : w.wasmContainerCount < w.cfg.maxWasmContainers
      · simp only [createNext, hct, if_true, World.addWasmContainerCount, hlt,
          Option.some.injEq, Prod.mk.injEq] at h
        obtain ⟨rfl, rfl⟩ := h
        exact .wasmSlot hct hlt
      · simp only [createNext, hct, if_true, World.addWasmContainerCount, hlt, if_false] at h
        split at h <;> (cases h; constructor)
    · by_cases hlt : w.containerCount < 1000
      · simp only [createNext, hct, if_false, World.addContainerCount, hlt, if_true,
          Option.some.injEq, Prod.mk.injEq] at h
        obtain ⟨rfl, rfl⟩ := h
        exact .nativeSlot hct hlt
      · simp only [createNext, hct, if_false, World.addContainerCount, hlt] at h
        split at h <;> (cases h; constructor)
  | lookup =>
    by_cases hn : call.ctrType = native
    · cases hf : w.fn? call.fname with
      | none =>
        simp only [createNext, hn, if_true, hf] at h
        cases h
        exact .missing hf
      | some of =>
        simp only [createNext, hn, if_true, hf] at h
        cases h
        exact .nativeLookup hn hf
    · by_cases hw : call.ctrType = wasm
      · cases hf : w.fn? call.fname with
        | none =>
          simp only [createNext, if_neg hn, if_pos hw, hf] at h
          cases h
          exact .missing hf
        | some of =>
          simp only [createNext, if_neg hn, if_pos hw, hf] at h
          split at h
          · cases h
          · next hfresh =>
            cases h
            exact .wasmLookup hw hf hfresh
      · simp only [createNext, if_neg hn, if_neg hw] at h
        cases h
        exact .neither hn hw
  | build fnName fnNamespace =>
    simp only [createNext] at h
    split at h
    · cases h
    · next hfresh =>
      split at h
      · next hb =>
        cases h
        rw [hb]
        exact .built hb hfresh
      · next hb =>
        cases h
        exact .buildFailed hb hfresh
  | storage replicaName imageFn =>
    cases hf : w.fn? imageFn with
    | none =>
      simp only [createNext, hf] at h
      cases h
      exact .noStorage (.inl hf)
    | some of =>
      cases herr : e.err with
      | true =>
        simp only [createNext, hf, herr, if_true] at h
        cases h
        exact .noStorage (.inr herr)
      | false =>
        simp only [createNext, hf, herr, Bool.false_eq_true, if_false] at h
        cases h
        exact .storage hf herr
  | net replicaName =>
    cases hl : w.netnsList with
    | nil =>
      simp only [createNext, World.getNetNS, hl] at h
      cases h
      exact .noNet hl
    | cons ipInfo rest =>
      simp only [createNext, World.getNetNS, hl] at h
      cases h
      exact .net hl
  | start replicaName ipInfo =>
    cases herr : e.err with
    | true =>
      simp only [createNext, herr, if_true] at h
      cases h
      exact .startFailed herr
    | false =>
      simp only [createNext, herr, Bool.false_eq_true, if_false] at h
      split at h
      · cases h
      · next hfree =>
        cases h
        exact .started herr hfree
  | add replica =>
    cases hf : w.fn? replica.fname with
    | none =>
      cases hact : call.setActive <;>
        simp only [createNext, World.addActiveReplica, World.addIdleReplica, hf, hact, if_true,
          Bool.false_eq_true, if_false] at h <;>
        (cases h; exact .addAbsent hf)
    | some of =>
      obtain ⟨o, f⟩ := of
      cases hact : call.setActive with
      | false =>
        simp only [createNext, World.addIdleReplica, hf, hact, Bool.false_eq_true, if_false] at h
        cases h
        exact .addIdle hact hf
      | true =>
        cases hstats : w.functionStats.lookup replica.fname with
        | none =>
          simp only [createNext, World.addActiveReplica, World.setFn, hf, hact, if_true,
            hstats] at h
          cases h
          exact .noStats hact hf
        | some activeCount =>
          simp only [createNext, World.addActiveReplica, World.setFn, hf, hact, if_true,
            hstats] at h
          cases h
          exact .addActive hact hf hstats

end Fecore
