import Mathlib.Tactic.Common
import Fecore.Handlers.Node
import Fecore.Handlers.WellFormed

set_option relaxedAutoImplicit false
set_option autoImplicit false

/-!
# What `Resolve` returns

`InvokeResolver.Resolve` hands an invocation the address of a replica
(`pkg/provider/handlers/invoke_resolver.go`). The sections of an invocation in the module
`Fecore.Handlers.Provider` keep of its results what the later steps read; here are the results as
a whole.

## Main definitions

* `Fecore.Endpoint`, `Fecore.ResolveResult`, `Fecore.resolveNext` — the results, and the sections
  that lead to them.
* `Fecore.ResolveResult.right` — a nil error comes with an active replica at the address.
* `Fecore.Thread.obtains` — the next section obtains what it is after, or its error is returned.

## Main results

* `Fecore.requestNext_eq` — these are the sections of an invocation.
* `Fecore.resolveNext_right_iff` — what one section needs.
* `Fecore.resolvesRight_along_iff` — the runs along which `Resolve` returns what it should.
-/

namespace Fecore

/-! ### The results -/

/-- What `Resolve` returns with a nil error. -/
structure Endpoint where
  /-- `Host` of the URL -/
  host : Str
  startupType : Str
  containerType : Str
  replicaName : Str
deriving DecidableEq

/-- `fmt.Sprintf("http://%s:%d", replicaIP, watchdogPort)` after `url.Parse`, which accepts the text
of an IP, and no text, as a host. -/
def urlHost (replicaIP : Str) : Str := replicaIP ++ ":8080".toList

/-- What a section of `Resolve` leads to. -/
inductive ResolveResult
  | running (pc : RequestPc)
  /-- a nil error -/
  | returned (endpoint : Endpoint)
  /-- an error -/
  | failed
  | panicked (fault : Fault)

/-- The end of `Resolve` on the results of `ResolveNative`, `ResolveWasm` or `ResolveHybrid`. -/
def Resolving.endpoint (fn : Resolving) (startupType replicaName replicaIP : Str) : Endpoint :=
  { host := urlHost replicaIP
    startupType := startupType
    containerType := fn.containerType
    replicaName := replicaName }

/-- What becomes of `Resolve` after a section of its `createReplica`. The error of a function with a
label for its container type is logged; then `url.Parse` sets it to nil. -/
def Resolving.afterCreate (fn : Resolving) : CreateResult → ResolveResult
  | .running pc => .running (.create fn pc)
  | .returned replicaName replicaIP =>
    .returned (fn.endpoint "cold".toList replicaName replicaIP)
  | .failed => if fn.labelled then .returned (fn.endpoint "cold".toList [] []) else .failed
  | .panicked fault => .panicked fault

/-- The next section of `Resolve`. -/
def resolveNext (w : World) (req : Request) (pc : RequestPc) (e : Env) :
    Option (World × ResolveResult) :=
  match pc with
  | .resolve =>
    if req.functionName = [] then some (w, .failed)
    else
      match w.fn? (actualFunctionName req.functionName) with
      | none => some (w, .failed)
      | some (_, f) =>
        let fn : Resolving :=
          { name := f.name
            sandboxes := f.sandboxes
            containerType := containerType f
            labelled := (f.labels.lookup ctrTypeLabel).isSome }
        if fn.containerType = hybrid then some (w, .running (.policy fn))
        else if req.cold then some (w, .running (.create fn (.slot 0)))
        else some (w, .running (.idle fn))
  | .policy fn =>
    match w.getInvocationPolicy fn.name with
    | .error fault => some (w, .panicked fault)
    | .ok policy => some (w, .running (.idle { fn with policy := policy }))
  | .idle fn =>
    match w.getIdleReplica fn.pool with
    | .error fault => some (w, .panicked fault)
    | .ok none => some (w, .running (.create fn (.slot 0)))
    | .ok (some (replica, w')) =>
      some (w', .returned (fn.endpoint "warm".toList replica.uuid replica.ip))
  | .create fn pc =>
    (createNext w fn.call pc e).map fun (w', result) => (w', fn.afterCreate result)
  | _ => none -- `Resolve` has returned

/-- The invocation is in `Resolve`. -/
def RequestPc.resolving : RequestPc → Bool
  | .resolve => true
  | .policy _ => true
  | .idle _ => true
  | .create _ _ => true
  | _ => false

/-- What becomes of the invocation. -/
def ResolveResult.thread (req : Request) : ResolveResult → Thread
  | .running pc => .request req pc
  | .returned endpoint => .request req (.build endpoint.containerType endpoint.replicaName)
  | .failed => .returned
  | .panicked fault => .panicked fault

/-- **These are the sections of an invocation** that is in `Resolve`.

**Proof sketch.** Case split on where the invocation is; in each case both definitions test the same
conditions. -/
theorem requestNext_eq (w : World) (req : Request) {pc : RequestPc} (hpc : pc.resolving = true)
    (e : Env) :
    (requestNext w req pc e).map (fun r => (r.1, r.2.1)) =
      (resolveNext w req pc e).map fun r => (r.1, r.2.thread req) := by
  cases pc with
  | resolve =>
    simp only [requestNext, resolveNext]
    split
    · rfl
    · cases hf : w.fn? (actualFunctionName req.functionName) with
      | none => rfl
      | some of =>
        dsimp only
        split
        · rfl
        · split <;> rfl
  | policy fn =>
    simp only [requestNext, resolveNext]
    cases w.getInvocationPolicy fn.name <;> rfl
  | idle fn =>
    simp only [requestNext, resolveNext]
    cases w.getIdleReplica fn.pool with
    | error fault => rfl
    | ok idle => cases idle <;> rfl
  | create fn pc =>
    simp only [requestNext, resolveNext]
    cases createNext w fn.call pc e with
    | none => rfl
    | some r =>
      obtain ⟨w', result⟩ := r
      cases result with
      | failed =>
        simp only [Option.map_some, Thread.afterCreate, Resolving.afterCreate]
        split <;> rfl
      | _ => rfl
  | _ => cases hpc

/-- The goroutine is an invocation in `Resolve`. -/
def Thread.resolving : Thread → Bool
  | .request _ pc => pc.resolving
  | _ => false

/-- No goroutine comes back into `Resolve`. -/
lemma section_not_resolving {w w' : World} {e : Env} {t t' : Thread} {new : List Thread}
    (hsec : Section w e t w' t' new) (ht : t.resolving = false) : t'.resolving = false := by
  cases hsec with
  | request hsec => cases hsec <;> first | rfl | cases ht
  | @spawn _ _ _ result hsec => cases result <;> rfl
  | sweep hsec => cases hsec <;> rfl
  | _ => rfl

/-- An invocation that is in `Resolve` has come there by a section of `Resolve`.

**Proof sketch.** A goroutine that is not in `Resolve` does not come into it
(`section_not_resolving`), and a section of one that is in it is `resolveNext`
(`requestNext_eq`). -/
lemma resolveNext_of_next {w w' : World} {e : Env} {req : Request} {t : Thread} {pc' : RequestPc}
    {new : List Thread} (h : provider.next w t e = some (w', .request req pc', new))
    (hpc' : pc'.resolving = true) :
    ∃ pc, t = .request req pc ∧ resolveNext w req pc e = some (w', .running pc') := by
  cases hres : t.resolving with
  | false =>
    have hfalse := section_not_resolving (next_cases h) hres
    rw [show (Thread.request req pc').resolving = pc'.resolving from rfl, hpc'] at hfalse
    cases hfalse
  | true =>
    cases t with
    | request req' pc =>
      have heq := requestNext_eq w req' hres e
      have hnext : requestNext w req' pc e = some (w', .request req pc', new) := h
      rw [hnext, Option.map_some] at heq
      obtain ⟨⟨w₁, result⟩, hsec, hpair⟩ := Option.map_eq_some_iff.mp heq.symm
      obtain ⟨rfl, hthread⟩ := Prod.mk.inj hpair
      cases result with
      | running pc'' =>
        obtain ⟨rfl, rfl⟩ := Thread.request.inj hthread
        exact ⟨pc, rfl, hsec⟩
      | returned endpoint =>
        obtain ⟨rfl, rfl⟩ := Thread.request.inj hthread
        cases hpc'
      | failed => cases hthread
      | panicked fault => cases hthread
    | _ => cases hres

/-! ### What is right -/

/-- The function whose replica the section hands out: for a hybrid function a sandbox. -/
def RequestPc.serving : RequestPc → Str
  | .idle fn => fn.pool
  | .create fn _ => fn.call.fname
  | _ => []

/-- **The result is right**: a nil error comes with the name of a replica that is active in the
function that serves the invocation, and with the address of this replica; a panic returns no
error. -/
def ResolveResult.right (w : World) (serving : Str) : ResolveResult → Bool
  | .returned endpoint =>
    decide (endpoint.replicaName ≠ []) &&
      (w.fn? serving).any fun of =>
        (of.2.activeReplicas.lookup endpoint.replicaName).any fun replica =>
          decide (endpoint.host = urlHost replica.ip)
  | .panicked _ => false
  | _ => true

/-- What the next section of `createReplica` needs for its function to be served. Where the function
has a label for its container type, nothing may fail: there is a slot or time to wait for one, the
function and its image are there, the outside calls succeed and there is a network namespace. A
container type that is neither native nor WASM makes no replica, and the function to which the
replica is added, and its statistics, are looked up without a check. -/
def CreatePc.obtains (w : World) (call : CreateCall) (labelled : Bool) (e : Env) : CreatePc → Bool
  | .slot sleepTime =>
    !labelled || decide (sleepTime + 100 < 60000) ||
      (if call.ctrType = wasm then w.addWasmContainerCount else w.addContainerCount).isSome
  | .lookup =>
    decide (call.ctrType = native ∨ call.ctrType = wasm) &&
      (!labelled || (w.fn? call.fname).isSome)
  | .build _ _ => !labelled || decide (e.built = .ok)
  | .storage _ imageFn => !labelled || ((w.fn? imageFn).isSome && !e.err)
  | .net _ => !labelled || w.getNetNS.isSome
  | .start _ _ => !labelled || !e.err
  | .add replica =>
    (w.fn? replica.fname).isSome && (w.functionStats.lookup replica.fname).isSome

/-- What the next section of `Resolve` needs. -/
def RequestPc.obtains (w : World) (e : Env) : RequestPc → Bool
  | .policy fn => (w.fn? fn.name).isSome
  | .idle fn => (w.fn? fn.pool).isSome
  | .create fn pc => pc.obtains w fn.call fn.labelled e
  | _ => true

/-- The result of the next section of `Resolve` is right. -/
def Thread.resolvesRight (w : World) (t : Thread) (e : Env) : Bool :=
  match t with
  | .request req pc => (resolveNext w req pc e).all fun r => r.2.right r.1 pc.serving
  | _ => true

/-- **The next section obtains what it is after**, or its error is returned. -/
def Thread.obtains (w : World) (t : Thread) (e : Env) : Bool :=
  match t with
  | .request _ pc => pc.obtains w e
  | _ => true

/-! ### One section -/

/-- A creation works for the function it was called for. -/
def CreatePc.For (fname : Str) : CreatePc → Prop
  | .build fnName _ => fnName = fname
  | .add replica => replica.fname = fname
  | _ => True

/-- The creations of the invocations work for the functions they were called for. -/
def Thread.CreatesFor : Thread → Prop
  | .request _ (.create fn pc) => pc.For fn.call.fname
  | _ => True

/-- A creation goes on working for its function.

**Proof sketch.** Case split on the section. The look-up of a native creation reads the function
under its name, and the sections after it carry it on. -/
lemma createSection_for {w w' : World} {call : CreateCall} {e : Env} {pc pc' : CreatePc}
    {result : CreateResult} (hsec : CreateSection w call e pc w' result) (hw : w.WellFormed)
    (hpc : pc.For call.fname) (hres : result = .running pc') : pc'.For call.fname := by
  cases hsec with
  | nativeLookup hct hf =>
    cases hres
    exact hw.named _ _ _ hf
  | built =>
    cases hres
    exact hpc
  | started =>
    cases hres
    rfl
  | nativeSlot => cases hres; trivial
  | wasmSlot => cases hres; trivial
  | wait => cases hres; trivial
  | wasmLookup => cases hres; trivial
  | storage => cases hres; trivial
  | net => cases hres; trivial
  | _ => cases hres

/-- The creations of the invocations go on working for their functions in every section. -/
lemma section_createsFor {w w' : World} {e : Env} {t t' : Thread} {new : List Thread}
    (hsec : Section w e t w' t' new) (hw : w.WellFormed) (ht : t.CreatesFor) : t'.CreatesFor := by
  cases hsec with
  | request hsec =>
    cases hsec with
    | @create fn pc _ result hsec =>
      cases result with
      | running pc' => exact createSection_for hsec hw ht rfl
      | failed =>
        simp only [Thread.afterCreate]
        split <;> trivial
      | _ => trivial
    | _ => trivial
  | @spawn call pc _ result hsec => cases result <;> trivial
  | sweep hsec => cases hsec <;> trivial
  | _ => trivial

/-- An active replica of the function, by its name and its address. -/
lemma right_of_active {w : World} {serving : Str} {o : Ref} {f : Function} {replica : Replica}
    (hf : w.fn? serving = some (o, f))
    (hact : f.activeReplicas.lookup replica.uuid = some replica) (hr : replica.WellFormed)
    (fn : Resolving) (startupType : Str) :
    (ResolveResult.returned (fn.endpoint startupType replica.uuid replica.ip)).right w serving =
      true := by
  have hne : replica.uuid ≠ [] := by
    intro hnil
    have hcount := hr.uuid
    rw [hnil] at hcount
    cases hcount
  simp [ResolveResult.right, Resolving.endpoint, hf, hact, hne]

/-- **What a section of a creation needs**, for the result of `Resolve` to be right.

**Proof sketch.** Case split on where the creation is. A section that goes on asks nothing, and one
that ends returns the address of the replica just when it has been obtained; a failed creation is
right only without a label. -/
lemma createNext_right_iff {w w' : World} {fn : Resolving} {pc : CreatePc} {e : Env}
    {result : CreateResult} (h : createNext w fn.call pc e = some (w', result))
    (hpc : pc.WellFormed) (hfor : pc.For fn.call.fname) :
    (fn.afterCreate result).right w' fn.call.fname = pc.obtains w fn.call fn.labelled e := by
  have hactive := fn.call_setActive
  have hfailed : ∀ w', (fn.afterCreate .failed).right w' fn.call.fname = !fn.labelled := by
    intro w'
    simp only [Resolving.afterCreate]
    cases fn.labelled <;> rfl
  cases pc with
  | slot sleepTime =>
    simp only [createNext] at h
    simp only [CreatePc.obtains]
    cases hslot : (if fn.call.ctrType = wasm then w.addWasmContainerCount
        else w.addContainerCount) with
    | some w₁ =>
      rw [hslot] at h
      cases h
      simp [Resolving.afterCreate, ResolveResult.right]
    | none =>
      rw [hslot] at h
      dsimp only at h
      split at h
      · next hlt =>
        cases h
        simp [Resolving.afterCreate, ResolveResult.right, hlt]
      · next hlt =>
        cases h
        simp [hfailed, hlt]
  | lookup =>
    have hsec := createNext_cases h
    cases hsec with
    | missing hf =>
      have hct : fn.call.ctrType = native ∨ fn.call.ctrType = wasm := by
        by_contra hct
        rw [not_or] at hct
        simp [createNext, hct.1, hct.2] at h
      simp [hfailed, CreatePc.obtains, hf, hct]
    | neither hn hct => simp [Resolving.afterCreate, ResolveResult.right, Resolving.endpoint,
        CreatePc.obtains, hn, hct]
    | nativeLookup hct hf =>
      simp [Resolving.afterCreate, ResolveResult.right, CreatePc.obtains, hct, hf]
    | wasmLookup hct hf =>
      simp [Resolving.afterCreate, ResolveResult.right, CreatePc.obtains, hct, hf]
  | build fnName fnNamespace =>
    have hsec := createNext_cases h
    cases hsec with
    | buildFailed hb => simp [hfailed, CreatePc.obtains, hb]
    | built hb => simp [Resolving.afterCreate, ResolveResult.right, CreatePc.obtains, hb]
  | storage replicaName imageFn =>
    have hsec := createNext_cases h
    cases hsec with
    | noStorage hf =>
      rcases hf with hf | herr
      · simp [hfailed, CreatePc.obtains, hf]
      · simp [hfailed, CreatePc.obtains, herr]
    | storage hf herr =>
      simp [Resolving.afterCreate, ResolveResult.right, CreatePc.obtains, hf, herr]
  | net replicaName =>
    have hsec := createNext_cases h
    cases hsec with
    | noNet hnil => simp [hfailed, CreatePc.obtains, World.getNetNS, hnil]
    | net hcons =>
      simp [Resolving.afterCreate, ResolveResult.right, CreatePc.obtains, World.getNetNS, hcons]
  | start replicaName ipInfo =>
    have hsec := createNext_cases h
    cases hsec with
    | startFailed herr => simp [hfailed, CreatePc.obtains, herr]
    | started herr => simp [Resolving.afterCreate, ResolveResult.right, CreatePc.obtains, herr]
  | add replica =>
    have hsec := createNext_cases h
    cases hsec with
    | @addActive _ o f activeCount hact hf hstats =>
      have hlook := World.fn?_setFn_self hf
        { f with activeReplicas := f.activeReplicas.insert replica.uuid replica }
      have hright := right_of_active hlook (AList.lookup_insert _) hpc fn "cold".toList
      rw [← hfor]
      simp only [CreatePc.obtains, hf, hstats, Option.isSome_some, Bool.and_self]
      exact hright
    | noStats hact hf =>
      have hstats : w.functionStats.lookup replica.fname = none := by
        cases hstats : w.functionStats.lookup replica.fname with
        | none => rfl
        | some activeCount =>
          simp [createNext, hact, World.addActiveReplica, World.setFn, hf, hstats] at h
      simp [Resolving.afterCreate, ResolveResult.right, CreatePc.obtains, hstats]
    | addIdle hact hf =>
      rw [hactive] at hact
      cases hact
    | addAbsent hf => simp [Resolving.afterCreate, ResolveResult.right, CreatePc.obtains, hf]

/-- **What a section of `Resolve` needs**, for its result to be right.

**Proof sketch.** The look-ups that are not checked panic. A replica from the idle pool is put into
`activeReplicas` of the same function, and so is a new replica, which names the function it was
created for. Every failure of a creation is an error of `createReplica`, which is lost where the
function has a label for its container type. -/
theorem resolveNext_right_iff {w w' : World} {req : Request} {pc : RequestPc} {e : Env}
    {result : ResolveResult} (h : resolveNext w req pc e = some (w', result)) (hw : w.WellFormed)
    (hpc : pc.WellFormed) (hfor : (Thread.request req pc).CreatesFor) :
    result.right w' pc.serving = pc.obtains w e := by
  cases pc with
  | resolve =>
    simp only [resolveNext] at h
    split at h
    · cases h
      rfl
    split at h
    · cases h
      rfl
    split at h
    · cases h
      rfl
    split at h <;>
    · cases h
      rfl
  | policy fn =>
    cases hf : w.fn? fn.name with
    | none =>
      simp only [resolveNext, World.getInvocationPolicy, hf] at h
      cases h
      simp [ResolveResult.right, RequestPc.obtains, hf]
    | some of =>
      simp only [resolveNext, World.getInvocationPolicy, hf] at h
      cases h
      simp [ResolveResult.right, RequestPc.obtains, hf]
  | idle fn =>
    cases hf : w.fn? fn.pool with
    | none =>
      simp only [resolveNext, World.getIdleReplica, hf] at h
      cases h
      simp [ResolveResult.right, RequestPc.obtains, hf]
    | some of =>
      obtain ⟨o, f⟩ := of
      cases htake : f.takeIdle with
      | none =>
        simp only [resolveNext, World.getIdleReplica, hf, htake] at h
        cases h
        simp [ResolveResult.right, RequestPc.obtains, hf]
      | some rf =>
        obtain ⟨replica, f'⟩ := rf
        simp only [resolveNext, World.getIdleReplica, hf, htake] at h
        cases h
        have hlook := World.fn?_setFn_self hf f'
        have hact : f'.activeReplicas.lookup replica.uuid = some replica := by
          rw [(Function.takeIdle_spec htake).2.1]
          exact AList.lookup_insert _
        have hr := ((hw.function hf).1.takeIdle htake).1
        simp only [RequestPc.obtains, hf, Option.isSome_some]
        exact right_of_active hlook hact hr fn _
  | create fn pc =>
    simp only [resolveNext, Option.map_eq_some_iff] at h
    obtain ⟨⟨w₁, created⟩, hnext, heq⟩ := h
    obtain ⟨rfl, rfl⟩ := Prod.mk.inj heq
    exact createNext_right_iff hnext hpc hfor
  | _ => cases h

/-! ### Runs -/

/-- What the sections of `Resolve` rely on. -/
structure State.Resolvable (c : State) : Prop where
  wellFormed : State.WellFormed c
  createsFor : c.All fun _ t => t.CreatesFor

/-- **Step lemma.** Every move keeps what the sections of `Resolve` rely on. -/
lemma State.Resolvable.step {c c' : State} {m : Event} (h : c.Resolvable)
    (hstep : provider.step c m = some c') : c'.Resolvable := by
  refine ⟨step_wellFormed h.wellFormed hstep, Interleaving.all_step h.createsFor hstep ?_ ?_⟩
  · intro t _ hent
    obtain ⟨req, rfl⟩ | rfl | ⟨req, rfl⟩ | ⟨req, rfl⟩ | ⟨fn, updated, rfl⟩ := entry_cases hent <;>
      trivial
  · intro i e t w' t' new _ ht hn
    have hsec := next_cases hn
    refine ⟨section_createsFor hsec h.wellFormed.1 (h.createsFor t (List.mem_of_getElem? ht)),
      fun u hu => ?_, fun _ _ _ _ h => h⟩
    obtain ⟨call, rfl⟩ := section_new hsec u hu
    trivial

/-- **What one move needs**, for the result of `Resolve` to be right.

**Proof sketch.** Only a section within `Resolve` is asked for. It is one of `resolveNext`
(`requestNext_eq`), to which `resolveNext_right_iff` applies with the invariants of the run. -/
lemma step_resolvesRight_iff {c c' : State} {m : Event} (h : c.Resolvable)
    (hstep : provider.step c m = some c') :
    atNext (fun w t e => t.resolvesRight w e) c m = true ↔
      atNext (fun w t e => t.obtains w e) c m = true := by
  obtain ⟨t, rfl, -, rfl⟩ | ⟨i, e, t, w', t', new, rfl, ht, hn, rfl⟩ :=
    Interleaving.Program.step_cases hstep
  · rfl
  · simp only [atNext, ht]
    cases t with
    | request req pc =>
      have hmem := List.mem_of_getElem? ht
      simp only [Thread.resolvesRight, Thread.obtains]
      cases hres : pc.resolving with
      | true =>
        have heq := requestNext_eq c.shared req hres e
        have hn' : requestNext c.shared req pc e = some (w', t', new) := hn
        rw [hn', Option.map_some] at heq
        obtain ⟨⟨w₁, result⟩, hnext, -⟩ := Option.map_eq_some_iff.mp heq.symm
        rw [hnext, Option.all_some]
        rw [resolveNext_right_iff hnext h.wellFormed.1 (h.wellFormed.2 _ hmem)
          (h.createsFor _ hmem)]
      | false =>
        cases pc with
        | resolve => cases hres
        | policy => cases hres
        | idle => cases hres
        | create => cases hres
        | _ => rfl
    | _ => rfl

/-- **The runs along which `Resolve` returns what it should**: in each of its sections the functions
that it looks up are deployed and, where the function has a label for its container type, the
creation does not fail.

**Proof sketch.** `resolveNext_right_iff` says what a section needs, under the invariants that the
replicas are well formed and that a creation works for the function it was called for. The two
conditions agree at every step, so they are met along the same runs. -/
theorem resolvesRight_along_iff {cfg : Config} {storage : Storage} {now : Time} {w : World}
    (hstart : startProvider cfg storage now = .ok w) (events : List Event) :
    Runs.Along provider.step (fun c m => atNext (fun w t e => t.resolvesRight w e) c m = true)
        ⟨w, []⟩ events ↔
      Runs.Along provider.step (fun c m => atNext (fun w t e => t.obtains w e) c m = true)
        ⟨w, []⟩ events := by
  refine Runs.along_congr (I := State.Resolvable) (fun _ _ _ h hstep => h.step hstep)
    (fun _ _ _ h hstep => step_resolvesRight_iff h hstep) ?_
  exact ⟨⟨(startProvider_fresh hstart).1.wellFormed, fun t ht => absurd ht List.not_mem_nil⟩,
    fun t ht => absurd ht List.not_mem_nil⟩

/-- The labels of a native function. -/
def nativeLabels : GoMap Str := (∅ : GoMap Str).insert ctrTypeLabel native

/-- An invocation of `f` is handed a new replica. -/
theorem resolvesRight_along_invokeF :
    ((smallRun (deployF nativeLabels ++ invokeF 1 6 { uuid := "1".toList, pid := 7 })).map
        fun c => c.shared.created) = some ["f_1_n".toList] ∧
      Runs.Along provider.step (fun c m => atNext (fun w t e => t.resolvesRight w e) c m = true)
        ⟨smallWorld, []⟩
        (deployF nativeLabels ++ invokeF 1 6 { uuid := "1".toList, pid := 7 }) :=
  ⟨by decide +kernel, (resolvesRight_along_iff startProvider_small _).mpr (by decide +kernel)⟩

/-- The image of `f` cannot be prepared, and `Resolve` returns no error, no name and a URL without
a host. -/
theorem not_resolvesRight_prepareImage :
    ¬ Runs.Along provider.step (fun c m => atNext (fun w t e => t.resolvesRight w e) c m = true)
      ⟨smallWorld, []⟩ (deployF nativeLabels ++ invokeF 1 5 { built := .prepareImage }) := by
  decide +kernel

end Fecore
