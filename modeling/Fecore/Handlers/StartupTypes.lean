import Mathlib.Algebra.Group.Prod
import Mathlib.Algebra.Order.Group.Multiset
import Mathlib.Algebra.Order.Sub.Basic
import Mathlib.Data.Multiset.OrderedMonoid
import Mathlib.Tactic.Common
import Fecore.Concurrency.Histories
import Fecore.Handlers.Hybrids
import Fecore.Handlers.Resolver

set_option relaxedAutoImplicit false
set_option autoImplicit false

/-!
# The startup type that `Resolve` reports

`ResolveNative`, `ResolveWasm` and `ResolveHybrid` of `pkg/provider/handlers/invoke_resolver.go`
report whether the replica that they return was idle or is new. What an invocation takes out of the
idle pools, and which replicas it starts, is read off the store, section by section.

## Main definitions

* `Fecore.World.idleNames`, `Fecore.World.runningNames` — the replicas in the idle pools, and those
  that run.
* `Fecore.Endpoint.StartupTypeRight` — the startup type that is returned is right.
* `Fecore.RequestPc.keepsStartupType` — the section returns an idle replica to an invocation that
  does not ask for a cold start, or obtains the replica that it creates.

## Main results

* `Fecore.resolve_history` — what an invocation has taken and started while it is in `Resolve`.
* `Fecore.startupType_right_iff` — when the startup type is right.
-/

namespace Fecore

/-! ### What a section takes and starts -/

/-- The names of the replicas in the idle pools of all functions. -/
def World.idleNames (w : World) : Multiset Str :=
  (w.heap.map fun f => (↑(f.idleReplicas.stored.map (·.uuid)) : Multiset Str)).sum

/-- The names of the replicas that run. -/
def World.runningNames (w : World) : Multiset Str :=
  ↑(w.nativeReplicas.map Prod.snd ++ w.wasmProcs.map (·.name))

/-- The replicas that have left the idle pools from one store to another, and those that have
started. -/
def World.handled (w w' : World) : Multiset Str × Multiset Str :=
  (w.idleNames - w'.idleNames, w'.runningNames - w.runningNames)

/-- The replicas that the next section of a goroutine takes out of the idle pools, and those that it
starts. -/
def Thread.handles (w : World) (e : Env) (t : Thread) : Multiset Str × Multiset Str :=
  match t.next w e with
  | none => 0
  | some (w', _, _) => w.handled w'

/-- **The startup type is right**: the returned replica was taken from an idle pool exactly when it
is reported as warm, and was started for this invocation exactly when it is reported as cold; an
invocation that asks for a cold start is served by a replica that was started for it. -/
structure Endpoint.StartupTypeRight (endpoint : Endpoint) (asksCold : Bool)
    (handled : Multiset Str × Multiset Str) : Prop where
  warm : endpoint.startupType = "warm".toList ↔ endpoint.replicaName ∈ handled.1
  cold : endpoint.startupType = "cold".toList ↔ endpoint.replicaName ∈ handled.2
  header : asksCold = true → endpoint.replicaName ∈ handled.2

/-- The section returns an idle replica to an invocation that does not ask for a cold start or is
not of a hybrid function; where it creates a replica, it obtains what it is after. -/
def RequestPc.keepsStartupType (req : Request) (w : World) (e : Env) : RequestPc → Bool
  | .idle fn => !req.cold || decide (fn.containerType ≠ hybrid)
  | pc => pc.obtains w e

/-! ### The stores -/

section Stores

variable {w w' : World}

/-- From a store to itself nothing is handled. -/
@[simp] lemma World.handled_self (w : World) : w.handled w = 0 := by
  rw [World.handled, tsub_self, tsub_self]
  rfl

/-- Where the idle pools stay as they are, only starts are handled. -/
lemma World.handled_eq (hidle : w'.idleNames = w.idleNames) {started : Multiset Str}
    (hrun : w'.runningNames = started + w.runningNames) : w.handled w' = (0, started) := by
  rw [World.handled, hidle, hrun, tsub_self, add_tsub_cancel_right]

/-- Where nothing runs that did not before, nothing at all is. -/
lemma World.handled_eq_zero (hidle : w'.idleNames = w.idleNames)
    (hrun : w'.runningNames = w.runningNames) : w.handled w' = 0 :=
  World.handled_eq hidle (by rw [hrun, zero_add])

/-- What is idle is read off the objects. -/
lemma World.idleNames_congr (h : w'.heap = w.heap) : w'.idleNames = w.idleNames := by
  rw [World.idleNames, World.idleNames, h]

/-- A WASM process that starts. -/
lemma World.runningNames_cons_wasm (p : WasmProc) :
    { w with wasmProcs := p :: w.wasmProcs }.runningNames = {p.name} + w.runningNames := by
  rw [World.runningNames, World.runningNames, List.map_cons, Multiset.singleton_add]
  exact Multiset.coe_eq_coe.mpr List.perm_middle

/-- A write to a function changes the names in the idle pools by those of this function. -/
lemma World.idleNames_setFn {o : Ref} {f : Function} (ho : w.heap[o]? = some f) (f' : Function) :
    (w.setFn o f').idleNames + ↑(f.idleReplicas.stored.map (·.uuid)) =
      w.idleNames + ↑(f'.idleReplicas.stored.map (·.uuid)) :=
  Interleaving.sum_map_set_add (fun f => (↑(f.idleReplicas.stored.map (·.uuid)) : Multiset Str))
    f' ho

/-- A write that keeps the idle pool. -/
lemma World.idleNames_setFn_eq {o : Ref} {f f' : Function} (ho : w.heap[o]? = some f)
    (h : f'.idleReplicas = f.idleReplicas) : (w.setFn o f').idleNames = w.idleNames := by
  have heq := World.idleNames_setFn ho f'
  rw [h] at heq
  exact add_right_cancel heq

/-- `GetIdleReplica` takes one replica out of an idle pool. -/
lemma World.handled_takeIdle {o : Ref} {f f' : Function} {replica : Replica}
    (ho : w.heap[o]? = some f) (htake : f.takeIdle = some (replica, f')) :
    w.handled (w.setFn o f') = ({replica.uuid}, 0) := by
  have hst := (Function.takeIdle_spec htake).1
  have heq := World.idleNames_setFn ho f'
  rw [hst, List.map_append, ← Multiset.coe_add, add_comm (Multiset.ofList _), ← add_assoc] at heq
  have hidle : w.idleNames = (w.setFn o f').idleNames + {replica.uuid} :=
    (add_right_cancel heq).symm
  have hrun : (w.setFn o f').runningNames = w.runningNames := rfl
  rw [World.handled, hidle, hrun, add_tsub_cancel_left, tsub_self]

end Stores

/-! ### In `Resolve` -/

/-- The replica that a creation has started. -/
def CreatePc.started : CreatePc → Multiset Str
  | .add replica => {replica.uuid}
  | _ => 0

/-- What an invocation has taken and started while it is in `Resolve`: nothing before it has an
answer from the idle pool, and then the replica that it creates. An invocation that asks for a cold
start only comes to the idle pool for a hybrid function. -/
def RequestPc.Told (req : Request) (handled : Multiset Str × Multiset Str) : RequestPc → Prop
  | .resolve => handled = 0
  | .policy fn => handled = 0 ∧ fn.containerType = hybrid
  | .idle fn => handled = 0 ∧ (req.cold = true → fn.containerType = hybrid)
  | .create _ pc => handled = (0, pc.started)
  | _ => True

/-- A creation takes no idle replica, and starts the one that it is about to add.

**Proof sketch.** Case split on the section. The name of a new replica is counted as started when it
is taken, and no section of a creation takes from the idle replicas. -/
lemma createNext_handled {w w' : World} {call : CreateCall} {pc : CreatePc} {e : Env}
    {result : CreateResult} (h : createNext w call pc e = some (w', result))
    (hactive : call.setActive = true) :
    (∃ pc', result = .running pc' ∧ (0, pc.started) + w.handled w' = (0, pc'.started)) ∨
      (∀ pc', result ≠ .running pc') ∧ w.handled w' = 0 := by
  have hsame : ∀ {w₁ : World}, w₁.heap = w.heap → w₁.runningNames = w.runningNames →
      w.handled w₁ = 0 := fun hheap => World.handled_eq_zero (World.idleNames_congr hheap)
  have hgo : ∀ {w₁ : World} {pc pc' : CreatePc}, w₁.heap = w.heap →
      w₁.runningNames = pc'.started + w.runningNames → pc.started = 0 →
        (0, pc.started) + w.handled w₁ = (0, pc'.started) := by
    intro w₁ pc pc' hheap hrun hpc
    rw [World.handled_eq (World.idleNames_congr hheap) hrun, hpc]
    exact zero_add ((0, pc'.started) : Multiset Str × Multiset Str)
  cases createNext_cases h with
  | nativeSlot => exact .inl ⟨_, rfl, hgo rfl (zero_add _).symm rfl⟩
  | wasmSlot => exact .inl ⟨_, rfl, hgo rfl (zero_add _).symm rfl⟩
  | wait => exact .inl ⟨_, rfl, hgo rfl (zero_add _).symm rfl⟩
  | nativeLookup => exact .inl ⟨_, rfl, hgo rfl (zero_add _).symm rfl⟩
  | wasmLookup => exact .inl ⟨_, rfl, hgo rfl (zero_add _).symm rfl⟩
  | storage => exact .inl ⟨_, rfl, hgo rfl (zero_add _).symm rfl⟩
  | net => exact .inl ⟨_, rfl, hgo rfl (zero_add _).symm rfl⟩
  | built => exact .inl ⟨_, rfl, hgo rfl rfl rfl⟩
  | started => exact .inl ⟨_, rfl, hgo rfl (World.runningNames_cons_wasm _) rfl⟩
  | addActive hact hf =>
    refine .inr ⟨nofun, World.handled_eq_zero ?_ rfl⟩
    exact World.idleNames_setFn_eq (World.heap_of_fn? hf) rfl
  | noStats hact hf =>
    refine .inr ⟨nofun, World.handled_eq_zero ?_ rfl⟩
    exact World.idleNames_setFn_eq (World.heap_of_fn? hf) rfl
  | addIdle hact =>
    rw [hactive] at hact
    cases hact
  | buildFailed => exact .inr ⟨nofun, hsame rfl rfl⟩
  | _ => exact .inr ⟨nofun, hsame rfl rfl⟩

/-- **A section of `Resolve` keeps what is told of it**, as long as `Resolve` goes on.

**Proof sketch.** Case split on where the request is. Up to the look-up of the pool nothing has been
handed out, and a creation hands out the replica that it has made. -/
lemma resolveNext_told {w w' : World} {req : Request} {pc pc' : RequestPc} {e : Env}
    {handled : Multiset Str × Multiset Str} (h : resolveNext w req pc e = some (w', .running pc'))
    (htold : pc.Told req handled) : pc'.Told req (handled + w.handled w') := by
  have hsame : ∀ {m : Multiset Str × Multiset Str}, m = 0 → m + w.handled w = 0 := by
    rintro m rfl
    rw [World.handled_self, add_zero]
  cases pc with
  | resolve =>
    simp only [resolveNext] at h
    split at h
    · cases h
    split at h
    · cases h
    split at h
    · next hct =>
      cases h
      exact ⟨hsame htold, hct⟩
    split at h
    · cases h
      exact hsame htold
    · next hcold =>
      cases h
      exact ⟨hsame htold, fun hreq => absurd hreq hcold⟩
  | policy fn =>
    obtain ⟨hzero, hct⟩ := htold
    cases hpolicy : w.getInvocationPolicy fn.name with
    | error fault =>
      simp only [resolveNext, hpolicy] at h
      cases h
    | ok policy =>
      simp only [resolveNext, hpolicy] at h
      cases h
      exact ⟨hsame hzero, fun _ => hct⟩
  | idle fn =>
    cases hidle : w.getIdleReplica fn.pool with
    | error fault =>
      simp only [resolveNext, hidle] at h
      cases h
    | ok idle =>
      cases idle with
      | none =>
        simp only [resolveNext, hidle] at h
        cases h
        exact hsame htold.1
      | some p =>
        simp only [resolveNext, hidle] at h
        cases h
  | create fn pc =>
    simp only [resolveNext, Option.map_eq_some_iff] at h
    obtain ⟨⟨w₁, created⟩, hnext, heq⟩ := h
    obtain ⟨rfl, hres⟩ := Prod.mk.inj heq
    have hactive := fn.call_setActive
    have hhandled : handled = (0, pc.started) := htold
    rcases createNext_handled hnext hactive with ⟨pc₁, rfl, hsum⟩ | ⟨hne, -⟩
    · cases hres
      rw [hhandled, hsum]
      rfl
    · cases created with
      | running pc₁ => exact absurd rfl (hne pc₁)
      | returned => cases hres
      | failed =>
        simp only [Resolving.afterCreate] at hres
        split at hres <;> cases hres
      | panicked => cases hres
  | _ => cases h

/-- A creation that returns has started the replica whose name it returns exactly when it has
obtained what it was after.

**Proof sketch.** Case split on where the creation is. One that returns in its last section
returns the replica that it has started; one that has failed returns no replica, and has not
obtained one. -/
lemma createNext_started_iff {w w' : World} {fn : Resolving} {pc : CreatePc} {e : Env}
    {created : CreateResult} {endpoint : Endpoint}
    (h : createNext w fn.call pc e = some (w', created))
    (hret : fn.afterCreate created = .returned endpoint) :
    endpoint.replicaName ∈ pc.started ↔ pc.obtains w fn.call fn.labelled e = true := by
  have hactive := fn.call_setActive
  have hfailed : created = .failed → fn.labelled = true := by
    rintro rfl
    by_contra hlabelled
    simp [Resolving.afterCreate, hlabelled] at hret
  have hrunning : ∀ pc', created ≠ .running pc' := by
    rintro pc' rfl
    cases hret
  have hnone : ∀ {ok : Bool}, ok = false →
      (endpoint.replicaName ∈ (0 : Multiset Str) ↔ ok = true) :=
    fun hok => iff_of_false (Multiset.notMem_zero _) (by rw [hok]; decide)
  cases pc with
  | slot sleepTime =>
    simp only [createNext] at h
    refine hnone ?_
    simp only [CreatePc.obtains]
    cases hslot : (if fn.call.ctrType = wasm then w.addWasmContainerCount
        else w.addContainerCount) with
    | some w₁ =>
      rw [hslot] at h
      cases h
      exact absurd rfl (hrunning _)
    | none =>
      rw [hslot] at h
      dsimp only at h
      split at h
      · cases h
        exact absurd rfl (hrunning _)
      · next hlt =>
        cases h
        simp [hfailed rfl, hlt]
  | lookup =>
    refine hnone ?_
    cases createNext_cases h with
    | missing hf => simp [CreatePc.obtains, hfailed rfl, hf]
    | neither hn hct => simp [CreatePc.obtains, hn, hct]
    | _ => exact absurd rfl (hrunning _)
  | build fnName fnNamespace =>
    refine hnone ?_
    cases createNext_cases h with
    | buildFailed hb => simp [CreatePc.obtains, hfailed rfl, hb]
    | built => exact absurd rfl (hrunning _)
  | storage replicaName imageFn =>
    refine hnone ?_
    cases createNext_cases h with
    | noStorage hf => rcases hf with hf | herr <;> simp [CreatePc.obtains, hfailed rfl, *]
    | storage => exact absurd rfl (hrunning _)
  | net replicaName =>
    refine hnone ?_
    cases createNext_cases h with
    | noNet hnil => simp [CreatePc.obtains, hfailed rfl, World.getNetNS, hnil]
    | net => exact absurd rfl (hrunning _)
  | start replicaName ipInfo =>
    refine hnone ?_
    cases createNext_cases h with
    | startFailed herr => simp [CreatePc.obtains, hfailed rfl, herr]
    | started => exact absurd rfl (hrunning _)
  | add replica =>
    cases createNext_cases h with
    | addActive hact hf hstats =>
      cases hret
      simp [CreatePc.started, CreatePc.obtains, Resolving.endpoint, hf, hstats]
    | noStats => cases hret
    | addIdle hact =>
      rw [hactive] at hact
      cases hact
    | addAbsent => cases hret

/-- **When the result of `Resolve` has the right startup type**, after what has been told of it.

**Proof sketch.** Only the look-up of an idle replica and the end of a creation return. The first
one hands out an idle replica (`World.handled_takeIdle`), which is right unless the request has
asked for a cold start; the second one hands out a new replica, if any. -/
lemma resolveNext_startupType_iff {w w' : World} {req : Request} {pc : RequestPc} {e : Env}
    {handled : Multiset Str × Multiset Str} {endpoint : Endpoint}
    (h : resolveNext w req pc e = some (w', .returned endpoint)) (htold : pc.Told req handled) :
    endpoint.StartupTypeRight req.cold (handled + w.handled w') ↔
      pc.keepsStartupType req w e = true := by
  cases pc with
  | resolve =>
    simp only [resolveNext] at h
    split at h
    · cases h
    split at h
    · cases h
    split at h
    · cases h
    split at h <;> cases h
  | policy fn =>
    simp only [resolveNext] at h
    split at h <;> cases h
  | idle fn =>
    obtain ⟨rfl, hcold⟩ := htold
    cases hf : w.fn? fn.pool with
    | none =>
      simp only [resolveNext, World.getIdleReplica, hf] at h
      cases h
    | some of =>
      obtain ⟨o, f⟩ := of
      cases htake : f.takeIdle with
      | none =>
        simp only [resolveNext, World.getIdleReplica, hf, htake] at h
        cases h
      | some rf =>
        obtain ⟨replica, f'⟩ := rf
        simp only [resolveNext, World.getIdleReplica, hf, htake] at h
        cases h
        rw [World.handled_takeIdle (World.heap_of_fn? hf) htake, zero_add,
          RequestPc.keepsStartupType, Bool.or_eq_true, Bool.not_eq_true', decide_eq_true_eq]
        constructor
        · intro hright
          refine .inl (Bool.eq_false_iff.mpr fun hreq => ?_)
          exact Multiset.notMem_zero _ (hright.header hreq)
        · intro hkeeps
          refine ⟨iff_of_true rfl (Multiset.mem_singleton_self _),
            iff_of_false (show "warm".toList ≠ "cold".toList by decide) (Multiset.notMem_zero _),
            fun hreq => ?_⟩
          rcases hkeeps with hreq' | hct
          · rw [hreq'] at hreq
            cases hreq
          · exact absurd (hcold hreq) hct
  | create fn pc =>
    simp only [resolveNext, Option.map_eq_some_iff] at h
    obtain ⟨⟨w₁, created⟩, hnext, heq⟩ := h
    obtain ⟨rfl, hres⟩ := Prod.mk.inj heq
    have hactive := fn.call_setActive
    have hrunning : ∀ pc', created ≠ .running pc' := by
      rintro pc' rfl
      cases hres
    have hcold : endpoint.startupType = "cold".toList := by
      cases created with
      | running => cases hres
      | returned => cases hres; rfl
      | failed =>
        simp only [Resolving.afterCreate] at hres
        split at hres
        · cases hres; rfl
        · cases hres
      | panicked => cases hres
    have hzero : w.handled w₁ = 0 := by
      rcases createNext_handled hnext hactive with ⟨pc', hpc', -⟩ | ⟨-, hzero⟩
      · exact absurd hpc' (hrunning pc')
      · exact hzero
    have hhandled : handled = (0, pc.started) := htold
    have hkeeps : (RequestPc.create fn pc).keepsStartupType req w e =
        pc.obtains w fn.call fn.labelled e := rfl
    rw [hhandled, hzero, add_zero, hkeeps, ← createNext_started_iff hnext hres]
    constructor
    · intro hright
      exact hright.cold.mp hcold
    · intro hmem
      refine ⟨iff_of_false (by rw [hcold]; decide) (Multiset.notMem_zero _),
        iff_of_true hcold hmem, fun _ => hmem⟩
  | _ => cases h

/-! ### Runs -/

/-- What is told of an invocation, as far as it is in `Resolve`. -/
def Thread.Told (req : Request) (t : Thread) (handled : Multiset Str × Multiset Str) : Prop :=
  ∀ pc, t = .request req pc → pc.Told req handled

/-- Out of `Resolve` there is nothing to tell. -/
lemma RequestPc.told_of_not_resolving {req : Request} {handled : Multiset Str × Multiset Str}
    {pc : RequestPc} (h : pc.resolving = false) : pc.Told req handled := by
  cases pc <;> trivial

/-- A section keeps what is told of an invocation, whoever takes it. -/
lemma next_told {w w' : World} {e : Env} {req : Request} {t t' : Thread} {new : List Thread}
    {handled : Multiset Str × Multiset Str} (h : provider.next w t e = some (w', t', new))
    (htold : t.Told req handled) : t'.Told req (handled + t.handles w e) := by
  have hnext : t.next w e = some (w', t', new) := h
  have hhandles : t.handles w e = w.handled w' := by rw [Thread.handles, hnext]
  rw [hhandles]
  rintro pc' rfl
  cases hres : pc'.resolving with
  | false => exact RequestPc.told_of_not_resolving hres
  | true =>
    obtain ⟨pc, rfl, hsec⟩ := resolveNext_of_next h hres
    exact resolveNext_told hsec (htold pc rfl)

/-- **What an invocation has taken and started** while it is in `Resolve`, in any interleaving. -/
theorem resolve_history {c c' : State} {i : ℕ} {req : Request} {events : List Event}
    (hi : c.threads[i]? = some (.request req .resolve))
    (hrun : Runs.run provider.step c events = some c') {pc : RequestPc}
    (hpc : c'.threads[i]? = some (.request req pc)) :
    pc.Told req (Runs.tally provider.step (Interleaving.Config.countOf i fun w e t => t.handles w e)
      c events) := by
  have hstart : (Thread.request req .resolve).Told req 0 := by
    rintro pc hpc
    cases hpc
    rfl
  obtain ⟨t, ht, htold⟩ := Interleaving.history_of_run
    (fun _ _ _ _ _ _ _ hn hH => next_told hn hH) hrun hi hstart
  rw [zero_add] at htold
  exact htold pc (Option.some.inj (ht.symm.trans hpc))

/-- **When `Resolve` reports the right startup type**, on any store and in any interleaving of its
sections with those of other goroutines.

**Proof sketch.** Until it gets an answer from an idle pool an invocation has taken and started
nothing. What it takes then is what is returned as warm; otherwise it has started one replica by the
time it adds it, which is returned as cold. A creation that fails returns no name, and the error is
lost where the function has a label for its container type. `ResolveHybrid` does not look at the
header. -/
theorem startupType_right_iff {c c' : State} {i : ℕ} {req : Request} {events : List Event}
    (hi : c.threads[i]? = some (.request req .resolve))
    (hrun : Runs.run provider.step c events = some c') {pc : RequestPc}
    (hpc : c'.threads[i]? = some (.request req pc)) {e : Env} {w : World} {endpoint : Endpoint}
    (hret : resolveNext c'.shared req pc e = some (w, .returned endpoint)) :
    endpoint.StartupTypeRight req.cold
        (Runs.tally provider.step (Interleaving.Config.countOf i fun w e t => t.handles w e) c
          events + c'.shared.handled w) ↔
      pc.keepsStartupType req c'.shared e = true :=
  resolveNext_startupType_iff hret (resolve_history hi hrun hpc)

/-- Where the invocation stands, if it is this goroutine. -/
def State.pcOf (c : State) (i : ℕ) (req : Request) : Option RequestPc :=
  match c.threads[i]? with
  | some (.request req' pc) =>
    if req'.functionName = req.functionName ∧ req'.cold = req.cold then some pc else none
  | _ => none

/-- Where the invocation stands, it is. -/
lemma State.threads_of_pcOf {c : State} {i : ℕ} {req : Request} {pc : RequestPc}
    (h : c.pcOf i req = some pc) : c.threads[i]? = some (.request req pc) := by
  unfold State.pcOf at h
  split at h
  · next req' pc' hi =>
    split at h
    · next hreq =>
      obtain ⟨name, cold⟩ := req
      obtain ⟨name', cold'⟩ := req'
      obtain ⟨rfl, rfl⟩ := hreq
      rw [hi, Option.some.inj h]
    · cases h
  · cases h

/-- The invocation is before its `Resolve`. -/
def RequestPc.isResolve : RequestPc → Bool
  | .resolve => true
  | _ => false

/-- The invocation is about to begin its `Resolve`. -/
lemma RequestPc.eq_resolve {pc : RequestPc} (h : pc.isResolve = true) : pc = .resolve := by
  unfold RequestPc.isResolve at h
  split at h
  · rfl
  · cases h

/-- The endpoint that is returned with a nil error. -/
def ResolveResult.endpoint? : ResolveResult → Option Endpoint
  | .returned endpoint => some endpoint
  | _ => none

/-- The result is that endpoint. -/
lemma ResolveResult.eq_returned {result : ResolveResult} {endpoint : Endpoint}
    (h : result.endpoint? = some endpoint) : result = .returned endpoint := by
  cases result <;> cases h
  rfl

/-- What a look at a run finds: an invocation that has arrived returns after the events.

**Proof sketch.** Each test that the look consists of gives its part of the statement. -/
lemma exists_returned (c₀ : Option State) (i : ℕ) (req : Request) (es : List Event)
    (P : State → RequestPc → Endpoint → Bool)
    (h : (c₀.any fun (c : State) => (c.pcOf i req).any RequestPc.isResolve &&
      (Runs.run provider.step c es).any fun (c' : State) => (c'.pcOf i req).any fun pc =>
        (resolveNext c'.shared req pc {}).any fun ended =>
          ended.2.endpoint?.any fun endpoint => P c' pc endpoint) = true) :
    ∃ (c c' : State) (pc : RequestPc) (w : World) (endpoint : Endpoint),
      c₀ = some c ∧ c.threads[i]? = some (.request req .resolve) ∧
        Runs.run provider.step c es = some c' ∧ c'.threads[i]? = some (.request req pc) ∧
          resolveNext c'.shared req pc {} = some (w, .returned endpoint) ∧
            P c' pc endpoint = true := by
  obtain ⟨c, hc, hlook⟩ := (Option.any_eq_true _ _).mp h
  obtain ⟨hfirst, hlook⟩ := Bool.and_eq_true_iff.mp hlook
  obtain ⟨_, hi, hpc⟩ := (Option.any_eq_true _ _).mp hfirst
  obtain rfl := RequestPc.eq_resolve hpc
  obtain ⟨c', hc', hlook⟩ := (Option.any_eq_true _ _).mp hlook
  obtain ⟨pc, hpc, hlook⟩ := (Option.any_eq_true _ _).mp hlook
  obtain ⟨⟨w, result⟩, hret, hlook⟩ := (Option.any_eq_true _ _).mp hlook
  obtain ⟨endpoint, hresult, hP⟩ := (Option.any_eq_true _ _).mp hlook
  obtain rfl := ResolveResult.eq_returned hresult
  exact ⟨c, c', pc, w, endpoint, hc, State.threads_of_pcOf hi, hc', State.threads_of_pcOf hpc,
    hret, hP⟩

/-- `f` is deployed, and an invocation of it arrives as goroutine 1. -/
def invocationOfF : List Event :=
  deployF nativeLabels ++ [.arrive (.request { functionName := "f".toList } .resolve)]

/-- The invocation is served by the replica that it creates, and told so.

**Proof sketch.** The run is that of the small provider, in which the invocation creates its
replica; check the condition in it. -/
theorem startupType_right_iff_invokeF :
    ∃ (c c' : State) (req : Request) (pc : RequestPc) (w : World) (endpoint : Endpoint),
      smallRun invocationOfF = some c ∧
        Runs.run provider.step c (sections 1 5 { uuid := "1".toList }) = some c' ∧
          c'.threads[1]? = some (.request req pc) ∧
            resolveNext c'.shared req pc {} = some (w, .returned endpoint) ∧
              endpoint.StartupTypeRight req.cold
                (Runs.tally provider.step
                  (Interleaving.Config.countOf 1 fun w e t => t.handles w e) c
                  (sections 1 5 { uuid := "1".toList }) + c'.shared.handled w) := by
  obtain ⟨c, c', pc, w, endpoint, hc, hi, hc', hpc, hret, hkeeps⟩ :=
    exists_returned (smallRun invocationOfF) 1 { functionName := "f".toList }
      (sections 1 5 { uuid := "1".toList })
      (fun c' pc _ => pc.keepsStartupType { functionName := "f".toList } c'.shared {})
      (by decide +kernel)
  exact ⟨c, c', _, pc, w, endpoint, hc, hc', hpc, hret,
    (startupType_right_iff hi hc' hpc hret).mpr hkeeps⟩

/-- The function `f-n` has an idle replica, and an invocation of the hybrid function `f` that asks
for a cold start arrives as goroutine 4. -/
def coldInvocationOfHybrid : List Event :=
  deployHybrid ++
    .arrive (.request { functionName := "f-n".toList } .resolve) ::
      sections 3 12 { uuid := "1".toList } ++
    [.arrive (.request { functionName := "f".toList, cold := true } .resolve)]

/-- The invocation is served by the idle replica of `f-n`.

**Proof sketch.** The run is evaluated; in its last section the idle replica is found, so that
`resolveNext_startupType_iff` decides against the request for a cold start. -/
theorem not_startupType_right_hybrid :
    ∃ (c c' : State) (req : Request) (pc : RequestPc) (w : World) (endpoint : Endpoint),
      smallRun coldInvocationOfHybrid = some c ∧
        c.threads[4]? = some (.request req .resolve) ∧ req.cold = true ∧
          Runs.run provider.step c (sections 4 2) = some c' ∧
            c'.threads[4]? = some (.request req pc) ∧
              resolveNext c'.shared req pc {} = some (w, .returned endpoint) ∧
                endpoint.startupType = "warm".toList ∧
                  ¬ endpoint.StartupTypeRight req.cold
                    (Runs.tally provider.step
                      (Interleaving.Config.countOf 4 fun w e t => t.handles w e) c
                      (sections 4 2) + c'.shared.handled w) := by
  obtain ⟨c, c', pc, w, endpoint, hc, hi, hc', hpc, hret, hlook⟩ :=
    exists_returned (smallRun coldInvocationOfHybrid) 4
      { functionName := "f".toList, cold := true } (sections 4 2)
      (fun c' pc endpoint =>
        !pc.keepsStartupType { functionName := "f".toList, cold := true } c'.shared {} &&
          decide (endpoint.startupType = "warm".toList))
      (by decide +kernel)
  obtain ⟨hkeeps, hwarm⟩ := Bool.and_eq_true_iff.mp hlook
  refine ⟨c, c', _, pc, w, endpoint, hc, hi, rfl, hc', hpc, hret, of_decide_eq_true hwarm, ?_⟩
  rw [resolveNext_startupType_iff hret (resolve_history hi hc' hpc)]
  simpa using hkeeps

end Fecore
