import Mathlib.Tactic.Common
import Fecore.Handlers.Isolation
import Fecore.Handlers.SecretMounts
import Fecore.Handlers.StoredFunctions

set_option relaxedAutoImplicit false
set_option autoImplicit false

/-!
# The status of a deployed function

A deploy request is copied into a `Function` by `deploy`, and the function into a `FunctionStatus`
by the handler that `MakeReadHandler` makes. Between the two, only the replicas and the policy of
the function change.

## Main definitions

* `Fecore.Function.settings` — what a deployment sets of a function.
* `Fecore.LimitedBody`, `Fecore.LimitedBody.CarriedBy` — a deploy request with its limits, and the
  statuses that carry what it asks for.
* `Fecore.DeployRead` — a run in which a request deploys its function, and a list that is read
  while this function is deployed.

## Main results

* `Fecore.section_settings` — a section keeps the settings of every object.
* `Fecore.deploysAt_settings` — the settings of the object that a deploy request has put.
* `Fecore.deployRead_carries_iff` — the requests whose status carries them.

## Design

`deploy` reads the memory limit of the request into `fn.memoryLimit` and writes 50000000 over it in
a later statement, so the limit is no part of `FunctionDeployment`. A `LimitedBody` has it, since
the status is compared with the request.
-/

namespace Fecore

open World (SameSpecs)

/-! ### What a run keeps of a function -/

/-- The function without its replicas and its policy. -/
def Function.settings (f : Function) : Function := { f.spec with policy := {} }

/-- What keeps a function up to its replicas keeps its settings. -/
lemma World.SameSpecs.settings {w w' : World} (h : SameSpecs w w') {o : Ref} {f : Function}
    (hf : w.heap[o]? = some f) : ∃ f', w'.heap[o]? = some f' ∧ f'.settings = f.settings := by
  have hspec := h.specs o
  rw [hf, Option.map_some, Option.map_eq_some_iff] at hspec
  obtain ⟨f', hf', hspec⟩ := hspec
  exact ⟨f', hf', by rw [Function.settings, Function.settings, hspec]⟩

/-- **One section keeps the settings of every object.**

**Proof sketch.** Case split on the section. Those of invocations, creations and sweeps keep all
specifications (`SameSpecs.settings`); a deployment appends an object, and a change of policy keeps
the settings. -/
lemma section_settings {w w' : World} {e : Env} {t t' : Thread} {new : List Thread}
    (hsec : Section w e t w' t' new) {o : Ref} {f : Function} (hf : w.heap[o]? = some f) :
    ∃ f', w'.heap[o]? = some f' ∧ f'.settings = f.settings := by
  cases hsec with
  | request hsec => exact (requestSection_sameSpecs hsec).settings hf
  | spawn hsec => exact (createSection_sameSpecs hsec).settings hf
  | sweep hsec => exact (sweepSection_sameSpecs hsec).settings hf
  | deleteAll hdel =>
    exact (SameSpecs.of_sameStore (World.sameStore_of_deleteAllReplicas hdel)).settings hf
  | deleteAllFault hdel =>
    exact (SameSpecs.of_sameStore (World.sameStore_of_deleteAllReplicas hdel)).settings hf
  | insert hdeploy hins =>
    obtain ⟨-, rows, rfl⟩ := World.insertFunction_eq hins
    exact ⟨f, hf, rfl⟩
  | map =>
    have hlt : o < w.heap.length := (List.getElem?_eq_some_iff.mp hf).1
    exact ⟨f, by rw [World.putFunction, List.getElem?_append_left hlt, hf], rfl⟩
  | @policy fn updated o' f' hf' =>
    have hsettings : { f' with policy := World.updatedPolicy f'.policy updated }.settings =
        f'.settings := rfl
    have hmap := World.map_setFn Function.settings (World.heap_of_fn? hf') hsettings o
    rw [hf, Option.map_some, Option.map_eq_some_iff] at hmap
    exact hmap
  | _ => exact ⟨f, hf, rfl⟩

/-- Every run keeps the settings of every object. -/
lemma run_settings {c c' : State} {events : List Event} {o : Ref} {s : Function}
    (h : ∃ f, c.shared.heap[o]? = some f ∧ f.settings = s)
    (hrun : Runs.run provider.step c events = some c') :
    ∃ f, c'.shared.heap[o]? = some f ∧ f.settings = s := by
  refine Runs.invariant (I := fun c : State => ∃ f, c.shared.heap[o]? = some f ∧ f.settings = s)
    ?_ h hrun
  rintro c m c' ⟨f, hf, hs⟩ hstep
  obtain ⟨t, rfl, -, rfl⟩ | ⟨i, e, t, w', t', new, rfl, ht, hn, rfl⟩ :=
    Interleaving.Program.step_cases hstep
  · exact ⟨f, hf, hs⟩
  · obtain ⟨f', hf', hs'⟩ := section_settings (next_cases hn) hf
    exact ⟨f', hf', hs'.trans hs⟩

/-- Goroutine `i` is a deploy request that has not put its function yet, or has returned. -/
def State.Deploying (c : State) (i : ℕ) (req : FunctionDeployment) : Prop :=
  c.threads[i]? = some (.deploy (.insert req)) ∨
    (∃ fn e, deploy req e = some fn ∧ c.threads[i]? = some (.deploy (.map fn))) ∨
    c.threads[i]? = some .returned

/-- The goroutine of a deploy request goes on until it puts its function.

**Proof sketch.** Case split on whose move it is. The goroutine itself is refused, or inserts its
rows and is about to put its function; a move of another leaves it where it is. -/
lemma State.Deploying.step {c c' : State} {i : ℕ} {req : FunctionDeployment} {m : Event}
    (h : c.Deploying i req) (hstep : provider.step c m = some c') (hm : c.puts i m = false) :
    c'.Deploying i req := by
  by_cases hi : ∃ e, m = .step i e
  · obtain ⟨e, rfl⟩ := hi
    obtain ht | ⟨fn, e', -, ht⟩ | ht := h
    · obtain ⟨w', t', new, hn, rfl⟩ := Interleaving.step_of_getElem? hstep ht
      have hi' := Interleaving.getElem?_section t' new ht
      cases next_cases hn with
      | refused => exact .inr (.inr hi')
      | @insert _ fn _ hdeploy hins => exact .inr (.inl ⟨fn, e, hdeploy, hi'⟩)
    · simp [puts, ht] at hm
    · obtain ⟨w', t', new, hn, rfl⟩ := Interleaving.step_of_getElem? hstep ht
      cases hn
  · have hkeep : ∀ {t}, c.threads[i]? = some t → c'.threads[i]? = some t :=
      fun ht => Interleaving.getElem?_of_step hstep (fun e he => hi ⟨e, he⟩) ht
    obtain ht | ⟨fn, e, hdeploy, ht⟩ | ht := h
    · exact .inl (hkeep ht)
    · exact .inr (.inl ⟨fn, e, hdeploy, hkeep ht⟩)
    · exact .inr (.inr (hkeep ht))

/-- **The settings of the object that a deploy request has put** are those that `deploy` gave it, at
the end of the run.

**Proof sketch.** Induction on the events: the goroutine of the request stays a deploying one
(`State.Deploying.step`) up to the event that puts its function, and from there on the settings of
the object are kept (`run_settings`). -/
lemma deploysAt_settings {req : FunctionDeployment} {i : ℕ} {o : Ref} {c' : State} :
    ∀ {c : State} {events : List Event}, c.Deploying i req → c.deploysAt i events = some o →
      Runs.run provider.step c events = some c' →
      ∃ f fn e, c'.shared.heap[o]? = some f ∧ deploy req e = some fn ∧ f.settings = fn.settings
  | _, [], _, hput, _ => by simp [State.deploysAt] at hput
  | c, m :: events, hdep, hput, hrun => by
    obtain ⟨c₁, hstep, hrun⟩ := Runs.run_cons_eq_some.mp hrun
    cases hm : c.puts i m with
    | false =>
      rw [State.deploysAt, hm, if_neg Bool.false_ne_true, hstep, Option.bind_some] at hput
      exact deploysAt_settings (hdep.step hstep hm) hput hrun
    | true =>
      rw [State.deploysAt, if_pos hm] at hput
      obtain rfl := Option.some.inj hput
      obtain ⟨e, rfl⟩ : ∃ e, m = .step i e := by
        cases m with
        | arrive t => simp [State.puts] at hm
        | step j e =>
          unfold State.puts at hm
          dsimp only at hm
          split at hm
          · exact ⟨e, by rw [of_decide_eq_true hm]⟩
          · cases hm
      obtain ht | ⟨fn, e', hdeploy, ht⟩ | ht := hdep
      · simp [State.puts, ht] at hm
      · obtain ⟨w', t', new, hn, rfl⟩ := Interleaving.step_of_getElem? hstep ht
        cases next_cases hn with
        | map =>
          have hnew : (c.shared.putFunction fn).heap[c.shared.heap.length]? = some fn := by
            simp [World.putFunction]
          obtain ⟨f, hf, hs⟩ := run_settings ⟨fn, hnew, rfl⟩ hrun
          exact ⟨f, fn, e', hf, hdeploy, hs⟩
      · simp [State.puts, ht] at hm

/-! ### What `deploy` sets -/

/-- The settings of a function that is deployed from a body without annotations or with some.

**Proof sketch.** Split the cases of `deploy`, by the labels: each of them makes the function with
the same settings. -/
lemma deploy_settings {secretMountPath : Str} {body : DeployBody} {e : Env} {fn : Function}
    (h : deploy (body.deployment secretMountPath) e = some fn) :
    buildLabels (body.deployment secretMountPath) = some fn.labels ∧ fn.annotations = ∅ ∧
      fn.secrets = [] ∧ fn.envVars = body.envVars ∧ fn.envProcess = body.envProcess ∧
      fn.memoryLimit = 50000000 ∧ fn.name = body.service := by
  unfold deploy at h
  split at h
  · cases h
  next labels hlabels =>
    dsimp only at h
    rw [hlabels]
    split at h
    · split at h <;> cases h
      exact ⟨rfl, rfl, rfl, rfl, rfl, rfl, rfl⟩
    split at h
    · split at h <;> cases h
      exact ⟨rfl, rfl, rfl, rfl, rfl, rfl, rfl⟩
    split at h <;> cases h
    exact ⟨rfl, rfl, rfl, rfl, rfl, rfl, rfl⟩

/-- Without annotations the labels are those of the request. -/
lemma buildLabels_of_empty {req : FunctionDeployment} (h : req.annotations.getD ∅ = ∅) :
    buildLabels req = some (req.labels.getD ∅) := by
  rw [buildLabels, h]
  rfl

/-! ### Requests and statuses -/

/-- `types.FunctionResources`, as far as it is read. -/
structure FunctionResources where
  memory : Str := []

/-- A deploy request with its limits. -/
structure LimitedBody extends DeployBody where
  limits : Option FunctionResources := none

/-- The memory limit that the request asks for. -/
def LimitedBody.memory (req : LimitedBody) : Option Str :=
  match req.limits with
  | some limits => if 0 < limits.memory.length then some limits.memory else none
  | none => none

/-- **The status carries what the request asks for**, where `ParseQuantity` gives the values of the
valid quantities. -/
structure LimitedBody.CarriedBy (parseQuantity : Str → Option ℤ) (req : LimitedBody)
    (status : FunctionStatus) : Prop where
  labels : SameEntries req.labels status.labels
  annotations : SameEntries req.annotations status.annotations
  envVars : SameEntries (some req.envVars) status.envVars
  envProcess : status.envProcess = req.envProcess
  secrets : status.secrets = req.secrets
  unlimited : req.memory = none → status.limits = none
  limited : ∀ memory v, req.memory = some memory → parseQuantity memory = some v →
    status.limits = some v

/-- The requests that the status of their function carries: no annotations, no secrets, and a memory
limit that is no valid quantity or has the value that `deploy` sets. -/
def LimitedBody.Carried (parseQuantity : Str → Option ℤ) (req : LimitedBody) : Prop :=
  req.annotations.getD ∅ = ∅ ∧ req.secrets = [] ∧
    ∃ memory, req.memory = some memory ∧ ∀ v, parseQuantity memory = some v → v = 50000000

/-- The status of an object with the settings that `deploy` makes of a request.

**Proof sketch.** The settings are those of the request where `deploy` takes them over
(`deploy_settings`); secrets, annotations and the limit are constants, so a request is carried when
it asks for these. -/
lemma functionStatus_carries_iff {secretMountPath : Str} {body : LimitedBody} {e : Env}
    {f fn : Function} (parseQuantity : Str → Option ℤ)
    (hdeploy : deploy (body.deployment secretMountPath) e = some fn)
    (hset : f.settings = fn.settings) :
    body.CarriedBy parseQuantity (functionStatus f) ↔ body.Carried parseQuantity := by
  obtain ⟨hlabels, hann, hsec, henv, hproc, hmem, -⟩ := deploy_settings hdeploy
  have hstatus : functionStatus f = functionStatus fn.settings := by
    rw [← hset]
    rfl
  have hlimits : (functionStatus f).limits = some 50000000 := by
    have hne : (50000000 : ℤ) ≠ 0 := by decide
    rw [hstatus]
    simp only [functionStatus, Function.settings, Function.spec, hmem, if_neg hne]
  have hannf : (functionStatus f).annotations = ∅ := by rw [hstatus, ← hann]; rfl
  have hsecf : (functionStatus f).secrets = [] := by rw [hstatus, ← hsec]; rfl
  constructor
  · intro h
    have hempty : body.annotations.getD ∅ = ∅ := by
      have hsame := h.annotations
      rw [hannf] at hsame
      exact sameEntries_empty_iff.mp hsame
    refine ⟨hempty, by rw [← h.secrets, hsecf], ?_⟩
    cases hmemory : body.memory with
    | none =>
      have hnone := h.unlimited hmemory
      rw [hlimits] at hnone
      cases hnone
    | some memory =>
      refine ⟨memory, rfl, fun v hv => ?_⟩
      have hsome := h.limited memory v hmemory hv
      rw [hlimits] at hsome
      exact (Option.some.inj hsome).symm
  · rintro ⟨hempty, hsecrets, memory, hmemory, hv⟩
    have hall : fn.labels = body.labels.getD ∅ := by
      have hbuilt : buildLabels (body.deployment secretMountPath) = some (body.labels.getD ∅) :=
        buildLabels_of_empty hempty
      rw [hlabels] at hbuilt
      exact Option.some.inj hbuilt
    refine
      { labels := fun k => ?_
        annotations := ?_
        envVars := fun k => ?_
        envProcess := ?_
        secrets := by rw [hsecf, hsecrets]
        unlimited := fun hnone => ?_
        limited := fun memory' v hmemory' hv' => ?_ }
    · rw [hstatus, ← hall]
      rfl
    · rw [hannf]
      exact sameEntries_empty_iff.mpr hempty
    · rw [hstatus, Option.getD_some, ← henv]
      rfl
    · rw [hstatus, ← hproc]
      rfl
    · rw [hmemory] at hnone
      cases hnone
    · obtain rfl : memory = memory' := Option.some.inj (hmemory.symm.trans hmemory')
      rw [hlimits, hv v hv']

/-! ### A request and a list that is read later -/

/-- A run in which a request is accepted and deploys its function, and a list of the functions that
is read while the object of this deployment is the one deployed under its name. -/
structure DeployRead (secretMountPath : Str) where
  start : State
  reachable : Reachable start
  call : DeployCall
  body : LimitedBody
  body_eq : call.body = some (.ok body.toDeployBody)
  req : FunctionDeployment
  accepted : deployHandler secretMountPath call = .ok req
  events : List Event
  state : State
  run : Runs.run provider.step start (.arrive (.deploy (.insert req)) :: events) = some state
  o : Ref
  deployed : start.deploysAt start.threads.length (.arrive (.deploy (.insert req)) :: events) =
    some o
  current : state.shared.deployedFunctions.lookup body.service = some o
  q : NamespaceQuery
  statuses : List FunctionStatus
  read : readHandler q state.shared = .ok statuses

/-- The status under the name of a deployed function is that of its object.

**Proof sketch.** A status that is listed is that of an object, which is deployed under its own
name; so it is the object that the name leads to. -/
lemma status_of_readHandler {w : World} (hw : w.WellFormed) {q : NamespaceQuery}
    {statuses : List FunctionStatus} (h : readHandler q w = .ok statuses) {n : Str} {o : Ref}
    {f : Function} (hf : w.fn? n = some (o, f)) {status : FunctionStatus} :
    (status ∈ statuses ∧ status.name = n) ↔ status = functionStatus f := by
  unfold readHandler at h
  split at h
  · cases h
  obtain rfl := Except.ok.inj h
  constructor
  · rintro ⟨hmem, hname⟩
    obtain ⟨g, hg, rfl⟩ := List.mem_map.mp hmem
    obtain ⟨⟨m, o'⟩, hentry, hheap⟩ := List.mem_filterMap.mp hg
    have hlookup : w.deployedFunctions.lookup m = some o' := AList.mem_lookup_iff.mpr hentry
    have hg' : w.fn? m = some (o', g) := World.fn?_eq_some.mpr ⟨hlookup, hheap⟩
    -- the name of an object is the one it is deployed under
    obtain rfl : m = n := (hw.named m o' g hg').symm.trans hname
    rw [hf] at hg'
    cases hg'
    rfl
  · rintro rfl
    exact ⟨functionStatus_mem hf, hw.named n o f hf⟩

/-- **When the status of a deployed function carries the request**: exactly when the request has no
annotations and no secrets, and asks for a memory limit that is no valid quantity or the one that
`deploy` always sets.

**Proof sketch.** The object has the settings that `deploy` made of the request
(`deploysAt_settings`), whatever happened in between. The annotations and the secrets of the request
are copied nowhere, and annotations become labels; the memory limit is overwritten. Everything else
is copied twice. -/
theorem deployRead_carries_iff {secretMountPath : Str} (d : DeployRead secretMountPath)
    (parseQuantity : Str → Option ℤ) :
    (∃ status ∈ d.statuses, status.name = d.body.service ∧
        d.body.CarriedBy parseQuantity status) ↔
      d.body.annotations.getD ∅ = ∅ ∧ d.body.secrets = [] ∧
        ∃ memory, d.body.memory = some memory ∧
          ∀ v, parseQuantity memory = some v → v = 50000000 := by
  obtain ⟨body, hbody, -, -, hreq⟩ := deployHandler_eq_ok.mp d.accepted
  obtain rfl : body = d.body.toDeployBody := by
    rw [d.body_eq] at hbody
    exact (Except.ok.inj (Option.some.inj hbody)).symm
  obtain ⟨c₁, hstep, hrun⟩ := Runs.run_cons_eq_some.mp d.run
  obtain ⟨-, rfl⟩ := Interleaving.Program.step_arrive.mp hstep
  have hput := d.deployed
  rw [State.deploysAt, State.puts, if_neg Bool.false_ne_true, hstep, Option.bind_some] at hput
  obtain ⟨f, fn, e, hheap, hdeploy, hset⟩ :=
    deploysAt_settings (.inl List.getElem?_concat_length) hput hrun
  have hf : d.state.shared.fn? d.body.service = some (d.o, f) :=
    World.fn?_eq_some.mpr ⟨d.current, hheap⟩
  rw [hreq] at hdeploy
  have hiff := functionStatus_carries_iff parseQuantity hdeploy hset
  have hw := (d.reachable.run d.run).wellFormed.1
  constructor
  · rintro ⟨status, hmem, hname, hcarried⟩
    obtain rfl := (status_of_readHandler hw d.read hf).mp ⟨hmem, hname⟩
    exact hiff.mp hcarried
  · intro hcond
    obtain ⟨hmem, hname⟩ := (status_of_readHandler hw d.read hf).mpr rfl
    exact ⟨_, hmem, hname, hiff.mpr hcond⟩

/-- A request for a native function `f` with one annotation. -/
def topicBody : LimitedBody :=
  { service := "f".toList
    labels := some (AList.singleton ctrTypeLabel native)
    annotations := some (AList.singleton "topic".toList "events".toList) }

/-- The function is deployed. -/
def topicEvents : List Event :=
  .arrive (.deploy (.insert (topicBody.deployment secretsOfFecore))) :: sections 0 3

/-- The state after the run on the small node, and the list that is read there. -/
def topicRun : Option (State × List FunctionStatus) :=
  (smallRun topicEvents).bind fun c =>
    match readHandler {} c.shared with
    | .ok statuses => some (c, statuses)
    | .error _ => none

/-- The run comes to its end, and the list can be read there. -/
lemma isSome_topicRun : topicRun.isSome = true := by decide +kernel

/-- The run and the list are what their names say. -/
lemma topicRun_spec {c : State} {statuses : List FunctionStatus}
    (h : topicRun = some (c, statuses)) :
    smallRun topicEvents = some c ∧ readHandler {} c.shared = .ok statuses := by
  obtain ⟨c', hrun, hread⟩ := Option.bind_eq_some_iff.mp h
  split at hread
  · next hok =>
    cases hread
    exact ⟨hrun, hok⟩
  · cases hread

/-- The request is accepted, and the list is read after it. -/
def topicRead : DeployRead secretsOfFecore :=
  let r := topicRun.get isSome_topicRun
  have hr := topicRun_spec (Option.some_get isSome_topicRun).symm
  { start := ⟨smallWorld, []⟩
    reachable := reachable_small
    call := { body := some (.ok topicBody.toDeployBody) }
    body := topicBody
    body_eq := rfl
    req := topicBody.deployment secretsOfFecore
    accepted := deployHandler_eq_ok.mpr ⟨topicBody.toDeployBody, rfl, rfl, by decide, rfl⟩
    events := sections 0 3
    state := r.1
    run := hr.1
    o := 0
    deployed := by decide +kernel
    current := by
      have h : (topicRun.get isSome_topicRun).1.shared.deployedFunctions.lookup "f".toList =
          some 0 := by decide +kernel
      exact h
    q := {}
    statuses := r.2
    read := hr.2 }

/-- The annotation is not in the status. -/
theorem not_deployRead_carries_topic :
    ¬ ∀ d : DeployRead secretsOfFecore, ∃ status ∈ d.statuses, status.name = d.body.service ∧
      d.body.CarriedBy (fun _ => none) status := by
  intro h
  obtain ⟨status, hmem, -, hcarried⟩ := h topicRead
  have hall : topicRead.statuses.all fun status =>
      status.annotations.lookup "topic".toList = none := by decide +kernel
  have hnone := of_decide_eq_true (List.all_eq_true.mp hall status hmem)
  have hsame := hcarried.annotations "topic".toList
  rw [hnone] at hsame
  exact absurd hsame (by decide +kernel)

end Fecore
