import Mathlib.Tactic.Common
import Fecore.Concurrency.Writes
import Fecore.Handlers.Hybrids
import Fecore.Handlers.Ownership
import Fecore.Handlers.Policies
import Fecore.Handlers.SameFunction
import Fecore.Handlers.StartupTypes

set_option relaxedAutoImplicit false
set_option autoImplicit false

/-!
# The replicas that a hybrid function keeps

When `EvalColdStartPolicy` of `pkg/provider/handlers/policy.go` chooses for the cold starts of a
hybrid function the container type of its warm starts, it also sets `keepaliveColdStartCtr`, so that
the replicas of cold starts serve the warm starts that follow. `UpdateReplicaStatusInactive` of
`pkg/provider/handlers/function_store.go` is where a replica is kept or not.

## Main definitions

* `Fecore.State.happens` — the provider with the evaluations of the policies.
* `Fecore.State.EvalSet` — `EvalColdStartPolicy` was the last to set the policy.
* `Fecore.World.KeptWarm` — the replica is idle in the sandbox of the warm starts, and serves the
  next invocation.
* `Fecore.World.kills` — `UpdateReplicaStatusInactive` deletes the replica.

## Main results

* `Fecore.creation_of_run` — what an invocation of a hybrid function creates.
* `Fecore.section_knows` — what a name stands for does not change.
* `Fecore.keptWarm_iff` — when a replica of a cold start is kept.
-/

namespace Fecore

open Runs (run Throughout)

/-! ### The provider with the evaluations -/

/-- A goroutine arrives or takes its next section, or a policy is written. -/
abbrev Happening := Event ⊕ PolicyCall

/-- One step of the provider with the evaluations of the policies. -/
def State.happens (c : State) (m : Happening) : Option State :=
  provider.stepWith World.policyStep c m

/-- The states that a run of the provider with the evaluations reaches. -/
def Reached (c : State) : Prop :=
  ∃ cfg storage now w ms, startProvider cfg storage now = .ok w ∧
    run State.happens ⟨w, []⟩ ms = some c

/-- The state is well formed, and every name is in at most one place. -/
def State.Sound (c : State) : Prop := State.WellFormed c ∧ ∀ u, c.places false u ≤ 1

/-- A write of a policy moves no replica. -/
lemma World.policyStep_places {w w' : World} {call : PolicyCall}
    (hstep : w.policyStep call = some w') (u : Str) : w'.places false u = w.places false u := by
  obtain ⟨rfl, -⟩ | ⟨o, f, policy, hf, -, rfl⟩ := World.policyStep_cases hstep
  · rfl
  · have hset := World.places_setFn (World.heap_of_fn? hf) false u { f with policy := policy }
    have hsame : { f with policy := policy }.places u = f.places u := rfl
    omega

/-- A step keeps the state well formed, and every name in one place. -/
lemma happens_sound {c c' : State} {m : Happening} (hc : c.Sound)
    (hstep : c.happens m = some c') : c'.Sound := by
  refine Interleaving.stepWith_keeps (I := State.Sound) ?_ ?_ hstep hc
  · intro m c' hstep hc
    exact ⟨step_wellFormed hc.1 hstep, fun u => (step_places_le hstep u).trans (hc.2 u)⟩
  · intro call w hw hc
    refine ⟨⟨World.policyStep_wellFormed hc.1.1 hw, hc.1.2⟩, fun u => ?_⟩
    have hplaces : State.places false u ⟨w, c.threads⟩ = c.places false u := by
      simp only [State.places, Interleaving.Config.ledger, World.policyStep_places hw u]
    exact hplaces.le.trans (hc.2 u)

/-- A run keeps the state well formed, and every name in one place. -/
lemma Reached.sound {c : State} (h : Reached c) : c.Sound := by
  obtain ⟨cfg, storage, now, w, ms, hstart, hrun⟩ := h
  refine Runs.invariant (fun _ _ _ hI hs => happens_sound hI hs) ?_ hrun
  have hfresh := (startProvider_fresh hstart).1
  exact ⟨⟨hfresh.wellFormed, fun t ht => absurd ht List.not_mem_nil⟩, hfresh.places_le_one false⟩

/-- A run without evaluations is one with them. -/
lemma reached_of_reachable {c : State} (h : Reachable c) : Reached c := by
  obtain ⟨cfg, storage, now, w, events, hstart, hrun⟩ := h
  refine ⟨cfg, storage, now, w, events.map .inl, hstart, ?_⟩
  have hsame : ∀ {c c' : State} {events : List Event}, run provider.step c events = some c' →
      run State.happens c (events.map .inl) = some c' := by
    intro c c' events
    induction events generalizing c with
    | nil => exact id
    | cons m ms ih =>
      intro hr
      obtain ⟨c₁, hstep, hr⟩ := Runs.run_cons_eq_some.mp hr
      exact Runs.run_cons_eq_some.mpr ⟨c₁, hstep, ih hr⟩
  exact hsame hrun

/-! ### The policy of a hybrid function -/

/-- What `Resolve` reads about a hybrid function. -/
structure HybridSettings where
  sandboxes : GoMap Str
  policy : Policy

/-- Settings are equal when the sandboxes and the policies are. -/
instance : DecidableEq HybridSettings := fun set set' =>
  decidable_of_iff (set.sandboxes.entries = set'.sandboxes.entries ∧ set.policy = set'.policy)
    ⟨fun h => by
      obtain ⟨hsand, hpolicy⟩ := h
      cases set
      cases set'
      rw [HybridSettings.mk.injEq]
      exact ⟨AList.ext hsand, hpolicy⟩, fun h => by rw [h]; exact ⟨rfl, rfl⟩⟩

/-- The settings of a deployed hybrid function. -/
def World.settings (w : World) (h : Str) : Option HybridSettings :=
  (w.fn? h).bind fun of => if of.2.isHybrid then some ⟨of.2.sandboxes, of.2.policy⟩ else none

/-- The settings of a name are those of the hybrid function that is deployed under it. -/
lemma World.settings_eq_some {w : World} {h : Str} {set : HybridSettings} :
    w.settings h = some set ↔ ∃ o f, w.fn? h = some (o, f) ∧ f.isHybrid = true ∧
      f.sandboxes = set.sandboxes ∧ f.policy = set.policy := by
  simp only [World.settings, Option.bind_eq_some_iff, Prod.exists]
  refine exists_congr fun o => exists_congr fun f => and_congr_right fun _ => ?_
  cases set
  split <;> simp [*]

/-- **`EvalColdStartPolicy` was the last to set the policy** of the function, and these are its
settings. -/
def State.EvalSet (c : State) (h : Str) (set : HybridSettings) : Prop :=
  ∃ (c₀ : State) (functionStats : GoMap FunctionStats) (w : World) (ms : List Happening),
    Reached c₀ ∧ c₀.shared.evalColdStartPolicy functionStats h = .ok w ∧
      Throughout State.happens (fun c => c.shared.settings h = some set) ⟨w, c₀.threads⟩ ms ∧
        run State.happens ⟨w, c₀.threads⟩ ms = some c

/-- Where the container types agree, `EvalColdStartPolicy` sets `keepaliveColdStartCtr`.

**Proof sketch.** Split the cases of the policy's update. Its two writes make the keepalive time 60
where the types agree. -/
lemma evalColdStartPolicy_keepalive {w w' : World} {functionStats : GoMap FunctionStats} {h : Str}
    {set : HybridSettings} (heval : w.evalColdStartPolicy functionStats h = .ok w')
    (hset : w'.settings h = some set)
    (hsame : set.policy.coldStartCtrType = set.policy.warmStartCtrType) :
    set.policy.keepaliveColdStartCtr = 60 := by
  unfold World.evalColdStartPolicy at heval
  split at heval
  · cases heval
  · next o f hf =>
    split at heval
    · cases heval
    · cases heval
      obtain ⟨o', f', hf', -, -, hpolicy⟩ := World.settings_eq_some.mp hset
      rw [World.fn?_setFn_self hf] at hf'
      cases hf'
      rw [← hpolicy] at hsame ⊢
      exact if_pos hsame

/-- What the evaluation has set is still there. -/
lemma State.EvalSet.settings {c : State} {h : Str} {set : HybridSettings} (hset : c.EvalSet h set) :
    c.shared.settings h = some set := by
  obtain ⟨c₀, functionStats, w, ms, -, -, hall, hrun⟩ := hset
  exact hall.of_run hrun

/-- Where cold and warm starts have one container type, it has set `keepaliveColdStartCtr` to 60. -/
lemma State.EvalSet.keepalive {c : State} {h : Str} {set : HybridSettings}
    (hset : c.EvalSet h set)
    (hsame : set.policy.coldStartCtrType = set.policy.warmStartCtrType) :
    set.policy.keepaliveColdStartCtr = 60 := by
  obtain ⟨c₀, functionStats, w, ms, -, heval, hall, -⟩ := hset
  exact evalColdStartPolicy_keepalive heval hall.head hsame

/-- The states in which a policy has been evaluated are states of a run. -/
lemma State.EvalSet.sound {c : State} {h : Str} {set : HybridSettings} (hset : c.EvalSet h set) :
    c.Sound := by
  obtain ⟨c₀, functionStats, w, ms, hc₀, heval, -, hrun⟩ := hset
  refine Runs.invariant (fun _ _ _ hI hs => happens_sound hI hs) ?_ hrun
  have hstep : c₀.happens (.inr (.evalColdStartPolicy functionStats h)) =
      some ⟨w, c₀.threads⟩ := by
    simp only [State.happens, Interleaving.Program.stepWith, World.policyStep, PolicyCall.run,
      heval, Option.map_some]
  exact happens_sound hc₀.sound hstep

/-! ### What an invocation creates -/

/-- What a creation makes: a replica of the function and the container type it was called for. -/
def CreatePc.Makes (call : CreateCall) : CreatePc → Prop
  | .build fnName _ => fnName = call.fname ∧ call.ctrType = native
  | .storage _ _ => call.ctrType = wasm
  | .net _ => call.ctrType = wasm
  | .start _ _ => call.ctrType = wasm
  | .add replica => replica.fname = call.fname ∧ replica.ctrType = call.ctrType
  | _ => True

/-- A creation goes on making what it was called for.

**Proof sketch.** Case split on the section. The look-up finds the function of the call
(`World.WellFormed.named`), and the replica that is built has the name and the type of the call. -/
lemma createSection_makes {w w' : World} {call : CreateCall} {e : Env} {pc pc' : CreatePc}
    {result : CreateResult} (hsec : CreateSection w call e pc w' result) (hw : w.WellFormed)
    (hpc : pc.Makes call) (hres : result = .running pc') : pc'.Makes call := by
  cases hsec with
  | nativeLookup hct hf =>
    cases hres
    exact ⟨hw.named _ _ _ hf, hct⟩
  | wasmLookup hct =>
    cases hres
    exact hct
  | built =>
    cases hres
    exact ⟨hpc.1, hpc.2.symm⟩
  | started =>
    cases hres
    exact ⟨rfl, Eq.symm hpc⟩
  | nativeSlot => cases hres; trivial
  | wasmSlot => cases hres; trivial
  | wait => cases hres; trivial
  | storage => cases hres; exact hpc
  | net => cases hres; exact hpc
  | _ => cases hres

/-- `Resolve` works for the hybrid function with these settings. -/
structure Resolving.WorksFor (fn : Resolving) (set : HybridSettings) : Prop where
  containerType : fn.containerType = hybrid
  sandboxes : fn.sandboxes = set.sandboxes
  policy : fn.policy = set.policy

/-- What an invocation of a hybrid function has read, and what it creates, while it is in
`Resolve`. -/
def RequestPc.Creates (h : Str) (set : HybridSettings) : RequestPc → Prop
  | .resolve => True
  | .policy fn => fn.name = h ∧ { fn with policy := set.policy }.WorksFor set
  | .idle fn => fn.WorksFor set
  | .create fn pc => fn.WorksFor set ∧ pc.Makes fn.call
  | _ => True

/-- A hybrid function has the label `hybrid`. -/
lemma Function.containerType_of_isHybrid {f : Function} (h : f.isHybrid = true) :
    containerType f = hybrid := by
  have hindex : index f.labels ctrTypeLabel = hybrid := of_decide_eq_true h
  unfold containerType
  unfold index at hindex
  cases hlook : f.labels.lookup ctrTypeLabel with
  | none =>
    rw [hlook] at hindex
    cases hindex
  | some val =>
    rw [hlook] at hindex
    obtain rfl : val = hybrid := hindex
    exact if_pos (.inr rfl)

/-- A section of `Resolve` goes by the settings of the function.

**Proof sketch.** Case split on where `Resolve` is. It reads the sandboxes of the function and the
type of its policy, which are the settings, and a creation makes what it was called for
(`createSection_makes`). -/
lemma resolveNext_creates {w w' : World} {req : Request} {pc pc' : RequestPc} {e : Env} {h : Str}
    {set : HybridSettings} (hw : w.WellFormed) (hset : w.settings h = some set)
    (hreq : actualFunctionName req.functionName = h) (hpc : pc.Creates h set)
    (hnext : resolveNext w req pc e = some (w', .running pc')) : pc'.Creates h set := by
  obtain ⟨o, f, hf, hhyb, hsand, hpolicy⟩ := World.settings_eq_some.mp hset
  cases pc with
  | resolve =>
    simp only [resolveNext, hreq, hf, Function.containerType_of_isHybrid hhyb, if_true] at hnext
    split at hnext
    · cases hnext
    · cases hnext
      exact ⟨hw.named _ _ _ hf, rfl, hsand, rfl⟩
  | policy fn =>
    obtain ⟨hname, hfor⟩ := hpc
    simp only [resolveNext, World.getInvocationPolicy, hname, hf] at hnext
    cases hnext
    exact ⟨hfor.containerType, hfor.sandboxes, hpolicy⟩
  | idle fn =>
    simp only [resolveNext] at hnext
    split at hnext <;> cases hnext
    exact ⟨hpc, trivial⟩
  | create fn pc =>
    simp only [resolveNext, Option.map_eq_some_iff] at hnext
    obtain ⟨⟨w₁, result⟩, hcreate, heq⟩ := hnext
    obtain ⟨rfl, hres⟩ := Prod.mk.inj heq
    cases result with
    | running pc₁ =>
      cases hres
      exact ⟨hpc.1, createSection_makes (createNext_cases hcreate) hw hpc.2 rfl⟩
    | failed =>
      simp only [Resolving.afterCreate] at hres
      split at hres <;> cases hres
    | _ => cases hres
  | _ => cases hnext

/-- What is known of an invocation in `Resolve`. -/
def Thread.Creates (req : Request) (h : Str) (set : HybridSettings) (t : Thread) : Prop :=
  ∀ pc, t = .request req pc → pc.Creates h set

/-- Out of `Resolve` an invocation creates nothing. -/
lemma RequestPc.creates_of_not_resolving {pc : RequestPc} {h : Str} {set : HybridSettings}
    (hpc : pc.resolving = false) : pc.Creates h set := by
  cases pc <;> trivial

/-- **What an invocation of a hybrid function creates**, as long as the settings of the function
stay: a replica of the sandbox and of the container type of the cold starts.

**Proof sketch.** The invocation keeps that what it creates agrees with the settings
(`resolveNext_creates`), since the settings stay; so this holds when it comes to the creation, and
the call has the sandbox and the container type of the policy. -/
theorem creation_of_run {c c' : State} (hc : c.Sound) {h : Str} {set : HybridSettings} {i : ℕ}
    {req : Request} (hreq : actualFunctionName req.functionName = h)
    (hi : c.threads[i]? = some (.request req .resolve)) {ms : List Happening}
    (hstays : Throughout State.happens (fun c => c.shared.settings h = some set) c ms)
    (hrun : run State.happens c ms = some c') {fn : Resolving} {replica : Replica}
    (hnew : c'.threads[i]? = some (.request req (.create fn (.add replica)))) :
    replica.fname = index set.sandboxes set.policy.coldStartCtrType ∧
      replica.ctrType = set.policy.coldStartCtrType := by
  have hstart : (Thread.request req .resolve).Creates req h set := by
    rintro pc hpc
    cases hpc
    trivial
  obtain ⟨t', ht', hcreates⟩ := Interleaving.thread_of_run (I := State.Sound)
    (Q := fun t => t.Creates req h set) (fun _ _ _ hI hs => happens_sound hI hs)
    (fun c t e s' t' new hI hS _ hn hQ => by
      rintro pc' rfl
      cases hres : pc'.resolving with
      | false => exact RequestPc.creates_of_not_resolving hres
      | true =>
        obtain ⟨pc, rfl, hsec⟩ := resolveNext_of_next hn hres
        exact resolveNext_creates hI.1.1 hS hreq (hQ pc rfl) hsec)
    hc hstays hrun hi hstart
  obtain ⟨hfor, hmakes⟩ := hcreates _ (Option.some.inj (ht'.symm.trans hnew))
  have hcall : fn.call = ⟨index set.sandboxes set.policy.coldStartCtrType,
      set.policy.coldStartCtrType, true⟩ := by
    rw [Resolving.call, if_pos hfor.containerType, hfor.sandboxes, hfor.policy]
  rw [hcall] at hmakes
  exact hmakes

/-! ### What a name stands for -/

/-- A replica of this name is one of the function `s`, of the container type `ctr`. -/
def Replica.Is (u s ctr : Str) (r : Replica) : Prop := r.uuid = u → r.fname = s ∧ r.ctrType = ctr

/-- All replicas of the name in the pools of the function are of this kind. -/
structure Function.Knows (u s ctr : Str) (f : Function) : Prop where
  stored : ∀ r ∈ f.idleReplicas.stored, r.Is u s ctr
  active : ∀ k r, f.activeReplicas.lookup k = some r → r.Is u s ctr

/-- The name has been given, and all replicas of the name in the store are of this kind. -/
structure World.Knows (u s ctr : Str) (w : World) : Prop where
  created : u ∈ w.created
  functions : ∀ f ∈ w.heap, f.Knows u s ctr

/-- A creation does not have the name, or its replica is of this kind. -/
def CreatePc.Knows (u s ctr : Str) : CreatePc → Prop
  | .storage replicaName _ => replicaName ≠ u
  | .net replicaName => replicaName ≠ u
  | .start replicaName _ => replicaName ≠ u
  | .add replica => replica.Is u s ctr
  | _ => True

/-- The replicas of the name in the hands of an invocation are of this kind. -/
def RequestPc.Knows (u s ctr : Str) : RequestPc → Prop
  | .create _ pc => pc.Knows u s ctr
  | .look _ (some replica) => replica.Is u s ctr
  | .give replica => replica.Is u s ctr
  | _ => True

/-- The replicas of the name in the hands of a goroutine that may come to a pool. -/
def Thread.Knows (u s ctr : Str) : Thread → Prop
  | .request _ pc => pc.Knows u s ctr
  | .spawn _ pc => pc.Knows u s ctr
  | _ => True

section Knows

variable {u s ctr : Str} {w w' : World}

namespace Function.Knows

variable {f : Function}

/-- Of empty pools all is known. -/
lemma of_empty (hidle : f.idleReplicas = {}) (hact : f.activeReplicas = ∅) : f.Knows u s ctr where
  stored r hr := by simp [hidle, IdleReplicas.stored] at hr
  active k r hr := by simp [hact] at hr

/-- A replica of the kind may come into the idle pool. -/
lemma add (h : f.Knows u s ctr) {r : Replica} (hr : r.Is u s ctr) (now : Time) :
    { f with idleReplicas := f.idleReplicas.add r now }.Knows u s ctr where
  stored r' hr' := by
    rw [IdleReplicas.stored_add] at hr'
    rcases List.mem_append.mp hr' with hr' | hr'
    · exact h.stored r' hr'
    · obtain rfl := List.mem_singleton.mp hr'
      exact hr
  active := h.active

/-- Replicas may leave the idle pool. -/
lemma idle_subset (h : f.Knows u s ctr) {p : IdleReplicas}
    (hsub : p.stored ⊆ f.idleReplicas.stored) :
    { f with idleReplicas := p }.Knows u s ctr where
  stored r hr := h.stored r (hsub hr)
  active := h.active

/-- A replica of the kind may become active. -/
lemma insertActive (h : f.Knows u s ctr) {r : Replica} (hr : r.Is u s ctr) :
    { f with activeReplicas := f.activeReplicas.insert r.uuid r }.Knows u s ctr where
  stored := h.stored
  active k r' hr' := by
    by_cases hk : k = r.uuid
    · subst hk
      obtain rfl : r = r' := by simpa using hr'
      exact hr
    · exact h.active k r' (by simpa [AList.lookup_insert_ne hk] using hr')

/-- Replicas may leave the active ones. -/
lemma eraseActive (h : f.Knows u s ctr) (name : Str) :
    { f with activeReplicas := f.activeReplicas.erase name }.Knows u s ctr where
  stored := h.stored
  active k r hr := h.active k r (AList.lookup_of_lookup_erase hr)

/-- The pool may give a replica out. -/
lemma takeIdle {f' : Function} {r : Replica} (h : f.Knows u s ctr)
    (htake : f.takeIdle = some (r, f')) : f'.Knows u s ctr := by
  obtain ⟨hst, hact, -⟩ := Function.takeIdle_spec htake
  refine ⟨fun r' hr' => ?_, ?_⟩
  · exact h.stored r' (by rw [hst]; exact List.mem_append_left _ hr')
  · rw [hact]
    exact (h.insertActive (h.stored r (by rw [hst]; simp))).active

end Function.Knows

namespace World.Knows

/-- What is known of the name is about the objects and the names that have been given. -/
lemma congr (h : w.Knows u s ctr) (hheap : w'.heap = w.heap) (hcreated : w.created ⊆ w'.created) :
    w'.Knows u s ctr where
  created := hcreated h.created
  functions := by rw [hheap]; exact h.functions

/-- A deletion of a replica changes neither. -/
lemma sameStore (h : w.Knows u s ctr) (hsame : SameStore w w') : w'.Knows u s ctr :=
  h.congr hsame.heap (by rw [hsame.created]; exact List.Subset.refl _)

/-- What is known of the name holds of every deployed function. -/
lemma function (h : w.Knows u s ctr) {n : Str} {o : Ref} {f : Function}
    (hf : w.fn? n = some (o, f)) : f.Knows u s ctr :=
  h.functions f (List.mem_of_getElem? (heap_of_fn? hf))

/-- A function of which this is known may be put in the place of another one. -/
lemma setFn (h : w.Knows u s ctr) {o : Ref} {f : Function} (hf : f.Knows u s ctr) :
    (w.setFn o f).Knows u s ctr where
  created := h.created
  functions g hg := by
    rcases List.mem_or_eq_of_mem_set hg with hg | rfl
    · exact h.functions g hg
    · exact hf

/-- A function of which this is known may be deployed. -/
lemma putFunction (h : w.Knows u s ctr) {f : Function} (hf : f.Knows u s ctr) :
    (w.putFunction f).Knows u s ctr where
  created := h.created
  functions g hg := by
    rcases List.mem_append.mp hg with hg | hg
    · exact h.functions g hg
    · obtain rfl := List.mem_singleton.mp hg
      exact hf

end World.Knows

/-- What the result of a section of a creation has in hands. -/
def CreateResult.Knows (u s ctr : Str) : CreateResult → Prop
  | .running pc => pc.Knows u s ctr
  | _ => True

/-- **A section of a creation keeps what the name stands for**, and its result has it too.

**Proof sketch.** Case split on the section. Those that make a name make a fresh one, which is not
the name's; those that put the replica into a pool put it as it is. -/
lemma createSection_knows {call : CreateCall} {e : Env} {pc : CreatePc} {result : CreateResult}
    (hsec : CreateSection w call e pc w' result) (hw : w.Knows u s ctr)
    (hpc : pc.Knows u s ctr) : w'.Knows u s ctr ∧ result.Knows u s ctr := by
  have hfresh : ∀ {name : Str}, name ∉ w.created → name ≠ u :=
    fun hname heq => hname (heq ▸ hw.created)
  cases hsec with
  | wasmLookup _ _ hname => exact ⟨hw.congr rfl (List.subset_cons_self _ _), hfresh hname⟩
  | buildFailed => exact ⟨hw.congr rfl (List.subset_cons_self _ _), trivial⟩
  | built _ hname =>
    exact ⟨hw.congr rfl (List.subset_cons_self _ _), fun heq => absurd heq (hfresh hname)⟩
  | storage => exact ⟨hw, hpc⟩
  | net => exact ⟨hw.congr rfl (List.Subset.refl _), hpc⟩
  | started => exact ⟨hw.congr rfl (List.Subset.refl _), fun heq => absurd heq hpc⟩
  | addActive hact hf =>
    exact ⟨(hw.setFn ((hw.function hf).insertActive hpc)).congr rfl (List.Subset.refl _), trivial⟩
  | noStats hact hf => exact ⟨hw.setFn ((hw.function hf).insertActive hpc), trivial⟩
  | addIdle hact hf => exact ⟨hw.setFn ((hw.function hf).add hpc _), trivial⟩
  | nativeSlot => exact ⟨hw.congr rfl (List.Subset.refl _), trivial⟩
  | wasmSlot => exact ⟨hw.congr rfl (List.Subset.refl _), trivial⟩
  | _ => exact ⟨hw, trivial⟩

/-- **A section of an invocation keeps what the name stands for.**

**Proof sketch.** Case split on the section. A replica that is taken from a pool agrees with what is
known of the pool; a creation is `createSection_knows`; and the deletions keep the store. -/
lemma requestSection_knows {req : Request} {e : Env} {pc : RequestPc} {t' : Thread}
    {new : List Thread} (hsec : RequestSection w req e pc w' t' new) (hw : w.Knows u s ctr)
    (hpc : pc.Knows u s ctr) : w'.Knows u s ctr ∧ t'.Knows u s ctr := by
  cases hsec with
  | idle hf htake => exact ⟨hw.setFn ((hw.function hf).takeIdle htake), trivial⟩
  | @create fn pc _ result hsec =>
    obtain ⟨hw', hres⟩ := createSection_knows hsec hw hpc
    refine ⟨hw', ?_⟩
    cases result with
    | running pc' => exact hres
    | failed =>
      simp only [Thread.afterCreate]
      split <;> trivial
    | _ => trivial
  | @take _ replicaName o f hf =>
    refine ⟨hw.setFn ((hw.function hf).eraseActive replicaName), ?_⟩
    cases hr : f.activeReplicas.lookup replicaName with
    | none => trivial
    | some r => exact (hw.function hf).active _ _ hr
  | lookGive => exact ⟨hw, hpc⟩
  | give hf => exact ⟨hw.setFn ((hw.function hf).add hpc _), trivial⟩
  | del hdel => exact ⟨hw.sameStore (World.sameStore_of_deleteReplica hdel), trivial⟩
  | delFault hdel => exact ⟨hw.sameStore (World.sameStore_of_deleteReplica hdel), trivial⟩
  | _ => exact ⟨hw, trivial⟩

/-- **A section of a sweep keeps what the name stands for.**

**Proof sketch.** A sweep only removes from the pools, and what is known of a pool holds for a part
of it. -/
lemma sweepSection_knows {e : Env} {pc : SweepPc} {t' : Thread}
    (hsec : SweepSection w e pc w' t') (hw : w.Knows u s ctr) :
    w'.Knows u s ctr ∧ t'.Knows u s ctr := by
  cases hsec with
  | locked => exact ⟨hw, trivial⟩
  | lock => exact ⟨hw.congr rfl (List.Subset.refl _), trivial⟩
  | visit => exact ⟨hw, trivial⟩
  | done => exact ⟨hw.congr rfl (List.Subset.refl _), trivial⟩
  | lruAbsent => exact ⟨hw.congr rfl (List.Subset.refl _), trivial⟩
  | lru hheap hsweep hf =>
    exact ⟨hw.setFn ((hw.function hf).idle_subset
      (IdleReplicas.stored_remove_suffix _).subset), trivial⟩
  | mru hheap hsweep hdel =>
    have hf := hw.functions _ (List.mem_of_getElem? hheap)
    exact ⟨(hw.setFn (hf.idle_subset (stored_noMRU_subset _))).sameStore
      (World.sameStore_of_deleteReplica hdel), trivial⟩
  | mruFault hheap hsweep hdel =>
    have hf := hw.functions _ (List.mem_of_getElem? hheap)
    exact ⟨((hw.setFn (hf.idle_subset (stored_noMRU_subset _))).sameStore
      (World.sameStore_of_deleteReplica hdel)).congr rfl (List.Subset.refl _), trivial⟩
  | fresh => exact ⟨hw, trivial⟩
  | del hdel => exact ⟨hw.sameStore (World.sameStore_of_deleteReplica hdel), trivial⟩
  | delFault hdel =>
    exact ⟨(hw.sameStore (World.sameStore_of_deleteReplica hdel)).congr rfl
      (List.Subset.refl _), trivial⟩

/-- **What a name stands for does not change.** A section that makes a replica gives it a fresh
name, and every other section moves replicas as they are.

**Proof sketch.** Case split on the section. Invocations, creations and sweeps have their own
lemmas; a deployment puts a function without replicas, and the other sections leave pools and names
alone. -/
theorem section_knows {e : Env} {t t' : Thread} {new : List Thread}
    (hsec : Section w e t w' t' new) (ht : t.WellFormed) (hw : w.Knows u s ctr)
    (hknows : t.Knows u s ctr) : w'.Knows u s ctr ∧ t'.Knows u s ctr := by
  cases hsec with
  | request hsec => exact requestSection_knows hsec hw hknows
  | @spawn call pc _ result hsec =>
    obtain ⟨hw', hres⟩ := createSection_knows hsec hw hknows
    refine ⟨hw', ?_⟩
    cases result with
    | running pc' => exact hres
    | _ => trivial
  | sweep hsec => exact sweepSection_knows hsec hw
  | deleteAll hdel =>
    exact ⟨hw.sameStore (World.sameStore_of_deleteAllReplicas hdel), trivial⟩
  | deleteAllFault hdel =>
    exact ⟨hw.sameStore (World.sameStore_of_deleteAllReplicas hdel), trivial⟩
  | rowsAbsent => exact ⟨hw.congr rfl (List.Subset.refl _), trivial⟩
  | rows => exact ⟨hw.congr rfl (List.Subset.refl _), trivial⟩
  | unmap => exact ⟨hw.congr rfl (List.Subset.refl _), trivial⟩
  | insert hdeploy hins =>
    obtain ⟨-, rows, rfl⟩ := World.insertFunction_eq hins
    exact ⟨hw.congr rfl (List.Subset.refl _), trivial⟩
  | map => exact ⟨hw.putFunction (.of_empty ht.1 ht.2), trivial⟩
  | stats => exact ⟨hw.congr rfl (List.Subset.refl _), trivial⟩
  | policy hf =>
    have hwf := hw.function hf
    exact ⟨hw.setFn ⟨hwf.stored, hwf.active⟩, trivial⟩
  | _ => exact ⟨hw, trivial⟩

end Knows

/-- What the name stands for, in the store and in the hands of the goroutines. -/
def State.Knows (u s ctr : Str) (c : State) : Prop :=
  c.shared.Knows u s ctr ∧ c.All fun _ t => t.Knows u s ctr

/-- **Step lemma.** So does every move of the provider.

**Proof sketch.** What the store knows is kept by `section_knows`. The goroutines are the one that
moves, the others, and the new ones, which have no replica yet. -/
lemma step_knows {c c' : State} {m : Event} {u s ctr : Str} (hc : State.WellFormed c)
    (hstep : provider.step c m = some c') (hknows : c.Knows u s ctr) : c'.Knows u s ctr := by
  obtain ⟨hw, hts⟩ := hknows
  refine ⟨?_, Interleaving.all_step hts hstep ?_ ?_⟩
  · obtain ⟨t, rfl, -, rfl⟩ | ⟨i, e, t, w', t', new, rfl, ht, hn, rfl⟩ :=
      Interleaving.Program.step_cases hstep
    · exact hw
    · have hmem := List.mem_of_getElem? ht
      exact (section_knows (next_cases hn) (hc.2 t hmem) hw (hts t hmem)).1
  · intro t _ hent
    obtain ⟨req, rfl⟩ | rfl | ⟨req, rfl⟩ | ⟨req, rfl⟩ | ⟨fn, updated, rfl⟩ := entry_cases hent <;>
      trivial
  · intro i e t w' t' new _ ht hn
    have hmem := List.mem_of_getElem? ht
    have hsec := next_cases hn
    refine ⟨(section_knows hsec (hc.2 t hmem) hw (hts t hmem)).2, fun t₁ ht₁ => ?_,
      fun _ _ _ _ h => h⟩
    obtain ⟨call, rfl⟩ := section_new hsec t₁ ht₁
    trivial

/-- Writing a policy keeps what the name stands for. -/
lemma happens_knows {c c' : State} {m : Happening} {u s ctr : Str} (hc : c.Sound)
    (hstep : c.happens m = some c') (hknows : c.Knows u s ctr) : c'.Knows u s ctr := by
  refine Interleaving.stepWith_keeps (I := State.Knows u s ctr) ?_ ?_ hstep hknows
  · exact fun m c' hstep hknows => step_knows hc.1 hstep hknows
  · intro call w hw hknows
    refine ⟨?_, hknows.2⟩
    obtain ⟨rfl, -⟩ | ⟨o, f, policy, hf, -, rfl⟩ := World.policyStep_cases hw
    · exact hknows.1
    · have hwf := hknows.1.function hf
      exact hknows.1.setFn ⟨hwf.stored, hwf.active⟩

/-- A name that is in the hands of a goroutine is not in the store. -/
lemma State.Sound.not_held {c : State} (hc : c.Sound) {i : ℕ} {t : Thread} {u : Str}
    (ht : c.threads[i]? = some t) (hone : t.places false u = 1) :
    u ∈ c.shared.created ∧ ∀ f ∈ c.shared.heap, f.places u = 0 := by
  have hge := State.places_ge ht false u
  have hle := hc.2 u
  have hunborn := c.shared.unborn_nonneg u
  have hheld := c.shared.held_nonneg u
  have hplaces : c.shared.places false u = c.shared.unborn u + c.shared.held u := add_zero _
  constructor
  · by_contra hnew
    have : c.shared.unborn u = 1 := if_neg hnew
    omega
  · intro f hf
    have := World.places_le_held hf u
    have := f.places_nonneg u
    omega

/-- A name without a place is not idle. -/
lemma Function.idle_of_places {f : Function} {u : Str} (h : f.places u = 0) :
    u ∉ f.idleReplicas.stored.map (·.uuid) := by
  have hidle : f.idleCount u = 0 := by
    unfold Function.places at h
    omega
  rw [Function.idleCount, List.countP_eq_zero] at hidle
  intro hmem
  obtain ⟨r, hr, hu⟩ := List.mem_map.mp hmem
  exact hidle r hr (decide_eq_true hu)

/-- Of a name without a place all is known. -/
lemma Function.knows_of_places {f : Function} {u s ctr : Str} (h : f.places u = 0) :
    f.Knows u s ctr where
  stored r hr hu := absurd (List.mem_map.mpr ⟨r, hr, hu⟩) (Function.idle_of_places h)
  active k r hr hu := by
    have hact : f.activeCount u = 0 := by
      unfold Function.places at h
      omega
    have hcount := AList.count_erase_of_lookup (p := fun e => decide (e.2.uuid = u)) hr
    simp only [hu, decide_true, if_true] at hcount
    unfold Function.activeCount at hact
    omega

/-- **A replica that a goroutine is about to add** is the only one of its name.

**Proof sketch.** The name is new and held by this goroutine alone (`State.Sound.not_held`), so no
pool and no other goroutine has it: it would be a second place. -/
lemma State.Sound.knows {c : State} (hc : c.Sound) {i : ℕ} {req : Request} {fn : Resolving}
    {replica : Replica} (ht : c.threads[i]? = some (.request req (.create fn (.add replica)))) :
    c.Knows replica.uuid replica.fname replica.ctrType := by
  have hone : (Thread.request req (.create fn (.add replica))).places false replica.uuid = 1 :=
    one_some_self _
  obtain ⟨hcreated, hheap⟩ := hc.not_held ht hone
  refine ⟨⟨hcreated, fun f hf => Function.knows_of_places (hheap f hf)⟩,
    fun t' ht' => ?_⟩
  obtain ⟨j, hj⟩ := List.mem_iff_getElem?.mp ht'
  by_cases hji : j = i
  · subst hji
    obtain rfl := Option.some.inj (ht.symm.trans hj)
    exact fun _ => ⟨rfl, rfl⟩
  · -- another goroutine with the name would be a second place
    have hzero : t'.places false replica.uuid = 0 := by
      have hsum := Interleaving.add_le_sum_of_getElem? (Thread.places_nonneg false replica.uuid)
        (Ne.symm hji) ht hj
      have hshared := c.shared.places_nonneg false replica.uuid
      have hle := hc.2 replica.uuid
      have hnonneg := t'.places_nonneg false replica.uuid
      simp only [State.places, Interleaving.Config.ledger] at hle
      omega
    have hne : ∀ {name : Str}, one (some name) replica.uuid = 0 → name ≠ replica.uuid := by
      rintro name hname rfl
      rw [one_some_self] at hname
      cases hname
    have hcreate : ∀ pc : CreatePc, one pc.carried replica.uuid = 0 →
        pc.Knows replica.uuid replica.fname replica.ctrType := by
      intro pc hpc
      cases pc with
      | storage => exact hne hpc
      | net => exact hne hpc
      | start => exact hne hpc
      | add => exact fun heq => absurd heq (hne hpc)
      | _ => trivial
    cases t' with
    | request req' pc =>
      cases pc with
      | create fn' pc => exact hcreate pc hzero
      | look name r =>
        cases r with
        | none => trivial
        | some r => exact fun heq => absurd heq (hne hzero)
      | give r => exact fun heq => absurd heq (hne hzero)
      | _ => trivial
    | spawn call pc => exact hcreate pc hzero
    | _ => trivial

/-! ### From the creation to the release -/

/-- The invocation goes on with the replica of this name. -/
def RequestPc.Serves (u : Str) : RequestPc → Prop
  | .create _ (.add replica) => replica.uuid = u
  | .build _ replicaName => replicaName = u
  | .exec _ replicaName => replicaName = u
  | .labels _ replicaName => replicaName = u
  | .take _ replicaName => replicaName = u
  | .look replicaName _ => replicaName = u
  | .give replica => replica.uuid = u
  | .del replica => replica.uuid = u
  | _ => False

/-- As long as it is an invocation. -/
def Thread.Serves (u : Str) : Thread → Prop
  | .request _ pc => pc.Serves u
  | _ => True

/-- The creation that adds its replica hands it over, or panics. -/
lemma createSection_serves {w w' : World} {call : CreateCall} {e : Env} {replica : Replica}
    {result : CreateResult} (hsec : CreateSection w call e (.add replica) w' result) :
    (∃ replicaIP, result = .returned replica.uuid replicaIP) ∨
      ∃ fault, result = .panicked fault := by
  cases hsec with
  | addActive => exact .inl ⟨_, rfl⟩
  | addIdle => exact .inl ⟨_, rfl⟩
  | noStats => exact .inr ⟨_, rfl⟩
  | addAbsent => exact .inr ⟨_, rfl⟩

/-- A section keeps the replica that the invocation goes on with.

**Proof sketch.** Case split on the section. From the end of the creation on the invocation goes by
the name of its replica, and takes the replica of that name. -/
lemma section_serves {w w' : World} {e : Env} {t t' : Thread} {new : List Thread} {u : Str}
    (hsec : Section w e t w' t' new) (ht : t.WellFormed) (hserves : t.Serves u) : t'.Serves u := by
  cases hsec with
  | request hsec =>
    cases hsec with
    | @create fn pc _ result hsec =>
      cases pc with
      | add replica =>
        obtain ⟨replicaIP, rfl⟩ | ⟨fault, rfl⟩ := createSection_serves hsec
        · exact hserves
        · trivial
      | _ => exact hserves.elim
    | build => exact hserves
    | exec => exact hserves
    | labels => exact hserves
    | take => exact hserves
    | lookDel => exact ht.2.trans hserves
    | lookGive => exact ht.2.trans hserves
    | resolvedHybrid => exact hserves.elim
    | resolvedCold => exact hserves.elim
    | resolved => exact hserves.elim
    | policy => exact hserves.elim
    | idleNone => exact hserves.elim
    | idle => exact hserves.elim
    | _ => trivial
  | @spawn _ _ _ result hsec => cases result <;> trivial
  | sweep hsec => cases hsec <;> trivial
  | _ => trivial

/-- `UpdateReplicaStatusInactive` is at its last section, or has come to its end. -/
def Thread.Releases (req : Request) (pc : RequestPc) (t : Thread) : Prop :=
  t = .request req pc ∨ t.ended = true

/-- The last section of an invocation comes to the end. -/
lemma section_releases {w w' : World} {e : Env} {req : Request} {pc : RequestPc} {t t' : Thread}
    {new : List Thread} (hpc : ∃ replica, pc = .give replica ∨ pc = .del replica)
    (hsec : Section w e t w' t' new) (ht : t.Releases req pc) : t'.Releases req pc := by
  rcases ht with rfl | hend
  · obtain ⟨replica, rfl | rfl⟩ := hpc <;>
    · cases hsec with
      | request hsec => cases hsec <;> exact .inr rfl
  · cases hsec <;> cases hend

/-- What `UpdateReplicaStatusInactive` finds in the policy of the function: the container type is
that of the cold starts, and `keepaliveColdStartCtr` is set. -/
def World.kills (w : World) (fn ctrType : Str) : Bool :=
  (w.fn? fn).any fun of =>
    decide (of.2.policy.keepaliveColdStartCtr ≠ 0 ∧ ctrType = of.2.policy.coldStartCtrType)

/-- The section that reads the policy decides.

**Proof sketch.** Case split on whether the function is found and on whether a replica was taken;
then on the test of the policy. -/
lemma requestNext_look {w w' : World} {req : Request} {replicaName : Str} {r : Option Replica}
    {e : Env} {t' : Thread} {new : List Thread}
    (h : requestNext w req (.look replicaName r) e = some (w', t', new)) :
    (∃ fault, t' = .panicked fault) ∨ ∃ replica, r = some replica ∧
      t' = .request req
        (if w.kills req.functionName replica.ctrType then .del replica else .give replica) := by
  cases hf : w.fn? req.functionName with
  | none =>
    simp only [requestNext, World.getInvocationPolicy, hf] at h
    cases h
    exact .inl ⟨_, rfl⟩
  | some of =>
    cases r with
    | none =>
      simp only [requestNext, World.getInvocationPolicy, hf] at h
      cases h
      exact .inl ⟨_, rfl⟩
    | some replica =>
      refine .inr ⟨replica, rfl, ?_⟩
      simp only [requestNext, World.getInvocationPolicy, hf] at h
      simp only [World.kills, hf, Option.any_some, decide_eq_true_eq]
      split at h <;> next hkills =>
        cases h
        simp [hkills]

/-! ### The next invocation -/

/-- **The replica is kept for the warm starts**: it is idle in the sandbox of the warm starts, and
the next invocation of the hybrid function is a warm start on it. -/
structure World.KeptWarm (w : World) (h u : Str) : Prop where
  idle : ∃ set o f, w.settings h = some set ∧
    w.fn? (index set.sandboxes set.policy.warmStartCtrType) = some (o, f) ∧
      u ∈ f.idleReplicas.stored.map (·.uuid)
  next : ∀ req : Request, req.functionName ≠ [] → actualFunctionName req.functionName = h →
    ∀ e₁ e₂ e₃, ∃ r, w.resolve req [e₁, e₂] e₃ = some r ∧
      r.endpoint.startupType = "warm".toList ∧ r.endpoint.replicaName = u

/-- An invocation of a hybrid function with an idle replica in the sandbox of its warm starts. -/
lemma World.resolve_warm {w : World} (hw : w.WellFormed) {h : Str} {set : HybridSettings}
    (hset : w.settings h = some set) {o : Ref} {f f' : Function} {replica : Replica}
    (hf : w.fn? (index set.sandboxes set.policy.warmStartCtrType) = some (o, f))
    (htake : f.takeIdle = some (replica, f')) {req : Request} (hne : req.functionName ≠ [])
    (hreq : actualFunctionName req.functionName = h) (e₁ e₂ e₃ : Env) :
    ∃ r, w.resolve req [e₁, e₂] e₃ = some r ∧ r.endpoint.startupType = "warm".toList ∧
      r.endpoint.replicaName = replica.uuid := by
  obtain ⟨o', g, hg, hhyb, hsand, hpolicy⟩ := World.settings_eq_some.mp hset
  have hname : g.name = h := hw.named _ _ _ hg
  have hct := Function.containerType_of_isHybrid hhyb
  simp only [World.resolve, Runs.run_cons, Runs.run_nil, resolveStep, resolveNext, hne, if_false,
    hreq, hg, hct, if_true, Option.bind_some, World.getInvocationPolicy, hname, Resolving.pool,
    hsand, hpolicy, World.getIdleReplica, hf, htake]
  exact ⟨_, rfl, rfl, rfl⟩

/-- A write that keeps what `Resolve` reads keeps the settings.

**Proof sketch.** Case split on whether the name looks the written object up. If it does, the three
fields that are read are the same. -/
lemma World.settings_setFn {w : World} {o : Ref} {f : Function} (ho : w.heap[o]? = some f)
    {f' : Function} (hlabels : f'.labels = f.labels) (hsand : f'.sandboxes = f.sandboxes)
    (hpolicy : f'.policy = f.policy) (h : Str) : (w.setFn o f').settings h = w.settings h := by
  unfold World.settings
  rw [World.fn?_setFn ho]
  cases hg : w.fn? h with
  | none => rfl
  | some og =>
    obtain ⟨o', g⟩ := og
    by_cases heq : o' = o
    · subst heq
      obtain rfl : f = g := Option.some.inj (ho.symm.trans (World.heap_of_fn? hg))
      have hhyb : f'.isHybrid = f.isHybrid := by
        unfold Function.isHybrid
        rw [hlabels]
      simp only [Option.map_some, Option.bind_some, if_true, hhyb, hsand, hpolicy]
    · simp only [Option.map_some, if_neg heq]

/-- After an insertion there is an `MRU`. -/
lemma IdleReplicas.add_mru_ne_none (p : IdleReplicas) (r : Replica) (now : Time) :
    (p.add r now).mru ≠ none := by
  unfold IdleReplicas.add
  cases p.mru with
  | none => exact nofun
  | some mru =>
    dsimp only
    split <;> exact nofun

/-- The replica that was added last is the next to be taken. -/
lemma Function.takeIdle_add (f : Function) (r : Replica) (now : Time) :
    ∃ f', { f with idleReplicas := f.idleReplicas.add r now }.takeIdle =
      some (r.accessed now, f') := by
  cases htake : { f with idleReplicas := f.idleReplicas.add r now }.takeIdle with
  | none => exact absurd (Function.takeIdle_eq_none.mp htake) (f.idleReplicas.add_mru_ne_none r now)
  | some rf =>
    obtain ⟨r', f'⟩ := rf
    have hst := (Function.takeIdle_spec htake).1
    rw [IdleReplicas.stored_add] at hst
    obtain ⟨-, hr⟩ := List.append_inj' hst rfl
    obtain rfl := List.singleton_inj.mp hr
    exact ⟨f', rfl⟩

/-- What is known where `UpdateReplicaStatusInactive` reads the policy: the replica that it has
taken is the one of the cold start.

**Proof sketch.** The invocation keeps its replica (`section_serves`), and the replica of that name
is the one that was created (`State.Sound.knows`), also where it has been taken from the active
ones. -/
lemma look_of_run {c₁ c₂ : State} (hc₁ : c₁.Sound) {i : ℕ} {req : Request} {fn : Resolving}
    {replica : Replica} (hnew : c₁.threads[i]? = some (.request req (.create fn (.add replica))))
    {serving : List Happening} (hserving : run State.happens c₁ serving = some c₂)
    {replicaName : Str} {r : Option Replica}
    (hlook : c₂.threads[i]? = some (.request req (.look replicaName r))) :
    ∀ replica', r = some replica' → replica'.uuid = replica.uuid ∧
      replica'.fname = replica.fname ∧ replica'.ctrType = replica.ctrType := by
  rintro replica' rfl
  have hserves : replicaName = replica.uuid := by
    obtain ⟨t, ht, hserves⟩ := Interleaving.thread_of_run (I := State.Sound) (S := fun _ => True)
      (Q := Thread.Serves replica.uuid) (fun _ _ _ hI hs => happens_sound hI hs)
      (fun c t e s' t' new hI _ ht hn hQ =>
        section_serves (next_cases hn) (hI.1.2 t (List.mem_of_getElem? ht)) hQ)
      hc₁ (Runs.throughout_of_forall fun _ => trivial) hserving hnew rfl
    obtain rfl := Option.some.inj (ht.symm.trans hlook)
    exact hserves
  obtain ⟨hc₂, hknows⟩ := Runs.invariant
    (I := fun c => State.Sound c ∧ State.Knows replica.uuid replica.fname replica.ctrType c)
    (fun _ _ _ hI hs => ⟨happens_sound hI.1 hs, happens_knows hI.1 hs hI.2⟩)
    ⟨hc₁, hc₁.knows hnew⟩ hserving
  have hmem := List.mem_of_getElem? hlook
  have huuid : replica'.uuid = replica.uuid := ((hc₂.1.2 _ hmem).2).trans hserves
  exact ⟨huuid, hknows.2 _ hmem huuid⟩

/-- How the invocation stands at its last section, after the section that reads the policy.

**Proof sketch.** The section that reads the policy decides (`requestNext_look`); what it has
decided for stands until the last section, and a panic is the end. -/
lemma last_of_run {c₂ c₃ : State} (hc₂ : c₂.Sound) {i : ℕ} {req : Request} {replicaName : Str}
    {r : Option Replica} (hlook : c₂.threads[i]? = some (.request req (.look replicaName r)))
    {e : Env} {finishing : List Happening}
    (hfinishing : run State.happens c₂ (.inl (.step i e) :: finishing) = some c₃) {pc : RequestPc}
    (hlast : c₃.threads[i]? = some (.request req pc)) :
    ∃ replica, r = some replica ∧
      pc = if c₂.shared.kills req.functionName replica.ctrType then .del replica
        else .give replica := by
  obtain ⟨c', hstep, hrun⟩ := Runs.run_cons_eq_some.mp hfinishing
  obtain ⟨w', t', new, hn, rfl⟩ := Interleaving.step_of_getElem? hstep hlook
  have hnext : requestNext c₂.shared req (.look replicaName r) e = some (w', t', new) := hn
  have hsound := happens_sound hc₂ hstep
  have ht' := Interleaving.getElem?_section t' new hlook
  have hkeep : ∀ Q : Thread → Prop, (∀ {w w₁ e t t₁ new}, Section w e t w₁ t₁ new → Q t → Q t₁) →
      Q t' → Q (.request req pc) := by
    intro Q hsec hQ
    obtain ⟨t, ht, hQ⟩ := Interleaving.thread_of_run (I := State.Sound) (S := fun _ => True)
      (fun _ _ _ hI hs => happens_sound hI hs)
      (fun c t e s' t' new _ _ _ hn hQ => hsec (next_cases hn) hQ)
      hsound (Runs.throughout_of_forall fun _ => trivial) hrun ht' hQ
    obtain rfl := Option.some.inj (ht.symm.trans hlast)
    exact hQ
  rcases requestNext_look hnext with ⟨fault, rfl⟩ | ⟨replica, rfl, rfl⟩
  · -- a panic is the end
    have hend := hkeep (fun t => t.ended = true) (fun hsec hend => by cases hsec <;> cases hend) rfl
    cases hend
  · refine ⟨replica, rfl, ?_⟩
    have hpc₀ : ∃ replica' : Replica,
        (if c₂.shared.kills req.functionName replica.ctrType then RequestPc.del replica
          else .give replica) = .give replica' ∨
        (if c₂.shared.kills req.functionName replica.ctrType then RequestPc.del replica
          else .give replica) = .del replica' := by
      refine ⟨replica, ?_⟩
      split
      · exact .inr rfl
      · exact .inl rfl
    rcases hkeep (Thread.Releases req _) (section_releases hpc₀) (.inl rfl) with heq | hend
    · exact (Thread.request.inj heq).2
    · cases hend

/-- A replica that is deleted is idle nowhere.

**Proof sketch.** The goroutine that deletes the replica holds its one token, so no function holds
it (`not_held`); the deletion leaves the functions alone. -/
lemma not_idle_of_del {c : State} (hc : c.Sound) {i : ℕ} {req : Request} {replica : Replica}
    {u : Str} (hi : c.threads[i]? = some (.request req (.del replica))) (hu : replica.uuid = u)
    {e : Env} {w : World}
    (hret : requestNext c.shared req (.del replica) e = some (w, .returned, [])) {n : Str}
    {o : Ref} {f : Function} (hf : w.fn? n = some (o, f)) :
    u ∉ f.idleReplicas.stored.map (·.uuid) := by
  have hone : (Thread.request req (.del replica)).places false u = 1 := by
    rw [← hu]
    exact one_some_self _
  have hheap : w.heap = c.shared.heap := by
    simp only [requestNext] at hret
    split at hret
    · next hdel =>
      cases hret
      exact (World.sameStore_of_deleteReplica hdel).heap
    · cases hret
  have hmem := List.mem_of_getElem? (World.heap_of_fn? hf)
  rw [hheap] at hmem
  exact Function.idle_of_places ((hc.not_held hi hone).2 f hmem)

/-- A replica that is put back into the pool of the sandbox of the warm starts is kept.

**Proof sketch.** The section adds the replica to the pool of its sandbox, which is that of the warm
starts, and the pool has it afterwards; the settings stay as they are. -/
lemma keptWarm_of_give {c : State} (hc : c.Sound) {i : ℕ} {req : Request} {replica : Replica}
    (hi : c.threads[i]? = some (.request req (.give replica))) {e : Env} {w : World}
    (hret : requestNext c.shared req (.give replica) e = some (w, .returned, [])) {h : Str}
    {set : HybridSettings} (hset : c.shared.settings h = some set)
    (hfname : replica.fname = index set.sandboxes set.policy.warmStartCtrType) :
    w.KeptWarm h replica.uuid := by
  have hw : w.WellFormed :=
    (section_wellFormed (next_cases (t := .request req (.give replica)) hret) hc.1.1
      (hc.1.2 _ (List.mem_of_getElem? hi))).1
  cases hf : c.shared.fn? replica.fname with
  | none =>
    simp only [requestNext, World.addIdleReplica, hf] at hret
    cases hret
  | some of =>
    obtain ⟨o, f⟩ := of
    simp only [requestNext, World.addIdleReplica, hf] at hret
    cases hret
    have hsame : (c.shared.setFn o { f with
        idleReplicas := f.idleReplicas.add replica e.now }).settings h = c.shared.settings h := by
      refine World.settings_setFn (World.heap_of_fn? hf) ?_ ?_ ?_ h <;> rfl
    have hset' := hsame.trans hset
    have hlook := World.fn?_setFn_self hf { f with
      idleReplicas := f.idleReplicas.add replica e.now }
    obtain ⟨f', htake⟩ := f.takeIdle_add replica e.now
    rw [hfname] at hlook
    refine ⟨⟨set, o, _, hset', hlook, ?_⟩, fun req' hne hreq e₁ e₂ e₃ => ?_⟩
    · rw [IdleReplicas.stored_add, List.map_append]
      exact List.mem_append_right _ (List.mem_singleton_self _)
    · exact World.resolve_warm hw hset' hlook htake hne hreq e₁ e₂ e₃

/-- **When a replica of a cold start is kept**, for a hybrid function whose policy was last set by
`EvalColdStartPolicy`, with one container type for the cold and the warm starts: only where
`UpdateReplicaStatusInactive`, which looks for the whole name in the path, finds another policy.

**Proof sketch.** The invocation creates a replica of the sandbox and the container type of the cold
starts (`creation_of_run`), and what its name stands for does not change (`section_knows`). The
policy of the hybrid function has a `keepaliveColdStartCtr` and names this container type for the
cold starts, so the replica is deleted, and by the ledger of its name it is idle nowhere. If it is
not deleted it is the youngest in the pool of the sandbox, which is that of the warm starts. -/
theorem keptWarm_iff {c c₁ c₂ c₃ : State} {h : Str} {set : HybridSettings}
    (hset : c.EvalSet h set)
    (hsame : set.policy.coldStartCtrType = set.policy.warmStartCtrType) {i : ℕ} {req : Request}
    (hreq : actualFunctionName req.functionName = h)
    (hi : c.threads[i]? = some (.request req .resolve))
    {creating serving finishing : List Happening} {e e' : Env}
    (hcreating : run State.happens c creating = some c₁) {fn : Resolving} {replica : Replica}
    (hnew : c₁.threads[i]? = some (.request req (.create fn (.add replica))))
    (hserving : run State.happens c₁ serving = some c₂) {replicaName : Str} {r : Option Replica}
    (hlook : c₂.threads[i]? = some (.request req (.look replicaName r)))
    (hfinishing : run State.happens c₂ (.inl (.step i e) :: finishing) = some c₃)
    {pc : RequestPc} (hlast : c₃.threads[i]? = some (.request req pc)) {w : World}
    (hret : requestNext c₃.shared req pc e' = some (w, .returned, []))
    (hstays : Throughout State.happens (fun c => c.shared.settings h = some set) c
      (creating ++ serving ++ .inl (.step i e) :: finishing)) :
    (w.KeptWarm h replica.uuid ↔ c₂.shared.kills req.functionName replica.ctrType = false) ∧
      (req.functionName = h → ¬ w.KeptWarm h replica.uuid) := by
  rw [List.append_assoc] at hstays
  obtain ⟨hstays₁, hstays⟩ := hstays.of_append hcreating
  obtain ⟨-, hstays⟩ := hstays.of_append hserving
  have hset₂ := hstays.head
  have hset₃ := hstays.of_run hfinishing
  have hsound : ∀ {c c' : State} {ms : List Happening}, c.Sound → run State.happens c ms = some c' →
      c'.Sound := fun hc hr => Runs.invariant (fun _ _ _ hI hs => happens_sound hI hs) hc hr
  have hc₁ := hsound hset.sound hcreating
  have hc₂ := hsound hc₁ hserving
  have hc₃ := hsound hc₂ hfinishing
  obtain ⟨hfname, hctr⟩ := creation_of_run hset.sound hreq hi hstays₁ hcreating hnew
  obtain ⟨replica', rfl, rfl⟩ := last_of_run hc₂ hlook hfinishing hlast
  obtain ⟨huuid, hfname', hctr'⟩ := look_of_run hc₁ hnew hserving hlook replica' rfl
  rw [hctr'] at hret
  have hiff : w.KeptWarm h replica.uuid ↔
      c₂.shared.kills req.functionName replica.ctrType = false := by
    cases hkills : c₂.shared.kills req.functionName replica.ctrType with
    | true =>
      rw [hctr', hkills] at hlast
      rw [hkills] at hret
      refine iff_of_false (fun hkept => ?_) nofun
      obtain ⟨set', o, f, -, hf, hidle⟩ := hkept.idle
      exact not_idle_of_del hc₃ hlast huuid hret hf hidle
    | false =>
      rw [hctr', hkills] at hlast
      rw [hkills] at hret
      refine iff_of_true ?_ rfl
      rw [← huuid]
      exact keptWarm_of_give hc₃ hlast hret hset₃ (by rw [hfname', hfname, hsame])
  refine ⟨hiff, fun hname hkept => ?_⟩
  -- the policy that is found is the one that was set
  have hkills := hiff.mp hkept
  obtain ⟨o, f, hf, -, -, hpolicy⟩ := World.settings_eq_some.mp hset₂
  have hkeep := hset.keepalive hsame
  simp [World.kills, hname, hf, hpolicy, hkeep, hctr] at hkills

/-- The settings of `f` after the evaluation: native replicas for the cold and the warm starts. -/
def nativeSettings : HybridSettings where
  sandboxes := sandboxesOf ["f-n".toList, "f-w".toList]
  policy := ⟨native, native, 0, 60⟩

/-- The replica that the invocation is about to add. -/
def RequestPc.adding? : RequestPc → Option (Resolving × Replica)
  | .create fn (.add replica) => some (fn, replica)
  | _ => none

/-- The invocation is about to add its replica. -/
lemma RequestPc.eq_add {pc : RequestPc} {fn : Resolving} {replica : Replica}
    (h : pc.adding? = some (fn, replica)) : pc = .create fn (.add replica) := by
  unfold RequestPc.adding? at h
  split at h <;> cases h
  rfl

/-- The replica whose function the invocation is about to look up. -/
def RequestPc.looking? : RequestPc → Option (Str × Option Replica)
  | .look n r => some (n, r)
  | _ => none

/-- The invocation is about to look up the function of its replica. -/
lemma RequestPc.eq_look {pc : RequestPc} {n : Str} {r : Option Replica}
    (h : pc.looking? = some (n, r)) : pc = .look n r := by
  unfold RequestPc.looking? at h
  split at h <;> cases h
  rfl

/-- The goroutine has come to its end. -/
lemma Thread.eq_returned {t : Thread} (h : t.isReturned = true) : t = .returned := by
  unfold Thread.isReturned at h
  split at h
  · rfl
  · cases h

/-- The next sections of goroutine 3. -/
def nextSections (n : ℕ) : List Happening := (sections 3 n { uuid := "1".toList }).map .inl

/-- An invocation of `f` arrives after the evaluation, creates the replica `f-n_1_n`, goes on with
it and releases it; then the replica is not idle in the sandbox `f-n`.

**Proof sketch.** The run is evaluated in four parts, with one test for each of the states that the
statement speaks of. -/
lemma coldStart_small :
    ∃ (c c₁ c₂ c₃ : State) (req : Request) (fn : Resolving) (replica : Replica) (n : Str)
      (r : Option Replica) (pc : RequestPc) (w : World), c.EvalSet "f".toList nativeSettings ∧
        req.functionName = "f".toList ∧ c.threads[3]? = some (.request req .resolve) ∧
        run State.happens c (nextSections 6) = some c₁ ∧
        c₁.threads[3]? = some (.request req (.create fn (.add replica))) ∧
        run State.happens c₁ (nextSections 5) = some c₂ ∧
        c₂.threads[3]? = some (.request req (.look n r)) ∧
        run State.happens c₂ (nextSections 1) = some c₃ ∧
        c₃.threads[3]? = some (.request req pc) ∧
        requestNext c₃.shared req pc {} = some (w, .returned, []) ∧
        Throughout State.happens (fun c => c.shared.settings "f".toList = some nativeSettings) c
          (nextSections 6 ++ nextSections 5 ++ nextSections 1) ∧
        w.settings "f".toList = some nativeSettings ∧
        ((w.fn? "f-n".toList).all fun of =>
          decide (replica.uuid ∉ of.2.idleReplicas.stored.map (·.uuid))) = true := by
  obtain ⟨c₀, hc₀, hlook⟩ := (Option.any_eq_true (fun c₀ : State =>
      (c₀.shared.evalColdStartPolicy (sandboxRecords 1 2) "f".toList).toOption.any fun w₀ =>
        decide (Throughout State.happens
          (fun c => c.shared.settings "f".toList = some nativeSettings) ⟨w₀, c₀.threads⟩
            [.inl (.arrive (.request { functionName := "f".toList } .resolve))]) &&
        (run State.happens ⟨w₀, c₀.threads⟩
          [.inl (.arrive (.request { functionName := "f".toList } .resolve))]).any
            fun (c : State) =>
        (c.pcOf 3 { functionName := "f".toList }).any RequestPc.isResolve &&
        decide (Throughout State.happens
          (fun c => c.shared.settings "f".toList = some nativeSettings) c
            (nextSections 6 ++ nextSections 5 ++ nextSections 1)) &&
        (run State.happens c (nextSections 6)).any fun (c₁ : State) =>
        (run State.happens c₁ (nextSections 5)).any fun (c₂ : State) =>
        (run State.happens c₂ (nextSections 1)).any fun (c₃ : State) =>
        ((c₁.pcOf 3 { functionName := "f".toList }).bind RequestPc.adding?).any
          fun (added : Resolving × Replica) =>
        ((c₂.pcOf 3 { functionName := "f".toList }).bind RequestPc.looking?).isSome &&
        (c₃.pcOf 3 { functionName := "f".toList }).any fun pc =>
        (requestNext c₃.shared { functionName := "f".toList } pc {}).any
          fun (next : World × Thread × List Thread) =>
          next.2.1.isReturned && next.2.2.isEmpty &&
          decide (next.1.settings "f".toList = some nativeSettings) &&
          (next.1.fn? "f-n".toList).all fun (of : Ref × Function) =>
            decide (added.2.uuid ∉ of.2.idleReplicas.stored.map (·.uuid)))
    (smallRun deployHybrid)).mp (by decide +kernel)
  obtain ⟨w₀, heval, hlook⟩ := (Option.any_eq_true _ _).mp hlook
  obtain ⟨hset, hlook⟩ := Bool.and_eq_true_iff.mp hlook
  obtain ⟨c, hc, hlook⟩ := (Option.any_eq_true _ _).mp hlook
  obtain ⟨hfirst, hlook⟩ := Bool.and_eq_true_iff.mp hlook
  obtain ⟨hfirst, hstays⟩ := Bool.and_eq_true_iff.mp hfirst
  obtain ⟨_, hi, hpc⟩ := (Option.any_eq_true _ _).mp hfirst
  obtain rfl := RequestPc.eq_resolve hpc
  obtain ⟨c₁, hc₁, hlook⟩ := (Option.any_eq_true _ _).mp hlook
  obtain ⟨c₂, hc₂, hlook⟩ := (Option.any_eq_true _ _).mp hlook
  obtain ⟨c₃, hc₃, hlook⟩ := (Option.any_eq_true _ _).mp hlook
  obtain ⟨⟨fn, replica⟩, hi₁, hlook⟩ := (Option.any_eq_true _ _).mp hlook
  obtain ⟨hi₂, hlook⟩ := Bool.and_eq_true_iff.mp hlook
  obtain ⟨⟨n, r⟩, hi₂⟩ := Option.isSome_iff_exists.mp hi₂
  obtain ⟨pc, hi₃, hlook⟩ := (Option.any_eq_true _ _).mp hlook
  obtain ⟨⟨w, t, spawned⟩, hnext, hlook⟩ := (Option.any_eq_true _ _).mp hlook
  obtain ⟨hlook, hidle⟩ := Bool.and_eq_true_iff.mp hlook
  obtain ⟨hlook, hsettings⟩ := Bool.and_eq_true_iff.mp hlook
  obtain ⟨hreturned, hspawned⟩ := Bool.and_eq_true_iff.mp hlook
  obtain rfl := Thread.eq_returned hreturned
  obtain rfl := List.isEmpty_iff.mp hspawned
  obtain ⟨pc₁, hi₁, hadd⟩ := Option.bind_eq_some_iff.mp hi₁
  obtain ⟨pc₂, hi₂, hlooks⟩ := Option.bind_eq_some_iff.mp hi₂
  obtain rfl := RequestPc.eq_add hadd
  obtain rfl := RequestPc.eq_look hlooks
  cases hresult : c₀.shared.evalColdStartPolicy (sandboxRecords 1 2) "f".toList with
  | error fault =>
    rw [hresult] at heval
    cases heval
  | ok w₁ =>
    rw [hresult] at heval
    obtain rfl := Option.some.inj heval
    exact ⟨c, c₁, c₂, c₃, _, fn, replica, n, r, pc, w,
      ⟨c₀, _, w₁, _, reached_of_reachable (reachable_of_smallRun hc₀), hresult,
        of_decide_eq_true hset, hc⟩,
      rfl, State.threads_of_pcOf hi, hc₁, State.threads_of_pcOf hi₁, hc₂,
      State.threads_of_pcOf hi₂, hc₃, State.threads_of_pcOf hi₃, hnext,
      of_decide_eq_true hstays, of_decide_eq_true hsettings, hidle⟩

/-- Whether the replica of this cold start is kept depends on the policy that is found. -/
theorem keptWarm_iff_coldStart :
    ∃ (c c₂ : State) (replica : Replica) (w : World), c.EvalSet "f".toList nativeSettings ∧
      run State.happens c (nextSections 6 ++ nextSections 5) = some c₂ ∧
        (w.KeptWarm "f".toList replica.uuid ↔
          c₂.shared.kills "f".toList replica.ctrType = false) := by
  obtain ⟨c, c₁, c₂, c₃, req, fn, replica, n, r, pc, w, hset, hname, hi, hc₁, hi₁, hc₂, hi₂, hc₃,
    hi₃, hret, hstays, -, -⟩ := coldStart_small
  refine ⟨c, c₂, replica, w, hset, ?_, hname ▸ (keptWarm_iff hset rfl (by rw [hname]; rfl) hi hc₁
    hi₁ hc₂ hi₂ hc₃ hi₃ hret hstays).1⟩
  rw [Runs.run_append, hc₁, Option.bind_some, hc₂]

/-- The replica of this cold start is not kept.

**Proof sketch.** Run the cold start in the small provider. The pool of the native sandbox has no
idle replica at the end, though the policy asks for one. -/
theorem not_keptWarm_coldStart :
    ∃ (c c₁ c₃ : State) (req : Request) (fn : Resolving) (replica : Replica) (pc : RequestPc)
      (w : World), c.EvalSet "f".toList nativeSettings ∧ req.functionName = "f".toList ∧
        run State.happens c (nextSections 6) = some c₁ ∧
        c₁.threads[3]? = some (.request req (.create fn (.add replica))) ∧
        run State.happens c₁ (nextSections 5 ++ nextSections 1) = some c₃ ∧
        c₃.threads[3]? = some (.request req pc) ∧
        requestNext c₃.shared req pc {} = some (w, .returned, []) ∧
        ¬ w.KeptWarm "f".toList replica.uuid := by
  obtain ⟨c, c₁, c₂, c₃, req, fn, replica, n, r, pc, w, hset, hname, hi, hc₁, hi₁, hc₂, hi₂, hc₃,
    hi₃, hret, -, hsettings, hidle⟩ := coldStart_small
  refine ⟨c, c₁, c₃, req, fn, replica, pc, w, hset, hname, hc₁, hi₁, ?_, hi₃, hret, fun hkept => ?_⟩
  · rw [Runs.run_append, hc₂, Option.bind_some, hc₃]
  · obtain ⟨set, o, f, hset', hf, hmem⟩ := hkept.idle
    obtain rfl := Option.some.inj (hsettings.symm.trans hset')
    have hpool : index nativeSettings.sandboxes nativeSettings.policy.warmStartCtrType =
        "f-n".toList := by decide +kernel
    rw [hpool] at hf
    rw [hf, Option.all_some, decide_eq_true_eq] at hidle
    exact hidle hmem

end Fecore
