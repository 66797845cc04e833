import Mathlib.Tactic.Common
import Fecore.Handlers.Deletion
import Fecore.Handlers.DeployHandler
import Fecore.Handlers.SameFunction

set_option relaxedAutoImplicit false
set_option autoImplicit false

/-!
# Requests in a namespace

A request names a namespace: in its query, or behind the last dot of the name that it invokes. The
handlers check that the namespace is valid, and then look up functions by their names only.

## Main definitions

* `Fecore.NamespaceQuery` — the namespace of a query and its check.
* `Fecore.readHandler`, `Fecore.replicaReaderHandler`, `Fecore.checkedDelete` — the handlers.
* `Fecore.World.servingOf` — the function whose replica serves an invocation.
* `Fecore.NamespacedRequest.Isolated` — the request reports, removes and invokes functions of its
  namespace only.

## Main results

* `Fecore.resolve_serving` — which function serves the invocations that `Resolve` resolves.
* `Fecore.checkedDelete_fn?` — which function a delete request removes.
* `Fecore.isolated_iff` — when a request is isolated.
-/

namespace Fecore

/-! ### The handlers -/

/-- The namespace in the query of a request, and the labels of the namespaces. -/
structure NamespaceQuery where
  namespace_ : Str := []
  labels : Str → Except Str (GoMap Str) := fun _ => .ok ∅

namespace NamespaceQuery

/-- `lookupNamespace`. -/
def lookupNamespace (q : NamespaceQuery) : Str := getRequestNamespace q.namespace_

/-- The check that the handlers begin with: none is a valid namespace. -/
def check (q : NamespaceQuery) : Option Response :=
  match validNamespace q.labels q.lookupNamespace with
  | .error err => some (httpError err 400)
  | .ok false => some (httpError "namespace not valid".toList 400)
  | .ok true => none

end NamespaceQuery

/-- `types.FunctionStatus`; nothing sets the number of replicas of a function, which is zero. -/
structure FunctionStatus where
  name : Str
  image : Str
  replicas : ℕ := 0
  availableReplicas : ℕ := 0
  namespace_ : Str
  labels : GoMap Str
  annotations : GoMap Str
  secrets : List Str
  envVars : GoMap Str
  envProcess : Str
  /-- the limit of the memory, unless it is zero -/
  limits : Option ℤ := none

/-- `GetDeployedFunctions`. -/
def World.getDeployedFunctions (w : World) : List Function :=
  w.deployedFunctions.entries.filterMap fun e => w.heap[e.2]?

/-- The status of a function in the list. -/
def functionStatus (fn : Function) : FunctionStatus :=
  { name := fn.name
    image := fn.image
    namespace_ := fn.namespace_
    labels := fn.labels
    annotations := fn.annotations
    secrets := fn.secrets
    envVars := fn.envVars
    envProcess := fn.envProcess
    limits := if fn.memoryLimit = 0 then none else some fn.memoryLimit }

/-- The handler that `MakeReadHandler` makes. -/
def readHandler (q : NamespaceQuery) (w : World) : Except Response (List FunctionStatus) :=
  match q.check with
  | some response => .error response
  | none => .ok (w.getDeployedFunctions.map functionStatus)

/-- The status of a function under the name in the path. -/
def replicaStatus (functionName : Str) (f : Function) : FunctionStatus :=
  { name := functionName
    image := f.image
    availableReplicas := 99
    replicas := 99
    namespace_ := f.namespace_
    labels := f.labels
    annotations := f.annotations
    secrets := f.secrets
    envVars := f.envVars
    envProcess := f.envProcess }

/-- The handler that `MakeReplicaReaderHandler` makes. -/
def replicaReaderHandler (q : NamespaceQuery) (functionName : Str) (w : World) :
    Except Response FunctionStatus :=
  match q.check with
  | some response => .error response
  | none =>
    match w.fn? functionName with
    | some (_, f) => .ok (replicaStatus functionName f)
    | none => .error { statusCode := 404 }

/-- The handler that `MakeDeleteHandler` makes: what it leaves. -/
def checkedDelete (q : NamespaceQuery) (functionName : Str) (e : Env) (w : World) : World :=
  match q.check with
  | some _ => w
  | none =>
    (deleteHandler w { functionName := functionName, lookupNamespace := q.lookupNamespace } e).1

/-! ### Requests -/

/-- The function whose replica serves an invocation of `f`: for a hybrid function its warm sandbox
when this has an idle replica, and its cold one otherwise. -/
def World.servingOf (w : World) (f : Function) : Str :=
  if containerType f = hybrid then
    let warm := index f.sandboxes f.policy.warmStartCtrType
    if (w.fn? warm).any fun of => of.2.takeIdle.isSome then warm
    else index f.sandboxes f.policy.coldStartCtrType
  else f.name

/-- The name in the path of an invocation of a function in a namespace. -/
def nameIn (name namespace_ : Str) : Str := name ++ ".".toList ++ namespace_

/-- A request in a namespace: to list the functions, to read or to delete one, and an invocation
that `Resolve` resolves. -/
inductive NamespacedRequest (w : World)
  | list (q : NamespaceQuery)
  | replica (q : NamespaceQuery) (functionName : Str)
  | delete (q : NamespaceQuery) (functionName : Str) (e : Env)
  | invoke (name namespace_ : Str) (cold : Bool) (es : List Env) (e : Env) (r : Resolution)
      (resolved : w.resolve ⟨nameIn name namespace_, cold⟩ es e = some r)

namespace NamespacedRequest

variable {w : World}

/-- The namespace of the request. -/
def namespace_ : NamespacedRequest w → Str
  | list q => q.lookupNamespace
  | replica q _ => q.lookupNamespace
  | delete q _ _ => q.lookupNamespace
  | invoke _ namespace_ _ _ _ _ _ => namespace_

/-- The request reports, removes or invokes the function `f` that is deployed as `n`. -/
def Touches (n : Str) (f : Function) : NamespacedRequest w → Prop
  | list q => ∃ statuses, readHandler q w = .ok statuses ∧ functionStatus f ∈ statuses
  | replica q functionName =>
    functionName = n ∧ replicaReaderHandler q functionName w = .ok (replicaStatus n f)
  | delete q functionName e => (checkedDelete q functionName e w).fn? n = none
  | invoke name namespace_ _ _ _ r _ =>
    n = actualFunctionName (nameIn name namespace_) ∨ n = r.pc.serving

/-- **The request is isolated**: what it touches has been deployed in its namespace. -/
def Isolated (r : NamespacedRequest w) : Prop :=
  ∀ n o f, w.fn? n = some (o, f) → r.Touches n f → f.namespace_ = r.namespace_

/-- **The functions that the request comes to are in its namespace.** A list comes to all functions,
a delete request to the named one unless the storage fails, and an invocation to the one before the
last dot and to the one that serves it. -/
def StaysIn : NamespacedRequest w → Prop
  | list q => q.check = none → ∀ n o f, w.fn? n = some (o, f) → f.namespace_ = q.lookupNamespace
  | replica q functionName => q.check = none →
    ∀ o f, w.fn? functionName = some (o, f) → f.namespace_ = q.lookupNamespace
  | delete q functionName e => q.check = none → e.err = false →
    ∀ o f, w.fn? functionName = some (o, f) → f.namespace_ = q.lookupNamespace
  | invoke name namespace_ _ _ _ _ _ =>
    ∀ o f, w.fn? (actualFunctionName (nameIn name namespace_)) = some (o, f) →
      f.namespace_ = namespace_ ∧
        ∀ o g, w.fn? (w.servingOf f) = some (o, g) → g.namespace_ = namespace_

end NamespacedRequest

/-! ### Lists and reads -/

/-- The list has the status of every deployed function. -/
lemma functionStatus_mem {w : World} {n : Str} {o : Ref} {f : Function}
    (h : w.fn? n = some (o, f)) : functionStatus f ∈ w.getDeployedFunctions.map functionStatus := by
  obtain ⟨hlookup, hheap⟩ := World.fn?_eq_some.mp h
  exact List.mem_map_of_mem (List.mem_filterMap.mpr
    ⟨⟨n, o⟩, AList.mem_lookup_iff.mp hlookup, hheap⟩)

/-- A list is isolated when all functions are in its namespace. -/
lemma list_isolated_iff {w : World} (q : NamespaceQuery) :
    (NamespacedRequest.list (w := w) q).Isolated ↔ (NamespacedRequest.list (w := w) q).StaysIn := by
  constructor
  · intro h hcheck n o f hf
    refine h n o f hf ⟨_, ?_, functionStatus_mem hf⟩
    rw [readHandler, hcheck]
  · rintro h n o f hf ⟨statuses, hread, -⟩
    unfold readHandler at hread
    split at hread
    · cases hread
    · next hcheck => exact h hcheck n o f hf

/-- A read is isolated when the function it names is. -/
lemma replica_isolated_iff {w : World} (q : NamespaceQuery) (functionName : Str) :
    (NamespacedRequest.replica (w := w) q functionName).Isolated ↔
      (NamespacedRequest.replica (w := w) q functionName).StaysIn := by
  constructor
  · intro h hcheck o f hf
    refine h functionName o f hf ⟨rfl, ?_⟩
    rw [replicaReaderHandler, hcheck]
    simp only [hf]
  · rintro h n o f hf ⟨rfl, hread⟩
    unfold replicaReaderHandler at hread
    split at hread
    · cases hread
    · next hcheck => exact h hcheck o f hf

/-! ### Deletions -/

/-- The delete handler removes the function that it is called for, unless the storage fails.

**Proof sketch.** Without the function the handler panics in the store as it was. Otherwise it
deletes the replicas, which keeps the functions, then the rows, and at last the function
(`deleteHandler_eq`). -/
lemma deleteHandler_fn? {w : World} (hw : w.WellFormed) (req : DeleteRequest) (e : Env) (n : Str) :
    (deleteHandler w req e).1.fn? n =
      if e.err = false ∧ n = req.functionName then none else w.fn? n := by
  cases hf : w.fn? req.functionName with
  | none =>
    have hall : w.deleteAllReplicas req.lookupNamespace e.answers req.functionName =
        (w, some .absentFunction) := by
      simp only [World.deleteAllReplicas, hf]
    have hrun : deleteHandler w req e = (w, .panicked .absentFunction) := by
      simp [deleteHandler, solo, Thread.next, deleteNext, hall]
    rw [hrun]
    split
    · next hn => rw [hn.2, hf]
    · rfl
  | some of =>
    obtain ⟨o, f⟩ := of
    obtain ⟨w₁, hsame, -, hrun⟩ := deleteHandler_eq hw hf e
    rw [hrun]
    cases e.err with
    | true => rw [if_pos rfl, if_neg fun h => absurd h.1 (by decide), hsame.fn?]
    | false =>
      have hrows : (w₁.deleteRows req.functionName f).fn? n = w.fn? n := hsame.fn? n
      rw [if_neg Bool.false_ne_true, World.fn?_dropFunction, hrows]
      simp only [true_and]

/-- **Which function a delete request removes**: the one with its name, when the namespace is valid
and the storage does not fail. -/
theorem checkedDelete_fn? {w : World} (hw : w.WellFormed) (q : NamespaceQuery) (name : Str)
    (e : Env) {n : Str} {o : Ref} {f : Function} (hf : w.fn? n = some (o, f)) :
    (checkedDelete q name e w).fn? n = none ↔ q.check = none ∧ e.err = false ∧ n = name := by
  unfold checkedDelete
  cases hcheck : q.check with
  | some response => simp [hf]
  | none =>
    dsimp only
    rw [deleteHandler_fn? hw, hf]
    simp

/-- A delete request is isolated when the function it deletes is. -/
lemma delete_isolated_iff {w : World} (hw : w.WellFormed) (q : NamespaceQuery) (name : Str)
    (e : Env) :
    (NamespacedRequest.delete (w := w) q name e).Isolated ↔
      (NamespacedRequest.delete (w := w) q name e).StaysIn := by
  constructor
  · intro h hcheck herr o f hf
    exact h name o f hf ((checkedDelete_fn? hw q name e hf).mpr ⟨hcheck, herr, rfl⟩)
  · intro h n o f hf htouch
    obtain ⟨hcheck, herr, rfl⟩ := (checkedDelete_fn? hw q name e hf).mp htouch
    exact h hcheck herr o f hf

/-! ### Invocations -/

/-- What holds between the sections of `Resolve` on the store `w`, as far as it decides which
function serves. -/
def ServesFrom (w : World) (req : Request) (w' : World) : RequestPc → Prop
  | .resolve => w' = w
  | .policy fn => w' = w ∧ ∃ o f, w.fn? (actualFunctionName req.functionName) = some (o, f) ∧
      ResolvedFrom f fn ∧ fn.containerType = hybrid
  | .idle fn => w' = w ∧ ∃ o f, w.fn? (actualFunctionName req.functionName) = some (o, f) ∧
      ResolvedFrom f fn ∧ (fn.containerType = hybrid → fn.policy = f.policy)
  | .create fn _ => ∃ o f, w.fn? (actualFunctionName req.functionName) = some (o, f) ∧
      ResolvedFrom f fn ∧ (fn.containerType = hybrid → fn.policy = f.policy ∧
        (w.fn? fn.pool).any (fun of => of.2.takeIdle.isSome) = false)
  | _ => True

/-- **One section of `Resolve`** keeps to what decides which function serves.

**Proof sketch.** Case split on the section of `Resolve`: the function, its policy and its pool are
looked up in the same store, so each section records what the specification decides. -/
lemma ServesFrom.step {w w' w'' : World} {req : Request} {pc pc' : RequestPc} {e : Env}
    (hw : w.WellFormed) (h : ServesFrom w req w' pc)
    (hnext : resolveNext w' req pc e = some (w'', .running pc')) : ServesFrom w req w'' pc' := by
  cases pc with
  | resolve =>
    obtain rfl : w' = w := h
    simp only [resolveNext] at hnext
    split at hnext
    · cases hnext
    split at hnext
    · cases hnext
    next o f hf =>
      split at hnext
      · next hct =>
        cases hnext
        exact ⟨rfl, o, f, hf, ⟨rfl, rfl, rfl⟩, hct⟩
      next hct =>
      split at hnext
      · cases hnext
        exact ⟨o, f, hf, ⟨rfl, rfl, rfl⟩, fun heq => absurd heq hct⟩
      · cases hnext
        exact ⟨rfl, o, f, hf, ⟨rfl, rfl, rfl⟩, fun heq => absurd heq hct⟩
  | policy fn =>
    obtain ⟨rfl, o, f, hf, hof, hct⟩ := h
    have hname : w'.fn? fn.name = some (o, f) := by rw [hof.name, hw.named _ _ _ hf, hf]
    simp only [resolveNext, World.getInvocationPolicy, hname] at hnext
    cases hnext
    exact ⟨rfl, o, f, hf, ⟨hof.name, hof.sandboxes, hof.containerType⟩, fun _ => rfl⟩
  | idle fn =>
    obtain ⟨rfl, o, f, hf, hof, hpolicy⟩ := h
    cases hpool : w'.fn? fn.pool with
    | none =>
      simp only [resolveNext, World.getIdleReplica, hpool] at hnext
      cases hnext
    | some of =>
      cases htake : of.2.takeIdle with
      | none =>
        simp only [resolveNext, World.getIdleReplica, hpool, htake] at hnext
        cases hnext
        exact ⟨o, f, hf, hof, fun hct => ⟨hpolicy hct, by simp [hpool, htake]⟩⟩
      | some rf =>
        simp only [resolveNext, World.getIdleReplica, hpool, htake] at hnext
        cases hnext
  | create fn pc =>
    simp only [resolveNext, Option.map_eq_some_iff] at hnext
    obtain ⟨⟨w₁, created⟩, -, heq⟩ := hnext
    obtain ⟨-, hafter⟩ := Prod.mk.inj heq
    cases created with
    | running pc₁ =>
      cases hafter
      exact h
    | failed =>
      simp only [Resolving.afterCreate] at hafter
      split at hafter <;> cases hafter
    | _ => cases hafter
  | _ => cases hnext

/-- The last section of `Resolve` works for the function that serves.

**Proof sketch.** Only the look-up of an idle replica and the end of a creation return. For a hybrid
function the first one has found a replica in the sandbox of the warm starts, and the second one
comes after none was found there. -/
lemma ServesFrom.serving {w before after : World} {req : Request} {pc : RequestPc} {e : Env}
    {endpoint : Endpoint} (h : ServesFrom w req before pc)
    (hnext : resolveNext before req pc e = some (after, .returned endpoint)) :
    ∃ o f, w.fn? (actualFunctionName req.functionName) = some (o, f) ∧
      pc.serving = w.servingOf f := by
  cases pc with
  | resolve =>
    simp only [resolveNext] at hnext
    split at hnext
    · cases hnext
    split at hnext
    · cases hnext
    split at hnext
    · cases hnext
    split at hnext <;> cases hnext
  | policy fn =>
    simp only [resolveNext] at hnext
    split at hnext <;> cases hnext
  | idle fn =>
    obtain ⟨rfl, o, f, hf, hof, hpolicy⟩ := h
    refine ⟨o, f, hf, ?_⟩
    rw [RequestPc.serving, Resolving.pool, World.servingOf, ← hof.containerType, ← hof.sandboxes]
    split
    · next hct =>
      -- the warm sandbox has an idle replica
      have hidle : (before.fn? fn.pool).any (fun of => of.2.takeIdle.isSome) = true := by
        simp only [resolveNext, World.getIdleReplica] at hnext
        cases hpool : before.fn? fn.pool with
        | none => simp [hpool] at hnext
        | some of =>
          cases htake : of.2.takeIdle with
          | none => simp [hpool, htake] at hnext
          | some rf => simp [htake]
      rw [Resolving.pool, if_pos hct, hpolicy hct] at hidle
      rw [hpolicy hct]
      dsimp only
      rw [if_pos hidle]
    · exact hof.name
  | create fn pc =>
    obtain ⟨o, f, hf, hof, hpolicy⟩ := h
    refine ⟨o, f, hf, ?_⟩
    rw [RequestPc.serving, Resolving.call, World.servingOf, ← hof.containerType, ← hof.sandboxes]
    split
    · next hct =>
      obtain ⟨hpol, hidle⟩ := hpolicy hct
      rw [Resolving.pool, if_pos hct, hpol] at hidle
      rw [hpol]
      dsimp only
      rw [if_neg (by rw [hidle]; exact Bool.false_ne_true)]
    · exact hof.name
  | _ => cases hnext

/-- **Which function serves the invocations that `Resolve` resolves.**

**Proof sketch.** Between the sections of `Resolve` only the creation of a replica changes the
store, and by then it is decided whether the warm sandbox has an idle replica. -/
theorem resolve_serving {w : World} (hw : w.WellFormed) {req : Request} {es : List Env} {e : Env}
    {r : Resolution} (h : w.resolve req es e = some r) :
    ∃ o f, w.fn? (actualFunctionName req.functionName) = some (o, f) ∧
      r.pc.serving = w.servingOf f := by
  unfold World.resolve at h
  split at h
  · cases h
  next before pc hrun =>
  split at h
  swap
  · cases h
  next after endpoint hnext =>
  obtain rfl := Option.some.inj h
  have hstep : ∀ (p : World × RequestPc) (e : Env) (p' : World × RequestPc),
      ServesFrom w req p.1 p.2 → resolveStep req p e = some p' → ServesFrom w req p'.1 p'.2 := by
    intro p e p' hserves hs
    simp only [resolveStep] at hs
    split at hs
    · next w' pc' hnext =>
      cases hs
      exact hserves.step hw hnext
    · cases hs
  have hserves : ServesFrom w req before pc :=
    Runs.invariant (I := fun p : World × RequestPc => ServesFrom w req p.1 p.2) hstep
      (show ServesFrom w req w .resolve from rfl) hrun
  exact hserves.serving hnext

/-- An invocation is isolated when the function before the last dot and the one that serves it
are. -/
lemma invoke_isolated_iff {w : World} (hw : w.WellFormed) (name namespace_ : Str) (cold : Bool)
    (es : List Env) (e : Env) (r : Resolution)
    (resolved : w.resolve ⟨nameIn name namespace_, cold⟩ es e = some r) :
    (NamespacedRequest.invoke name namespace_ cold es e r resolved).Isolated ↔
      (NamespacedRequest.invoke name namespace_ cold es e r resolved).StaysIn := by
  obtain ⟨o, f, hf, hserving⟩ := resolve_serving hw resolved
  constructor
  · intro h o' f' hf'
    obtain ⟨rfl, rfl⟩ := Prod.mk.inj (Option.some.inj (hf.symm.trans hf'))
    refine ⟨h _ _ _ hf (.inl rfl), fun o' g hg => h _ _ _ hg (.inr hserving.symm)⟩
  · intro h n o' g hg htouch
    obtain ⟨hfns, hgns⟩ := h o f hf
    rcases htouch with rfl | rfl
    · obtain ⟨rfl, rfl⟩ := Prod.mk.inj (Option.some.inj (hf.symm.trans hg))
      exact hfns
    · exact hgns o' g (hserving ▸ hg)

/-- **When a request is isolated**: exactly when all the functions it comes to are in its namespace.

**Proof sketch.** The handlers look up functions by their names, so a list has them all, and the
other requests come to the functions that `StaysIn` names: for the delete requests by
`checkedDelete_fn?`, for the invocations by `resolve_serving`. -/
theorem isolated_iff {c : State} (hc : Reachable c) (r : NamespacedRequest c.shared) :
    r.Isolated ↔ r.StaysIn := by
  have hw := hc.wellFormed.1
  cases r with
  | list q => exact list_isolated_iff q
  | replica q functionName => exact replica_isolated_iff q functionName
  | delete q name e => exact delete_isolated_iff hw q name e
  | invoke name namespace_ cold es e r resolved =>
    exact invoke_isolated_iff hw name namespace_ cold es e r resolved

/-- An invocation of `f` in its namespace.

**Proof sketch.** The run is evaluated; the function and the one that serves it are both in the
namespace, which is all that `isolated_iff` asks. -/
theorem isolated_f :
    ∃ c r, ∃ resolved : c.shared.resolve ⟨nameIn "f".toList defaultFunctionNamespace, false⟩
        (List.replicate 5 { uuid := "1".toList }) {} = some r,
      smallRun (deployF nativeLabels) = some c ∧
        (NamespacedRequest.invoke "f".toList defaultFunctionNamespace false
          (List.replicate 5 { uuid := "1".toList }) {} r resolved).Isolated := by
  obtain ⟨c, hc, hlook⟩ := (Option.any_eq_true
    (fun c : State => (c.shared.resolve ⟨nameIn "f".toList defaultFunctionNamespace, false⟩
        (List.replicate 5 { uuid := "1".toList }) {}).isSome &&
      (c.shared.fn? (actualFunctionName (nameIn "f".toList defaultFunctionNamespace))).all
        fun (of : Ref × Function) => decide (of.2.namespace_ = defaultFunctionNamespace) &&
          (c.shared.fn? (c.shared.servingOf of.2)).all fun (og : Ref × Function) =>
            decide (og.2.namespace_ = defaultFunctionNamespace))
    (smallRun (deployF nativeLabels))).mp (by decide +kernel)
  obtain ⟨hres, hall⟩ := Bool.and_eq_true_iff.mp hlook
  obtain ⟨r, resolved⟩ := Option.isSome_iff_exists.mp hres
  refine ⟨c, r, resolved, hc, (isolated_iff (reachable_of_smallRun hc) _).mpr ?_⟩
  intro o f hf
  rw [hf, Option.all_some, Bool.and_eq_true, decide_eq_true_eq] at hall
  refine ⟨hall.1, fun o' g hg => ?_⟩
  have hserving := hall.2
  rw [hg, Option.all_some, decide_eq_true_eq] at hserving
  exact hserving

/-- The function `f` is deployed in the namespace `team-a`. -/
def deployTeamA : List Event :=
  .arrive (.deploy (.insert
    { service := "f".toList, namespace_ := "team-a".toList, labels := some nativeLabels })) ::
      sections 0 3

/-- A delete request without a namespace removes the function of `team-a`.

**Proof sketch.** Look for a run of the small provider in which the delete request takes the
function away. The function is of another namespace than the request. -/
theorem not_isolated_teamA :
    ∃ c o f, Reachable c ∧ c.shared.fn? "f".toList = some (o, f) ∧
      f.namespace_ = "team-a".toList ∧
      (NamespacedRequest.delete (w := c.shared) {} "f".toList {}).namespace_ =
        defaultFunctionNamespace ∧
      ¬ (NamespacedRequest.delete (w := c.shared) {} "f".toList {}).Isolated := by
  obtain ⟨c, hc, hlook⟩ := (Option.any_eq_true
    (fun c : State => ((c.shared.fn? "f".toList).any fun (of : Ref × Function) =>
        decide (of.2.namespace_ = "team-a".toList)) &&
      ((checkedDelete {} "f".toList {} c.shared).fn? "f".toList).isNone)
    (smallRun deployTeamA)).mp (by decide +kernel)
  obtain ⟨hdep, hgone⟩ := Bool.and_eq_true_iff.mp hlook
  obtain ⟨⟨o, f⟩, hf, hns⟩ := (Option.any_eq_true _ _).mp hdep
  have hns : f.namespace_ = "team-a".toList := of_decide_eq_true hns
  refine ⟨c, o, f, reachable_of_smallRun hc, hf, hns, rfl, fun h => ?_⟩
  have heq : f.namespace_ = defaultFunctionNamespace :=
    h _ _ _ hf (Option.isNone_iff_eq_none.mp hgone)
  rw [hns] at heq
  exact absurd heq (by decide)

end Fecore
