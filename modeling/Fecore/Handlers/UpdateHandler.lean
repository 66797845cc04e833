import Mathlib.Tactic.Common
import Fecore.Handlers.FailedCreations
import Fecore.Handlers.WasmImages

set_option relaxedAutoImplicit false
set_option autoImplicit false

/-!
# The handler of update requests

What the handler that `MakeUpdateHandler` makes does with a request
(`pkg/provider/handlers/update.go`): checks, then the removal of the network and of the container
with the name of the function, and a call of `deploy`. Two of the checks answer with an error and go
on.

## Main definitions

* `Fecore.UpdateRequest`, `Fecore.Updating` — an update request with what it meets, and what has
  been done for it so far.
* `Fecore.deleteCNINetwork`, `Fecore.updateHandler` — the removal of a network, and the handler.
* `Fecore.Updating.DidNothing` — nothing has been removed, and `deploy` has not been called.
* `Fecore.UpdateRequest.Refused` — the secrets or the image of the request are refused.
* `Fecore.UpdateRequest.StopsShort` — what follows the refusal changes nothing.

## Main results

* `Fecore.updateHandler_didNothing_iff` — when a refused request does nothing.
-/

namespace Fecore

/-! ### The steps of the handler -/

/-- What `DeleteCNINetwork` meets: which of its look-ups fail, the PID of the task, and whether
`cni.Remove` removes the network. -/
structure CNIAnswers where
  loadContainer : Bool := false
  task : Bool := false
  pid : ℕ := 0
  removed : Bool := true

/-- `DeleteCNINetwork`, whose errors are logged. -/
def deleteCNINetwork (a : CNIAnswers) (key : Key) (m : Machine) : Machine :=
  if key ∈ m.world.containerd.containers ∧ a.loadContainer = false then
    if a.task ∨ key ∉ m.world.containerd.tasks then m -- unable to find task
    else if a.removed then { m with networks := m.networks.erase (netID key.2 a.pid) }
    else m
  else m

/-- An update request, and what the handler meets: the error of `prepull`, the removals, and what
`deploy` meets. -/
structure UpdateRequest where
  call : DeployCall
  prepull : Option Str := none
  cni : CNIAnswers := {}
  remove : RemoveErrors := {}
  deploying : Deploying := {}
  deployErr : Str := []

/-- What has been done for a request: the node, the errors that `http.Error` has written, and what
each call of `deploy` has done on the disk. -/
structure Updating where
  machine : Machine
  errors : List Response := []
  deploys : List (List ImageCall) := []
  panicked : Bool := false

/-- `http.Error`. -/
def Updating.error (s : Updating) (msg : Str) (code : ℕ) : Updating :=
  { s with errors := s.errors ++ [httpError msg code] }

/-- The call of `deploy`, on a `Function{}` without a name, whose map of sandboxes is nil: an entry
cannot be made in it. -/
def Updating.deploy (s : Updating) (u : UpdateRequest) (req : DeployBody) : Updating :=
  let (calls, fn) :=
    deployFiles { req.deployment [] with service := [] } req.image u.deploying
  let s := { s with deploys := s.deploys ++ [calls] }
  match fn with
  | none => s.error u.deployErr 400
  | some fn => { s with panicked := fn.sandboxes.keys ≠ [] }

/-- A check that answers its error; the handler goes on. -/
def Updating.answer (s : Updating) (err : Option Str) (code : ℕ) : Updating :=
  match err with
  | some err => s.error err code
  | none => s

/-- The network and the container of the function are removed, and it is deployed; `replicas` is the
count of the function. -/
def Updating.redeploy (s : Updating) (replicas : ℤ) (u : UpdateRequest) (req : DeployBody)
    (key : Key) : Updating :=
  let m := if replicas ≠ 0 then deleteCNINetwork u.cni key s.machine else s.machine
  let (containerd, err) := u.remove.remove key m.world.containerd
  let s := { s with machine := m.mapContainerd fun _ => containerd }
  match err with
  | some err => s.error err 500
  | none => s.deploy u req

/-- The handler once it has found the function. -/
def updateFunction (namespaceSecretMountPath : Str) (replicas : ℤ) (u : UpdateRequest)
    (req : DeployBody) (key : Key) (s : Updating) : Updating :=
  let s := s.answer (validateSecrets u.call.stat namespaceSecretMountPath req.secrets) 400
  let s := s.answer u.prepull 500
  s.redeploy replicas u req key

/-- The handler that `MakeUpdateHandler` makes. -/
def updateHandler (secretMountPath : Str) (replicas : ℤ) (u : UpdateRequest) (m : Machine) :
    Updating :=
  let s : Updating := { machine := m }
  match u.call.body with
  | none => s.error "expected a body".toList 400
  | some (.error err) => s.error err 400
  | some (.ok req) =>
    let namespace_ := getRequestNamespace req.namespace_
    match validNamespace u.call.labels namespace_ with
    | .error err => s.error err 400
    | .ok false => s.error "namespace not valid".toList 400
    | .ok true =>
      match m.world.fn? req.service with
      | none =>
        s.error ("Cannot update. Service ".toList ++ req.service ++ " not found.".toList) 404
      | some _ =>
        updateFunction (getNamespaceSecretMountPath secretMountPath namespace_) replicas u req
          (namespace_, req.service) s

/-! ### What a refused request does -/

/-- **Nothing has been done** to the node, and `deploy` has not been called. -/
structure Updating.DidNothing (s : Updating) (m : Machine) : Prop where
  machine : s.machine = m
  deploys : s.deploys = []

/-- The request names a function, and its secrets or its image are refused. -/
def UpdateRequest.Refused (u : UpdateRequest) (secretMountPath : Str) (req : DeployBody)
    (m : Machine) : Prop :=
  u.call.body = some (.ok req) ∧
    validNamespace u.call.labels (getRequestNamespace req.namespace_) = .ok true ∧
      (m.world.fn? req.service).isSome = true ∧
        (validateSecrets u.call.stat (getNamespaceSecretMountPath secretMountPath
          (getRequestNamespace req.namespace_)) req.secrets ≠ none ∨ u.prepull ≠ none)

/-- `DeleteCNINetwork` removes a network. -/
def CNIAnswers.Removes (a : CNIAnswers) (key : Key) (m : Machine) : Prop :=
  (key ∈ m.world.containerd.containers ∧ a.loadContainer = false) ∧
    (a.task = false ∧ key ∈ m.world.containerd.tasks) ∧ a.removed = true ∧
      netID key.2 a.pid ∈ m.networks

/-- Nothing after the refusal changes the node: no network is removed, and `Remove` fails before it
has changed anything. -/
def UpdateRequest.StopsShort (u : UpdateRequest) (replicas : ℤ) (key : Key) (m : Machine) : Prop :=
  (replicas = 0 ∨ ¬ u.cni.Removes key m) ∧ u.remove.FailsFirst key m.world.containerd

/-- When `DeleteCNINetwork` changes nothing.

**Proof sketch.** Case split as the code does. Only the last case removes something, and a list from
which a member is erased is another one. -/
lemma deleteCNINetwork_eq_iff {a : CNIAnswers} {key : Key} {m : Machine} :
    deleteCNINetwork a key m = m ↔ ¬ a.Removes key m := by
  unfold deleteCNINetwork CNIAnswers.Removes
  by_cases hloads : key ∈ m.world.containerd.containers ∧ a.loadContainer = false
  · rw [if_pos hloads, and_iff_right hloads]
    by_cases htask : a.task = true ∨ key ∉ m.world.containerd.tasks
    · rw [if_pos htask]
      refine iff_of_true rfl fun h => ?_
      rcases htask with htask | htask
      · rw [h.1.1] at htask
        cases htask
      · exact htask h.1.2
    · rw [if_neg htask]
      have htask' : a.task = false ∧ key ∈ m.world.containerd.tasks := by simpa using htask
      rw [and_iff_right htask']
      obtain ⟨world, networks, replicaDirs⟩ := m
      cases a.removed <;> simp [List.erase_eq_self_iff]
  · rw [if_neg hloads]
    exact iff_of_true rfl fun h => hloads h.1

/-- The removal of a network leaves the store alone. -/
@[simp] lemma deleteCNINetwork_world (a : CNIAnswers) (key : Key) (m : Machine) :
    (deleteCNINetwork a key m).world = m.world := by
  unfold deleteCNINetwork
  split
  · split
    · rfl
    · split <;> rfl
  · rfl

/-- An answer does nothing to the node. -/
@[simp] lemma Updating.answer_machine (s : Updating) (err : Option Str) (code : ℕ) :
    (s.answer err code).machine = s.machine := by
  cases err <;> rfl

/-- An answer deploys nothing. -/
@[simp] lemma Updating.answer_deploys (s : Updating) (err : Option Str) (code : ℕ) :
    (s.answer err code).deploys = s.deploys := by
  cases err <;> rfl

/-- A call of `deploy` is on record. -/
lemma Updating.deploy_deploys (s : Updating) (u : UpdateRequest) (req : DeployBody) :
    (s.deploy u req).deploys ≠ [] := by
  unfold Updating.deploy
  dsimp only
  split
  · exact List.append_ne_nil_of_right_ne_nil _ (List.cons_ne_nil _ _)
  · exact List.append_ne_nil_of_right_ne_nil _ (List.cons_ne_nil _ _)

/-- What the handler does once it has found the function, whatever it has answered.

**Proof sketch.** The deletion of the network must change nothing, and then `Remove` must fail
without having changed anything (`RemoveErrors.remove_eq_iff`); if it succeeds, the handler
deploys. -/
lemma redeploy_didNothing_iff {s : Updating} {replicas : ℤ} {u : UpdateRequest} {req : DeployBody}
    {key : Key} (hdeploys : s.deploys = []) :
    (s.redeploy replicas u req key).DidNothing s.machine ↔ u.StopsShort replicas key s.machine := by
  set m := if replicas ≠ 0 then deleteCNINetwork u.cni key s.machine else s.machine with hm
  have hworld : m.world = s.machine.world := by
    rw [hm]
    split
    · exact deleteCNINetwork_world _ _ _
    · rfl
  have hsame : m = s.machine ↔ replicas = 0 ∨ ¬ u.cni.Removes key s.machine := by
    rw [hm]
    by_cases hrep : replicas = 0
    · simp [hrep]
    · rw [if_pos hrep, deleteCNINetwork_eq_iff, or_iff_right hrep]
  rw [UpdateRequest.StopsShort, ← hsame, ← RemoveErrors.remove_eq_iff]
  simp only [Updating.redeploy, ← hm, hworld]
  rcases u.remove.remove key s.machine.world.containerd with ⟨containerd, err⟩
  cases err with
  | none =>
    exact iff_of_false (fun h => Updating.deploy_deploys _ _ _ h.deploys) fun h => h.2.2 rfl
  | some err =>
    have hmachine : m.mapContainerd (fun _ => containerd) = s.machine ↔
        m = s.machine ∧ containerd = s.machine.world.containerd := by
      constructor
      · intro heq
        have hcontainerd : containerd = s.machine.world.containerd :=
          congrArg (fun m : Machine => m.world.containerd) heq
        refine ⟨?_, hcontainerd⟩
        rw [← heq, hcontainerd, ← hworld]
        rfl
      · rintro ⟨hmeq, rfl⟩
        rw [hmeq]
        rfl
    constructor
    · intro h
      obtain ⟨hmeq, hcontainerd⟩ := hmachine.mp h.machine
      exact ⟨hmeq, hcontainerd, by simp⟩
    · rintro ⟨hmeq, hcontainerd, -⟩
      exact ⟨hmachine.mpr ⟨hmeq, hcontainerd⟩, hdeploys⟩

/-- **When a refused request does nothing more**: exactly when the removals that follow change
nothing, and the second of them fails.

**Proof sketch.** The answers of the two checks are not followed by a return, so the handler goes on
as for any other request. It calls `deploy` unless `Remove` fails, and `Remove` fails before it has
changed anything as `RemoveErrors.remove_eq_iff` says. -/
theorem updateHandler_didNothing_iff {secretMountPath : Str} {replicas : ℤ} {u : UpdateRequest}
    {req : DeployBody} {m : Machine} (hrefused : u.Refused secretMountPath req m) :
    (updateHandler secretMountPath replicas u m).DidNothing m ↔
      u.StopsShort replicas (getRequestNamespace req.namespace_, req.service) m := by
  obtain ⟨hbody, hvalid, hfound, -⟩ := hrefused
  obtain ⟨of, hof⟩ := Option.isSome_iff_exists.mp hfound
  set s := (({ machine := m } : Updating).answer (validateSecrets u.call.stat
    (getNamespaceSecretMountPath secretMountPath (getRequestNamespace req.namespace_))
      req.secrets) 400).answer u.prepull 500 with hs
  have hmachine : s.machine = m := by
    rw [hs, Updating.answer_machine, Updating.answer_machine]
  have hdeploys : s.deploys = [] := by
    rw [hs, Updating.answer_deploys, Updating.answer_deploys]
  have hgo : updateHandler secretMountPath replicas u m =
      s.redeploy replicas u req (getRequestNamespace req.namespace_, req.service) := by
    simp only [updateHandler, hbody, hvalid, hof, updateFunction, hs]
  rw [hgo, ← hmachine]
  exact redeploy_didNothing_iff hdeploys

/-- The function `f` with a container of its name, which runs. -/
def machineServingF : Machine :=
  { machineF with
    world := { machineF.world with
      containerd :=
        { containers := [(defaultFunctionNamespace, "f".toList)]
          tasks := [(defaultFunctionNamespace, "f".toList)] } } }

/-- An update of `f` with a secret that is not there. -/
def updateWithoutSecret : UpdateRequest where
  call :=
    { body := some (.ok { service := "f".toList, secrets := ["key".toList] })
      stat := fun _ => false }

/-- The update is refused, whatever the removal would meet. -/
lemma updateWithoutSecret_refused (remove : RemoveErrors) :
    UpdateRequest.Refused { updateWithoutSecret with remove := remove } secretsOfFecore
      { service := "f".toList, secrets := ["key".toList] } machineServingF :=
  ⟨rfl, rfl, rfl, .inl nofun⟩

/-- The task of the container cannot be found out: nothing more is done. -/
theorem updateHandler_didNothing_task :
    (updateHandler secretsOfFecore 0
      { updateWithoutSecret with remove := { task := some "unavailable".toList } }
      machineServingF).DidNothing machineServingF :=
  (updateHandler_didNothing_iff
    (updateWithoutSecret_refused { task := some "unavailable".toList })).mpr
      ⟨.inl rfl, ⟨List.mem_cons_self, rfl⟩, .inl (by simp)⟩

/-- Otherwise the container is removed after the answer, and `deploy` is called. -/
theorem not_updateHandler_didNothing :
    updateWithoutSecret.Refused secretsOfFecore
        { service := "f".toList, secrets := ["key".toList] } machineServingF ∧
      (updateHandler secretsOfFecore 0 updateWithoutSecret machineServingF).errors.map
        (·.statusCode) = [400] ∧
      (updateHandler secretsOfFecore 0 updateWithoutSecret
        machineServingF).machine.world.containerd.containers = [] ∧
      ¬ (updateHandler secretsOfFecore 0 updateWithoutSecret
        machineServingF).DidNothing machineServingF := by
  refine ⟨updateWithoutSecret_refused {}, by decide +kernel, by decide +kernel, fun h => ?_⟩
  have hdeploys := congrArg List.length h.deploys
  revert hdeploys
  decide +kernel

end Fecore
