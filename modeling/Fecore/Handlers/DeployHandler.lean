import Mathlib.Tactic.Common
import Fecore.Handlers.Secrets

set_option relaxedAutoImplicit false
set_option autoImplicit false

/-!
# The handler of deploy requests

What the handler that `MakeDeployHandler` makes does before it calls `deploy`
(`pkg/provider/handlers/deploy.go`): it reads the body, and checks the namespace and the secrets.

## Main definitions

* `Fecore.DeployBody`, `Fecore.DeployCall` — a deploy request, and what the handler meets.
* `Fecore.validNamespace`, `Fecore.validateSecrets` — its checks.
* `Fecore.deployHandler` — what it rejects, and what it passes to `deploy`.

## Main results

* `Fecore.deployHandler_eq_ok` — what a request that is passed to `deploy` has gone through.
-/

namespace Fecore

/-- `types.FunctionDeployment`, as far as it is read. -/
structure DeployBody where
  service : Str
  image : Str := []
  namespace_ : Str := []
  envProcess : Str := []
  envVars : GoMap Str := ∅
  secrets : List Str := []
  labels : Option (GoMap Str) := none
  annotations : Option (GoMap Str) := none

/-- A deploy request: what `json.Unmarshal` makes of its body, none for a nil one, the labels of the
namespaces, and the files that `os.Stat` finds. -/
structure DeployCall where
  body : Option (Except Str DeployBody)
  labels : Str → Except Str (GoMap Str) := fun _ => .ok ∅
  stat : Str → Bool := fun _ => true

/-- `pkg.NamespaceLabel`. -/
def namespaceLabel : Str := "faasedge".toList

/-- `validNamespace`. -/
def validNamespace (labels : Str → Except Str (GoMap Str)) (namespace_ : Str) : Except Str Bool :=
  if namespace_ = defaultFunctionNamespace then .ok true
  else
    match labels namespace_ with
    | .error err => .error err
    | .ok labels => .ok (labels.lookup namespaceLabel = some "true".toList)

/-- `validateSecrets`: none is no error. -/
def validateSecrets (stat : Str → Bool) (secretMountPath : Str) : List Str → Option Str
  | [] => none
  | secret :: secrets =>
    if stat (Path.join [secretMountPath, secret]) then validateSecrets stat secretMountPath secrets
    else some ("unable to find secret: ".toList ++ secret)

/-- What the handler passes to `deploy` for a body: the request with its namespace, and the
directory of all secrets. -/
def DeployBody.deployment (secretMountPath : Str) (req : DeployBody) : FunctionDeployment :=
  { service := req.service
    namespace_ := getRequestNamespace req.namespace_
    envProcess := req.envProcess
    envVars := req.envVars
    labels := req.labels
    annotations := req.annotations
    secretMountPath := secretMountPath }

/-- The handler that `MakeDeployHandler` makes, up to its call of `deploy`: the error that it
responds, or what it passes on. -/
def deployHandler (secretMountPath : Str) (r : DeployCall) :
    Except Response FunctionDeployment :=
  match r.body with
  | none => .error (httpError "expected a body".toList 400)
  | some (.error err) => .error (httpError err 400)
  | some (.ok req) =>
    let namespace_ := getRequestNamespace req.namespace_
    match validNamespace r.labels namespace_ with
    | .error err => .error (httpError err 400)
    | .ok false => .error (httpError "namespace not valid".toList 400)
    | .ok true =>
      let namespaceSecretMountPath := getNamespaceSecretMountPath secretMountPath namespace_
      match validateSecrets r.stat namespaceSecretMountPath req.secrets with
      | some err => .error (httpError err 400)
      | none => .ok (req.deployment secretMountPath)

/-- The secrets are valid when the file of each is found. -/
lemma validateSecrets_eq_none {stat : Str → Bool} {secretMountPath : Str} {secrets : List Str} :
    validateSecrets stat secretMountPath secrets = none ↔
      ∀ secret ∈ secrets, stat (Path.join [secretMountPath, secret]) = true := by
  induction secrets with
  | nil => simp [validateSecrets]
  | cons secret secrets ih =>
    rw [validateSecrets, List.forall_mem_cons]
    split
    · next hstat => rw [ih, and_iff_right hstat]
    · next hstat => simp [hstat]

/-- **A request that is passed to `deploy`** has a body, a valid namespace, and a file for each of
its secrets.

**Proof sketch.** The four checks come one after another; the first one that fails answers with its
own error, so the request is passed on exactly when all of them succeed. -/
theorem deployHandler_eq_ok {secretMountPath : Str} {r : DeployCall} {req : FunctionDeployment} :
    deployHandler secretMountPath r = .ok req ↔
      ∃ body, r.body = some (.ok body) ∧
        validNamespace r.labels (getRequestNamespace body.namespace_) = .ok true ∧
        (∀ secret ∈ body.secrets, r.stat (Path.join [getNamespaceSecretMountPath secretMountPath
          (getRequestNamespace body.namespace_), secret]) = true) ∧
        req = body.deployment secretMountPath := by
  simp only [← validateSecrets_eq_none]
  unfold deployHandler
  constructor
  · intro h
    split at h
    · cases h
    · cases h
    next body hbody =>
      dsimp only at h
      split at h
      · cases h
      · cases h
      next hvalid =>
        split at h
        · cases h
        · next hsecrets => exact ⟨body, hbody, hvalid, hsecrets, (Except.ok.inj h).symm⟩
  · rintro ⟨body, hbody, hvalid, hsecrets, rfl⟩
    simp only [hbody, hvalid, hsecrets]

/-- The secrets of the provider that runs in `/var/lib/fecore`. -/
def secretsOfFecore : Str := baseUserSecretsPath "/var/lib/fecore".toList

end Fecore
