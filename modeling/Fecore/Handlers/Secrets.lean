import Mathlib.Tactic.Common
import Fecore.Data.Path
import Fecore.Handlers.Provider

set_option relaxedAutoImplicit false
set_option autoImplicit false

/-!
# The secrets

The requests that create and delete secrets (`pkg/provider/handlers/secret.go`). A secret is a file
in the directory of its namespace, and this directory is one in `mountPath`; the path of both is put
together from strings of the request.

## Main definitions

* `Fecore.validateSecret`, `Fecore.createSecret`, `Fecore.deleteSecret`, `Fecore.secretHandler` —
  the handler.
* `Fecore.FileCall`, `Fecore.SecretRequest.Contained` — the calls that change files, and that they
  stay under `mountPath`.
* `Fecore.SecretRequest.StaysBelow` — the namespace and the name of the request lead right below
  the directories that they are joined to.

## Main results

* `Fecore.directChild_secretDir_iff` — when the directory of a namespace is one in `mountPath`.
* `Fecore.secretsContained_iff` — the requests whose calls stay under `mountPath`.
-/

namespace Fecore

/-! ### The handler -/

/-- A secret in the body of a request. -/
structure Secret where
  name : Str := []
  namespace_ : Str := []
  value : Str := []
  rawValue : Str := []

/-- The method of a request. -/
inductive Method
  | get
  | post
  | put
  | delete
  | other
deriving DecidableEq

/-- What is written to the client. -/
structure Response where
  statusCode : ℕ := 200
  body : Str := []

/-- The errors of the calls that change files, and what `listSecrets`, which only reads, makes of
the files. -/
structure FileAnswers where
  mkdirAll : Option Str := none
  writeFile : Option Str := none
  remove : Option Str := none
  listSecrets : Response := {}

/-- A request to the handler: what `parseSecret` makes of its body, the namespace in its query, and
what the operating system answers. -/
structure SecretRequest where
  method : Method
  body : Except Str Secret := .ok {}
  namespace_ : Str := []
  answers : FileAnswers := {}

/-- A call that changes files. -/
inductive FileCall
  | mkdirAll (path : Str)
  | writeFile (path data : Str)
  | remove (path : Str)

/-- `http.Error`. -/
def httpError (err : Str) (statusCode : ℕ) : Response :=
  { statusCode := statusCode, body := err ++ "\n".toList }

/-- `getRequestNamespace`. -/
def getRequestNamespace (namespace_ : Str) : Str :=
  if 0 < namespace_.length then namespace_ else defaultFunctionNamespace

/-- `getNamespaceSecretMountPath`. -/
def getNamespaceSecretMountPath (userSecretPath namespace_ : Str) : Str :=
  Path.join [userSecretPath, namespace_]

/-- `unicode.IsSpace`. -/
def isSpace (c : Char) : Bool :=
  let n := c.toNat
  (0x09 ≤ n ∧ n ≤ 0x0d) ∨ n ∈ [0x20, 0x85, 0xa0, 0x1680] ∨ (0x2000 ≤ n ∧ n ≤ 0x200a) ∨
    n ∈ [0x2028, 0x2029, 0x202f, 0x205f, 0x3000]

/-- `strings.TrimSpace`. -/
def trimSpace (s : Str) : Str := ((s.dropWhile isSpace).reverse.dropWhile isSpace).reverse

/-- `isTraversal`. -/
def isTraversal (name : Str) : Bool := contains name "/".toList || contains name "..".toList

/-- `validateSecret`: none is no error. -/
def validateSecret (secret : Secret) : Option Str :=
  if trimSpace secret.name = [] then some "non-empty name is required".toList
  else if isTraversal secret.name then some "directory traversal found in name".toList
  else none

/-- `createSecret`: its calls, and what it responds. -/
def createSecret (mountPath : Str) (r : SecretRequest) : List FileCall × Response :=
  match r.body with
  | .error err => ([], httpError err 500)
  | .ok secret =>
    match validateSecret secret with
    | some err => ([], httpError err 400)
    | none =>
      let namespace_ := getRequestNamespace secret.namespace_
      let mountPath := getNamespaceSecretMountPath mountPath namespace_
      match r.answers.mkdirAll with
      | some err => ([.mkdirAll mountPath], httpError err 500)
      | none =>
        let data := if secret.rawValue = [] then secret.value else secret.rawValue
        ([.mkdirAll mountPath, .writeFile (Path.join [mountPath, secret.name]) data],
          match r.answers.writeFile with
          | some err => httpError err 500
          | none => {})

/-- `deleteSecret`: its calls, and what it responds. -/
def deleteSecret (mountPath : Str) (r : SecretRequest) : List FileCall × Response :=
  match r.body with
  | .error err => ([], httpError err 500)
  | .ok secret =>
    let namespace_ := getRequestNamespace r.namespace_
    let mountPath := getNamespaceSecretMountPath mountPath namespace_
    ([.remove (Path.join [mountPath, secret.name])],
      match r.answers.remove with
      | some err => httpError err 500
      | none => {})

/-- The handler that `MakeSecretHandler` makes. -/
def secretHandler (mountPath : Str) (r : SecretRequest) : List FileCall × Response :=
  match r.method with
  | .get => ([], r.answers.listSecrets)
  | .post => createSecret mountPath r
  | .put => createSecret mountPath r
  | .delete => deleteSecret mountPath r
  | .other => ([], { statusCode := 400 })

/-- `baseUserSecretsPath` of the provider, which runs in the directory `wd`. -/
def baseUserSecretsPath (wd : Str) : Str := Path.join [wd, "secrets".toList]

/-! ### Containment -/

/-- The namespace that the request names: in its query when it deletes a secret, otherwise in its
body. -/
def SecretRequest.namespaceName (r : SecretRequest) : Str :=
  match r.method, r.body with
  | .delete, _ => r.namespace_
  | _, .ok secret => secret.namespace_
  | _, .error _ => []

/-- The directory for the secrets of the namespace. -/
def SecretRequest.secretDir (mountPath : Str) (r : SecretRequest) : Str :=
  getNamespaceSecretMountPath mountPath (getRequestNamespace r.namespaceName)

/-- The call makes the directory, or it writes or removes a file right below it. -/
def FileCall.IsFor (dir : Str) : FileCall → Prop
  | mkdirAll path => path = dir
  | writeFile path _ => Path.DirectChild dir path
  | remove path => Path.DirectChild dir path

/-- **The calls of the request stay under `mountPath`**: the directory is a direct child of
`mountPath`, and the file of the secret is a direct child of the directory. -/
def SecretRequest.Contained (mountPath : Str) (r : SecretRequest) : Prop :=
  ∀ call ∈ (secretHandler mountPath r).1,
    Path.DirectChild mountPath (r.secretDir mountPath) ∧ call.IsFor (r.secretDir mountPath)

/-- A request to create the secret is rejected, or its namespace leads right below `mountPath`, and
its name is no dot if the directory can be made. -/
def SecretRequest.CreatesBelow (mountPath : Str) (r : SecretRequest) (secret : Secret) : Prop :=
  validateSecret secret = none →
    Path.LeadsBelow mountPath (getRequestNamespace secret.namespace_) ∧
      (r.answers.mkdirAll = none → secret.name ≠ ".".toList)

/-- A request to delete the secret has a namespace that leads right below `mountPath`, and a name
that leads right below the directory of the namespace. -/
def SecretRequest.DeletesBelow (mountPath : Str) (r : SecretRequest) (secret : Secret) : Prop :=
  Path.LeadsBelow mountPath (getRequestNamespace r.namespace_) ∧
    Path.LeadsBelow (getNamespaceSecretMountPath mountPath (getRequestNamespace r.namespace_))
      secret.name

/-- The request creates or deletes its secret below `mountPath`. -/
def SecretRequest.StaysBelow (mountPath : Str) (r : SecretRequest) : Prop :=
  match r.method, r.body with
  | .post, .ok secret => r.CreatesBelow mountPath secret
  | .put, .ok secret => r.CreatesBelow mountPath secret
  | .delete, .ok secret => r.DeletesBelow mountPath secret
  | _, _ => True

/-- The path of the secrets is clean and has a last name. -/
lemma baseUserSecretsPath_clean (wd : Str) :
    Path.clean (baseUserSecretsPath wd) = baseUserSecretsPath wd ∧
      (Path.steps (baseUserSecretsPath wd)).down ≠ [] := by
  have hname : Path.ProperName "secrets".toList :=
    ⟨by decide, by decide, by decide, by decide⟩
  refine ⟨Path.clean_join _ (by simp), ?_⟩
  by_cases hwd : wd = []
  · rw [hwd]
    decide
  · have hproper : ∀ n ∈ ((Path.steps wd).comp (Path.steps "secrets".toList)).down,
        Path.ProperName n := by
      rw [← Path.steps_append_cons]
      exact fun n hn => Path.properName_of_mem_steps hn
    rw [baseUserSecretsPath, Path.join_pair hwd, Path.steps_render _ hproper,
      Path.steps_of_notMem hname.noSlash, hname.step]
    simp [Path.Steps.comp]

/-- **The directory of a namespace** is a direct child of `mountPath` exactly when the namespace
leads right below it. -/
lemma directChild_secretDir_iff {mountPath : Str} (hclean : Path.clean mountPath = mountPath)
    (hne : (Path.steps mountPath).down ≠ []) (namespace_ : Str) :
    Path.DirectChild mountPath (getNamespaceSecretMountPath mountPath namespace_) ↔
      Path.LeadsBelow mountPath namespace_ :=
  Path.directChild_join_iff hclean hne namespace_

/-- **The file of a secret** is a direct child of a directory of a namespace that is one of
`mountPath` exactly when its name leads right below this directory. -/
lemma directChild_secretFile_iff {mountPath : Str} (hclean : Path.clean mountPath = mountPath)
    {namespace_ : Str}
    (hdir : Path.DirectChild mountPath (getNamespaceSecretMountPath mountPath namespace_))
    (name : Str) :
    Path.DirectChild (getNamespaceSecretMountPath mountPath namespace_)
        (Path.join [getNamespaceSecretMountPath mountPath namespace_, name]) ↔
      Path.LeadsBelow (getNamespaceSecretMountPath mountPath namespace_) name :=
  Path.directChild_join_iff
    (Path.clean_join _ (by simp [Path.ne_nil_of_clean hclean])) hdir.steps_ne_nil name

/-- What `validateSecret` lets pass: a name without separators that is not `..`.

**Proof sketch.** Split the two checks. A name that contains neither of the two patterns is not
`..`, and has no separator. -/
lemma validateSecret_eq_none {secret : Secret} (h : validateSecret secret = none) :
    secret.name ≠ [] ∧ secret.name ≠ "..".toList ∧ '/' ∉ secret.name := by
  unfold validateSecret at h
  split at h
  · cases h
  · next htrim =>
    split at h
    · cases h
    · next htrav =>
      rw [isTraversal, Bool.or_eq_true, contains_iff, contains_iff, not_or] at htrav
      refine ⟨?_, ?_, ?_⟩
      · intro hnil
        rw [hnil] at htrim
        exact htrim rfl
      · intro heq
        exact htrav.2 (by rw [heq])
      · intro hmem
        obtain ⟨l, r, heq⟩ := List.append_of_mem hmem
        exact htrav.1 ⟨l, r, by rw [heq]; simp⟩

/-- **A request to create a secret** stays under `mountPath` exactly when it meets the
condition.

**Proof sketch.** Case split on the calls that are made. The directory is right by
`directChild_secretDir_iff`; a name that has been validated has no slash, so that its file lies
below unless it is `.` (`directChild_secretFile_iff`). -/
lemma createSecret_contained_iff {mountPath : Str} (hclean : Path.clean mountPath = mountPath)
    (hne : (Path.steps mountPath).down ≠ []) {r : SecretRequest} {secret : Secret}
    (hbody : r.body = .ok secret) :
    (∀ call ∈ (createSecret mountPath r).1,
      Path.DirectChild mountPath
          (getNamespaceSecretMountPath mountPath (getRequestNamespace secret.namespace_)) ∧
        call.IsFor
          (getNamespaceSecretMountPath mountPath (getRequestNamespace secret.namespace_))) ↔
      r.CreatesBelow mountPath secret := by
  rw [createSecret, hbody, SecretRequest.CreatesBelow, ← directChild_secretDir_iff hclean hne]
  dsimp only
  cases hval : validateSecret secret with
  | some err => simp
  | none =>
    cases hmk : r.answers.mkdirAll with
    | some err => simp [FileCall.IsFor]
    | none =>
      obtain ⟨hnil, hdotdot, hslash⟩ := validateSecret_eq_none hval
      have hname : ∀ dir, Path.LeadsBelow dir secret.name ↔ secret.name ≠ ".".toList := by
        intro dir
        rw [Path.leadsBelow_iff_of_notMem hslash]
        exact ⟨fun h => h.ne_dot, fun h => ⟨hnil, h, hdotdot, hslash⟩⟩
      simp only [List.forall_mem_cons, List.not_mem_nil, false_imp_iff, implies_true, and_true,
        FileCall.IsFor, forall_const]
      refine ⟨fun h => ⟨h.1, ?_⟩, fun h => ⟨h.1, h.1, ?_⟩⟩
      · exact (hname _).mp ((directChild_secretFile_iff hclean h.1 _).mp h.2.2)
      · exact (directChild_secretFile_iff hclean h.1 _).mpr ((hname _).mpr h.2)

/-- **A request to delete a secret** stays under `mountPath` exactly when it meets the
condition. -/
lemma deleteSecret_contained_iff {mountPath : Str} (hclean : Path.clean mountPath = mountPath)
    (hne : (Path.steps mountPath).down ≠ []) {r : SecretRequest} {secret : Secret}
    (hbody : r.body = .ok secret) :
    (∀ call ∈ (deleteSecret mountPath r).1,
      Path.DirectChild mountPath
          (getNamespaceSecretMountPath mountPath (getRequestNamespace r.namespace_)) ∧
        call.IsFor (getNamespaceSecretMountPath mountPath (getRequestNamespace r.namespace_))) ↔
      r.DeletesBelow mountPath secret := by
  rw [deleteSecret, hbody, SecretRequest.DeletesBelow, ← directChild_secretDir_iff hclean hne]
  simp only [List.forall_mem_cons, List.not_mem_nil, false_imp_iff, implies_true, and_true,
    FileCall.IsFor]
  exact and_congr_right fun h => directChild_secretFile_iff hclean h _

/-- **One request** stays under `mountPath` exactly when it meets the condition of its method. -/
lemma SecretRequest.contained_iff {mountPath : Str} (hclean : Path.clean mountPath = mountPath)
    (hne : (Path.steps mountPath).down ≠ []) (r : SecretRequest) :
    r.Contained mountPath ↔ r.StaysBelow mountPath := by
  simp only [Contained, StaysBelow, secretHandler, secretDir, namespaceName]
  obtain ⟨method, body, namespace_, answers⟩ := r
  cases body with
  | error err => cases method <;> simp [createSecret, deleteSecret]
  | ok secret =>
    cases method with
    | get => simp
    | post => exact createSecret_contained_iff hclean hne rfl
    | put => exact createSecret_contained_iff hclean hne rfl
    | delete => exact deleteSecret_contained_iff hclean hne rfl
    | other => simp

/-- **The sequences of requests whose calls stay under `mountPath`**: the namespace and the name of
each request lead right below it.

**Proof sketch.** `Path.directChild_join_iff` says what a string that is joined to a directory must
do. A name that has been checked has no separator and is not `..`, so only the name `.` leads
nowhere; the names of the delete requests and the namespaces are not checked. -/
theorem secretsContained_iff (wd : Str) (requests : List SecretRequest) :
    (∀ r ∈ requests, r.Contained (baseUserSecretsPath wd)) ↔
      ∀ r ∈ requests, r.StaysBelow (baseUserSecretsPath wd) := by
  obtain ⟨hclean, hne⟩ := baseUserSecretsPath_clean wd
  exact forall₂_congr fun r _ => r.contained_iff hclean hne

/-- A request for a secret of the namespace `../../etc`. -/
def traversal : SecretRequest :=
  { method := .post
    body := .ok { name := "passwd".toList, namespace_ := "../../etc".toList } }

/-- The request leaves `mountPath`. -/
theorem not_secretsContained_traversal :
    ¬ ∀ r ∈ [traversal], r.Contained (baseUserSecretsPath "/var/lib/fecore".toList) := by
  intro h
  obtain ⟨hclean, hne⟩ := baseUserSecretsPath_clean "/var/lib/fecore".toList
  have hbelow : traversal.CreatesBelow (baseUserSecretsPath "/var/lib/fecore".toList)
      { name := "passwd".toList, namespace_ := "../../etc".toList } :=
    (traversal.contained_iff hclean hne).mp (h _ List.mem_cons_self)
  exact absurd (hbelow (by decide +kernel)).1 (by decide +kernel)

end Fecore
