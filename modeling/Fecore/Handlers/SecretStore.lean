import Mathlib.Tactic.Common
import Fecore.Data.Assoc
import Fecore.Data.Files
import Fecore.Handlers.DeployHandler
import Fecore.Handlers.Secrets

set_option relaxedAutoImplicit false
set_option autoImplicit false

/-!
# The store of the secrets

The handler of `pkg/provider/handlers/secret.go` over a tree of files, against a map from namespaces
and names to secrets, which is what its clients are to see.

## Main definitions

* `Fecore.listSecrets`, `Fecore.serveSecret` — the handler, with the files that it finds and
  changes.
* `Fecore.SecretMap`, `Fecore.SecretMap.serve` — the map, and what a request does to it.
* `Fecore.SecretTree` — the directory of the secrets holds directories for namespaces, and these
  hold files.

## Main results

* `Fecore.serveSecret_refines` — one request does to the files what it does to the map.
* `Fecore.serveSecrets_refine` — so does every sequence of requests, and a deployment finds the
  secrets of the map.

## Design

A call of the operating system can fail at any time, and a file that is being written can keep any
part of its new content. The requests are those whose namespace and name lead right below the
directories that they are joined to.
-/

namespace Fecore

open Files (Tree Node)

/-! ### The handler and its files -/

/-- What a request meets: the labels of the namespaces, and the calls of the operating system that
fail. -/
structure SecretEnv where
  labels : Str → Except Str (GoMap Str) := fun _ => .ok ∅
  mkdirAll : Option Str := none
  /-- the error, and how much has been written if the file has been opened -/
  writeFile : Option (Str × Option ℕ) := none
  remove : Option Str := none
  readDir : Option Str := none

/-- A call that changes files, and its error. -/
def FileCall.perform (env : SecretEnv) (t : Tree) : FileCall → Tree × Option Str
  | mkdirAll path =>
    match env.mkdirAll with
    | some err => (t, some err)
    | none => (t.mkdirAll path).map id (Option.map (Files.pathError "mkdir".toList path))
  | writeFile path data =>
    match env.writeFile with
    | some (err, none) => (t, some err)
    | some (err, some n) => ((t.writeFile path (data.take n)).1, some err)
    | none => (t.writeFile path data).map id (Option.map (Files.pathError "open".toList path))
  | remove path =>
    match env.remove with
    | some err => (t, some err)
    | none => (t.remove path).map id (Option.map (Files.pathError "remove".toList path))

section Handler

variable (mountPath : Str) (marshal : List Secret → Str)

/-- `listSecrets` -/
def listSecrets (env : SecretEnv) (t : Tree) (namespace_ : Str) : Response :=
  let lookupNamespace := getRequestNamespace namespace_
  match validNamespace env.labels lookupNamespace with
  | .error err => httpError err 400
  | .ok false => httpError "namespace not valid".toList 400
  | .ok true =>
    let mountPath := getNamespaceSecretMountPath mountPath lookupNamespace
    match env.readDir with
    | some err => httpError err 500
    | none =>
      match t.readDir mountPath with
      | .error .enoent => { body := marshal [] }
      | .error err => httpError (Files.pathError "open".toList mountPath err) 500
      | .ok files =>
        { body := marshal (files.map fun f => { name := f, namespace_ := lookupNamespace }) }

/-- The path of the file of a secret. -/
def SecretRequest.secretFile (r : SecretRequest) (secret : Secret) : Str :=
  Path.join [r.secretDir mountPath, secret.name]

/-- What is written of a secret. -/
def Secret.data (secret : Secret) : Str :=
  if secret.rawValue = [] then secret.value else secret.rawValue

/-- What the operating system answers to the request. -/
def SecretRequest.answersOf (r : SecretRequest) (env : SecretEnv) (t : Tree) : FileAnswers :=
  let made := FileCall.perform env t (.mkdirAll (r.secretDir mountPath))
  match r.body with
  | .error _ => { listSecrets := listSecrets mountPath marshal env t r.namespace_ }
  | .ok secret =>
    let file := r.secretFile mountPath secret
    { mkdirAll := made.2
      writeFile := (FileCall.perform env made.1 (.writeFile file secret.data)).2
      remove := (FileCall.perform env t (.remove file)).2
      listSecrets := listSecrets mountPath marshal env t r.namespace_ }

/-- The files after the calls, with the response. -/
def performAll (env : SecretEnv) (t : Tree) (out : List FileCall × Response) : Tree × Response :=
  (out.1.foldl (fun t call => (call.perform env t).1) t, out.2)

/-- **The handler**, with the files that it finds and leaves. -/
def serveSecret (env : SecretEnv) (t : Tree) (r : SecretRequest) : Tree × Response :=
  performAll env t
    (secretHandler mountPath { r with answers := r.answersOf mountPath marshal env t })

/-- Requests one after the other. -/
def serveSecrets : Tree → List (SecretEnv × SecretRequest) → Tree × List Response
  | t, [] => (t, [])
  | t, (env, r) :: requests =>
    let (t, response) := serveSecret mountPath marshal env t r
    let (t, responses) := serveSecrets t requests
    (t, response :: responses)

end Handler

/-! ### The map -/

/-- **The secrets**, by their namespaces and names. -/
abbrev SecretMap := Str → Str → Option Str

/-- The map with another entry, or without it. -/
def SecretMap.set (m : SecretMap) (ns name : Str) (value : Option Str) : SecretMap :=
  fun ns' name' => if ns' = ns ∧ name' = name then value else m ns' name'

/-- The map after a secret has been created, and the status: it keeps what it had, or has what has
been written of the secret. -/
def SecretMap.create (m : SecretMap) (env : SecretEnv) (ns name : Str) (secret : Secret) :
    SecretMap × ℕ :=
  if (validateSecret secret).isSome then (m, 400)
  else if env.mkdirAll.isSome then (m, 500)
  else
    match env.writeFile with
    | none => (m.set ns name (some secret.data), 200)
    | some (_, none) => (m, 500)
    | some (_, some n) => (m.set ns name (some (secret.data.take n)), 500)

/-- The map after a secret has been deleted, and the status. -/
def SecretMap.delete (m : SecretMap) (env : SecretEnv) (ns name : Str) : SecretMap × ℕ :=
  if env.remove.isNone ∧ (m ns name).isSome then (m.set ns name none, 200) else (m, 500)

/-- The status of a list of secrets. -/
def listStatus (env : SecretEnv) (namespace_ : Str) : ℕ :=
  match validNamespace env.labels namespace_ with
  | .error _ | .ok false => 400
  | .ok true => if env.readDir.isSome then 500 else 200

/-- **What a request does to the map**, in the namespace and for the name to which its strings
lead. -/
def SecretMap.serve (m : SecretMap) (env : SecretEnv) (ns name : Str) (r : SecretRequest) :
    SecretMap × ℕ :=
  match r.method, r.body with
  | .get, _ => (m, listStatus env (getRequestNamespace r.namespace_))
  | .other, _ => (m, 400)
  | _, .error _ => (m, 500)
  | .delete, .ok _ => m.delete env ns name
  | .post, .ok secret | .put, .ok secret => m.create env ns name secret

/-- The last name of a path. -/
def lastName (p : Str) : Str := (Path.steps p).down.headD []

/-- The directory of the request. -/
def SecretRequest.dirOf (mountPath : Str) (r : SecretRequest) : Str :=
  match r.method with
  | .get => getNamespaceSecretMountPath mountPath (getRequestNamespace r.namespace_)
  | .post | .put | .delete | .other => r.secretDir mountPath

/-- The name to which the request leads. -/
def SecretRequest.nameOf (mountPath : Str) (r : SecretRequest) : Str :=
  match r.body with
  | .error _ => []
  | .ok secret => lastName (r.secretFile mountPath secret)

/-- **The request leads right below the directories**: its namespace below that of all secrets, and
its name, unless it is rejected, below that of the namespace. -/
structure SecretRequest.Direct (mountPath : Str) (r : SecretRequest) : Prop where
  dir : Path.DirectChild mountPath (r.dirOf mountPath)
  file : ∀ secret, r.body = .ok secret → r.method = .delete ∨ validateSecret secret = none →
    Path.DirectChild (r.secretDir mountPath) (r.secretFile mountPath secret)

/-- The answer to the request is that of the map. -/
structure SecretMap.Answers (mountPath : Str) (marshal : List Secret → Str) (m m' : SecretMap)
    (env : SecretEnv) (r : SecretRequest) (response : Response) : Prop where
  status : (m', response.statusCode) =
    m.serve env (lastName (r.dirOf mountPath)) (r.nameOf mountPath) r
  /-- a list has the names of the secrets of the namespace in their order, each once -/
  list : r.method = .get → response.statusCode = 200 →
    ∃ names : List Str, names.Pairwise (· < ·) ∧
      (∀ name, name ∈ names ↔ (m (lastName (r.dirOf mountPath)) name).isSome = true) ∧
      response.body = marshal
        (names.map fun f => { name := f, namespace_ := getRequestNamespace r.namespace_ })

/-- The answers to the requests are those of the map, one after the other. -/
def SecretMap.AnswersAll (mountPath : Str) (marshal : List Secret → Str) :
    SecretMap → List (SecretEnv × SecretRequest) → List Response → SecretMap → Prop
  | m, [], [], m' => m = m'
  | m, (env, r) :: requests, response :: responses, m' =>
    ∃ m₁, m.Answers mountPath marshal m₁ env r response ∧
      m₁.AnswersAll mountPath marshal requests responses m'
  | _, _, _, _ => False

/-! ### The tree of the secrets -/

/-- **The files of the secrets**: below the directory of all secrets there are directories for
namespaces, and right below these there are files. -/
structure SecretTree (mountPath : Str) (t : Tree) : Prop where
  mount : t.lookup mountPath = some .dir
  below : ∀ p node, t.lookup (mountPath ++ '/' :: p) = some node →
    (Path.ProperName p ∧ node = .dir) ∨
      ∃ ns name data, Path.ProperName ns ∧ Path.ProperName name ∧ p = ns ++ '/' :: name ∧
        node = .file data ∧ t.lookup (mountPath ++ '/' :: ns) = some .dir

/-- The secrets in the files. -/
def secretsOf (mountPath : Str) (t : Tree) : SecretMap := fun ns name =>
  match t.lookup (mountPath ++ '/' :: (ns ++ '/' :: name)) with
  | some (.file data) => some data
  | some .dir | none => none

section Tree

variable {mountPath ns name : Str} {t : Tree}

/-- Two paths of secrets are the same when their namespaces and names are. -/
lemma secretPath_inj (hns : Path.ProperName ns) (hname : Path.ProperName name) (ns' name' : Str) :
    mountPath ++ '/' :: (ns' ++ '/' :: name') = mountPath ++ '/' :: (ns ++ '/' :: name) ↔
      ns' = ns ∧ name' = name := by
  rw [List.append_cancel_left_eq, List.cons.injEq]
  constructor
  · rintro ⟨-, heq⟩
    obtain ⟨rfl, -, rfl⟩ :=
      (List.append_cons_inj_of_notMem hns.noSlash hname.noSlash).mp heq.symm
    exact ⟨rfl, rfl⟩
  · rintro ⟨rfl, rfl⟩
    exact ⟨rfl, rfl⟩

/-- The directory of a namespace is not the path of a secret. -/
lemma namespacePath_ne (hns : Path.ProperName ns) (ns' name' : Str) :
    mountPath ++ '/' :: ns ≠ mountPath ++ '/' :: (ns' ++ '/' :: name') := by
  rw [Ne, List.append_cancel_left_eq, List.cons.injEq]
  rintro ⟨-, rfl⟩
  exact hns.noSlash (by simp)

/-- A namespace has a directory or none. -/
lemma SecretTree.lookup_namespace (h : SecretTree mountPath t) (hns : Path.ProperName ns) :
    t.lookup (mountPath ++ '/' :: ns) = none ∨ t.lookup (mountPath ++ '/' :: ns) = some .dir := by
  cases hlook : t.lookup (mountPath ++ '/' :: ns) with
  | none => exact .inl rfl
  | some node =>
    obtain ⟨-, rfl⟩ | ⟨ns', name', data, -, -, heq, -⟩ := h.below ns node hlook
    · exact .inr rfl
    · exact absurd (congrArg (mountPath ++ '/' :: ·) heq) (namespacePath_ne hns ns' name')

/-- A secret has a file, in the directory of its namespace, or none. -/
lemma SecretTree.lookup_secret (h : SecretTree mountPath t) {node : Node}
    (hlook : t.lookup (mountPath ++ '/' :: (ns ++ '/' :: name)) = some node) :
    ∃ data, Path.ProperName ns ∧ Path.ProperName name ∧ node = .file data ∧
      t.lookup (mountPath ++ '/' :: ns) = some .dir := by
  obtain ⟨hproper, -⟩ | ⟨ns', name', data, hns, hname, heq, rfl, hdir⟩ := h.below _ node hlook
  · exact absurd (by simp) hproper.noSlash
  · have hpath : mountPath ++ '/' :: (ns ++ '/' :: name) =
        mountPath ++ '/' :: (ns' ++ '/' :: name') := congrArg (mountPath ++ '/' :: ·) heq
    obtain ⟨rfl, rfl⟩ := (secretPath_inj hns hname ns name).mp hpath
    exact ⟨data, hns, hname, rfl, hdir⟩

/-- **A file of a secret is written** in the directory of its namespace.

**Proof sketch.** The new file is of the form that a file below the mount path has, and the
directories of the others are still there, since they are no files. A name is read from its own file
alone (`secretPath_inj`). -/
lemma SecretTree.write (h : SecretTree mountPath t) (hns : Path.ProperName ns)
    (hname : Path.ProperName name) (hdir : t.lookup (mountPath ++ '/' :: ns) = some .dir)
    (data : Str) :
    SecretTree mountPath (t.insert (mountPath ++ '/' :: (ns ++ '/' :: name)) (.file data)) ∧
      secretsOf mountPath (t.insert (mountPath ++ '/' :: (ns ++ '/' :: name)) (.file data)) =
        (secretsOf mountPath t).set ns name (some data) := by
  have hmount : mountPath ≠ mountPath ++ '/' :: (ns ++ '/' :: name) := by simp
  refine ⟨⟨?_, fun p node hp => ?_⟩, ?_⟩
  · rw [AList.lookup_insert_ne hmount, h.mount]
  · by_cases heq : mountPath ++ '/' :: p = mountPath ++ '/' :: (ns ++ '/' :: name)
    · obtain rfl : p = ns ++ '/' :: name := by simpa using heq
      rw [AList.lookup_insert] at hp
      refine .inr ⟨ns, name, data, hns, hname, rfl, (Option.some.inj hp).symm, ?_⟩
      rw [AList.lookup_insert_ne (namespacePath_ne hns ns name), hdir]
    · rw [AList.lookup_insert_ne heq] at hp
      refine (h.below p node hp).imp_right fun ⟨ns', name', data', hns', hname', hpeq, hnode,
        hdir'⟩ => ⟨ns', name', data', hns', hname', hpeq, hnode, ?_⟩
      rw [AList.lookup_insert_ne (namespacePath_ne hns' ns name), hdir']
  · funext ns' name'
    simp only [secretsOf, SecretMap.set]
    by_cases heq : ns' = ns ∧ name' = name
    · obtain ⟨rfl, rfl⟩ := heq
      simp only [AList.lookup_insert, and_self, if_true]
    · rw [if_neg heq,
        AList.lookup_insert_ne fun hpath => heq ((secretPath_inj hns hname ns' name').mp hpath)]

/-- **A file of a secret is removed.**

**Proof sketch.** The path of a secret is not that of a directory, so what is left is a tree; and
two secrets with one path have the same names (`secretPath_inj`). -/
lemma SecretTree.remove (h : SecretTree mountPath t) (hns : Path.ProperName ns)
    (hname : Path.ProperName name) :
    SecretTree mountPath (t.erase (mountPath ++ '/' :: (ns ++ '/' :: name))) ∧
      secretsOf mountPath (t.erase (mountPath ++ '/' :: (ns ++ '/' :: name))) =
        (secretsOf mountPath t).set ns name none := by
  have hmount : mountPath ≠ mountPath ++ '/' :: (ns ++ '/' :: name) := by simp
  refine ⟨⟨?_, fun p node hp => ?_⟩, ?_⟩
  · rw [AList.lookup_erase_ne hmount, h.mount]
  · have hp' := AList.lookup_of_lookup_erase hp
    refine (h.below p node hp').imp_right fun ⟨ns', name', data', hns', hname', hpeq, hnode,
      hdir'⟩ => ⟨ns', name', data', hns', hname', hpeq, hnode, ?_⟩
    rw [AList.lookup_erase_ne (namespacePath_ne hns' ns name), hdir']
  · funext ns' name'
    simp only [secretsOf, SecretMap.set]
    by_cases heq : ns' = ns ∧ name' = name
    · obtain ⟨rfl, rfl⟩ := heq
      simp only [AList.lookup_erase, and_self, if_true]
    · rw [if_neg heq,
        AList.lookup_erase_ne fun hpath => heq ((secretPath_inj hns hname ns' name').mp hpath)]

/-- **The directory of a namespace is made.**

**Proof sketch.** The new directory is of a proper name, and the directories of the files were there
before, so they are others. No file is touched. -/
lemma SecretTree.makeDir (h : SecretTree mountPath t) (hns : Path.ProperName ns)
    (hnone : t.lookup (mountPath ++ '/' :: ns) = none) :
    SecretTree mountPath (t.insert (mountPath ++ '/' :: ns) .dir) ∧
      secretsOf mountPath (t.insert (mountPath ++ '/' :: ns) .dir) = secretsOf mountPath t := by
  have hmount : mountPath ≠ mountPath ++ '/' :: ns := by simp
  refine ⟨⟨?_, fun p node hp => ?_⟩, ?_⟩
  · rw [AList.lookup_insert_ne hmount, h.mount]
  · by_cases heq : mountPath ++ '/' :: p = mountPath ++ '/' :: ns
    · obtain rfl : p = ns := by simpa using heq
      rw [AList.lookup_insert] at hp
      exact .inl ⟨hns, (Option.some.inj hp).symm⟩
    · rw [AList.lookup_insert_ne heq] at hp
      refine (h.below p node hp).imp_right fun ⟨ns', name', data', hns', hname', hpeq, hnode,
        hdir'⟩ => ⟨ns', name', data', hns', hname', hpeq, hnode, ?_⟩
      rw [AList.lookup_insert_ne, hdir']
      intro heq'
      rw [heq', hnone] at hdir'
      cases hdir'
  · funext ns' name'
    simp only [secretsOf]
    rw [AList.lookup_insert_ne (namespacePath_ne hns ns' name').symm]

/-- A secret is there when its file is. -/
lemma SecretTree.isSome_secretsOf (h : SecretTree mountPath t) :
    (secretsOf mountPath t ns name).isSome = true ↔
      (t.lookup (mountPath ++ '/' :: (ns ++ '/' :: name))).isSome = true := by
  unfold secretsOf
  cases hlook : t.lookup (mountPath ++ '/' :: (ns ++ '/' :: name)) with
  | none => exact Iff.rfl
  | some node =>
    obtain ⟨data, -, -, rfl, -⟩ := h.lookup_secret hlook
    exact Iff.rfl

end Tree

/-! ### One request -/

/-- A change right below a directory leaves the rest of the files alone. -/
def SameOutside (mountPath : Str) (t t' : Tree) : Prop :=
  ∀ p, ¬ mountPath ++ ['/'] <+: p → t'.lookup p = t.lookup p

/-- A path elsewhere is none below the mount path. -/
lemma ne_below {mountPath p : Str} (h : ¬ mountPath ++ ['/'] <+: p) (q : Str) :
    p ≠ mountPath ++ '/' :: q := by
  rintro rfl
  exact h ⟨q, by simp⟩

section Request

variable {mountPath ns name : Str} {t : Tree} {env : SecretEnv}

/-- **The directory of a namespace is there** after `MkdirAll`. -/
lemma SecretTree.perform_mkdirAll (hclean : Path.clean mountPath = mountPath)
    (hne : (Path.steps mountPath).down ≠ []) (h : SecretTree mountPath t)
    (hns : Path.ProperName ns) (hok : env.mkdirAll = none) :
    ∃ t', FileCall.perform env t (.mkdirAll (mountPath ++ '/' :: ns)) = (t', none) ∧
      SecretTree mountPath t' ∧ secretsOf mountPath t' = secretsOf mountPath t ∧
      SameOutside mountPath t t' ∧ t'.lookup (mountPath ++ '/' :: ns) = some .dir := by
  rw [FileCall.perform, hok, Files.Tree.mkdirAll_of_dir hclean hne h.mount hns]
  rcases h.lookup_namespace hns with hnone | hdir
  · obtain ⟨htree, hsecrets⟩ := h.makeDir hns hnone
    rw [hnone]
    refine ⟨_, rfl, htree, hsecrets, fun p hp => ?_, AList.lookup_insert _⟩
    exact AList.lookup_insert_ne (ne_below hp _)
  · rw [hdir]
    exact ⟨t, rfl, h, rfl, fun _ _ => rfl, hdir⟩

/-- **A secret is written** into a directory that is there.

**Proof sketch.** The parent of the file is the directory of the namespace (`Files.parent_append`),
which is there; and what stands at the path can only be a file (`SecretTree.lookup_secret`). -/
lemma SecretTree.writeFile_eq (hclean : Path.clean mountPath = mountPath)
    (hne : (Path.steps mountPath).down ≠ []) (h : SecretTree mountPath t)
    (hns : Path.ProperName ns) (hname : Path.ProperName name)
    (hdir : t.lookup (mountPath ++ '/' :: ns) = some .dir) (data : Str) :
    t.writeFile (mountPath ++ '/' :: (ns ++ '/' :: name)) data =
      (t.insert (mountPath ++ '/' :: (ns ++ '/' :: name)) (.file data), none) := by
  rw [Tree.writeFile]
  cases hlook : t.lookup (mountPath ++ '/' :: (ns ++ '/' :: name)) with
  | none =>
    have hdirclean : Path.clean (mountPath ++ '/' :: ns) = mountPath ++ '/' :: ns := by
      rw [← Path.join_name hclean hne hns]
      exact Path.clean_join _ (by simp [Path.ne_nil_of_clean hclean])
    have hparent : Files.parent (mountPath ++ '/' :: (ns ++ '/' :: name)) =
        mountPath ++ '/' :: ns := by
      have happ : mountPath ++ '/' :: (ns ++ '/' :: name) =
          (mountPath ++ '/' :: ns) ++ '/' :: name := by simp
      rw [happ, Files.parent_append hdirclean hname]
    have hthere : t.isDir (Files.parent (mountPath ++ '/' :: (ns ++ '/' :: name))) = true := by
      rw [hparent, Tree.isDir]
      exact decide_eq_true (.inl hdir)
    simp only [hthere, if_true]
  | some node =>
    obtain ⟨data', -, -, rfl, -⟩ := h.lookup_secret hlook
    rfl

/-- **The files after a request**: a tree of secrets with those of the map, and the other files as
they were. -/
structure SecretTree.Becomes (mountPath : Str) (t t' : Tree) (m' : SecretMap) : Prop where
  tree : SecretTree mountPath t'
  secrets : secretsOf mountPath t' = m'
  outside : SameOutside mountPath t t'

/-- The files stay a tree of the same secrets. -/
lemma SecretTree.becomes_refl (h : SecretTree mountPath t) :
    SecretTree.Becomes mountPath t t (secretsOf mountPath t) :=
  ⟨h, rfl, fun _ _ => rfl⟩

/-- The file of a secret is written after its directory has been made. -/
lemma SecretTree.becomes_write {t₁ : Tree} (h₁ : SecretTree mountPath t₁)
    (hsecrets : secretsOf mountPath t₁ = secretsOf mountPath t) (hout : SameOutside mountPath t t₁)
    (hns : Path.ProperName ns) (hname : Path.ProperName name)
    (hdir : t₁.lookup (mountPath ++ '/' :: ns) = some .dir) (data : Str) :
    SecretTree.Becomes mountPath t
      (t₁.insert (mountPath ++ '/' :: (ns ++ '/' :: name)) (.file data))
      ((secretsOf mountPath t).set ns name (some data)) := by
  obtain ⟨htree, heq⟩ := h₁.write hns hname hdir data
  refine ⟨htree, by rw [heq, hsecrets], fun p hp => ?_⟩
  rw [AList.lookup_insert_ne (ne_below hp _), hout p hp]

/-- **A request to create a secret** does to the files what it does to the map.

**Proof sketch.** Follow the calls of the handler. A failure before the write leaves the files as
they are, but for the directory, which the map does not see (`SecretTree.makeDir`); the write is the
insertion (`SecretTree.write`). -/
lemma createSecret_refines (hclean : Path.clean mountPath = mountPath)
    (hne : (Path.steps mountPath).down ≠ []) (h : SecretTree mountPath t)
    (marshal : List Secret → Str) {r : SecretRequest} {secret : Secret}
    (hbody : r.body = .ok secret) (hns : Path.ProperName ns)
    (hdir : getNamespaceSecretMountPath mountPath (getRequestNamespace secret.namespace_) =
      mountPath ++ '/' :: ns) (hsecretDir : r.secretDir mountPath = mountPath ++ '/' :: ns)
    (hfile : validateSecret secret = none → Path.ProperName name ∧
      Path.join [mountPath ++ '/' :: ns, secret.name] =
        mountPath ++ '/' :: (ns ++ '/' :: name)) :
    let out := createSecret mountPath { r with answers := r.answersOf mountPath marshal env t }
    let spec := (secretsOf mountPath t).create env ns name secret
    SecretTree.Becomes mountPath t (performAll env t out).1 spec.1 ∧
      (performAll env t out).2.statusCode = spec.2 := by
  intro out spec
  unfold performAll
  cases hvalid : validateSecret secret with
  | some err =>
    have hspec : spec = (secretsOf mountPath t, 400) := by
      simp only [spec, SecretMap.create, hvalid, Option.isSome_some, if_true]
    have hcalls : out = ([], httpError err 400) := by
      simp only [out, createSecret, hbody, hvalid]
    rw [hspec, hcalls]
    exact ⟨h.becomes_refl, rfl⟩
  | none =>
    obtain ⟨hname, hjoin⟩ := hfile hvalid
    cases hmk : env.mkdirAll with
    | some err =>
      have hspec : spec = (secretsOf mountPath t, 500) := by
        simp only [spec, SecretMap.create, hvalid, hmk, Option.isSome_some, Option.isSome_none,
          Bool.false_eq_true, if_true, if_false]
      have hperform : FileCall.perform env t (.mkdirAll (mountPath ++ '/' :: ns)) =
          (t, some err) := by
        simp only [FileCall.perform, hmk]
      have hcalls : out = ([.mkdirAll (mountPath ++ '/' :: ns)], httpError err 500) := by
        simp only [out, createSecret, hbody, hvalid, SecretRequest.answersOf, hsecretDir, hperform,
          hdir]
      rw [hspec, hcalls, List.foldl_cons, List.foldl_nil, hperform]
      exact ⟨h.becomes_refl, rfl⟩
    | none =>
      obtain ⟨t₁, hperform, h₁, hsecrets, hout, hthere⟩ := h.perform_mkdirAll hclean hne hns hmk
      have hpath : r.secretFile mountPath secret = mountPath ++ '/' :: (ns ++ '/' :: name) := by
        rw [SecretRequest.secretFile, hsecretDir, hjoin]
      have hcalls : out.1 = [.mkdirAll (mountPath ++ '/' :: ns),
          .writeFile (mountPath ++ '/' :: (ns ++ '/' :: name)) secret.data] := by
        simp only [out, createSecret, hbody, hvalid, SecretRequest.answersOf, hsecretDir, hperform,
          hdir, hjoin, Secret.data]
      have hstatus : out.2.statusCode =
          if (FileCall.perform env t₁ (.writeFile (mountPath ++ '/' :: (ns ++ '/' :: name))
            secret.data)).2.isSome then 500 else 200 := by
        simp only [out, createSecret, hbody, hvalid, SecretRequest.answersOf, hsecretDir, hperform,
          hpath]
        cases (FileCall.perform env t₁ (.writeFile (mountPath ++ '/' :: (ns ++ '/' :: name))
          secret.data)).2 <;> rfl
      have hwrite := fun data => h₁.writeFile_eq hclean hne hns hname hthere data
      have hbecomes := h₁.becomes_write hsecrets hout hns hname hthere
      rw [hstatus, hcalls, List.foldl_cons, List.foldl_cons, List.foldl_nil, hperform]
      simp only [spec, SecretMap.create, hvalid, hmk, Option.isSome_none, Bool.false_eq_true,
        if_false, FileCall.perform]
      split
      next hok =>
        simp only [hok, hwrite, Prod.map, id, Option.map_none, Option.isSome_none,
          Bool.false_eq_true, if_false]
        exact ⟨hbecomes _, trivial⟩
      next err hfail =>
        simp only [hfail, Option.isSome_some, if_true]
        exact ⟨⟨h₁, hsecrets, hout⟩, trivial⟩
      next err n hfail =>
        simp only [hfail, hwrite, Option.isSome_some, if_true]
        exact ⟨hbecomes _, trivial⟩

/-- **A request to delete a secret** does to the files what it does to the map.

**Proof sketch.** The handler makes one call. When it fails, nothing has changed; when it succeeds,
the file was there and is erased, and so is its entry in the map. -/
lemma deleteSecret_refines (h : SecretTree mountPath t) (marshal : List Secret → Str)
    {r : SecretRequest} {secret : Secret} (hbody : r.body = .ok secret)
    (hns : Path.ProperName ns) (hname : Path.ProperName name)
    (hpath : Path.join [getNamespaceSecretMountPath mountPath (getRequestNamespace r.namespace_),
      secret.name] = mountPath ++ '/' :: (ns ++ '/' :: name))
    (hfile : r.secretFile mountPath secret = mountPath ++ '/' :: (ns ++ '/' :: name)) :
    let out := deleteSecret mountPath { r with answers := r.answersOf mountPath marshal env t }
    let spec := (secretsOf mountPath t).delete env ns name
    SecretTree.Becomes mountPath t (performAll env t out).1 spec.1 ∧
      (performAll env t out).2.statusCode = spec.2 := by
  intro out spec
  unfold performAll
  have hcalls : out.1 = [.remove (mountPath ++ '/' :: (ns ++ '/' :: name))] := by
    simp only [out, deleteSecret, hbody, hpath]
  have hstatus : out.2.statusCode =
      if (FileCall.perform env t (.remove (mountPath ++ '/' :: (ns ++ '/' :: name)))).2.isSome then
        500 else 200 := by
    simp only [out, deleteSecret, hbody, SecretRequest.answersOf, hfile]
    cases (FileCall.perform env t (.remove (mountPath ++ '/' :: (ns ++ '/' :: name)))).2 <;> rfl
  rw [hstatus, hcalls, List.foldl_cons, List.foldl_nil]
  have hfail : ∀ err, FileCall.perform env t (.remove (mountPath ++ '/' :: (ns ++ '/' :: name))) =
      (t, some err) → spec = (secretsOf mountPath t, 500) →
        SecretTree.Becomes mountPath t (FileCall.perform env t
          (.remove (mountPath ++ '/' :: (ns ++ '/' :: name)))).1 spec.1 ∧
        (if (FileCall.perform env t (.remove (mountPath ++ '/' :: (ns ++ '/' :: name)))).2.isSome
          then 500 else 200) = spec.2 := by
    intro err hperform hspec
    rw [hperform, hspec]
    exact ⟨h.becomes_refl, rfl⟩
  cases hrm : env.remove with
  | some err =>
    refine hfail err (by simp only [FileCall.perform, hrm]) ?_
    simp only [spec, SecretMap.delete, hrm, Option.isNone_some, Bool.false_eq_true, false_and,
      if_false]
  | none =>
    cases hlook : t.lookup (mountPath ++ '/' :: (ns ++ '/' :: name)) with
    | none =>
      have hnone : ¬ (secretsOf mountPath t ns name).isSome = true := by
        rw [h.isSome_secretsOf, hlook]
        exact Bool.false_ne_true
      refine hfail _ (by simp only [FileCall.perform, hrm, Tree.remove, hlook]; rfl) ?_
      simp [spec, SecretMap.delete, hnone]
    | some node =>
      have hsome : (secretsOf mountPath t ns name).isSome = true := by
        rw [h.isSome_secretsOf, hlook]
        rfl
      obtain ⟨data, -, -, rfl, -⟩ := h.lookup_secret hlook
      obtain ⟨htree, hsecrets⟩ := h.remove hns hname
      have hperform : FileCall.perform env t (.remove (mountPath ++ '/' :: (ns ++ '/' :: name))) =
          (t.erase (mountPath ++ '/' :: (ns ++ '/' :: name)), none) := by
        simp only [FileCall.perform, hrm, Tree.remove, hlook]
        rfl
      have hspec : spec = ((secretsOf mountPath t).set ns name none, 200) := by
        simp only [spec, SecretMap.delete, hrm, hsome, Option.isNone_none, and_self, if_true]
      rw [hperform, hspec]
      exact ⟨⟨htree, hsecrets, fun p hp => AList.lookup_erase_ne (ne_below hp _)⟩, rfl⟩

/-- **The list of the secrets** of a namespace is that of the map.

**Proof sketch.** The two checks answer alike. A directory that is not there has no secrets, and one
that is there lists the names of its files in order, each of which is an entry of the map
(`SecretTree.isSome_secretsOf`). -/
lemma listSecrets_refines (hclean : Path.clean mountPath = mountPath)
    (hne : (Path.steps mountPath).down ≠ []) (h : SecretTree mountPath t)
    (marshal : List Secret → Str) (env : SecretEnv) (namespace_ : Str) (hns : Path.ProperName ns)
    (hdir : getNamespaceSecretMountPath mountPath (getRequestNamespace namespace_) =
      mountPath ++ '/' :: ns) :
    (listSecrets mountPath marshal env t namespace_).statusCode =
        listStatus env (getRequestNamespace namespace_) ∧
      ((listSecrets mountPath marshal env t namespace_).statusCode = 200 →
        ∃ names : List Str, names.Pairwise (· < ·) ∧
          (∀ name, name ∈ names ↔ (secretsOf mountPath t ns name).isSome = true) ∧
          (listSecrets mountPath marshal env t namespace_).body = marshal
            (names.map fun f => { name := f, namespace_ := getRequestNamespace namespace_ })) := by
  unfold listSecrets listStatus
  dsimp only
  cases hvalid : validNamespace env.labels (getRequestNamespace namespace_) with
  | error err => exact ⟨rfl, fun h => by cases h⟩
  | ok valid =>
    cases valid with
    | false => exact ⟨rfl, fun h => by cases h⟩
    | true =>
      cases hread : env.readDir with
      | some err => exact ⟨rfl, fun h => by cases h⟩
      | none =>
        simp only [Option.isSome_none, Bool.false_eq_true, if_false]
        rcases h.lookup_namespace hns with hnone | hthere
        · have hfiles : t.readDir (getNamespaceSecretMountPath mountPath
              (getRequestNamespace namespace_)) = .error .enoent := by
            rw [hdir, Tree.readDir]
            simp only [hnone, Files.Tree.missing_append hclean hne h.mount hns hnone]
          simp only [hfiles]
          refine ⟨trivial, fun _ => ⟨[], List.Pairwise.nil, fun name => ?_, rfl⟩⟩
          rw [h.isSome_secretsOf]
          refine iff_of_false List.not_mem_nil fun hsome => ?_
          obtain ⟨node, hnode⟩ := Option.isSome_iff_exists.mp hsome
          obtain ⟨data, -, -, -, hdir'⟩ := h.lookup_secret hnode
          rw [hnone] at hdir'
          cases hdir'
        · have hfiles : t.readDir (getNamespaceSecretMountPath mountPath
              (getRequestNamespace namespace_)) = .ok (t.names (mountPath ++ '/' :: ns)) := by
            rw [hdir, Tree.readDir]
            simp only [hthere]
          simp only [hfiles]
          refine ⟨trivial, fun _ => ⟨_, Files.Tree.names_sorted _, fun name => ?_, rfl⟩⟩
          rw [Files.Tree.mem_names_iff, h.isSome_secretsOf, List.append_assoc, List.cons_append,
            and_iff_left_iff_imp]
          intro hsome
          obtain ⟨node, hnode⟩ := Option.isSome_iff_exists.mp hsome
          obtain ⟨data, -, hname, -⟩ := h.lookup_secret hnode
          exact hname.noSlash

/-- The last name of what is right below a directory. -/
lemma lastName_append (dir : Str) (hname : Path.ProperName name) :
    lastName (dir ++ '/' :: name) = name := by
  rw [lastName, Path.steps_append_name dir hname]
  rfl

/-- **A request does to the files what it does to the map**, and its answer is that of the map.

**Proof sketch.** The request leads to a directory right below that of all secrets, and to a file
right below this directory; the calls on them change one entry of the map at most. -/
theorem serveSecret_refines (hclean : Path.clean mountPath = mountPath)
    (hne : (Path.steps mountPath).down ≠ []) (h : SecretTree mountPath t)
    (marshal : List Secret → Str) (env : SecretEnv) {r : SecretRequest}
    (hr : r.Direct mountPath) :
    SecretTree mountPath (serveSecret mountPath marshal env t r).1 ∧
      SameOutside mountPath t (serveSecret mountPath marshal env t r).1 ∧
      (secretsOf mountPath t).Answers mountPath marshal
        (secretsOf mountPath (serveSecret mountPath marshal env t r).1) env r
        (serveSecret mountPath marshal env t r).2 := by
  obtain ⟨ns, hns, hdir⟩ := hr.dir
  have hlast : lastName (r.dirOf mountPath) = ns := by rw [hdir, lastName_append _ hns]
  -- the paths of a request that is not rejected
  have hpaths : ∀ secret, r.body = .ok secret → r.method ≠ .get →
      r.method = .delete ∨ validateSecret secret = none →
      Path.ProperName (r.nameOf mountPath) ∧ r.secretFile mountPath secret =
        mountPath ++ '/' :: (ns ++ '/' :: r.nameOf mountPath) := by
    intro secret hbody hget hvalid
    obtain ⟨name, hname, hfile⟩ := hr.file secret hbody hvalid
    have hsecretDir : r.secretDir mountPath = mountPath ++ '/' :: ns := by
      rw [← hdir, SecretRequest.dirOf]
      cases hmethod : r.method <;> first | rfl | exact absurd hmethod hget
    have hnameOf : r.nameOf mountPath = name := by
      rw [SecretRequest.nameOf, hbody]
      simp only [hfile, lastName_append _ hname]
    rw [hnameOf, hfile, hsecretDir]
    exact ⟨hname, by simp⟩
  have hfinish : ∀ (out : Tree × Response) (spec : SecretMap × ℕ), r.method ≠ .get →
      serveSecret mountPath marshal env t r = out →
      (secretsOf mountPath t).serve env ns (r.nameOf mountPath) r = spec →
      SecretTree.Becomes mountPath t out.1 spec.1 ∧ out.2.statusCode = spec.2 →
      SecretTree mountPath (serveSecret mountPath marshal env t r).1 ∧
        SameOutside mountPath t (serveSecret mountPath marshal env t r).1 ∧
        (secretsOf mountPath t).Answers mountPath marshal
          (secretsOf mountPath (serveSecret mountPath marshal env t r).1) env r
          (serveSecret mountPath marshal env t r).2 := by
    rintro out spec hget rfl hspec ⟨hbecomes, hstatus⟩
    refine ⟨hbecomes.tree, hbecomes.outside, ?_, fun h => absurd h hget⟩
    rw [hlast, hspec, hbecomes.secrets, hstatus]
  have hcreate : r.method = .post ∨ r.method = .put →
      SecretTree mountPath (serveSecret mountPath marshal env t r).1 ∧
        SameOutside mountPath t (serveSecret mountPath marshal env t r).1 ∧
        (secretsOf mountPath t).Answers mountPath marshal
          (secretsOf mountPath (serveSecret mountPath marshal env t r).1) env r
          (serveSecret mountPath marshal env t r).2 := by
    intro hmethod
    have hget : r.method ≠ .get := by rcases hmethod with h | h <;> simp [h]
    have hserve : serveSecret mountPath marshal env t r = performAll env t
        (createSecret mountPath { r with answers := r.answersOf mountPath marshal env t }) := by
      rcases hmethod with h | h <;> simp only [serveSecret, secretHandler, h]
    cases hbody : r.body with
    | error err =>
      refine hfinish (t, httpError err 500) (secretsOf mountPath t, 500) hget ?_ ?_
        ⟨h.becomes_refl, rfl⟩
      · rw [hserve]
        simp only [createSecret, hbody, performAll, List.foldl_nil]
      · rcases hmethod with h | h <;> simp only [SecretMap.serve, h, hbody]
    | ok secret =>
      have hsecretDir : r.secretDir mountPath = mountPath ++ '/' :: ns := by
        rw [← hdir, SecretRequest.dirOf]
        rcases hmethod with h | h <;> rw [h]
      have hdir' : getNamespaceSecretMountPath mountPath (getRequestNamespace secret.namespace_) =
          mountPath ++ '/' :: ns := by
        rw [← hsecretDir, SecretRequest.secretDir, SecretRequest.namespaceName, hbody]
        rcases hmethod with h | h <;> rw [h]
      refine hfinish _ ((secretsOf mountPath t).create env ns (r.nameOf mountPath) secret) hget
        hserve ?_ ?_
      · rcases hmethod with h | h <;> simp only [SecretMap.serve, h, hbody]
      · refine createSecret_refines hclean hne h marshal hbody hns hdir' hsecretDir fun hvalid => ?_
        obtain ⟨hname, hfile⟩ := hpaths secret hbody hget (.inr hvalid)
        rw [SecretRequest.secretFile, hsecretDir] at hfile
        exact ⟨hname, hfile⟩
  cases hmethod : r.method with
  | get =>
    have hserve : serveSecret mountPath marshal env t r =
        (t, listSecrets mountPath marshal env t r.namespace_) := by
      cases hbody : r.body <;>
        simp only [serveSecret, secretHandler, hmethod, SecretRequest.answersOf, hbody, performAll,
          List.foldl_nil]
    have hdir' : getNamespaceSecretMountPath mountPath (getRequestNamespace r.namespace_) =
        mountPath ++ '/' :: ns := by
      rw [← hdir, SecretRequest.dirOf, hmethod]
    obtain ⟨hstatus, hlist⟩ := listSecrets_refines hclean hne h marshal env r.namespace_ hns hdir'
    rw [hserve]
    refine ⟨h, fun _ _ => rfl, ?_, fun _ => by rw [hlast]; exact hlist⟩
    simp only [SecretMap.serve, hmethod, hstatus]
  | other =>
    exact hfinish (t, { statusCode := 400 }) (secretsOf mountPath t, 400) (by simp [hmethod])
      (by simp only [serveSecret, secretHandler, hmethod, performAll, List.foldl_nil])
      (by simp only [SecretMap.serve, hmethod]) ⟨h.becomes_refl, rfl⟩
  | delete =>
    cases hbody : r.body with
    | error err =>
      exact hfinish (t, httpError err 500) (secretsOf mountPath t, 500) (by simp [hmethod])
        (by simp only [serveSecret, secretHandler, hmethod, deleteSecret, hbody, performAll,
          List.foldl_nil])
        (by simp only [SecretMap.serve, hmethod, hbody]) ⟨h.becomes_refl, rfl⟩
    | ok secret =>
      obtain ⟨hname, hfile⟩ := hpaths secret hbody (by simp [hmethod]) (.inl hmethod)
      have hpath : Path.join [getNamespaceSecretMountPath mountPath
          (getRequestNamespace r.namespace_), secret.name] = r.secretFile mountPath secret := by
        rw [SecretRequest.secretFile, SecretRequest.secretDir, SecretRequest.namespaceName, hmethod]
      exact hfinish (performAll env t (deleteSecret mountPath
          { r with answers := r.answersOf mountPath marshal env t }))
        ((secretsOf mountPath t).delete env ns (r.nameOf mountPath)) (by simp [hmethod])
        (by simp only [serveSecret, secretHandler, hmethod])
        (by simp only [SecretMap.serve, hmethod, hbody])
        (deleteSecret_refines h marshal hbody hns hname (hpath.trans hfile) hfile)
  | post => exact hcreate (.inl hmethod)
  | put => exact hcreate (.inr hmethod)

/-! ### All requests -/

/-- Requests one after the other. -/
lemma serveSecrets_answers (hclean : Path.clean mountPath = mountPath)
    (hne : (Path.steps mountPath).down ≠ []) (marshal : List Secret → Str) :
    ∀ {requests : List (SecretEnv × SecretRequest)} {t : Tree}, SecretTree mountPath t →
      (∀ q ∈ requests, q.2.Direct mountPath) →
        SecretTree mountPath (serveSecrets mountPath marshal t requests).1 ∧
          SameOutside mountPath t (serveSecrets mountPath marshal t requests).1 ∧
          (secretsOf mountPath t).AnswersAll mountPath marshal requests
            (serveSecrets mountPath marshal t requests).2
            (secretsOf mountPath (serveSecrets mountPath marshal t requests).1)
  | [], _, h, _ => ⟨h, fun _ _ => rfl, rfl⟩
  | (env, r) :: requests, t, h, hr => by
    obtain ⟨hhead, htail⟩ := List.forall_mem_cons.mp hr
    obtain ⟨h₁, hout, hanswers⟩ := serveSecret_refines hclean hne h marshal env hhead
    obtain ⟨h', hout', hanswers'⟩ := serveSecrets_answers hclean hne marshal h₁ htail
    exact ⟨h', fun p hp => (hout' p hp).trans (hout p hp), _, hanswers, hanswers'⟩

/-- **A deployment finds the secrets** of its namespace that are there, and no others.

**Proof sketch.** The check looks each path up, and the path of a proper name is the one right below
the directory (`Path.join_name`). -/
lemma SecretTree.validateSecrets_eq_none_iff (hclean : Path.clean mountPath = mountPath)
    (hne : (Path.steps mountPath).down ≠ []) (h : SecretTree mountPath t)
    (hns : Path.ProperName ns) {names : List Str} (hnames : ∀ name ∈ names, Path.ProperName name) :
    validateSecrets (fun p => (t.lookup p).isSome) (getNamespaceSecretMountPath mountPath ns)
        names = none ↔ ∀ name ∈ names, (secretsOf mountPath t ns name).isSome = true := by
  have hdir : getNamespaceSecretMountPath mountPath ns = mountPath ++ '/' :: ns :=
    Path.join_name hclean hne hns
  have hdirclean : Path.clean (mountPath ++ '/' :: ns) = mountPath ++ '/' :: ns := by
    rw [← hdir]
    exact Path.clean_join _ (by simp [Path.ne_nil_of_clean hclean])
  have hdirne : (Path.steps (mountPath ++ '/' :: ns)).down ≠ [] := by
    rw [Path.steps_append_name mountPath hns]
    exact List.cons_ne_nil _ _
  rw [Fecore.validateSecrets_eq_none]
  refine forall₂_congr fun name hname => ?_
  rw [hdir, Path.join_name hdirclean hdirne (hnames name hname), h.isSome_secretsOf,
    List.append_assoc, List.cons_append]

end Request

/-- **The store of the secrets is a map.** From a tree of secrets, and for every sequence of
requests that lead right below its directories, whichever calls of the operating system fail: the
files are a tree of secrets again, all other files are as they were, each answer is the one that the
map of the secrets gives, and the files are those of the map. A deployment finds a list of secrets
when the map has all of them.

**Proof sketch.** Each request does to the files what it does to the map (`serveSecret_refines`). -/
theorem serveSecrets_refine (wd : Str) (marshal : List Secret → Str) {t : Tree}
    {requests : List (SecretEnv × SecretRequest)} (h : SecretTree (baseUserSecretsPath wd) t)
    (hr : ∀ q ∈ requests, q.2.Direct (baseUserSecretsPath wd)) :
    let mountPath := baseUserSecretsPath wd
    let out := serveSecrets mountPath marshal t requests
    SecretTree mountPath out.1 ∧ SameOutside mountPath t out.1 ∧
      (secretsOf mountPath t).AnswersAll mountPath marshal requests out.2
        (secretsOf mountPath out.1) ∧
      ∀ ns names, Path.ProperName ns → (∀ name ∈ names, Path.ProperName name) →
        (validateSecrets (fun p => (out.1.lookup p).isSome)
            (getNamespaceSecretMountPath mountPath ns) names = none ↔
          ∀ name ∈ names, (secretsOf mountPath out.1 ns name).isSome = true) := by
  intro mountPath out
  obtain ⟨hclean, hne⟩ := baseUserSecretsPath_clean wd
  obtain ⟨htree, hout, hanswers⟩ := serveSecrets_answers hclean hne marshal h hr
  exact ⟨htree, hout, hanswers,
    fun ns names hns hnames => htree.validateSecrets_eq_none_iff hclean hne hns hnames⟩

/-- A namespace and a name that are plain names lead right below the directories.

**Proof sketch.** The directory is the one below the mount path (`Path.join_name`), and is clean.
The file is then joined to it in the same way. -/
lemma SecretRequest.direct_of_names {mountPath : Str} (hclean : Path.clean mountPath = mountPath)
    (hne : (Path.steps mountPath).down ≠ []) {r : SecretRequest}
    (hns : Path.ProperName (getRequestNamespace r.namespace_))
    (hns' : Path.ProperName (getRequestNamespace r.namespaceName))
    (hname : ∀ secret, r.body = .ok secret → r.method = .delete ∨ validateSecret secret = none →
      Path.ProperName secret.name) : r.Direct mountPath := by
  have hdir : ∀ {ns : Str}, Path.ProperName ns →
      getNamespaceSecretMountPath mountPath ns = mountPath ++ '/' :: ns :=
    fun hns => Path.join_name hclean hne hns
  refine ⟨?_, fun secret hbody hvalid => ⟨secret.name, hname secret hbody hvalid, ?_⟩⟩
  · unfold dirOf
    split
    · exact ⟨_, hns, hdir hns⟩
    all_goals exact ⟨_, hns', hdir hns'⟩
  · have hdirclean : Path.clean (r.secretDir mountPath) = r.secretDir mountPath :=
      Path.clean_join _ (by simp [Path.ne_nil_of_clean hclean])
    refine Path.join_name hdirclean ?_ (hname secret hbody hvalid)
    rw [secretDir, hdir hns', Path.steps_append_name mountPath hns']
    exact List.cons_ne_nil _ _

/-- The directory of all secrets alone. -/
def onlyMount (mountPath : Str) : Tree := AList.insert mountPath .dir ∅

/-- The directory alone is a tree without secrets. -/
lemma secretTree_onlyMount (mountPath : Str) : SecretTree mountPath (onlyMount mountPath) where
  mount := AList.lookup_insert _
  below p node h := by
    rw [onlyMount, AList.lookup_insert_ne (by simp), AList.lookup_empty] at h
    cases h

/-- A secret is created, not replaced when the file cannot be opened, and listed. -/
def keyRequests : List (SecretEnv × SecretRequest) :=
  [({}, { method := .post, body := .ok { name := "key".toList, value := "one".toList } }),
    ({ writeFile := some ("no space left on device".toList, none) },
      { method := .put, body := .ok { name := "key".toList, value := "two".toList } }),
    ({}, { method := .get })]

/-- All of the requests lead right below the directories.

**Proof sketch.** Check each of the three requests. Its names are plain ones, and the last one has
no secret in its body. -/
lemma keyRequests_direct (wd : Str) : ∀ q ∈ keyRequests, q.2.Direct (baseUserSecretsPath wd) := by
  obtain ⟨hclean, hne⟩ := baseUserSecretsPath_clean wd
  have hns : Path.ProperName (getRequestNamespace []) :=
    ⟨by decide, by decide, by decide, by decide⟩
  have hkey : Path.ProperName "key".toList := ⟨by decide, by decide, by decide, by decide⟩
  simp only [keyRequests, List.forall_mem_cons, List.not_mem_nil, false_imp_iff, implies_true,
    and_true]
  refine ⟨?_, ?_, ?_⟩
  · refine SecretRequest.direct_of_names hclean hne hns hns fun secret hbody _ => ?_
    obtain rfl := Except.ok.inj hbody
    exact hkey
  · refine SecretRequest.direct_of_names hclean hne hns hns fun secret hbody _ => ?_
    obtain rfl := Except.ok.inj hbody
    exact hkey
  · refine SecretRequest.direct_of_names hclean hne hns hns fun secret hbody hvalid => ?_
    obtain rfl := Except.ok.inj hbody
    rcases hvalid with hmethod | hvalid
    · cases hmethod
    · cases hvalid

/-- The names of the secrets in the place of JSON. -/
def marshalNames (secrets : List Secret) : Str := secrets.flatMap (·.name)

/-- The requests of `keyRequests` are answered from the map. -/
theorem serveSecrets_refine_key :
    let mountPath := baseUserSecretsPath "/var/lib/fecore-provider".toList
    let out := serveSecrets mountPath marshalNames (onlyMount mountPath) keyRequests
    SecretTree mountPath out.1 ∧ SameOutside mountPath (onlyMount mountPath) out.1 ∧
      (secretsOf mountPath (onlyMount mountPath)).AnswersAll mountPath marshalNames
        keyRequests out.2 (secretsOf mountPath out.1) ∧
      ∀ ns names, Path.ProperName ns → (∀ name ∈ names, Path.ProperName name) →
        (validateSecrets (fun p => (out.1.lookup p).isSome)
            (getNamespaceSecretMountPath mountPath ns) names = none ↔
          ∀ name ∈ names, (secretsOf mountPath out.1 ns name).isSome = true) :=
  serveSecrets_refine _ marshalNames (secretTree_onlyMount _) (keyRequests_direct _)

end Fecore
