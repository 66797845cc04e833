import Mathlib.Tactic.Common
import Fecore.Handlers.DeployHandler
import Fecore.Handlers.Deployments

set_option relaxedAutoImplicit false
set_option autoImplicit false

/-!
# The secrets of a native replica

A deploy request names secrets, whose files `createSecret` has written and `validateSecrets` finds.
The mounts of a native replica are made in `createNativeReplica`
(`pkg/provider/handlers/replicas.go`), from what the store says about its function.

## Main definitions

* `Fecore.getOSMounts`, `Fecore.nativeMounts` — the mounts of a native replica.
* `Fecore.NativeCreation` — a run in which a request deploys a function, and a native replica is
  created for this function.
* `Fecore.HasSecretMounts` — the replica has a mount for each secret, and no other secret mounts.

## Main results

* `Fecore.Reachable.secrets_eq_nil` — no function of a reachable store has secrets.
* `Fecore.hasSecretMounts_iff` — when a native replica has its secret mounts.
-/

namespace Fecore

/-! ### Mounts -/

/-- `getOSMounts`, where the environment may set `hosts_dir`. -/
def getOSMounts (hosts_dir : Option Str) : List OCIMount :=
  let hostsDir :=
    match hosts_dir with
    | some v => if 0 < v.length then v else "/var/lib/fecore".toList
    | none => "/var/lib/fecore".toList
  [roBind "/etc/resolv.conf".toList (Path.join [hostsDir, "resolv.conf".toList]),
    roBind "/etc/hosts".toList (Path.join [hostsDir, "hosts".toList])]

/-- The directory of the secrets in a container. -/
def secretsDir : Str := "/var/openfaas/secrets".toList

/-- The mounts that `createNativeReplica` makes for a function. -/
def nativeMounts (hosts_dir : Option Str) (fn : Function) : List OCIMount :=
  getOSMounts hosts_dir ++ fn.secrets.map fun secret =>
    roBind (Path.join [secretsDir, secret]) (Path.join [fn.secretsPath, secret])

/-- The mount lies in the directory of the secrets. -/
def OCIMount.isSecret (m : OCIMount) : Bool := (secretsDir ++ "/".toList).isPrefixOf m.destination

/-- The file of a secret in a namespace. -/
def secretFile (secretMountPath namespace_ secret : Str) : Str :=
  Path.join [getNamespaceSecretMountPath secretMountPath namespace_, secret]

/-- The mount of a secret in a namespace. -/
def secretMount (secretMountPath namespace_ secret : Str) : OCIMount :=
  roBind (Path.join [secretsDir, secret]) (secretFile secretMountPath namespace_ secret)

/-- **The secret mounts** among the mounts are those of the secrets in the namespace. -/
def HasSecretMounts (mounts : List OCIMount) (secretMountPath namespace_ : Str)
    (secrets : List Str) : Prop :=
  ∀ m : OCIMount, m ∈ mounts ∧ m.isSecret = true ↔
    ∃ secret ∈ secrets, m = secretMount secretMountPath namespace_ secret

/-- A function without secrets has no secret mounts. -/
lemma isSecret_nativeMounts {hosts_dir : Option Str} {fn : Function} (h : fn.secrets = [])
    {m : OCIMount} (hm : m ∈ nativeMounts hosts_dir fn) : m.isSecret = false := by
  simp only [nativeMounts, h, List.map_nil, List.append_nil, getOSMounts, List.mem_cons,
    List.not_mem_nil, or_false] at hm
  obtain rfl | rfl := hm
  · exact (by decide : (secretsDir ++ "/".toList).isPrefixOf "/etc/resolv.conf".toList = false)
  · exact (by decide : (secretsDir ++ "/".toList).isPrefixOf "/etc/hosts".toList = false)

/-! ### The secrets of the deployed functions -/

/-- The goroutine is not about to deploy a function with secrets. -/
def Thread.NoSecrets : Thread → Prop
  | .deploy (.map fn) => fn.secrets = []
  | _ => True

/-- No function has secrets. -/
def World.NoSecrets (w : World) : Prop := ∀ (o : Ref) (f : Function), w.heap[o]? = some f →
  f.secrets = []

/-- `deploy` does not set the secrets of its function. -/
lemma deploy_secrets {req : FunctionDeployment} {e : Env} {fn : Function}
    (h : deploy req e = some fn) : fn.secrets = [] := by
  unfold deploy at h
  split at h
  · cases h
  dsimp only at h
  split at h
  · split at h <;> cases h
    rfl
  split at h
  · split at h <;> cases h
    rfl
  split at h <;> cases h
  rfl

namespace World.NoSecrets

variable {w w' : World}

/-- What happens to the replicas does not touch the secrets. -/
lemma of_sameSpecs (hw : w.NoSecrets) (h : SameSpecs w w') : w'.NoSecrets := by
  intro o f' hf'
  have hspec := h.specs o
  rw [hf', Option.map_some] at hspec
  obtain ⟨f, hf, hspec⟩ := Option.map_eq_some_iff.mp hspec.symm
  have hsecrets : f.spec.secrets = f'.spec.secrets := by rw [hspec]
  exact hsecrets.symm.trans (hw o f hf)

/-- What leaves the objects alone adds no secrets. -/
lemma of_heap (hw : w.NoSecrets) (h : w'.heap = w.heap) : w'.NoSecrets := by
  intro o f hf
  rw [h] at hf
  exact hw o f hf

/-- An update that leaves a function without secrets adds none. -/
lemma setFn (hw : w.NoSecrets) {o : Ref} {f : Function} (hf : f.secrets = []) :
    (w.setFn o f).NoSecrets := by
  intro o' f' hf'
  rcases List.mem_or_eq_of_mem_set (List.mem_of_getElem? hf') with hmem | rfl
  · obtain ⟨o₁, ho₁⟩ := List.mem_iff_getElem?.mp hmem
    exact hw o₁ f' ho₁
  · exact hf

/-- The deployment of a function without secrets adds none. -/
lemma putFunction (hw : w.NoSecrets) {f : Function} (hf : f.secrets = []) :
    (w.putFunction f).NoSecrets := by
  intro o f' hf'
  rcases List.mem_append.mp (List.mem_of_getElem? hf') with hmem | hmem
  · obtain ⟨o₁, ho₁⟩ := List.mem_iff_getElem?.mp hmem
    exact hw o₁ f' ho₁
  · rw [List.mem_singleton.mp hmem]
    exact hf

end World.NoSecrets

/-- **One section gives no function secrets.**

**Proof sketch.** Case split on the section. A deployment makes a function without secrets
(`deploy_secrets`), and no other section changes a specification other than in its policy. -/
lemma section_noSecrets {w w' : World} {e : Env} {t t' : Thread} {new : List Thread}
    (hsec : Section w e t w' t' new) (hw : w.NoSecrets) (ht : t.NoSecrets) :
    w'.NoSecrets ∧ t'.NoSecrets := by
  cases hsec with
  | @request req pc _ t' _ hsec =>
    refine ⟨hw.of_sameSpecs (requestSection_sameSpecs hsec), ?_⟩
    cases hsec with
    | @create fn pc _ result hsec =>
      cases result with
      | failed =>
        simp only [Thread.afterCreate]
        split <;> trivial
      | _ => trivial
    | _ => trivial
  | @spawn call pc _ result hsec =>
    refine ⟨hw.of_sameSpecs (createSection_sameSpecs hsec), ?_⟩
    cases result <;> trivial
  | sweep hsec =>
    refine ⟨hw.of_sameSpecs (sweepSection_sameSpecs hsec), ?_⟩
    cases hsec <;> trivial
  | deleteAll hdel =>
    exact ⟨hw.of_sameSpecs (.of_sameStore (World.sameStore_of_deleteAllReplicas hdel)), trivial⟩
  | deleteAllFault hdel =>
    exact ⟨hw.of_sameSpecs (.of_sameStore (World.sameStore_of_deleteAllReplicas hdel)), trivial⟩
  | insert hdeploy hins =>
    obtain ⟨-, rows, rfl⟩ := World.insertFunction_eq hins
    exact ⟨hw.of_heap rfl, deploy_secrets hdeploy⟩
  | map => exact ⟨hw.putFunction ht, trivial⟩
  | @policy fn updated o f hf =>
    exact ⟨hw.setFn (f := { f with policy := World.updatedPolicy f.policy updated })
      (hw o f (World.heap_of_fn? hf)), trivial⟩
  | _ => exact ⟨hw.of_heap rfl, trivial⟩

/-- The provider begins in a store whose functions have no secrets: these are decoded into their
annotations. -/
lemma startProvider_noSecrets {cfg : Config} {storage : Storage} {now : Time} {w : World}
    (h : startProvider cfg storage now = .ok w) : w.NoSecrets := by
  refine startProvider_keeps (fun w replica now w' hw hadd => ?_) (fun _ _ hw => hw.putFunction rfl)
    (fun _ _ hw => hw.of_heap rfl) (fun o f hf => by simp at hf) h
  unfold World.addIdleReplica at hadd
  split at hadd
  · cases hadd
  next o f hf =>
    obtain rfl := Except.ok.inj hadd
    exact hw.of_sameSpecs (.setFn (World.heap_of_fn? hf) rfl)

/-- **No function of a reachable store has secrets.**

**Proof sketch.** The invariant covers the functions that the goroutines carry. It holds of an empty
store, and one section keeps it (`section_noSecrets`), since no deployment sets them. -/
theorem Reachable.secrets_eq_nil {c : State} (h : Reachable c) : c.shared.NoSecrets := by
  obtain ⟨cfg, storage, now, w, events, hstart, hrun⟩ := h
  have hinv : c.shared.NoSecrets ∧ c.All fun _ t => t.NoSecrets := by
    refine Runs.invariant (I := fun c : State => c.shared.NoSecrets ∧ c.All fun _ t => t.NoSecrets)
      ?_ ⟨startProvider_noSecrets hstart, fun t ht => absurd ht List.not_mem_nil⟩ hrun
    rintro c m c' ⟨hw, hts⟩ hstep
    refine ⟨?_, Interleaving.all_step hts hstep (fun t _ hent => ?_) ?_⟩
    · obtain ⟨t, rfl, -, rfl⟩ | ⟨i, e, t, w', t', new, rfl, ht, hn, rfl⟩ :=
        Interleaving.Program.step_cases hstep
      · exact hw
      · exact (section_noSecrets (next_cases hn) hw (hts t (List.mem_of_getElem? ht))).1
    · obtain ⟨req, rfl⟩ | rfl | ⟨req, rfl⟩ | ⟨req, rfl⟩ | ⟨fn, updated, rfl⟩ := entry_cases hent <;>
        trivial
    · intro i e t w' t' new _ ht hn
      have hsec := next_cases hn
      refine ⟨(section_noSecrets hsec hw (hts t (List.mem_of_getElem? ht))).2, fun u hu => ?_,
        fun _ _ _ _ h => h⟩
      obtain ⟨call, rfl⟩ := section_new hsec u hu
      trivial
  exact hinv.1

/-! ### Native replicas -/

/-- The object of the function that the next section of goroutine `i` reads to create a native
replica of it. -/
def State.nativeLookup (c : State) (i : ℕ) : Option (Ref × Function) :=
  let read (call : CreateCall) : Option (Ref × Function) :=
    if call.ctrType = native then c.shared.fn? call.fname else none
  match c.threads[i]? with
  | some (.spawn call .lookup) => read call
  | some (.request _ (.create fn .lookup)) => read fn.call
  | _ => none

/-- The event is the section of goroutine `i` that puts its function into `deployedFunctions`. -/
def State.puts (c : State) (i : ℕ) : Event → Bool
  | .arrive _ => false
  | .step j _ =>
    match c.threads[j]? with
    | some (.deploy (.map _)) => j = i
    | _ => false

/-- The object in which goroutine `i` puts its function. -/
def State.deploysAt (i : ℕ) : State → List Event → Option Ref
  | _, [] => none
  | c, m :: events =>
    if c.puts i m then some c.shared.heap.length
    else (provider.step c m).bind fun c' => State.deploysAt i c' events

/-- A run in which a request is accepted and deploys its function, and goroutine `i` reads this
function then, to create a native replica of it. -/
structure NativeCreation (secretMountPath : Str) where
  start : State
  reachable : Reachable start
  call : DeployCall
  body : DeployBody
  body_eq : call.body = some (.ok body)
  req : FunctionDeployment
  accepted : deployHandler secretMountPath call = .ok req
  events : List Event
  state : State
  run : Runs.run provider.step start (.arrive (.deploy (.insert req)) :: events) = some state
  o : Ref
  deployed : start.deploysAt start.threads.length (.arrive (.deploy (.insert req)) :: events) =
    some o
  i : ℕ
  fn : Function
  lookup : state.nativeLookup i = some (o, fn)

/-- The namespace of the request. -/
def NativeCreation.namespace_ {secretMountPath : Str} (n : NativeCreation secretMountPath) : Str :=
  getRequestNamespace n.body.namespace_

/-- What a creation reads is an object of the store. -/
lemma State.heap_of_nativeLookup {c : State} {i : ℕ} {o : Ref} {f : Function}
    (h : c.nativeLookup i = some (o, f)) : c.shared.heap[o]? = some f := by
  have hread : ∀ call : CreateCall,
      (if call.ctrType = native then c.shared.fn? call.fname else none) = some (o, f) →
        c.shared.heap[o]? = some f := by
    intro call hcall
    split at hcall
    · exact World.heap_of_fn? hcall
    · cases hcall
  unfold nativeLookup at h
  split at h
  · exact hread _ h
  · exact hread _ h
  · cases h

/-- **When a native replica has its secret mounts**: exactly when the request that deployed its
function names no secrets.

**Proof sketch.** The secrets of a request are checked and then dropped: neither `deploy` nor the
restart of the provider gives a function secrets, and nothing else writes them
(`Reachable.secrets_eq_nil`). So the mounts are those of the operating system alone, and none of
them lies in the directory of the secrets. -/
theorem hasSecretMounts_iff {secretMountPath : Str} (n : NativeCreation secretMountPath)
    (hosts_dir : Option Str) :
    HasSecretMounts (nativeMounts hosts_dir n.fn) secretMountPath n.namespace_ n.body.secrets ↔
      n.body.secrets = [] := by
  have hreach : Reachable n.state := n.reachable.run n.run
  have hsecrets : n.fn.secrets = [] :=
    hreach.secrets_eq_nil n.o n.fn (State.heap_of_nativeLookup n.lookup)
  have hnone : ∀ m : OCIMount, ¬ (m ∈ nativeMounts hosts_dir n.fn ∧ m.isSecret = true) := by
    rintro m ⟨hm, hsecret⟩
    rw [isSecret_nativeMounts hsecrets hm] at hsecret
    exact Bool.false_ne_true hsecret
  constructor
  · intro h
    rw [List.eq_nil_iff_forall_not_mem]
    intro secret hmem
    exact hnone _ ((h _).mpr ⟨secret, hmem, rfl⟩)
  · intro h m
    refine iff_of_false (hnone m) ?_
    rintro ⟨secret, hmem, -⟩
    rw [h] at hmem
    exact List.not_mem_nil hmem

/-- A request for a native function `f` with one secret. -/
def dbPassword : DeployBody :=
  { service := "f".toList
    secrets := ["db-password".toList]
    labels := some ((∅ : GoMap Str).insert ctrTypeLabel native) }

/-- The request, and the file of its secret. -/
def dbPasswordCall : DeployCall :=
  { body := some (.ok dbPassword)
    stat := fun path => path = "/var/lib/fecore/secrets/faasedge-fn/db-password".toList }

/-- The function is deployed and then invoked, up to the section that reads it. -/
def dbPasswordEvents : List Event := sections 0 3 ++ invokeF 1 3

/-- The state after the run on the small node, and what the invocation reads there. -/
def dbPasswordRun : Option (State × Ref × Function) :=
  (smallRun (.arrive (.deploy (.insert (dbPassword.deployment secretsOfFecore))) ::
    dbPasswordEvents)).bind fun c => (c.nativeLookup 1).map fun of => (c, of)

/-- The run comes to the creation of a replica. -/
lemma isSome_dbPasswordRun : dbPasswordRun.isSome = true := by decide +kernel

/-- The run and the function are what their names say. -/
lemma dbPasswordRun_spec {c : State} {o : Ref} {f : Function}
    (h : dbPasswordRun = some (c, o, f)) :
    smallRun (.arrive (.deploy (.insert (dbPassword.deployment secretsOfFecore))) ::
        dbPasswordEvents) = some c ∧ c.nativeLookup 1 = some (o, f) := by
  obtain ⟨c', hrun, hlook⟩ := Option.bind_eq_some_iff.mp h
  obtain ⟨of, hlook, heq⟩ := Option.map_eq_some_iff.mp hlook
  cases heq
  exact ⟨hrun, hlook⟩

/-- The creation of a native replica for this request. -/
def dbPasswordCreation : NativeCreation secretsOfFecore :=
  let r := dbPasswordRun.get isSome_dbPasswordRun
  have hr := dbPasswordRun_spec (Option.some_get isSome_dbPasswordRun).symm
  { start := ⟨smallWorld, []⟩
    reachable := ⟨_, _, _, _, [], startProvider_small, rfl⟩
    call := dbPasswordCall
    body := dbPassword
    body_eq := rfl
    req := dbPassword.deployment secretsOfFecore
    accepted := deployHandler_eq_ok.mpr ⟨dbPassword, rfl, rfl, by decide +kernel, rfl⟩
    events := dbPasswordEvents
    state := r.1
    run := hr.1
    o := r.2.1
    deployed := by
      have h : State.deploysAt 0 ⟨smallWorld, []⟩
          (.arrive (.deploy (.insert (dbPassword.deployment secretsOfFecore))) ::
            dbPasswordEvents) =
            some (dbPasswordRun.get isSome_dbPasswordRun).2.1 := by decide +kernel
      exact h
    i := 1
    fn := r.2.2
    lookup := hr.2 }

/-- The replica has no mount for the secret. -/
theorem not_hasSecretMounts_dbPassword :
    ¬ ∀ n : NativeCreation secretsOfFecore,
      HasSecretMounts (nativeMounts none n.fn) secretsOfFecore n.namespace_ n.body.secrets := by
  intro h
  have hmount := ((h dbPasswordCreation _).mpr ⟨_, List.mem_cons_self, rfl⟩).1
  exact absurd hmount (by decide +kernel)

end Fecore
