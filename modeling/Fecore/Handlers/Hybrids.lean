import Mathlib.Tactic.Common
import Fecore.Handlers.Deployments
import Fecore.Handlers.Restart

set_option relaxedAutoImplicit false
set_option autoImplicit false

/-!
# The sandboxes of a hybrid function

A hybrid function runs in the replicas of two other functions, its sandboxes, which are deployed and
deleted by requests of their own. The invocations and the policies of the hybrid function look them
up in `deployedFunctions` without a check.

## Main definitions

* `Fecore.Function.isHybrid` — the label of the function says `hybrid`.
* `Fecore.World.HybridIntact`, `Fecore.World.HybridsIntact` — the sandboxes are deployed, and the
  policy picks among them.
* `Fecore.State.keepsHybrids` — the moves that keep it so.

## Main results

* `Fecore.World.HybridIntact.resolve`, `HybridIntact.release` — the look-ups of an invocation find
  a function.
* `Fecore.section_hybridsIntact_iff` — what one section needs.
* `Fecore.hybridsIntact_throughout_iff` — the runs throughout which the hybrid functions are
  intact.
-/

namespace Fecore

/-- The label of the function says `hybrid`. -/
def Function.isHybrid (f : Function) : Bool := index f.labels ctrTypeLabel = hybrid

/-- **The hybrid function is intact**: it has a native and a WASM sandbox, all its sandboxes are
deployed, and the policy picks among them. -/
structure World.HybridIntact (w : World) (f : Function) : Prop where
  native : native ∈ f.sandboxes
  wasm : wasm ∈ f.sandboxes
  deployed : ∀ ct ∈ f.sandboxes, (w.fn? (index f.sandboxes ct)).isSome
  coldStart : f.policy.coldStartCtrType ∈ f.sandboxes
  warmStart : f.policy.warmStartCtrType ∈ f.sandboxes

/-- Every deployed hybrid function is intact. -/
def World.HybridsIntact (w : World) : Prop :=
  ∀ n o f, w.fn? n = some (o, f) → f.isHybrid = true → w.HybridIntact f

/-! ### The look-ups -/

/-- The two functions that `ResolveHybrid` turns to are deployed. -/
lemma World.HybridIntact.resolve {w : World} {f : Function} (h : w.HybridIntact f) {fn : Resolving}
    (hct : fn.containerType = hybrid) (hs : fn.sandboxes = f.sandboxes)
    (hp : fn.policy = f.policy) :
    (w.fn? fn.pool).isSome ∧ (w.fn? fn.call.fname).isSome := by
  simp only [Resolving.pool, Resolving.call, hct, if_true, hs, hp]
  exact ⟨h.deployed _ h.warmStart, h.deployed _ h.coldStart⟩

/-- The function whose replica `UpdateReplicaStatusInactive` takes back is deployed. -/
lemma World.HybridIntact.release {w : World} {f : Function} (h : w.HybridIntact f)
    (hf : f.isHybrid = true) (fn : Str) {replicaName : Str}
    (htype : replicaType replicaName ≠ []) :
    (w.fn? (f.effectiveFname fn replicaName)).isSome := by
  have hct : index f.labels ctrTypeLabel = hybrid := of_decide_eq_true hf
  simp only [Function.effectiveFname, hct, if_true]
  refine h.deployed _ ?_
  unfold replicaType at htype ⊢
  split
  · exact h.wasm
  · next hw =>
    rw [if_neg hw] at htype
    split
    · exact h.native
    · next hn => exact absurd (if_neg hn) htype

/-! ### Sections -/

namespace World.HybridIntact

variable {w w' : World} {f f' : Function}

/-- The invariant is about the sandboxes, the policy and what is deployed. -/
lemma mono (h : w.HybridIntact f) (hs : f'.sandboxes = f.sandboxes) (hp : f'.policy = f.policy)
    (hdep : ∀ ct ∈ f.sandboxes, (w.fn? (index f.sandboxes ct)).isSome →
      (w'.fn? (index f.sandboxes ct)).isSome) : w'.HybridIntact f' where
  native := by rw [hs]; exact h.native
  wasm := by rw [hs]; exact h.wasm
  deployed := by
    rw [hs]
    exact fun ct hct => hdep ct hct (h.deployed ct hct)
  coldStart := by rw [hs, hp]; exact h.coldStart
  warmStart := by rw [hs, hp]; exact h.warmStart

/-- `UpdatePolicy` picks among the sandboxes, or lets the policy be. -/
lemma updatePolicy (h : w.HybridIntact f) (updated : Policy) :
    w.HybridIntact { f with policy := World.updatedPolicy f.policy updated } where
  native := h.native
  wasm := h.wasm
  deployed := h.deployed
  coldStart := by
    simp only [updatedPolicy]
    split
    · next hct => rcases hct with hct | hct <;> rw [hct]; exacts [h.native, h.wasm]
    · exact h.coldStart
  warmStart := by
    simp only [updatedPolicy]
    split
    · next hct => rcases hct with hct | hct <;> rw [hct]; exacts [h.native, h.wasm]
    · exact h.warmStart

end World.HybridIntact

/-- The invariant is about the functions that are deployed. -/
lemma World.HybridsIntact.congr {w w' : World} (h : w.HybridsIntact)
    (hfn : ∀ n, w'.fn? n = w.fn? n) : w'.HybridsIntact := by
  intro n o f hf hhyb
  rw [hfn] at hf
  refine (h n o f hf hhyb).mono rfl rfl fun ct _ hct => ?_
  rw [hfn]
  exact hct

/-- A section that moves replicas only keeps the hybrid functions intact. -/
lemma World.SameSpecs.hybridsIntact {w w' : World} (h : World.SameSpecs w w')
    (hw : w.HybridsIntact) : w'.HybridsIntact := by
  intro n o f' hf' hhyb
  obtain ⟨f, hf, hspec⟩ := h.symm.fn?_eq_some hf'
  have hs : f'.spec.sandboxes = f.spec.sandboxes := by rw [hspec]
  have hp : f'.spec.policy = f.spec.policy := by rw [hspec]
  have hl : f'.spec.labels = f.spec.labels := by rw [hspec]
  have hhyb' : f.isHybrid = true := by
    rw [← hhyb]
    exact (congrArg (fun labels => decide (index labels ctrTypeLabel = hybrid)) hl).symm
  exact (hw n o f hf hhyb').mono hs hp fun _ _ hdep => h.isSome hdep

/-- A new hybrid function has both sandboxes, and they are deployed. -/
def World.hasSandboxes (w : World) (fn : Function) : Bool :=
  !fn.isHybrid || (decide (native ∈ fn.sandboxes) && decide (wasm ∈ fn.sandboxes) &&
    fn.sandboxes.keys.all fun ct =>
      decide (index fn.sandboxes ct = fn.name) || (w.fn? (index fn.sandboxes ct)).isSome)

/-- The function is no sandbox of another deployed function. -/
def World.isNoSandbox (w : World) (name : Str) : Bool :=
  w.deployedFunctions.keys.all fun n => decide (n = name) ||
    (w.fn? n).all fun of => !of.2.isHybrid ||
      of.2.sandboxes.keys.all fun ct => decide (index of.2.sandboxes ct ≠ name)

/-- The section deploys a hybrid function with its sandboxes only, and drops no sandbox. -/
def Thread.keepsHybrids (w : World) : Thread → Bool
  | .deploy (.map fn) => w.hasSandboxes fn
  | .delete req .unmap => w.isNoSandbox req.functionName
  | _ => true

/-- A hybrid function that is about to be deployed has the default policy. -/
def Thread.DefaultPolicy : Thread → Prop
  | .deploy (.map fn) => fn.isHybrid = true → fn.policy = defaultPolicy
  | _ => True

/-- `deploy` gives a hybrid function the default policy.

**Proof sketch.** A hybrid function has the label `hybrid`, and `deploy` writes its policy in the
branch of this label alone. -/
lemma deploy_policy {req : FunctionDeployment} {e : Env} {fn : Function}
    (h : deploy req e = some fn) (hhyb : fn.isHybrid = true) : fn.policy = defaultPolicy := by
  have hct : index fn.labels ctrTypeLabel = hybrid := of_decide_eq_true hhyb
  have hlabel : fn.labels.lookup ctrTypeLabel = some hybrid := by
    unfold index at hct
    cases hl : fn.labels.lookup ctrTypeLabel with
    | none =>
      rw [hl] at hct
      cases hct
    | some val =>
      rw [hl] at hct
      exact congrArg some hct
  have hne : some hybrid ≠ some wasm := by decide
  unfold deploy at h
  split at h
  · cases h
  dsimp only at h
  split at h
  · next hwasm =>
    split at h
    · cases h
    · cases h
      exact absurd (hlabel.symm.trans hwasm) hne
  split at h
  · split at h
    · cases h
    · cases h
      rfl
  next hhybrid =>
  split at h
  · cases h
  · cases h
    exact absurd hlabel hhybrid

/-- A function with the default policy is intact in a store that has its sandboxes.

**Proof sketch.** The sandboxes are looked up after the function has been put into the map, where it
is found itself besides those that were there. -/
lemma hasSandboxes_iff {w : World} (hw : w.WellFormed) {fn : Function}
    (hpolicy : fn.isHybrid = true → fn.policy = defaultPolicy) :
    (fn.isHybrid = true → (w.putFunction fn).HybridIntact fn) ↔ w.hasSandboxes fn = true := by
  have hput : ∀ n, ((w.putFunction fn).fn? n).isSome ↔ n = fn.name ∨ (w.fn? n).isSome := by
    intro n
    rw [World.fn?_putFunction hw.valid]
    split
    · next hn => exact iff_of_true rfl (.inl hn)
    · next hn => exact (or_iff_right hn).symm
  simp only [World.hasSandboxes, Bool.or_eq_true, Bool.not_eq_true', Bool.and_eq_true,
    decide_eq_true_eq, List.all_eq_true]
  constructor
  · intro h
    cases hhyb : fn.isHybrid with
    | false => exact .inl rfl
    | true =>
      have hint := h hhyb
      exact .inr ⟨⟨hint.native, hint.wasm⟩, fun ct hct => (hput _).mp (hint.deployed ct hct)⟩
  · rintro (hno | ⟨⟨hnative, hwasm⟩, hdep⟩) hhyb
    · rw [hno] at hhyb
      cases hhyb
    · exact
        { native := hnative
          wasm := hwasm
          deployed := fun ct hct => (hput _).mpr (hdep ct hct)
          coldStart := by rw [hpolicy hhyb]; exact hwasm
          warmStart := by rw [hpolicy hhyb]; exact hnative }

/-- The hybrid functions stay intact when a function is dropped exactly when it is no sandbox of
another one.

**Proof sketch.** After the drop the same functions are found but for the one of this name. A hybrid
function that is left has lost a sandbox just when this was one of its own. -/
lemma isNoSandbox_iff {w : World} (hint : w.HybridsIntact) (name : Str) :
    (w.dropFunction name).HybridsIntact ↔ w.isNoSandbox name = true := by
  have hdrop := World.fn?_dropFunction (w := w) name
  simp only [World.isNoSandbox, List.all_eq_true, Bool.or_eq_true, decide_eq_true_eq,
    Option.all_eq_true, Bool.not_eq_true', Prod.forall]
  constructor
  · intro h n _
    by_cases hn : n = name
    · exact .inl hn
    · refine .inr fun o f hf => ?_
      cases hhyb : f.isHybrid with
      | false => exact .inl rfl
      | true =>
        refine .inr fun ct hct heq => ?_
        have hdep := (h n o f ((hdrop n).trans ((if_neg hn).trans hf)) hhyb).deployed ct hct
        rw [hdrop, if_pos heq] at hdep
        cases hdep
  · intro h n o f hf hhyb
    rw [hdrop] at hf
    split at hf
    · cases hf
    · next hn =>
      have hmem : n ∈ w.deployedFunctions.keys := World.mem_deployedFunctions hf
      rcases (h n hmem).resolve_left hn o f hf with hno | hsand
      · rw [hno] at hhyb
        cases hhyb
      · refine (hint n o f hf hhyb).mono rfl rfl fun ct hct hdep => ?_
        rw [hdrop, if_neg (hsand ct hct)]
        exact hdep

/-- **What one section needs to keep the hybrid functions intact.**

**Proof sketch.** Invocations, sweeps and policies do not touch `deployedFunctions` and the
sandboxes, and a policy is only ever moved among `native` and `wasm`. A deployment adds a function,
so it can only fail for the new function itself; a deletion only for those that have the dropped
function as a sandbox. -/
lemma section_hybridsIntact_iff {w w' : World} {e : Env} {t t' : Thread} {new : List Thread}
    (hsec : Section w e t w' t' new) (hw : w.WellFormed) (ht : t.DefaultPolicy)
    (hint : w.HybridsIntact) : w'.HybridsIntact ↔ t.keepsHybrids w = true := by
  have hsame : ∀ {w'}, World.SameSpecs w w' → t.keepsHybrids w = true →
      (w'.HybridsIntact ↔ t.keepsHybrids w = true) :=
    fun h hok => iff_of_true (h.hybridsIntact hint) hok
  cases hsec with
  | request hsec => exact hsame (requestSection_sameSpecs hsec) rfl
  | spawn hsec => exact hsame (createSection_sameSpecs hsec) rfl
  | sweep hsec => exact hsame (sweepSection_sameSpecs hsec) rfl
  | deleteAll hall => exact hsame (.of_sameStore (World.sameStore_of_deleteAllReplicas hall)) rfl
  | deleteAllFault hall =>
    exact hsame (.of_sameStore (World.sameStore_of_deleteAllReplicas hall)) rfl
  | rowsAbsent => exact iff_of_true (hint.congr fun _ => rfl) rfl
  | rows => exact iff_of_true (hint.congr fun _ => rfl) rfl
  | insert hdeploy hins =>
    obtain ⟨-, rows, rfl⟩ := World.insertFunction_eq hins
    exact iff_of_true (hint.congr fun _ => rfl) rfl
  | stats => exact iff_of_true (hint.congr fun _ => rfl) rfl
  | @map fn =>
    have hput := World.fn?_putFunction (f := fn) hw.valid
    refine Iff.trans ⟨fun h => h fn.name _ fn ((hput _).trans (if_pos rfl)), ?_⟩
      (hasSandboxes_iff hw ht)
    intro h n o f hf hhyb
    rw [hput] at hf
    split at hf
    · obtain ⟨rfl, rfl⟩ := Prod.mk.inj (Option.some.inj hf)
      exact h hhyb
    · refine (hint n o f hf hhyb).mono rfl rfl fun ct _ hct => ?_
      rw [hput]
      split
      · rfl
      · exact hct
  | unmap => exact isNoSandbox_iff hint _
  | @policy fn updated o f hf =>
    refine iff_of_true (fun n o' g hg hhyb => ?_) rfl
    have hmono : ∀ {g' : Function}, w.HybridIntact g' →
        (w.setFn o { f with policy := World.updatedPolicy f.policy updated }).HybridIntact g' :=
      fun h => h.mono rfl rfl fun ct _ hct => by rwa [World.fn?_setFn_isSome]
    rw [World.fn?_setFn (World.heap_of_fn? hf), Option.map_eq_some_iff] at hg
    obtain ⟨⟨o₁, g₁⟩, hg₁, heq⟩ := hg
    by_cases ho : o₁ = o
    · subst ho
      obtain rfl : g₁ = f :=
        Option.some.inj ((World.heap_of_fn? hg₁).symm.trans (World.heap_of_fn? hf))
      rw [if_pos rfl] at heq
      obtain ⟨rfl, rfl⟩ := Prod.mk.inj heq
      exact hmono ((hint n _ g₁ hg₁ hhyb).updatePolicy updated)
    · rw [if_neg ho] at heq
      obtain ⟨rfl, rfl⟩ := Prod.mk.inj heq
      exact hmono (hint n _ _ hg₁ hhyb)
  | _ => exact iff_of_true hint rfl

/-! ### Runs -/

/-- The move deploys a hybrid function with its sandboxes only, and drops no sandbox. -/
def State.keepsHybrids (c : State) : Event → Bool
  | .arrive _ => true
  | .step i _ => (c.threads[i]?).all (Thread.keepsHybrids c.shared)

/-- The invariant under which one section says what it needs. -/
structure State.HybridsReady (c : State) : Prop where
  wellFormed : State.WellFormed c
  policy : c.All fun _ t => t.DefaultPolicy

/-- The policy of a function about to be deployed is set when it is made.

**Proof sketch.** Case split on the section. Only a deployment leaves its goroutine with a function,
and that is the one `deploy` makes; a goroutine that is started creates replicas. -/
lemma section_defaultPolicy {w w' : World} {e : Env} {t t' : Thread} {new : List Thread}
    (hsec : Section w e t w' t' new) : t'.DefaultPolicy ∧ ∀ u ∈ new, u.DefaultPolicy := by
  refine ⟨?_, fun u hu => ?_⟩
  · cases hsec with
    | request hsec =>
      cases hsec with
      | @create fn pc _ result hsec =>
        cases result with
        | failed =>
          unfold Thread.afterCreate
          dsimp only
          split <;> trivial
        | _ => trivial
      | _ => trivial
    | @spawn call pc _ result hsec => cases result <;> trivial
    | sweep hsec => cases hsec <;> trivial
    | insert hdeploy hins => exact deploy_policy hdeploy
    | _ => trivial
  · obtain ⟨call, rfl⟩ := section_new hsec u hu
    trivial

/-- **Step lemma.** Every move keeps the invariant. -/
lemma State.HybridsReady.step {c c' : State} {m : Event} (h : c.HybridsReady)
    (hstep : provider.step c m = some c') : c'.HybridsReady := by
  refine ⟨step_wellFormed h.wellFormed hstep, Interleaving.all_step h.policy hstep ?_ ?_⟩
  · intro t _ hent
    obtain ⟨req, rfl⟩ | rfl | ⟨req, rfl⟩ | ⟨req, rfl⟩ | ⟨fn, updated, rfl⟩ := entry_cases hent <;>
      trivial
  · intro i e t w' t' new _ _ hn
    obtain ⟨hown, hnew⟩ := section_defaultPolicy (next_cases hn)
    exact ⟨hown, hnew, fun _ _ _ _ h => h⟩

/-- **One move keeps the hybrid functions intact** exactly when it meets the condition. -/
lemma step_hybridsIntact_iff {c c' : State} {m : Event} (h : c.HybridsReady)
    (hint : c.shared.HybridsIntact) (hstep : provider.step c m = some c') :
    c'.shared.HybridsIntact ↔ c.keepsHybrids m = true := by
  obtain ⟨t, rfl, -, rfl⟩ | ⟨i, e, t, w', t', new, rfl, ht, hn, rfl⟩ :=
    Interleaving.Program.step_cases hstep
  · exact iff_of_true hint rfl
  · have hmem := List.mem_of_getElem? ht
    rw [section_hybridsIntact_iff (next_cases hn) h.wellFormed.1 (h.policy t hmem) hint]
    simp only [State.keepsHybrids, ht, Option.all_some]

/-- When the provider begins to serve, a stored hybrid function comes back without sandboxes. -/
lemma startProvider_hybridsIntact_iff {cfg : Config} {storage : Storage} {now : Time} {w : World}
    (h : startProvider cfg storage now = .ok w) :
    w.HybridsIntact ↔ ∀ row ∈ storage.functions, (getFunction row).isHybrid = false := by
  obtain ⟨hres, -⟩ := startProvider_restored h
  constructor
  · intro hint row hrow
    obtain ⟨o, hf⟩ := hres.deployed row hrow
    by_contra hhyb
    have hnative := (hint _ o _ hf (by simpa using hhyb)).native
    exact absurd hnative (AList.notMem_empty _)
  · intro hno n o f hf hhyb
    rcases hres.cases hf with ⟨row, hrow, -, rfl⟩ | hf
    · rw [hno row hrow] at hhyb
      cases hhyb
    · cases hf

/-- **The runs throughout which the hybrid functions are intact**: no hybrid function is read back
at the start, each is deployed when both its sandboxes are, and no sandbox of a deployed one is
deleted.

**Proof sketch.** A hybrid function read back has no sandboxes. `step_hybridsIntact_iff` says what a
move needs, under the invariant that a function about to be deployed has the default policy, and
exact step conditions give exact run conditions. -/
theorem hybridsIntact_throughout_iff {cfg : Config} {storage : Storage} {now : Time} {w : World}
    (hstart : startProvider cfg storage now = .ok w) (events : List Event) :
    Runs.Throughout provider.step (fun c => c.shared.HybridsIntact) ⟨w, []⟩ events ↔
      (∀ row ∈ storage.functions, (getFunction row).isHybrid = false) ∧
        Runs.Along provider.step (fun (c : State) m => c.keepsHybrids m = true) ⟨w, []⟩ events := by
  have hready : State.HybridsReady ⟨w, []⟩ :=
    { wellFormed := ⟨(startProvider_fresh hstart).1.wellFormed,
        fun _ ht => absurd ht List.not_mem_nil⟩
      policy := fun _ ht => absurd ht List.not_mem_nil }
  rw [← startProvider_hybridsIntact_iff hstart]
  exact Runs.throughout_iff_head_and_along
    (I := fun c : State => c.shared.HybridsIntact) (J := State.HybridsReady)
    (fun _ _ _ hJ hI hstep => step_hybridsIntact_iff hJ hI hstep)
    (fun _ _ _ hJ _ _ hstep => hJ.step hstep) hready

/-- The function `service` is deployed with the labels by goroutine `i`. -/
def deployAs (i : ℕ) (service : Str) (labels : GoMap Str) : List Event :=
  .arrive (.deploy (.insert { service := service, labels := some labels })) :: sections i 3

/-- The labels of a hybrid function with the sandboxes `f-n` and `f-w`. -/
def hybridLabels : GoMap Str :=
  ((∅ : GoMap Str).insert ctrTypeLabel hybrid).insert "sandboxes".toList "f-n,f-w".toList

/-- Both sandboxes are deployed, then the hybrid function `f`. -/
def deployHybrid : List Event :=
  deployAs 0 "f-n".toList ∅ ++ deployAs 1 "f-w".toList ∅ ++ deployAs 2 "f".toList hybridLabels

/-- Both sandboxes are deployed, then the hybrid function `f`, which is given another policy and
deleted. -/
def deploySandboxesFirst : List Event :=
  deployAs 0 "f-n".toList ∅ ++ deployAs 1 "f-w".toList ∅ ++ deployAs 2 "f".toList hybridLabels ++
    [.arrive (.updatePolicy "f".toList { coldStartCtrType := native }), .step 3 {},
      .arrive (.delete { functionName := "f".toList } .deleteAll)] ++ sections 4 4

/-- The run goes through, and `f` is intact as long as it is deployed. -/
theorem hybridsIntact_throughout_deploySandboxesFirst :
    ((smallRun deploySandboxesFirst).map fun c =>
        (c.threads.all Thread.isReturned, c.shared.deployedFunctions.keys)) =
      some (true, ["f-w".toList, "f-n".toList]) ∧
    Runs.Throughout provider.step (fun c => c.shared.HybridsIntact) ⟨smallWorld, []⟩
      deploySandboxesFirst :=
  ⟨by decide +kernel,
    (hybridsIntact_throughout_iff startProvider_small _).mpr ⟨by decide, by decide +kernel⟩⟩

/-- The hybrid function `f` is deployed, and its sandboxes are not. -/
theorem not_hybridsIntact_deployF :
    ¬ Runs.Throughout provider.step (fun c => c.shared.HybridsIntact) ⟨smallWorld, []⟩
      (deployF hybridLabels) := by
  intro h
  obtain ⟨c, hc, hlook⟩ := (Option.any_eq_true
    (fun c : State => (c.shared.fn? "f".toList).any fun of =>
      of.2.isHybrid && (c.shared.fn? (index of.2.sandboxes native)).isNone)
    (smallRun (deployF hybridLabels))).mp (by decide +kernel)
  obtain ⟨⟨o, f⟩, hf, hsand⟩ := (Option.any_eq_true _ _).mp hlook
  obtain ⟨hhyb, hnone⟩ := Bool.and_eq_true_iff.mp hsand
  have hint := (h.of_run hc) _ o f hf hhyb
  have hdep := hint.deployed native hint.native
  rw [Option.isNone_iff_eq_none.mp hnone] at hdep
  cases hdep

end Fecore
