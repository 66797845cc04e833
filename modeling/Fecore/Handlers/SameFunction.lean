import Mathlib.Data.List.TakeWhile
import Mathlib.Tactic.Common
import Fecore.Handlers.Deployments
import Fecore.Handlers.ReplicaNames
import Fecore.Handlers.Resolver

set_option relaxedAutoImplicit false
set_option autoImplicit false

/-!
# The names of an invocation

`Resolve` takes the namespace off the name in the path, and looks up what is left of it. The steps
after it, `UpdateFunctionStats` and `UpdateReplicaStatusInactive`, are given the name in the path as
it is (`pkg/provider/proxy/function_proxy.go`).

## Main definitions

* `Fecore.World.resolve`, `Fecore.Resolution` — `Resolve` as one call.
* `Fecore.Resolution.SameFunction` — the later steps work on the function that `Resolve` has used.
* `Fecore.RequestPc.keepsFunction` — the name of the replica leads back to this function.

## Main results

* `Fecore.actualFunctionName_length_lt` — a name with a dot loses something.
* `Fecore.sameFunction_iff` — when the later steps work on the same function.
-/

namespace Fecore

/-! ### The name without its namespace -/

/-- A name without a dot is the name of the function. -/
lemma actualFunctionName_of_notMem {s : Str} (h : '.' ∉ s) : actualFunctionName s = s :=
  if_neg h

/-- **A name with a dot loses something.** What stands behind the last dot, together with the dot,
is a suffix of the name.

**Proof sketch.** The namespace is what stands behind the last dot of the name. With the dot it is a
suffix, so it is trimmed, and the dot alone is one character. -/
theorem actualFunctionName_length_lt {s : Str} (h : '.' ∈ s) :
    (actualFunctionName s).length < s.length := by
  have hsuffix : '.' :: getNamespace s defaultFunctionNamespace <:+ s := by
    have hsplit := List.takeWhile_append_dropWhile (p := (· ≠ '.')) (l := s.reverse)
    cases hdrop : s.reverse.dropWhile (· ≠ '.') with
    | nil =>
      have hall := List.dropWhile_eq_nil_iff.mp hdrop '.' (List.mem_reverse.mpr h)
      simp at hall
    | cons x rest =>
      have hdot := List.head?_dropWhile_not (· ≠ '.') s.reverse
      rw [hdrop] at hdot hsplit
      obtain rfl : x = '.' := by simpa using hdot
      refine ⟨rest.reverse, ?_⟩
      have hrev := congrArg List.reverse hsplit
      rw [List.reverse_append, List.reverse_reverse, List.reverse_cons] at hrev
      rw [getNamespace, if_pos h]
      simpa using hrev
  rw [actualFunctionName, if_pos h, trimSuffix, if_pos hsuffix, List.length_take]
  have hpos : 0 < s.length := List.length_pos_of_mem h
  simp only [List.length_cons]
  omega

/-! ### `Resolve` as one call -/

/-- A section after which `Resolve` goes on. -/
def resolveStep (req : Request) (p : World × RequestPc) (e : Env) : Option (World × RequestPc) :=
  match resolveNext p.1 req p.2 e with
  | some (w', .running pc') => some (w', pc')
  | _ => none

/-- How `Resolve` returns without an error: where it stands before its last section, and what it
leaves and returns then. -/
structure Resolution where
  before : World
  pc : RequestPc
  after : World
  endpoint : Endpoint

/-- `Resolve` on the store, when nothing else runs: what its sections meet, and its last one. -/
def World.resolve (w : World) (req : Request) (es : List Env) (e : Env) : Option Resolution :=
  match Runs.run (resolveStep req) (w, .resolve) es with
  | none => none
  | some (before, pc) =>
    match resolveNext before req pc e with
    | some (after, .returned endpoint) => some ⟨before, pc, after, endpoint⟩
    | _ => none

/-- **The later steps work on the function that `Resolve` has used**: the invocation is recorded in
its statistics, and `UpdateReplicaStatusInactive` finds it and takes the replica out of the map
that `Resolve` has put it in. -/
structure Resolution.SameFunction (r : Resolution) (req : Request) : Prop where
  sent : ∀ startupTime execTime, ∃ stats,
    updateFunctionStats req.functionName r.endpoint.containerType r.endpoint.replicaName
      startupTime execTime r.endpoint.startupType = .ok stats ∧
    stats.head?.map (·.fn) = some (actualFunctionName req.functionName)
  recorded : actualFunctionName req.functionName ∈ r.after.functionStats
  found : ∃ o f, r.after.fn? req.functionName = some (o, f) ∧
    f.name = actualFunctionName req.functionName ∧
    f.effectiveFname req.functionName r.endpoint.replicaName = r.pc.serving
  taken : ∃ o f, r.after.fn? r.pc.serving = some (o, f) ∧
    r.endpoint.replicaName ∈ f.activeReplicas

/-- The name of the replica that the section hands out: the youngest idle one, or the new one. -/
def RequestPc.nextReplica (w : World) : RequestPc → Str
  | .idle fn =>
    (((w.fn? fn.pool).bind fun of => of.2.idleReplicas.stored.getLast?).map (·.uuid)).getD []
  | .create _ (.add replica) => replica.uuid
  | _ => []

/-- The name of a replica leads back to the sandbox: its letter is that of the sandbox for both
readers. -/
def leadsBack (sandboxes : GoMap Str) (sandbox replicaName : Str) : Bool :=
  decide (index sandboxes (replicaType replicaName) = sandbox) &&
    decide ((replicaName.splitOn '_')[2]? = some "n".toList ∨
      (replicaName.splitOn '_')[2]? = some "w".toList)

/-- The function that `Resolve` works for. -/
def RequestPc.resolving? : RequestPc → Option Resolving
  | .policy fn => some fn
  | .idle fn => some fn
  | .create fn _ => some fn
  | _ => none

/-- **The name of the replica leads back to the function**: there is a replica, and for a hybrid
function its name leads back to the sandbox that it is a replica of. -/
def RequestPc.keepsFunction (w : World) (e : Env) (pc : RequestPc) : Bool :=
  pc.obtains w e && pc.resolving?.all fun fn =>
    decide (fn.containerType ≠ hybrid) ||
      leadsBack fn.sandboxes pc.serving (pc.nextReplica w)

/-! ### Sections of `Resolve` -/

/-- Only an invocation in `Resolve` has a next section of it. -/
lemma resolving_of_resolveNext {w : World} {req : Request} {pc : RequestPc} {e : Env}
    {r : World × ResolveResult} (h : resolveNext w req pc e = some r) : pc.resolving = true := by
  cases pc with
  | resolve => rfl
  | policy => rfl
  | idle => rfl
  | create => rfl
  | _ => cases h

/-- A section of `Resolve` is one of the invocation. -/
lemma requestSection_of_resolveNext {w w' : World} {req : Request} {pc : RequestPc} {e : Env}
    {result : ResolveResult} (h : resolveNext w req pc e = some (w', result)) :
    ∃ new, RequestSection w req e pc w' (result.thread req) new := by
  have heq := requestNext_eq w req (resolving_of_resolveNext h) e
  rw [h, Option.map_some, Option.map_eq_some_iff] at heq
  obtain ⟨⟨w₁, t', new⟩, hnext, heq⟩ := heq
  obtain ⟨hw, ht⟩ := Prod.mk.inj heq
  dsimp only at hw ht
  subst hw ht
  exact ⟨new, requestNext_cases hnext⟩

/-- What `Resolve` knows of its function is what the function says. -/
structure ResolvedFrom (f : Function) (fn : Resolving) : Prop where
  name : fn.name = f.name
  sandboxes : fn.sandboxes = f.sandboxes
  containerType : fn.containerType = containerType f

/-- What `Resolve` knows of its function outlasts what happens to the replicas. -/
lemma ResolvedFrom.of_spec {fn : Resolving} {f f' : Function} (h : ResolvedFrom f fn)
    (hspec : f'.spec = f.spec) : ResolvedFrom f' fn := by
  have hn : f'.spec.name = f.spec.name := by rw [hspec]
  have hs : f'.spec.sandboxes = f.spec.sandboxes := by rw [hspec]
  have hct : Fecore.containerType f'.spec = Fecore.containerType f.spec := by rw [hspec]
  exact ⟨h.name.trans hn.symm, h.sandboxes.trans hs.symm, h.containerType.trans hct.symm⟩

/-- What holds between the sections of `Resolve`. -/
structure Resolves (req : Request) (w : World) (pc : RequestPc) : Prop where
  wellFormed : w.WellFormed
  carried : pc.WellFormed
  createsFor : (Thread.request req pc).CreatesFor
  fn : ∀ fn, pc.resolving? = some fn →
    ∃ o f, w.fn? (actualFunctionName req.functionName) = some (o, f) ∧ ResolvedFrom f fn

/-- A section goes on with the same function.

**Proof sketch.** Case split on where `Resolve` is. The first section sets the function out of what
it has found, and the others carry it on. -/
lemma resolveNext_resolving? {w w' : World} {req : Request} {pc pc' : RequestPc} {e : Env}
    (h : resolveNext w req pc e = some (w', .running pc')) {fn' : Resolving}
    (hfn' : pc'.resolving? = some fn') :
    (∃ o f, w.fn? (actualFunctionName req.functionName) = some (o, f) ∧ ResolvedFrom f fn') ∨
      ∃ fn, pc.resolving? = some fn ∧ ∀ f, ResolvedFrom f fn → ResolvedFrom f fn' := by
  cases pc with
  | resolve =>
    simp only [resolveNext] at h
    split at h
    · cases h
    split at h
    · cases h
    next o f hf =>
      refine .inl ⟨o, f, hf, ?_⟩
      split at h
      · cases h
        obtain rfl := Option.some.inj hfn'
        exact ⟨rfl, rfl, rfl⟩
      split at h <;>
      · cases h
        obtain rfl := Option.some.inj hfn'
        exact ⟨rfl, rfl, rfl⟩
  | policy fn =>
    refine .inr ⟨fn, rfl, fun f hof => ?_⟩
    simp only [resolveNext] at h
    split at h
    · cases h
    · cases h
      obtain rfl := Option.some.inj hfn'
      exact ⟨hof.name, hof.sandboxes, hof.containerType⟩
  | idle fn =>
    refine .inr ⟨fn, rfl, fun f hof => ?_⟩
    simp only [resolveNext] at h
    split at h
    · cases h
    · cases h
      obtain rfl := Option.some.inj hfn'
      exact hof
    · cases h
  | create fn pc =>
    refine .inr ⟨fn, rfl, fun f hof => ?_⟩
    simp only [resolveNext, Option.map_eq_some_iff] at h
    obtain ⟨⟨w₁, created⟩, -, heq⟩ := h
    obtain ⟨-, hafter⟩ := Prod.mk.inj heq
    cases created with
    | running pc₁ =>
      cases hafter
      obtain rfl := Option.some.inj hfn'
      exact hof
    | failed =>
      simp only [Resolving.afterCreate] at hafter
      split at hafter <;> cases hafter
    | _ => cases hafter
  | _ => cases h

/-- **Step lemma.** A section after which `Resolve` goes on keeps what holds between them.

**Proof sketch.** The function that is looked up after the section was looked up before it, or is
looked up in it. In both cases the one deployed has its settings, since the section moves replicas
only (`requestSection_sameSpecs`). -/
lemma Resolves.step {req : Request} {w w' : World} {pc pc' : RequestPc} {e : Env}
    (h : Resolves req w pc) (hnext : resolveNext w req pc e = some (w', .running pc')) :
    Resolves req w' pc' := by
  obtain ⟨new, hsec⟩ := requestSection_of_resolveNext hnext
  obtain ⟨hw', hpc'⟩ := requestSection_wellFormed hsec h.wellFormed h.carried
  have hspecs := requestSection_sameSpecs hsec
  refine
    { wellFormed := hw'
      carried := hpc'
      createsFor := section_createsFor (.request hsec) h.wellFormed h.createsFor
      fn := fun fn' hfn' => ?_ }
  have hfound : ∃ o f, w.fn? (actualFunctionName req.functionName) = some (o, f) ∧
      ResolvedFrom f fn' := by
    rcases resolveNext_resolving? hnext hfn' with hfound | ⟨fn, hfn, hof⟩
    · exact hfound
    · obtain ⟨o, f, hf, hfof⟩ := h.fn fn hfn
      exact ⟨o, f, hf, hof f hfof⟩
  obtain ⟨o, f, hf, hof⟩ := hfound
  obtain ⟨f', hf', hspec⟩ := hspecs.fn?_eq_some hf
  exact ⟨o, f', hf', hof.of_spec hspec⟩

/-- **Run lemma.** So it holds wherever `Resolve` has come to.

**Proof sketch.** Induct over the run with `Resolves.step`. In the beginning nothing is looked
up. -/
lemma Resolves.run {req : Request} {w w' : World} {pc' : RequestPc} {es : List Env}
    (hw : w.WellFormed)
    (hrun : Runs.run (resolveStep req) (w, .resolve) es = some (w', pc')) :
    Resolves req w' pc' := by
  have hstep : ∀ (p : World × RequestPc) (e : Env) (p' : World × RequestPc),
      Resolves req p.1 p.2 → resolveStep req p e = some p' → Resolves req p'.1 p'.2 := by
    intro p e p' h hs
    simp only [resolveStep] at hs
    split at hs
    · next w' pc' hnext =>
      cases hs
      exact h.step hnext
    · cases hs
  have hstart : Resolves req w .resolve :=
    { wellFormed := hw
      carried := trivial
      createsFor := trivial
      fn := fun fn hfn => by cases hfn }
  exact Runs.invariant (I := fun p : World × RequestPc => Resolves req p.1 p.2) hstep hstart hrun

/-! ### The last section of `Resolve` -/

/-- The label that `Resolve` takes for hybrid is the one that `UpdateReplicaStatusInactive`
looks at. -/
lemma containerType_eq_hybrid_iff (f : Function) :
    containerType f = hybrid ↔ index f.labels ctrTypeLabel = hybrid := by
  have hne : native ≠ hybrid := by decide
  have hnil : ([] : Str) ≠ hybrid := by decide
  unfold containerType index
  cases f.labels.lookup ctrTypeLabel with
  | none => simp [hne, hnil]
  | some val =>
    dsimp only [Option.getD_some]
    split
    · rfl
    · next hval =>
      exact iff_of_false hne fun heq => hval (.inr heq)

/-- The stats of a hybrid function are sent when the third token of the name is one of the two
letters.

**Proof sketch.** Case split on the third token of the name. -/
lemma updateFunctionStats_hybrid_iff (fn requestID startupType : Str) (startupTime execTime : ℤ) :
    (∃ stats, updateFunctionStats fn hybrid requestID startupTime execTime startupType =
        .ok stats ∧ stats.head?.map (·.fn) = some fn) ↔
      (requestID.splitOn '_')[2]? = some "n".toList ∨
        (requestID.splitOn '_')[2]? = some "w".toList := by
  unfold updateFunctionStats
  rw [if_pos rfl]
  dsimp only
  cases (requestID.splitOn '_')[2]? with
  | none => simp
  | some sandboxType =>
    dsimp only
    by_cases hn : sandboxType = "n".toList
    · rw [if_pos hn]
      simp [hn]
    · rw [if_neg hn]
      by_cases hw : sandboxType = "w".toList
      · rw [if_pos hw]
        simp [hw]
      · rw [if_neg hw]
        simp only [Except.ok.injEq, exists_eq_left', List.head?_nil, Option.map_none, reduceCtorEq,
          Option.some.injEq, hn, hw, or_self]

/-- `Resolve` neither makes nor drops statistics.

**Proof sketch.** Case split on the section: one of a creation writes a record, under a name that
has one already; the others write none. -/
lemma mem_functionStats_of_resolveNext {w w' : World} {req : Request} {pc : RequestPc} {e : Env}
    {result : ResolveResult} (h : resolveNext w req pc e = some (w', result)) (n : Str) :
    n ∈ w'.functionStats ↔ n ∈ w.functionStats := by
  obtain ⟨new, hsec⟩ := requestSection_of_resolveNext h
  have hcreate : ∀ {call : CreateCall} {pc : CreatePc} {w' : World} {result : CreateResult},
      CreateSection w call e pc w' result → (n ∈ w'.functionStats ↔ n ∈ w.functionStats) := by
    intro call pc w' result hsec
    cases hsec with
    | addActive hact hf hstats =>
      refine (AList.mem_insert _).trans (or_iff_right_of_imp ?_)
      rintro rfl
      exact AList.lookup_isSome.mp (by rw [hstats]; rfl)
    | _ => rfl
  generalize result.thread req = t' at hsec
  cases hsec with
  | create hsec => exact hcreate hsec
  | del => cases h
  | delFault => cases h
  | _ => rfl

/-- What is known of `Resolve` when it returns without an error.

**Proof sketch.** Only the look-up of an idle replica and the end of a creation return, and both
know the function that they are for. -/
lemma resolveNext_returned {w w' : World} {req : Request} {pc : RequestPc} {e : Env}
    {endpoint : Endpoint} (h : resolveNext w req pc e = some (w', .returned endpoint)) :
    ∃ fn, pc.resolving? = some fn ∧ endpoint.containerType = fn.containerType ∧
      (fn.containerType ≠ hybrid → pc.serving = fn.name) ∧
      (endpoint.replicaName ≠ [] →
        pc.obtains w e = true ∧ endpoint.replicaName = pc.nextReplica w) := by
  cases pc with
  | resolve =>
    simp only [resolveNext] at h
    split at h
    · cases h
    split at h
    · cases h
    split at h
    · cases h
    split at h <;> cases h
  | policy fn =>
    simp only [resolveNext] at h
    split at h <;> cases h
  | idle fn =>
    refine ⟨fn, rfl, ?_⟩
    cases hf : w.fn? fn.pool with
    | none =>
      simp only [resolveNext, World.getIdleReplica, hf] at h
      cases h
    | some of =>
      cases htake : of.2.takeIdle with
      | none =>
        simp only [resolveNext, World.getIdleReplica, hf, htake] at h
        cases h
      | some rf =>
        simp only [resolveNext, World.getIdleReplica, hf, htake] at h
        cases h
        refine ⟨rfl, fun hct => if_neg hct, fun _ => ⟨?_, ?_⟩⟩
        · simp [RequestPc.obtains, hf]
        · have hstored := (Function.takeIdle_spec htake).1
          simp [RequestPc.nextReplica, hf, hstored, Resolving.endpoint]
  | create fn pc =>
    refine ⟨fn, rfl, ?_⟩
    have hserving : fn.containerType ≠ hybrid → fn.call.fname = fn.name := by
      intro hct
      rw [Resolving.call, if_neg hct]
    simp only [resolveNext, Option.map_eq_some_iff] at h
    obtain ⟨⟨w₁, created⟩, hnext, heq⟩ := h
    obtain ⟨-, hafter⟩ := Prod.mk.inj heq
    cases created with
    | running pc' => cases hafter
    | panicked fault => cases hafter
    | failed =>
      simp only [Resolving.afterCreate] at hafter
      split at hafter
      · cases hafter
        exact ⟨rfl, hserving, fun hne => absurd rfl hne⟩
      · cases hafter
    | returned replicaName replicaIP =>
      cases hafter
      refine ⟨rfl, hserving, fun hne => ?_⟩
      have hsec := createNext_cases hnext
      cases hsec with
      | neither => exact absurd rfl hne
      | addActive hact hf hstats =>
        exact ⟨by simp [RequestPc.obtains, CreatePc.obtains, hf, hstats], rfl⟩
      | addIdle hact =>
        have hactive := fn.call_setActive
        rw [hactive] at hact
        cases hact
  | _ => cases h

/-- What is known when `Resolve` has returned without an error: it has used `f`, of which it knows
`fn`. -/
structure Returned (req : Request) (e : Env) (r : Resolution) (fn : Resolving) (f : Function) :
    Prop where
  wellFormed : r.after.WellFormed
  used : ∃ o, r.after.fn? (actualFunctionName req.functionName) = some (o, f)
  resolving : r.pc.resolving? = some fn
  resolvedFrom : ResolvedFrom f fn
  containerType : r.endpoint.containerType = fn.containerType
  serving : fn.containerType ≠ hybrid → r.pc.serving = fn.name
  obtained : r.endpoint.replicaName ≠ [] →
    r.pc.obtains r.before e = true ∧ r.endpoint.replicaName = r.pc.nextReplica r.before
  right : (ResolveResult.returned r.endpoint).right r.after r.pc.serving =
    r.pc.obtains r.before e
  functionStats : ∀ n, n ∈ r.after.functionStats ↔ n ∈ r.before.functionStats

/-- `Resolve` returns what it knows.

**Proof sketch.** The sections before the last one keep what `Resolve` knows (`Resolves.run`),
and the last one returns it (`resolveNext_returned`); the store keeps its specifications in all
of them. -/
lemma Returned.of_resolve {w : World} (hw : w.WellFormed) {req : Request} {es : List Env} {e : Env}
    {r : Resolution} (h : w.resolve req es e = some r) : ∃ fn f, Returned req e r fn f := by
  unfold World.resolve at h
  split at h
  · cases h
  next before pc hrun =>
  split at h
  swap
  · cases h
  next after endpoint hnext =>
  obtain rfl := Option.some.inj h
  have hres := Resolves.run hw hrun
  obtain ⟨new, hsec⟩ := requestSection_of_resolveNext hnext
  obtain ⟨fn, hfn, hct, hserving, hobtained⟩ := resolveNext_returned hnext
  obtain ⟨o, f, hf, hof⟩ := hres.fn fn hfn
  obtain ⟨f', hf', hspec⟩ := (requestSection_sameSpecs hsec).fn?_eq_some hf
  exact ⟨fn, f',
    { wellFormed := (requestSection_wellFormed hsec hres.wellFormed hres.carried).1
      used := ⟨o, hf'⟩
      resolving := hfn
      resolvedFrom := hof.of_spec hspec
      containerType := hct
      serving := hserving
      obtained := hobtained
      right := resolveNext_right_iff hnext hres.wellFormed hres.carried hres.createsFor
      functionStats := mem_functionStats_of_resolveNext hnext }⟩

namespace Returned

variable {req : Request} {e : Env} {r : Resolution} {fn : Resolving} {f : Function}

/-- `Resolve` and `UpdateReplicaStatusInactive` agree on which functions are hybrid. -/
lemma hybrid_iff (h : Returned req e r fn f) :
    fn.containerType = hybrid ↔ index f.labels ctrTypeLabel = hybrid := by
  rw [h.resolvedFrom.containerType]
  exact containerType_eq_hybrid_iff f

/-- `UpdateReplicaStatusInactive` gets back to the function of the pool: for a hybrid function by
the name of the replica. -/
lemma effectiveFname_eq_iff (h : Returned req e r fn f) (hname : f.name = req.functionName) :
    f.effectiveFname req.functionName r.endpoint.replicaName = r.pc.serving ↔
      (fn.containerType = hybrid →
        index fn.sandboxes (replicaType r.endpoint.replicaName) = r.pc.serving) := by
  by_cases hct : fn.containerType = hybrid
  · rw [Function.effectiveFname, if_pos (h.hybrid_iff.mp hct), h.resolvedFrom.sandboxes]
    exact ⟨fun heq _ => heq, fun heq => heq hct⟩
  · rw [Function.effectiveFname, if_neg fun hlabel => hct (h.hybrid_iff.mpr hlabel),
      h.serving hct, h.resolvedFrom.name, hname]
    exact iff_of_true rfl fun heq => absurd heq hct

/-- The stats are sent for the function in the path: for a hybrid function when the third token of
the name of the replica is one of the two letters. -/
lemma sent_iff (h : Returned req e r fn f) :
    (∀ startupTime execTime, ∃ stats,
      updateFunctionStats req.functionName r.endpoint.containerType r.endpoint.replicaName
        startupTime execTime r.endpoint.startupType = .ok stats ∧
      stats.head?.map (·.fn) = some req.functionName) ↔
      (fn.containerType = hybrid →
        (r.endpoint.replicaName.splitOn '_')[2]? = some "n".toList ∨
          (r.endpoint.replicaName.splitOn '_')[2]? = some "w".toList) := by
  rw [h.containerType]
  by_cases hct : fn.containerType = hybrid
  · rw [hct]
    simp only [updateFunctionStats_hybrid_iff, forall_const]
  · refine iff_of_true (fun _ _ => ?_) fun heq => absurd heq hct
    rw [updateFunctionStats, if_neg hct]
    exact ⟨_, rfl, rfl⟩

/-- What the later steps need of the name of the replica. -/
lemma keepsFunction_iff (h : Returned req e r fn f) :
    r.pc.keepsFunction r.before e = true ↔
      r.pc.obtains r.before e = true ∧ (fn.containerType = hybrid →
        leadsBack fn.sandboxes r.pc.serving (r.pc.nextReplica r.before) = true) := by
  simp only [RequestPc.keepsFunction, h.resolving, Option.all_some, Bool.and_eq_true,
    Bool.or_eq_true, decide_eq_true_eq, ne_eq]
  exact and_congr_right fun _ => imp_iff_not_or.symm

/-- A replica is handed out exactly when `Resolve` obtains one, and then it is active in the
function of the pool.

**Proof sketch.** Left to right, the name that is answered is that of a replica, so it is not empty,
and `Resolve` has obtained it. Right to left, a replica that is obtained is active in the pool's
function. -/
lemma taken_iff (h : Returned req e r fn f) :
    (∃ o g, r.after.fn? r.pc.serving = some (o, g) ∧
      r.endpoint.replicaName ∈ g.activeReplicas) ↔ r.pc.obtains r.before e = true := by
  constructor
  · rintro ⟨o, g, hg, htaken⟩
    obtain ⟨replica, hact⟩ := Option.isSome_iff_exists.mp (AList.lookup_isSome.mpr htaken)
    obtain ⟨hr, -, huuid⟩ := (h.wellFormed.function hg).1.active _ _ hact
    refine (h.obtained ?_).1
    intro hnil
    have hcount := hr.uuid
    rw [huuid, hnil] at hcount
    cases hcount
  · intro hobt
    have hright := h.right.trans hobt
    simp only [ResolveResult.right, Bool.and_eq_true] at hright
    obtain ⟨⟨o, g⟩, hg, hactive⟩ := (Option.any_eq_true _ _).mp hright.2
    obtain ⟨replica, hact, -⟩ := (Option.any_eq_true _ _).mp hactive
    exact ⟨o, g, hg, AList.lookup_isSome.mp (by rw [hact]; rfl)⟩

/-- The name that `Resolve` returns when it obtains a replica. -/
lemma replicaName_eq (h : Returned req e r fn f) (hobt : r.pc.obtains r.before e = true) :
    r.endpoint.replicaName = r.pc.nextReplica r.before := by
  have hright := h.right.trans hobt
  simp only [ResolveResult.right, Bool.and_eq_true, decide_eq_true_eq] at hright
  exact (h.obtained hright.1).2

/-- **Without a dot in the name**, the four parts of `SameFunction` are the parts of the
condition.

**Proof sketch.** Without a dot the function is looked up under the name as it is, so the four parts
are those of the condition: `sent_iff` and `effectiveFname_eq_iff` for the name of the replica,
`taken_iff` for the replica that the request obtains. -/
lemma sameFunction_iff_of_notMem (h : Returned req e r fn f) (hdot : '.' ∉ req.functionName) :
    r.SameFunction req ↔
      req.functionName ∈ r.before.functionStats ∧ r.pc.keepsFunction r.before e = true := by
  have hact := actualFunctionName_of_notMem hdot
  obtain ⟨o, hf⟩ := h.used
  rw [hact] at hf
  have hname := h.wellFormed.named _ _ _ hf
  have hsent := h.sent_iff
  have hfound := h.effectiveFname_eq_iff hname
  rw [h.keepsFunction_iff, ← h.functionStats]
  constructor
  · rintro ⟨hs, hrecorded, ⟨o₁, f₁, hf₁, -, heff⟩, htaken⟩
    rw [hact] at hs hrecorded
    obtain ⟨rfl, rfl⟩ := Prod.mk.inj (Option.some.inj (hf.symm.trans hf₁))
    have hobt := h.taken_iff.mp htaken
    refine ⟨hrecorded, hobt, fun hct => ?_⟩
    rw [← h.replicaName_eq hobt, leadsBack, Bool.and_eq_true, decide_eq_true_eq,
      decide_eq_true_eq]
    exact ⟨hfound.mp heff hct, hsent.mp hs hct⟩
  · rintro ⟨hrecorded, hobt, hback⟩
    rw [← h.replicaName_eq hobt] at hback
    simp only [leadsBack, Bool.and_eq_true, decide_eq_true_eq] at hback
    exact
      { sent := by rw [hact]; exact hsent.mpr fun hct => (hback hct).2
        recorded := by rwa [hact]
        found := ⟨o, f, hf, by rw [hact, hname], hfound.mpr fun hct => (hback hct).1⟩
        taken := h.taken_iff.mpr hobt }

end Returned

/-- With a dot in the name, the later steps find no function or another one, whose name is longer
than that of the one that `Resolve` has used. -/
lemma Resolution.SameFunction.notMem {r : Resolution} {req : Request} (hw : r.after.WellFormed)
    (h : r.SameFunction req) : '.' ∉ req.functionName := by
  intro hdot
  obtain ⟨o, f, hf, hname, -⟩ := h.found
  have hlt := actualFunctionName_length_lt hdot
  rw [← hname, hw.named _ _ _ hf] at hlt
  exact lt_irrefl _ hlt

/-- **When the later steps work on the function that `Resolve` has used**: the name in the path has
no dot, the function has statistics, and there is a replica, whose name leads back to the sandbox if
the function is hybrid.

**Proof sketch.** With a dot the function that is found later has a longer name than the one that
`Resolve` has used. Without one the names agree. Then the function is found, and its own map is
asked for the replica, or that of the sandbox that the name of the replica leads to. -/
theorem sameFunction_iff {c : State} (hc : Reachable c) {req : Request} {es : List Env} {e : Env}
    {r : Resolution} (h : c.shared.resolve req es e = some r) :
    r.SameFunction req ↔
      '.' ∉ req.functionName ∧ req.functionName ∈ r.before.functionStats ∧
        r.pc.keepsFunction r.before e = true := by
  obtain ⟨fn, f, hret⟩ := Returned.of_resolve hc.wellFormed.1 h
  constructor
  · intro hsame
    have hdot := hsame.notMem hret.wellFormed
    exact ⟨hdot, (hret.sameFunction_iff_of_notMem hdot).mp hsame⟩
  · rintro ⟨hdot, hkeeps⟩
    exact (hret.sameFunction_iff_of_notMem hdot).mpr hkeeps

/-- `Resolve` for `f` when it is deployed: a replica is created. -/
theorem sameFunction_f :
    ∃ c r, smallRun (deployF nativeLabels) = some c ∧
      c.shared.resolve { functionName := "f".toList } (List.replicate 5 { uuid := "1".toList })
        {} = some r ∧
      r.SameFunction { functionName := "f".toList } := by
  obtain ⟨c, hc, hlook⟩ := (Option.any_eq_true
    (fun c : State => (c.shared.resolve { functionName := "f".toList }
        (List.replicate 5 { uuid := "1".toList }) {}).any fun (r : Resolution) =>
      decide ("f".toList ∈ r.before.functionStats) && r.pc.keepsFunction r.before {})
    (smallRun (deployF nativeLabels))).mp (by decide +kernel)
  obtain ⟨r, hr, hkeeps⟩ := (Option.any_eq_true _ _).mp hlook
  obtain ⟨hrecorded, hkeeps⟩ := Bool.and_eq_true_iff.mp hkeeps
  exact ⟨c, r, hc, hr, (sameFunction_iff (reachable_of_smallRun hc) hr).mpr
    ⟨by decide, of_decide_eq_true hrecorded, hkeeps⟩⟩

/-- `Resolve` finds `f` under the name with its namespace, and the later steps do not. -/
theorem not_sameFunction_namespace :
    ∃ c r, Reachable c ∧
      c.shared.resolve { functionName := "f.faasedge-fn".toList }
        (List.replicate 5 { uuid := "1".toList }) {} = some r ∧
      ¬ r.SameFunction { functionName := "f.faasedge-fn".toList } := by
  obtain ⟨c, hc, hlook⟩ := (Option.any_eq_true
    (fun c : State => (c.shared.resolve { functionName := "f.faasedge-fn".toList }
        (List.replicate 5 { uuid := "1".toList }) {}).any fun (r : Resolution) =>
      (r.after.fn? "f.faasedge-fn".toList).isNone)
    (smallRun (deployF nativeLabels))).mp (by decide +kernel)
  obtain ⟨r, hr, hnone⟩ := (Option.any_eq_true _ _).mp hlook
  refine ⟨c, r, reachable_of_smallRun hc, hr, fun hsame => ?_⟩
  obtain ⟨o, f, hf, -⟩ := hsame.found
  rw [hf] at hnone
  cases hnone

end Fecore
