import Mathlib.Tactic.Common
import Fecore.Handlers.Provider

set_option relaxedAutoImplicit false
set_option autoImplicit false

/-!
# What a section of the provider does

Every section of every goroutine, once: what it needs, and what it makes of the store and of its
goroutine. Each invariant of the provider is proved by cases on these.

## Main definitions

* `Fecore.RequestSection`, `Fecore.SweepSection`, `Fecore.Section` — the sections.

## Main results

* `Fecore.next_cases` — the next section of a goroutine is one of them.
-/

namespace Fecore

/-- Everything that a section of an invocation can do. -/
inductive RequestSection (w : World) (req : Request) (e : Env) :
    RequestPc → World → Thread → List Thread → Prop
  | unresolved : RequestSection w req e .resolve w .returned []
  | resolvedHybrid {o : Ref} {f : Function} {fn : Resolving}
      (hf : w.fn? (actualFunctionName req.functionName) = some (o, f)) (hname : fn.name = f.name)
      (hct : fn.containerType = hybrid) :
      RequestSection w req e .resolve w (.request req (.policy fn)) []
  | resolvedCold {o : Ref} {f : Function} {fn : Resolving}
      (hf : w.fn? (actualFunctionName req.functionName) = some (o, f)) (hname : fn.name = f.name)
      (hct : fn.containerType ≠ hybrid) :
      RequestSection w req e .resolve w (.request req (.create fn (.slot 0))) []
  | resolved {o : Ref} {f : Function} {fn : Resolving}
      (hf : w.fn? (actualFunctionName req.functionName) = some (o, f)) (hname : fn.name = f.name)
      (hct : fn.containerType ≠ hybrid) :
      RequestSection w req e .resolve w (.request req (.idle fn)) []
  | policyAbsent {fn : Resolving} (hf : w.fn? fn.name = none) :
      RequestSection w req e (.policy fn) w (.panicked .absentFunction) []
  | policy {fn : Resolving} {o : Ref} {f : Function} (hf : w.fn? fn.name = some (o, f)) :
      RequestSection w req e (.policy fn) w
        (.request req (.idle { fn with policy := f.policy })) []
  | idleAbsent {fn : Resolving} (hf : w.fn? fn.pool = none) :
      RequestSection w req e (.idle fn) w (.panicked .absentFunction) []
  | idleNone {fn : Resolving} {o : Ref} {f : Function} (hf : w.fn? fn.pool = some (o, f))
      (htake : f.takeIdle = none) :
      RequestSection w req e (.idle fn) w (.request req (.create fn (.slot 0))) []
  | idle {fn : Resolving} {o : Ref} {f f' : Function} {replica : Replica}
      (hf : w.fn? fn.pool = some (o, f)) (htake : f.takeIdle = some (replica, f')) :
      RequestSection w req e (.idle fn) (w.setFn o f')
        (.request req (.build fn.containerType replica.uuid)) []
  | create {fn : Resolving} {pc : CreatePc} {w' : World} {result : CreateResult}
      (hsec : CreateSection w fn.call e pc w' result) :
      RequestSection w req e (.create fn pc) w' (Thread.afterCreate req fn result).1
        (Thread.afterCreate req fn result).2
  | buildFailed {ct replicaName : Str} (herr : e.err = true) :
      RequestSection w req e (.build ct replicaName) w .returned []
  | build {ct replicaName : Str} (herr : e.err = false) :
      RequestSection w req e (.build ct replicaName) w
        (.request req (.exec ct replicaName)) []
  | execNil {ct replicaName : Str} (hresp : (proxyClientDo e.exchange).response = none) :
      RequestSection w req e (.exec ct replicaName) w (.panicked .nilResponse) []
  | execBad {ct replicaName : Str} (hresp : (proxyClientDo e.exchange).response ≠ some 200) :
      RequestSection w req e (.exec ct replicaName) w .returned []
  | exec {ct replicaName : Str} (hresp : (proxyClientDo e.exchange).response = some 200) :
      RequestSection w req e (.exec ct replicaName) w
        (.request req (.labels ct replicaName)) []
  | labelsIndex {ct replicaName : Str} (hct : ct = hybrid)
      (hcount : replicaName.count '_' < 2) :
      RequestSection w req e (.labels ct replicaName) w (.panicked .indexRange) []
  | labelsAbsent {ct replicaName : Str} (hf : w.fn? req.functionName = none) :
      RequestSection w req e (.labels ct replicaName) w (.panicked .absentFunction) []
  | labels {ct replicaName : Str} {o : Ref} {f : Function}
      (hf : w.fn? req.functionName = some (o, f)) :
      RequestSection w req e (.labels ct replicaName) w
        (.request req (.take (f.effectiveFname req.functionName replicaName) replicaName)) []
  | takeAbsent {effectiveFname replicaName : Str} (hf : w.fn? effectiveFname = none) :
      RequestSection w req e (.take effectiveFname replicaName) w
        (.panicked .absentFunction) []
  | take {effectiveFname replicaName : Str} {o : Ref} {f : Function}
      (hf : w.fn? effectiveFname = some (o, f)) :
      RequestSection w req e (.take effectiveFname replicaName)
        (w.setFn o { f with activeReplicas := f.activeReplicas.erase replicaName })
        (.request req (.look replicaName (f.activeReplicas.lookup replicaName))) []
  | lookAbsent {replicaName : Str} {replica : Option Replica} (hf : w.fn? req.functionName = none) :
      RequestSection w req e (.look replicaName replica) w (.panicked .absentFunction) []
  | lookNil {replicaName : Str} {o : Ref} {f : Function}
      (hf : w.fn? req.functionName = some (o, f)) :
      RequestSection w req e (.look replicaName none) w (.panicked .nilReplica) []
  | lookDel {replicaName : Str} {replica : Replica} {o : Ref} {f : Function}
      (hf : w.fn? req.functionName = some (o, f)) :
      RequestSection w req e (.look replicaName (some replica)) w (.request req (.del replica)) []
  | lookGive {replicaName : Str} {replica : Replica} {o : Ref} {f : Function}
      (hf : w.fn? req.functionName = some (o, f)) :
      RequestSection w req e (.look replicaName (some replica)) w (.request req (.give replica)) []
  | giveAbsent {replica : Replica} (hf : w.fn? replica.fname = none) :
      RequestSection w req e (.give replica) w (.panicked .absentFunction) []
  | give {replica : Replica} {o : Ref} {f : Function} (hf : w.fn? replica.fname = some (o, f)) :
      RequestSection w req e (.give replica)
        (w.setFn o { f with idleReplicas := f.idleReplicas.add replica e.now }) .returned []
  | del {replica : Replica} {w' : World}
      (hdel : w.deleteReplica (e.answers replica.uuid) replica = (w', none)) :
      RequestSection w req e (.del replica) w' .returned []
  | delFault {replica : Replica} {w' : World} {fault : Fault}
      (hdel : w.deleteReplica (e.answers replica.uuid) replica = (w', some fault)) :
      RequestSection w req e (.del replica) w' (.panicked fault) []

/-- Everything that a section of a sweep can do. -/
inductive SweepSection (w : World) (e : Env) : SweepPc → World → Thread → Prop
  | locked : SweepSection w e .tryLock w .returned
  | lock : SweepSection w e .tryLock { w with cleanupMu := true }
      (.sweep (.range e.now w.deployedFunctions.keys []))
  | visit {currTs : Time} {began visited : List Str} {name : Str} {fn : Ref}
      (hlookup : w.deployedFunctions.lookup name = some fn) :
      SweepSection w e (.range currTs began visited) w
        (.sweep (.pool currTs began (name :: visited) fn))
  | done {currTs : Time} {began visited : List Str} :
      SweepSection w e (.range currTs began visited) { w with cleanupMu := false } .returned
  | lruAbsent {currTs : Time} {began visited : List Str} {fn : Ref} {f : Function}
      (hheap : w.heap[fn]? = some f) (hf : w.fn? f.name = none) :
      SweepSection w e (.pool currTs began visited fn) { w with cleanupMu := false }
        (.panicked .absentFunction)
  | lru {currTs : Time} {began visited : List Str} {fn o : Ref} {f f' : Function}
      {replica : Replica} (hheap : w.heap[fn]? = some f)
      (hsweep : (f.idleReplicas.sweep w.cfg currTs).2 = .lru replica)
      (hf : w.fn? f.name = some (o, f')) :
      SweepSection w e (.pool currTs began visited fn)
        (w.setFn o { f' with idleReplicas := f'.idleReplicas.remove })
        (.sweep (.del currTs began visited fn replica))
  | mru {currTs : Time} {began visited : List Str} {fn : Ref} {f : Function}
      {replica : Replica} {w' : World} (hheap : w.heap[fn]? = some f)
      (hsweep : (f.idleReplicas.sweep w.cfg currTs).2 = .mru (some replica))
      (hdel : (w.setFn fn { f with
        idleReplicas := { f.idleReplicas with mru := none } }).deleteReplica
          (e.answers replica.uuid) replica = (w', none)) :
      SweepSection w e (.pool currTs began visited fn) w'
        (.sweep (.range currTs began visited))
  | mruFault {currTs : Time} {began visited : List Str} {fn : Ref} {f : Function}
      {replica : Replica} {w' : World} {fault : Fault} (hheap : w.heap[fn]? = some f)
      (hsweep : (f.idleReplicas.sweep w.cfg currTs).2 = .mru (some replica))
      (hdel : (w.setFn fn { f with
        idleReplicas := { f.idleReplicas with mru := none } }).deleteReplica
          (e.answers replica.uuid) replica = (w', some fault)) :
      SweepSection w e (.pool currTs began visited fn) { w' with cleanupMu := false }
        (.panicked fault)
  | fresh {currTs : Time} {began visited : List Str} {fn : Ref} {f : Function}
      (hheap : w.heap[fn]? = some f) (hsweep : (f.idleReplicas.sweep w.cfg currTs).2 = .mru none) :
      SweepSection w e (.pool currTs began visited fn) w (.sweep (.range currTs began visited))
  | del {currTs : Time} {began visited : List Str} {fn : Ref} {replica : Replica} {w' : World}
      (hdel : w.deleteReplica (e.answers replica.uuid) replica = (w', none)) :
      SweepSection w e (.del currTs began visited fn replica) w'
        (.sweep (.pool currTs began visited fn))
  | delFault {currTs : Time} {began visited : List Str} {fn : Ref} {replica : Replica}
      {w' : World} {fault : Fault}
      (hdel : w.deleteReplica (e.answers replica.uuid) replica = (w', some fault)) :
      SweepSection w e (.del currTs began visited fn replica) { w' with cleanupMu := false }
        (.panicked fault)

/-- Everything that a section can do. -/
inductive Section (w : World) (e : Env) : Thread → World → Thread → List Thread → Prop
  | request {req : Request} {pc : RequestPc} {w' : World} {t' : Thread} {new : List Thread}
      (hsec : RequestSection w req e pc w' t' new) : Section w e (.request req pc) w' t' new
  | spawn {call : CreateCall} {pc : CreatePc} {w' : World} {result : CreateResult}
      (hsec : CreateSection w call e pc w' result) :
      Section w e (.spawn call pc) w' (.afterSpawn call result) []
  | sweep {pc : SweepPc} {w' : World} {t' : Thread} (hsec : SweepSection w e pc w' t') :
      Section w e (.sweep pc) w' t' []
  | deleteAll {req : DeleteRequest} {w' : World}
      (hdel : w.deleteAllReplicas req.lookupNamespace e.answers req.functionName = (w', none)) :
      Section w e (.delete req .deleteAll) w' (.delete req .read) []
  | deleteAllFault {req : DeleteRequest} {w' : World} {fault : Fault}
      (hdel : w.deleteAllReplicas req.lookupNamespace e.answers req.functionName =
        (w', some fault)) :
      Section w e (.delete req .deleteAll) w' (.panicked fault) []
  | read {req : DeleteRequest} :
      Section w e (.delete req .read) w
        (.delete req (.rows (w.deployedFunctions.lookup req.functionName))) []
  | rowsFailed {req : DeleteRequest} {fn : Option Ref} (herr : e.err = true) :
      Section w e (.delete req (.rows fn)) w .returned []
  | rowsAbsent {req : DeleteRequest} {fn : Option Ref} (herr : e.err = false)
      (hf : (fn.bind fun o => w.heap[o]?) = none) :
      Section w e (.delete req (.rows fn))
        { w with functionTable := w.functionTable.filter (· ≠ req.functionName) }
        (.panicked .absentFunction) []
  | rows {req : DeleteRequest} {fn : Option Ref} {f : Function} (herr : e.err = false)
      (hf : (fn.bind fun o => w.heap[o]?) = some f) :
      Section w e (.delete req (.rows fn)) (w.deleteRows req.functionName f)
        (.delete req .unmap) []
  | unmap {req : DeleteRequest} :
      Section w e (.delete req .unmap) (w.dropFunction req.functionName) .returned []
  | refused {req : FunctionDeployment} : Section w e (.deploy (.insert req)) w .returned []
  | insert {req : FunctionDeployment} {fn : Function} {w' : World}
      (hdeploy : deploy req e = some fn) (hins : w.insertFunction fn = some w') :
      Section w e (.deploy (.insert req)) w' (.deploy (.map fn)) []
  | map {fn : Function} :
      Section w e (.deploy (.map fn)) (w.putFunction fn) (.deploy (.stats fn.name)) []
  | stats {fn : Str} : Section w e (.deploy (.stats fn)) (w.putStats fn) .returned []
  | policyAbsent {fn : Str} {updated : Policy} (hf : w.fn? fn = none) :
      Section w e (.updatePolicy fn updated) w (.panicked .absentFunction) []
  | policy {fn : Str} {updated : Policy} {o : Ref} {f : Function} (hf : w.fn? fn = some (o, f)) :
      Section w e (.updatePolicy fn updated)
        (w.setFn o { f with policy := World.updatedPolicy f.policy updated }) .returned []

/-- **What a section of an invocation can do** is one of the cases.

**Proof sketch.** Case split on where the invocation is, and there on the look-ups and answers that
its section tests. -/
lemma requestNext_cases {w w' : World} {req : Request} {pc : RequestPc} {e : Env} {t' : Thread}
    {new : List Thread} (h : requestNext w req pc e = some (w', t', new)) :
    RequestSection w req e pc w' t' new := by
  cases pc with
  | resolve =>
    simp only [requestNext] at h
    split at h
    · cases h
      exact .unresolved
    split at h
    · cases h
      exact .unresolved
    next o f hf =>
      split at h
      · next hct =>
        cases h
        exact .resolvedHybrid hf rfl hct
      · next hct =>
        split at h
        · cases h
          exact .resolvedCold hf rfl hct
        · cases h
          exact .resolved hf rfl hct
  | policy fn =>
    cases hf : w.fn? fn.name with
    | none =>
      simp only [requestNext, World.getInvocationPolicy, hf] at h
      cases h
      exact .policyAbsent hf
    | some of =>
      simp only [requestNext, World.getInvocationPolicy, hf] at h
      cases h
      exact .policy hf
  | idle fn =>
    cases hf : w.fn? fn.pool with
    | none =>
      simp only [requestNext, World.getIdleReplica, hf] at h
      cases h
      exact .idleAbsent hf
    | some of =>
      cases htake : of.2.takeIdle with
      | none =>
        simp only [requestNext, World.getIdleReplica, hf, htake] at h
        cases h
        exact .idleNone hf htake
      | some rf =>
        simp only [requestNext, World.getIdleReplica, hf, htake] at h
        cases h
        exact .idle hf htake
  | create fn pc =>
    simp only [requestNext] at h
    split at h
    · cases h
    · next w₁ result hnext =>
      obtain ⟨rfl, hafter⟩ : w₁ = w' ∧ Thread.afterCreate req fn result = (t', new) := by
        simpa using h
      have hsec : RequestSection w req e (.create fn pc) w₁ (Thread.afterCreate req fn result).1
          (Thread.afterCreate req fn result).2 := .create (createNext_cases hnext)
      rwa [hafter] at hsec
  | build ct replicaName =>
    simp only [requestNext] at h
    split at h
    · next herr =>
      cases h
      exact .buildFailed herr
    · next herr =>
      cases h
      exact .build (by simpa using herr)
  | exec ct replicaName =>
    simp only [requestNext] at h
    split at h
    · next hresp =>
      cases h
      exact .execNil hresp
    · next statusCode hresp =>
      split at h
      · next hcode =>
        cases h
        exact .execBad (by simpa [hresp] using hcode)
      · next hcode =>
        cases h
        exact .exec (by simpa [hresp] using hcode)
  | labels ct replicaName =>
    simp only [requestNext] at h
    split at h
    · next hidx =>
      cases h
      exact .labelsIndex hidx.1 hidx.2
    · split at h
      · next hf =>
        cases h
        exact .labelsAbsent hf
      · next o f hf =>
        cases h
        exact .labels hf
  | take effectiveFname replicaName =>
    cases hf : w.fn? effectiveFname with
    | none =>
      simp only [requestNext, World.takeActive, hf] at h
      cases h
      exact .takeAbsent hf
    | some of =>
      simp only [requestNext, World.takeActive, hf] at h
      cases h
      exact .take hf
  | look replicaName replica =>
    cases hf : w.fn? req.functionName with
    | none =>
      simp only [requestNext, World.getInvocationPolicy, hf] at h
      cases h
      exact .lookAbsent hf
    | some of =>
      cases replica with
      | none =>
        simp only [requestNext, World.getInvocationPolicy, hf] at h
        cases h
        exact .lookNil hf
      | some replica =>
        simp only [requestNext, World.getInvocationPolicy, hf] at h
        split at h
        · cases h
          exact .lookDel hf
        · cases h
          exact .lookGive hf
  | give replica =>
    cases hf : w.fn? replica.fname with
    | none =>
      simp only [requestNext, World.addIdleReplica, hf] at h
      cases h
      exact .giveAbsent hf
    | some of =>
      simp only [requestNext, World.addIdleReplica, hf] at h
      cases h
      exact .give hf
  | del replica =>
    simp only [requestNext] at h
    split at h
    · next hdel =>
      cases h
      exact .del hdel
    · next hdel =>
      cases h
      exact .delFault hdel

/-- **What a section of a sweep can do** is one of the cases.

**Proof sketch.** Case split on where the sweep is, and on what it finds in the pool. -/
lemma sweepNext_cases {w w' : World} {pc : SweepPc} {e : Env} {t' : Thread}
    (h : sweepNext w pc e = some (w', t')) : SweepSection w e pc w' t' := by
  cases pc with
  | tryLock =>
    simp only [sweepNext] at h
    split at h
    · cases h
      exact .locked
    · cases h
      exact .lock
  | range currTs began visited =>
    simp only [sweepNext] at h
    split at h
    · split at h
      · cases h
      · split at h
        · cases h
        · next hlookup =>
          cases h
          exact .visit hlookup
    · split at h
      · cases h
        exact .done
      · cases h
  | pool currTs began visited fn =>
    cases hheap : w.heap[fn]? with
    | none => simp [sweepNext, hheap] at h
    | some f =>
      cases hsweep : (f.idleReplicas.sweep w.cfg currTs).2 with
      | lru replica =>
        cases hf : w.fn? f.name with
        | none =>
          simp only [sweepNext, hheap, hsweep, World.removeIdleReplica, hf] at h
          cases h
          exact .lruAbsent hheap hf
        | some of =>
          simp only [sweepNext, hheap, hsweep, World.removeIdleReplica, hf] at h
          cases h
          exact .lru hheap hsweep hf
      | mru replica =>
        cases replica with
        | none =>
          simp only [sweepNext, hheap, hsweep] at h
          cases h
          exact .fresh hheap hsweep
        | some replica =>
          simp only [sweepNext, hheap, hsweep] at h
          split at h
          · next hdel =>
            cases h
            exact .mru hheap hsweep hdel
          · next hdel =>
            cases h
            exact .mruFault hheap hsweep hdel
  | del currTs began visited fn replica =>
    simp only [sweepNext] at h
    split at h
    · next hdel =>
      cases h
      exact .del hdel
    · next hdel =>
      cases h
      exact .delFault hdel

/-- **Everything that a section does.**

**Proof sketch.** Case split on the thread, with the lemmas for invocations (`requestNext_cases`),
creations (`createNext_cases`) and sweeps (`sweepNext_cases`). -/
theorem next_cases {w w' : World} {t t' : Thread} {e : Env} {new : List Thread}
    (h : provider.next w t e = some (w', t', new)) : Section w e t w' t' new := by
  cases t with
  | request req pc => exact .request (requestNext_cases h)
  | spawn call pc =>
    simp only [provider, Thread.next] at h
    split at h
    · cases h
    · next hnext =>
      cases h
      exact .spawn (createNext_cases hnext)
  | sweep pc =>
    simp only [provider, Thread.next, Option.map_eq_some_iff] at h
    obtain ⟨⟨w₁, t₁⟩, hnext, heq⟩ := h
    cases heq
    exact .sweep (sweepNext_cases hnext)
  | delete req pc =>
    simp only [provider, Thread.next] at h
    cases h
    cases pc with
    | deleteAll =>
      simp only [deleteNext]
      split
      · next hdel => exact .deleteAll hdel
      · next hdel => exact .deleteAllFault hdel
    | read => exact .read
    | rows fn =>
      simp only [deleteNext]
      split
      · next herr => exact .rowsFailed herr
      · next herr =>
        split
        · next hf => exact .rowsAbsent (by simpa using herr) hf
        · next hf => exact .rows (by simpa using herr) hf
    | unmap => exact .unmap
  | deploy pc =>
    simp only [provider, Thread.next] at h
    cases h
    cases pc with
    | insert req =>
      simp only [deployNext]
      split
      · exact .refused
      · next hdeploy =>
        split
        · exact .refused
        · next hins => exact .insert hdeploy hins
    | map fn => exact .map
    | stats fn => exact .stats
  | updatePolicy fn updated =>
    cases hf : w.fn? fn with
    | none =>
      simp only [provider, Thread.next, World.updatePolicy, hf] at h
      cases h
      exact .policyAbsent hf
    | some of =>
      simp only [provider, Thread.next, World.updatePolicy, hf] at h
      cases h
      exact .policy hf
  | returned => cases h
  | panicked fault => cases h

/-! ### The goroutines that start -/

/-- The creations in the background wait for a slot in the beginning. -/
lemma mem_spawns {fn : Resolving} {u : Thread} (hu : u ∈ fn.spawns) :
    ∃ call, u = .spawn call (.slot 0) := by
  unfold Resolving.spawns at hu
  split at hu
  · exact ⟨_, List.eq_of_mem_replicate hu⟩
  · cases hu

/-- A section starts creations in the background only. -/
lemma section_new {w w' : World} {t t' : Thread} {e : Env} {new : List Thread}
    (hsec : Section w e t w' t' new) : ∀ u ∈ new, ∃ call, u = .spawn call (.slot 0) := by
  have hnil : ∀ u ∈ ([] : List Thread), ∃ call, u = .spawn call (.slot 0) :=
    fun _ hu => absurd hu List.not_mem_nil
  cases hsec with
  | request hsec =>
    cases hsec with
    | @create fn pc _ result hsec =>
      cases result with
      | returned => exact fun u hu => mem_spawns hu
      | _ => exact hnil
    | _ => exact hnil
  | _ => exact hnil

/-- A measure that is zero of these creations adds up to zero. -/
lemma sum_spawns {h : Thread → ℤ} (h₀ : ∀ call, h (.spawn call (.slot 0)) = 0) (fn : Resolving) :
    (fn.spawns.map h).sum = 0 := by
  refine List.sum_eq_zero fun x hx => ?_
  obtain ⟨u, hu, rfl⟩ := List.mem_map.mp hx
  obtain ⟨call, rfl⟩ := mem_spawns hu
  exact h₀ call

/-- The goroutines that arrive.

**Proof sketch.** Case split on the thread and on where it is. -/
lemma entry_cases {t : Thread} (h : t.entry = true) :
    (∃ req, t = .request req .resolve) ∨ t = .sweep .tryLock ∨
      (∃ req, t = .delete req .deleteAll) ∨ (∃ req, t = .deploy (.insert req)) ∨
        ∃ fn updated, t = .updatePolicy fn updated := by
  cases t with
  | request req pc =>
    cases pc with
    | resolve => exact .inl ⟨req, rfl⟩
    | _ => cases h
  | spawn call pc => cases h
  | sweep pc =>
    cases pc with
    | tryLock => exact .inr (.inl rfl)
    | _ => cases h
  | delete req pc =>
    cases pc with
    | deleteAll => exact .inr (.inr (.inl ⟨req, rfl⟩))
    | _ => cases h
  | deploy pc =>
    cases pc with
    | insert req => exact .inr (.inr (.inr (.inl ⟨req, rfl⟩)))
    | _ => cases h
  | updatePolicy fn updated => exact .inr (.inr (.inr (.inr ⟨fn, updated, rfl⟩)))
  | returned => cases h
  | panicked fault => cases h

end Fecore
