import Mathlib.Tactic.Common
import Fecore.Handlers.MetricsReport

set_option relaxedAutoImplicit false
set_option autoImplicit false

/-!
# Calls for a function that is not deployed

Nine entry points of the store take the name of a function, which a request may choose freely. Most
of them dereference `fs.deployedFunctions[fn]` without a check (`pkg/provider/handlers/policy.go`,
`function_store.go`, `metrics.go`), some of them under a lock that no deferred statement drops.

## Main definitions

* `Fecore.deleteAllReplicas`, `Fecore.removeDeployedFunction`, … — the entry points, with their
  locks.
* `Fecore.EntryPoint` — the nine of them; `EntryPoint.call` is the call.
* `Fecore.EntryPoint.EndsWell` — the call ends normally, changes nothing and leaves no lock held.

## Main results

* `Fecore.EntryPoint.balanced_of_defers` — deferred releases leave no lock, for any name.
* `Fecore.EntryPoint.endsWell_iff` — the calls that end well for a name that is not deployed.

## Design

A section between taking a lock and dropping it is the one of the store without locks
(`Fecore.World.deleteAllReplicas`, `World.getIdleReplica`, …). A lock inside such a section, under
which nothing can panic, is left out.
-/

namespace Fecore

open Locks Locks.Comp

/-! ### The entry points -/

/-- A section on the world, which may panic after it has changed it. -/
def onWorld (f : World → World × Option Fault) : Call Unit :=
  runs fun s =>
    match f s.world with
    | (w, none) => (.ok (), { s with world := w })
    | (w, some fault) => (.error (.fault fault), { s with world := w })

/-- A section on the world with a value, which panics before it changes it. -/
def onWorldValue {α : Type} (f : World → Except Fault (α × World)) : Call α :=
  runs fun s =>
    match f s.world with
    | .error fault => (.error (.fault fault), s)
    | .ok (a, w) => (.ok a, { s with world := w })

/-- `DeleteAllReplicas`; it never returns an error. -/
def deleteAllReplicas (ns : Str) (answers : Str → Answers) (fn : Str) : Call Unit := do
  let of ← deployedFn fn
  locked (.idleReplicasLock of.1) (onWorld fun w => w.deleteAllReplicas ns answers fn)

/-- The end of `RemoveDeployedFunction`, when the rows have been deleted: false is the error that
the function has not been located. -/
def unmapFunction (name : Str) : Call Bool :=
  locked .dfMu (runs fun s =>
    if name ∈ s.world.deployedFunctions then
      (.ok true, { s with world := s.world.dropFunction name })
    else (.ok false, s))

/-- `RemoveDeployedFunction`, where the deletion from the table of the functions may fail: false is
an error. -/
def removeDeployedFunction (deleteFails : Bool) (name : Str) : Call Bool := do
  lock .dfMu
  let fn ← reads fun s => .ok (s.world.fn? name)
  unlock .dfMu
  if deleteFails then pure false
  else do
    updates fun s => { s with
      world := { s.world with functionTable := s.world.functionTable.filter (· ≠ name) } }
    match fn with
    | none => reads fun _ => .error (.fault .absentFunction) -- getContainers
    | some (_, f) => do
      updates fun s => { s with world := s.world.deleteRows name f }
      unmapFunction name

/-- `GetIdleReplica`: the name and the address of the replica, none is an error. -/
def getIdleReplica (fn : Str) : Call (Option (Str × Str)) := do
  let of ← deployedFn fn
  locked (.idleReplicasLock of.1) (onWorldValue fun w =>
    match w.getIdleReplica fn with
    | .error fault => .error fault
    | .ok none => .ok (none, w)
    | .ok (some (replica, w')) => .ok (some (replica.uuid, replica.ip), w'))

/-- `GetInvocationPolicy`. -/
def getInvocationPolicy (fn : Str) : Call Policy := do
  let of ← deployedFn fn
  locked (.policyMu of.1) (onWorldValue fun w => (w.getInvocationPolicy fn).map fun p => (p, w))

/-- `GetPolicyView`. -/
def getPolicyView (fn : Str) : Call Policy := do
  let of ← deployedFn fn
  locked (.policyMu of.1) (onWorldValue fun w => (w.getInvocationPolicy fn).map fun p => (p, w))

/-- `UpdatePolicy`: the policy after the update. -/
def updatePolicy (fn : Str) (updated : Policy) : Call Policy := do
  let of ← deployedFn fn
  locked (.policyMu of.1) do
    onWorldValue fun w => (w.updatePolicy fn updated).map fun w' => ((), w')
    onWorldValue fun w => (w.getInvocationPolicy fn).map fun p => (p, w)

/-- `AddIdleReplica`. -/
def addIdleReplica (replica : Replica) (now : Time) : Call Unit := do
  let of ← deployedFn replica.fname
  locked (.idleReplicasLock of.1)
    (onWorldValue fun w => (w.addIdleReplica replica now).map fun w' => ((), w'))

/-- The rest of `UpdateReplicaStatusInactive` when the function that has the replica is known. -/
def releaseReplica (effectiveFname fn replicaName : Str) (now : Time) (answers : Str → Answers) :
    Call Unit := do
  let of ← deployedFn effectiveFname
  lock (.activeReplicasLock of.1)
  let replica ← onWorldValue fun w => w.takeActive effectiveFname replicaName
  unlock (.activeReplicasLock of.1)
  let policy ← getInvocationPolicy fn
  match replica with
  | none => reads fun _ => .error (.fault .nilReplica)
  | some replica =>
    if policy.keepaliveColdStartCtr ≠ 0 ∧ replica.ctrType = policy.coldStartCtrType then
      onWorld fun w => w.deleteReplica (answers replica.uuid) replica
    else addIdleReplica replica now

/-- `UpdateReplicaStatusInactive`. -/
def updateReplicaStatusInactive (fn replicaName : Str) (now : Time) (answers : Str → Answers) :
    Call Unit := do
  lock .dfMu
  let of ← deployedFn fn
  unlock .dfMu
  releaseReplica (of.2.effectiveFname fn replicaName) fn replicaName now answers

/-! ### The nine of them -/

/-- What an entry point returns. -/
inductive EntryReply
  | err
  /-- an empty result -/
  | nothing
  | something
deriving DecidableEq

/-- The reply with a policy. -/
def EntryReply.ofPolicy (p : Policy) : EntryReply := if p = {} then .nothing else .something

/-- The entry points, with what they take beside the name. -/
inductive EntryPoint
  | deleteAllReplicas (ns : Str) (answers : Str → Answers)
  | removeDeployedFunction (deleteFails : Bool)
  | getIdleReplica
  | getInvocationPolicy
  | getPolicyView
  | updatePolicy (updated : Policy)
  | updateReplicaStatusInactive (replicaName : Str) (now : Time) (answers : Str → Answers)
  | getMetricsLog
  | getMetricsReport (sandboxUtilization : Str)

/-- The call of an entry point. -/
def EntryPoint.call (fn : Str) : EntryPoint → Call EntryReply
  | deleteAllReplicas ns answers => do
    Fecore.deleteAllReplicas ns answers fn
    pure .nothing
  | removeDeployedFunction deleteFails => do
    let removed ← Fecore.removeDeployedFunction deleteFails fn
    pure (if removed then .nothing else .err)
  | getIdleReplica => do
    let replica ← Fecore.getIdleReplica fn
    pure (if replica = none then .err else .something)
  | getInvocationPolicy => do
    let policy ← Fecore.getInvocationPolicy fn
    pure (.ofPolicy policy)
  | getPolicyView => do
    let policy ← Fecore.getPolicyView fn
    pure (.ofPolicy policy)
  | updatePolicy updated => do
    let policy ← Fecore.updatePolicy fn updated
    pure (.ofPolicy policy)
  | updateReplicaStatusInactive replicaName now answers => do
    Fecore.updateReplicaStatusInactive fn replicaName now answers
    pure .nothing
  | getMetricsLog => do
    let r ← statsRecord fn
    pure (if r.entries = fnStats.entries then .nothing else .something)
  | getMetricsReport sandboxUtilization => do
    let _ ← Fecore.getMetricsReport sandboxUtilization fn
    pure .something

/-- **The call ends well**: it returns an error or an empty result, changes nothing and leaves no
lock held. -/
def EntryPoint.EndsWell (e : EntryPoint) (fn : Str) (s : Store) : Prop :=
  ∃ reply, e.call fn [] s = ⟨.ok reply, s, []⟩ ∧ reply ≠ .something

/-- The calls that end well for a name that is not deployed: a removal that the storage refuses, and
the log of a record without stats, which a deployment of the name in the past has left. -/
def EntryPoint.Spared (fn : Str) (s : Store) : EntryPoint → Prop
  | removeDeployedFunction deleteFails => deleteFails = true
  | getMetricsLog => ∃ r, s.functionStats.lookup fn = some r ∧ r.entries = fnStats.entries
  | _ => False

/-- The entry points that drop their locks in deferred statements, or take none. -/
def EntryPoint.defers : EntryPoint → Bool
  | deleteAllReplicas _ _ | getIdleReplica | getInvocationPolicy | getPolicyView | updatePolicy _
  | getMetricsLog => true
  | _ => false

/-! ### Locks -/

/-- A look-up holds no more locks than before. -/
lemma balanced_deployedFn (fn : Str) : Balanced (deployedFn fn) := balanced_reads _

/-- A section on the world holds no more locks than before. -/
lemma balanced_onWorldValue {α : Type} (f : World → Except Fault (α × World)) :
    Balanced (onWorldValue f) := balanced_runs _

/-- A look-up and a section under a lock of what has been found. -/
lemma balanced_locked_deployedFn {α : Type} (fn : Str) (l : Ref → Lock) {x : Call α}
    (hx : Balanced x) : Balanced (do let of ← deployedFn fn; locked (l of.1) x) :=
  (balanced_deployedFn fn).bind fun of => hx.locked (l of.1)

/-- **Deferred releases leave no lock**, for any name, also where the call panics. -/
theorem EntryPoint.balanced_of_defers {e : EntryPoint} (h : e.defers = true) (fn : Str) :
    Balanced (e.call fn) := by
  cases e with
  | deleteAllReplicas ns answers =>
    exact (balanced_locked_deployedFn fn _ (balanced_runs _)).bind fun _ => balanced_pure _
  | getIdleReplica =>
    exact (balanced_locked_deployedFn fn _ (balanced_onWorldValue _)).bind fun _ => balanced_pure _
  | getInvocationPolicy =>
    exact (balanced_locked_deployedFn fn _ (balanced_onWorldValue _)).bind fun _ => balanced_pure _
  | getPolicyView =>
    exact (balanced_locked_deployedFn fn _ (balanced_onWorldValue _)).bind fun _ => balanced_pure _
  | updatePolicy updated =>
    exact (balanced_locked_deployedFn fn _ ((balanced_onWorldValue _).bind fun _ =>
      balanced_onWorldValue _)).bind fun _ => balanced_pure _
  | getMetricsLog => exact (balanced_reads _).bind fun _ => balanced_pure _
  | _ => cases h

/-! ### Names that are not deployed -/

section Undeployed

variable {s : Store} {fn : Str}

/-- The look-up of a name that is not deployed. -/
lemma deployedFn_of_lookup (h : s.world.deployedFunctions.lookup fn = none) (held : List Lock) :
    deployedFn fn held s = ⟨.error (.fault .absentFunction), s, held⟩ :=
  deployedFn_of_none held (by rw [World.fn?, h])

/-- A call that begins with the look-up panics at once. -/
lemma bind_deployedFn {α β : Type} (h : s.world.deployedFunctions.lookup fn = none)
    (f : Ref × Function → Call α) (g : α → Call β) (held : List Lock) :
    ((do let of ← deployedFn fn; f of) >>= g) held s =
      ⟨.error (.fault .absentFunction), s, held⟩ :=
  bind_of_error (bind_of_error (deployedFn_of_lookup h held) f) g

/-- `RemoveDeployedFunction` returns the error of the storage, and panics without one. -/
lemma removeDeployedFunction_of_lookup (h : s.world.deployedFunctions.lookup fn = none)
    (deleteFails : Bool) : removeDeployedFunction deleteFails fn [] s =
      if deleteFails then ⟨.ok false, s, []⟩
      else ⟨.error (.fault .absentFunction),
        { s with world := { s.world with
          functionTable := s.world.functionTable.filter (· ≠ fn) } }, []⟩ := by
  have hread : (reads fun s => .ok (s.world.fn? fn) : Call (Option (Ref × Function)))
      [.dfMu] s = ⟨.ok none, s, [.dfMu]⟩ := by
    rw [reads_apply, World.fn?, h]
  rw [removeDeployedFunction, bind_of_ok (lock_apply _ _ _), bind_of_ok hread,
    bind_of_ok (unlock_apply _ _ _), List.erase_cons_head]
  cases deleteFails with
  | true => rfl
  | false => rfl

/-- `UpdateReplicaStatusInactive` panics under `dfMu`, which stays locked. -/
lemma updateReplicaStatusInactive_of_lookup (h : s.world.deployedFunctions.lookup fn = none)
    (replicaName : Str) (now : Time) (answers : Str → Answers) (held : List Lock) :
    updateReplicaStatusInactive fn replicaName now answers held s =
      ⟨.error (.fault .absentFunction), s, .dfMu :: held⟩ := by
  rw [updateReplicaStatusInactive, bind_of_ok (lock_apply _ _ _),
    bind_of_error (deployedFn_of_lookup h _)]

/-- `GetMetricsReport` panics, at the record, at the division or at the policy.

**Proof sketch.** Case split on the record. If there is one, case split on the division; if that
goes through, the policy is looked up in a function that is not there. -/
lemma getMetricsReport_of_lookup (h : s.world.deployedFunctions.lookup fn = none) (util : Str) :
    ∃ fault held, getMetricsReport util fn [] s = ⟨.error fault, s, held⟩ := by
  have hf : s.world.fn? fn = none := by rw [World.fn?, h]
  cases hr : s.functionStats.lookup fn with
  | none => exact ⟨_, _, getMetricsReport_of_none util hr []⟩
  | some r =>
    have hread : ∀ held, (reads fun _ => r.avgServiceTime : Call ℤ) held s =
        ⟨r.avgServiceTime, s, held⟩ := fun _ => rfl
    rw [getMetricsReport, bind_of_ok (statsRecord_of_some _ hr), bind_of_ok (lock_apply _ _ _),
      bind_of_ok (statsRecord_of_some _ hr)]
    cases havg : r.avgServiceTime with
    | error fault =>
      rw [havg] at hread
      exact ⟨_, _, bind_of_error (hread _) _⟩
    | ok avgServiceTime =>
      rw [havg] at hread
      refine ⟨.fault .absentFunction, [], ?_⟩
      rw [bind_of_ok (hread _), bind_of_ok (unlock_apply _ _ _), List.erase_cons_head,
        reportPolicy_of_none util hf]

/-- A call that ends with a panic does not end well. -/
lemma EntryPoint.not_endsWell_of_panic {e : EntryPoint} {fault : Panic} {s' : Store}
    {held : List Lock} (h : e.call fn [] s = ⟨.error fault, s', held⟩) : ¬ e.EndsWell fn s := by
  rintro ⟨reply, hend, -⟩
  rw [h] at hend
  cases hend

/-- **The calls that end well for a name that is not deployed**: a removal that the storage refuses,
and the log of a record without stats. All others panic.

**Proof sketch.** By cases on the entry point. All but two begin by dereferencing the missing
function, some of them under a lock. The removal reads the replicas of the missing function when the
storage has deleted its row, and the log needs the record only. -/
theorem EntryPoint.endsWell_iff (h : s.world.deployedFunctions.lookup fn = none) (e : EntryPoint) :
    e.EndsWell fn s ↔ e.Spared fn s := by
  cases e with
  | deleteAllReplicas ns answers =>
    exact iff_of_false (not_endsWell_of_panic (bind_deployedFn h _ _ _)) id
  | removeDeployedFunction deleteFails =>
    have hend := removeDeployedFunction_of_lookup h deleteFails
    cases deleteFails with
    | true => exact iff_of_true ⟨.err, bind_of_ok hend _, by decide⟩ rfl
    | false =>
      exact iff_of_false (not_endsWell_of_panic (bind_of_error hend _)) Bool.false_ne_true
  | getIdleReplica => exact iff_of_false (not_endsWell_of_panic (bind_deployedFn h _ _ _)) id
  | getInvocationPolicy => exact iff_of_false (not_endsWell_of_panic (bind_deployedFn h _ _ _)) id
  | getPolicyView => exact iff_of_false (not_endsWell_of_panic (bind_deployedFn h _ _ _)) id
  | updatePolicy updated => exact iff_of_false (not_endsWell_of_panic (bind_deployedFn h _ _ _)) id
  | updateReplicaStatusInactive replicaName now answers =>
    have hend := updateReplicaStatusInactive_of_lookup h replicaName now answers []
    exact iff_of_false (not_endsWell_of_panic (bind_of_error hend _)) id
  | getMetricsLog =>
    cases hr : s.functionStats.lookup fn with
    | none =>
      refine iff_of_false (not_endsWell_of_panic (bind_of_error (statsRecord_of_none [] hr) _)) ?_
      rintro ⟨r, hr', -⟩
      rw [hr] at hr'
      cases hr'
    | some r =>
      have hend : EntryPoint.getMetricsLog.call fn [] s =
          ⟨.ok (if r.entries = fnStats.entries then .nothing else .something), s, []⟩ :=
        bind_of_ok (statsRecord_of_some [] hr) _
      rw [EndsWell, hend, Spared, hr]
      by_cases hempty : r.entries = fnStats.entries
      · rw [if_pos hempty]
        exact iff_of_true ⟨.nothing, rfl, by decide⟩ ⟨r, rfl, hempty⟩
      · rw [if_neg hempty]
        refine iff_of_false ?_ ?_
        · rintro ⟨reply, heq, hne⟩
          cases heq
          exact hne rfl
        · rintro ⟨r', hr', hempty'⟩
          cases hr'
          exact hempty hempty'
  | getMetricsReport util =>
    obtain ⟨fault, held, hend⟩ := getMetricsReport_of_lookup h util
    exact iff_of_false (not_endsWell_of_panic (bind_of_error hend _)) id

end Undeployed

/-- The storage refuses to delete a function that is not deployed. -/
theorem EntryPoint.endsWell_refused :
    (EntryPoint.removeDeployedFunction true).EndsWell "f".toList ⟨smallWorld, ∅⟩ :=
  (EntryPoint.endsWell_iff rfl _).mpr rfl

/-- A replica of a function that is not deployed is given back: the call panics, and `dfMu` stays
locked. -/
theorem EntryPoint.not_endsWell_inactive :
    smallWorld.deployedFunctions.lookup "f".toList = none ∧
      (EntryPoint.updateReplicaStatusInactive "f_1_n".toList 0 fun _ => {}).call "f".toList []
          ⟨smallWorld, ∅⟩ =
        ⟨.error (.fault .absentFunction), ⟨smallWorld, ∅⟩, [.dfMu]⟩ :=
  ⟨rfl, rfl⟩

end Fecore
