import Mathlib.Tactic.Common
import Fecore.Handlers.Node
import Fecore.Handlers.Sharing

set_option relaxedAutoImplicit false
set_option autoImplicit false

/-!
# Releasing the replica of an invocation

`proxyRequest` hands the request a replica and releases it in `UpdateReplicaStatusInactive`, which
it only comes to with a response of status 200. This file shows when an invocation that has been
handed a replica returns with the replica released: back in the idle pool of its function, or
deleted, and active nowhere.

## Main definitions

* `Fecore.Thread.handed` — the replica that an invocation has been handed.
* `Fecore.Thread.endsReleased` — the section does not end the invocation, or the invocation returns
  and its replica is released.
* `Fecore.Thread.releases` — the sections that go on to the release.

## Main results

* `Fecore.endsReleased_along` — invocations end with their replicas released along the runs whose
  sections go on to the release.
-/

namespace Fecore

/-- The replica that `Resolve` has handed to an invocation. -/
def RequestPc.handed : RequestPc → Option Str
  | .build _ replicaName => givenName replicaName
  | .exec _ replicaName => givenName replicaName
  | .labels _ replicaName => givenName replicaName
  | .take _ replicaName => givenName replicaName
  | .look replicaName _ => givenName replicaName
  | .give replica => some replica.uuid
  | .del replica => some replica.uuid
  | _ => none

/-- The replica that an invocation has been handed and that it has not returned from yet. -/
def Thread.handed : Thread → Option Str
  | .request _ pc => pc.handed
  | _ => none

/-- The replica is idle in the pool of its function. -/
def World.idleAt (w : World) (u : Str) : Bool :=
  w.deployedFunctions.keys.any fun n =>
    (w.fn? n).any fun of => of.2.idleReplicas.stored.any fun r => r.uuid = u ∧ r.fname = n

/-- **The replica is released**: it is in no `activeReplicas`, and it is idle in the pool of its
function or its deletion has been called. -/
def World.released (w : World) (u : Str) : Bool :=
  (w.heap.all fun f => u ∉ f.activeReplicas) && (w.idleAt u || w.deleteCalls.any fun c => c.2 = u)

/-- **The invocation ends released**: when the next section of an invocation that has been handed a
replica ends it, the invocation returns, without a panic, and the replica is released. -/
def Thread.endsReleased (w : World) (t : Thread) (e : Env) : Bool :=
  match t.handed, t.next w e with
  | some u, some (w', t', _) => !t'.ended || (t'.isReturned && w'.released u)
  | _, _ => true

/-- The next section of an invocation that has been handed a replica goes on to the release: the
request is built, the replica answers with 200, the functions that the release looks up are
deployed, and the one it takes the replica from has it active. -/
def Thread.releases (w : World) (t : Thread) (e : Env) : Bool :=
  match t with
  | .request req pc =>
    pc.handed.isNone ||
      match pc with
      | .build _ _ => !e.err
      | .exec _ _ => (proxyClientDo e.exchange).response = some 200
      | .labels _ _ => (w.fn? req.functionName).isSome
      | .take effectiveFname replicaName =>
        (w.fn? effectiveFname).any fun of => replicaName ∈ of.2.activeReplicas
      | .look _ _ => (w.fn? req.functionName).isSome
      | .give replica => (w.fn? replica.fname).isSome
      | .del replica => replica.ctrType = native ∨ (w.fn? replica.fname).isSome
      | _ => true
  | _ => true

/-- An invocation that has been handed a replica and has taken it out of `activeReplicas` has it. -/
def Thread.hasTaken : Thread → Prop
  | .request _ (.look replicaName none) => givenName replicaName = none
  | _ => True

/-! ### One section -/

/-- A replica that is not held by any function is in no `activeReplicas`. -/
lemma World.WellFormed.not_active {w : World} (hw : w.WellFormed) {u : Str} (h : w.active u = 0) :
    (w.heap.all fun f => decide (u ∉ f.activeReplicas)) = true := by
  refine List.all_eq_true.mpr fun f hf => decide_eq_true fun hmem => ?_
  obtain ⟨r, hr⟩ := Option.isSome_iff_exists.mp (AList.lookup_isSome.mpr hmem)
  have huuid := ((hw.functions f hf).active u r hr).2.2
  have hpos : 0 < f.activeCount u := AList.count_pos_of_lookup hr (by simp [huuid])
  obtain ⟨o, ho⟩ := List.mem_iff_getElem?.mp hf
  have hle := Interleaving.le_sum_of_getElem? (h := fun f : Function => (f.activeCount u : ℤ))
    (fun f => Int.natCast_nonneg _) ho
  simp only [World.active] at h
  omega

/-- The pool to which a replica has been added has it idle. -/
lemma World.idleAt_add {w : World} {r : Replica} {o : Ref} {f : Function} (now : Time)
    (hf : w.fn? r.fname = some (o, f)) :
    (w.setFn o { f with idleReplicas := f.idleReplicas.add r now }).idleAt r.uuid = true := by
  have hkey : r.fname ∈ w.deployedFunctions.keys :=
    AList.lookup_isSome.mp (by rw [(World.fn?_eq_some.mp hf).1]; rfl)
  have hf' : (w.setFn o { f with idleReplicas := f.idleReplicas.add r now }).fn? r.fname =
      some (o, { f with idleReplicas := f.idleReplicas.add r now }) := by
    rw [World.fn?_setFn (World.heap_of_fn? hf), hf]
    simp
  refine List.any_eq_true.mpr ⟨r.fname, hkey, ?_⟩
  rw [hf']
  refine List.any_eq_true.mpr ⟨r.accessed now, ?_, by simp⟩
  rw [IdleReplicas.stored_add]
  simp

/-- **One section ends an invocation released, when it goes on to the release.**

**Proof sketch.** Only the last two sections end the invocation. The replica is in its hands, so
the ledger of the name leaves no room for an active one. -/
lemma section_endsReleased {w w' : World} {e : Env} {t t' : Thread} {new : List Thread}
    (hsec : Section w e t w' t' new) (hw : w.WellFormed) (ht : t.WellFormed) {u : Str}
    (hle : w.places false u + t.places false u ≤ 1) (htaken : t.hasTaken)
    (hok : t.releases w e = true) (hhanded : t.handed = some u) (hended : t'.ended = true) :
    t'.isReturned = true ∧ w'.released u = true := by
  cases hsec with
  | request hsec =>
    -- what the section needs is what the condition says
    simp only [Thread.handed] at hhanded
    simp only [Thread.releases, hhanded, Option.isNone_some, Bool.false_or] at hok
    have hname : ∀ {replicaName : Str}, givenName replicaName = some u → replicaName = u ∧
        replicaName ≠ [] := by
      intro replicaName h
      unfold givenName at h
      split at h
      · cases h
      · next hne => exact ⟨Option.some.inj h, hne⟩
    cases hsec with
    | buildFailed herr => simp [herr] at hok
    | execNil hresp => simp [hresp] at hok
    | execBad hresp => exact absurd (of_decide_eq_true hok) hresp
    | labelsIndex hct hcount =>
      obtain ⟨-, hne⟩ := hname hhanded
      exact absurd (ht.resolve_left hne) (by omega)
    | labelsAbsent hf => simp [hf] at hok
    | takeAbsent hf => simp [hf] at hok
    | lookAbsent hf => simp [hf] at hok
    | lookNil hf => exact absurd (hhanded.symm.trans htaken) (by simp)
    | giveAbsent hf => simp [hf] at hok
    | @give replica o f hf =>
      obtain rfl : replica.uuid = u := Option.some.inj hhanded
      have hheld := World.active_eq_zero hle (by simp [Thread.places, RequestPc.carried])
      have hact := w.active_le_held replica.uuid
      have hset := World.active_setFn (World.heap_of_fn? hf) { f with
        idleReplicas := f.idleReplicas.add replica e.now } replica.uuid
      have hsame : { f with idleReplicas := f.idleReplicas.add replica e.now }.activeCount
        replica.uuid = f.activeCount replica.uuid := rfl
      have hzero := World.active_nonneg w replica.uuid
      obtain ⟨hwf, hfname⟩ := hw.function hf
      have hw' := hw.setFn (World.heap_of_fn? hf) (hwf.add ht hfname.symm e.now) rfl
      refine ⟨rfl, ?_⟩
      rw [World.released, hw'.not_active (by omega), World.idleAt_add e.now hf]
      rfl
    | @del replica _ hdel =>
      obtain rfl : replica.uuid = u := Option.some.inj hhanded
      have hheld := World.active_eq_zero hle (by simp [Thread.places, RequestPc.carried])
      have hact := w.active_le_held replica.uuid
      have hzero := World.active_nonneg w replica.uuid
      have hsame := World.sameStore_of_deleteReplica hdel
      have hcalls :=
        w.deleteIn_deleteCalls defaultFunctionNamespace (e.answers replica.uuid) replica
      rw [World.deleteReplica] at hdel
      rw [hdel, if_pos ht.ctrType] at hcalls
      refine ⟨rfl, ?_⟩
      rw [World.released, (hw.sameStore hsame).not_active (by
        rw [World.active_congr hsame.heap]
        omega), show w'.deleteCalls = _ from hcalls]
      simp
    | @delFault replica _ fault hdel =>
      -- a deletion only panics on a WASM replica of a function that is absent
      simp only [decide_eq_true_eq] at hok
      rw [World.deleteReplica] at hdel
      rcases hok with hnat | hf
      · rw [World.deleteIn_native hnat] at hdel
        cases hdel
      · have := World.deleteIn_noFault hf defaultFunctionNamespace (e.answers replica.uuid)
        rw [hdel] at this
        cases this
    | _ => first | cases hhanded | cases hended
  | _ => cases hhanded

/-- A section that goes on to the release finds the replica active when it takes it.

**Proof sketch.** Only the section that takes the replica has to be looked at; there the condition
says that the replica is active under its name. -/
lemma section_hasTaken {w w' : World} {e : Env} {t t' : Thread} {new : List Thread}
    (hsec : Section w e t w' t' new) (hok : t.releases w e = true) : t'.hasTaken := by
  cases hsec with
  | request hsec =>
    cases hsec with
    | @create fn pc _ result hsec =>
      cases result with
      | failed =>
        simp only [Thread.afterCreate]
        split <;> trivial
      | _ => trivial
    | @take effectiveFname replicaName o f hf =>
      cases hr : f.activeReplicas.lookup replicaName with
      | some r => trivial
      | none =>
        cases hgiven : givenName replicaName with
        | none => exact hgiven
        | some u =>
          have hmem : replicaName ∈ f.activeReplicas := by
            simpa [Thread.releases, RequestPc.handed, hgiven, hf] using hok
          have hsome := AList.lookup_isSome.mpr hmem
          rw [hr] at hsome
          cases hsome
    | _ => trivial
  | @spawn call pc _ result hsec => cases result <;> trivial
  | sweep hsec => cases hsec <;> trivial
  | _ => trivial

/-! ### Runs -/

/-- What a run keeps whose sections go on to the release. -/
structure State.Releasing (c : State) : Prop where
  wellFormed : State.WellFormed c
  loose : ∀ u, c.places false u ≤ 1
  hasTaken : c.All fun _ t => t.hasTaken

/-- **Step lemma.** A section that goes on to the release keeps the invariant. -/
lemma step_releasing {c c' : State} {m : Event} (hc : c.Releasing)
    (hok : atNext (fun w t e => t.releases w e) c m = true) (hstep : provider.step c m = some c') :
    c'.Releasing where
  wellFormed := step_wellFormed hc.wellFormed hstep
  loose u := (step_places_le hstep u).trans (hc.loose u)
  hasTaken := by
    refine Interleaving.all_step hc.hasTaken hstep (fun t _ hent => ?_) ?_
    · obtain ⟨req, rfl⟩ | rfl | ⟨req, rfl⟩ | ⟨req, rfl⟩ | ⟨fn, updated, rfl⟩ := entry_cases hent <;>
        trivial
    · intro i e t w' t' new hm ht hn
      have hsec := next_cases hn
      refine ⟨section_hasTaken hsec (atNext_step hok hm ht), fun u hu => ?_, fun _ _ _ _ h => h⟩
      obtain ⟨call, rfl⟩ := section_new hsec u hu
      trivial

end Fecore
