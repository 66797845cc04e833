import Mathlib.Tactic.Common
import Fecore.Handlers.CleanupLock
import Fecore.Handlers.PoolClocks

set_option relaxedAutoImplicit false
set_option autoImplicit false

/-!
# What a sweep deletes

A sweep (`CleanupDaemon` in `pkg/provider/handlers/function_store.go`) reads the clock once, when
it has taken `cleanupMu`. It visits the deployed functions in any order, and drops the lock of a
pool while it deletes a replica; other goroutines go on between its sections.

## Main definitions

* `Fecore.State.InSweep` — the sweep has not returned, and the object that it visits is deployed.
* `Fecore.SweepExact` — the sweep deletes the expired replicas, and nothing else.
* `Fecore.Sweeping` — the invariant between the sections of the sweep.

## Main results

* `Fecore.step_sweeping` — every move during the sweep keeps the invariant.
* `Fecore.sweep_exact` — every sweep that finds its objects deployed is exact.
* `Fecore.not_sweep_exact_due` — with an expiration time above `2 ^ 24` seconds, a sweep deletes a
  replica a nanosecond before it is due.
-/

namespace Fecore

open Interleaving (Config)

/-! ### Sweeps -/

/-- A move is made during the sweep of goroutine `i`: the sweep has not returned, and the object
whose pool it visits is still deployed. -/
structure State.InSweep (i : ℕ) (c : State) (m : Event) : Prop where
  running : c.threads[i]? ≠ some .returned
  deployed : ∀ t, c.threads[i]? = some t → ∀ fn, t.pointer = some fn → c.shared.Current fn

/-- The pool of the object. -/
def State.pool (o : Ref) (c : State) : Multiset Replica :=
  match c.shared.heap[o]? with
  | none => 0
  | some f => f.idleReplicas.stored

/-- The replicas that invocations and creations put into the pool of the object. -/
def State.adds (o : Ref) : State → Event → Multiset Replica :=
  Config.count fun w e t => t.adds w o e

/-- The replicas that invocations take from the pool of the object. -/
def State.takes (o : Ref) : State → Event → Multiset Replica :=
  Config.count fun w _ t => t.takes w o

/-- What the sections of goroutine `i` count. -/
def State.own (i : ℕ) (g : World → Thread → Multiset Replica) (c : State) :
    Event → Multiset Replica
  | .arrive _ => 0
  | .step j e => if j = i then c.count (fun w _ t => g w t) (.step j e) else 0

/-- The replicas on which the sweep of goroutine `i` calls `DeleteReplica`. -/
def State.deletedBy (i : ℕ) : State → Event → Multiset Replica :=
  State.own i fun w t => t.sweepDeletes w

/-- **The sweep of goroutine `i` deletes the expired replicas, and nothing else**: it deletes
replicas that have expired when it begins, each once; what has not expired and no invocation takes
stays in its pool; and when it returns, no pool of a deployed function has an expired replica, and
those that there were and no invocation has taken are deleted. -/
structure SweepExact (Expired : Replica → Prop) (i : ℕ) (c : State) (events : List Event)
    (c' : State) : Prop where
  expired : ∀ r ∈ Runs.tally provider.step (State.deletedBy i) c events, Expired r
  once : ((Runs.tally provider.step (State.deletedBy i) c events).map (·.uuid)).Nodup
  kept : ∀ o r, ¬ Expired r →
    r ∈ c.pool o + Runs.tally provider.step (State.adds o) c events →
      r ∉ Runs.tally provider.step (State.takes o) c events → r ∈ c'.pool o
  returns : ∃ t, c'.threads[i]? = some t ∧ ∀ fault, t ≠ .panicked fault
  clean : c'.threads[i]? = some .returned → ∀ n o f, c'.shared.fn? n = some (o, f) →
    ∀ r ∈ f.idleReplicas.stored, ¬ Expired r
  gone : c'.threads[i]? = some .returned → ∀ n o f, c'.shared.fn? n = some (o, f) →
    ∀ r ∈ c.pool o, Expired r →
      r ∉ Runs.tally provider.step (State.takes o) c events →
        r ∈ Runs.tally provider.step (State.deletedBy i) c events

/-! ### Pools without expired replicas -/

/-- No replica has expired in the pools of the deployed functions of a kind. -/
def World.FreshWhere (w : World) (currTs : Time) (P : Str → Ref → Prop) : Prop :=
  ∀ n o f, w.fn? n = some (o, f) → P n o → f.idleReplicas.Fresh w.cfg currTs

/-- Where a sweep stands: it has left no expired replica behind, and the one that it is about to
delete has expired. -/
def Thread.SweepsAt (currTs : Time) (w : World) : Thread → Prop
  | .sweep (.range currTs' began visited) =>
    currTs' = currTs ∧ w.FreshWhere currTs fun n _ => n ∈ began → n ∈ visited
  | .sweep (.pool currTs' began visited fn) =>
    currTs' = currTs ∧ w.FreshWhere currTs fun n o => (n ∈ began → n ∈ visited) ∧ o ≠ fn
  | .sweep (.del currTs' began visited fn replica) =>
    currTs' = currTs ∧ (w.FreshWhere currTs fun n o => (n ∈ began → n ∈ visited) ∧ o ≠ fn) ∧
      w.cfg.expired currTs replica = true ∧ ∃ f, w.heap[fn]? = some f ∧ replica.fname = f.name
  | .returned => w.FreshWhere currTs fun _ _ => True
  | _ => False

section Sections

variable {w w' : World} {e : Env} {t t' : Thread} {new : List Thread} {currTs : Time}
  {P Q : Str → Ref → Prop}

/-- Fewer pools are asked of less. -/
lemma World.FreshWhere.mono (h : w.FreshWhere currTs P)
    (hPQ : ∀ n o f, w.fn? n = some (o, f) → Q n o → P n o) : w.FreshWhere currTs Q :=
  fun n o f hf hQ => h n o f hf (hPQ n o f hf hQ)

/-- A name leads to the object that it has led to, or to a new one.

**Proof sketch.** The map is as it was, has one function less, or leads one name to the object that
has been appended. -/
lemma section_fn? (hsec : Section w e t w' t' new) (hw : w.WellFormed) {n : Str} {o : Ref}
    {f' : Function} (hf' : w'.fn? n = some (o, f')) :
    (∃ f, w.fn? n = some (o, f)) ∨ w.heap[o]? = none := by
  have hlookup : w'.deployedFunctions.lookup n = some o := (World.fn?_eq_some.mp hf').1
  have hsame : w'.deployedFunctions = w.deployedFunctions →
      (∃ f, w.fn? n = some (o, f)) ∨ w.heap[o]? = none := by
    intro h
    rw [h] at hlookup
    exact .inl ⟨_, World.fn?_eq_some.mpr ⟨hlookup, List.getElem?_eq_getElem (hw.valid n o hlookup)⟩⟩
  cases hsec with
  | request hsec => exact hsame (requestSection_sameNames hsec).deployedFunctions
  | spawn hsec => exact hsame (createSection_sameNames hsec).deployedFunctions
  | sweep hsec => exact hsame (sweepSection_sameNames hsec).deployedFunctions
  | deleteAll hdel => exact hsame (World.sameStore_of_deleteAllReplicas hdel).deployedFunctions
  | deleteAllFault hdel =>
    exact hsame (World.sameStore_of_deleteAllReplicas hdel).deployedFunctions
  | insert hdeploy hins =>
    obtain ⟨-, rows, rfl⟩ := World.insertFunction_eq hins
    exact hsame rfl
  | @unmap req =>
    rw [World.fn?_dropFunction] at hf'
    split at hf'
    · cases hf'
    · exact .inl ⟨f', hf'⟩
  | @map fn =>
    rw [World.fn?_putFunction hw.valid] at hf'
    split at hf'
    · cases hf'
      exact .inr (List.getElem?_eq_none le_rfl)
    · exact .inl ⟨f', hf'⟩
  | _ => exact hsame rfl

/-- **No section brings an expired replica into a pool** when it is late enough. -/
lemma World.FreshWhere.of_section (hsec : Section w e t w' t' new) (hw : w.WellFormed)
    (ht : t.WellFormed) (hT : 0 < w.cfg.containerExpirationTime) (hle : currTs ≤ e.now)
    (h : w.FreshWhere currTs P) : w'.FreshWhere currTs P := by
  intro n o f' hf' hP
  rw [section_cfg hsec]
  obtain ⟨f, hf, -, hsub⟩ | ⟨-, hempty⟩ := section_pool hsec ht (World.heap_of_fn? hf')
  · obtain ⟨f₁, hf₁⟩ | hnone := section_fn? hsec hw hf'
    · obtain rfl := Option.some.inj (hf.symm.trans (World.heap_of_fn? hf₁))
      refine (h n o f hf₁ hP).of_sublist (fun r hr => ?_) hsub
      exact Config.not_expired_of_le hT (hle.trans_eq (Thread.lastAccess_of_mem_adds hr).symm)
    · rw [hnone] at hf
      cases hf
  · rw [hempty]
    exact IdleReplicas.fresh_empty _ _

/-- **A sweep stays where it stands** while others take their sections.

**Proof sketch.** Case split on where the sweep stands. The replicas that are left to look at stay
fresh, and the pool that it holds keeps its name. -/
lemma Thread.SweepsAt.of_section (hsec : Section w e t w' t' new) (hw : w.WellFormed)
    (ht : t.WellFormed) (hT : 0 < w.cfg.containerExpirationTime) (hle : currTs ≤ e.now)
    {u : Thread} (h : u.SweepsAt currTs w) : u.SweepsAt currTs w' := by
  have hfresh : ∀ {P : Str → Ref → Prop}, w.FreshWhere currTs P → w'.FreshWhere currTs P :=
    fun h => h.of_section hsec hw ht hT hle
  cases u with
  | sweep pc =>
    cases pc with
    | tryLock => exact h
    | range => exact ⟨h.1, hfresh h.2⟩
    | pool => exact ⟨h.1, hfresh h.2⟩
    | del currTs' began visited fn replica =>
      obtain ⟨hts, hrest, hexp, f, hf, hname⟩ := h
      obtain ⟨f', hf', hname', -⟩ := section_stored hsec hf
      exact ⟨hts, hfresh hrest, by rwa [section_cfg hsec], f', hf', hname.trans hname'.symm⟩
  | returned => exact hfresh h
  | _ => exact h

/-- One more object without expired replicas. -/
lemma World.FreshWhere.of_object {fn : Ref} (h : w.FreshWhere currTs fun n o => P n o ∧ o ≠ fn)
    (hfn : ∀ f, w.heap[fn]? = some f → f.idleReplicas.Fresh w.cfg currTs) :
    w.FreshWhere currTs P := by
  intro n o f hf hP
  by_cases heq : o = fn
  · exact hfn f (heq ▸ World.heap_of_fn? hf)
  · exact h n o f hf ⟨hP, heq⟩

/-- A replica of a deployed object names a deployed function. -/
lemma World.Current.isSome_fn? {fn : Ref} {f : Function} (hcur : w.Current fn)
    (hf : w.heap[fn]? = some f) {r : Replica} (hr : r.fname = f.name) :
    (w.fn? r.fname).isSome := by
  obtain ⟨f₁, hf₁, hfn⟩ := hcur
  obtain rfl := Option.some.inj (hf.symm.trans hf₁)
  rw [hr, hfn]
  rfl

/-- `DeleteReplica` does not panic on a replica of a deployed function. -/
lemma World.deleteReplica_ne_fault {a : Answers} {r : Replica} {fault : Fault}
    (hf : (w.fn? r.fname).isSome) : w.deleteReplica a r ≠ (w', some fault) := by
  intro hdel
  have hnone := World.deleteIn_noFault hf defaultFunctionNamespace a
  rw [World.deleteReplica] at hdel
  rw [hdel] at hnone
  cases hnone

/-- **A section of the sweep itself** leaves no expired replica behind, when the object that it
visits is deployed.

**Proof sketch.** Case split on where the sweep is. It leaves the pool of a function when neither
end of it is expired, and since the queue is in order nothing else is; the pools that are still to
come are in the list, and what is added in the meantime is fresh (`FreshWhere.of_section`). -/
lemma sweepNext_sweepsAt {pc : SweepPc} (h : sweepNext w pc e = some (w', t'))
    (hw : w.WellFormed) (ht : (Thread.sweep pc).WellFormed)
    (hT : 0 < w.cfg.containerExpirationTime) {now : Time} (htime : w.InTime now)
    (hle : currTs ≤ e.now) (hcur : ∀ fn, (Thread.sweep pc).pointer = some fn → w.Current fn)
    (hat : (Thread.sweep pc).SweepsAt currTs w) : t'.SweepsAt currTs w' := by
  have hsec : Section w e (.sweep pc) w' t' [] := .sweep (sweepNext_cases h)
  have hfresh : ∀ {P : Str → Ref → Prop}, w.FreshWhere currTs P → w'.FreshWhere currTs P :=
    fun h => h.of_section hsec hw ht hT hle
  cases pc with
  | tryLock => exact absurd hat id
  | range currTs' began visited =>
    obtain ⟨rfl, hrest⟩ := hat
    simp only [sweepNext] at h
    split at h
    · next name hentry =>
      split at h
      · cases h
      · split at h
        · cases h
        · next fn hlookup =>
          cases h
          refine ⟨rfl, hrest.mono fun n o f hf hQ hbegan => ?_⟩
          refine (List.mem_cons.mp (hQ.1 hbegan)).resolve_left ?_
          rintro rfl
          have := (World.fn?_eq_some.mp hf).1
          rw [hlookup] at this
          exact hQ.2 (Option.some.inj this).symm
    · split at h
      · next hall =>
        cases h
        intro n o f hf _
        refine hrest n o f hf fun hbegan => ?_
        have hn : n ∈ visited ∨ n ∉ w.deployedFunctions := by
          simpa using List.all_eq_true.mp hall n hbegan
        refine hn.resolve_right (not_not_intro (AList.lookup_isSome.mp ?_))
        rw [(World.fn?_eq_some.mp hf).1]
        rfl
      · cases h
  | pool currTs' began visited fn =>
    obtain ⟨rfl, hrest⟩ := hat
    have hcur := hcur fn rfl
    obtain ⟨f, hf, hpool⟩ := sweepNext_pool_cases h (Thread.findsDeployed_of_current hcur)
    have hstored := (hw.functions f (List.mem_of_getElem? hf)).stored
    -- where the loop ends, the pool of this object is fresh too
    have hends : ∀ x, (f.idleReplicas.sweep w.cfg currTs').2 = .mru x →
        IdleReplicas.Fresh w.cfg currTs'
          (if x.isSome then { f.idleReplicas with mru := none } else f.idleReplicas) := by
      intro x hsweep
      rw [← IdleReplicas.sweep_fst_of_mru hsweep]
      exact IdleReplicas.fresh_of_sweep_mru (hw.functions f (List.mem_of_getElem? hf)).ordered
        (htime fn f hf) hsweep
    cases hpool with
    | @lru replica hsweep =>
      obtain ⟨f₁, hf₁, hname, -⟩ := section_stored hsec hf
      have hmem : replica ∈ f.idleReplicas.stored := by
        rw [IdleReplicas.stored_of_sweep_lru hsweep]
        exact List.mem_cons_self
      exact ⟨rfl, hfresh hrest, IdleReplicas.expired_of_sweep_lru hsweep, f₁, hf₁,
        (hstored replica hmem).2.trans hname.symm⟩
    | mru hsweep hdel =>
      refine ⟨rfl, (hfresh hrest).of_object fun f' hf' => ?_⟩
      have hsame := World.sameStore_of_deleteReplica hdel
      rw [hsame.heap, World.getElem?_setFn hf hf, if_pos rfl] at hf'
      rw [hsame.cfg, ← Option.some.inj hf']
      exact hends _ hsweep
    | @mruFault replica _ fault hsweep hdel =>
      have hmem : replica ∈ f.idleReplicas.stored := by
        rw [IdleReplicas.stored_of_sweep_mru hsweep]
        exact List.mem_append_right _ List.mem_cons_self
      refine absurd hdel (World.deleteReplica_ne_fault ?_)
      refine World.SameNames.isSome (.setFn hf ?_) (hcur.isSome_fn? hf (hstored replica hmem).2)
      rfl
    | fresh hsweep =>
      refine ⟨rfl, (hfresh hrest).of_object fun f' hf' => ?_⟩
      obtain rfl := Option.some.inj (hf.symm.trans hf')
      exact hends _ hsweep
  | del currTs' began visited fn replica =>
    obtain ⟨rfl, hrest, -, f, hf, hname⟩ := hat
    cases sweepNext_cases h with
    | del hdel => exact ⟨rfl, hfresh hrest⟩
    | delFault hdel =>
      exact absurd hdel (World.deleteReplica_ne_fault ((hcur fn rfl).isSome_fn? hf hname))

end Sections

/-! ### Moves -/

/-- The invariant between the sections of the sweep of goroutine `i`. -/
structure Sweeping (cfg : Config) (i : ℕ) (currTs : Time) (s : State × Time) : Prop where
  wellFormed : State.WellFormed s.1
  inTime : s.1.shared.InTime s.2
  cleanup : s.1.cleanup = 1
  cfg : s.1.shared.cfg = cfg
  begun : currTs ≤ s.2
  standing : ∃ t, s.1.threads[i]? = some t ∧ t.SweepsAt currTs s.1.shared

section Moves

variable {cfg : Config} {i : ℕ} {currTs : Time} {s s' : State × Time} {m : Event}

/-- No move changes the configuration. -/
lemma step_cfg {c c' : State} (hstep : provider.step c m = some c') :
    c'.shared.cfg = c.shared.cfg := by
  obtain ⟨t, rfl, -, rfl⟩ | ⟨i, e, t, w', t', new, rfl, ht, hn, rfl⟩ :=
    Interleaving.Program.step_cases hstep
  · rfl
  · exact section_cfg (next_cases hn)

/-- **Every move during the sweep keeps the invariant.**

**Proof sketch.** The section of another goroutine adds replicas that have just been used, and takes
some; the section of the sweep leaves a pool when its two ends have not expired. -/
theorem step_sweeping (hT : 0 < cfg.containerExpirationTime) (h : Sweeping cfg i currTs s)
    (hin : s.1.InSweep i m) (hstep : clockedProvider s m = some s') :
    Sweeping cfg i currTs s' := by
  obtain ⟨hstep', hle, hnow⟩ := Clocks.clocked_eq_some.mp hstep
  refine
    { wellFormed := step_wellFormed h.wellFormed hstep'
      inTime := step_inTime h.wellFormed h.inTime hstep
      cleanup := step_cleanup h.cleanup hstep'
      cfg := (step_cfg hstep').trans h.cfg
      begun := h.begun.trans hle
      standing := ?_ }
  obtain ⟨u, hu, hat⟩ := h.standing
  have hT : 0 < s.1.shared.cfg.containerExpirationTime := by rwa [h.cfg]
  by_cases hm : ∃ e, m = .step i e
  · obtain ⟨e, rfl⟩ := hm
    obtain ⟨w', t', new, hn, hs'⟩ := Interleaving.step_of_getElem? hstep' hu
    have hnow : s'.2 = e.now := hnow
    rw [hs']
    refine ⟨t', Interleaving.getElem?_section t' new hu, ?_⟩
    cases u with
    | sweep pc =>
      simp only [provider, Thread.next, Option.map_eq_some_iff] at hn
      obtain ⟨⟨w₁, t₁⟩, hnext, heq⟩ := hn
      cases heq
      exact sweepNext_sweepsAt hnext h.wellFormed.1 (h.wellFormed.2 _ (List.mem_of_getElem? hu)) hT
        h.inTime (h.begun.trans (hnow ▸ hle)) (hin.deployed _ hu) hat
    | returned => cases hn
    | _ => exact absurd hat id
  · have hm : ∀ e, m ≠ .step i e := fun e heq => hm ⟨e, heq⟩
    refine ⟨u, Interleaving.getElem?_of_step hstep' hm hu, ?_⟩
    obtain ⟨t, rfl, -, hs'⟩ | ⟨j, e, t, w', t', new, rfl, ht, hn, hs'⟩ :=
      Interleaving.Program.step_cases hstep'
    · rw [hs']
      exact hat
    · have hnow : s'.2 = e.now := hnow
      rw [hs']
      exact hat.of_section (next_cases hn) h.wellFormed.1
        (h.wellFormed.2 t (List.mem_of_getElem? ht)) hT (h.begun.trans (hnow ▸ hle))

/-- The sweep holds the lock. -/
lemma Sweeping.holdsCleanup (h : Sweeping cfg i currTs s) (hin : s.1.InSweep i m) :
    ∃ pc, s.1.threads[i]? = some (.sweep pc) ∧ (Thread.sweep pc).holdsCleanup = 1 := by
  obtain ⟨u, hu, hat⟩ := h.standing
  cases u with
  | sweep pc =>
    cases pc with
    | tryLock => exact absurd hat id
    | _ => exact ⟨_, hu, rfl⟩
  | returned => exact absurd hu hin.running
  | _ => exact absurd hat id

/-- **Only this sweep is on a pool.** -/
lemma Sweeping.eq_of_pointer (h : Sweeping cfg i currTs s) (hin : s.1.InSweep i m) {j : ℕ}
    {t : Thread} (ht : s.1.threads[j]? = some t) {fn : Ref} (hfn : t.pointer = some fn) :
    j = i := by
  obtain ⟨pc, hi, hheld⟩ := h.holdsCleanup hin
  refine State.eq_of_holdsCleanup h.cleanup ht hi ?_ hheld
  cases t with
  | sweep pc =>
    cases pc with
    | tryLock => cases hfn
    | range => cases hfn
    | _ => rfl
  | _ => cases hfn

/-- Every sweep finds its object deployed, since there is only one. -/
lemma Sweeping.findsDeployed (h : Sweeping cfg i currTs s) (hin : s.1.InSweep i m) :
    s.1.FindsDeployed m := by
  cases m with
  | arrive t => trivial
  | step j e =>
    intro t ht
    cases t with
    | sweep pc =>
      cases pc with
      | pool currTs' began visited fn =>
        intro f r _ _
        have hj := h.eq_of_pointer hin ht rfl
        exact hin.deployed _ (hj ▸ ht) fn rfl
      | _ => trivial
    | _ => trivial

end Moves

/-! ### What comes out of the pools -/

/-- The replicas that sweeps take from the pool of the object. -/
def State.sweeps (o : Ref) : State → Event → Multiset Replica :=
  Config.count fun w _ t => t.sweeps w o

/-- The replica that a sweep takes from the pool that it visits. -/
def Thread.swept (w : World) : Thread → Multiset Replica
  | .sweep (.pool currTs _ _ fn) => w.sweptFrom fn currTs
  | _ => 0

/-- The replica in the hands of a sweep. -/
def Thread.hand : Thread → Multiset Replica
  | .sweep (.del _ _ _ _ replica) => {replica}
  | _ => 0

/-- The replica in the hands of goroutine `i`. -/
def State.hand (i : ℕ) (c : State) : Multiset Replica := (c.threads[i]?).elim 0 Thread.hand

section Pools

variable {w w' : World} {e : Env} {t t' : Thread} {new : List Thread} {o : Ref}

/-- An object that is not there gets nothing. -/
lemma Thread.adds_of_none (ho : w.heap[o]? = none) : t.adds w o e = [] := by
  have hgiven : ∀ replica now, w.givenTo o replica now = [] := by
    intro replica now
    rw [World.givenTo, if_neg]
    intro h
    obtain ⟨⟨o', f⟩, hf, rfl⟩ := Option.map_eq_some_iff.mp h
    exact absurd ((World.heap_of_fn? hf).symm.trans ho) (by simp)
  cases t with
  | request req pc =>
    cases pc with
    | give replica => exact hgiven replica e.now
    | create fn pc => cases pc <;> simp [Thread.adds, CreatePc.adds, hgiven]
    | _ => rfl
  | spawn call pc => cases pc <;> simp [Thread.adds, CreatePc.adds, hgiven]
  | _ => rfl

/-- Nothing is taken from a pool that is not there. -/
lemma Thread.takes_of_none (ho : w.heap[o]? = none) : t.takes w o = [] := by
  cases t with
  | request req pc =>
    cases pc with
    | idle fn =>
      rw [Thread.takes]
      cases hf : w.fn? fn.pool with
      | none => exact World.takenFrom_of_none hf
      | some of =>
        rw [World.takenFrom_of_fn? hf, if_neg]
        rintro rfl
        exact absurd ((World.heap_of_fn? hf).symm.trans ho) (by simp)
    | _ => rfl
  | _ => rfl

/-- Nothing is swept from a pool that is not there. -/
lemma Thread.sweeps_of_none (ho : w.heap[o]? = none) : t.sweeps w o = [] := by
  cases t with
  | sweep pc =>
    cases pc with
    | pool currTs began visited fn =>
      rw [Thread.sweeps]
      split
      · next heq => rw [heq, World.sweptFrom, ho]
      · rfl
    | _ => rfl
  | _ => rfl

/-- **One move balances the pool of an object**, when sweeps find the deployed objects.

**Proof sketch.** Only the thread that steps counts. An object that is there is balanced by
`section_balance`; one that is new has an empty pool (`section_newObject`). -/
lemma step_pool {c c' : State} {m : Event} (hc : State.WellFormed c) (hfinds : c.FindsDeployed m)
    (hstep : provider.step c m = some c') (o : Ref) :
    c'.pool o + (State.takes o c m + State.sweeps o c m) = c.pool o + State.adds o c m := by
  obtain ⟨t, rfl, -, rfl⟩ | ⟨i, e, t, w', t', new, rfl, ht, hn, rfl⟩ :=
    Interleaving.Program.step_cases hstep
  · rfl
  · rw [State.takes, State.sweeps, State.adds, Config.count_step _ ht, Config.count_step _ ht,
      Config.count_step _ ht]
    unfold State.pool
    cases hf : c.shared.heap[o]? with
    | none =>
      rw [Thread.adds_of_none hf, Thread.takes_of_none hf, Thread.sweeps_of_none hf]
      cases hf' : w'.heap[o]? with
      | none => rfl
      | some f' =>
        obtain rfl := section_newObject (next_cases hn) hf hf'
        dsimp only
        rw [(hc.2 _ (List.mem_of_getElem? ht)).1]
        rfl
    | some f =>
      obtain ⟨f', hf', -, hbal⟩ := section_balance hn (hfinds t ht) hf
      rw [hf']
      exact hbal

/-- The expired `MRU` that a section finds is removed from the pool. -/
lemma World.mem_sweptFrom_of_expiredMRU {fn : Ref} {currTs : Time} {r : Replica}
    (h : w.expiredMRU fn currTs = some r) : r ∈ w.sweptFrom fn currTs := by
  cases hf : w.heap[fn]? with
  | none => simp [World.expiredMRU, hf] at h
  | some f =>
    cases hsweep : (f.idleReplicas.sweep w.cfg currTs).2 with
    | lru r' => simp [World.expiredMRU, hf, hsweep] at h
    | mru r' =>
      obtain rfl : r' = some r := by simpa [World.expiredMRU, hf, hsweep] using h
      simp [World.sweptFrom, hf, hsweep]

/-- What a sweep takes from a pool it deletes, at once or with the next section.

**Proof sketch.** Case split on where the sweep stands, and in a pool on what it finds there. A
young replica is deleted at once, an old one with the next section. -/
lemma sweepNext_hand {pc : SweepPc} (h : sweepNext w pc e = some (w', t'))
    (hcur : ∀ fn, (Thread.sweep pc).pointer = some fn → w.Current fn) :
    t'.hand + (Thread.sweep pc).sweepDeletes w =
      (Thread.sweep pc).hand + (Thread.sweep pc).swept w := by
  cases pc with
  | tryLock => cases sweepNext_cases h <;> rfl
  | range currTs began visited => cases sweepNext_cases h <;> rfl
  | pool currTs began visited fn =>
    obtain ⟨f, hf, hpool⟩ := sweepNext_pool_cases h (Thread.findsDeployed_of_current (hcur fn rfl))
    rw [Thread.sweepDeletes, Thread.swept, World.expiredMRU, World.sweptFrom_of_heap hf, hf]
    cases hpool with
    | lru hsweep => simp [Thread.hand, hsweep]
    | mru hsweep hdel => simp [Thread.hand, hsweep]
    | mruFault hsweep hdel => simp [Thread.hand, hsweep]
    | fresh hsweep => simp [Thread.hand, hsweep]
  | del currTs began visited fn replica =>
    cases sweepNext_cases h <;> simp [Thread.hand, Thread.sweepDeletes, Thread.swept]

end Pools

section Own

variable {c c' : State} {i : ℕ} {m : Event} {t : Thread} {g : World → Thread → Multiset Replica}

/-- A section of the goroutine counts. -/
lemma State.own_step (ht : c.threads[i]? = some t) (e : Env) :
    State.own i g c (.step i e) = g c.shared t := by
  rw [State.own, if_pos rfl, Config.count_step _ ht]

/-- Nothing else does. -/
lemma State.own_of_ne (hm : ∀ e, m ≠ .step i e) : State.own i g c m = 0 := by
  cases m with
  | arrive t => rfl
  | step j e => exact if_neg fun heq => hm e (by rw [heq])

/-- What is counted comes from a section of the goroutine. -/
lemma State.exists_of_mem_own {r : Replica} (hr : r ∈ State.own i g c m) :
    ∃ t, c.threads[i]? = some t ∧ r ∈ g c.shared t := by
  cases m with
  | arrive t => exact absurd hr (Multiset.notMem_zero r)
  | step j e =>
    by_cases hj : j = i
    · subst hj
      cases ht : c.threads[j]? with
      | none =>
        rw [State.own, if_pos rfl, Config.count, ht] at hr
        exact absurd hr (Multiset.notMem_zero r)
      | some t => exact ⟨t, rfl, by rwa [State.own_step ht] at hr⟩
    · rw [State.own, if_neg hj] at hr
      exact absurd hr (Multiset.notMem_zero r)

/-- What the sweep deletes is part of what sweeps delete. -/
lemma State.deletedBy_le (i : ℕ) (c : State) (m : Event) :
    State.deletedBy i c m ≤ State.sweepDeletes c m := by
  cases m with
  | arrive t => exact le_rfl
  | step j e =>
    unfold State.deletedBy State.own
    dsimp only
    split
    · exact le_rfl
    · exact Multiset.zero_le _

end Own

section Moves

variable {cfg : Config} {i : ℕ} {currTs : Time} {s s' : State × Time} {m : Event}

/-- What a move of the sweep takes is taken where the sweep stands. -/
lemma Sweeping.exists_of_mem_own (h : Sweeping cfg i currTs s)
    {g : World → Thread → Multiset Replica} {r : Replica} (hr : r ∈ State.own i g s.1 m) :
    ∃ t : Thread, t.SweepsAt currTs s.1.shared ∧ r ∈ g s.1.shared t := by
  obtain ⟨t, ht, hr⟩ := State.exists_of_mem_own hr
  obtain ⟨u, hu, hat⟩ := h.standing
  obtain rfl := Option.some.inj (hu.symm.trans ht)
  exact ⟨u, hat, hr⟩

/-- The replicas that the sweep takes from a pool have expired. -/
lemma Sweeping.expired_of_mem_swept (h : Sweeping cfg i currTs s) {r : Replica}
    (hr : r ∈ State.own i (fun w t => t.swept w) s.1 m) : cfg.expired currTs r = true := by
  obtain ⟨t, hat, hr⟩ := h.exists_of_mem_own hr
  rw [← h.cfg]
  cases t with
  | sweep pc =>
    cases pc with
    | pool currTs' began visited fn =>
      obtain ⟨rfl, -⟩ := hat
      exact World.expired_of_mem_sweptFrom hr
    | _ => exact absurd hr (Multiset.notMem_zero r)
  | _ => exact absurd hr (Multiset.notMem_zero r)

/-- The replicas on which the sweep calls `DeleteReplica` have expired.

**Proof sketch.** Case split on where the sweep stands: the replica is a young one that it finds
expired now, or the old one that it holds, which it found expired. -/
lemma Sweeping.expired_of_mem_deletedBy (h : Sweeping cfg i currTs s) {r : Replica}
    (hr : r ∈ State.deletedBy i s.1 m) : cfg.expired currTs r = true := by
  obtain ⟨t, hat, hr⟩ := h.exists_of_mem_own hr
  rw [← h.cfg]
  cases t with
  | sweep pc =>
    cases pc with
    | pool currTs' began visited fn =>
      obtain ⟨rfl, -⟩ := hat
      have hmru : s.1.shared.expiredMRU fn currTs' = some r := by
        simpa [Thread.sweepDeletes] using hr
      exact World.expired_of_mem_sweptFrom (World.mem_sweptFrom_of_expiredMRU hmru)
    | del currTs' began visited fn replica =>
      obtain rfl := Multiset.mem_singleton.mp hr
      exact hat.2.2.1
    | _ => exact absurd hr (Multiset.notMem_zero r)
  | _ => exact absurd hr (Multiset.notMem_zero r)

/-- What sweeps take from a pool is what this sweep takes.

**Proof sketch.** Only a sweep on a pool takes anything, and no other sweep than this one is there
(`Sweeping.eq_of_pointer`). -/
lemma Sweeping.sweeps_le (h : Sweeping cfg i currTs s) (hin : s.1.InSweep i m) (o : Ref) :
    State.sweeps o s.1 m ≤ State.own i (fun w t => t.swept w) s.1 m := by
  cases m with
  | arrive t => exact le_rfl
  | step j e =>
    cases ht : s.1.threads[j]? with
    | none =>
      rw [State.sweeps, Config.count, ht]
      exact Multiset.zero_le _
    | some t =>
      rw [State.sweeps, Config.count_step _ ht]
      cases t with
      | sweep pc =>
        cases pc with
        | pool currTs' began visited fn =>
          obtain rfl := h.eq_of_pointer hin ht rfl
          rw [State.own_step ht, Thread.sweeps, Thread.swept]
          split
          · exact le_rfl
          · exact Multiset.zero_le _
        | _ => exact Multiset.zero_le _
      | _ => exact Multiset.zero_le _

/-- **What the sweep takes it deletes.**

**Proof sketch.** A section of another thread leaves the hand of the sweep alone. One of its own
takes a replica into it or deletes the one in it (`sweepNext_hand`). -/
lemma Sweeping.step_hand (h : Sweeping cfg i currTs s) (hin : s.1.InSweep i m)
    (hstep : provider.step s.1 m = some s'.1) :
    s'.1.hand i + State.deletedBy i s.1 m =
      s.1.hand i + State.own i (fun w t => t.swept w) s.1 m := by
  obtain ⟨u, hu, hat⟩ := h.standing
  by_cases hm : ∃ e, m = .step i e
  · obtain ⟨e, rfl⟩ := hm
    obtain ⟨w', t', new, hn, hs'⟩ := Interleaving.step_of_getElem? hstep hu
    rw [State.deletedBy, State.own_step hu, State.own_step hu, State.hand, State.hand, hs',
      Interleaving.getElem?_section t' new hu, hu]
    cases u with
    | sweep pc =>
      simp only [provider, Thread.next, Option.map_eq_some_iff] at hn
      obtain ⟨⟨w₁, t₁⟩, hnext, heq⟩ := hn
      cases heq
      exact sweepNext_hand hnext (hin.deployed _ hu)
    | returned => cases hn
    | _ => exact absurd hat id
  · have hm : ∀ e, m ≠ .step i e := fun e heq => hm ⟨e, heq⟩
    rw [State.deletedBy, State.own_of_ne hm, State.own_of_ne hm, State.hand, State.hand,
      Interleaving.getElem?_of_step hstep hm hu, hu]

end Moves

/-! ### The whole sweep -/

/-- The sweep takes the lock and begins.

**Proof sketch.** The section takes the lock and the time, and lists the names of all functions; so
every pool is still to be visited, and nothing is in hand. -/
lemma sweeping_of_lock {cfg : Config} {i : ℕ} {e : Env} {s₀ s : State × Time}
    (hwf : State.WellFormed s₀.1) (htime : s₀.1.shared.InTime s₀.2) (hlock : s₀.1.cleanup = 1)
    (hcfg : s₀.1.shared.cfg = cfg) (hi : s₀.1.threads[i]? = some (.sweep .tryLock))
    (hfree : s₀.1.shared.cleanupMu = false) (hstep : clockedProvider s₀ (.step i e) = some s) :
    Sweeping cfg i e.now s ∧ s.1.hand i = 0 := by
  obtain ⟨hstep', hle, hnow⟩ := Clocks.clocked_eq_some.mp hstep
  have hnow : s.2 = e.now := hnow
  obtain ⟨w', t', new, hn, hs⟩ := Interleaving.step_of_getElem? hstep' hi
  have hthread := Interleaving.getElem?_section t' new hi
  simp only [provider, Thread.next, sweepNext, hfree, Option.map_eq_some_iff] at hn
  obtain ⟨⟨w₁, t₁⟩, hnext, heq⟩ := hn
  cases heq
  cases hnext
  refine ⟨?_, ?_⟩
  · refine
      { wellFormed := step_wellFormed hwf hstep'
        inTime := step_inTime hwf htime hstep
        cleanup := step_cleanup hlock hstep'
        cfg := (step_cfg hstep').trans hcfg
        begun := hnow.ge
        standing := ?_ }
    rw [hs]
    refine ⟨_, hthread, rfl, fun n o f hf hbegan => ?_⟩
    -- every deployed function is among the entries it begins with
    refine absurd (hbegan ?_) List.not_mem_nil
    have hlookup := (World.fn?_eq_some.mp hf).1
    exact AList.mem_keys.mp (AList.lookup_isSome.mp (by rw [hlookup]; rfl))
  · rw [State.hand, hs, hthread]
    rfl

/-- While the lock is free, a name is in at most one place, the hands of the sweeps too. -/
lemma State.hands_le_one_of_free {c : State} (hlock : c.cleanup = 1)
    (hfree : c.shared.cleanupMu = false) {u : Str} (hplaces : c.places false u ≤ 1) :
    c.hands u ≤ 1 := by
  have hempty : c.threads.map (Thread.places true u) = c.threads.map (Thread.places false u) := by
    refine List.map_congr_left fun t ht => ?_
    have hheld := State.holdsCleanup_of_free hlock hfree ht
    cases t with
    | sweep pc =>
      cases pc with
      | tryLock => exact one_none u
      | _ => cases hheld
    | deploy pc => cases pc <;> rfl
    | _ => rfl
  rwa [State.hands, Config.ledger, hempty]

section Run

variable {cfg : Config} {i : ℕ} {currTs : Time} {s s' : State × Time} {during : List Event}

/-- With the clock a run counts what it does without. -/
lemma tally_clockedProvider (f : State → Event → Multiset Replica)
    (hduring : Runs.run clockedProvider s during = some s') :
    Runs.tally clockedProvider (fun s m => f s.1 m) s during =
      Runs.tally provider.step f s.1 during :=
  Clocks.tally_clocked f hduring

variable (hT : 0 < cfg.containerExpirationTime) (hs : Sweeping cfg i currTs s)
  (hduring : Runs.run clockedProvider s during = some s')
  (hin : Runs.Along provider.step (State.InSweep i) s.1 during)
include hT hs hduring hin

/-- The invariant holds as long as the sweep runs. -/
lemma Sweeping.run : Sweeping cfg i currTs s' :=
  Runs.invariant_of_along (fun _ _ _ h hin hstep => step_sweeping hT h hin hstep) hs
    ((Clocks.along_clocked_iff hduring).mpr hin) hduring

/-- What is counted during the sweep has a property that the invariant gives at every move. -/
lemma Sweeping.forall_mem_tally {f : State → Event → Multiset Replica}
    {Q : Replica → Prop}
    (hQ : ∀ s m, Sweeping cfg i currTs s → s.1.InSweep i m → ∀ r ∈ f s.1 m, Q r) :
    ∀ r ∈ Runs.tally provider.step f s.1 during, Q r := by
  rw [← tally_clockedProvider f hduring]
  exact Runs.forall_mem_tally (fun _ _ _ h hin hstep => step_sweeping hT h hin hstep)
    (fun s m _ h hin _ => hQ s m h hin) hs ((Clocks.along_clocked_iff hduring).mpr hin)

/-- **The balance of a pool over the sweep.** -/
lemma Sweeping.balance_pool (o : Ref) :
    s'.1.pool o + (Runs.tally provider.step (State.takes o) s.1 during +
        Runs.tally provider.step (State.sweeps o) s.1 during) =
      s.1.pool o + Runs.tally provider.step (State.adds o) s.1 during := by
  rw [← tally_clockedProvider (State.takes o) hduring,
    ← tally_clockedProvider (State.sweeps o) hduring,
    ← tally_clockedProvider (State.adds o) hduring, ← Runs.tally_add]
  exact Runs.tally_add_eq (I := Sweeping cfg i currTs) (μ := fun s => s.1.pool o)
    (fun _ _ _ h hin hstep => step_sweeping hT h hin hstep)
    (fun _ _ _ h hin hstep => step_pool h.wellFormed (h.findsDeployed hin)
      (Clocks.clocked_eq_some.mp hstep).1 o)
    hs ((Clocks.along_clocked_iff hduring).mpr hin) hduring

/-- **The balance of the hands of the sweep.** -/
lemma Sweeping.balance_hand :
    s'.1.hand i + Runs.tally provider.step (State.deletedBy i) s.1 during =
      s.1.hand i + Runs.tally provider.step (State.own i fun w t => t.swept w) s.1 during := by
  rw [← tally_clockedProvider (State.deletedBy i) hduring,
    ← tally_clockedProvider (State.own i fun w t => t.swept w) hduring]
  exact Runs.tally_add_eq (I := Sweeping cfg i currTs) (μ := fun s => s.1.hand i)
    (fun _ _ _ h hin hstep => step_sweeping hT h hin hstep)
    (fun _ _ _ h hin hstep => h.step_hand hin (Clocks.clocked_eq_some.mp hstep).1)
    hs ((Clocks.along_clocked_iff hduring).mpr hin) hduring

/-- What sweeps take from a pool this sweep has taken. -/
lemma Sweeping.tally_sweeps_le (o : Ref) :
    Runs.tally provider.step (State.sweeps o) s.1 during ≤
      Runs.tally provider.step (State.own i fun w t => t.swept w) s.1 during := by
  rw [← tally_clockedProvider (State.sweeps o) hduring,
    ← tally_clockedProvider (State.own i fun w t => t.swept w) hduring]
  exact Runs.tally_le_tally (fun _ _ _ h hin hstep => step_sweeping hT h hin hstep)
    (fun _ _ _ h hin _ => h.sweeps_le hin o) hs ((Clocks.along_clocked_iff hduring).mpr hin)

/-- No replica is deleted twice by the sweep. -/
lemma Sweeping.nodup_deletedBy (hone : ∀ u, s.1.hands u ≤ 1) :
    ((Runs.tally provider.step (State.deletedBy i) s.1 during).map (·.uuid)).Nodup := by
  have hfinds := Runs.along_of_along (fun _ _ _ h hin hstep => step_sweeping hT h hin hstep)
    (fun _ _ h hin => h.findsDeployed hin) hs ((Clocks.along_clocked_iff hduring).mpr hin)
  refine Multiset.nodup_of_le (Multiset.map_le_map ?_)
    (nodup_sweepDeletes hone ((Clocks.along_clocked_iff hduring).mp hfinds))
  exact Runs.tally_le_tally (I := fun _ => True) (fun _ _ _ _ _ _ => trivial)
    (fun c m _ _ _ _ => State.deletedBy_le i c m) trivial hin

/-- **The sweep is exact** from where it begins.

**Proof sketch.** The sweep takes only what is expired (`Sweeping.expired_of_mem_swept`) and deletes
what it takes (`Sweeping.step_hand`). A replica that is there at the beginning is at the end still
in its pool, or has been taken by an invocation or by the sweep (`Sweeping.balance_pool`); when the
sweep has returned, no pool has an expired one. -/
lemma Sweeping.exact (hhand : s.1.hand i = 0) (hone : ∀ u, s.1.hands u ≤ 1) :
    SweepExact (cfg.expired currTs ·) i s.1 during s'.1 := by
  have hs' := hs.run hT hduring hin
  have hcfg := hs.cfg
  have hcfg' := hs'.cfg
  obtain ⟨t, ht, hat⟩ := hs'.standing
  have hsweeps : ∀ o, ∀ r ∈ Runs.tally provider.step (State.sweeps o) s.1 during,
      cfg.expired currTs r = true := fun o => by
    refine hs.forall_mem_tally hT hduring hin fun s m h hin r hr => ?_
    exact h.expired_of_mem_swept (Multiset.mem_of_le (h.sweeps_le hin o) hr)
  have hclean : s'.1.threads[i]? = some .returned → ∀ n o f, s'.1.shared.fn? n = some (o, f) →
      f.idleReplicas.Fresh cfg currTs := by
    intro hret n o f hf
    obtain rfl := Option.some.inj (ht.symm.trans hret)
    rw [← hcfg']
    exact hat n o f hf trivial
  refine
    { expired := ?_
      once := hs.nodup_deletedBy hT hduring hin hone
      kept := ?_
      returns := ⟨t, ht, fun fault hfault => by rw [hfault] at hat; exact hat⟩
      clean := fun hret n o f hf r hr hexp => by
        rw [hclean hret n o f hf r hr] at hexp
        cases hexp
      gone := ?_ }
  · exact hs.forall_mem_tally hT hduring hin fun s m h _ r hr => h.expired_of_mem_deletedBy hr
  · intro o r hexp hr htakes
    rw [← hs.balance_pool hT hduring hin o, Multiset.mem_add, Multiset.mem_add] at hr
    rcases hr with hr | hr | hr
    · exact hr
    · exact absurd hr htakes
    · exact absurd (hsweeps o r hr) hexp
  · intro hret n o f hf r hr hexp htakes
    have hmem := Multiset.mem_add.mpr
      (Or.inl (b := r ∈ Runs.tally provider.step (State.adds o) s.1 during) hr)
    rw [← hs.balance_pool hT hduring hin o, Multiset.mem_add, Multiset.mem_add] at hmem
    rcases hmem with hmem | hmem | hmem
    · -- it would have been left behind
      have hpool : r ∈ f.idleReplicas.stored := by
        rwa [State.pool, World.heap_of_fn? hf] at hmem
      rw [hclean hret n o f hf r hpool] at hexp
      cases hexp
    · exact absurd hmem htakes
    · have hbal := hs.balance_hand hT hduring hin
      have hhand' : s'.1.hand i = 0 := by rw [State.hand, hret]; rfl
      rw [hhand, hhand', zero_add, zero_add] at hbal
      rw [hbal]
      exact Multiset.mem_of_le (hs.tally_sweeps_le hT hduring hin o) hmem

end Run

/-- **Every sweep that finds its objects deployed is exact**: in every run with a clock, at the
times when the sweep has dropped the lock of a pool, invocations and others come in as they will.
It goes by the comparison of the code, which is exact for expiration times up to `2 ^ 24` seconds
and less than a microsecond early for longer ones.

**Proof sketch.** Only one sweep runs at a time. The pools are in the order of `lastAccess`, so the
two ends speak for the whole pool; what comes in has just been used, and does not expire. What goes
out of a pool is taken or has expired, and what the sweep takes out it deletes; a call of
`DeleteReplica` is paid with the place of the replica. -/
theorem sweep_exact {cfg : Config} {storage : Storage} {now : Time} {w : World}
    (hstart : startProvider cfg storage now = .ok w) (hT : 0 < cfg.containerExpirationTime)
    {before : List Event} {s₀ : State × Time}
    (hbefore : Runs.run clockedProvider (⟨w, []⟩, now) before = some s₀) {i : ℕ}
    (hi : s₀.1.threads[i]? = some (.sweep .tryLock)) (hfree : s₀.1.shared.cleanupMu = false)
    {e : Env} {s : State × Time} (hlock : clockedProvider s₀ (.step i e) = some s)
    {during : List Event} {s' : State × Time}
    (hduring : Runs.run clockedProvider s during = some s')
    (hin : Runs.Along provider.step (State.InSweep i) s.1 during) :
    SweepExact (cfg.expired e.now ·) i s.1 during s'.1 ∧ cfg.ExpiresOnTime e.now := by
  have hreach : Reachable s₀.1 :=
    ⟨cfg, storage, now, w, before, hstart, Clocks.run_of_clocked hbefore⟩
  have hcfg : s₀.1.shared.cfg = cfg :=
    Runs.invariant (I := fun c : State => c.shared.cfg = cfg)
      (fun _ _ _ h hstep => (step_cfg hstep).trans h) (startProvider_fresh hstart).2.1
      (Clocks.run_of_clocked hbefore)
  obtain ⟨hs, hhand⟩ := sweeping_of_lock hreach.wellFormed (inTime_of_run hstart hbefore)
    hreach.cleanup hcfg hi hfree hlock
  refine ⟨hs.exact hT hduring hin hhand fun u => ?_, Config.expiresOnTime hT e.now⟩
  refine le_trans ?_ (State.hands_le_one_of_free hreach.cleanup hfree (hreach.places_le_one u))
  have hle := step_deletes_le (m := .step i e) (fun t ht => ?_)
    (Clocks.clocked_eq_some.mp hlock).1 u
  · have := named_nonneg u (State.sweepDeletes s₀.1 (.step i e))
    omega
  · obtain rfl := Option.some.inj (hi.symm.trans ht)
    trivial

/-! ### A sweep of two replicas -/

/-- That a move is made during the sweep is read off the goroutine. -/
lemma State.inSweep_iff {i : ℕ} {c : State} {m : Event} :
    c.InSweep i m ↔ ((c.threads[i]?).all fun t =>
      !t.isReturned && (t.pointer).all fun fn => decide (c.shared.Current fn)) = true := by
  simp only [Option.all_eq_true, Bool.and_eq_true, Bool.not_eq_true', decide_eq_true_eq]
  constructor
  · intro h t ht
    refine ⟨?_, h.deployed t ht⟩
    cases t with
    | returned => exact absurd ht h.running
    | _ => rfl
  · intro h
    exact ⟨fun hret => absurd (h _ hret).1 (by decide), fun t ht => (h t ht).2⟩

/-- Whether it is can be computed. -/
instance (i : ℕ) (c : State) (m : Event) : Decidable (c.InSweep i m) :=
  decidable_of_iff _ State.inSweep_iff.symm

/-- The goroutine is about to try the lock. -/
def Thread.triesLock : Thread → Bool
  | .sweep .tryLock => true
  | _ => false

/-- The goroutine is a sweep before its first section. -/
lemma Thread.eq_of_triesLock {t : Thread} (h : t.triesLock = true) : t = .sweep .tryLock := by
  unfold Thread.triesLock at h
  split at h
  · rfl
  · cases h

/-- When the sweep has taken one of two replicas from the pool, an invocation takes the other. -/
def invokeDuringSweep : List Event :=
  let now : Time := 3600000000000
  [.step 3 { now := now, entry := some "f".toList }, .step 3 { now := now }] ++
    invokeF 4 2 { now := now } ++ sections 3 3 { now := now }

/-- The run goes through, and the sweep is exact.

**Proof sketch.** The run is evaluated up to the beginning of the sweep, and from there on
`sweep_exact` applies. -/
theorem sweep_exact_two : ∃ s s' : State × Time,
    Runs.run clockedProvider s invokeDuringSweep = some s' ∧
      (s'.1.threads[3]?).any Thread.isReturned = true ∧
        SweepExact (smallConfig.expired 3600000000000 ·) 3 s.1 invokeDuringSweep s'.1 ∧
          smallConfig.ExpiresOnTime 3600000000000 := by
  have h : ((Runs.run clockedProvider (⟨smallWorld, []⟩, 0)
      (idleTwo ++ [.arrive (.sweep .tryLock)])).any fun s₀ =>
        (s₀.1.threads[3]?).any Thread.triesLock && !s₀.1.shared.cleanupMu &&
          (clockedProvider s₀ (.step 3 { now := 3600000000000 })).any fun s =>
            decide (Runs.Along provider.step (State.InSweep 3) s.1 invokeDuringSweep) &&
              (Runs.run clockedProvider s invokeDuringSweep).any fun s' =>
                (s'.1.threads[3]?).any Thread.isReturned) = true := by
    decide +kernel
  obtain ⟨s₀, hbefore, h⟩ := (Option.any_eq_true _ _).mp h
  simp only [Bool.and_eq_true, Bool.not_eq_true'] at h
  obtain ⟨⟨htry, hfree⟩, h⟩ := h
  obtain ⟨t, ht, htry⟩ := (Option.any_eq_true _ _).mp htry
  obtain ⟨s, hlock, h⟩ := (Option.any_eq_true _ _).mp h
  obtain ⟨hin, h⟩ := Bool.and_eq_true_iff.mp h
  obtain ⟨s', hduring, hret⟩ := (Option.any_eq_true _ _).mp h
  rw [Thread.eq_of_triesLock htry] at ht
  obtain ⟨hexact, htime⟩ := sweep_exact startProvider_small (by decide) hbefore ht hfree hlock
    hduring (of_decide_eq_true hin)
  exact ⟨s, s', hduring, hret, hexact, htime⟩

/-! ### Expiration times that are too long for doubles -/

/-- The expiration time is one second above `2 ^ 24`. -/
def longConfig : Config := { smallConfig with containerExpirationTime := 16777217 }

/-- The time when a replica that was last used at zero is due but for a nanosecond. -/
def almostDue : Time := 16777217 * Durations.second - 1

/-- The sweep comes to `f` and deletes its replica. -/
def sweepEarly : List Event :=
  .step 2 { now := almostDue, entry := some "f".toList } :: sections 2 2 { now := almostDue }

/-- The run: `f` is invoked once at zero, and a sweep begins when its replica is almost due. -/
def beforeSweepEarly : List Event :=
  deployF ∅ ++ invokeF 1 12 { uuid := "1".toList } ++ [.arrive (.sweep .tryLock)]

/-- The store of a provider with the long expiration time. -/
def longWorld : World := { smallWorld with cfg := longConfig }

/-- The sweep deletes a replica that is not due yet.

**Proof sketch.** The run is evaluated; among the replicas that it deletes there is one that is not
due. -/
theorem not_sweep_exact_due : startProvider longConfig {} 0 = .ok longWorld ∧
    ∃ s₀ s s' : State × Time,
      Runs.run clockedProvider (⟨longWorld, []⟩, 0) beforeSweepEarly = some s₀ ∧
        s₀.1.threads[2]? = some (.sweep .tryLock) ∧
        clockedProvider s₀ (.step 2 { now := almostDue }) = some s ∧
        Runs.run clockedProvider s sweepEarly = some s' ∧
        Runs.Along provider.step (State.InSweep 2) s.1 sweepEarly ∧
        ¬ SweepExact (longConfig.Due almostDue) 2 s.1 sweepEarly s'.1 := by
  have h : ((Runs.run clockedProvider (⟨longWorld, []⟩, 0) beforeSweepEarly).any fun s₀ =>
      (s₀.1.threads[2]?).any Thread.triesLock &&
        (clockedProvider s₀ (.step 2 { now := almostDue })).any fun s =>
          decide (Runs.Along provider.step (State.InSweep 2) s.1 sweepEarly) &&
            (Runs.run clockedProvider s sweepEarly).any fun _ =>
              decide (¬ ∀ r ∈ Runs.tally provider.step (State.deletedBy 2) s.1 sweepEarly,
                longConfig.Due almostDue r)) = true := by
    decide +kernel
  obtain ⟨s₀, hbefore, h⟩ := (Option.any_eq_true _ _).mp h
  obtain ⟨htry, h⟩ := Bool.and_eq_true_iff.mp h
  obtain ⟨t, ht, htry⟩ := (Option.any_eq_true _ _).mp htry
  obtain ⟨s, hlock, h⟩ := (Option.any_eq_true _ _).mp h
  obtain ⟨hin, h⟩ := Bool.and_eq_true_iff.mp h
  obtain ⟨s', hduring, hearly⟩ := (Option.any_eq_true _ _).mp h
  rw [Thread.eq_of_triesLock htry] at ht
  exact ⟨rfl, s₀, s, s', hbefore, ht, hlock, hduring, of_decide_eq_true hin,
    fun hexact => of_decide_eq_true hearly hexact.expired⟩

end Fecore
