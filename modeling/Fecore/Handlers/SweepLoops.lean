import Mathlib.Algebra.Order.Group.Nat
import Mathlib.Tactic.Common
import Fecore.Concurrency.Tallies
import Fecore.Handlers.Hybrids
import Fecore.Handlers.PoolSections
import Fecore.Handlers.Undeployment

set_option relaxedAutoImplicit false
set_option autoImplicit false

/-!
# The inner loop of a sweep

The loop of `CleanupDaemon` (`pkg/provider/handlers/function_store.go`) tests the `LRU` of the
object that it has captured, and removes by name. In each turn it has dropped the lock, so deploy
and delete requests get in between.

## Main definitions

* `Fecore.Thread.iterates`, `Thread.sweepDeletes` — a turn of the loop, and the replica on which a
  sweep calls `DeleteReplica`.
* `Fecore.State.TakesOut` — a turn takes the `LRU` out of the pool of the very object.
* `Fecore.SweepsProgress` — turns take out, no replica is deleted twice, and the turns are bounded.

## Main results

* `Fecore.step_takesOut_iff` — a turn takes out if and only if the object is still deployed.
* `Fecore.section_deletes_le` — a call of `DeleteReplica` is paid with the place of the replica.
* `Fecore.sweepsProgress_iff` — the runs in which the sweeps make progress.
-/

namespace Fecore

open Interleaving (Config)

/-! ### Turns and calls -/

/-- The expired `LRU` that a section of a sweep finds in the pool of the object. -/
def World.expiredLRU (w : World) (fn : Ref) (currTs : Time) : Option Replica :=
  match w.heap[fn]? with
  | none => none
  | some f =>
    match (f.idleReplicas.sweep w.cfg currTs).2 with
    | .lru r => some r
    | .mru _ => none

/-- The expired `MRU` that a section of a sweep finds in the pool of the object, when the loop has
ended. -/
def World.expiredMRU (w : World) (fn : Ref) (currTs : Time) : Option Replica :=
  match w.heap[fn]? with
  | none => none
  | some f =>
    match (f.idleReplicas.sweep w.cfg currTs).2 with
    | .lru _ => none
    | .mru r => r

/-- The expired `LRU` is the one that the section finds in the pool of the object. -/
lemma World.expiredLRU_eq_some {w : World} {fn : Ref} {currTs : Time} {r : Replica} :
    w.expiredLRU fn currTs = some r ↔
      ∃ f, w.heap[fn]? = some f ∧ (f.idleReplicas.sweep w.cfg currTs).2 = .lru r := by
  unfold World.expiredLRU
  cases w.heap[fn]? with
  | none => simp
  | some f => cases hsweep : (f.idleReplicas.sweep w.cfg currTs).2 <;> simp [hsweep]

/-- One for a turn of the loop on the object. -/
def Thread.iterates (w : World) (fn : Ref) (currTs : Time) : Thread → ℕ
  | .sweep (.pool currTs' _ _ fn') =>
    if fn' = fn ∧ currTs' = currTs ∧ (w.expiredLRU fn currTs).isSome then 1 else 0
  | _ => 0

/-- The replica on which a section of a sweep calls `DeleteReplica`. -/
def Thread.sweepDeletes (w : World) : Thread → Multiset Replica
  | .sweep (.pool currTs _ _ fn) => (w.expiredMRU fn currTs).toList
  | .sweep (.del _ _ _ _ replica) => {replica}
  | _ => 0

/-- The section takes the expired `LRU` that it finds out of the pool of the very object. -/
def Thread.TakesOut (w' : World) (w : World) : Thread → Prop
  | .sweep (.pool currTs _ _ fn) => ∀ f r, w.heap[fn]? = some f →
      (f.idleReplicas.sweep w.cfg currTs).2 = .lru r →
        ∃ f', w'.heap[fn]? = some f' ∧ f.idleReplicas.stored = r :: f'.idleReplicas.stored
  | _ => True

/-- **A turn of the loop takes the `LRU` out of the pool of the very object** whose `LRU` it
tests. -/
def State.TakesOut (c : State) (m : Event) : Prop :=
  ∀ c', provider.step c m = some c' → c.Meets (Thread.TakesOut c'.shared) m

/-- How many replicas in the pool of the object have expired. -/
def State.expiredIn (fn : Ref) (currTs : Time) (c : State) : ℕ :=
  match c.shared.heap[fn]? with
  | none => 0
  | some f => f.idleReplicas.stored.countP (c.shared.cfg.expired currTs)

/-- The turns of the loop on the object. -/
def State.turns (fn : Ref) (currTs : Time) : State → Event → ℕ :=
  Config.count fun w _ t => t.iterates w fn currTs

/-- The replicas that are added to the pool of the object and have expired at once. -/
def State.lateAdds (fn : Ref) (currTs : Time) : State → Event → ℕ :=
  Config.count fun w e t => (t.adds w fn e).countP (w.cfg.expired currTs)

/-- The replicas on which sweeps call `DeleteReplica`. -/
def State.sweepDeletes : State → Event → Multiset Replica :=
  Config.count fun w _ t => t.sweepDeletes w

/-- **The sweeps make progress**: every turn of a loop takes its `LRU` out of the pool of the very
object, no replica is deleted twice, and in each part of the run the loop on an object turns at most
as often as there are expired replicas in its pool or come into it. -/
structure SweepsProgress (c₀ : State) (events : List Event) : Prop where
  takesOut : Runs.Along provider.step State.TakesOut c₀ events
  once : ((Runs.tally provider.step State.sweepDeletes c₀ events).map (·.uuid)).Nodup
  bounded : ∀ before during after, events = before ++ during ++ after → ∀ c c',
    Runs.run provider.step c₀ before = some c → Runs.run provider.step c during = some c' →
      ∀ fn currTs, State.expiredIn fn currTs c' +
          Runs.tally provider.step (State.turns fn currTs) c during ≤
        State.expiredIn fn currTs c +
          Runs.tally provider.step (State.lateAdds fn currTs) c during

/-- The move finds the object that it sweeps deployed. -/
def State.FindsDeployed (c : State) (m : Event) : Prop := c.Meets Thread.FindsDeployed m

/-! ### Taking out -/

/-- A turn that removes by name from the object that it tests takes out the `LRU`.

**Proof sketch.** The removal by name writes to the object that is deployed under it. That is the
one that has been tested, whose LRU it takes out, or another one, and then the tested one keeps its
pool. -/
lemma sweepNext_takesOut {w w' : World} {e : Env} {currTs : Time} {began visited : List Str}
    {fn : Ref} {t' : Thread} {f : Function} {r : Replica}
    (h : sweepNext w (.pool currTs began visited fn) e = some (w', t'))
    (hheap : w.heap[fn]? = some f) (hsweep : (f.idleReplicas.sweep w.cfg currTs).2 = .lru r) :
    (∃ f', w'.heap[fn]? = some f' ∧ f.idleReplicas.stored = r :: f'.idleReplicas.stored) ↔
      w.Current fn := by
  have hne : f.idleReplicas.stored ≠ r :: f.idleReplicas.stored := fun heq =>
    absurd (congrArg List.length heq) (by simp)
  cases hf : w.fn? f.name with
  | none =>
    -- the removal panics
    simp only [sweepNext, hheap, hsweep, World.removeIdleReplica, hf] at h
    cases h
    refine iff_of_false ?_ ?_
    · rintro ⟨f', hf', hst⟩
      obtain rfl := Option.some.inj (hheap.symm.trans hf')
      exact hne hst
    · rintro ⟨f', hf', hcur⟩
      obtain rfl := Option.some.inj (hheap.symm.trans hf')
      rw [hf] at hcur
      cases hcur
  | some og =>
    obtain ⟨o, g⟩ := og
    simp only [sweepNext, hheap, hsweep, World.removeIdleReplica, hf] at h
    cases h
    rw [World.getElem?_setFn hheap (World.heap_of_fn? hf)]
    by_cases heq : o = fn
    · subst heq
      obtain rfl := World.eq_of_getElem? hheap (World.heap_of_fn? hf) rfl
      rw [if_pos rfl]
      exact iff_of_true ⟨_, rfl, IdleReplicas.stored_of_sweep_lru hsweep⟩ ⟨_, hheap, hf⟩
    · -- the removal is from another object
      rw [if_neg heq]
      refine iff_of_false ?_ ?_
      · rintro ⟨f', hf', hst⟩
        obtain rfl := Option.some.inj hf'
        exact hne hst
      · rintro ⟨f', hf', hcur⟩
        obtain rfl := Option.some.inj (hheap.symm.trans hf')
        rw [hf] at hcur
        exact heq (by simpa using congrArg (·.map Prod.fst) hcur)

/-- **A turn takes out if and only if the object is still deployed.**

**Proof sketch.** Only a section on a pool is asked for, and there the removal by name finds the
object exactly when it is the deployed one (`sweepNext_takesOut`). -/
lemma step_takesOut_iff {c c' : State} {m : Event} (hstep : provider.step c m = some c') :
    c.TakesOut m ↔ c.FindsDeployed m := by
  obtain ⟨t, rfl, hent, rfl⟩ | ⟨i, e, t, w', t', new, rfl, ht, hn, rfl⟩ :=
    Interleaving.Program.step_cases hstep
  · exact iff_of_true (fun _ _ => trivial) trivial
  · have htakes : c.TakesOut (.step i e) ↔ t.TakesOut w' c.shared := by
      constructor
      · exact fun h => h _ hstep t ht
      · intro h c'' hstep' u hu
        obtain rfl := Option.some.inj (hstep.symm.trans hstep')
        obtain rfl := Option.some.inj (ht.symm.trans hu)
        exact h
    have hfinds : c.FindsDeployed (.step i e) ↔ t.FindsDeployed c.shared := by
      constructor
      · exact fun h => h t ht
      · intro h u hu
        obtain rfl := Option.some.inj (ht.symm.trans hu)
        exact h
    rw [htakes, hfinds]
    cases t with
    | sweep pc =>
      cases pc with
      | pool currTs began visited fn =>
        simp only [provider, Thread.next, Option.map_eq_some_iff] at hn
        obtain ⟨⟨w₁, t₁⟩, hnext, heq⟩ := hn
        cases heq
        refine forall₂_congr fun f r => forall₂_congr fun hheap hsweep => ?_
        exact sweepNext_takesOut hnext hheap hsweep
      | _ => exact Iff.rfl
    | _ => exact Iff.rfl

/-! ### Deleting once -/

section Once

variable {w w' : World} {e : Env} {t t' : Thread} {new : List Thread}

/-- A goroutine that is not a sweep does not become one. -/
lemma section_notSweep (hsec : Section w e t w' t' new) (ht : ∀ pc, t ≠ .sweep pc) :
    ∀ pc, t' ≠ .sweep pc := by
  cases hsec with
  | request hsec =>
    cases hsec with
    | @create fn pc _ result hsec =>
      cases result with
      | failed =>
        simp only [Thread.afterCreate]
        split <;> simp
      | _ => simp [Thread.afterCreate]
    | _ => simp
  | @spawn call pc _ result hsec => cases result <;> simp [Thread.afterSpawn]
  | sweep hsec => exact absurd rfl (ht _)
  | _ => simp

/-- Only sweeps have a place in the one ledger and not in the other. -/
lemma Thread.places_of_notSweep (ht : ∀ pc, t ≠ .sweep pc) (u : Str) :
    t.places true u = t.places false u := by
  cases t with
  | sweep pc => exact absurd rfl (ht pc)
  | deploy pc => cases pc <;> rfl
  | _ => rfl

/-- How often a replica of the name is among the replicas. -/
def named (u : Str) : Multiset Replica →+ ℤ :=
  (Nat.castAddMonoidHom ℤ).comp (Multiset.countPAddMonoidHom fun r => r.uuid = u)

/-- The replicas of a name are counted by their names. -/
lemma named_apply (u : Str) (rs : Multiset Replica) :
    named u rs = (rs.map (·.uuid)).count u := by
  rw [Multiset.count_map]
  simp only [named, AddMonoidHom.comp_apply, Multiset.coe_countPAddMonoidHom,
    Nat.coe_castAddMonoidHom, Multiset.countP_eq_card_filter, eq_comm]

/-- There are not fewer than none. -/
lemma named_nonneg (u : Str) (rs : Multiset Replica) : 0 ≤ named u rs := by
  rw [named_apply]
  exact Int.natCast_nonneg _

/-- A replica alone has its own name. -/
@[simp] lemma named_singleton (u : Str) (r : Replica) : named u {r} = one (some r.uuid) u := by
  rw [named_apply, Multiset.map_singleton, Multiset.count_singleton, one]
  by_cases h : r.uuid = u
  · rw [if_pos h.symm, if_pos (by rw [h])]
    rfl
  · rw [if_neg (Ne.symm h), if_neg (by simpa using h)]
    rfl

/-- A sweep pays for a call of `DeleteReplica` with the place of the replica.

**Proof sketch.** Case split on where the sweep is. The section on a pool takes a replica into its
hands or deletes it at once, and the next one deletes what is in hand; each deletion is paid with
the place. -/
lemma sweepNext_deletes_le {pc : SweepPc} (h : sweepNext w pc e = some (w', t'))
    (hcur : (Thread.sweep pc).FindsDeployed w) (u : Str) :
    w'.places false u + t'.places true u + named u ((Thread.sweep pc).sweepDeletes w) ≤
      w.places false u + (Thread.sweep pc).places true u := by
  -- a section of empty hands that deletes nothing
  have hlook : ∀ {w₁ : World} {t₁ : Thread}, w₁.places false u = w.places false u →
      t₁.places true u = 0 → w₁.places false u + t₁.places true u + 0 ≤ w.places false u + 0 :=
    fun hw ht => by rw [hw, ht, add_zero]
  cases pc with
  | tryLock =>
    rw [show (Thread.sweep .tryLock).places true u = 0 from one_none u]
    cases sweepNext_cases h with
    | locked => exact hlook rfl rfl
    | lock => exact hlook rfl (one_none u)
  | range currTs began visited =>
    rw [show (Thread.sweep (.range currTs began visited)).places true u = 0 from one_none u]
    cases sweepNext_cases h with
    | visit => exact hlook rfl (one_none u)
    | done => exact hlook rfl rfl
  | del currTs began visited fn replica =>
    have hplaces : (Thread.sweep (.del currTs began visited fn replica)).places true u =
        one (some replica.uuid) u := rfl
    rw [hplaces, Thread.sweepDeletes, named_singleton]
    cases sweepNext_cases h with
    | del hdel =>
      have := World.places_deleteReplica hdel false u
      simp only [Thread.places, SweepPc.carried, one_none, Bool.false_eq_true, if_false, if_true]
        at this ⊢
      omega
    | @delFault _ _ _ _ _ w₁ fault hdel =>
      have := World.places_deleteReplica hdel false u
      have hrest : World.places false u { w₁ with cleanupMu := false } = w₁.places false u := rfl
      simp only [hrest, Thread.places, Bool.false_eq_true, if_false] at this ⊢
      omega
  | pool currTs began visited fn =>
    have hplaces : (Thread.sweep (.pool currTs began visited fn)).places true u = 0 := one_none u
    obtain ⟨f, hf, hpool⟩ := sweepNext_pool_cases h hcur
    rw [hplaces, Thread.sweepDeletes, World.expiredMRU, hf]
    cases hpool with
    | @lru r hsweep =>
      have hset := World.places_setFn hf false u { f with
        idleReplicas := f.idleReplicas.remove }
      have hswept := Function.places_sweep_lru u hsweep
      have hhand : (Thread.sweep (.del currTs began visited fn r)).places true u =
          one (some r.uuid) u := rfl
      simp only [hsweep, hhand, Option.toList_none, Multiset.coe_nil, map_zero]
      omega
    | mru hsweep hdel =>
      have hle := World.places_sweep_mru_le hf hsweep hdel false u
      have hhand : (Thread.sweep (.range currTs began visited)).places true u = 0 := one_none u
      simp only [hsweep, hhand, Option.toList_some, Multiset.coe_singleton, named_singleton,
        Bool.false_eq_true, if_false] at hle ⊢
      omega
    | @mruFault r w₁ fault hsweep hdel =>
      have hle := World.places_sweep_mru_le hf hsweep hdel false u
      have hrest : World.places false u { w₁ with cleanupMu := false } = w₁.places false u := rfl
      have hhand : (Thread.panicked fault).places true u = 0 := rfl
      simp only [hsweep, hrest, hhand, Option.toList_some, Multiset.coe_singleton,
        named_singleton, Bool.false_eq_true, if_false] at hle ⊢
      omega
    | fresh hsweep =>
      simp only [hsweep]
      exact hlook rfl (one_none u)

/-- **A call of `DeleteReplica` by a sweep is paid with the place of the replica**, when sweeps find
the deployed objects.

**Proof sketch.** A section of a sweep pays as `sweepNext_deletes_le` says. One of another thread
makes no such call, and keeps the count of the places (`section_places_le`). -/
lemma section_deletes_le (h : provider.next w t e = some (w', t', new))
    (hcur : t.FindsDeployed w) (u : Str) :
    w'.places false u + t'.places true u + (new.map (Thread.places true u)).sum +
      named u (t.sweepDeletes w) ≤ w.places false u + t.places true u := by
  have hsec := next_cases h
  by_cases ht : ∃ pc, t = .sweep pc
  · obtain ⟨pc, rfl⟩ := ht
    simp only [provider, Thread.next, Option.map_eq_some_iff] at h
    obtain ⟨⟨w₁, t₁⟩, hnext, heq⟩ := h
    cases heq
    simpa using sweepNext_deletes_le hnext hcur u
  · have ht : ∀ pc, t ≠ .sweep pc := fun pc heq => ht ⟨pc, heq⟩
    have hle := section_places_le hsec false u (fun h => by cases h) (fun h => by cases h)
    have hnew : new.map (Thread.places true u) = new.map (Thread.places false u) := by
      refine List.map_congr_left fun v hv => ?_
      obtain ⟨call, rfl⟩ := section_new hsec v hv
      rfl
    have hdel : t.sweepDeletes w = 0 := by
      cases t with
      | sweep pc => exact absurd rfl (ht pc)
      | _ => rfl
    rw [Thread.places_of_notSweep ht, Thread.places_of_notSweep (section_notSweep hsec ht), hnew,
      hdel, map_zero, add_zero]
    exact hle

end Once

/-- The ledger of a name with the hands of the sweeps. -/
def State.hands (u : Str) (c : State) : ℤ := c.ledger (World.places false u) (Thread.places true u)

/-- A name is in no fewer hands than none. -/
lemma State.hands_nonneg (u : Str) (c : State) : 0 ≤ c.hands u :=
  add_nonneg (c.shared.places_nonneg false u)
    (Interleaving.sum_map_nonneg (Thread.places_nonneg true u) _)

/-- One move pays for the calls of `DeleteReplica`. -/
lemma step_deletes_le {c c' : State} {m : Event} (hfinds : c.FindsDeployed m)
    (hstep : provider.step c m = some c') (u : Str) :
    c'.hands u + named u (c.sweepDeletes m) ≤ c.hands u := by
  obtain ⟨t, rfl, hent, rfl⟩ | ⟨i, e, t, w', t', new, rfl, ht, hn, rfl⟩ :=
    Interleaving.Program.step_cases hstep
  · refine le_of_eq ?_
    simp [State.hands, State.sweepDeletes, Config.ledger, entry_places hent]
  · have hle := section_deletes_le hn (hfinds t ht) u
    have heq := Interleaving.ledger_section (World.places false u) (Thread.places true u) w' t' new
      ht
    rw [State.sweepDeletes, Config.count_step _ ht]
    unfold State.hands
    omega

/-- **No replica is deleted twice by sweeps** that find the deployed objects.

**Proof sketch.** A name is in at most one place in the beginning, and every call of `DeleteReplica`
takes one. -/
lemma nodup_sweepDeletes {c : State} (hone : ∀ u, c.hands u ≤ 1) {events : List Event}
    (hfinds : Runs.Along provider.step State.FindsDeployed c events) :
    ((Runs.tally provider.step State.sweepDeletes c events).map (·.uuid)).Nodup := by
  rw [Multiset.nodup_iff_count_le_one]
  intro u
  obtain ⟨c', -, -, hle⟩ := Runs.tally_add_le (I := fun _ => True) (μ := State.hands u)
    (f := fun c m => named u (c.sweepDeletes m)) (g := fun _ _ => 0) (fun _ _ _ _ _ _ => trivial)
    (fun c m c' _ hok hstep => by simpa using step_deletes_le hok hstep u) trivial hfinds
  rw [Runs.tally_zero, add_zero, ← Runs.map_tally (named u) State.sweepDeletes, named_apply] at hle
  have := c'.hands_nonneg u
  have := hone u
  omega

/-! ### Turns are bounded -/

/-- A turn finds an expired replica.

**Proof sketch.** Case split on where the sweep stands. One that goes on in its pool has found an
old replica, and that one is among those that the section sweeps. -/
lemma Thread.iterates_le (w : World) (fn : Ref) (currTs : Time) (t : Thread) :
    t.iterates w fn currTs ≤ (t.sweeps w fn).countP (w.cfg.expired currTs) := by
  cases t with
  | sweep pc =>
    cases pc with
    | pool currTs' began visited fn' =>
      rw [Thread.iterates, Thread.sweeps]
      split
      · next h =>
        obtain ⟨rfl, rfl, hsome⟩ := h
        rw [if_pos rfl]
        obtain ⟨r, hr⟩ := Option.isSome_iff_exists.mp hsome
        have hmem : r ∈ w.sweptFrom fn' currTs' := by
          obtain ⟨f, hf, hsweep⟩ := World.expiredLRU_eq_some.mp hr
          simp only [World.sweptFrom, hf, hsweep, List.mem_singleton]
        exact List.countP_pos_iff.mpr ⟨r, hmem, World.expired_of_mem_sweptFrom hmem⟩
      · exact Nat.zero_le _
    | _ => exact Nat.zero_le _
  | _ => exact Nat.zero_le _

/-- **A turn of the loop is paid with an expired replica**, when the sweep finds the deployed
object.

**Proof sketch.** A turn takes an expired replica out of the pool, by the balance of the section
(`section_balance`); an expired replica comes into it only late. A new object has an empty pool and
no turn. -/
lemma step_turns_le {c c' : State} {m : Event} (hc : c.WellFormed) (hfinds : c.FindsDeployed m)
    (hstep : provider.step c m = some c') (fn : Ref) (currTs : Time) :
    State.expiredIn fn currTs c' + State.turns fn currTs c m ≤
      State.expiredIn fn currTs c + State.lateAdds fn currTs c m := by
  obtain ⟨t, rfl, hent, rfl⟩ | ⟨i, e, t, w', t', new, rfl, ht, hn, rfl⟩ :=
    Interleaving.Program.step_cases hstep
  · exact le_rfl
  · rw [State.turns, State.lateAdds, Config.count_step _ ht, Config.count_step _ ht]
    have hsec := next_cases hn
    unfold State.expiredIn
    dsimp only
    cases hf : c.shared.heap[fn]? with
    | none =>
      have hturns : t.iterates c.shared fn currTs = 0 := by
        have hlru : c.shared.expiredLRU fn currTs = none := by rw [World.expiredLRU, hf]
        cases t with
        | sweep pc => cases pc <;> simp [Thread.iterates, hlru]
        | _ => rfl
      rw [hturns]
      cases hf' : w'.heap[fn]? with
      | none => exact Nat.zero_le _
      | some f' =>
        -- the object has been deployed with an empty pool
        obtain rfl := section_newObject hsec hf hf'
        have hidle : f'.idleReplicas = {} := (hc.2 _ (List.mem_of_getElem? ht)).1
        dsimp only
        rw [hidle]
        exact Nat.zero_le _
    | some f =>
      obtain ⟨f', hf', -, hbal⟩ := section_balance hn (hfinds t ht) hf
      rw [hf', section_cfg hsec]
      have hcount : f'.idleReplicas.stored.countP (c.shared.cfg.expired currTs) +
          ((t.takes c.shared fn).countP (c.shared.cfg.expired currTs) +
            (t.sweeps c.shared fn).countP (c.shared.cfg.expired currTs)) =
          f.idleReplicas.stored.countP (c.shared.cfg.expired currTs) +
            (t.adds c.shared fn e).countP (c.shared.cfg.expired currTs) := by
        have := congrArg (Multiset.countP fun r => c.shared.cfg.expired currTs r = true) hbal
        simpa only [Multiset.countP_add, Multiset.coe_countP, Bool.decide_eq_true] using this
      have hturn := Thread.iterates_le c.shared fn currTs t
      dsimp only
      omega

/-! ### Runs -/

/-- **The runs in which the sweeps make progress** are those in which they find the deployed
objects: where the loop comes to an expired `LRU`, the object that it has captured is still deployed
under its name.

**Proof sketch.** A turn takes out if and only if the object is still deployed. Then a call of
`DeleteReplica` is paid with the place of the replica, and a turn with an expired replica. -/
theorem sweepsProgress_iff {cfg : Config} {storage : Storage} {now : Time} {w : World}
    (hstart : startProvider cfg storage now = .ok w) (events : List Event) :
    SweepsProgress ⟨w, []⟩ events ↔
      Runs.Along provider.step State.FindsDeployed ⟨w, []⟩ events := by
  have hiff : Runs.Along provider.step State.TakesOut ⟨w, []⟩ events ↔
      Runs.Along provider.step State.FindsDeployed ⟨w, []⟩ events :=
    Runs.along_congr (I := fun _ => True) (fun _ _ _ _ _ => trivial)
      (fun _ _ _ _ hstep => step_takesOut_iff hstep) trivial
  refine ⟨fun h => hiff.mp h.takesOut, fun h => ⟨hiff.mpr h, ?_, ?_⟩⟩
  · refine nodup_sweepDeletes (fun u => ?_) h
    have := (startProvider_fresh hstart).1.places_le_one false u
    simpa [State.hands, State.places, Config.ledger] using this
  · rintro before during after rfl c c' hbefore hduring fn currTs
    have hc : State.WellFormed c :=
      Reachable.wellFormed ⟨cfg, storage, now, w, before, hstart, hbefore⟩
    have hal : Runs.Along provider.step State.FindsDeployed c during := by
      rw [List.append_assoc] at h
      exact (h.of_append hbefore).left
    obtain ⟨c'', -, hlast, hle⟩ := Runs.tally_add_le (I := State.WellFormed)
      (fun _ _ _ hI _ hstep => step_wellFormed hI hstep)
      (fun _ _ _ hI hok hstep => step_turns_le hI hok hstep fn currTs) hc hal
    rw [hlast c' hduring]
    exact hle

/-- A pointer is current when the map has it under the name of its object. -/
lemma World.current_iff {w : World} {fn : Ref} :
    w.Current fn ↔
      ((w.heap[fn]?).any fun f => decide (w.deployedFunctions.lookup f.name = some fn)) = true := by
  simp only [World.Current, World.fn?_eq_some, Option.any_eq_true, decide_eq_true_eq]
  exact exists_congr fun f => and_congr_right fun hf => and_iff_left hf

/-- Whether it is can be looked up. -/
instance (w : World) : DecidablePred w.Current := fun _ => decidable_of_iff _ World.current_iff.symm

/-- Where the loop finds an expired `LRU`, the object is deployed. -/
lemma World.findsDeployed_pool_iff {w : World} {currTs : Time} {began visited : List Str}
    {fn : Ref} : (Thread.sweep (.pool currTs began visited fn)).FindsDeployed w ↔
      ((w.expiredLRU fn currTs).isSome → w.Current fn) := by
  constructor
  · intro h hsome
    obtain ⟨r, hr⟩ := Option.isSome_iff_exists.mp hsome
    obtain ⟨f, hf, hsweep⟩ := World.expiredLRU_eq_some.mp hr
    exact h f r hf hsweep
  · intro h f r hf hsweep
    exact h (by rw [World.expiredLRU_eq_some.mpr ⟨f, hf, hsweep⟩]; rfl)

/-- Whether a section finds its function deployed can be looked up. -/
instance (w : World) : DecidablePred (Thread.FindsDeployed w)
  | .sweep (.pool _ _ _ _) => decidable_of_iff _ World.findsDeployed_pool_iff.symm
  | .sweep .tryLock | .sweep (.range _ _ _) | .sweep (.del _ _ _ _ _) => isTrue trivial
  | .request _ _ | .spawn _ _ | .delete _ _ | .deploy _ | .updatePolicy _ _ | .returned
  | .panicked _ => isTrue trivial

/-- Whether a move does is asked of its section. -/
instance (c : State) : DecidablePred c.FindsDeployed
  | .arrive _ => isTrue trivial
  | .step i _ =>
    inferInstanceAs (Decidable (∀ t, c.threads[i]? = some t → t.FindsDeployed c.shared))

/-- Two replicas of `f` are idle. -/
def idleTwo : List Event :=
  deployF ∅ ++ invokeF 1 7 { uuid := "1".toList } ++ invokeF 2 12 { uuid := "2".toList } ++
    sections 1 5

/-- A sweep comes to `f` an hour later. -/
def sweepTwo : List Event :=
  idleTwo ++ [.arrive (.sweep .tryLock), .step 3 { now := 3600000000000 },
    .step 3 { entry := some "f".toList }]

/-- The sweep deletes both and returns. -/
theorem sweepsProgress_two : SweepsProgress ⟨smallWorld, []⟩ (sweepTwo ++ sections 3 4) :=
  (sweepsProgress_iff startProvider_small _).mpr (by decide +kernel)

/-- Sweeps that make progress delete the replicas of a name at most once. -/
lemma SweepsProgress.named_sweepDeletes_le {c₀ : State} {events : List Event}
    (h : SweepsProgress c₀ events) (u : Str) :
    Runs.tally provider.step (fun c m => named u (State.sweepDeletes c m)) c₀ events ≤ 1 := by
  obtain ⟨-, honce, -⟩ := h
  rw [← Runs.map_tally (named u) State.sweepDeletes, named_apply]
  exact_mod_cast Multiset.nodup_iff_count_le_one.mp honce u

/-- The function is deleted and deployed anew when the sweep has come to it; then the sweep goes
on. -/
def redeployDuringSweep : List Event :=
  sweepTwo ++ deleteF 4 4 ++ deployAs 5 "f".toList ∅ ++ sections 3 4

/-- The sweep deletes the replica twice. -/
lemma named_sweepDeletes_redeploy :
    Runs.tally provider.step (fun c m => named "f_2_n".toList (State.sweepDeletes c m))
      ⟨smallWorld, []⟩ redeployDuringSweep = 2 := by
  decide +kernel

/-- The sweep deletes the same replica again and again. -/
theorem not_sweepsProgress_redeploy : ¬ SweepsProgress ⟨smallWorld, []⟩ redeployDuringSweep :=
  fun h => absurd (h.named_sweepDeletes_le "f_2_n".toList)
    (by rw [named_sweepDeletes_redeploy]; decide)

end Fecore
