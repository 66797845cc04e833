import Mathlib.Algebra.Order.Group.Multiset
import Mathlib.Tactic.Common
import Fecore.Handlers.Deployments

set_option relaxedAutoImplicit false
set_option autoImplicit false

/-!
# What the sections do to one idle pool

The idle pool of one object of type `Function`, seen from the sections of all goroutines: some add a
replica, some take one, and a sweep removes one. What goes in and what comes out is told by the
store and the goroutine, before the section.

## Main definitions

* `Fecore.Thread.adds`, `Thread.takes` — the replicas that an invocation or a creation puts into the
  pool of an object, and takes from it.
* `Fecore.Thread.sweeps` — the replica that a sweep removes from the pool of the object it visits.

## Main results

* `Fecore.section_stored` — every section keeps a sublist of the queue, behind which stands what it
  adds.
* `Fecore.section_balance` — what is stored, taken and swept after a section is what was stored
  and added, when the pointer of the sweep is current.
-/

namespace Fecore

/-! ### In and out -/

/-- What `AddIdleReplica` puts into the pool of the object. -/
def World.givenTo (w : World) (o : Ref) (replica : Replica) (now : Time) : List Replica :=
  if (w.fn? replica.fname).map Prod.fst = some o then [replica.accessed now] else []

/-- What a section of a creation puts into the pool of the object. -/
def CreatePc.adds (w : World) (o : Ref) (e : Env) (setActive : Bool) : CreatePc → List Replica
  | .add replica => if setActive then [] else w.givenTo o replica e.now
  | _ => []

/-- What a section puts into the pool of the object. -/
def Thread.adds (w : World) (o : Ref) (e : Env) : Thread → List Replica
  | .request _ (.give replica) => w.givenTo o replica e.now
  | .request _ (.create fn pc) => pc.adds w o e fn.call.setActive
  | .spawn call pc => pc.adds w o e call.setActive
  | _ => []

/-- What `GetIdleReplica` takes from the pool of the object. -/
def World.takenFrom (w : World) (o : Ref) (fn : Str) : List Replica :=
  match w.fn? fn with
  | none => []
  | some (o', f) => if o' = o then (f.takeIdle.map Prod.fst).toList else []

/-- What an invocation takes from the pool of the object. -/
def Thread.takes (w : World) (o : Ref) : Thread → List Replica
  | .request _ (.idle fn) => w.takenFrom o fn.pool
  | _ => []

/-- The replica that a section of a sweep finds expired in the pool of the object, to remove it. -/
def World.sweptFrom (w : World) (o : Ref) (currTs : Time) : List Replica :=
  match w.heap[o]? with
  | none => []
  | some f =>
    match (f.idleReplicas.sweep w.cfg currTs).2 with
    | .lru r => [r]
    | .mru r => r.toList

/-- The replica that a sweep removes from the pool of the object, which it visits. -/
def Thread.sweeps (w : World) (o : Ref) : Thread → List Replica
  | .sweep (.pool currTs _ _ fn) => if fn = o then w.sweptFrom fn currTs else []
  | _ => []

/-- Where a sweep finds an expired `LRU`, the object that it visits is still deployed under its
name. -/
def Thread.FindsDeployed (w : World) : Thread → Prop
  | .sweep (.pool currTs _ _ fn) => ∀ f r, w.heap[fn]? = some f →
      (f.idleReplicas.sweep w.cfg currTs).2 = .lru r → w.Current fn
  | _ => True

/-- A sweep whose pointer still leads to the deployed object finds it. -/
lemma Thread.findsDeployed_of_current {w : World} {currTs : Time} {began visited : List Str}
    {fn : Ref} (h : w.Current fn) :
    (Thread.sweep (.pool currTs began visited fn)).FindsDeployed w :=
  fun _ _ _ _ => h

/-- The `LRU` that a sweep takes has expired. -/
lemma IdleReplicas.expired_of_sweep_lru {cfg : Config} {currTs : Time} {p : IdleReplicas}
    {r : Replica} (h : (p.sweep cfg currTs).2 = .lru r) : cfg.expired currTs r = true := by
  have hst := p.stored_sweep cfg currTs
  rcases hsw : p.sweep cfg currTs with ⟨p', s⟩
  rw [hsw] at h hst
  obtain rfl : s = .lru r := h
  exact hst.2

/-- The `MRU` that a sweep takes has expired. -/
lemma IdleReplicas.expired_of_sweep_mru {cfg : Config} {currTs : Time} {p : IdleReplicas}
    {r : Replica} (h : (p.sweep cfg currTs).2 = .mru (some r)) : cfg.expired currTs r = true := by
  have hst := p.stored_sweep cfg currTs
  rcases hsw : p.sweep cfg currTs with ⟨p', s⟩
  rw [hsw] at h hst
  obtain rfl : s = .mru (some r) := h
  exact hst.2

/-- A sweep finds expired replicas only. -/
lemma World.expired_of_mem_sweptFrom {w : World} {o : Ref} {currTs : Time} {r : Replica}
    (h : r ∈ w.sweptFrom o currTs) : w.cfg.expired currTs r = true := by
  unfold World.sweptFrom at h
  split at h
  · cases h
  · split at h
    · next hsweep =>
      rw [List.mem_singleton.mp h]
      exact IdleReplicas.expired_of_sweep_lru hsweep
    · next hsweep =>
      rw [Option.mem_toList.mp h] at hsweep
      exact IdleReplicas.expired_of_sweep_mru hsweep

/-! ### Objects -/

section Objects

variable {w w' : World} {o o₁ : Ref} {f f₁ : Function}

/-- An object after a write to an object. -/
lemma World.getElem?_setFn (ho : w.heap[o]? = some f) (ho₁ : w.heap[o₁]? = some f₁)
    (f₁' : Function) : (w.setFn o₁ f₁').heap[o]? = some (if o₁ = o then f₁' else f) := by
  have hlt : o₁ < w.heap.length := (List.getElem?_eq_some_iff.mp ho₁).1
  by_cases heq : o₁ = o
  · subst heq
    rw [World.setFn, List.getElem?_set_self hlt, if_pos rfl]
  · rw [World.setFn, List.getElem?_set_ne heq, ho, if_neg heq]

/-- The object is the one that has been found, or another one. -/
lemma World.eq_of_getElem? (ho : w.heap[o]? = some f) (ho₁ : w.heap[o₁]? = some f₁)
    (heq : o₁ = o) : f₁ = f := by
  subst heq
  exact Option.some.inj (ho₁.symm.trans ho)

/-- `AddIdleReplica` puts the replica into the pool of the object it finds. -/
lemma World.givenTo_of_fn? {replica : Replica} (hf : w.fn? replica.fname = some (o₁, f₁))
    (now : Time) : w.givenTo o replica now = if o₁ = o then [replica.accessed now] else [] := by
  rw [World.givenTo, hf]
  by_cases heq : o₁ = o
  · rw [if_pos heq, if_pos (by rw [heq]; rfl)]
  · rw [if_neg heq, if_neg (by simpa using heq)]

/-- Where it finds no function it puts it nowhere. -/
lemma World.givenTo_of_none {replica : Replica} (hf : w.fn? replica.fname = none) (now : Time) :
    w.givenTo o replica now = [] := by
  rw [World.givenTo, hf]
  rfl

/-- `GetIdleReplica` takes from the pool of the object it finds. -/
lemma World.takenFrom_of_fn? {fn : Str} (hf : w.fn? fn = some (o₁, f₁)) :
    w.takenFrom o fn = if o₁ = o then (f₁.takeIdle.map Prod.fst).toList else [] := by
  rw [World.takenFrom, hf]

/-- Where it finds no function it takes nothing. -/
lemma World.takenFrom_of_none {fn : Str} (hf : w.fn? fn = none) : w.takenFrom o fn = [] := by
  rw [World.takenFrom, hf]

/-- **The pool of an object after a write** to the pool of an object. -/
lemma World.stored_setFn (takes adds : List Replica) (f₁' : Function)
    (ho : w.heap[o]? = some f) (ho₁ : w.heap[o₁]? = some f₁) (hname : f₁'.name = f₁.name)
    (h : f₁'.idleReplicas.stored ++ takes = f₁.idleReplicas.stored ++ adds) :
    ∃ f', (w.setFn o₁ f₁').heap[o]? = some f' ∧ f'.name = f.name ∧
      f'.idleReplicas.stored ++ (if o₁ = o then takes else []) =
        f.idleReplicas.stored ++ if o₁ = o then adds else [] := by
  refine ⟨_, World.getElem?_setFn ho ho₁ f₁', ?_⟩
  by_cases heq : o₁ = o
  · obtain rfl := World.eq_of_getElem? ho ho₁ heq
    simp only [if_pos heq]
    exact ⟨hname, h⟩
  · simp only [if_neg heq]
    exact ⟨trivial, trivial⟩

end Objects

/-! ### Creations and invocations -/

/-- What a section of a creation does to the pool of an object.

**Proof sketch.** Only the last section writes to an object. It adds the replica to the active ones
or, at the end, to the idle ones (`IdleReplicas.stored_add`), and writes to no other object
(`World.stored_setFn`). -/
lemma createSection_stored {w w' : World} {call : CreateCall} {e : Env} {pc : CreatePc}
    {result : CreateResult} (hsec : CreateSection w call e pc w' result) {o : Ref} {f : Function}
    (ho : w.heap[o]? = some f) :
    ∃ f', w'.heap[o]? = some f' ∧ f'.name = f.name ∧
      f'.idleReplicas.stored = f.idleReplicas.stored ++ pc.adds w o e call.setActive := by
  cases hsec with
  | @addActive replica o₁ f₁ n hact hf hstats =>
    rw [CreatePc.adds, if_pos hact]
    simpa using World.stored_setFn [] [] { f₁ with
      activeReplicas := f₁.activeReplicas.insert replica.uuid replica } ho
      (World.heap_of_fn? hf) rfl rfl
  | @noStats replica o₁ f₁ hact hf =>
    rw [CreatePc.adds, if_pos hact]
    simpa using World.stored_setFn [] [] { f₁ with
      activeReplicas := f₁.activeReplicas.insert replica.uuid replica } ho
      (World.heap_of_fn? hf) rfl rfl
  | @addIdle replica o₁ f₁ hact hf =>
    rw [CreatePc.adds, if_neg (by simp [hact]), World.givenTo_of_fn? hf]
    simpa using World.stored_setFn [] [replica.accessed e.now] { f₁ with
      idleReplicas := f₁.idleReplicas.add replica e.now } ho (World.heap_of_fn? hf) rfl
      (by rw [IdleReplicas.stored_add, List.append_nil])
  | addAbsent hf =>
    refine ⟨f, ho, rfl, ?_⟩
    rw [CreatePc.adds, World.givenTo_of_none hf, ite_self, List.append_nil]
  | _ => exact ⟨f, ho, rfl, (List.append_nil _).symm⟩

/-- **What a section of an invocation does to the pool of an object.**

**Proof sketch.** Case split on the section. The look-up of an idle replica takes the one that
`takeIdle` finds (`Function.takeIdle_spec`) and the return adds one at the end
(`IdleReplicas.stored_add`); a write to another object changes nothing here
(`World.stored_setFn`). -/
lemma requestSection_stored {w w' : World} {req : Request} {e : Env} {pc : RequestPc}
    {t' : Thread} {new : List Thread} (hsec : RequestSection w req e pc w' t' new) {o : Ref}
    {f : Function} (ho : w.heap[o]? = some f) :
    ∃ f', w'.heap[o]? = some f' ∧ f'.name = f.name ∧
      f'.idleReplicas.stored ++ (Thread.request req pc).takes w o =
        f.idleReplicas.stored ++ (Thread.request req pc).adds w o e := by
  cases hsec with
  | @idleAbsent fn hf =>
    refine ⟨f, ho, rfl, ?_⟩
    rw [Thread.takes, World.takenFrom_of_none hf]
    rfl
  | @idleNone fn o₁ f₁ hf htake =>
    refine ⟨f, ho, rfl, ?_⟩
    rw [Thread.takes, World.takenFrom_of_fn? hf, htake, Option.map_none, Option.toList_none,
      ite_self]
    rfl
  | @idle fn o₁ f₁ f₁' replica hf htake =>
    obtain ⟨hst, -, hrest⟩ := Function.takeIdle_spec htake
    have hname : f₁'.name = f₁.name := by rw [hrest]
    rw [Thread.takes, World.takenFrom_of_fn? hf, htake, Option.map_some, Option.toList_some]
    simpa [Thread.adds] using World.stored_setFn [replica] [] f₁' ho
      (World.heap_of_fn? hf) hname (by rw [hst, List.append_nil])
  | @create fn pc _ result hsec =>
    obtain ⟨f', hf', hname, hst⟩ := createSection_stored hsec ho
    exact ⟨f', hf', hname, (List.append_nil _).trans hst⟩
  | @take effectiveFname replicaName o₁ f₁ hf =>
    simpa [Thread.takes, Thread.adds] using World.stored_setFn [] [] { f₁ with
      activeReplicas := f₁.activeReplicas.erase replicaName } ho (World.heap_of_fn? hf) rfl rfl
  | giveAbsent hf =>
    refine ⟨f, ho, rfl, ?_⟩
    rw [Thread.adds, World.givenTo_of_none hf]
    rfl
  | @give replica o₁ f₁ hf =>
    rw [Thread.adds, World.givenTo_of_fn? hf]
    simpa [Thread.takes] using World.stored_setFn [] [replica.accessed e.now] { f₁ with
      idleReplicas := f₁.idleReplicas.add replica e.now } ho (World.heap_of_fn? hf) rfl
      (by rw [IdleReplicas.stored_add, List.append_nil])
  | del hdel =>
    exact ⟨f, by rw [(World.sameStore_of_deleteReplica hdel).heap, ho], rfl, rfl⟩
  | delFault hdel =>
    exact ⟨f, by rw [(World.sameStore_of_deleteReplica hdel).heap, ho], rfl, rfl⟩
  | _ => exact ⟨f, ho, rfl, rfl⟩

/-! ### Sweeps -/

/-- A sweep leaves a sublist of the pool of an object, which need not be the one it visits.

**Proof sketch.** A section that writes to an object leaves a part of its pool, and the object may
be this one or another. -/
lemma sweepSection_stored {w w' : World} {e : Env} {pc : SweepPc} {t' : Thread}
    (hsec : SweepSection w e pc w' t') {o : Ref} {f : Function} (ho : w.heap[o]? = some f) :
    ∃ f', w'.heap[o]? = some f' ∧ f'.name = f.name ∧
      f'.idleReplicas.stored.Sublist f.idleReplicas.stored := by
  -- a write of a pool that has fewer replicas
  have hset : ∀ {o₁ : Ref} {f₁ f₁' : Function}, w.heap[o₁]? = some f₁ → f₁'.name = f₁.name →
      f₁'.idleReplicas.stored.Sublist f₁.idleReplicas.stored →
      ∃ f', (w.setFn o₁ f₁').heap[o]? = some f' ∧ f'.name = f.name ∧
        f'.idleReplicas.stored.Sublist f.idleReplicas.stored := by
    intro o₁ f₁ f₁' ho₁ hname hsub
    refine ⟨_, World.getElem?_setFn ho ho₁ f₁', ?_⟩
    by_cases heq : o₁ = o
    · obtain rfl := World.eq_of_getElem? ho ho₁ heq
      rw [if_pos heq]
      exact ⟨hname, hsub⟩
    · rw [if_neg heq]
      exact ⟨rfl, List.Sublist.refl _⟩
  cases hsec with
  | lru hheap hsweep hf =>
    exact hset (World.heap_of_fn? hf) rfl (IdleReplicas.stored_remove_suffix _).sublist
  | mru hheap hsweep hdel =>
    rw [(World.sameStore_of_deleteReplica hdel).heap]
    exact hset hheap rfl (by
      rw [IdleReplicas.stored_of_sweep_mru hsweep]
      exact List.sublist_append_left _ _)
  | mruFault hheap hsweep hdel =>
    rw [(World.sameStore_of_deleteReplica hdel).heap]
    exact hset hheap rfl (by
      rw [IdleReplicas.stored_of_sweep_mru hsweep]
      exact List.sublist_append_left _ _)
  | del hdel =>
    exact ⟨f, by rw [(World.sameStore_of_deleteReplica hdel).heap, ho], rfl, List.Sublist.refl _⟩
  | delFault hdel =>
    exact ⟨f, by rw [(World.sameStore_of_deleteReplica hdel).heap, ho], rfl, List.Sublist.refl _⟩
  | _ => exact ⟨f, ho, rfl, List.Sublist.refl _⟩

/-- The pool of an object after a write that takes a replica from the pool of an object. -/
lemma World.balance_setFn {w : World} {o fn : Ref} {f g g' : Function} {r : Replica}
    (ho : w.heap[o]? = some f) (hg : w.heap[fn]? = some g) (hname : g'.name = g.name)
    (h : (g'.idleReplicas.stored : Multiset Replica) + {r} = g.idleReplicas.stored) :
    ∃ f', (w.setFn fn g').heap[o]? = some f' ∧ f'.name = f.name ∧
      (f'.idleReplicas.stored : Multiset Replica) + ((if fn = o then [r] else [] : List Replica)) =
        f.idleReplicas.stored := by
  refine ⟨_, World.getElem?_setFn ho hg g', ?_⟩
  by_cases heq : fn = o
  · obtain rfl := World.eq_of_getElem? ho hg heq
    rw [if_pos heq, if_pos heq]
    exact ⟨hname, h⟩
  · rw [if_neg heq, if_neg heq]
    exact ⟨rfl, add_zero (f.idleReplicas.stored : Multiset Replica)⟩

/-- A section of a sweep on the pool of an object that is deployed. -/
inductive PoolSection (w : World) (e : Env) (currTs : Time) (began visited : List Str) (fn : Ref)
    (f : Function) : World → Thread → Prop
  | lru {replica : Replica} (hsweep : (f.idleReplicas.sweep w.cfg currTs).2 = .lru replica) :
      PoolSection w e currTs began visited fn f
        (w.setFn fn { f with idleReplicas := f.idleReplicas.remove })
        (.sweep (.del currTs began visited fn replica))
  | mru {replica : Replica} {w' : World}
      (hsweep : (f.idleReplicas.sweep w.cfg currTs).2 = .mru (some replica))
      (hdel : (w.setFn fn { f with
        idleReplicas := { f.idleReplicas with mru := none } }).deleteReplica
          (e.answers replica.uuid) replica = (w', none)) :
      PoolSection w e currTs began visited fn f w' (.sweep (.range currTs began visited))
  | mruFault {replica : Replica} {w' : World} {fault : Fault}
      (hsweep : (f.idleReplicas.sweep w.cfg currTs).2 = .mru (some replica))
      (hdel : (w.setFn fn { f with
        idleReplicas := { f.idleReplicas with mru := none } }).deleteReplica
          (e.answers replica.uuid) replica = (w', some fault)) :
      PoolSection w e currTs began visited fn f { w' with cleanupMu := false } (.panicked fault)
  | fresh (hsweep : (f.idleReplicas.sweep w.cfg currTs).2 = .mru none) :
      PoolSection w e currTs began visited fn f w (.sweep (.range currTs began visited))

/-- **What a section on a pool does**, when the sweep finds the deployed object: removing by name it
removes from the object that it tests.

**Proof sketch.** Case split on what the sweep finds in the pool. An expired LRU is removed by name,
which is from the same object by hypothesis; the other results are those of the definition. -/
lemma sweepNext_pool_cases {w w' : World} {e : Env} {currTs : Time} {began visited : List Str}
    {fn : Ref} {t' : Thread} (h : sweepNext w (.pool currTs began visited fn) e = some (w', t'))
    (hcur : (Thread.sweep (.pool currTs began visited fn)).FindsDeployed w) :
    ∃ f, w.heap[fn]? = some f ∧ PoolSection w e currTs began visited fn f w' t' := by
  cases hf : w.heap[fn]? with
  | none => simp [sweepNext, hf] at h
  | some f =>
    refine ⟨f, rfl, ?_⟩
    cases hsweep : (f.idleReplicas.sweep w.cfg currTs).2 with
    | lru r =>
      obtain ⟨f₁, hf₁, hfn⟩ := hcur f r hf hsweep
      obtain rfl := Option.some.inj (hf₁.symm.trans hf)
      simp only [sweepNext, hf, hsweep, World.removeIdleReplica, hfn] at h
      cases h
      exact .lru hsweep
    | mru r =>
      cases r with
      | none =>
        simp only [sweepNext, hf, hsweep] at h
        cases h
        exact .fresh hsweep
      | some r =>
        simp only [sweepNext, hf, hsweep] at h
        split at h
        · next hdel =>
          cases h
          exact .mru hsweep hdel
        · next hdel =>
          cases h
          exact .mruFault hsweep hdel

/-- What a sweep finds in the pool of the object. -/
lemma World.sweptFrom_of_heap {w : World} {fn : Ref} {f : Function} (hf : w.heap[fn]? = some f)
    (currTs : Time) : w.sweptFrom fn currTs =
      match (f.idleReplicas.sweep w.cfg currTs).2 with
      | .lru r => [r]
      | .mru r => r.toList := by
  rw [World.sweptFrom, hf]

/-- **What a sweep removes**: the replica that it has found, when its pointer is current.

**Proof sketch.** Only the section on a pool removes anything (`sweepNext_pool_cases`): the replica
at the end of the queue, or MRU. The others leave the objects as they are. -/
lemma sweepNext_balance {w w' : World} {e : Env} {pc : SweepPc} {t' : Thread}
    (h : sweepNext w pc e = some (w', t')) (hcur : (Thread.sweep pc).FindsDeployed w) {o : Ref}
    {f : Function} (ho : w.heap[o]? = some f) :
    ∃ f', w'.heap[o]? = some f' ∧ f'.name = f.name ∧
      (f'.idleReplicas.stored : Multiset Replica) + ((Thread.sweep pc).sweeps w o) =
        f.idleReplicas.stored := by
  have hsame : ∀ {w₁ : World}, w₁.heap = w.heap → ∃ f', w₁.heap[o]? = some f' ∧
      f'.name = f.name ∧
        (f'.idleReplicas.stored : Multiset Replica) + ([] : List Replica) =
          f.idleReplicas.stored :=
    fun heap => ⟨f, by rw [heap, ho], rfl, add_zero (f.idleReplicas.stored : Multiset Replica)⟩
  cases pc with
  | tryLock =>
    cases sweepNext_cases h with
    | locked => exact hsame rfl
    | lock => exact hsame rfl
  | range currTs began visited =>
    cases sweepNext_cases h with
    | visit => exact hsame rfl
    | done => exact hsame rfl
  | del currTs began visited fn replica =>
    cases sweepNext_cases h with
    | del hdel => exact hsame (World.sameStore_of_deleteReplica hdel).heap
    | delFault hdel => exact hsame (World.sameStore_of_deleteReplica hdel).heap
  | pool currTs began visited fn =>
    obtain ⟨g, hg, hpool⟩ := sweepNext_pool_cases h hcur
    rw [Thread.sweeps, World.sweptFrom_of_heap hg]
    cases hpool with
    | lru hsweep =>
      rw [hsweep]
      refine World.balance_setFn ho hg rfl ?_
      rw [IdleReplicas.stored_of_sweep_lru hsweep, ← Multiset.cons_coe, ← Multiset.singleton_add,
        add_comm]
    | mru hsweep hdel =>
      rw [hsweep, (World.sameStore_of_deleteReplica hdel).heap]
      refine World.balance_setFn ho hg rfl ?_
      rw [IdleReplicas.stored_of_sweep_mru hsweep]
      rfl
    | mruFault hsweep hdel =>
      rw [hsweep, (World.sameStore_of_deleteReplica hdel).heap]
      refine World.balance_setFn ho hg rfl ?_
      rw [IdleReplicas.stored_of_sweep_mru hsweep]
      rfl
    | fresh hsweep =>
      simp only [hsweep, Option.toList_none, ite_self]
      exact hsame rfl

/-! ### All sections -/

section Sections

variable {w w' : World} {e : Env} {t t' : Thread} {new : List Thread} {o : Ref} {f : Function}

/-- A section of neither an invocation nor a creation nor a sweep leaves the pool of an object as it
is.

**Proof sketch.** Case split on the section. The deletions keep the objects, a deployment appends
one, and a change of policy writes to the policy alone. -/
lemma section_stored_eq (hsec : Section w e t w' t' new) (ho : w.heap[o]? = some f)
    (hreq : ∀ req pc, t ≠ .request req pc) (hspawn : ∀ call pc, t ≠ .spawn call pc)
    (hsweep : ∀ pc, t ≠ .sweep pc) :
    ∃ f', w'.heap[o]? = some f' ∧ f'.name = f.name ∧
      f'.idleReplicas.stored = f.idleReplicas.stored := by
  cases hsec with
  | request hsec => exact absurd rfl (hreq _ _)
  | spawn hsec => exact absurd rfl (hspawn _ _)
  | sweep hsec => exact absurd rfl (hsweep _)
  | deleteAll hdel =>
    exact ⟨f, by rw [(World.sameStore_of_deleteAllReplicas hdel).heap, ho], rfl, rfl⟩
  | deleteAllFault hdel =>
    exact ⟨f, by rw [(World.sameStore_of_deleteAllReplicas hdel).heap, ho], rfl, rfl⟩
  | insert hdeploy hins =>
    obtain ⟨-, rows, rfl⟩ := World.insertFunction_eq hins
    exact ⟨f, ho, rfl, rfl⟩
  | map =>
    have hlt : o < w.heap.length := (List.getElem?_eq_some_iff.mp ho).1
    exact ⟨f, by rw [World.putFunction, List.getElem?_append_left hlt, ho], rfl, rfl⟩
  | @policy fn updated o₁ f₁ hf =>
    simpa using World.stored_setFn [] [] { f₁ with
      policy := World.updatedPolicy f₁.policy updated } ho (World.heap_of_fn? hf) rfl rfl
  | _ => exact ⟨f, ho, rfl, rfl⟩

/-- **Every section keeps a sublist of the queue**, behind which stands what it adds.

**Proof sketch.** Case split on the thread. An invocation and a creation take and add as their own
lemmas say, a sweep leaves a sublist, and the other threads do not touch the pools
(`section_stored_eq`). -/
theorem section_stored (hsec : Section w e t w' t' new) (ho : w.heap[o]? = some f) :
    ∃ f', w'.heap[o]? = some f' ∧ f'.name = f.name ∧
      f'.idleReplicas.stored.Sublist (f.idleReplicas.stored ++ t.adds w o e) := by
  cases t with
  | request req pc =>
    cases hsec with
    | request hsec =>
      obtain ⟨f', hf', hname, hst⟩ := requestSection_stored hsec ho
      exact ⟨f', hf', hname, hst ▸ List.sublist_append_left _ _⟩
  | spawn call pc =>
    cases hsec with
    | spawn hsec =>
      obtain ⟨f', hf', hname, hst⟩ := createSection_stored hsec ho
      exact ⟨f', hf', hname, hst ▸ List.Sublist.refl _⟩
  | sweep pc =>
    cases hsec with
    | sweep hsec =>
      obtain ⟨f', hf', hname, hst⟩ := sweepSection_stored hsec ho
      exact ⟨f', hf', hname, hst.trans (List.sublist_append_left _ _)⟩
  | _ =>
    obtain ⟨f', hf', hname, hst⟩ := section_stored_eq hsec ho (fun _ _ => by simp)
      (fun _ _ => by simp) (fun _ => by simp)
    exact ⟨f', hf', hname, hst ▸ List.sublist_append_left _ _⟩

/-- **The balance of a pool**: what is stored, taken and swept after a section is what was stored
and added, when a sweep finds the deployed object.

**Proof sketch.** An addition and a removal concern the pool of the object that the name leads to; a
sweep removes by name what it has found by the pointer. -/
theorem section_balance (h : provider.next w t e = some (w', t', new)) (hcur : t.FindsDeployed w)
    (ho : w.heap[o]? = some f) :
    ∃ f', w'.heap[o]? = some f' ∧ f'.name = f.name ∧
      (f'.idleReplicas.stored : Multiset Replica) + (t.takes w o + t.sweeps w o) =
        f.idleReplicas.stored + t.adds w o e := by
  have hsec := next_cases h
  cases t with
  | request req pc =>
    cases hsec with
    | request hsec =>
      obtain ⟨f', hf', hname, hst⟩ := requestSection_stored hsec ho
      refine ⟨f', hf', hname, ?_⟩
      have := congrArg (fun l : List Replica => (l : Multiset Replica)) hst
      simpa [Thread.sweeps, Multiset.coe_add] using this
  | spawn call pc =>
    cases hsec with
    | spawn hsec =>
      obtain ⟨f', hf', hname, hst⟩ := createSection_stored hsec ho
      refine ⟨f', hf', hname, ?_⟩
      rw [hst]
      simp [Thread.takes, Thread.sweeps, Thread.adds, Multiset.coe_add]
  | sweep pc =>
    simp only [provider, Thread.next, Option.map_eq_some_iff] at h
    obtain ⟨⟨w₁, t₁⟩, hnext, heq⟩ := h
    cases heq
    obtain ⟨f', hf', hname, hst⟩ := sweepNext_balance hnext hcur ho
    refine ⟨f', hf', hname, ?_⟩
    simpa [Thread.takes, Thread.adds] using hst
  | _ =>
    obtain ⟨f', hf', hname, hst⟩ := section_stored_eq hsec ho (fun _ _ => by simp)
      (fun _ _ => by simp) (fun _ => by simp)
    refine ⟨f', hf', hname, ?_⟩
    rw [hst]
    rfl

/-- A new object is one that is deployed.

**Proof sketch.** The other sections keep the specifications of the objects, so they make none
(`World.SameSpecs`). -/
lemma section_newObject (hsec : Section w e t w' t' new) (ho : w.heap[o]? = none)
    (ho' : w'.heap[o]? = some f) : t = .deploy (.map f) := by
  have hspecs : ¬ World.SameSpecs w w' := by
    intro h
    have := h.specs o
    rw [ho, ho'] at this
    cases this
  cases hsec with
  | request hsec => exact absurd (requestSection_sameSpecs hsec) hspecs
  | spawn hsec => exact absurd (createSection_sameSpecs hsec) hspecs
  | sweep hsec => exact absurd (sweepSection_sameSpecs hsec) hspecs
  | deleteAll hdel =>
    exact absurd (.of_sameStore (World.sameStore_of_deleteAllReplicas hdel)) hspecs
  | deleteAllFault hdel =>
    exact absurd (.of_sameStore (World.sameStore_of_deleteAllReplicas hdel)) hspecs
  | insert hdeploy hins =>
    obtain ⟨-, rows, rfl⟩ := World.insertFunction_eq hins
    exact absurd (ho.symm.trans ho') (by simp)
  | @map fn =>
    have hle : w.heap.length ≤ o := List.getElem?_eq_none_iff.mp ho
    rw [World.putFunction, List.getElem?_append_right hle, List.getElem?_singleton] at ho'
    split at ho'
    · rw [Option.some.inj ho']
    · cases ho'
  | policy hf =>
    have hlt := (List.getElem?_eq_some_iff.mp ho').1
    rw [World.setFn, List.length_set] at hlt
    exact absurd (List.getElem?_eq_none_iff.mp ho) (by omega)
  | _ => exact absurd (ho.symm.trans ho') (by simp)

/-- A creation leaves the configuration as it is. -/
lemma createSection_cfg {call : CreateCall} {pc : CreatePc} {result : CreateResult}
    (hsec : CreateSection w call e pc w' result) : w'.cfg = w.cfg := by
  cases hsec <;> rfl

/-- No section changes the configuration.

**Proof sketch.** Case split on the section; the deletion of replicas keeps the configuration with
the store. -/
lemma section_cfg (hsec : Section w e t w' t' new) : w'.cfg = w.cfg := by
  cases hsec with
  | request hsec =>
    cases hsec with
    | create hsec => exact createSection_cfg hsec
    | del hdel => exact (World.sameStore_of_deleteReplica hdel).cfg
    | delFault hdel => exact (World.sameStore_of_deleteReplica hdel).cfg
    | _ => rfl
  | spawn hsec => exact createSection_cfg hsec
  | sweep hsec =>
    cases hsec with
    | mru hheap hsweep hdel => exact (World.sameStore_of_deleteReplica hdel).cfg
    | mruFault hheap hsweep hdel => exact (World.sameStore_of_deleteReplica hdel).cfg
    | del hdel => exact (World.sameStore_of_deleteReplica hdel).cfg
    | delFault hdel => exact (World.sameStore_of_deleteReplica hdel).cfg
    | _ => rfl
  | deleteAll hdel => exact (World.sameStore_of_deleteAllReplicas hdel).cfg
  | deleteAllFault hdel => exact (World.sameStore_of_deleteAllReplicas hdel).cfg
  | insert hdeploy hins =>
    obtain ⟨-, rows, rfl⟩ := World.insertFunction_eq hins
    rfl
  | _ => rfl

end Sections

end Fecore
