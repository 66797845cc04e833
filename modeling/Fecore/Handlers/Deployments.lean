import Mathlib.Algebra.Order.BigOperators.Group.List
import Mathlib.Algebra.Order.Group.Int
import Mathlib.Tactic.Common
import Fecore.Handlers.Ownership

set_option relaxedAutoImplicit false
set_option autoImplicit false

/-!
# Which functions are deployed

Only deploy and delete requests change what is deployed. As long as no function is deleted, a
function is deployed in one object for good: its row keeps a second deployment out, and the
pointer of a sweep stays current.

## Main definitions

* `Fecore.Function.spec`, `Fecore.World.SameSpecs` — a function without its replicas; two stores
  have the same functions deployed, up to their replicas.
* `Fecore.World.SameNames` — two stores have the same functions deployed in the same objects.
* `Fecore.State.rows` — the ledger of a function's row.

## Main results

* `Fecore.requestSection_sameSpecs`, `sweepSection_sameSpecs` — invocations and sweeps deploy
  and delete nothing, and move replicas only.
* `Fecore.section_rows_le` — while no function is deleted, a deployed function and a pending
  deployment have a row each.
-/

namespace Fecore

/-- A write that keeps what `g` reads off an object keeps it for all objects. -/
lemma World.map_setFn {α : Type*} (g : Function → α) {w : World} {o : Ref} {f f' : Function}
    (ho : w.heap[o]? = some f) (hg : g f' = g f) (o' : Ref) :
    ((w.setFn o f').heap[o']?).map g = (w.heap[o']?).map g := by
  by_cases heq : o = o'
  · subst heq
    have hlt : o < w.heap.length := (List.getElem?_eq_some_iff.mp ho).1
    rw [World.setFn, List.getElem?_set_self hlt, ho, Option.map_some, Option.map_some, hg]
  · rw [World.setFn, List.getElem?_set_ne heq]

/-- The function without its replicas. -/
def Function.spec (f : Function) : Function := { f with activeReplicas := ∅, idleReplicas := {} }

/-- The same functions are deployed in the same objects, up to their replicas, and the tables
agree. -/
structure World.SameSpecs (w w' : World) : Prop where
  deployedFunctions : w'.deployedFunctions = w.deployedFunctions
  functionTable : w'.functionTable = w.functionTable
  specs : ∀ o : Ref, (w'.heap[o]?).map Function.spec = (w.heap[o]?).map Function.spec

namespace World.SameSpecs

variable {w w' w'' : World}

/-- A store agrees with itself. -/
lemma refl (w : World) : SameSpecs w w := ⟨rfl, rfl, fun _ => rfl⟩

/-- Agreement goes both ways. -/
lemma symm (h : SameSpecs w w') : SameSpecs w' w := ⟨h.1.symm, h.2.symm, fun o => (h.3 o).symm⟩

/-- Two changes of replicas are one. -/
lemma trans (h : SameSpecs w w') (h' : SameSpecs w' w'') : SameSpecs w w'' :=
  ⟨h'.1.trans h.1, h'.2.trans h.2, fun o => (h'.3 o).trans (h.3 o)⟩

/-- A deletion of a replica deploys and deletes nothing. -/
lemma of_sameStore (h : SameStore w w') : SameSpecs w w' :=
  ⟨h.deployedFunctions, h.functionTable, fun o => by rw [h.heap]⟩

/-- An update of the replicas of a function deploys and deletes nothing. -/
lemma setFn {o : Ref} {f f' : Function} (ho : w.heap[o]? = some f) (hspec : f'.spec = f.spec) :
    SameSpecs w (w.setFn o f') := ⟨rfl, rfl, World.map_setFn Function.spec ho hspec⟩

/-- The look-up of a name finds the same object. -/
lemma fn?_eq_some {name : Str} {o : Ref} {f : Function} (h : SameSpecs w w')
    (hf : w.fn? name = some (o, f)) : ∃ f', w'.fn? name = some (o, f') ∧ f'.spec = f.spec := by
  obtain ⟨hmap, ho⟩ := World.fn?_eq_some.mp hf
  have hspec := h.specs o
  rw [ho, Option.map_some, Option.map_eq_some_iff] at hspec
  obtain ⟨f', ho', hspec⟩ := hspec
  exact ⟨f', World.fn?_eq_some.mpr ⟨by rw [h.deployedFunctions, hmap], ho'⟩, hspec⟩

/-- A deployed function stays deployed. -/
lemma isSome {name : Str} (h : SameSpecs w w') (hf : (w.fn? name).isSome) :
    (w'.fn? name).isSome := by
  obtain ⟨⟨o, f⟩, hf⟩ := Option.isSome_iff_exists.mp hf
  obtain ⟨f', hf', -⟩ := h.fn?_eq_some hf
  rw [hf']
  rfl

end World.SameSpecs

open World (SameSpecs)

/-- A creation deploys and deletes nothing. -/
lemma createSection_sameSpecs {w w' : World} {call : CreateCall} {e : Env} {pc : CreatePc}
    {result : CreateResult} (hsec : CreateSection w call e pc w' result) : SameSpecs w w' := by
  cases hsec with
  | @addActive replica o f n hact hf hstats =>
    have hset : SameSpecs w (w.setFn o { f with
        activeReplicas := f.activeReplicas.insert replica.uuid replica }) :=
      .setFn (World.heap_of_fn? hf) rfl
    exact ⟨hset.1, hset.2, hset.3⟩
  | noStats hact hf => exact .setFn (World.heap_of_fn? hf) rfl
  | addIdle hact hf => exact .setFn (World.heap_of_fn? hf) rfl
  | _ => exact ⟨rfl, rfl, fun _ => rfl⟩

/-- An invocation deploys and deletes nothing, and moves replicas only.

**Proof sketch.** Case split on the section. Those that write a function put it back with its
replicas moved; a deletion leaves the store; the others leave it too. -/
lemma requestSection_sameSpecs {w w' : World} {req : Request} {e : Env} {pc : RequestPc}
    {t' : Thread} {new : List Thread} (hsec : RequestSection w req e pc w' t' new) :
    SameSpecs w w' := by
  cases hsec with
  | idle hf htake =>
    have hspec : ∀ {f f' : Function} {r : Replica}, f.takeIdle = some (r, f') →
        f'.spec = f.spec := by
      intro f f' r h
      rw [(Function.takeIdle_spec h).2.2]
      rfl
    exact .setFn (World.heap_of_fn? hf) (hspec htake)
  | create hsec => exact createSection_sameSpecs hsec
  | take hf => exact .setFn (World.heap_of_fn? hf) rfl
  | give hf => exact .setFn (World.heap_of_fn? hf) rfl
  | del hdel => exact .of_sameStore (World.sameStore_of_deleteReplica hdel)
  | delFault hdel => exact .of_sameStore (World.sameStore_of_deleteReplica hdel)
  | _ => exact .refl w

/-- A sweep deploys and deletes nothing, and moves replicas only.

**Proof sketch.** Case split on the section. One of an expired replica writes the pool and then
deletes the replica, which leaves the store. -/
lemma sweepSection_sameSpecs {w w' : World} {e : Env} {pc : SweepPc} {t' : Thread}
    (hsec : SweepSection w e pc w' t') : SameSpecs w w' := by
  cases hsec with
  | lru hheap hsweep hf => exact .setFn (World.heap_of_fn? hf) rfl
  | mru hheap hsweep hdel =>
    refine SameSpecs.trans ?_ (.of_sameStore (World.sameStore_of_deleteReplica hdel))
    exact .setFn hheap rfl
  | mruFault hheap hsweep hdel =>
    have hset : SameSpecs w _ := SameSpecs.trans (SameSpecs.setFn hheap ?_)
      (.of_sameStore (World.sameStore_of_deleteReplica hdel))
    · exact ⟨hset.1, hset.2, hset.3⟩
    · rfl
  | del hdel => exact .of_sameStore (World.sameStore_of_deleteReplica hdel)
  | delFault hdel =>
    exact (SameSpecs.of_sameStore (World.sameStore_of_deleteReplica hdel)).trans
      ⟨rfl, rfl, fun _ => rfl⟩
  | _ => exact ⟨rfl, rfl, fun _ => rfl⟩

/-! ### Names -/

/-- The same functions are deployed in the same objects, and the tables agree. -/
structure World.SameNames (w w' : World) : Prop where
  deployedFunctions : w'.deployedFunctions = w.deployedFunctions
  functionTable : w'.functionTable = w.functionTable
  names : ∀ o : Ref, (w'.heap[o]?).map Function.name = (w.heap[o]?).map Function.name

namespace World.SameNames

variable {w w' w'' : World}

/-- A store has its own names. -/
lemma refl (w : World) : SameNames w w := ⟨rfl, rfl, fun _ => rfl⟩

/-- What changes replicas only keeps the names. -/
lemma of_sameSpecs (h : SameSpecs w w') : SameNames w w' := by
  refine ⟨h.deployedFunctions, h.functionTable, fun o => ?_⟩
  have hname : Function.name = Function.name ∘ Function.spec := rfl
  rw [hname, ← Option.map_map, ← Option.map_map, h.specs o]

/-- A deletion of a replica keeps the names. -/
lemma of_sameStore (h : SameStore w w') : SameNames w w' := .of_sameSpecs (.of_sameStore h)

/-- An update of a function that keeps its name keeps the names. -/
lemma setFn {o : Ref} {f f' : Function} (ho : w.heap[o]? = some f) (hname : f'.name = f.name) :
    SameNames w (w.setFn o f') := ⟨rfl, rfl, World.map_setFn Function.name ho hname⟩

/-- The look-up of a name finds the same object. -/
lemma fn?_eq_some {name : Str} {o : Ref} {f : Function} (h : SameNames w w')
    (hf : w.fn? name = some (o, f)) : ∃ f', w'.fn? name = some (o, f') ∧ f'.name = f.name := by
  obtain ⟨hmap, ho⟩ := World.fn?_eq_some.mp hf
  have hname := h.names o
  rw [ho, Option.map_some, Option.map_eq_some_iff] at hname
  obtain ⟨f', ho', hname⟩ := hname
  exact ⟨f', World.fn?_eq_some.mpr ⟨by rw [h.deployedFunctions, hmap], ho'⟩, hname⟩

/-- A deployed function stays deployed. -/
lemma isSome {name : Str} (h : SameNames w w') (hf : (w.fn? name).isSome) :
    (w'.fn? name).isSome := by
  obtain ⟨⟨o, f⟩, hf⟩ := Option.isSome_iff_exists.mp hf
  obtain ⟨f', hf', -⟩ := h.fn?_eq_some hf
  rw [hf']
  rfl

/-- A current pointer stays current. -/
lemma current {fn : Ref} (h : SameNames w w') (hcur : w.Current fn) : w'.Current fn := by
  obtain ⟨f, -, hf⟩ := hcur
  obtain ⟨f', hf', hname⟩ := h.fn?_eq_some hf
  exact ⟨f', heap_of_fn? hf', by rw [hname]; exact hf'⟩

end World.SameNames

open World (SameNames)

/-- A creation keeps the names. -/
lemma createSection_sameNames {w w' : World} {call : CreateCall} {e : Env} {pc : CreatePc}
    {result : CreateResult} (hsec : CreateSection w call e pc w' result) : SameNames w w' :=
  .of_sameSpecs (createSection_sameSpecs hsec)

/-- An invocation deploys and deletes nothing. -/
lemma requestSection_sameNames {w w' : World} {req : Request} {e : Env} {pc : RequestPc}
    {t' : Thread} {new : List Thread} (hsec : RequestSection w req e pc w' t' new) :
    SameNames w w' := .of_sameSpecs (requestSection_sameSpecs hsec)

/-- A sweep deploys and deletes nothing. -/
lemma sweepSection_sameNames {w w' : World} {e : Env} {pc : SweepPc} {t' : Thread}
    (hsec : SweepSection w e pc w' t') : SameNames w w' :=
  .of_sameSpecs (sweepSection_sameSpecs hsec)

/-! ### Rows -/

/-- One when the function is deployed. -/
def World.isDeployed (w : World) (n : Str) : ℤ :=
  if (w.deployedFunctions.lookup n).isSome then 1 else 0

/-- One when the function has a row. -/
def World.hasRow (w : World) (n : Str) : ℤ := if n ∈ w.functionTable then 1 else 0

/-- One when the function is deployed, less one when it has a row. -/
def World.rows (n : Str) (w : World) : ℤ := w.isDeployed n - w.hasRow n

/-- A function has at most one row. -/
lemma World.hasRow_le_one (w : World) (n : Str) : w.hasRow n ≤ 1 := by
  unfold hasRow
  split <;> decide

/-- Putting a function into the map deploys that one and no other. -/
lemma World.isDeployed_putFunction_le (w : World) (f : Function) (n : Str) :
    (w.putFunction f).isDeployed n ≤ w.isDeployed n + if f.name = n then 1 else 0 := by
  by_cases hn : f.name = n
  · subst hn
    simp only [isDeployed, putFunction, AList.lookup_insert, Option.isSome_some, if_true]
    split <;> decide
  · simp only [isDeployed, putFunction, AList.lookup_insert_ne (Ne.symm hn), if_neg hn]
    omega

/-- One when the goroutine is about to deploy the function, whose row it has inserted. -/
def Thread.pending (n : Str) : Thread → ℤ
  | .deploy (.map fn) => if fn.name = n then 1 else 0
  | _ => 0

/-- The ledger of the row of a function. -/
def State.rows (n : Str) (c : State) : ℤ := c.ledger (World.rows n) (Thread.pending n)

/-- What keeps the names keeps both sides of the ledger. -/
lemma World.SameNames.rows {w w' : World} (h : SameNames w w') (n : Str) :
    w'.rows n = w.rows n := by
  simp only [World.rows, World.isDeployed, World.hasRow, h.deployedFunctions, h.functionTable]

/-- No goroutine is about to deploy a function less than not at all. -/
lemma Thread.pending_nonneg (n : Str) (t : Thread) : 0 ≤ t.pending n := by
  unfold Thread.pending
  split
  · split <;> decide
  · exact le_rfl

/-- An invocation leaves the deployments to others. -/
lemma requestSection_pending {w w' : World} {req : Request} {e : Env} {pc : RequestPc}
    {t' : Thread} {new : List Thread} (hsec : RequestSection w req e pc w' t' new) (n : Str) :
    t'.pending n = 0 ∧ (new.map (·.pending n)).sum = 0 := by
  cases hsec with
  | @create fn pc _ result hsec =>
    cases result with
    | running pc => exact ⟨rfl, rfl⟩
    | returned replicaName replicaIP => exact ⟨rfl, sum_spawns (fun _ => rfl) fn⟩
    | failed =>
      refine ⟨?_, rfl⟩
      simp only [Thread.afterCreate]
      split <;> rfl
    | panicked fault => exact ⟨rfl, rfl⟩
  | _ => exact ⟨rfl, rfl⟩

/-- **While no function is deleted, rows and deployments stay in step.**

**Proof sketch.** Case split on the section. The two ends of a deployment move one unit from the
goroutine to the row and from the row to the table (`World.isDeployed_putFunction_le`); the sections
of deletions are excluded, and the others keep the names. -/
lemma section_rows_le {w w' : World} {e : Env} {t t' : Thread} {new : List Thread}
    (hsec : Section w e t w' t' new) (hdel : ∀ req pc, t ≠ .delete req pc) (n : Str) :
    w'.rows n + t'.pending n + (new.map (·.pending n)).sum ≤ w.rows n + t.pending n := by
  rw [add_assoc]
  cases hsec with
  | request hsec =>
    obtain ⟨ht', hnew⟩ := requestSection_pending hsec n
    rw [(requestSection_sameNames hsec).rows n, ht', hnew]
    exact le_rfl
  | @spawn call pc _ result hsec =>
    rw [(createSection_sameNames hsec).rows n]
    cases result <;> exact le_rfl
  | @sweep pc _ t' hsec =>
    have ht' : t'.pending n = 0 := by cases hsec <;> rfl
    rw [(sweepSection_sameNames hsec).rows n, ht']
    exact le_rfl
  | deleteAll => exact absurd rfl (hdel _ _)
  | deleteAllFault => exact absurd rfl (hdel _ _)
  | read => exact absurd rfl (hdel _ _)
  | rowsFailed => exact absurd rfl (hdel _ _)
  | rowsAbsent => exact absurd rfl (hdel _ _)
  | rows => exact absurd rfl (hdel _ _)
  | unmap => exact absurd rfl (hdel _ _)
  | refused => exact le_rfl
  | @insert req fn _ hdeploy hins =>
    obtain ⟨hname, rows, rfl⟩ := World.insertFunction_eq hins
    simp only [World.rows, World.isDeployed, World.hasRow, Thread.pending, List.map_nil,
      List.sum_nil, List.mem_cons]
    by_cases hn : n = fn.name
    · subst hn
      simp [hname]
    · simp [hn, Ne.symm hn]
  | @map fn =>
    have hput := w.isDeployed_putFunction_le fn n
    have hrow : (w.putFunction fn).hasRow n = w.hasRow n := rfl
    simp only [World.rows, hrow, Thread.pending, List.map_nil, List.sum_nil]
    omega
  | stats => exact le_rfl
  | policyAbsent => exact le_rfl
  | policy hf => exact le_rfl

/-- A request that arrives has not inserted a row yet. -/
lemma entry_pending {t : Thread} (h : t.entry = true) (n : Str) : t.pending n = 0 := by
  obtain ⟨req, rfl⟩ | rfl | ⟨req, rfl⟩ | ⟨req, rfl⟩ | ⟨fn, updated, rfl⟩ := entry_cases h <;> rfl

/-- At the start every deployed function has its row. -/
lemma World.Fresh.rows_le {w : World} (h : w.Fresh) (n : Str) : State.rows n ⟨w, []⟩ ≤ 0 := by
  have hrow := h.rows n
  simp only [State.rows, Interleaving.Config.ledger, World.rows, List.map_nil, List.sum_nil,
    World.isDeployed, World.hasRow]
  by_cases hdep : (w.deployedFunctions.lookup n).isSome
  · simp [hdep, hrow hdep]
  · rw [if_neg hdep]
    split <;> decide

/-- A goroutine about to deploy a function finds it not deployed. -/
lemma State.not_deployed_of_pending {c : State} {n : Str} (hrows : c.rows n ≤ 0) {i : ℕ}
    {fn : Function} (ht : c.threads[i]? = some (.deploy (.map fn))) (hn : fn.name = n) :
    c.shared.deployedFunctions.lookup n = none := by
  have hsum := Interleaving.le_sum_of_getElem? (h := Thread.pending n) (Thread.pending_nonneg n) ht
  have hrow := c.shared.hasRow_le_one n
  have hpend : Thread.pending n (.deploy (.map fn)) = 1 := by simp [Thread.pending, hn]
  rw [hpend] at hsum
  simp only [State.rows, Interleaving.Config.ledger, World.rows] at hrows
  cases h : c.shared.deployedFunctions.lookup n with
  | none => rfl
  | some o =>
    have hdep : c.shared.isDeployed n = 1 := by simp [World.isDeployed, h]
    omega

end Fecore
