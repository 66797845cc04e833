import Mathlib.Tactic.Common
import Fecore.Handlers.Restart

set_option relaxedAutoImplicit false
set_option autoImplicit false

/-!
# The tables and the memory

`function_store.go` asks of all its write functions that they update the storage. Here its
operations run one after the other, each from its beginning to its end, and between two of them the
tables are compared with the memory.

## Main definitions

* `Fecore.World.Mirror` — the rows are the deployed functions and their replicas.
* `Fecore.StoreOp`, `Fecore.World.opStep` — the operations.
* `Fecore.Thread.Mirrors` — what becomes of the mirror in the middle of an operation.
* `Fecore.StoreOp.keepsMirror` — the operations that keep it.

## Main results

* `Fecore.soloStep_mirrors` — deployments, deletions and sweeps keep the functions and their rows in
  step, from section to section.
* `Fecore.opStep_mirror_iff` — what one operation needs.
* `Fecore.mirror_throughout_iff` — the runs between whose operations the tables mirror the memory.
-/

namespace Fecore

/-- The rows of the replicas of a function, active or idle. -/
def Function.rows (f : Function) : List StorageContainer :=
  f.activeReplicas.entries.map (fun e => ⟨e.1, f.name, e.2.ip⟩) ++ f.idleRows

/-- The rows stored for the name. -/
def World.storedRows (w : World) (n : Str) : List StorageContainer :=
  w.containerTable.filter (·.parentFunction = n)

/-- The rows that the replicas in memory call for; a name that is not deployed has none. -/
def World.replicaRows (w : World) (n : Str) : List StorageContainer :=
  (w.fn? n).elim [] fun of => of.2.rows

/-- The rows of the table `Function` are the deployed functions. -/
def World.MirrorsFunctions (w : World) : Prop := ∀ n, n ∈ w.functionTable ↔ n ∈ w.deployedFunctions

/-- **The stored tables mirror the memory**: the rows of the table `Function` are the deployed
functions, and the rows of the table `Container` with the parent function `n` are the replicas of
`n`, active or idle. -/
structure World.Mirror (w : World) : Prop where
  functions : w.MirrorsFunctions
  containers : ∀ n, (w.storedRows n).Perm (w.replicaRows n)

/-! ### Operations -/

/-- One section of a goroutine that runs alone. -/
def soloStep (c : World × Thread) (e : Env) : Option (World × Thread) :=
  (provider.next c.1 c.2 e).map fun next => (next.1, next.2.1)

/-- The store after the goroutine has run alone to its end; `es` is what its sections meet. -/
def World.runSolo (w : World) (t : Thread) (es : List Env) : Option World :=
  (Runs.run soloStep (w, t) es).bind fun c => if c.2.ended then some c.1 else none

/-- An operation on the store. -/
inductive StoreOp
  | deploy (req : FunctionDeployment) (es : List Env)
  | delete (req : DeleteRequest) (es : List Env)
  | cleanup (es : List Env)
  | addIdleReplica (replica : Replica) (now : Time)
  | addActiveReplica (replica : Replica)
  | getIdleReplica (fn : Str)
  | deleteReplica (replica : Replica) (a : Answers)

/-- The store after the operation, also when it ends in an error or a panic. -/
def World.opStep (w : World) : StoreOp → Option World
  | .deploy req es => w.runSolo (.deploy (.insert req)) es
  | .delete req es => w.runSolo (.delete req .deleteAll) es
  | .cleanup es => w.runSolo (.sweep .tryLock) es
  | .addIdleReplica replica now =>
    match w.addIdleReplica replica now with
    | .error _ => some w
    | .ok w' => some w'
  | .addActiveReplica replica => some (w.addActiveReplica replica).1
  | .getIdleReplica fn =>
    match w.getIdleReplica fn with
    | .ok (some (_, w')) => some w'
    | _ => some w
  | .deleteReplica replica a => some (w.deleteReplica a replica).1

/-- The operation adds no replica to a deployed function. -/
def StoreOp.keepsMirror (w : World) : StoreOp → Bool
  | .addIdleReplica replica _ => (w.fn? replica.fname).isNone
  | .addActiveReplica replica => (w.fn? replica.fname).isNone
  | _ => true

/-! ### Stores without replicas -/

/-- No function has a replica. -/
structure World.NoReplicas (w : World) : Prop where
  wellFormed : w.WellFormed
  pools : ∀ f ∈ w.heap, f.idleReplicas = {} ∧ f.activeReplicas = ∅

namespace World.NoReplicas

variable {w w' : World}

/-- A deployed function has empty pools. -/
lemma pools_of_fn? (h : w.NoReplicas) {n : Str} {o : Ref} {f : Function}
    (hf : w.fn? n = some (o, f)) : f.idleReplicas = {} ∧ f.activeReplicas = ∅ :=
  h.pools f (List.mem_of_getElem? (World.heap_of_fn? hf))

/-- This is about the deployed objects only. -/
lemma congr (h : w.NoReplicas) (hheap : w'.heap = w.heap)
    (hmap : w'.deployedFunctions = w.deployedFunctions) : w'.NoReplicas :=
  ⟨h.wellFormed.congr hheap hmap, by rw [hheap]; exact h.pools⟩

/-- A function without replicas may be deployed. -/
lemma putFunction (h : w.NoReplicas) {f : Function} (hidle : f.idleReplicas = {})
    (hact : f.activeReplicas = ∅) : (w.putFunction f).NoReplicas := by
  refine ⟨h.wellFormed.putFunction (.of_empty hidle hact), fun g hg => ?_⟩
  rcases List.mem_append.mp hg with hg | hg
  · exact h.pools g hg
  · obtain rfl := List.mem_singleton.mp hg
    exact ⟨hidle, hact⟩

/-- Without replicas the memory calls for no row. -/
lemma replicaRows_eq_nil (h : w.NoReplicas) (n : Str) : w.replicaRows n = [] := by
  unfold World.replicaRows
  cases hf : w.fn? n with
  | none => rfl
  | some of =>
    obtain ⟨hidle, hact⟩ := h.pools_of_fn? hf
    simp [Function.rows, Function.idleRows, hidle, hact, IdleReplicas.stored]

/-- Without replicas, the mirror of the replicas is the empty table. -/
lemma mirror_iff (h : w.NoReplicas) :
    w.Mirror ↔ w.MirrorsFunctions ∧ w.containerTable = [] := by
  have hcontainers : (∀ n, (w.storedRows n).Perm (w.replicaRows n)) ↔ w.containerTable = [] := by
    simp only [h.replicaRows_eq_nil, List.perm_nil, World.storedRows, List.filter_eq_nil_iff,
      decide_eq_true_eq]
    constructor
    · intro hno
      exact List.eq_nil_iff_forall_not_mem.mpr fun c hc => hno c.parentFunction c hc rfl
    · intro hnil n c hc
      rw [hnil] at hc
      cases hc
  rw [← hcontainers]
  exact ⟨fun hm => ⟨hm.functions, hm.containers⟩, fun hm => ⟨hm.1, hm.2⟩⟩

/-- `DeleteAllReplicas` finds nothing to delete. -/
lemma deleteAllReplicas_eq (h : w.NoReplicas) (ns : Str) (answers : Str → Answers) (n : Str) :
    w.deleteAllReplicas ns answers n =
      (w, if (w.fn? n).isSome then none else some .absentFunction) := by
  unfold World.deleteAllReplicas
  cases hf : w.fn? n with
  | none => rfl
  | some of =>
    have hcount : of.2.idleReplicas.count ≤ 0 := by
      rw [(h.pools_of_fn? hf).1]
      decide
    simp only [if_pos hcount, Option.isSome_some, if_true]

/-- A sweep finds nothing to remove. -/
lemma sweep_eq (h : w.NoReplicas) {fn : Ref} {f : Function} (hf : w.heap[fn]? = some f)
    (currTs : Time) : (f.idleReplicas.sweep w.cfg currTs).2 = .mru none := by
  rw [(h.pools f (List.mem_of_getElem? hf)).1]
  rfl

end World.NoReplicas

/-! ### Deployments, deletions and sweeps -/

/-- What holds of the functions and their rows while the goroutine runs alone: a deployment writes
the row first, and so does a deletion. -/
def Thread.Mirrors (w : World) : Thread → Prop
  | .deploy (.map fn) => fn.idleReplicas = {} ∧ fn.activeReplicas = ∅ ∧
      ∀ n, n ∈ w.functionTable ↔ n = fn.name ∨ n ∈ w.deployedFunctions
  | .deploy _ => w.MirrorsFunctions
  | .delete req .read => w.MirrorsFunctions ∧ (w.fn? req.functionName).isSome
  | .delete req (.rows fn) => w.MirrorsFunctions ∧ (w.fn? req.functionName).isSome ∧
      fn = w.deployedFunctions.lookup req.functionName
  | .delete req .unmap =>
    ∀ n, n ∈ w.functionTable ↔ n ≠ req.functionName ∧ n ∈ w.deployedFunctions
  | .delete _ .deleteAll => w.MirrorsFunctions
  | .sweep (.del _ _ _ _ _) => False
  | .sweep _ => w.MirrorsFunctions
  | .returned => w.MirrorsFunctions
  | .panicked _ => w.MirrorsFunctions
  | _ => False

/-- A deployment, a deletion or a sweep runs alone on a store without replicas. -/
structure Solo (c : World × Thread) : Prop where
  noReplicas : c.1.NoReplicas
  containers : c.1.containerTable = []
  mirrors : c.2.Mirrors c.1

/-- **One section of a deployment, a deletion or a sweep that runs alone** keeps the rows of the
functions in step, and adds no replica and no row of one.

**Proof sketch.** By cases on the section. There is no replica to delete and none to sweep, and the
functions that are deployed and deleted have none. -/
lemma soloStep_mirrors {c c' : World × Thread} {e : Env} (h : Solo c)
    (hstep : soloStep c e = some c') : Solo c' := by
  obtain ⟨w, t⟩ := c
  obtain ⟨⟨w', t', new⟩, hn, rfl⟩ := Option.map_eq_some_iff.mp hstep
  obtain ⟨hno, hcont, hmir⟩ := h
  dsimp only at hno hcont hmir hn ⊢
  cases next_cases hn with
  | request => exact hmir.elim
  | spawn => exact hmir.elim
  | policyAbsent => exact hmir.elim
  | policy => exact hmir.elim
  | sweep hsec =>
    cases hsec with
    | locked => exact ⟨hno, hcont, hmir⟩
    | lock => exact ⟨hno.congr rfl rfl, hcont, hmir⟩
    | visit => exact ⟨hno, hcont, hmir⟩
    | done => exact ⟨hno.congr rfl rfl, hcont, hmir⟩
    | lruAbsent => exact ⟨hno.congr rfl rfl, hcont, hmir⟩
    | lru hheap hsweep => cases (hno.sweep_eq hheap _).symm.trans hsweep
    | mru hheap hsweep => cases (hno.sweep_eq hheap _).symm.trans hsweep
    | mruFault hheap hsweep => cases (hno.sweep_eq hheap _).symm.trans hsweep
    | fresh => exact ⟨hno, hcont, hmir⟩
    | del => exact hmir.elim
    | delFault => exact hmir.elim
  | @deleteAll req _ hdel =>
    rw [hno.deleteAllReplicas_eq] at hdel
    obtain ⟨rfl, hfault⟩ := Prod.mk.inj hdel
    refine ⟨hno, hcont, hmir, ?_⟩
    by_contra hnone
    rw [if_neg hnone] at hfault
    cases hfault
  | deleteAllFault hdel =>
    rw [hno.deleteAllReplicas_eq] at hdel
    obtain ⟨rfl, -⟩ := Prod.mk.inj hdel
    exact ⟨hno, hcont, hmir⟩
  | read => exact ⟨hno, hcont, hmir.1, hmir.2, rfl⟩
  | rowsFailed => exact ⟨hno, hcont, hmir.1⟩
  | rowsAbsent herr hf =>
    obtain ⟨-, hdep, rfl⟩ := hmir
    obtain ⟨⟨o, f⟩, hfn⟩ := Option.isSome_iff_exists.mp hdep
    rw [(World.fn?_eq_some.mp hfn).1, Option.bind_some, World.heap_of_fn? hfn] at hf
    cases hf
  | @rows req fn f herr hf =>
    obtain ⟨hfuns, -, -⟩ := hmir
    refine ⟨hno.congr rfl rfl, ?_, fun n => ?_⟩
    · simp only [World.deleteRows, hcont, List.filter_nil]
    · simp only [World.deleteRows, List.mem_filter, decide_eq_true_eq]
      rw [hfuns n, and_comm]
  | @unmap req =>
    refine ⟨⟨hno.wellFormed.dropFunction _, hno.pools⟩, hcont, fun n => ?_⟩
    rw [World.dropFunction, AList.mem_erase]
    exact hmir n
  | refused => exact ⟨hno, hcont, hmir⟩
  | insert hdeploy hins =>
    obtain ⟨-, hidle, hact⟩ := deploy_empty hdeploy
    unfold World.insertFunction at hins
    rw [World.getContainers_eq_nil hidle hact] at hins
    split at hins
    · cases hins
    · obtain rfl := Option.some.inj hins
      refine ⟨hno.congr rfl rfl, hcont, hidle, hact, fun n => ?_⟩
      exact List.mem_cons.trans (or_congr Iff.rfl (hmir n))
  | @map fn =>
    obtain ⟨hidle, hact, hfuns⟩ := hmir
    refine ⟨hno.putFunction hidle hact, hcont, fun n => ?_⟩
    rw [World.putFunction, AList.mem_insert]
    exact hfuns n
  | stats => exact ⟨hno.congr rfl rfl, hcont, hmir⟩

/-- **A deployment, a deletion or a sweep keeps the mirror**, and adds no replica. -/
lemma runSolo_mirror {w w' : World} {t : Thread} {es : List Env} (h : Solo (w, t))
    (hrun : w.runSolo t es = some w') : w'.NoReplicas ∧ w'.Mirror := by
  obtain ⟨⟨w₁, t₁⟩, hr, hend⟩ := Option.bind_eq_some_iff.mp hrun
  have hsolo : Solo (w₁, t₁) := Runs.invariant (fun _ _ _ hI hs => soloStep_mirrors hI hs) h hr
  split at hend
  · next hended =>
    obtain rfl := Option.some.inj hend
    refine ⟨hsolo.noReplicas, hsolo.noReplicas.mirror_iff.mpr ⟨?_, hsolo.containers⟩⟩
    have hmir := hsolo.mirrors
    cases t₁ with
    | returned => exact hmir
    | panicked => exact hmir
    | _ => cases hended
  · cases hend

/-! ### Operations on one replica -/

namespace World

variable {w : World}

/-- A replica that is stored in memory without a row breaks the mirror. -/
lemma not_mirror_of_rows {n : Str} {o : Ref} {f : Function} (hf : w.fn? n = some (o, f))
    (hrows : f.rows ≠ []) (hcont : w.containerTable = []) : ¬ w.Mirror := by
  intro hm
  have hperm := hm.containers n
  simp only [storedRows, hcont, List.filter_nil, replicaRows, hf, Option.elim_some,
    List.nil_perm] at hperm
  exact hrows hperm

/-- `AddActiveReplica` writes the replica, also when it finds no statistics, and no table. -/
lemma addActiveReplica_spec {replica : Replica} {o : Ref} {f : Function}
    (hf : w.fn? replica.fname = some (o, f)) :
    (w.addActiveReplica replica).1.fn? replica.fname = some (o, { f with
      activeReplicas := f.activeReplicas.insert replica.uuid replica }) ∧
    (w.addActiveReplica replica).1.containerTable = w.containerTable := by
  simp only [addActiveReplica, hf]
  split
  · exact ⟨fn?_setFn_self hf _, rfl⟩
  · exact ⟨(fn?_congr rfl rfl _).trans (fn?_setFn_self hf _), rfl⟩

end World

/-- `AddIdleReplica` gives the function a replica. -/
lemma rows_add_ne_nil (f : Function) (r : Replica) (now : Time) :
    { f with idleReplicas := f.idleReplicas.add r now }.rows ≠ [] := by
  simp [Function.rows, Function.idleRows, IdleReplicas.stored_add]

/-- `AddActiveReplica` gives the function a replica. -/
lemma rows_insert_ne_nil (f : Function) (r : Replica) :
    { f with activeReplicas := f.activeReplicas.insert r.uuid r }.rows ≠ [] := by
  simp [Function.rows, AList.entries_insert]

/-- **What one operation needs to keep the mirror**, on a store without replicas: a replica that is
added to a deployed function has no row, and every other operation keeps the mirror.

**Proof sketch.** A deployment, a deletion and a cleanup are runs of one goroutine, which keep the
mirror (`runSolo_mirror`). A replica that is added to a deployed function is in its pool without a
row (`World.not_mirror_of_rows`); an operation on a function that is not deployed, or on an empty
pool, changes nothing. -/
lemma opStep_mirror_iff {w w' : World} {op : StoreOp} (hno : w.NoReplicas) (hm : w.Mirror)
    (hstep : w.opStep op = some w') :
    (w'.Mirror ↔ op.keepsMirror w = true) ∧ (op.keepsMirror w = true → w'.NoReplicas) := by
  obtain ⟨hfuns, hcont⟩ := hno.mirror_iff.mp hm
  have hsolo : ∀ {t : Thread} {es : List Env}, t.Mirrors w → w.runSolo t es = some w' →
      op.keepsMirror w = true →
        (w'.Mirror ↔ op.keepsMirror w = true) ∧ (op.keepsMirror w = true → w'.NoReplicas) := by
    intro t es ht hrun hok
    obtain ⟨hno', hm'⟩ := runSolo_mirror ⟨hno, hcont, ht⟩ hrun
    exact ⟨iff_of_true hm' hok, fun _ => hno'⟩
  cases op with
  | deploy req es => exact hsolo (t := .deploy (.insert req)) hfuns hstep rfl
  | delete req es => exact hsolo (t := .delete req .deleteAll) hfuns hstep rfl
  | cleanup es => exact hsolo (t := .sweep .tryLock) hfuns hstep rfl
  | addIdleReplica replica now =>
    cases hf : w.fn? replica.fname with
    | none =>
      simp only [World.opStep, World.addIdleReplica, hf, Option.some.injEq] at hstep
      subst hstep
      exact ⟨iff_of_true hm (by simp [StoreOp.keepsMirror, hf]), fun _ => hno⟩
    | some of =>
      simp only [World.opStep, World.addIdleReplica, hf, Option.some.injEq] at hstep
      subst hstep
      have hbad : ¬ (StoreOp.addIdleReplica replica now).keepsMirror w = true := by
        simp [StoreOp.keepsMirror, hf]
      refine ⟨iff_of_false ?_ hbad, fun h => absurd h hbad⟩
      exact World.not_mirror_of_rows (World.fn?_setFn_self hf _) (rows_add_ne_nil _ _ _) hcont
  | addActiveReplica replica =>
    cases hf : w.fn? replica.fname with
    | none =>
      simp only [World.opStep, World.addActiveReplica, hf, Option.some.injEq] at hstep
      subst hstep
      exact ⟨iff_of_true hm (by simp [StoreOp.keepsMirror, hf]), fun _ => hno⟩
    | some of =>
      have hbad : ¬ (StoreOp.addActiveReplica replica).keepsMirror w = true := by
        simp [StoreOp.keepsMirror, hf]
      refine ⟨iff_of_false ?_ hbad, fun h => absurd h hbad⟩
      obtain rfl := Option.some.inj hstep
      obtain ⟨hf', hcont'⟩ := World.addActiveReplica_spec hf
      exact World.not_mirror_of_rows hf' (rows_insert_ne_nil _ _) (hcont'.trans hcont)
  | getIdleReplica fn =>
    obtain rfl : w = w' := by
      cases hf : w.fn? fn with
      | none => simpa [World.opStep, World.getIdleReplica, hf] using hstep
      | some of =>
        have htake : of.2.takeIdle = none :=
          Function.takeIdle_eq_none.mpr (by rw [(hno.pools_of_fn? hf).1])
        simpa [World.opStep, World.getIdleReplica, hf, htake] using hstep
    exact ⟨iff_of_true hm rfl, fun _ => hno⟩
  | deleteReplica replica a =>
    obtain rfl := Option.some.inj hstep
    have hsame := World.sameStore_deleteIn w defaultFunctionNamespace a replica
    have hno' : (w.deleteReplica a replica).1.NoReplicas :=
      hno.congr hsame.heap hsame.deployedFunctions
    refine ⟨iff_of_true (hno'.mirror_iff.mpr ⟨fun n => ?_, ?_⟩) rfl, fun _ => hno'⟩
    · rw [World.deleteReplica, hsame.functionTable, hsame.deployedFunctions]
      exact hfuns n
    · rw [World.deleteReplica, World.deleteIn_containerTable, hcont]

/-! ### Runs of operations -/

/-- When the provider begins to serve, the stored functions are deployed; the mirror fails when a
replica is stored, whose function is none of them.

**Proof sketch.** The functions that are restored are those of the rows (`startProvider_restored`),
and no replica is restored; so the mirror asks that no replica is stored either. -/
lemma startProvider_mirror_iff {cfg : Config} {storage : Storage} {now : Time} {w : World}
    (h : startProvider cfg storage now = .ok w) :
    w.NoReplicas ∧ (w.Mirror ↔ storage.containers = []) := by
  obtain ⟨hfresh, -⟩ := startProvider_fresh h
  obtain ⟨hres, -⟩ := startProvider_restored h
  have hno : w.NoReplicas := ⟨hfresh.wellFormed, hfresh.pools⟩
  have hfuns : w.MirrorsFunctions := by
    intro n
    rw [hres.functionTable]
    constructor
    · intro hn
      obtain ⟨row, hrow, rfl⟩ := List.mem_map.mp hn
      obtain ⟨o, hf⟩ := hres.deployed row hrow
      exact World.mem_deployedFunctions hf
    · intro hn
      obtain ⟨o, f, hf⟩ := hfresh.wellFormed.fn?_of_mem hn
      rcases hres.cases hf with ⟨row, hrow, rfl, -⟩ | hf
      · exact List.mem_map_of_mem hrow
      · cases hf
  refine ⟨hno, hno.mirror_iff.trans ?_⟩
  rw [hres.containerTable]
  exact and_iff_right hfuns

/-- **The runs between whose operations the tables mirror the memory**: no replica is stored at the
start, and none is ever added to a deployed function.

**Proof sketch.** As long as no replica has been added there is none to take, to sweep or to delete
with its function, and `opStep_mirror_iff` says that the tables stay in step. The first replica that
is added gets no row. -/
theorem mirror_throughout_iff {cfg : Config} {storage : Storage} {now : Time} {w : World}
    (hstart : startProvider cfg storage now = .ok w) (ops : List StoreOp) :
    Runs.Throughout World.opStep World.Mirror w ops ↔
      storage.containers = [] ∧
        Runs.Along World.opStep (fun w (op : StoreOp) => op.keepsMirror w = true) w ops := by
  obtain ⟨hno, hm⟩ := startProvider_mirror_iff hstart
  rw [← hm]
  exact Runs.throughout_iff_head_and_along (I := World.Mirror) (J := World.NoReplicas)
    (fun _ _ _ hJ hI hstep => (opStep_mirror_iff hJ hI hstep).1)
    (fun _ _ _ hJ hI hok hstep => (opStep_mirror_iff hJ hI hstep).2 hok) hno

/-- The function `f` is deployed. -/
def deployOp : StoreOp := .deploy { service := "f".toList } [{}, {}, {}]

/-- A native replica of `f`. -/
def replicaOfF : Replica :=
  { fname := "f".toList, ctrType := native, uuid := "f_1_n".toList, pid := 1
    ip := "10.62.0.2".toList, netNS := 0, lastAccess := 0 }

/-- `f` is deployed, asked for an idle replica, swept and deleted, and then a replica of it comes
back. -/
def lateReplicaOps : List StoreOp :=
  [deployOp, .getIdleReplica "f".toList, .cleanup [{}, { entry := some "f".toList }, {}, {}],
    .delete { functionName := "f".toList } [{}, {}, {}, {}], .addIdleReplica replicaOfF 0,
    .deleteReplica replicaOfF {}]

/-- The operations go through. -/
theorem mirror_throughout_lateReplicaOps :
    (Runs.run World.opStep smallWorld lateReplicaOps).isSome ∧
    Runs.Throughout World.opStep World.Mirror smallWorld lateReplicaOps :=
  ⟨by decide +kernel,
    (mirror_throughout_iff startProvider_small _).mpr ⟨rfl, by decide +kernel⟩⟩

/-- `f` is deployed and gets an active replica, which has no row. -/
theorem not_mirror_addActiveReplica :
    ¬ Runs.Throughout World.opStep World.Mirror smallWorld
      [deployOp, .addActiveReplica replicaOfF] := by
  intro h
  obtain ⟨w, hw, hlen⟩ := (Option.any_eq_true
    (fun w : World => decide ((w.storedRows "f".toList).length ≠
      (w.replicaRows "f".toList).length))
    (Runs.run World.opStep smallWorld [deployOp, .addActiveReplica replicaOfF])).mp
      (by decide +kernel)
  exact of_decide_eq_true hlen ((h.of_run hw).containers _).length_eq

end Fecore
