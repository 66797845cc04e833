import Mathlib.Tactic.Common
import Fecore.Data.Assoc
import Fecore.Handlers.Frames
import Fecore.Handlers.Sections

set_option relaxedAutoImplicit false
set_option autoImplicit false

/-!
# Well-formed stores

What holds of every replica and of every function in every run: a replica is native or WASM, sits
in the function that it names, under its own name, and its name has the two underscores that
`UpdateFunctionStats` relies on; a function sits in `deployedFunctions` under its own name.

## Main definitions

* `Fecore.World.WellFormed`, `Fecore.Thread.WellFormed` — the invariant.
* `Fecore.World.Fresh` — the stores in which the provider begins to serve.
* `Fecore.Reachable` — the states that a run of the provider reaches.

## Main results

* `Fecore.section_wellFormed`, `Fecore.Reachable.wellFormed` — one section keeps the invariant,
  and so does every run.
* `Fecore.startProvider_fresh` — the provider begins in a fresh store.
-/

namespace Fecore

/-- A replica as `createNativeReplica` and `createWasmReplica` make them. -/
structure Replica.WellFormed (r : Replica) : Prop where
  ctrType : r.ctrType = native ∨ r.ctrType = wasm
  uuid : 2 ≤ r.uuid.count '_'

/-- The replicas of a function are well formed, name the function, and are active under their own
names; the oldest idle one sits in `LRU`. -/
structure Function.WellFormed (f : Function) : Prop where
  ordered : f.idleReplicas.Ordered
  stored : ∀ r ∈ f.idleReplicas.stored, r.WellFormed ∧ r.fname = f.name
  active : ∀ k r, f.activeReplicas.lookup k = some r → r.WellFormed ∧ r.fname = f.name ∧ r.uuid = k

/-- The functions are well formed and deployed under their own names, and no pointer dangles. -/
structure World.WellFormed (w : World) : Prop where
  functions : ∀ f ∈ w.heap, f.WellFormed
  named : ∀ n o f, w.fn? n = some (o, f) → f.name = n
  valid : ∀ n o, w.deployedFunctions.lookup n = some o → o < w.heap.length

/-- The names and the replicas a creation carries. -/
def CreatePc.WellFormed : CreatePc → Prop
  | .storage replicaName _ => 2 ≤ replicaName.count '_'
  | .net replicaName => 2 ≤ replicaName.count '_'
  | .start replicaName _ => 2 ≤ replicaName.count '_'
  | .add replica => replica.WellFormed
  | _ => True

/-- The name an invocation carries is empty, when `Resolve` has no replica, or that of a
replica. -/
def CarriedName (replicaName : Str) : Prop := replicaName = [] ∨ 2 ≤ replicaName.count '_'

/-- The names and the replicas an invocation carries. -/
def RequestPc.WellFormed : RequestPc → Prop
  | .create _ pc => pc.WellFormed
  | .build _ replicaName => CarriedName replicaName
  | .exec _ replicaName => CarriedName replicaName
  | .labels _ replicaName => CarriedName replicaName
  | .take _ replicaName => CarriedName replicaName
  | .look replicaName (some replica) => replica.WellFormed ∧ replica.uuid = replicaName
  | .give replica => replica.WellFormed
  | .del replica => replica.WellFormed
  | _ => True

/-- The replicas a goroutine carries are well formed, and a function about to be deployed has
none. -/
def Thread.WellFormed : Thread → Prop
  | .request _ pc => pc.WellFormed
  | .spawn _ pc => pc.WellFormed
  | .sweep (.del _ _ _ _ replica) => replica.WellFormed
  | .deploy (.map fn) => fn.idleReplicas = {} ∧ fn.activeReplicas = ∅
  | _ => True

/-! ### Functions -/

namespace Function.WellFormed

variable {f : Function}

/-- A function without replicas is well formed. -/
lemma of_empty (hidle : f.idleReplicas = {}) (hact : f.activeReplicas = ∅) : f.WellFormed where
  ordered h := by simp [hidle] at h
  stored r hr := by simp [hidle, IdleReplicas.stored] at hr
  active k r hr := by simp [hact] at hr

/-- Adding a replica of the function to its pool. -/
lemma add (h : f.WellFormed) {r : Replica} (hr : r.WellFormed) (hname : r.fname = f.name)
    (now : Time) : { f with idleReplicas := f.idleReplicas.add r now }.WellFormed where
  ordered := IdleReplicas.ordered_add h.ordered r now
  stored r' hr' := by
    rw [IdleReplicas.stored_add] at hr'
    rcases List.mem_append.mp hr' with hr' | hr'
    · exact h.stored r' hr'
    · obtain rfl := List.mem_singleton.mp hr'
      exact ⟨⟨hr.ctrType, hr.uuid⟩, hname⟩
  active := h.active

/-- Keeping some of the stored replicas. -/
lemma idle_subset (h : f.WellFormed) {p : IdleReplicas} (hsub : p.stored ⊆ f.idleReplicas.stored)
    (hp : p.Ordered) : { f with idleReplicas := p }.WellFormed where
  ordered := hp
  stored r hr := h.stored r (hsub hr)
  active := h.active

/-- A replica of the function may become active. -/
lemma insertActive (h : f.WellFormed) {r : Replica} (hr : r.WellFormed) (hname : r.fname = f.name) :
    { f with activeReplicas := f.activeReplicas.insert r.uuid r }.WellFormed where
  ordered := h.ordered
  stored := h.stored
  active k r' hr' := by
    by_cases hk : k = r.uuid
    · subst hk
      obtain rfl : r = r' := by simpa using hr'
      exact ⟨hr, hname, rfl⟩
    · exact h.active k r' (by simpa [AList.lookup_insert_ne hk] using hr')

/-- Active replicas may go. -/
lemma eraseActive (h : f.WellFormed) (name : Str) :
    { f with activeReplicas := f.activeReplicas.erase name }.WellFormed where
  ordered := h.ordered
  stored := h.stored
  active k r hr := h.active k r (AList.lookup_of_lookup_erase hr)

/-- `GetIdleReplica` takes a well-formed replica of the function and leaves the function well
formed. -/
lemma takeIdle {f' : Function} {r : Replica} (h : f.WellFormed)
    (htake : f.takeIdle = some (r, f')) :
    r.WellFormed ∧ r.fname = f.name ∧ f'.WellFormed ∧ f'.name = f.name := by
  obtain ⟨hst, hact, heq⟩ := Function.takeIdle_spec htake
  obtain ⟨hr, hname⟩ := h.stored r (by rw [hst]; simp)
  have hname' : f'.name = f.name := by rw [heq]
  refine ⟨hr, hname, ⟨ordered_takeIdle h.ordered htake, ?_, ?_⟩, hname'⟩
  · intro r' hr'
    rw [hname']
    exact h.stored r' (by rw [hst]; exact List.mem_append_left _ hr')
  · rw [hact, hname']
    exact (h.insertActive hr hname).active

end Function.WellFormed

/-! ### Stores -/

namespace World.WellFormed

variable {w w' : World}

/-- The invariant is about the heap and the map only. -/
lemma congr (h : w.WellFormed) (hheap : w'.heap = w.heap)
    (hmap : w'.deployedFunctions = w.deployedFunctions) : w'.WellFormed where
  functions := by rw [hheap]; exact h.functions
  named n o f hf := h.named n o f (by rwa [fn?_congr hheap hmap] at hf)
  valid n o ho := by rw [hheap]; exact h.valid n o (by rwa [hmap] at ho)

/-- A deletion of a replica leaves the functions as they are. -/
lemma sameStore (h : w.WellFormed) (hsame : SameStore w w') : w'.WellFormed :=
  h.congr hsame.heap hsame.deployedFunctions

/-- A deployed function is well formed and has the name under which it is found. -/
lemma function (h : w.WellFormed) {n : Str} {o : Ref} {f : Function}
    (hf : w.fn? n = some (o, f)) : f.WellFormed ∧ f.name = n :=
  ⟨h.functions f (List.mem_of_getElem? (heap_of_fn? hf)), h.named n o f hf⟩

/-- A function in the map is deployed. -/
lemma fn?_of_mem (h : w.WellFormed) {n : Str} (hn : n ∈ w.deployedFunctions) :
    ∃ o f, w.fn? n = some (o, f) := by
  obtain ⟨o, ho⟩ := Option.isSome_iff_exists.mp (AList.lookup_isSome.mpr hn)
  have hlt := h.valid n o ho
  exact ⟨o, w.heap[o], fn?_eq_some.mpr ⟨ho, List.getElem?_eq_getElem hlt⟩⟩

/-- A write of a well-formed function of the same name.

**Proof sketch.** A name leads to the object that is written, whose name has not changed, or to
another one. -/
lemma setFn (h : w.WellFormed) {o : Ref} {f f' : Function} (ho : w.heap[o]? = some f)
    (hf' : f'.WellFormed) (hname : f'.name = f.name) : (w.setFn o f').WellFormed where
  functions g hg := by
    rcases List.mem_or_eq_of_mem_set hg with hg | rfl
    · exact h.functions g hg
    · exact hf'
  named n o₁ f₁ hf := by
    rw [fn?_setFn ho, Option.map_eq_some_iff] at hf
    obtain ⟨⟨o₂, f₂⟩, hf₂, heq⟩ := hf
    by_cases ho₂ : o₂ = o
    · subst ho₂
      obtain rfl := Option.some.inj ((heap_of_fn? hf₂).symm.trans ho)
      simp only [if_true, Prod.mk.injEq] at heq
      rw [← heq.2, hname]
      exact h.named n _ _ hf₂
    · simp only [ho₂, if_false, Prod.mk.injEq] at heq
      rw [← heq.2]
      exact h.named n _ _ hf₂
  valid n o₁ ho₁ := by
    simp only [World.setFn, List.length_set]
    exact h.valid n o₁ ho₁

/-- A well-formed function may be deployed.

**Proof sketch.** A name leads to the new object exactly when it is its own name. -/
lemma putFunction (h : w.WellFormed) {f : Function} (hf : f.WellFormed) :
    (w.putFunction f).WellFormed where
  functions g hg := by
    rcases List.mem_append.mp hg with hg | hg
    · exact h.functions g hg
    · obtain rfl := List.mem_singleton.mp hg
      exact hf
  named n o g hg := by
    rw [fn?_putFunction h.valid] at hg
    by_cases hn : n = f.name
    · simp only [hn, if_true, Option.some.injEq, Prod.mk.injEq] at hg
      rw [← hg.2, hn]
    · simp only [hn, if_false] at hg
      exact h.named n o g hg
  valid n o ho := by
    simp only [World.putFunction, List.length_append, List.length_singleton]
    by_cases hn : n = f.name
    · subst hn
      simp only [World.putFunction, AList.lookup_insert, Option.some.injEq] at ho
      rw [← ho]
      exact Nat.lt_succ_self _
    · simp only [World.putFunction, AList.lookup_insert_ne hn] at ho
      exact Nat.lt_succ_of_lt (h.valid n o ho)

/-- A function may be dropped. -/
lemma dropFunction (h : w.WellFormed) (name : Str) : (w.dropFunction name).WellFormed where
  functions := h.functions
  named n o f hf := by
    rw [fn?_dropFunction] at hf
    split at hf
    · cases hf
    · exact h.named n o f hf
  valid n o ho := h.valid n o (AList.lookup_of_lookup_erase ho)

end World.WellFormed

/-! ### Sections -/

/-- The name of a native replica has two underscores at least. -/
lemma two_le_count_nativeName (fname uuid : Str) : 2 ≤ (nativeName fname uuid).count '_' := by
  have h₁ : "_".toList.count '_' = 1 := by decide
  have h₂ : "_n".toList.count '_' = 1 := by decide
  simp only [nativeName, List.count_append, h₁, h₂]
  omega

/-- The name of a WASM replica has two underscores at least. -/
lemma two_le_count_wasmName (fname uuid : Str) : 2 ≤ (wasmName fname uuid).count '_' := by
  have h₁ : "_".toList.count '_' = 1 := by decide
  have h₂ : "_w".toList.count '_' = 1 := by decide
  simp only [wasmName, List.count_append, h₁, h₂]
  omega

/-- What a section of a creation leads to is well formed. -/
def CreateResult.WellFormed : CreateResult → Prop
  | .running pc => pc.WellFormed
  | .returned replicaName _ => CarriedName replicaName
  | _ => True

/-- **A section of a creation keeps the store well formed**, and so is its result.

**Proof sketch.** Case split on the section. Only the last one writes to a function: the replica has
its name and a name of the right form, so that the pools stay well formed. -/
lemma createSection_wellFormed {w w' : World} {call : CreateCall} {e : Env} {pc : CreatePc}
    {result : CreateResult} (hsec : CreateSection w call e pc w' result) (hw : w.WellFormed)
    (hpc : pc.WellFormed) : w'.WellFormed ∧ result.WellFormed := by
  cases hsec with
  | nativeSlot => exact ⟨hw.congr rfl rfl, trivial⟩
  | wasmSlot => exact ⟨hw.congr rfl rfl, trivial⟩
  | wait => exact ⟨hw, trivial⟩
  | limit => exact ⟨hw, trivial⟩
  | missing => exact ⟨hw, trivial⟩
  | neither => exact ⟨hw, .inl rfl⟩
  | nativeLookup => exact ⟨hw, trivial⟩
  | wasmLookup => exact ⟨hw.congr rfl rfl, two_le_count_wasmName _ _⟩
  | buildFailed => exact ⟨hw.congr rfl rfl, trivial⟩
  | built => exact ⟨hw.congr rfl rfl, .inl rfl, two_le_count_nativeName _ _⟩
  | noStorage => exact ⟨hw, trivial⟩
  | storage => exact ⟨hw, hpc⟩
  | noNet => exact ⟨hw, trivial⟩
  | net => exact ⟨hw.congr rfl rfl, hpc⟩
  | startFailed => exact ⟨hw, trivial⟩
  | started => exact ⟨hw.congr rfl rfl, .inr rfl, hpc⟩
  | addActive hact hf hstats =>
    obtain ⟨hwf, hname⟩ := hw.function hf
    have := hw.setFn (World.heap_of_fn? hf) (hwf.insertActive hpc hname.symm) rfl
    exact ⟨this.congr rfl rfl, .inr hpc.uuid⟩
  | noStats hact hf =>
    obtain ⟨hwf, hname⟩ := hw.function hf
    exact ⟨hw.setFn (World.heap_of_fn? hf) (hwf.insertActive hpc hname.symm) rfl, trivial⟩
  | addIdle hact hf =>
    obtain ⟨hwf, hname⟩ := hw.function hf
    exact ⟨hw.setFn (World.heap_of_fn? hf) (hwf.add hpc hname.symm _) rfl, .inr hpc.uuid⟩
  | addAbsent => exact ⟨hw, trivial⟩

/-- What becomes of an invocation after a creation is well formed. -/
lemma afterCreate_wellFormed (req : Request) (fn : Resolving) {result : CreateResult}
    (h : result.WellFormed) : (Thread.afterCreate req fn result).1.WellFormed := by
  cases result with
  | running pc => exact h
  | returned replicaName replicaIP => exact h
  | failed =>
    unfold Thread.afterCreate
    dsimp only
    split
    · exact Or.inl rfl
    · trivial
  | panicked fault => trivial

/-- **A section of an invocation keeps the store well formed**, and itself.

**Proof sketch.** Case split on the section. A replica that is taken from a pool is well formed, so
the goroutine that holds it is, and the pool that gets it back stays so. -/
lemma requestSection_wellFormed {w w' : World} {req : Request} {e : Env} {pc : RequestPc}
    {t' : Thread} {new : List Thread} (hsec : RequestSection w req e pc w' t' new)
    (hw : w.WellFormed) (hpc : pc.WellFormed) :
    w'.WellFormed ∧ t'.WellFormed := by
  cases hsec with
  | unresolved => exact ⟨hw, trivial⟩
  | resolvedHybrid => exact ⟨hw, trivial⟩
  | resolvedCold => exact ⟨hw, trivial⟩
  | resolved => exact ⟨hw, trivial⟩
  | policyAbsent => exact ⟨hw, trivial⟩
  | policy => exact ⟨hw, trivial⟩
  | idleAbsent => exact ⟨hw, trivial⟩
  | idleNone => exact ⟨hw, trivial⟩
  | idle hf htake =>
    obtain ⟨hr, -, hf', hname⟩ := (hw.function hf).1.takeIdle htake
    exact ⟨hw.setFn (World.heap_of_fn? hf) hf' hname, .inr hr.uuid⟩
  | create hsec =>
    obtain ⟨hw', hres⟩ := createSection_wellFormed hsec hw hpc
    exact ⟨hw', afterCreate_wellFormed _ _ hres⟩
  | buildFailed => exact ⟨hw, trivial⟩
  | build => exact ⟨hw, hpc⟩
  | execNil => exact ⟨hw, trivial⟩
  | execBad => exact ⟨hw, trivial⟩
  | exec => exact ⟨hw, hpc⟩
  | labelsIndex => exact ⟨hw, trivial⟩
  | labelsAbsent => exact ⟨hw, trivial⟩
  | labels => exact ⟨hw, hpc⟩
  | takeAbsent => exact ⟨hw, trivial⟩
  | @take _ replicaName _ f hf =>
    have hwf := (hw.function hf).1
    refine ⟨hw.setFn (World.heap_of_fn? hf) (hwf.eraseActive _) rfl, ?_⟩
    cases hr : f.activeReplicas.lookup replicaName with
    | none => trivial
    | some r =>
      obtain ⟨hr', -, huuid⟩ := hwf.active _ _ hr
      exact ⟨hr', huuid⟩
  | lookAbsent => exact ⟨hw, trivial⟩
  | lookNil => exact ⟨hw, trivial⟩
  | lookDel => exact ⟨hw, hpc.1⟩
  | lookGive => exact ⟨hw, hpc.1⟩
  | giveAbsent => exact ⟨hw, trivial⟩
  | give hf =>
    obtain ⟨hwf, hname⟩ := hw.function hf
    exact ⟨hw.setFn (World.heap_of_fn? hf) (hwf.add hpc hname.symm _) rfl, trivial⟩
  | del hdel => exact ⟨hw.sameStore (World.sameStore_of_deleteReplica hdel), trivial⟩
  | delFault hdel => exact ⟨hw.sameStore (World.sameStore_of_deleteReplica hdel), trivial⟩

/-- Removing the oldest replica of a pool, or the youngest, keeps some of the stored ones. -/
lemma stored_noMRU_subset (p : IdleReplicas) : { p with mru := none }.stored ⊆ p.stored := by
  simp [IdleReplicas.stored]

/-- **So does a section of a sweep.**

**Proof sketch.** A sweep removes from a pool, of which a part is left in its order, and holds only
what it has found there. -/
lemma sweepSection_wellFormed {w w' : World} {e : Env} {pc : SweepPc} {t' : Thread}
    (hsec : SweepSection w e pc w' t') (hw : w.WellFormed) : w'.WellFormed ∧ t'.WellFormed := by
  cases hsec with
  | locked => exact ⟨hw, trivial⟩
  | lock => exact ⟨hw.congr rfl rfl, trivial⟩
  | visit => exact ⟨hw, trivial⟩
  | done => exact ⟨hw.congr rfl rfl, trivial⟩
  | lruAbsent => exact ⟨hw.congr rfl rfl, trivial⟩
  | lru hheap hsweep hf =>
    have hwf := hw.functions _ (List.mem_of_getElem? hheap)
    have hwf' := (hw.function hf).1
    refine ⟨hw.setFn (World.heap_of_fn? hf) (hwf'.idle_subset ?_ ?_) rfl, ?_⟩
    · exact (IdleReplicas.stored_remove_suffix _).subset
    · exact IdleReplicas.ordered_remove _
    · exact (hwf.stored _ (by rw [IdleReplicas.stored_of_sweep_lru hsweep]; simp)).1
  | mru hheap hsweep hdel =>
    have hwf := hw.functions _ (List.mem_of_getElem? hheap)
    have := hw.setFn hheap (hwf.idle_subset (stored_noMRU_subset _) hwf.ordered) rfl
    exact ⟨this.sameStore (World.sameStore_of_deleteReplica hdel), trivial⟩
  | mruFault hheap hsweep hdel =>
    have hwf := hw.functions _ (List.mem_of_getElem? hheap)
    have := hw.setFn hheap (hwf.idle_subset (stored_noMRU_subset _) hwf.ordered) rfl
    exact ⟨(this.sameStore (World.sameStore_of_deleteReplica hdel)).congr rfl rfl, trivial⟩
  | fresh => exact ⟨hw, trivial⟩
  | del hdel => exact ⟨hw.sameStore (World.sameStore_of_deleteReplica hdel), trivial⟩
  | delFault hdel =>
    exact ⟨(hw.sameStore (World.sameStore_of_deleteReplica hdel)).congr rfl rfl, trivial⟩

/-- A deployment makes a function without replicas.

**Proof sketch.** Case split along the branches of `deploy`; each of them makes the function without
replicas. -/
lemma deploy_empty {req : FunctionDeployment} {e : Env} {fn : Function}
    (h : deploy req e = some fn) :
    fn.name = req.service ∧ fn.idleReplicas = {} ∧ fn.activeReplicas = ∅ := by
  unfold deploy at h
  split at h
  · cases h
  dsimp only at h
  split at h
  · split at h
    · cases h
    · cases h
      exact ⟨rfl, rfl, rfl⟩
  split at h
  · split at h
    · cases h
    · cases h
      exact ⟨rfl, rfl, rfl⟩
  split at h
  · cases h
  · cases h
    exact ⟨rfl, rfl, rfl⟩

/-- **One section keeps stores and goroutines well formed.**

**Proof sketch.** Case split on the section; invocations, creations and sweeps have their own
lemmas, and a function that is deployed has no replicas (`deploy_empty`). -/
theorem section_wellFormed {w w' : World} {e : Env} {t t' : Thread} {new : List Thread}
    (hsec : Section w e t w' t' new) (hw : w.WellFormed) (ht : t.WellFormed) :
    w'.WellFormed ∧ t'.WellFormed := by
  cases hsec with
  | request hsec => exact requestSection_wellFormed hsec hw ht
  | @spawn call pc _ result hsec =>
    obtain ⟨hw', hres⟩ := createSection_wellFormed hsec hw ht
    refine ⟨hw', ?_⟩
    cases result with
    | running pc => exact hres
    | returned => trivial
    | failed => trivial
    | panicked => trivial
  | sweep hsec => exact sweepSection_wellFormed hsec hw
  | deleteAll hdel =>
    exact ⟨hw.sameStore (World.sameStore_of_deleteAllReplicas hdel), trivial⟩
  | deleteAllFault hdel =>
    exact ⟨hw.sameStore (World.sameStore_of_deleteAllReplicas hdel), trivial⟩
  | read => exact ⟨hw, trivial⟩
  | rowsFailed => exact ⟨hw, trivial⟩
  | rowsAbsent => exact ⟨hw.congr rfl rfl, trivial⟩
  | rows => exact ⟨hw.congr rfl rfl, trivial⟩
  | unmap => exact ⟨hw.dropFunction _, trivial⟩
  | refused => exact ⟨hw, trivial⟩
  | insert hdeploy hins =>
    obtain ⟨-, rows, rfl⟩ := World.insertFunction_eq hins
    exact ⟨hw.congr rfl rfl, (deploy_empty hdeploy).2⟩
  | map => exact ⟨hw.putFunction (.of_empty ht.1 ht.2), trivial⟩
  | stats => exact ⟨hw.congr rfl rfl, trivial⟩
  | policyAbsent => exact ⟨hw, trivial⟩
  | policy hf =>
    obtain ⟨hwf, -⟩ := hw.function hf
    exact ⟨hw.setFn (World.heap_of_fn? hf) ⟨hwf.ordered, hwf.stored, hwf.active⟩ rfl, trivial⟩

/-! ### Runs -/

/-- The stores in which the provider begins to serve: the functions have no replicas, nothing has
been created or deleted, and every deployed function has its row in the storage. -/
structure World.Fresh (w : World) : Prop where
  wellFormed : w.WellFormed
  pools : ∀ f ∈ w.heap, f.idleReplicas = {} ∧ f.activeReplicas = ∅
  rows : ∀ n, (w.deployedFunctions.lookup n).isSome → n ∈ w.functionTable
  created : w.created = []
  deleteCalls : w.deleteCalls = []
  deletedByAll : w.deletedByAll = []
  containerCount : w.containerCount = 0
  wasmContainerCount : w.wasmContainerCount = 0
  nativeReplicas : w.nativeReplicas = []
  wasmProcs : w.wasmProcs = []

/-- **Restoring one function.** A function that is not deployed yet is put into the store when no
replica is stored for it; otherwise the first stored replica is added to an idle pool that is not
there.

**Proof sketch.** Case split on the rows of the replicas. The first one is added to the pool of a
function that is not in the map yet. -/
lemma restoreFunctions_cons {now : Time} {w : World} {row : StorageFunction}
    {rows : List StorageFunction} (habsent : w.fn? row.name = none) :
    restoreFunctions now w (row :: rows) =
      if w.containerTable.filter (·.parentFunction = row.name) = [] then
        restoreFunctions now (w.putFunction (getFunction row)) rows
      else .error .absentFunction := by
  have hname : (getFunction row).name = row.name := rfl
  cases hcns : w.containerTable.filter (·.parentFunction = row.name) with
  | nil =>
    rw [if_pos rfl]
    simp only [restoreFunctions, hname, hcns, restoreContainers]
  | cons c cs =>
    have hadd : w.addIdleReplica ⟨row.name, [], c.name, 1, c.ip, 0, now⟩ now =
        .error .absentFunction := by
      simp only [World.addIdleReplica, habsent]
    rw [if_neg (List.cons_ne_nil c cs)]
    simp only [restoreFunctions, hname, hcns, restoreContainers, hadd]

/-- Restoring the stored functions keeps a store fresh: a function with a stored replica is not
in `deployedFunctions` yet, and adding the replica panics.

**Proof sketch.** Induct on the rows. A row without stored replicas puts its function into the map;
one with a replica panics, so that the result is not `ok`. -/
lemma restoreFunctions_fresh {now : Time} {rows : List StorageFunction} :
    ∀ {w w' : World}, restoreFunctions now w rows = .ok w' → w.Fresh →
      (∀ row ∈ rows, w.fn? row.name = none ∧ row.name ∈ w.functionTable) →
      (rows.map (·.name)).Nodup → w'.Fresh ∧ w'.cfg = w.cfg := by
  induction rows with
  | nil =>
    intro w w' h hw _ _
    obtain rfl := Except.ok.inj h
    exact ⟨hw, rfl⟩
  | cons row rows ih =>
    intro w w' h hw hrows hnodup
    obtain ⟨habsent, htable⟩ := hrows row List.mem_cons_self
    simp only [List.map_cons, List.nodup_cons] at hnodup
    rw [restoreFunctions_cons habsent] at h
    split at h
    · have hput : (w.putFunction (getFunction row)).Fresh :=
        { wellFormed := hw.wellFormed.putFunction (.of_empty rfl rfl)
          pools := by
            intro f hf
            rcases List.mem_append.mp hf with hf | hf
            · exact hw.pools f hf
            · obtain rfl := List.mem_singleton.mp hf
              exact ⟨rfl, rfl⟩
          rows := by
            intro n hn
            by_cases hname : n = row.name
            · rw [hname]
              exact htable
            · exact hw.rows n (by
                simpa [World.putFunction, AList.lookup_insert_ne
                  (show n ≠ (getFunction row).name from hname)] using hn)
          created := hw.created
          deleteCalls := hw.deleteCalls
          deletedByAll := hw.deletedByAll
          containerCount := hw.containerCount
          wasmContainerCount := hw.wasmContainerCount
          nativeReplicas := hw.nativeReplicas
          wasmProcs := hw.wasmProcs }
      have hrec := ih h hput (fun row' hrow' => ?_) hnodup.2
      · exact ⟨hrec.1, hrec.2⟩
      obtain ⟨habsent', htable'⟩ := hrows row' (List.mem_cons_of_mem _ hrow')
      have hne : row'.name ≠ row.name := by
        intro heq
        exact hnodup.1 (heq ▸ List.mem_map_of_mem hrow')
      refine ⟨?_, htable'⟩
      rw [World.fn?_putFunction hw.wellFormed.valid,
        if_neg (show row'.name ≠ (getFunction row).name from hne)]
      exact habsent'
    · cases h

/-- **The provider begins in a fresh store**, with the network namespaces of
`CreateWasmInterfaces`, of which there is at least one.

**Proof sketch.** Before the rows are restored the store has the tables alone. Each row is put into
the map without replicas (`restoreFunctions_fresh`). -/
theorem startProvider_fresh {cfg : Config} {storage : Storage} {now : Time} {w : World}
    (h : startProvider cfg storage now = .ok w) :
    w.Fresh ∧ w.cfg = cfg ∧ w.netnsList = createWasmInterfaces cfg.maxWasmContainers ∧
      w.netnsList ≠ [] := by
  obtain ⟨w₀, hinit, hne, rfl⟩ := startProvider_eq_ok h
  have hempty : World.Fresh
      { cfg := cfg
        functionTable := storage.functions.map (·.name)
        containerTable := storage.containers } :=
    { wellFormed := ⟨by simp, by simp [World.fn?], by simp⟩
      pools := by simp
      rows := by simp
      created := rfl
      deleteCalls := rfl
      deletedByAll := rfl
      containerCount := rfl
      wasmContainerCount := rfl
      nativeReplicas := rfl
      wasmProcs := rfl }
  obtain ⟨hfresh, hcfg⟩ := restoreFunctions_fresh hinit hempty
    (fun row hrow => ⟨rfl, List.mem_map_of_mem hrow⟩) storage.functions_nodup
  exact ⟨{ hfresh with wellFormed := hfresh.wellFormed.congr rfl rfl }, hcfg, rfl, hne⟩

/-- The states that a run of the provider reaches. -/
def Reachable (c : State) : Prop :=
  ∃ cfg storage now w events, startProvider cfg storage now = .ok w ∧
    Runs.run provider.step ⟨w, []⟩ events = some c

/-- What a run on the small node leads to is reachable. -/
lemma reachable_of_smallRun {events : List Event} {c : State} (h : smallRun events = some c) :
    Reachable c := ⟨_, _, _, _, events, startProvider_small, h⟩

/-- The state in which the small node starts is reachable. -/
lemma reachable_small : Reachable ⟨smallWorld, []⟩ := ⟨_, _, _, _, [], startProvider_small, rfl⟩

/-- A run from a reachable state reaches another one. -/
lemma Reachable.run {c c' : State} (h : Reachable c) {events : List Event}
    (hrun : Runs.run provider.step c events = some c') : Reachable c' := by
  obtain ⟨cfg, storage, now, w, before, hstart, hbefore⟩ := h
  refine ⟨cfg, storage, now, w, before ++ events, hstart, ?_⟩
  rw [Runs.run_append, hbefore]
  exact hrun

/-- The store and the goroutines are well formed. -/
def State.WellFormed (c : State) : Prop :=
  c.shared.WellFormed ∧ c.All fun _ t => t.WellFormed

/-- A request that arrives is well formed. -/
lemma entry_wellFormed {t : Thread} (h : t.entry = true) : t.WellFormed := by
  obtain ⟨req, rfl⟩ | rfl | ⟨req, rfl⟩ | ⟨req, rfl⟩ | ⟨fn, updated, rfl⟩ := entry_cases h <;>
    trivial

/-- One move keeps a state well formed. -/
lemma step_wellFormed {c c' : State} {m : Event} (hc : State.WellFormed c)
    (hstep : provider.step c m = some c') : State.WellFormed c' := by
  obtain ⟨hw, hts⟩ := hc
  refine ⟨?_, Interleaving.all_step hts hstep (fun t _ hent => entry_wellFormed hent) ?_⟩
  · obtain ⟨t, rfl, -, rfl⟩ | ⟨i, e, t, w', t', new, rfl, ht, hn, rfl⟩ :=
      Interleaving.Program.step_cases hstep
    · exact hw
    · exact (section_wellFormed (next_cases hn) hw (hts t (List.mem_of_getElem? ht))).1
  · intro i e t w' t' new _ ht hn
    have hsec := next_cases hn
    refine ⟨(section_wellFormed hsec hw (hts t (List.mem_of_getElem? ht))).2, fun u hu => ?_,
      fun _ _ _ _ h => h⟩
    obtain ⟨call, rfl⟩ := section_new hsec u hu
    trivial

/-- **Every reachable state is well formed.** -/
theorem Reachable.wellFormed {c : State} (h : Reachable c) : State.WellFormed c := by
  obtain ⟨cfg, storage, now, w, events, hstart, hrun⟩ := h
  refine Runs.invariant (fun _ _ _ hI hs => step_wellFormed hI hs) ?_ hrun
  exact ⟨(startProvider_fresh hstart).1.wellFormed, fun t ht => absurd ht List.not_mem_nil⟩

end Fecore
