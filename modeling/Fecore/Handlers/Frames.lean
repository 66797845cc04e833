import Mathlib.Tactic.Common
import Fecore.Handlers.FunctionStore

set_option relaxedAutoImplicit false
set_option autoImplicit false

/-!
# What the sections leave alone

Frame facts about the function store: what a write to one `Function` object, to
`deployedFunctions` or to the node does to the look-ups of the other functions.

## Main definitions

* `Fecore.World.SameStore` — two stores agree on everything a deletion of a replica leaves alone.

## Main results

* `Fecore.World.fn?_setFn`, `fn?_putFunction`, `fn?_dropFunction` — look-ups after a write.
* `Fecore.World.deleteIn_writes` — what a deletion of a replica writes.
* `Fecore.World.sameStore_deleteIn`, `sameStore_deleteEach` — a deletion leaves the functions
  alone.
-/

namespace Fecore

namespace World

variable {w : World}

/-- A look-up finds the object that the map names. -/
lemma fn?_eq_some {name : Str} {o : Ref} {f : Function} :
    w.fn? name = some (o, f) ↔ w.deployedFunctions.lookup name = some o ∧ w.heap[o]? = some f := by
  unfold fn?
  cases w.deployedFunctions.lookup name with
  | none => simp
  | some o' =>
    simp only [Option.map_eq_some_iff, Prod.mk.injEq, Option.some.injEq]
    constructor
    · rintro ⟨f', hf, rfl, rfl⟩
      exact ⟨rfl, hf⟩
    · rintro ⟨rfl, hf⟩
      exact ⟨f, hf, rfl, rfl⟩

/-- What a look-up finds is an object. -/
lemma heap_of_fn? {name : Str} {o : Ref} {f : Function} (h : w.fn? name = some (o, f)) :
    w.heap[o]? = some f := (fn?_eq_some.mp h).2

/-- A deployed function is in the map. -/
lemma mem_deployedFunctions {name : Str} {o : Ref} {f : Function} (h : w.fn? name = some (o, f)) :
    name ∈ w.deployedFunctions := by
  rw [← AList.lookup_isSome, (fn?_eq_some.mp h).1]
  rfl

/-- A look-up needs the map and the heap only. -/
lemma fn?_congr {w' : World} (hheap : w'.heap = w.heap)
    (hmap : w'.deployedFunctions = w.deployedFunctions) (name : Str) :
    w'.fn? name = w.fn? name := by
  simp only [fn?, hheap, hmap]

/-- A look-up after a write to the object at `o`. -/
lemma fn?_setFn {o : Ref} {f f' : Function} (ho : w.heap[o]? = some f) (name : Str) :
    (w.setFn o f').fn? name =
      (w.fn? name).map fun p => if p.1 = o then (o, f') else p := by
  simp only [fn?, setFn]
  cases w.deployedFunctions.lookup name with
  | none => rfl
  | some o' =>
    by_cases heq : o' = o
    · subst heq
      have hlt : o' < w.heap.length := (List.getElem?_eq_some_iff.mp ho).1
      simp [hlt]
    · simp only [List.getElem?_set_ne (Ne.symm heq)]
      cases w.heap[o']? with
      | none => rfl
      | some f' => simp [heq]

/-- The look-up of a function that has just been written. -/
lemma fn?_setFn_self {name : Str} {o : Ref} {f : Function} (hf : w.fn? name = some (o, f))
    (f' : Function) : (w.setFn o f').fn? name = some (o, f') := by
  rw [fn?_setFn (heap_of_fn? hf), hf, Option.map_some, if_pos rfl]

/-- A write to an object leaves the same names deployed. -/
@[simp] lemma fn?_setFn_isSome {o : Ref} {f : Function} (name : Str) :
    ((w.setFn o f).fn? name).isSome = (w.fn? name).isSome := by
  simp only [fn?, setFn]
  cases w.deployedFunctions.lookup name with
  | none => rfl
  | some o' =>
    rw [Option.isSome_map, Option.isSome_map, Bool.eq_iff_iff]
    simp only [Option.isSome_iff_ne_none, ne_eq, List.getElem?_eq_none_iff, List.length_set]

/-- A look-up after `fs.deployedFunctions[fn.name] = fn`, when no pointer of the map dangles. -/
lemma fn?_putFunction {f : Function}
    (hvalid : ∀ n o, w.deployedFunctions.lookup n = some o → o < w.heap.length) (name : Str) :
    (w.putFunction f).fn? name =
      if name = f.name then some (w.heap.length, f) else w.fn? name := by
  by_cases hname : name = f.name
  · subst hname
    simp [fn?, putFunction]
  · simp only [fn?, putFunction, AList.lookup_insert_ne hname, if_neg hname]
    cases h : w.deployedFunctions.lookup name with
    | none => rfl
    | some o => simp [List.getElem?_append_left (hvalid name o h)]

/-- A look-up after `delete(fs.deployedFunctions, fn)`. -/
lemma fn?_dropFunction (fn name : Str) :
    (w.dropFunction fn).fn? name = if name = fn then none else w.fn? name := by
  by_cases hname : name = fn
  · subst hname
    simp [fn?, dropFunction]
  · simp only [fn?, dropFunction, AList.lookup_erase_ne hname, if_neg hname]

/-! ### Deletions of replicas -/

/-- The two stores agree on all but the containers, the processes, the counters and the calls of
deletions. -/
structure SameStore (w w' : World) : Prop where
  cfg : w'.cfg = w.cfg
  heap : w'.heap = w.heap
  deployedFunctions : w'.deployedFunctions = w.deployedFunctions
  functionStats : w'.functionStats = w.functionStats
  functionTable : w'.functionTable = w.functionTable
  netnsList : w'.netnsList = w.netnsList
  created : w'.created = w.created

/-- Two deletions change no more than one. -/
lemma SameStore.trans {w₁ w₂ w₃ : World} (h : SameStore w₁ w₂) (h' : SameStore w₂ w₃) :
    SameStore w₁ w₃ :=
  ⟨h'.1.trans h.1, h'.2.trans h.2, h'.3.trans h.3, h'.4.trans h.4, h'.5.trans h.5,
    h'.6.trans h.6, h'.7.trans h.7⟩

/-- A deletion of a replica changes no look-up. -/
lemma SameStore.fn? {w' : World} (h : SameStore w w') (name : Str) : w'.fn? name = w.fn? name :=
  fn?_congr h.heap h.deployedFunctions name

/-- The two container types differ. -/
lemma wasm_ne_native : wasm ≠ native := by decide

/-- A native replica is deleted as a container. -/
lemma deleteIn_native {r : Replica} (h : r.ctrType = native) (ns : Str) (a : Answers) :
    w.deleteIn ns a r = (w.deleteNativeReplica ns a r, none) := by
  simp only [deleteIn, h, if_true]

/-- A WASM replica is deleted as a process. -/
lemma deleteIn_wasm {r : Replica} (h : r.ctrType = wasm) (ns : Str) (a : Answers) :
    w.deleteIn ns a r = w.deleteWasmReplica a r := by
  simp only [deleteIn, h, wasm_ne_native, if_false, if_true]

/-- A replica of neither type is not deleted at all. -/
lemma deleteIn_other {r : Replica} (hn : r.ctrType ≠ native) (hw : r.ctrType ≠ wasm) (ns : Str)
    (a : Answers) : w.deleteIn ns a r = (w, none) := by
  simp only [deleteIn, hn, hw, if_false]

/-- `DelContainerCount` writes the counter only. -/
lemma delContainerCount_eq (w : World) :
    w.delContainerCount = { w with
      containerCount :=
        if 0 < w.containerCount then w.containerCount - 1 else w.containerCount } := by
  unfold delContainerCount
  split <;> rfl

/-- `DelWasmContainerCount` writes the counter only. -/
lemma delWasmContainerCount_eq (w : World) :
    w.delWasmContainerCount = { w with
      wasmContainerCount :=
        if 0 < w.wasmContainerCount then w.wasmContainerCount - 1 else w.wasmContainerCount } := by
  unfold delWasmContainerCount
  split <;> rfl

/-- The deletion of a native replica is recorded. -/
lemma deleteNativeReplica_deleteCalls (ns : Str) (a : Answers) (r : Replica) :
    (w.deleteNativeReplica ns a r).deleteCalls = (native, r.uuid) :: w.deleteCalls := by
  dsimp only [deleteNativeReplica]
  split
  · rfl
  · rw [delContainerCount_eq]
    rfl

/-- The deletion of a WASM replica is recorded, also when it panics. -/
lemma deleteWasmReplica_deleteCalls (a : Answers) (r : Replica) :
    (w.deleteWasmReplica a r).1.deleteCalls = (wasm, r.uuid) :: w.deleteCalls := by
  dsimp only [deleteWasmReplica]
  split
  · rfl
  split
  · rfl
  split
  · rfl
  · rw [delWasmContainerCount_eq]

/-- A deletion of a replica is recorded under its own container type. -/
lemma deleteIn_deleteCalls (ns : Str) (a : Answers) (r : Replica) :
    (w.deleteIn ns a r).1.deleteCalls =
      if r.ctrType = native ∨ r.ctrType = wasm then (r.ctrType, r.uuid) :: w.deleteCalls
      else w.deleteCalls := by
  by_cases hn : r.ctrType = native
  · rw [deleteIn_native hn, if_pos (.inl hn), hn]
    exact deleteNativeReplica_deleteCalls ns a r
  by_cases hw : r.ctrType = wasm
  · rw [deleteIn_wasm hw, if_pos (.inr hw), hw]
    exact deleteWasmReplica_deleteCalls a r
  · rw [deleteIn_other hn hw, if_neg (by simp [hn, hw])]

/-- **What the deletion of a replica writes**: the node, the counters and its own call.

**Proof sketch.** Case split along the deletion of a native and of a WASM replica. Each of them
returns early or goes on to the counter, which is an update of its own field
(`delContainerCount_eq`, `delWasmContainerCount_eq`). -/
lemma deleteIn_writes (w : World) (ns : Str) (a : Answers) (r : Replica) :
    ∃ containerd nativeReplicas wasmProcs containerCount wasmContainerCount deleteCalls,
      (w.deleteIn ns a r).1 = { w with
        containerd := containerd
        nativeReplicas := nativeReplicas
        wasmProcs := wasmProcs
        containerCount := containerCount
        wasmContainerCount := wasmContainerCount
        deleteCalls := deleteCalls } := by
  unfold deleteIn
  split
  · dsimp only [deleteNativeReplica]
    split
    · exact ⟨_, _, _, _, _, _, rfl⟩
    · rw [delContainerCount_eq]
      exact ⟨_, _, _, _, _, _, rfl⟩
  split
  · dsimp only [deleteWasmReplica]
    split
    · exact ⟨_, _, _, _, _, _, rfl⟩
    split
    · exact ⟨_, _, _, _, _, _, rfl⟩
    split
    · exact ⟨_, _, _, _, _, _, rfl⟩
    · rw [delWasmContainerCount_eq]
      exact ⟨_, _, _, _, _, _, rfl⟩
  · exact ⟨_, _, _, _, _, _, rfl⟩

/-- The deletion of a replica leaves the functions alone. -/
lemma sameStore_deleteIn (w : World) (ns : Str) (a : Answers) (r : Replica) :
    SameStore w (w.deleteIn ns a r).1 := by
  obtain ⟨c, n, p, k, j, d, heq⟩ := w.deleteIn_writes ns a r
  rw [heq]
  exact ⟨rfl, rfl, rfl, rfl, rfl, rfl, rfl⟩

/-- Only the loop of `DeleteAllReplicas` marks the replicas it comes to. -/
lemma deleteIn_deletedByAll (ns : Str) (a : Answers) (r : Replica) :
    (w.deleteIn ns a r).1.deletedByAll = w.deletedByAll := by
  obtain ⟨c, n, p, k, j, d, heq⟩ := w.deleteIn_writes ns a r
  rw [heq]

/-- The deletion of a replica writes no row. -/
lemma deleteIn_containerTable (ns : Str) (a : Answers) (r : Replica) :
    (w.deleteIn ns a r).1.containerTable = w.containerTable := by
  obtain ⟨c, n, p, k, j, d, heq⟩ := w.deleteIn_writes ns a r
  rw [heq]

/-- The deletion of a replica whose function is deployed does not panic. -/
lemma deleteIn_noFault {r : Replica} (hf : (w.fn? r.fname).isSome) (ns : Str)
    (a : Answers) : (w.deleteIn ns a r).2 = none := by
  unfold deleteIn
  split
  · rfl
  split
  · have hmark : fn? { w with deleteCalls := (wasm, r.uuid) :: w.deleteCalls } r.fname =
        w.fn? r.fname := rfl
    obtain ⟨of, hof⟩ := Option.isSome_iff_exists.mp hf
    simp only [deleteWasmReplica, hmark, hof]
    split
    · rfl
    · split <;> rfl
  · rfl

/-- `DeleteReplica` changes containers, processes, counters and calls only. -/
lemma sameStore_of_deleteReplica {w' : World} {a : Answers} {r : Replica} {fault : Option Fault}
    (h : w.deleteReplica a r = (w', fault)) : SameStore w w' := by
  have hsame := sameStore_deleteIn w defaultFunctionNamespace a r
  rw [deleteReplica] at h
  rwa [h] at hsame

/-- The deletion of all replicas in a list leaves the functions alone.

**Proof sketch.** Induct on the list; each deletion keeps the functions (`sameStore_deleteIn`),
whether the loop goes on after it or panics. -/
lemma sameStore_deleteEach (ns : Str) (answers : Str → Answers) (rs : List Replica) :
    ∀ w : World, SameStore w (deleteEach ns answers w rs).1 := by
  induction rs with
  | nil => exact fun w => ⟨rfl, rfl, rfl, rfl, rfl, rfl, rfl⟩
  | cons r rs ih =>
    intro w
    have hdel := sameStore_deleteIn { w with deletedByAll := r.uuid :: w.deletedByAll } ns
      (answers r.uuid) r
    have hfirst : SameStore w ({ w with deletedByAll := r.uuid :: w.deletedByAll }.deleteIn ns
        (answers r.uuid) r).1 := by
      refine SameStore.trans ?_ hdel
      exact ⟨rfl, rfl, rfl, rfl, rfl, rfl, rfl⟩
    unfold deleteEach
    dsimp only
    split
    · next w' heq =>
      rw [heq] at hfirst
      exact hfirst.trans (ih w')
    · next w' fault heq =>
      rw [heq] at hfirst
      exact hfirst

/-- `DeleteAllReplicas` leaves the functions alone. -/
lemma sameStore_deleteAllReplicas (w : World) (ns : Str) (answers : Str → Answers) (fn : Str) :
    SameStore w (w.deleteAllReplicas ns answers fn).1 := by
  unfold deleteAllReplicas
  split
  · exact ⟨rfl, rfl, rfl, rfl, rfl, rfl, rfl⟩
  split
  · exact ⟨rfl, rfl, rfl, rfl, rfl, rfl, rfl⟩
  · exact sameStore_deleteEach ns answers _ w

/-- `DeleteAllReplicas` changes these only: it does not empty the pool. -/
lemma sameStore_of_deleteAllReplicas {w' : World} {ns : Str} {answers : Str → Answers} {fn : Str}
    {fault : Option Fault} (h : w.deleteAllReplicas ns answers fn = (w', fault)) :
    SameStore w w' := by
  have hsame := sameStore_deleteAllReplicas w ns answers fn
  rwa [h] at hsame

/-- The insertion of a function into the storage writes the tables only. -/
lemma insertContainers_eq {w' : World} {cs : List StorageContainer} :
    w.insertContainers cs = some w' →
      ∃ rows, w' = { w with containerTable := rows } := by
  induction cs generalizing w with
  | nil =>
    intro h
    obtain rfl := Option.some.inj h
    exact ⟨w.containerTable, rfl⟩
  | cons c cs ih =>
    intro h
    simp only [insertContainers] at h
    split at h
    · cases h
    · obtain ⟨rows, rfl⟩ := ih h
      exact ⟨rows, rfl⟩

/-- A function is inserted when its name is not in the table yet; only the tables change. -/
lemma insertFunction_eq {w' : World} {f : Function} (h : w.insertFunction f = some w') :
    f.name ∉ w.functionTable ∧ ∃ rows,
      w' = { w with functionTable := f.name :: w.functionTable, containerTable := rows } := by
  unfold insertFunction at h
  split at h
  · cases h
  · next hname =>
    obtain ⟨rows, rfl⟩ := insertContainers_eq h
    exact ⟨hname, rows, rfl⟩

end World

end Fecore
