import Mathlib.Algebra.Order.Group.Nat
import Mathlib.Tactic.Common
import Fecore.Concurrency.Crashes
import Fecore.Handlers.Deployments
import Fecore.Handlers.StoredFunctions

set_option relaxedAutoImplicit false
set_option autoImplicit false

/-!
# Crashes of the provider

The provider with its storage (`pkg/provider/storage/sqlite_impl.go`): what each section writes to
the tables, row by row, and the start from these tables after a crash at any point
(`InitFunctionStore` of `pkg/provider/handlers/function_store.go`).

## Main definitions

* `Fecore.Storage.insertFunction`, `deleteFunction`, `insertContainer`, `deleteContainer` — the
  statements of the storage.
* `Fecore.Thread.persist`, `Fecore.crashingProvider` — what a section writes, and the provider that
  crashes and starts again.
* `Fecore.Function.persisted`, `Function.SavedAs` — what is stored of a function, and a row that has
  it.
* `Fecore.State.deletions` — the deletions of a function that are under way.

## Main results

* `Fecore.section_persists` — what a section does to the deployed functions and the storage.
* `Fecore.crash_restarts` — the tables never keep the provider from starting again.
* `Fecore.crash_durable` — a deployed function is there again after a crash, unless two deletions of
  it were under way at once, or one was at its end.
-/

namespace Fecore

/-! ### The storage -/

namespace Storage

/-- `InsertFunction`: the name is the primary key. -/
def insertFunction (storage : Storage) (function : StorageFunction) : Option Storage :=
  if h : function.name ∈ storage.functions.map (·.name) then none
  else some
    { storage with
      functions := function :: storage.functions
      functions_nodup := List.nodup_cons.mpr ⟨h, storage.functions_nodup⟩ }

/-- `DeleteFunction`. -/
def deleteFunction (storage : Storage) (name : Str) : Storage :=
  { storage with
    functions := storage.functions.filter (·.name ≠ name)
    functions_nodup := (List.filter_sublist.map _).nodup storage.functions_nodup }

/-- `InsertContainer`: the name is the primary key. -/
def insertContainer (storage : Storage) (container : StorageContainer) : Option Storage :=
  if container.name ∈ storage.containers.map (·.name) then none
  else some { storage with containers := container :: storage.containers }

/-- `DeleteContainer`. -/
def deleteContainer (storage : Storage) (name : Str) : Storage :=
  { storage with containers := storage.containers.filter (·.name ≠ name) }

/-- The insertions of `AddDeployedFunction` up to one that fails. -/
def insertContainers : Storage → List StorageContainer → Storage
  | storage, [] => storage
  | storage, c :: cs =>
    match storage.insertContainer c with
    | none => storage
    | some storage' => insertContainers storage' cs

end Storage

/-- The persisted fields of a function that `deploy` has made: the annotations and the secrets are
nil, and so may the environment be, which makes no difference to what comes back. -/
def Function.record (f : Function) : FunctionRecord :=
  { name := f.name
    namespace_ := f.namespace_
    image := f.image
    labels := some f.labels
    secretsPath := f.secretsPath
    envVars := some f.envVars
    envProcess := f.envProcess
    memoryLimit := f.memoryLimit }

/-- The insertions of `AddDeployedFunction`. -/
def Storage.addDeployedFunction (storage : Storage) (fn : Function) : Storage :=
  match storage.insertFunction (getStorageFunction fn.record) with
  | none => storage
  | some storage' => storage'.insertContainers (World.getContainers fn)

/-- The deletions of `RemoveDeployedFunction`; a function that was not there makes it panic after
the first. -/
def Storage.removeDeployedFunction (storage : Storage) (name : Str) (fn : Option Function) :
    Storage :=
  (fn.elim [] World.getContainers).foldl (fun storage c => storage.deleteContainer c.name)
    (storage.deleteFunction name)

/-- What a section writes to the storage. -/
def Thread.persist (w : World) (e : Env) (storage : Storage) : Thread → Storage
  | .deploy (.insert req) =>
    match Fecore.deploy req e with
    | none => storage
    | some fn => storage.addDeployedFunction fn
  | .delete req (.rows fn) =>
    if e.err then storage
    else storage.removeDeployedFunction req.functionName (fn.bind fun o => w.heap[o]?)
  | _ => storage

/-- What a move writes to the storage. -/
def State.persist (s : State) (m : Event) (storage : Storage) : Storage :=
  match m with
  | .arrive _ => storage
  | .step i e =>
    match s.threads[i]? with
    | none => storage
    | some t => t.persist s.shared e storage

/-- The provider with its storage. After a crash it starts from the tables at a time. -/
def crashingProvider (cfg : Config) : Crashes.Machine State Storage Event Time where
  step := provider.step
  write s m storage := s.persist m storage
  start storage now :=
    match startProvider cfg storage now with
    | .error _ => none
    | .ok w => some ⟨w, []⟩

/-! ### The rows and the table of names -/

/-- The tables of the store are those of the storage, and no replica is stored. -/
structure Storage.Backs (storage : Storage) (w : World) : Prop where
  functions : storage.functions.map (·.name) = w.functionTable
  containers : storage.containers = []

namespace Storage.Backs

variable {storage storage' : Storage} {w w' : World}

/-- A section that leaves the names in the table alone writes nothing. -/
lemma congr (h : storage.Backs w) (htable : w'.functionTable = w.functionTable) :
    storage.Backs w' := ⟨h.functions.trans htable.symm, h.containers⟩

/-- A row is inserted when the name is not taken. -/
lemma insert {f : StorageFunction} (h : storage.Backs w) (hname : f.name ∉ w.functionTable) :
    ∃ storage', storage.insertFunction f = some storage' ∧
      storage'.functions = f :: storage.functions ∧
      storage'.Backs { w with functionTable := f.name :: w.functionTable } := by
  have hnew : f.name ∉ storage.functions.map (·.name) := by rwa [h.functions]
  refine ⟨_, dif_neg hnew, rfl, ?_, h.containers⟩
  exact congrArg (f.name :: ·) h.functions

/-- The row of a function is deleted when its name is. -/
lemma delete (h : storage.Backs w) (name : Str) :
    (storage.deleteFunction name).Backs
      { w with functionTable := w.functionTable.filter (· ≠ name) } := by
  refine ⟨?_, h.containers⟩
  rw [← h.functions, List.filter_map]
  rfl

end Storage.Backs

/-- Deleting replicas from a table without replicas leaves the storage as it is. -/
lemma Storage.foldl_deleteContainer {storage : Storage} (h : storage.containers = [])
    (cs : List StorageContainer) :
    cs.foldl (fun storage c => storage.deleteContainer c.name) storage = storage := by
  induction cs with
  | nil => rfl
  | cons c cs ih =>
    have hdelete : storage.deleteContainer c.name = storage := by
      unfold Storage.deleteContainer
      rw [h, List.filter_nil, ← h]
    rw [List.foldl_cons, hdelete, ih]

/-- The row of a function. -/
abbrev Function.row (f : Function) : StorageFunction := getStorageFunction f.record

/-- **The insertions of a function without replicas**: the storage takes its row when the store
does, and is left alone otherwise.

**Proof sketch.** Case split on whether the name has a row. If it has, both insertions fail;
otherwise both add the row, and there are no container rows to be added. -/
lemma Storage.Backs.addDeployedFunction {storage : Storage} {w : World} (hb : storage.Backs w)
    {fn : Function} (hempty : fn.idleReplicas = {} ∧ fn.activeReplicas = ∅) :
    (w.insertFunction fn = none ∧ storage.addDeployedFunction fn = storage) ∨
      (fn.name ∉ w.functionTable ∧
        w.insertFunction fn = some { w with functionTable := fn.name :: w.functionTable } ∧
        (storage.addDeployedFunction fn).functions = fn.row :: storage.functions ∧
        (storage.addDeployedFunction fn).Backs
          { w with functionTable := fn.name :: w.functionTable }) := by
  have hnil := World.getContainers_eq_nil hempty.1 hempty.2
  by_cases hname : fn.name ∈ w.functionTable
  · have htaken : fn.row.name ∈ storage.functions.map (·.name) := by rwa [hb.functions]
    refine .inl ⟨if_pos hname, ?_⟩
    rw [Storage.addDeployedFunction, Storage.insertFunction, dif_pos htaken]
  · obtain ⟨storage', hins, hrows, hb'⟩ := hb.insert (f := fn.row) hname
    have hadd : storage.addDeployedFunction fn = storage' := by
      rw [Storage.addDeployedFunction, hins, hnil]
      rfl
    refine .inr ⟨hname, ?_, hadd ▸ hrows, hadd ▸ hb'⟩
    rw [World.insertFunction, if_neg hname, hnil]
    rfl

/-! ### What comes back -/

/-- What is stored of a function and read back: its replicas, its policy, its sandboxes, its image
files and its environment are lost. -/
def Function.persisted (f : Function) : Function :=
  { name := f.name
    namespace_ := f.namespace_
    image := f.image
    labels := f.labels
    secretsPath := f.secretsPath
    envProcess := f.envProcess
    memoryLimit := f.memoryLimit }

/-- The row has what is persisted of the function. -/
def Function.SavedAs (f : Function) (row : StorageFunction) : Prop :=
  (getFunction row).persisted = f.persisted

/-- The row that a deployment writes has what is persisted of the function. -/
lemma Function.savedAs_row (f : Function) : f.SavedAs f.row := by
  have hlabels : (getFunction f.row).labels = f.labels := AList.union_empty
  simp only [SavedAs, persisted, hlabels]
  rfl

/-- The row of a function has its name. -/
lemma Function.SavedAs.name {f : Function} {row : StorageFunction} (h : f.SavedAs row) :
    row.name = f.name := congrArg Function.name h

/-- One of the rows has what is persisted of the function. -/
def Function.Saved (f : Function) (rows : List StorageFunction) : Prop :=
  ∃ row ∈ rows, f.SavedAs row

namespace Function.Saved

variable {f g : Function} {rows : List StorageFunction}

/-- What is not persisted may change. -/
lemma congr (h : f.Saved rows) (heq : g.persisted = f.persisted) : g.Saved rows := by
  obtain ⟨row, hrow, hsaved⟩ := h
  exact ⟨row, hrow, hsaved.trans heq.symm⟩

/-- A row more takes nothing away. -/
lemma cons (h : f.Saved rows) (row : StorageFunction) : f.Saved (row :: rows) := by
  obtain ⟨row', hrow', hsaved⟩ := h
  exact ⟨row', List.mem_cons_of_mem _ hrow', hsaved⟩

/-- The row of another function is deleted. -/
lemma filter (h : f.Saved rows) {name : Str} (hne : f.name ≠ name) :
    f.Saved (rows.filter (·.name ≠ name)) := by
  obtain ⟨row, hrow, hsaved⟩ := h
  refine ⟨row, List.mem_filter.mpr ⟨hrow, ?_⟩, hsaved⟩
  rw [decide_eq_true_eq, hsaved.name]
  exact hne

/-- A function that is saved has its name among the rows. -/
lemma name_mem (h : f.Saved rows) : f.name ∈ rows.map (·.name) := by
  obtain ⟨row, hrow, hsaved⟩ := h
  exact hsaved.name ▸ List.mem_map_of_mem hrow

end Function.Saved

/-- The same functions are deployed in the same objects, up to what is not persisted. -/
structure World.SameRecords (w w' : World) : Prop where
  deployedFunctions : w'.deployedFunctions = w.deployedFunctions
  records : ∀ o : Ref, (w'.heap[o]?).map Function.persisted = (w.heap[o]?).map Function.persisted

namespace World.SameRecords

variable {w w' : World}

/-- What changes replicas only changes nothing that is persisted. -/
lemma of_sameSpecs (h : SameSpecs w w') : SameRecords w w' := by
  refine ⟨h.deployedFunctions, fun o => ?_⟩
  have hrecord : Function.persisted = Function.persisted ∘ Function.spec := rfl
  rw [hrecord, ← Option.map_map, ← Option.map_map, h.specs o]

/-- What leaves the objects and the map alone changes nothing that is persisted. -/
lemma of_heap (hheap : w'.heap = w.heap) (hmap : w'.deployedFunctions = w.deployedFunctions) :
    SameRecords w w' := ⟨hmap, fun o => by rw [hheap]⟩

/-- What is deployed afterwards was deployed before, up to what is not persisted. -/
lemma fn?_eq_some {name : Str} {o : Ref} {f' : Function} (h : SameRecords w w')
    (hf : w'.fn? name = some (o, f')) :
    ∃ f, w.fn? name = some (o, f) ∧ f'.persisted = f.persisted := by
  obtain ⟨hmap, ho⟩ := World.fn?_eq_some.mp hf
  have hrecord := h.records o
  rw [ho, Option.map_some, eq_comm, Option.map_eq_some_iff] at hrecord
  obtain ⟨f, ho', hrecord⟩ := hrecord
  exact ⟨f, World.fn?_eq_some.mpr ⟨by rw [← h.deployedFunctions, hmap], ho'⟩, hrecord.symm⟩

/-- Agreement on what is persisted goes both ways. -/
lemma symm (h : SameRecords w w') : SameRecords w' w := ⟨h.1.symm, fun o => (h.2 o).symm⟩

/-- What is not deployed in one store is not deployed in the other. -/
lemma fn?_eq_none {name : Str} (h : SameRecords w w') :
    w'.fn? name = none ↔ w.fn? name = none := by
  rw [← Option.not_isSome_iff_eq_none, ← Option.not_isSome_iff_eq_none, not_iff_not,
    Option.isSome_iff_exists, Option.isSome_iff_exists]
  constructor
  · rintro ⟨⟨o, f⟩, hf⟩
    obtain ⟨f', hf', -⟩ := h.fn?_eq_some hf
    exact ⟨_, hf'⟩
  · rintro ⟨⟨o, f⟩, hf⟩
    obtain ⟨f', hf', -⟩ := h.symm.fn?_eq_some hf
    exact ⟨_, hf'⟩

end World.SameRecords

open World (SameRecords)

/-! ### Deletions and deployments under way -/

/-- One for a deletion of the function after `DeleteAllReplicas`. -/
def Thread.deleting (n : Str) : Thread → ℕ
  | .delete _ .deleteAll => 0
  | .delete req _ => if req.functionName = n then 1 else 0
  | _ => 0

/-- One for a deletion of the function that only has to delete it from `deployedFunctions`. -/
def Thread.unmapping (n : Str) : Thread → ℕ
  | .delete req .unmap => if req.functionName = n then 1 else 0
  | _ => 0

/-- One for a deployment that only has to put the function into `deployedFunctions`. -/
def Thread.mapping (n : Str) : Thread → ℕ
  | .deploy (.map fn) => if fn.name = n then 1 else 0
  | _ => 0

/-- How many deletions of the function are under way. -/
def State.deletions (n : Str) (s : State) : ℕ := (s.threads.map (Thread.deleting n)).sum

/-- How many deletions of the function are at their end. -/
def State.unmappings (n : Str) (s : State) : ℕ := (s.threads.map (Thread.unmapping n)).sum

/-- How many deployments of the function are about to put it into `deployedFunctions`. -/
def State.mappings (n : Str) (s : State) : ℕ := (s.threads.map (Thread.mapping n)).sum

/-- The goroutines that change what is deployed. -/
def Thread.manages : Thread → Bool
  | .delete _ _ | .deploy _ => true
  | _ => false

/-- A measure of deletions and deployments is zero for all other goroutines. -/
lemma sum_eq_zero_of_not_manages {h : Thread → ℕ} (hzero : ∀ t, t.manages = false → h t = 0)
    {ts : List Thread} (hts : ∀ t ∈ ts, t.manages = false) : (ts.map h).sum = 0 := by
  refine List.sum_eq_zero fun x hx => ?_
  obtain ⟨t, ht, rfl⟩ := List.mem_map.mp hx
  exact hzero t (hts t ht)

/-- A goroutine that manages nothing is at the end of no deletion. -/
lemma Thread.unmapping_of_not_manages (n : Str) (t : Thread) (h : t.manages = false) :
    t.unmapping n = 0 := by
  cases t <;> first | rfl | cases h

/-- A goroutine that manages nothing is not about to deploy a function. -/
lemma Thread.mapping_of_not_manages (n : Str) (t : Thread) (h : t.manages = false) :
    t.mapping n = 0 := by
  cases t <;> first | rfl | cases h

/-! ### Sections over the storage -/

/-- **Everything that a section can do to the deployed functions and the storage.** -/
inductive StoredSection (w : World) (storage : Storage) :
    Thread → World → Storage → Thread → List Thread → Prop
  /-- any other section -/
  | other {t t' : Thread} {w' : World} {new : List Thread} (hsame : SameRecords w w')
      (htable : w'.functionTable = w.functionTable)
      (ht : ∀ n, t.unmapping n = 0 ∧ t.mapping n = 0) (ht' : t'.manages = false)
      (hnew : ∀ u ∈ new, u.manages = false) : StoredSection w storage t w' storage t' new
  | deleteAll {req : DeleteRequest} {w' : World} (hsame : SameRecords w w')
      (htable : w'.functionTable = w.functionTable) (hf : w.fn? req.functionName ≠ none) :
      StoredSection w storage (.delete req .deleteAll) w' storage (.delete req .read) []
  | read {req : DeleteRequest} :
      StoredSection w storage (.delete req .read) w storage
        (.delete req (.rows (w.deployedFunctions.lookup req.functionName))) []
  /-- the function was not there -/
  | rowsAbsent {req : DeleteRequest} {fn : Option Ref}
      (hf : (fn.bind fun o => w.heap[o]?) = none) :
      StoredSection w storage (.delete req (.rows fn))
        { w with functionTable := w.functionTable.filter (· ≠ req.functionName) }
        (storage.deleteFunction req.functionName) (.panicked .absentFunction) []
  | rows {req : DeleteRequest} {fn : Option Ref} {f : Function} :
      StoredSection w storage (.delete req (.rows fn)) (w.deleteRows req.functionName f)
        (storage.deleteFunction req.functionName) (.delete req .unmap) []
  | unmap {req : DeleteRequest} :
      StoredSection w storage (.delete req .unmap) (w.dropFunction req.functionName) storage
        .returned []
  | insert {req : FunctionDeployment} {fn : Function} {storage' : Storage}
      (hname : fn.name ∉ w.functionTable)
      (hfunctions : storage'.functions = fn.row :: storage.functions)
      (hcontainers : storage'.containers = storage.containers) :
      StoredSection w storage (.deploy (.insert req))
        { w with functionTable := fn.name :: w.functionTable } storage' (.deploy (.map fn)) []
  | map {fn : Function} :
      StoredSection w storage (.deploy (.map fn)) (w.putFunction fn) storage
        (.deploy (.stats fn.name)) []

/-- An invocation, a creation or a sweep does not go on as a deletion or deployment.

**Proof sketch.** Case split on the section; a creation that returns starts other creations. -/
lemma requestSection_manages {w w' : World} {req : Request} {e : Env} {pc : RequestPc}
    {t' : Thread} {new : List Thread} (hsec : RequestSection w req e pc w' t' new) :
    t'.manages = false ∧ ∀ u ∈ new, u.manages = false := by
  have hnil : ∀ u ∈ ([] : List Thread), u.manages = false := fun _ hu => absurd hu List.not_mem_nil
  cases hsec with
  | @create fn pc _ result hsec =>
    cases result with
    | running pc => exact ⟨rfl, hnil⟩
    | returned replicaName replicaIP =>
      refine ⟨rfl, fun u hu => ?_⟩
      simp only [Thread.afterCreate, Resolving.spawns] at hu
      split at hu
      · rw [List.eq_of_mem_replicate hu]
        rfl
      · exact hnil u hu
    | failed =>
      refine ⟨?_, hnil⟩
      simp only [Thread.afterCreate]
      split <;> rfl
    | panicked fault => exact ⟨rfl, hnil⟩
  | _ => exact ⟨rfl, hnil⟩

/-- **What a section does to the deployed functions and the storage.**

**Proof sketch.** Case split on the section. The sections of invocations, creations and sweeps write
no specification, so the storage goes on backing the table; each section of a deployment or deletion
has its own case of `StoredSection`. -/
theorem section_persists {w w' : World} {e : Env} {t t' : Thread} {new : List Thread}
    {storage : Storage} (h : provider.next w t e = some (w', t', new)) (hb : storage.Backs w) :
    StoredSection w storage t w' (t.persist w e storage) t' new := by
  have hsec := next_cases h
  have hnil : ∀ u ∈ ([] : List Thread), u.manages = false := fun _ hu => absurd hu List.not_mem_nil
  have hzero : ∀ {t : Thread}, t.manages = false → ∀ n, t.unmapping n = 0 ∧ t.mapping n = 0 :=
    fun ht n => ⟨Thread.unmapping_of_not_manages n _ ht, Thread.mapping_of_not_manages n _ ht⟩
  cases hsec with
  | request hsec =>
    have hsame := requestSection_sameSpecs hsec
    obtain ⟨ht', hnew⟩ := requestSection_manages hsec
    exact .other (.of_sameSpecs hsame) hsame.functionTable (hzero rfl) ht' hnew
  | @spawn call pc _ result hsec =>
    have hsame := createSection_sameSpecs hsec
    have ht' : (Thread.afterSpawn call result).manages = false := by cases result <;> rfl
    exact .other (.of_sameSpecs hsame) hsame.functionTable (hzero rfl) ht' hnil
  | @sweep pc _ t' hsec =>
    have hsame := sweepSection_sameSpecs hsec
    have ht' : t'.manages = false := by cases hsec <;> rfl
    exact .other (.of_sameSpecs hsame) hsame.functionTable (hzero rfl) ht' hnil
  | @deleteAll req _ hdel =>
    have hsame := World.sameStore_of_deleteAllReplicas hdel
    refine .deleteAll (.of_sameSpecs (.of_sameStore hsame)) hsame.functionTable fun hnone => ?_
    rw [World.deleteAllReplicas, hnone] at hdel
    cases hdel
  | deleteAllFault hdel =>
    have hsame := World.sameStore_of_deleteAllReplicas hdel
    exact .other (.of_sameSpecs (.of_sameStore hsame)) hsame.functionTable (fun _ => ⟨rfl, rfl⟩) rfl
      hnil
  | read => exact .read
  | rowsFailed herr =>
    simp only [Thread.persist, herr, if_true]
    exact .other (.of_heap rfl rfl) rfl (fun _ => ⟨rfl, rfl⟩) rfl hnil
  | rowsAbsent herr hf =>
    rw [Thread.persist, herr, hf]
    exact .rowsAbsent hf
  | @rows req fn f herr hf =>
    have hpersist : (Thread.delete req (.rows fn)).persist w e storage =
        storage.deleteFunction req.functionName := by
      simp only [Thread.persist, herr, hf, Bool.false_eq_true, if_false]
      exact Storage.foldl_deleteContainer (hb.delete req.functionName).containers _
    rw [hpersist]
    exact .rows
  | unmap => exact .unmap
  | @refused req =>
    have hother : StoredSection w storage (.deploy (.insert req)) w storage .returned [] :=
      .other (.of_heap rfl rfl) rfl (fun _ => ⟨rfl, rfl⟩) rfl hnil
    cases hdeploy : Fecore.deploy req e with
    | none =>
      simp only [Thread.persist, hdeploy]
      exact hother
    | some fn =>
      simp only [Thread.persist, hdeploy]
      obtain ⟨-, hadd⟩ | ⟨-, hins, -⟩ := hb.addDeployedFunction (deploy_empty hdeploy).2
      · rw [hadd]
        exact hother
      · simp [provider, Thread.next, deployNext, hdeploy, hins] at h
  | @insert req fn _ hdeploy hins =>
    simp only [Thread.persist, hdeploy]
    obtain ⟨hnone, -⟩ | ⟨hname, hins', hrows, hb'⟩ :=
      hb.addDeployedFunction (deploy_empty hdeploy).2
    · rw [hnone] at hins
      cases hins
    · obtain rfl := Option.some.inj (hins.symm.trans hins')
      exact .insert hname hrows (hb'.containers.trans hb.containers.symm)
  | map => exact .map
  | stats => exact .other (.of_heap rfl rfl) rfl (fun _ => ⟨rfl, rfl⟩) rfl hnil
  | policyAbsent => exact .other (.of_heap rfl rfl) rfl (fun _ => ⟨rfl, rfl⟩) rfl hnil
  | policy hf =>
    refine .other ⟨rfl, fun o => ?_⟩ rfl (fun _ => ⟨rfl, rfl⟩) rfl hnil
    exact World.map_setFn Function.persisted (World.heap_of_fn? hf) (by rfl) o

/-- **The rows follow the table of names**: after a section the storage has the rows whose names the
store has. -/
theorem StoredSection.backs {w w' : World} {t t' : Thread} {new : List Thread}
    {storage storage' : Storage} (hsec : StoredSection w storage t w' storage' t' new)
    (hb : storage.Backs w) : storage'.Backs w' := by
  cases hsec with
  | other hsame htable => exact hb.congr htable
  | deleteAll hsame htable => exact hb.congr htable
  | read => exact hb
  | rowsAbsent => exact hb.delete _
  | rows => exact (hb.delete _).congr rfl
  | unmap => exact hb.congr rfl
  | @insert req fn _ hname hfunctions hcontainers =>
    refine ⟨?_, hcontainers.trans hb.containers⟩
    rw [hfunctions, List.map_cons, hb.functions]
    rfl
  | map => exact hb.congr rfl

/-! ### Starting again -/

/-- Without stored replicas the provider starts, and it does so whenever it has done so before. -/
lemma startProvider_of_noContainers {cfg : Config} {storage₀ storage : Storage} {now₀ : Time}
    {w₀ : World} (hstart : startProvider cfg storage₀ now₀ = .ok w₀)
    (hno : storage.containers = []) (now : Time) : ∃ w, startProvider cfg storage now = .ok w := by
  obtain ⟨-, -, hpairs, -⟩ := startProvider_eq_ok hstart
  obtain ⟨w, hinit⟩ := (initFunctionStore_iff cfg storage now).1.mpr fun row _ => by
    rw [Storage.containersOf, hno, List.filter_nil]
  unfold startProvider
  rw [hinit]
  cases hcreate : createWasmInterfaces cfg.maxWasmContainers with
  | nil => exact absurd hcreate hpairs
  | cons pair pairs => exact ⟨_, rfl⟩

/-- What a start from the tables makes of them. -/
lemma startProvider_backs {cfg : Config} {storage : Storage} {now : Time} {w : World}
    (hstart : startProvider cfg storage now = .ok w) (hno : storage.containers = []) :
    storage.Backs w := ⟨(startProvider_restored hstart).1.functionTable.symm, hno⟩

/-- A step writes what the section of its goroutine writes. -/
lemma State.persist_of_getElem? {s : State} {i : ℕ} {t : Thread} (ht : s.threads[i]? = some t)
    (e : Env) (storage : Storage) :
    s.persist (.step i e) storage = t.persist s.shared e storage := by
  rw [State.persist, ht]

/-- A move keeps the rows and the names in step. -/
lemma step_backs {s s' : State} {m : Event} {storage : Storage} (hb : storage.Backs s.shared)
    (hstep : provider.step s m = some s') : (s.persist m storage).Backs s'.shared := by
  obtain ⟨t, rfl, -, rfl⟩ | ⟨i, e, t, w', t', new, rfl, ht, hn, rfl⟩ :=
    Interleaving.Program.step_cases hstep
  · exact hb
  · rw [State.persist_of_getElem? ht]
    exact (section_persists hn hb).backs hb

/-- A start after a crash. -/
lemma crashingProvider_start {cfg : Config} {storage : Storage} {now : Time} {s : State}
    (h : (crashingProvider cfg).start storage now = some s) :
    startProvider cfg storage now = .ok s.shared ∧ s.threads = [] := by
  simp only [crashingProvider] at h
  split at h
  · cases h
  · next w hstart =>
    obtain rfl := Option.some.inj h
    exact ⟨hstart, rfl⟩

/-- The native function `f` is deployed; the provider crashes and starts again. -/
def deployCrash : List (Crashes.Event Event Time) :=
  (deployF (AList.singleton ctrTypeLabel native)).map .step ++ [.crash 5]

/-- The provider and its storage after `deployCrash`. -/
def afterCrash : State × Storage :=
  (Runs.run (crashingProvider smallConfig).next (⟨smallWorld, []⟩, {}) deployCrash).get rfl

/-- The run leads to its state. -/
lemma run_deployCrash :
    Runs.run (crashingProvider smallConfig).next (⟨smallWorld, []⟩, {}) deployCrash =
      some (afterCrash.1, afterCrash.2) := by
  have hget : Runs.run (crashingProvider smallConfig).next (⟨smallWorld, []⟩, {}) deployCrash =
      some afterCrash := (Option.some_get _).symm
  exact hget

/-- **The provider starts again after every crash.** From tables without replicas, however it runs
and however often it crashes: no replica is ever stored, the rows are those of the names in the
store, and at any time a start from them deploys exactly the stored functions.

**Proof sketch.** `AddDeployedFunction` stores the replicas of a function that has none yet, so
there is nothing that `InitFunctionStore` adds to an idle pool before its function is there. -/
theorem crash_restarts {cfg : Config} {storage : Storage} {now : Time} {w : World}
    (hstart : startProvider cfg storage now = .ok w) (hno : storage.containers = [])
    {events : List (Crashes.Event Event Time)} {s' : State} {storage' : Storage}
    (hrun : Runs.run (crashingProvider cfg).next (⟨w, []⟩, storage) events =
      some (s', storage')) :
    storage'.containers = [] ∧ storage'.functions.map (·.name) = s'.shared.functionTable ∧
      ∀ now', ∃ w', startProvider cfg storage' now' = .ok w' ∧
        (∀ row ∈ storage'.functions, ∃ o, w'.fn? row.name = some (o, getFunction row)) ∧
        ∀ n, n ∉ storage'.functions.map (·.name) → w'.fn? n = none := by
  have hb : storage'.Backs s'.shared := by
    refine Crashes.Machine.invariant (M := crashingProvider cfg)
      (I := fun s storage => storage.Backs s.shared) (fun s storage m s' hb => step_backs hb)
      (fun s storage now s' hb hs => ?_) (startProvider_backs hstart hno) hrun
    exact startProvider_backs (crashingProvider_start hs).1 hb.containers
  refine ⟨hb.containers, hb.functions, fun now' => ?_⟩
  obtain ⟨w', hw'⟩ := startProvider_of_noContainers hstart hb.containers now'
  have hres := (startProvider_restored hw').1
  exact ⟨w', hw', hres.deployed, hres.rest⟩

/-- The function `f` is stored, and comes back. -/
theorem crash_restarts_deployCrash :
    afterCrash.2.containers = [] ∧
      afterCrash.2.functions.map (·.name) = afterCrash.1.shared.functionTable ∧
      ∀ now', ∃ w', startProvider smallConfig afterCrash.2 now' = .ok w' ∧
        (∀ row ∈ afterCrash.2.functions, ∃ o, w'.fn? row.name = some (o, getFunction row)) ∧
        ∀ n, n ∉ afterCrash.2.functions.map (·.name) → w'.fn? n = none :=
  crash_restarts startProvider_small rfl run_deployCrash

example : afterCrash.2.functions.map (·.name) = ["f".toList] := by decide

/-! ### Durability -/

/-- What holds of the rows of a function and one goroutine, where `u` deletions of the function are
at their end. -/
def Thread.Tracks (n : Str) (w : World) (u : ℕ) (rows : List StorageFunction) : Thread → Prop
  | .deploy (.map fn) => fn.name = n → fn.Saved rows ∧ (w.fn? n = none ∨ 0 < u)
  | .delete req .read => req.functionName = n → w.fn? n ≠ none
  | .delete req (.rows fn) =>
    req.functionName = n → w.fn? n ≠ none ∧ (fn.bind fun o => w.heap[o]?) ≠ none
  | _ => True

/-- Of a goroutine that manages nothing there is nothing to hold. -/
lemma Thread.Tracks.of_not_manages {n : Str} {w : World} {u : ℕ} {rows : List StorageFunction}
    {t : Thread} (ht : t.manages = false) : t.Tracks n w u rows := by
  cases t <;> trivial

/-- The stores agree on the function, its rows are still there, and so are all objects. -/
structure Leaves (n : Str) (w w' : World) (rows rows' : List StorageFunction) : Prop where
  deployed : ∀ o f', w'.fn? n = some (o, f') → ∃ f, w.fn? n = some (o, f) ∧
    f'.persisted = f.persisted
  absent : w'.fn? n = none ↔ w.fn? n = none
  heap : ∀ o : Ref, w.heap[o]? ≠ none → w'.heap[o]? ≠ none
  rows : ∀ f : Function, f.name = n → f.Saved rows → f.Saved rows'

namespace Leaves

variable {n : Str} {w w' : World} {rows rows' : List StorageFunction}

/-- A section that changes nothing persisted, and keeps the rows of the function, leaves it. -/
lemma of_sameRecords (h : SameRecords w w')
    (hrows : ∀ f : Function, f.name = n → f.Saved rows → f.Saved rows') :
    Leaves n w w' rows rows' where
  deployed _ _ hf := h.fn?_eq_some hf
  absent := h.fn?_eq_none
  heap o ho hnone := by
    have hrecord := h.records o
    rw [hnone, Option.map_none, eq_comm, Option.map_eq_none_iff] at hrecord
    exact ho hrecord
  rows := hrows

/-- The look-up of the function is the same. -/
lemma of_fn? (hfn : w'.fn? n = w.fn? n)
    (hheap : ∀ o : Ref, w.heap[o]? ≠ none → w'.heap[o]? ≠ none) : Leaves n w w' rows rows where
  deployed o f' hf := ⟨f', by rwa [← hfn], rfl⟩
  absent := by rw [hfn]
  heap := hheap
  rows _ _ hf := hf

/-- What holds of a goroutine still holds when another one leaves the function. -/
lemma tracks (h : Leaves n w w' rows rows') {t : Thread} {u : ℕ} (ht : t.Tracks n w u rows) :
    t.Tracks n w' u rows' := by
  unfold Thread.Tracks at ht ⊢
  split at ht
  · intro hname
    exact ⟨h.rows _ hname (ht hname).1, (ht hname).2.imp_left h.absent.mpr⟩
  · exact fun hname => mt h.absent.mp (ht hname)
  · intro hname
    refine ⟨mt h.absent.mp (ht hname).1, ?_⟩
    obtain ⟨f, hf⟩ := Option.ne_none_iff_exists'.mp (ht hname).2
    obtain ⟨o, rfl, ho⟩ := Option.bind_eq_some_iff.mp hf
    exact h.heap o (by rw [ho]; exact Option.some_ne_none f)
  · trivial

end Leaves

/-- **What a run keeps of one function**: when it is deployed its row is there, unless a deletion of
it is at its end. -/
structure Durable (n : Str) (s : State) (storage : Storage) : Prop where
  wellFormed : State.WellFormed s
  backs : storage.Backs s.shared
  deployed : ∀ o f, s.shared.fn? n = some (o, f) →
    f.Saved storage.functions ∨ 0 < s.unmappings n
  tracks : ∀ t ∈ s.threads, t.Tracks n s.shared (s.unmappings n) storage.functions
  once : s.mappings n ≤ 1

/-- A sum over the goroutines after a section. -/
lemma State.sum_section {s : State} {i : ℕ} {t : Thread} (h : Thread → ℕ) (t' : Thread)
    (new : List Thread) (ht : s.threads[i]? = some t) :
    ((s.threads.set i t' ++ new).map h).sum + h t =
      (s.threads.map h).sum + (h t' + (new.map h).sum) := by
  have hset := Interleaving.sum_map_set_add h t' ht
  rw [List.map_append, List.sum_append]
  omega

/-- A deletion at its end is under way. -/
lemma Thread.unmapping_le_deleting (n : Str) (t : Thread) : t.unmapping n ≤ t.deleting n := by
  unfold Thread.unmapping
  split
  · exact le_rfl
  · exact Nat.zero_le _

namespace Durable

variable {n : Str} {s : State} {storage storage' : Storage} {i : ℕ} {t t' : Thread} {w' : World}
  {new : List Thread}

/-- A section that leaves the function and its rows alone.

**Proof sketch.** What is deployed was deployed before, and its rows are as they were. The other
goroutines track the function as before, since the number of those about to unmap it has not
changed. -/
lemma of_leaves (h : Durable n s storage) (ht : s.threads[i]? = some t)
    (hwf : State.WellFormed ⟨w', s.threads.set i t' ++ new⟩) (hb : storage'.Backs w')
    (hl : Leaves n s.shared w' storage.functions storage'.functions)
    (hu : t'.unmapping n = t.unmapping n)
    (ht' : t'.Tracks n w' (s.unmappings n) storage'.functions)
    (hnew : ∀ u ∈ new, u.manages = false)
    (honce : State.mappings n ⟨w', s.threads.set i t' ++ new⟩ ≤ 1) :
    Durable n ⟨w', s.threads.set i t' ++ new⟩ storage' := by
  have hsame : State.unmappings n ⟨w', s.threads.set i t' ++ new⟩ = s.unmappings n := by
    have hsum := State.sum_section (Thread.unmapping n) t' new ht
    rw [sum_eq_zero_of_not_manages (Thread.unmapping_of_not_manages n) hnew] at hsum
    simp only [State.unmappings]
    omega
  refine ⟨hwf, hb, fun o f' hf' => ?_, fun u hu => ?_, honce⟩
  · obtain ⟨f, hf, hrecord⟩ := hl.deployed o f' hf'
    rw [hsame]
    refine (h.deployed o f hf).imp_left fun hsaved => ?_
    exact (hl.rows f (h.wellFormed.1.named _ _ _ hf) hsaved).congr hrecord
  · rw [hsame]
    rcases Interleaving.mem_set_append hu with ⟨j, -, hj⟩ | rfl | hu
    · exact hl.tracks (h.tracks u (List.mem_of_getElem? hj))
    · exact ht'
    · exact .of_not_manages (hnew u hu)

/-- The deployments that only have to put the function into the map stay as many. -/
lemma once_section (h : Durable n s storage) (ht : s.threads[i]? = some t)
    (hle : t'.mapping n ≤ t.mapping n) (hnew : ∀ u ∈ new, u.manages = false) :
    State.mappings n ⟨w', s.threads.set i t' ++ new⟩ ≤ 1 := by
  have hsum := State.sum_section (Thread.mapping n) t' new ht
  rw [sum_eq_zero_of_not_manages (Thread.mapping_of_not_manages n) hnew] at hsum
  have honce := h.once
  simp only [State.mappings] at honce ⊢
  omega

/-- A goroutine about to deploy a function whose row is not there yet is the only one. -/
lemma mappings_eq_zero (h : Durable n s storage) (hnew : n ∉ s.shared.functionTable) :
    s.mappings n = 0 := by
  refine List.sum_eq_zero fun x hx => ?_
  obtain ⟨t, ht, rfl⟩ := List.mem_map.mp hx
  have htrack := h.tracks t ht
  unfold Thread.mapping
  split
  · next fn =>
    refine if_neg fun hname => hnew ?_
    rw [← h.backs.functions, ← hname]
    exact (htrack hname).1.name_mem
  · rfl

/-- A deletion that is under way and another one at its end are two. -/
lemma unmappings_lt_deletions (ht : s.threads[i]? = some t) (hdel : t.deleting n = 1)
    (hunmap : t.unmapping n = 0) : s.unmappings n < s.deletions n := by
  have hle : s.unmappings n + (t.deleting n - t.unmapping n) ≤ s.deletions n :=
    Interleaving.sum_add_sub_le (Thread.unmapping_le_deleting n) ht
  omega

/-- **The row of the function is deleted**: its deletion is at its end, and nobody else is about to
deploy it.

**Proof sketch.** The goroutine is the only deletion of the function, and is now one that is about
to unmap it. Another one that tracks the function would be a second deletion, or would have found it
absent, which it is not. -/
lemma rows (h : Durable n s storage) (hone : s.deletions n ≤ 1) {req : DeleteRequest}
    {fn : Option Ref} {f : Function} (hname : req.functionName = n)
    (ht : s.threads[i]? = some (.delete req (.rows fn)))
    (hwf : State.WellFormed ⟨s.shared.deleteRows n f, s.threads.set i (.delete req .unmap) ++ []⟩)
    (hb : (storage.deleteFunction n).Backs (s.shared.deleteRows n f)) :
    Durable n ⟨s.shared.deleteRows n f, s.threads.set i (.delete req .unmap) ++ []⟩
      (storage.deleteFunction n) := by
  subst hname
  have hlt := unmappings_lt_deletions (n := req.functionName) ht (if_pos rfl) rfl
  have hdeployed : s.shared.fn? req.functionName ≠ none :=
    (h.tracks _ (List.mem_of_getElem? ht) rfl).1
  have hpos : 0 < State.unmappings req.functionName
      ⟨s.shared.deleteRows req.functionName f, s.threads.set i (.delete req .unmap) ++ []⟩ := by
    have hsum := State.sum_section (Thread.unmapping req.functionName) (.delete req .unmap) [] ht
    simp only [Thread.unmapping, if_true] at hsum
    simp only [State.unmappings]
    omega
  refine ⟨hwf, hb, fun _ _ _ => .inr hpos, fun u hu => ?_, h.once_section ht (Nat.zero_le _)
    fun _ hu => absurd hu List.not_mem_nil⟩
  rcases Interleaving.mem_set_append hu with ⟨j, -, hj⟩ | rfl | hu
  · have htrack := h.tracks u (List.mem_of_getElem? hj)
    unfold Thread.Tracks at htrack ⊢
    split at htrack
    · intro hname
      -- it would have found the function not deployed, or a second deletion at its end
      rcases (htrack hname).2 with hnone | hu
      · exact absurd hnone hdeployed
      · omega
    · exact htrack
    · exact htrack
    · trivial
  · trivial
  · exact absurd hu List.not_mem_nil

/-- **The function is deleted from the map**; no other deletion has found it there.

**Proof sketch.** After the section the function is not found, so there is nothing that needs a row.
Another deletion at its end would be a second one, which the count excludes. -/
lemma unmap (h : Durable n s storage) (hone : s.deletions n ≤ 1) {req : DeleteRequest}
    (hname : req.functionName = n) (ht : s.threads[i]? = some (.delete req .unmap))
    (hwf : State.WellFormed ⟨s.shared.dropFunction n, s.threads.set i .returned ++ []⟩)
    (hb : storage.Backs (s.shared.dropFunction n)) :
    Durable n ⟨s.shared.dropFunction n, s.threads.set i .returned ++ []⟩ storage := by
  subst hname
  have hnone : (s.shared.dropFunction req.functionName).fn? req.functionName = none := by
    rw [World.fn?_dropFunction, if_pos rfl]
  have hother : ∀ {j : ℕ} {u : Thread}, j ≠ i → s.threads[j]? = some u →
      u.deleting req.functionName ≠ 1 := by
    intro j u hji hj hdel
    have hsum := Interleaving.add_le_sum_of_getElem?
      (h := Thread.deleting req.functionName) (fun _ => Nat.zero_le _) hji hj ht
    have hself : Thread.deleting req.functionName (.delete req .unmap) = 1 := if_pos rfl
    simp only [State.deletions] at hone
    omega
  refine ⟨hwf, hb, fun o f hf => ?_, fun u hu => ?_, h.once_section ht (Nat.zero_le _)
    fun _ hu => absurd hu List.not_mem_nil⟩
  · rw [hnone] at hf
    cases hf
  · rcases Interleaving.mem_set_append hu with ⟨j, hji, hj⟩ | rfl | hu
    · have htrack := h.tracks u (List.mem_of_getElem? hj)
      have hdel := hother hji hj
      unfold Thread.Tracks at htrack ⊢
      split at htrack
      · exact fun hname => ⟨(htrack hname).1, .inl hnone⟩
      · exact fun hname => absurd (if_pos hname) hdel
      · exact fun hname => absurd (if_pos hname) hdel
      · trivial
    · trivial
    · exact absurd hu List.not_mem_nil

/-- **The function is put into the map**, by the only goroutine that is about to.

**Proof sketch.** The object is found where it has been put (`World.fn?_putFunction`), and its row
has been there since the insertion. Another goroutine that is about to put it there would be a
second one, which `once` excludes. -/
lemma map (h : Durable n s storage) {fn : Function} (hname : fn.name = n)
    (ht : s.threads[i]? = some (.deploy (.map fn)))
    (hwf : State.WellFormed ⟨s.shared.putFunction fn,
      s.threads.set i (.deploy (.stats fn.name)) ++ []⟩)
    (hb : storage.Backs (s.shared.putFunction fn)) :
    Durable n ⟨s.shared.putFunction fn, s.threads.set i (.deploy (.stats fn.name)) ++ []⟩
      storage := by
  subst hname
  have hput := World.fn?_putFunction (f := fn) h.wellFormed.1.valid fn.name
  rw [if_pos rfl] at hput
  have hself : Thread.mapping fn.name (.deploy (.map fn)) = 1 := if_pos rfl
  refine ⟨hwf, hb, fun o f hf => ?_, fun u hu => ?_, h.once_section ht (Nat.zero_le _)
    fun _ hu => absurd hu List.not_mem_nil⟩
  · obtain ⟨-, rfl⟩ : s.shared.heap.length = o ∧ fn = f := by simpa [hput] using hf
    exact .inl (h.tracks _ (List.mem_of_getElem? ht) rfl).1
  · rcases Interleaving.mem_set_append hu with ⟨j, hji, hj⟩ | rfl | hu
    · have htrack := h.tracks u (List.mem_of_getElem? hj)
      have hsum := Interleaving.add_le_sum_of_getElem? (h := Thread.mapping fn.name)
        (fun _ => Nat.zero_le _) hji hj ht
      have honce := h.once
      simp only [State.mappings] at honce
      unfold Thread.Tracks at htrack ⊢
      split at htrack
      · next g =>
        intro hname
        have hg : Thread.mapping fn.name (.deploy (.map g)) = 1 := if_pos hname
        omega
      · exact fun _ hnone => by simp [hput] at hnone
      · refine fun hname => ⟨fun hnone => by simp [hput] at hnone, fun hnone => ?_⟩
        obtain ⟨f, hf⟩ := Option.ne_none_iff_exists'.mp (htrack hname).2
        obtain ⟨o, rfl, ho⟩ := Option.bind_eq_some_iff.mp hf
        have hlt := (List.getElem?_eq_some_iff.mp ho).1
        rw [Option.bind_some, World.putFunction, List.getElem?_append_left hlt, ho] at hnone
        cases hnone
      · trivial
    · trivial
    · exact absurd hu List.not_mem_nil

end Durable

/-- What arrives has not begun to delete or to deploy anything. -/
lemma entry_deletions {t : Thread} (h : t.entry = true) (n : Str) (w : World) (u : ℕ)
    (rows : List StorageFunction) :
    t.unmapping n = 0 ∧ t.mapping n = 0 ∧ t.Tracks n w u rows := by
  obtain ⟨req, rfl⟩ | rfl | ⟨req, rfl⟩ | ⟨req, rfl⟩ | ⟨fn, updated, rfl⟩ := entry_cases h <;>
    exact ⟨rfl, rfl, trivial⟩

/-- **One move keeps a function and its row together** while no two deletions of the function are
under way.

**Proof sketch.** By cases on the section. A deletion deletes the row while the function is
deployed, and from then on it is at its end; a deployment that has inserted its row finds the
function not deployed, or such a deletion. -/
theorem step_durable {n : Str} {s s' : State} {m : Event} {storage : Storage}
    (h : Durable n s storage) (hone : s.deletions n ≤ 1) (hstep : provider.step s m = some s') :
    Durable n s' (s.persist m storage) := by
  have hwf := step_wellFormed h.wellFormed hstep
  have hb := step_backs h.backs hstep
  obtain ⟨t, rfl, hent, rfl⟩ | ⟨i, e, t, w', t', new, rfl, ht, hn, rfl⟩ :=
    Interleaving.Program.step_cases hstep
  · obtain ⟨hunmap, hmap, htrack⟩ :=
      entry_deletions hent n s.shared (s.unmappings n) storage.functions
    have hu : State.unmappings n ⟨s.shared, s.threads ++ [t]⟩ = s.unmappings n := by
      simp [State.unmappings, hunmap]
    have hm : State.mappings n ⟨s.shared, s.threads ++ [t]⟩ = s.mappings n := by
      simp [State.mappings, hmap]
    refine ⟨hwf, hb, ?_, fun u hmem => ?_, hm ▸ h.once⟩
    · rw [hu]
      exact h.deployed
    · rw [hu]
      rcases List.mem_append.mp hmem with hmem | hmem
      · exact h.tracks u hmem
      · rw [List.mem_singleton.mp hmem]
        exact htrack
  · rw [State.persist_of_getElem? ht] at hb ⊢
    have hsec := section_persists hn h.backs
    have hnil : ∀ u ∈ ([] : List Thread), u.manages = false :=
      fun _ hu => absurd hu List.not_mem_nil
    have htrack := h.tracks t (List.mem_of_getElem? ht)
    generalize t.persist s.shared e storage = storage' at hsec hb
    cases hsec with
    | other hsame htable hzero ht' hnew =>
      refine h.of_leaves ht hwf hb (.of_sameRecords hsame fun _ _ hf => hf) ?_
        (.of_not_manages ht') hnew (h.once_section ht ?_ hnew)
      · rw [Thread.unmapping_of_not_manages n _ ht', (hzero n).1]
      · rw [Thread.mapping_of_not_manages n _ ht']
        exact Nat.zero_le _
    | @deleteAll req _ hsame htable hf =>
      have hl : Leaves n s.shared w' storage.functions storage.functions :=
        .of_sameRecords hsame fun _ _ hf => hf
      refine h.of_leaves ht hwf hb hl rfl (fun hname => ?_) hnil
        (h.once_section ht le_rfl hnil)
      exact mt hl.absent.mp (hname ▸ hf)
    | @read req =>
      refine h.of_leaves ht hwf hb (.of_fn? rfl fun _ ho => ho) rfl (fun hname => ?_) hnil
        (h.once_section ht le_rfl hnil)
      have hdeployed := htrack hname
      obtain ⟨⟨o, f⟩, hf⟩ := Option.ne_none_iff_exists'.mp hdeployed
      obtain ⟨hlookup, ho⟩ := World.fn?_eq_some.mp hf
      refine ⟨hdeployed, ?_⟩
      rw [hname, hlookup, Option.bind_some, ho]
      exact Option.some_ne_none f
    | @rowsAbsent req fn hf =>
      by_cases hname : req.functionName = n
      · exact absurd hf (htrack hname).2
      · refine h.of_leaves ht hwf hb ?_ rfl trivial hnil (h.once_section ht le_rfl hnil)
        exact .of_sameRecords (.of_heap rfl rfl) fun f hf hsaved =>
          hsaved.filter (hf ▸ Ne.symm hname)
    | @rows req fn f =>
      by_cases hname : req.functionName = n
      · rw [hname] at hwf hb ⊢
        exact h.rows hone hname ht hwf hb
      · refine h.of_leaves ht hwf hb ?_ (if_neg hname) trivial hnil
          (h.once_section ht le_rfl hnil)
        exact .of_sameRecords (.of_heap rfl rfl) fun f hf hsaved =>
          hsaved.filter (hf ▸ Ne.symm hname)
    | @unmap req =>
      by_cases hname : req.functionName = n
      · rw [hname] at hwf hb ⊢
        exact h.unmap hone hname ht hwf hb
      · refine h.of_leaves ht hwf hb (.of_fn? ?_ fun _ ho => ho) (if_neg hname).symm trivial hnil
          (h.once_section ht le_rfl hnil)
        rw [World.fn?_dropFunction, if_neg (Ne.symm hname)]
    | @insert req fn storage' hname hfunctions hcontainers =>
      have hl : Leaves n s.shared { s.shared with
          functionTable := fn.name :: s.shared.functionTable } storage.functions
          storage'.functions := .of_sameRecords (.of_heap rfl rfl) fun f _ hsaved => by
        rw [hfunctions]
        exact hsaved.cons _
      refine h.of_leaves ht hwf hb hl rfl (fun hn => ⟨?_, ?_⟩) hnil ?_
      · rw [hfunctions]
        exact ⟨fn.row, List.mem_cons_self, fn.savedAs_row⟩
      · refine (Option.eq_none_or_eq_some (s.shared.fn? n)).imp hl.absent.mpr ?_
        rintro ⟨⟨o, f⟩, hf⟩
        refine (h.deployed o f hf).resolve_left fun hsaved => hname ?_
        rw [hn, ← h.backs.functions, ← h.wellFormed.1.named _ _ _ hf]
        exact hsaved.name_mem
      · by_cases hn : fn.name = n
        · have hzero := h.mappings_eq_zero (hn ▸ hname)
          have hsum := State.sum_section (Thread.mapping n) (.deploy (.map fn)) [] ht
          have hself : Thread.mapping n (.deploy (.map fn)) = 1 := if_pos hn
          simp only [State.mappings] at hzero ⊢
          rw [hself, hzero, List.map_nil, List.sum_nil] at hsum
          omega
        · refine h.once_section ht ?_ hnil
          exact (if_neg hn).le
    | @map fn =>
      by_cases hname : fn.name = n
      · exact h.map hname ht hwf hb
      · refine h.of_leaves ht hwf hb (.of_fn? ?_ fun o ho => ?_) rfl trivial hnil
          (h.once_section ht (Nat.zero_le _) hnil)
        · rw [World.fn?_putFunction h.wellFormed.1.valid, if_neg (Ne.symm hname)]
        · rw [World.putFunction, List.getElem?_append_left
            (by rwa [ne_eq, List.getElem?_eq_none_iff, not_le] at ho)]
          exact ho

/-- A start from the tables has the function and its row together. -/
lemma startProvider_durable {cfg : Config} {storage : Storage} {now : Time} {w : World} (n : Str)
    (hstart : startProvider cfg storage now = .ok w) (hno : storage.containers = []) :
    Durable n ⟨w, []⟩ storage := by
  refine ⟨⟨(startProvider_fresh hstart).1.wellFormed, fun _ ht => absurd ht List.not_mem_nil⟩,
    startProvider_backs hstart hno, fun o f hf => ?_, fun _ ht => absurd ht List.not_mem_nil,
    Nat.zero_le _⟩
  obtain ⟨row, hrow, -, rfl⟩ | hempty := (startProvider_restored hstart).1.cases hf
  · exact .inl ⟨row, hrow, rfl⟩
  · cases hempty

/-- **A deployed function survives a crash.** Along every run with crashes from tables without
replicas in which no two deletions of the function are ever under way at once: when it is deployed
and no deletion of it is at its end, a start after a crash at this point deploys it again, with all
that is persisted of it.

**Proof sketch.** Every move keeps its row while it is deployed (`step_durable`), and a start makes
the functions of their rows: the invariant rule for runs with crashes. -/
theorem crash_durable {cfg : Config} {storage : Storage} {now : Time} {w : World}
    (hstart : startProvider cfg storage now = .ok w) (hno : storage.containers = []) {n : Str}
    {events : List (Crashes.Event Event Time)} {s' : State} {storage' : Storage}
    (hone : Runs.Throughout (crashingProvider cfg).next (fun c => c.1.deletions n ≤ 1)
      (⟨w, []⟩, storage) events)
    (hrun : Runs.run (crashingProvider cfg).next (⟨w, []⟩, storage) events = some (s', storage'))
    {o : Ref} {f : Function} (hf : s'.shared.fn? n = some (o, f)) (hend : s'.unmappings n = 0)
    (now' : Time) :
    ∃ w', startProvider cfg storage' now' = .ok w' ∧
      ∃ o' f', w'.fn? n = some (o', f') ∧ f'.persisted = f.persisted := by
  have hdurable : Durable n s' storage' := by
    refine Crashes.Machine.invariant_of_along (M := crashingProvider cfg) (I := Durable n)
      (fun s => s.deletions n ≤ 1) (fun s storage m s' h hone hs => step_durable h hone hs)
      (fun s storage now s' h hs => ?_) (startProvider_durable n hstart hno) hone hrun
    obtain ⟨hs, hthreads⟩ := crashingProvider_start hs
    have hnew := startProvider_durable n hs h.backs.containers
    rwa [← hthreads] at hnew
  obtain ⟨row, hrow, hsaved⟩ := (hdurable.deployed o f hf).resolve_right (by omega)
  obtain ⟨w', hw'⟩ := startProvider_of_noContainers hstart hdurable.backs.containers now'
  obtain ⟨o', hf'⟩ := (startProvider_restored hw').1.deployed row hrow
  rw [hsaved.name, hdurable.wellFormed.1.named _ _ _ hf] at hf'
  exact ⟨w', hw', o', _, hf', hsaved⟩

/-- The function `f` after `deployCrash`. -/
def restoredF : Ref × Function := (afterCrash.1.shared.fn? "f".toList).get rfl

/-- The function is found after the crash. -/
lemma fn?_afterCrash :
    afterCrash.1.shared.fn? "f".toList = some (restoredF.1, restoredF.2) := by
  have hget : afterCrash.1.shared.fn? "f".toList = some restoredF := (Option.some_get _).symm
  exact hget

/-- The function `f` is restored, and would be again. -/
theorem crash_durable_deployCrash :
    ∃ w', startProvider smallConfig afterCrash.2 9 = .ok w' ∧
      ∃ o' f', w'.fn? "f".toList = some (o', f') ∧ f'.persisted = restoredF.2.persisted :=
  crash_durable startProvider_small rfl (by decide) run_deployCrash fn?_afterCrash (by decide) 9

/-- The next sections of goroutine `i`, over the storage. -/
def storedSections (i n : ℕ) : List (Crashes.Event Event Time) := (sections i n).map .step

/-- Two deletions of `f` at once, and a deployment between them: the second deletion deletes the row
that the deployment has inserted. -/
def twoDeletions : List (Crashes.Event Event Time) :=
  (deployF (AList.singleton ctrTypeLabel native)).map .step ++
    [.step (.arrive (.delete ⟨"f".toList, defaultFunctionNamespace⟩ .deleteAll))] ++
    storedSections 1 3 ++
    [.step (.arrive (.delete ⟨"f".toList, defaultFunctionNamespace⟩ .deleteAll))] ++
    storedSections 2 2 ++
    [.step (.arrive (.deploy (.insert { service := "f".toList })))] ++ storedSections 3 1 ++
    storedSections 2 1 ++ storedSections 1 1 ++ storedSections 2 1 ++ storedSections 3 2

example : (Runs.run (crashingProvider smallConfig).next (⟨smallWorld, []⟩, {}) twoDeletions).map
    (fun c => ((c.1.shared.fn? "f".toList).isSome, c.2.functions.map (·.name))) =
      some (true, []) := by decide

end Fecore
