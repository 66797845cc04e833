import Mathlib.Tactic.Common
import Fecore.Handlers.WellFormed

set_option relaxedAutoImplicit false
set_option autoImplicit false

/-!
# Starting from a stored store

What `InitFunctionStore` makes of the tables of an earlier run. The functions come back from their
rows. The replicas do not: each is added to the idle pool of a function that is put into
`deployedFunctions` only afterwards.

## Main definitions

* `Fecore.World.Restored` — a store into which rows have been read back.
* `Fecore.Restores` — `InitFunctionStore` brings back every function with its replicas.

## Main results

* `Fecore.restoreFunctions_iff` — what the loop over the stored functions returns.
* `Fecore.startProvider_restored` — what is in the store when the provider begins to serve.
* `Fecore.restores_iff` — when everything is brought back.
-/

namespace Fecore

/-! ### The loop over the stored functions -/

/-- The store `w` is the store `w₀` after the rows have been read back into it. -/
structure World.Restored (w₀ : World) (rows : List StorageFunction) (w : World) : Prop where
  deployed : ∀ row ∈ rows, ∃ o, w.fn? row.name = some (o, getFunction row)
  rest : ∀ n, n ∉ rows.map (·.name) → w.fn? n = w₀.fn? n
  functionStats : w.functionStats = w₀.functionStats
  functionTable : w.functionTable = w₀.functionTable
  containerTable : w.containerTable = w₀.containerTable

namespace World.Restored

variable {w₀ w : World} {rows : List StorageFunction}

/-- Without rows the store is as it was. -/
lemma nil (w : World) : w.Restored [] w where
  deployed _ hrow := absurd hrow List.not_mem_nil
  rest _ _ := rfl
  functionStats := rfl
  functionTable := rfl
  containerTable := rfl

/-- One more row is read back, before the others. -/
lemma cons {row : StorageFunction} (hw : w₀.WellFormed) (hnew : row.name ∉ rows.map (·.name))
    (h : (w₀.putFunction (getFunction row)).Restored rows w) : w₀.Restored (row :: rows) w := by
  have hput := World.fn?_putFunction (f := getFunction row) hw.valid
  refine ⟨fun row' hrow' => ?_, fun n hn => ?_, h.functionStats, h.functionTable,
    h.containerTable⟩
  · rcases List.mem_cons.mp hrow' with rfl | hrow'
    · -- no later row has the name, so the object put there stays
      exact ⟨_, (h.rest _ hnew).trans ((hput _).trans (if_pos rfl))⟩
    · exact h.deployed row' hrow'
  · rw [List.map_cons, List.mem_cons, not_or] at hn
    exact (h.rest n hn.2).trans ((hput n).trans (if_neg hn.1))

/-- Every deployed function has been read back, or was there before. -/
lemma cases (h : w₀.Restored rows w) {n : Str} {o : Ref} {f : Function}
    (hf : w.fn? n = some (o, f)) :
    (∃ row ∈ rows, row.name = n ∧ f = getFunction row) ∨ w₀.fn? n = some (o, f) := by
  by_cases hn : n ∈ rows.map (·.name)
  · obtain ⟨row, hrow, rfl⟩ := List.mem_map.mp hn
    obtain ⟨o', hf'⟩ := h.deployed row hrow
    have heq : some (o', getFunction row) = some (o, f) := hf'.symm.trans hf
    exact .inl ⟨row, hrow, rfl, (congrArg Prod.snd (Option.some.inj heq)).symm⟩
  · exact .inr ((h.rest n hn).symm.trans hf)

end World.Restored

/-- **What the loop over the stored functions returns**: it panics when a replica is stored for one
of them, and brings all of them back otherwise.

**Proof sketch.** Induction on the rows; `restoreFunctions_cons` says what happens at each. The
names are distinct, so the later rows are still not deployed after the first one has been put. -/
theorem restoreFunctions_iff {now : Time} {rows : List StorageFunction} : ∀ {w : World},
    w.WellFormed → (∀ row ∈ rows, w.fn? row.name = none) → (rows.map (·.name)).Nodup →
      ((∃ w', restoreFunctions now w rows = .ok w') ↔
        ∀ row ∈ rows, w.containerTable.filter (·.parentFunction = row.name) = []) ∧
      ∀ w', restoreFunctions now w rows = .ok w' → w.Restored rows w' := by
  induction rows with
  | nil =>
    intro w _ _ _
    refine ⟨⟨fun _ row hrow => absurd hrow List.not_mem_nil, fun _ => ⟨w, rfl⟩⟩, fun w' h => ?_⟩
    obtain rfl := Except.ok.inj h
    exact .nil w
  | cons row rows ih =>
    intro w hw habsent hnodup
    rw [restoreFunctions_cons (habsent row List.mem_cons_self), List.forall_mem_cons]
    simp only [List.map_cons, List.nodup_cons] at hnodup
    have hput : (w.putFunction (getFunction row)).WellFormed :=
      hw.putFunction (.of_empty rfl rfl)
    have habsent' : ∀ row' ∈ rows, (w.putFunction (getFunction row)).fn? row'.name = none := by
      intro row' hrow'
      have hne : row'.name ≠ row.name := fun heq =>
        hnodup.1 (heq ▸ List.mem_map_of_mem hrow')
      rw [World.fn?_putFunction hw.valid]
      exact (if_neg hne).trans (habsent row' (List.mem_cons_of_mem _ hrow'))
    obtain ⟨hiff, hres⟩ := ih hput habsent' hnodup.2
    by_cases hnone : w.containerTable.filter (·.parentFunction = row.name) = []
    · rw [if_pos hnone]
      refine ⟨?_, fun w' h => .cons hw hnodup.1 (hres w' h)⟩
      rw [hiff]
      exact ⟨fun h => ⟨hnone, h⟩, fun h => h.2⟩
    · rw [if_neg hnone]
      refine ⟨⟨?_, fun h => absurd h.1 hnone⟩, fun w' h => ?_⟩
      · rintro ⟨w', h⟩
        cases h
      · cases h

/-! ### What is brought back -/

/-- The store that `InitFunctionStore` begins with, over the tables of the storage. -/
def emptyStore (cfg : Config) (storage : Storage) : World :=
  { cfg := cfg
    functionTable := storage.functions.map (·.name)
    containerTable := storage.containers }

/-- The store without functions is well formed. -/
lemma emptyStore_wellFormed (cfg : Config) (storage : Storage) :
    (emptyStore cfg storage).WellFormed :=
  ⟨by simp [emptyStore], by simp [emptyStore, World.fn?], by simp [emptyStore]⟩

/-- The rows stored for the function. -/
def Storage.containersOf (storage : Storage) (n : Str) : List StorageContainer :=
  storage.containers.filter (·.parentFunction = n)

/-- No row is stored for a function when none names it as its parent. -/
lemma Storage.containersOf_eq_nil {storage : Storage} {n : Str} :
    storage.containersOf n = [] ↔ ∀ c ∈ storage.containers, c.parentFunction ≠ n := by
  simp [Storage.containersOf, List.filter_eq_nil_iff]

/-- **What `InitFunctionStore` returns.** -/
theorem initFunctionStore_iff (cfg : Config) (storage : Storage) (now : Time) :
    ((∃ w, initFunctionStore cfg storage now = .ok w) ↔
      ∀ row ∈ storage.functions, storage.containersOf row.name = []) ∧
    ∀ w, initFunctionStore cfg storage now = .ok w →
      (emptyStore cfg storage).Restored storage.functions w :=
  restoreFunctions_iff (emptyStore_wellFormed cfg storage) (fun _ _ => rfl) storage.functions_nodup

/-- **When the provider begins to serve**, the stored functions are deployed as they come back from
their rows, there are no statistics, and no replica is stored for a function. -/
theorem startProvider_restored {cfg : Config} {storage : Storage} {now : Time} {w : World}
    (h : startProvider cfg storage now = .ok w) :
    (emptyStore cfg storage).Restored storage.functions w ∧
      ∀ row ∈ storage.functions, storage.containersOf row.name = [] := by
  obtain ⟨hiff, hres⟩ := initFunctionStore_iff cfg storage now
  obtain ⟨w₀, hinit, -, rfl⟩ := startProvider_eq_ok h
  have hw := hres w₀ hinit
  refine ⟨⟨fun row hrow => ?_, fun n hn => ?_, hw.functionStats, hw.functionTable,
    hw.containerTable⟩, hiff.mp ⟨w₀, hinit⟩⟩
  · exact hw.deployed row hrow
  · exact hw.rest n hn

/-- The rows of the idle replicas of a function. -/
def Function.idleRows (f : Function) : List StorageContainer :=
  f.idleReplicas.stored.map fun r => ⟨r.uuid, f.name, r.ip⟩

/-- **`InitFunctionStore` brings everything back**: it returns, every stored function is deployed,
and its idle pool has each replica stored for it once. -/
def Restores (cfg : Config) (storage : Storage) (now : Time) : Prop :=
  ∃ w, initFunctionStore cfg storage now = .ok w ∧
    ∀ row ∈ storage.functions, ∃ o f, w.fn? row.name = some (o, f) ∧
      f.idleRows.Perm (storage.containersOf row.name)

/-- **When `InitFunctionStore` brings everything back**: exactly when no stored replica belongs to a
stored function.

**Proof sketch.** By `initFunctionStore_iff` the provider starts exactly when no stored function has
rows of replicas. Then every function is looked up with no replica, as its row has it. -/
theorem restores_iff (cfg : Config) (storage : Storage) (now : Time) :
    Restores cfg storage now ↔
      ∀ c ∈ storage.containers, c.parentFunction ∉ storage.functions.map (·.name) := by
  obtain ⟨hiff, hres⟩ := initFunctionStore_iff cfg storage now
  have hcond : (∀ row ∈ storage.functions, storage.containersOf row.name = []) ↔
      ∀ c ∈ storage.containers, c.parentFunction ∉ storage.functions.map (·.name) := by
    simp only [Storage.containersOf_eq_nil, List.mem_map, not_exists, not_and]
    exact ⟨fun h c hc row hrow heq => h row hrow c hc heq.symm,
      fun h row hrow c hc heq => h c hc row hrow heq.symm⟩
  rw [← hcond, ← hiff]
  constructor
  · rintro ⟨w, hw, -⟩
    exact ⟨w, hw⟩
  · rintro ⟨w, hw⟩
    refine ⟨w, hw, fun row hrow => ?_⟩
    obtain ⟨o, hf⟩ := (hres w hw).deployed row hrow
    refine ⟨o, _, hf, ?_⟩
    rw [hiff.mp ⟨w, hw⟩ row hrow]
    exact List.Perm.nil

/-- One stored function with one stored replica. -/
def oneStored : Storage :=
  { functions := [{ name := "f".toList, namespace_ := [], image := [] }]
    containers := [⟨"f_1_n".toList, "f".toList, "10.62.0.2".toList⟩] }

/-- A stored function with a stored replica: `InitFunctionStore` panics. -/
theorem not_restores_oneStored : ¬ Restores defaultConfig oneStored 0 := by
  rintro ⟨w, hw, -⟩
  have hpanic : initFunctionStore defaultConfig oneStored 0 = .error .absentFunction := rfl
  rw [hpanic] at hw
  cases hw

end Fecore
