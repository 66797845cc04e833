import Mathlib.Tactic.Common
import Fecore.Handlers.Deployments
import Fecore.Handlers.Restart

set_option relaxedAutoImplicit false
set_option autoImplicit false

/-!
# The statistics of the deployed functions

`AddActiveReplica` dereferences the record of its function in `functionStats` without a check. The
records are made by `AddDeployedFunction` alone, after the function has been put into
`deployedFunctions`, and never when the functions of an earlier run are read back.

## Main definitions

* `Fecore.World.StatsRecorded` — every deployed function has a record.
* `Fecore.State.recordsFirst` — the moves that keep it so.

## Main results

* `Fecore.section_grows` — what one section adds to `deployedFunctions`, and what it leaves in
  `functionStats`.
* `Fecore.statsRecorded_throughout_iff` — the runs throughout which every deployed function has a
  record.
-/

namespace Fecore

/-- **Every deployed function has a record** in `functionStats`, so that `AddActiveReplica` finds
it. -/
structure World.StatsRecorded (w : World) : Prop where
  keys : ∀ n ∈ w.deployedFunctions, n ∈ w.functionStats
  found : ∀ replica, (w.addActiveReplica replica).2 ≠ some .absentStats

/-- The look-ups of `AddActiveReplica` are those of the keys. -/
lemma World.statsRecorded_iff {w : World} :
    w.StatsRecorded ↔ ∀ n ∈ w.deployedFunctions, n ∈ w.functionStats := by
  refine ⟨fun h => h.keys, fun h => ⟨h, fun replica => ?_⟩⟩
  unfold World.addActiveReplica
  split
  · exact fun heq => by cases heq
  · next o f hf =>
    have hstats := h _ (World.mem_deployedFunctions hf)
    obtain ⟨activeCount, hlookup⟩ := Option.isSome_iff_exists.mp (AList.lookup_isSome.mpr hstats)
    have hset : (w.setFn o { f with
        activeReplicas := f.activeReplicas.insert replica.uuid replica }).functionStats.lookup
          replica.fname = some activeCount := hlookup
    dsimp only
    rw [hset]
    exact fun heq => by cases heq

/-! ### Sections -/

/-- A creation makes no record go away. -/
lemma createSection_functionStats {w w' : World} {call : CreateCall} {e : Env} {pc : CreatePc}
    {result : CreateResult} (hsec : CreateSection w call e pc w' result) :
    ∀ n ∈ w.functionStats, n ∈ w'.functionStats := by
  intro n hn
  cases hsec with
  | addActive => exact AList.mem_insert _ |>.mpr (.inr hn)
  | _ => exact hn

/-- An invocation makes no record go away. -/
lemma requestSection_functionStats {w w' : World} {req : Request} {e : Env} {pc : RequestPc}
    {t' : Thread} {new : List Thread} (hsec : RequestSection w req e pc w' t' new) :
    ∀ n ∈ w.functionStats, n ∈ w'.functionStats := by
  intro n hn
  cases hsec with
  | create hsec => exact createSection_functionStats hsec n hn
  | del hdel => rwa [(World.sameStore_of_deleteReplica hdel).functionStats]
  | delFault hdel => rwa [(World.sameStore_of_deleteReplica hdel).functionStats]
  | _ => exact hn

/-- A sweep leaves the records alone. -/
lemma sweepSection_functionStats {w w' : World} {e : Env} {pc : SweepPc} {t' : Thread}
    (hsec : SweepSection w e pc w' t') : w'.functionStats = w.functionStats := by
  cases hsec with
  | mru _ _ hdel => exact (World.sameStore_of_deleteReplica hdel).functionStats
  | mruFault _ _ hdel => exact (World.sameStore_of_deleteReplica hdel).functionStats
  | del hdel => exact (World.sameStore_of_deleteReplica hdel).functionStats
  | delFault hdel => exact (World.sameStore_of_deleteReplica hdel).functionStats
  | _ => rfl

/-- **What a section does to the two maps**: only the map write of a deployment adds a function,
and no record goes away.

**Proof sketch.** Case split on the section. The names are kept by invocations, creations and
sweeps; an unmapping erases one, the map write of a deployment adds one, and records are only
inserted. -/
lemma section_grows {w w' : World} {e : Env} {t t' : Thread} {new : List Thread}
    (hsec : Section w e t w' t' new) :
    (∀ n ∈ w'.deployedFunctions, n ∈ w.deployedFunctions ∨
      ∃ fn, t = .deploy (.map fn) ∧ n = fn.name) ∧
    ∀ n ∈ w.functionStats, n ∈ w'.functionStats := by
  cases hsec with
  | request hsec =>
    refine ⟨fun n hn => .inl ?_, requestSection_functionStats hsec⟩
    rwa [(requestSection_sameNames hsec).deployedFunctions] at hn
  | spawn hsec =>
    refine ⟨fun n hn => .inl ?_, createSection_functionStats hsec⟩
    rwa [(createSection_sameNames hsec).deployedFunctions] at hn
  | sweep hsec =>
    refine ⟨fun n hn => .inl ?_, fun n hn => ?_⟩
    · rwa [(sweepSection_sameNames hsec).deployedFunctions] at hn
    · rwa [sweepSection_functionStats hsec]
  | deleteAll hdel =>
    have hsame := World.sameStore_of_deleteAllReplicas hdel
    refine ⟨fun n hn => .inl ?_, fun n hn => ?_⟩
    · rwa [hsame.deployedFunctions] at hn
    · rwa [hsame.functionStats]
  | deleteAllFault hdel =>
    have hsame := World.sameStore_of_deleteAllReplicas hdel
    refine ⟨fun n hn => .inl ?_, fun n hn => ?_⟩
    · rwa [hsame.deployedFunctions] at hn
    · rwa [hsame.functionStats]
  | unmap => exact ⟨fun n hn => .inl (AList.mem_erase.mp hn).2, fun n hn => hn⟩
  | insert hdeploy hins =>
    obtain ⟨-, rows, rfl⟩ := World.insertFunction_eq hins
    exact ⟨fun n hn => .inl hn, fun n hn => hn⟩
  | @map fn =>
    refine ⟨fun n hn => ?_, fun n hn => hn⟩
    rcases (AList.mem_insert _).mp hn with hname | hn
    · exact .inr ⟨fn, rfl, hname⟩
    · exact .inl hn
  | stats => exact ⟨fun n hn => .inl hn, fun n hn => (AList.mem_insert _).mpr (.inr hn)⟩
  | _ => exact ⟨fun n hn => .inl hn, fun n hn => hn⟩

/-- A deployment that writes `deployedFunctions` finds a record of its function. -/
def State.recordsFirst (c : State) : Event → Bool
  | .arrive _ => true
  | .step i _ =>
    match c.threads[i]? with
    | some (.deploy (.map fn)) => decide (fn.name ∈ c.shared.functionStats)
    | _ => true

/-- **One move keeps the records** exactly when a deployment finds one.

**Proof sketch.** A section can break the invariant only by adding a function (`section_grows`),
which is the map write of a deployment; there it asks for a record that is there already. -/
lemma step_statsRecorded_iff {c c' : State} {m : Event} (hrec : c.shared.StatsRecorded)
    (hstep : provider.step c m = some c') :
    c'.shared.StatsRecorded ↔ c.recordsFirst m = true := by
  obtain ⟨t, rfl, -, rfl⟩ | ⟨i, e, t, w', t', new, rfl, ht, hn, rfl⟩ :=
    Interleaving.Program.step_cases hstep
  · exact ⟨fun _ => rfl, fun _ => hrec⟩
  · have hsec := next_cases hn
    obtain ⟨hmap, hstats⟩ := section_grows hsec
    constructor
    · intro hrec'
      simp only [State.recordsFirst, ht]
      split
      · next fn heq =>
        obtain rfl := Option.some.inj heq
        cases hsec
        exact decide_eq_true (hrec'.keys fn.name ((AList.mem_insert _).mpr (.inl rfl)))
      · rfl
    · intro hfirst
      refine World.statsRecorded_iff.mpr fun n hn => ?_
      rcases hmap n hn with hn | ⟨fn, rfl, rfl⟩
      · exact hstats n (hrec.keys n hn)
      · simp only [State.recordsFirst, ht, decide_eq_true_eq] at hfirst
        exact hstats _ hfirst

/-- When the provider begins to serve, no function has a record. -/
lemma startProvider_statsRecorded_iff {cfg : Config} {storage : Storage} {now : Time} {w : World}
    (h : startProvider cfg storage now = .ok w) : w.StatsRecorded ↔ storage.functions = [] := by
  obtain ⟨hres, -⟩ := startProvider_restored h
  rw [World.statsRecorded_iff, hres.functionStats]
  constructor
  · intro hkeys
    by_contra hne
    obtain ⟨row, hrow⟩ := List.exists_mem_of_ne_nil _ hne
    obtain ⟨o, hf⟩ := hres.deployed row hrow
    exact absurd (hkeys row.name (World.mem_deployedFunctions hf)) (AList.notMem_empty _)
  · intro hnil n hn
    obtain ⟨o, f, hf⟩ := (startProvider_fresh h).1.wellFormed.fn?_of_mem hn
    rcases hres.cases hf with ⟨row, hrow, -⟩ | hf
    · rw [hnil] at hrow
      exact absurd hrow List.not_mem_nil
    · cases hf

/-- **The runs throughout which every deployed function has a record**: no function is read back at
the start, and every deployment finds the record that an earlier one has left.

**Proof sketch.** At the start `functionStats` is empty. A move keeps the records exactly when it
is not the map write of a deployment whose function has none (`step_statsRecorded_iff`), and exact
step conditions give exact run conditions. -/
theorem statsRecorded_throughout_iff {cfg : Config} {storage : Storage} {now : Time} {w : World}
    (hstart : startProvider cfg storage now = .ok w) (events : List Event) :
    Runs.Throughout provider.step (fun c => c.shared.StatsRecorded) ⟨w, []⟩ events ↔
      storage.functions = [] ∧
        Runs.Along provider.step (fun (c : State) m => c.recordsFirst m = true) ⟨w, []⟩ events := by
  rw [← startProvider_statsRecorded_iff hstart]
  exact Runs.throughout_iff_head_and_along
    (I := fun c : State => c.shared.StatsRecorded) (J := fun _ => True)
    (fun _ _ _ _ hrec hstep => step_statsRecorded_iff hrec hstep) (fun _ _ _ _ _ _ _ => trivial)
    trivial

/-- Whether all deployed functions have records can be looked up. -/
instance : DecidablePred World.StatsRecorded := fun w =>
  decidable_of_iff (∀ n ∈ w.deployedFunctions.keys, n ∈ w.functionStats)
    World.statsRecorded_iff.symm

/-- An invocation of a function that is not there is answered, and nothing is recorded. -/
theorem statsRecorded_throughout_invokeF :
    Runs.Throughout provider.step (fun c => c.shared.StatsRecorded) ⟨smallWorld, []⟩
      (invokeF 0 1) :=
  (statsRecorded_throughout_iff startProvider_small _).mpr ⟨rfl, by decide⟩

/-- The function `f` has been put into `deployedFunctions`, and its record has not been made
yet. -/
theorem not_statsRecorded_deployF :
    ¬ Runs.Throughout provider.step (fun c => c.shared.StatsRecorded) ⟨smallWorld, []⟩
      ((deployF ∅).take 3) :=
  Runs.not_throughout (by decide)

end Fecore
