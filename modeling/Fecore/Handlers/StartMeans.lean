import Fecore.Handlers.Policies
import Fecore.Handlers.ServiceTimes

set_option relaxedAutoImplicit false
set_option autoImplicit false

/-!
# The means of the cold and of the warm starts

`avgSvcCold` and `avgSvcWarm` are to be the means of the service times of the cold and of the warm
starts of a function, in blocks of 100 of each kind. The evaluations of the policy of a hybrid
function compare those of its two sandboxes.

## Main definitions

* `Fecore.startMean` — the mean of the starts of one kind in the block under way.
* `Fecore.StartMeansAreRight` — what the record is to say.
* `Fecore.Processing.ChoosesByMeans` — the evaluations choose by the means.
* `Fecore.KeepsStartMeans` — the stats after which the record is right.

## Main results

* `Fecore.StartTimes.next_isMean_iff` — one kind of starts after a stat, however the kinds are
  mixed.
* `Fecore.startMeans_iff` — the streams along which the means are right and are chosen by.
-/

namespace Fecore

open Samples

/-- The starts of one kind, the newest first. -/
def startsOf (startupType : Str) (seen : List FunctionStat) : List FunctionStat :=
  seen.filter fun stat => stat.startupType = startupType

/-- The mean of the service times of the starts of one kind in the block under way, zero when there
is none. -/
def startMean (startupType : Str) (seen : List FunctionStat) : ℤ :=
  truncMean ((block 100 (startsOf startupType seen)).map FunctionStat.svcTime)

/-- **The means of the starts are right.** -/
structure StartMeansAreRight (s : FunctionStats) (seen : List FunctionStat) : Prop where
  avgSvcCold : s.avgSvcCold = startMean cold seen
  avgSvcWarm : s.avgSvcWarm = startMean warm seen

/-- The service time of the stat alone, divided by the number of starts of its kind in the block, is
the mean of these starts. -/
def KeepsStartMean (startupType : Str) (seen : List FunctionStat) (stat : FunctionStat) : Prop :=
  stat.startupType = startupType →
    stat.svcTime.tdiv ((startsOf startupType seen).length % 100 + 1 : ℕ) =
      startMean startupType (stat :: seen)

/-- The stat keeps the means of the starts right. -/
def KeepsStartMeans (seen : List FunctionStat) (stat : FunctionStat) : Prop :=
  KeepsStartMean cold seen stat ∧ KeepsStartMean warm seen stat

/-- **The evaluations choose by the means**: for a hybrid function with the two sandboxes, native is
chosen exactly when the mean of the native sandbox is smaller. -/
def Processing.ChoosesByMeans (nativeName wasmName : Str) (p : Processing) : Prop :=
  ∀ (w : World) fn o f, w.fn? fn = some (o, f) → f.isHybrid →
    index f.sandboxes native = nativeName → index f.sandboxes wasm = wasmName →
    (∃ w' f', w.evalColdStartPolicy p.functionStats fn = .ok w' ∧ w'.fn? fn = some (o, f') ∧
      (f'.policy.coldStartCtrType = native ↔
        startMean cold (statsOf nativeName p.processed) <
          startMean cold (statsOf wasmName p.processed))) ∧
    ∃ w' f', w.evalWarmStartPolicy p.functionStats fn = .ok w' ∧ w'.fn? fn = some (o, f') ∧
      (f'.policy.warmStartCtrType = native ↔
        startMean warm (statsOf nativeName p.processed) <
          startMean warm (statsOf wasmName p.processed))

/-! ### One kind of starts -/

/-- The position is the one in the block of the starts of the kind. -/
def StartTimes.InBlock (startupType : Str) (c : StartTimes) (seen : List FunctionStat) : Prop :=
  c.pos.val = (startsOf startupType seen).length % 100

section Starts

variable {startupType : Str} {c : StartTimes} {seen : List FunctionStat} {stat : FunctionStat}

/-- A start of the kind is the newest one of it. -/
lemma startsOf_cons_of_eq (h : stat.startupType = startupType) :
    startsOf startupType (stat :: seen) = stat :: startsOf startupType seen := by
  simp [startsOf, h]

/-- A start of the other kind does not count. -/
lemma startsOf_cons_of_ne (h : stat.startupType ≠ startupType) :
    startsOf startupType (stat :: seen) = startsOf startupType seen := by
  simp [startsOf, h]

/-- **The mean of one kind of starts after a stat**, of that kind or another one. -/
theorem StartTimes.next_isMean_iff (hpos : c.InBlock startupType seen)
    (hmean : c.avgSvc = startMean startupType seen) :
    (c.next startupType stat).avgSvc = startMean startupType (stat :: seen) ↔
      KeepsStartMean startupType seen stat := by
  by_cases htype : stat.startupType = startupType
  · simp only [next, KeepsStartMean, htype, true_implies, if_true]
    rw [hpos]
    push_cast
    rfl
  · have hsame : startMean startupType (stat :: seen) = startMean startupType seen := by
      rw [startMean, startsOf_cons_of_ne htype, startMean]
    rw [next, if_neg htype, hsame]
    exact iff_of_true hmean fun h => absurd h htype

/-- The position stays the one in the block. -/
lemma StartTimes.InBlock.next (hpos : c.InBlock startupType seen) (stat : FunctionStat) :
    (c.next startupType stat).InBlock startupType (stat :: seen) := by
  by_cases htype : stat.startupType = startupType
  · rw [StartTimes.next, if_pos htype, InBlock, startsOf_cons_of_eq htype, List.length_cons]
    exact FunctionStats.val_add_one hpos
  · rw [StartTimes.next, if_neg htype, InBlock, startsOf_cons_of_ne htype]
    exact hpos

end Starts

/-! ### Both kinds -/

/-- Both positions are those in their blocks. -/
def StartsInBlocks (s : FunctionStats) (seen : List FunctionStat) : Prop :=
  s.coldTimes.InBlock cold seen ∧ s.warmTimes.InBlock warm seen

section Record

variable {T : ℤ} {s : FunctionStats} {seen : List FunctionStat} {stat : FunctionStat}

/-- **The means of the starts after a stat.** -/
lemma startMeansAreRight_process (hpos : StartsInBlocks s seen) (h : StartMeansAreRight s seen) :
    StartMeansAreRight (s.process T stat).1 (stat :: seen) ↔ KeepsStartMeans seen stat := by
  have hcold : (s.process T stat).1.avgSvcCold = startMean cold (stat :: seen) ↔
      KeepsStartMean cold seen stat := by
    have hnext := congrArg StartTimes.avgSvc (s.process_coldTimes T stat)
    rw [← StartTimes.next_isMean_iff hpos.1 h.avgSvcCold, ← hnext]
    rfl
  have hwarm : (s.process T stat).1.avgSvcWarm = startMean warm (stat :: seen) ↔
      KeepsStartMean warm seen stat := by
    have hnext := congrArg StartTimes.avgSvc (s.process_warmTimes T stat)
    rw [← StartTimes.next_isMean_iff hpos.2 h.avgSvcWarm, ← hnext]
    rfl
  rw [KeepsStartMeans, ← hcold, ← hwarm]
  exact ⟨fun h => ⟨h.avgSvcCold, h.avgSvcWarm⟩, fun h => ⟨h.1, h.2⟩⟩

/-- A stat moves the position of its kind on. -/
lemma StartsInBlocks.process (hpos : StartsInBlocks s seen) :
    StartsInBlocks (s.process T stat).1 (stat :: seen) := by
  rw [StartsInBlocks, FunctionStats.process_coldTimes, FunctionStats.process_warmTimes]
  exact ⟨hpos.1.next stat, hpos.2.next stat⟩

end Record

/-- **Right means are chosen by.**

**Proof sketch.** Both records are found, and each evaluation compares two of the averages, which
are the means by hypothesis. -/
lemma Processing.choosesByMeans {nativeName wasmName : Str} {p : Processing}
    (h : p.RecordsAre {nativeName, wasmName} StartMeansAreRight) :
    p.ChoosesByMeans nativeName wasmName := by
  intro w fn o f hf hhyb hnative hwasm
  obtain ⟨nativeStats, hn, hnmean⟩ := h nativeName (by simp)
  obtain ⟨wasmStats, hw, hwmean⟩ := h wasmName (by simp)
  have hstats : World.sandboxStats p.functionStats f = .ok (nativeStats, wasmStats) := by
    unfold World.sandboxStats
    rw [if_pos hhyb, if_pos hhyb, hnative, hwasm]
    dsimp only
    rw [hn]
    dsimp only
    rw [hw]
  have hne : wasm ≠ native := by decide
  constructor
  · simp only [World.evalColdStartPolicy, hf, hstats]
    refine ⟨_, _, rfl, World.fn?_setFn_self hf _, ?_⟩
    rw [← hnmean.avgSvcCold, ← hwmean.avgSvcCold]
    by_cases hlt : nativeStats.avgSvcCold < wasmStats.avgSvcCold
    · simp [hlt]
    · simp [hlt, hne]
  · simp only [World.evalWarmStartPolicy, hf, hstats]
    refine ⟨_, _, rfl, World.fn?_setFn_self hf _, ?_⟩
    rw [← hnmean.avgSvcWarm, ← hwmean.avgSvcWarm]
    by_cases hlt : nativeStats.avgSvcWarm < wasmStats.avgSvcWarm
    · simp [hlt]
    · simp [hlt, hne]

/-- **The streams along which the means of the starts are right, and are chosen by.**

**Proof sketch.** The sum of a block is overwritten by the service time of each of its stats, so
what is divided by the number of starts is that of the last one alone. How the two kinds are mixed
does not matter, nor do the stats of other functions. -/
theorem startMeans_iff (T : ℤ) (functionStats : GoMap FunctionStats) (nativeName wasmName : Str)
    (stream : List FunctionStat) :
    Runs.Throughout (Processing.step T)
        (fun p => p.RecordsAre {nativeName, wasmName} StartMeansAreRight ∧
          p.ChoosesByMeans nativeName wasmName)
        ⟨(functionStats.insert nativeName fnStats).insert wasmName fnStats, []⟩ stream ↔
      Runs.Along (Processing.step T) (Processing.Takes {nativeName, wasmName} KeepsStartMeans)
        ⟨(functionStats.insert nativeName fnStats).insert wasmName fnStats, []⟩ stream := by
  have hnew : ∀ {Q : FunctionStats → List FunctionStat → Prop}, Q fnStats [] →
      Processing.RecordsAre {nativeName, wasmName} Q
        ⟨(functionStats.insert nativeName fnStats).insert wasmName fnStats, []⟩ := by
    rintro Q hQ fn hfn
    refine ⟨fnStats, ?_, hQ⟩
    by_cases hwasm : fn = wasmName
    · rw [hwasm, AList.lookup_insert]
    · obtain rfl : fn = nativeName := by simpa [hwasm] using hfn
      rw [AList.lookup_insert_ne hwasm, AList.lookup_insert]
  have hmeans := Processing.throughout_iff (T := T) (J := StartsInBlocks)
    (fun _ _ _ hpos h => startMeansAreRight_process hpos h) (fun _ _ _ hpos _ _ => hpos.process)
    (hnew ⟨rfl, rfl⟩) (hnew ⟨rfl, rfl⟩) stream
  rw [← hmeans]
  exact ⟨fun h => h.mono fun p hp => hp.1, fun h => h.mono fun p hp => ⟨hp, p.choosesByMeans hp⟩⟩

/-- Two warm starts of the native sandbox of a hybrid function, and one of its WASM sandbox. -/
def warmStarts : List FunctionStat :=
  [⟨"f-n".toList, native, 0, 10, warm⟩, ⟨"f-n".toList, native, 0, 2, warm⟩,
    ⟨"f-w".toList, wasm, 0, 4, warm⟩]

/-- The native sandbox seems the faster one, and its mean is the greater one.

**Proof sketch.** The stream is evaluated; the average in the record of the native sandbox is 1,
where the mean of its stats is 6. -/
theorem startMeans_warmStarts :
    ((Runs.run (Processing.step 100) ⟨((∅ : GoMap FunctionStats).insert "f-n".toList
        fnStats).insert "f-w".toList fnStats, []⟩ warmStarts).map fun p =>
      ((p.functionStats.lookup "f-n".toList).map (·.avgSvcWarm),
        startMean warm (statsOf "f-n".toList p.processed),
        (p.functionStats.lookup "f-w".toList).map (·.avgSvcWarm),
        startMean warm (statsOf "f-w".toList p.processed))) = some (some 1, 6, some 4, 4) ∧
    ¬ Runs.Throughout (Processing.step 100)
      (fun p => p.RecordsAre {"f-n".toList, "f-w".toList} StartMeansAreRight ∧
        p.ChoosesByMeans "f-n".toList "f-w".toList)
      ⟨((∅ : GoMap FunctionStats).insert "f-n".toList fnStats).insert "f-w".toList fnStats, []⟩
      warmStarts := by
  have hrun : ((Runs.run (Processing.step 100) ⟨((∅ : GoMap FunctionStats).insert "f-n".toList
        fnStats).insert "f-w".toList fnStats, []⟩ warmStarts).map fun p =>
      ((p.functionStats.lookup "f-n".toList).map (·.avgSvcWarm),
        startMean warm (statsOf "f-n".toList p.processed),
        (p.functionStats.lookup "f-w".toList).map (·.avgSvcWarm),
        startMean warm (statsOf "f-w".toList p.processed))) = some (some 1, 6, some 4, 4) := by
    decide +kernel
  refine ⟨hrun, fun h => ?_⟩
  obtain ⟨p, hp, heq⟩ := Option.map_eq_some_iff.mp hrun
  simp only [Prod.mk.injEq] at heq
  obtain ⟨s, hs, hmeans⟩ := (h.of_run hp).1 "f-n".toList (by simp)
  rw [hs, Option.map_some, Option.some.injEq] at heq
  have hwarm := hmeans.avgSvcWarm
  rw [heq.1, heq.2.1] at hwarm
  exact absurd hwarm (by decide)

end Fecore
