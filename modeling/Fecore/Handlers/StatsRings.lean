import Mathlib.Algebra.BigOperators.Group.List.Basic
import Fecore.Handlers.ServiceTimes

set_option relaxedAutoImplicit false
set_option autoImplicit false

/-!
# The record of a function after a stream

`ProcessFunctionStats` takes the stats of all functions from one channel. The last 100 stats of a
function stand in three rings that share one position, and two sums run over all of them.

## Main definitions

* `Fecore.FunctionStats.after` — a record after some stats of its function.
* `Fecore.FunctionStats.Holds` — what a record is to say about the stats of its function.
* `Fecore.getMetricsLog` — the reader of the ring of entries.

## Main results

* `Fecore.FunctionStats.Holds.process`, `Fecore.holds_after` — one stat and a whole stream.
* `Fecore.Processing.run_eq` — a stream of the stats of many functions leaves each record to the
  stats of its own function.
* `Fecore.holds_of_stream` — the records after a stream.

## Design

The times and the sums are integers: below `2^63` they are what the code computes.
-/

namespace Fecore

open Samples

/-- The record after the stats. -/
def FunctionStats.after (T : ℤ) (s : FunctionStats) (stats : List FunctionStat) : FunctionStats :=
  stats.foldl (fun s stat => (s.process T stat).1) s

/-- `GetMetricsLog`. -/
def getMetricsLog (functionStats : GoMap FunctionStats) (fname : Str) :
    Except Fault (Vector FunctionStat 100) :=
  match functionStats.lookup fname with
  | none => .error .absentStats
  | some s => .ok s.entries

/-- **What a record says about the stats of its function**, in the order in which they have been
processed: they are counted, the last 100 stand in the rings at their positions modulo 100, and the
means are those of all of them. -/
structure FunctionStats.Holds (s : FunctionStats) (stats : List FunctionStat) : Prop where
  totalInvocations : s.totalInvocations = stats.length
  entryPos : s.entryPos.val = stats.length % 100
  entries : ∀ i, i < stats.length → stats.length ≤ i + 100 → s.entries[i % 100]? = stats[i]?
  execTimes : ∀ i, i < stats.length → stats.length ≤ i + 100 →
    s.execTimes[i % 100]? = stats[i]?.map (·.execTime)
  startupTimes : ∀ i, i < stats.length → stats.length ≤ i + 100 →
    s.startupTimes[i % 100]? = stats[i]?.map (·.startupTime)
  totalExecTime : s.totalExecTime = (stats.map (·.execTime)).sum
  totalStartupTime : s.totalStartupTime = (stats.map (·.startupTime)).sum
  avgExecTime : s.avgExecTime = truncMean (stats.map (·.execTime))
  avgStartupTime : s.avgStartupTime = truncMean (stats.map (·.startupTime))

/-! ### One record -/

/-- The new record of a function without stats. -/
lemma fnStats_holds : fnStats.Holds [] where
  totalInvocations := rfl
  entryPos := rfl
  entries _ hi := absurd hi (Nat.not_lt_zero _)
  execTimes _ hi := absurd hi (Nat.not_lt_zero _)
  startupTimes _ hi := absurd hi (Nat.not_lt_zero _)
  totalExecTime := rfl
  totalStartupTime := rfl
  avgExecTime := rfl
  avgStartupTime := rfl

/-- The rings are written at the position of the next stat, each with its part of the stat. -/
lemma ring_set {α : Type*} {v : Vector α 100} {stats : List FunctionStat} {f : FunctionStat → α}
    (h : ∀ i, i < stats.length → stats.length ≤ i + 100 → v[i % 100]? = stats[i]?.map f)
    (stat : FunctionStat) {pos : ℕ} (hpos : pos = stats.length % 100) (hlt : pos < 100) :
    ∀ i, i < (stats ++ [stat]).length → (stats ++ [stat]).length ≤ i + 100 →
      (v.set pos (f stat))[i % 100]? = (stats ++ [stat])[i]?.map f := by
  have hring : InRing v (stats.map f).reverse := by
    rw [inRing_reverse_iff]
    simpa using h
  have hnext := hring.set (f stat) hlt (by simpa using hpos)
  have heq : f stat :: (stats.map f).reverse = ((stats ++ [stat]).map f).reverse := by simp
  rw [heq, inRing_reverse_iff] at hnext
  intro i hi hlast
  rw [← List.getElem?_map]
  exact hnext i (by rwa [List.length_map]) (by rwa [List.length_map])

namespace FunctionStats.Holds

variable {s : FunctionStats} {stats : List FunctionStat}

/-- **One stat**: it goes to the next position of the rings, and into the sums.

**Proof sketch.** The sums and the count are read off `process_lifeTimes`; the three rings take the
stat at their next place (`InRing.set`), which is the one after the last. -/
lemma process (h : s.Holds stats) (T : ℤ) (stat : FunctionStat) :
    (s.process T stat).1.Holds (stats ++ [stat]) := by
  have hlife := s.process_lifeTimes T stat
  have htotal : (s.process T stat).1.totalInvocations = s.totalInvocations + 1 :=
    congrArg LifeTimes.totalInvocations hlife
  have hexec : (s.process T stat).1.totalExecTime = s.totalExecTime + stat.execTime :=
    congrArg LifeTimes.totalExecTime hlife
  have hstartup : (s.process T stat).1.totalStartupTime = s.totalStartupTime + stat.startupTime :=
    congrArg LifeTimes.totalStartupTime hlife
  have havgExec : (s.process T stat).1.avgExecTime =
      (s.process T stat).1.totalExecTime.tdiv (s.process T stat).1.totalInvocations := by
    rw [hexec, htotal]
    exact congrArg LifeTimes.avgExecTime hlife
  have havgStartup : (s.process T stat).1.avgStartupTime =
      (s.process T stat).1.totalStartupTime.tdiv (s.process T stat).1.totalInvocations := by
    rw [hstartup, htotal]
    exact congrArg LifeTimes.avgStartupTime hlife
  have hcount : (s.process T stat).1.totalInvocations = (stats ++ [stat]).length := by
    rw [htotal, h.totalInvocations]
    simp
  have hexecSum : (s.process T stat).1.totalExecTime =
      ((stats ++ [stat]).map (·.execTime)).sum := by
    rw [hexec, h.totalExecTime]
    simp
  have hstartupSum : (s.process T stat).1.totalStartupTime =
      ((stats ++ [stat]).map (·.startupTime)).sum := by
    rw [hstartup, h.totalStartupTime]
    simp
  refine
    { totalInvocations := hcount
      entryPos := ?_
      entries := ?_
      execTimes := ?_
      startupTimes := ?_
      totalExecTime := hexecSum
      totalStartupTime := hstartupSum
      avgExecTime := ?_
      avgStartupTime := ?_ }
  · rw [process_entryPos, List.length_append]
    exact val_add_one h.entryPos
  · rw [process_entries]
    have hring := ring_set (f := id) (by simpa using h.entries) stat h.entryPos s.entryPos.isLt
    simpa using hring
  · have hset : (s.process T stat).1.execTimes = s.execTimes.set s.entryPos.val stat.execTime :=
      congrArg LifeTimes.execTimes hlife
    rw [hset]
    exact ring_set h.execTimes stat h.entryPos s.entryPos.isLt
  · have hset : (s.process T stat).1.startupTimes =
        s.startupTimes.set s.entryPos.val stat.startupTime :=
      congrArg LifeTimes.startupTimes hlife
    rw [hset]
    exact ring_set h.startupTimes stat h.entryPos s.entryPos.isLt
  · rw [havgExec, hexecSum, hcount, truncMean, List.length_map]
  · rw [havgStartup, hstartupSum, hcount, truncMean, List.length_map]

end FunctionStats.Holds

/-- **A stream of stats** into a new record. -/
lemma holds_after (T : ℤ) (stats : List FunctionStat) : (fnStats.after T stats).Holds stats := by
  induction stats using List.reverseRecOn with
  | nil => exact fnStats_holds
  | append_singleton stats stat ih =>
    have hlast : fnStats.after T (stats ++ [stat]) =
        ((fnStats.after T stats).process T stat).1 := by
      simp [FunctionStats.after]
    rw [hlast]
    exact ih.process T stat

/-! ### The records of all functions -/

namespace Processing

/-- A stat whose function has no record is dropped. -/
lemma step_of_notMem {T : ℤ} {p : Processing} {stat : FunctionStat}
    (h : stat.fn ∉ p.functionStats) : p.step T stat = some p := by
  simp only [step, processFunctionStat, AList.lookup_eq_none.mpr h, Option.map_none]

/-- Every stat can be taken from the channel, and leaves the functions that have records. -/
lemma step_mem (T : ℤ) (p : Processing) (stat : FunctionStat) :
    ∃ p', p.step T stat = some p' ∧ ∀ fn, fn ∈ p'.functionStats ↔ fn ∈ p.functionStats := by
  by_cases h : stat.fn ∈ p.functionStats
  · obtain ⟨s, hs⟩ := Option.isSome_iff_exists.mp (AList.lookup_isSome.mpr h)
    have hstep : p.step T stat =
        some ⟨p.functionStats.insert stat.fn (s.process T stat).1, stat :: p.processed⟩ := by
      simp only [step, processFunctionStat, hs, Option.map_some]
    refine ⟨_, hstep, fun fn => ?_⟩
    rw [AList.mem_insert]
    exact or_iff_right_of_imp fun heq => heq ▸ h
  · exact ⟨p, step_of_notMem h, fun _ => Iff.rfl⟩

/-- **What one stat does to the record of a function**: its own stats are processed, and all others
leave it. -/
lemma lookup_step_eq {T : ℤ} {p p' : Processing} {stat : FunctionStat}
    (h : p.step T stat = some p') (fn : Str) :
    p'.functionStats.lookup fn =
      (p.functionStats.lookup fn).map (·.after T (statsOf fn [stat])) := by
  cases hs : p.functionStats.lookup fn with
  | none =>
    obtain ⟨p₁, hp₁, hmem⟩ := step_mem T p stat
    obtain rfl : p₁ = p' := Option.some.inj (hp₁.symm.trans h)
    rw [Option.map_none, AList.lookup_eq_none, hmem]
    exact AList.lookup_eq_none.mp hs
  | some s =>
    obtain ⟨hfn, hs', -⟩ | ⟨hfn, hs', -⟩ := lookup_step h hs
    · rw [hs', Option.map_some]
      simp [statsOf, hfn, FunctionStats.after]
    · rw [hs', Option.map_some]
      simp [statsOf, hfn, FunctionStats.after]

/-- **What a stream does**: it is processed to its end, each record is left to the stats of its own
function, and the stats whose functions have no record might as well not be there.

**Proof sketch.** Induct on the stream. A stat without a record changes nothing and may be left out,
and one with a record is processed into it. -/
theorem run_eq (T : ℤ) (stream : List FunctionStat) : ∀ p : Processing,
    ∃ p', Runs.run (step T) p stream = some p' ∧
      (∀ fn, p'.functionStats.lookup fn =
        (p.functionStats.lookup fn).map (·.after T (statsOf fn stream))) ∧
      Runs.run (step T) p (stream.filter fun stat => stat.fn ∈ p.functionStats) = some p' := by
  induction stream with
  | nil =>
    intro p
    refine ⟨p, rfl, fun fn => ?_, rfl⟩
    cases p.functionStats.lookup fn <;> rfl
  | cons stat stream ih =>
    intro p
    obtain ⟨p₁, hstep, hmem⟩ := step_mem T p stat
    obtain ⟨p', hrun, hlookup, hknown⟩ := ih p₁
    refine ⟨p', by rw [Runs.run_cons, hstep, Option.bind_some, hrun], fun fn => ?_, ?_⟩
    · have hsplit : statsOf fn (stat :: stream) = statsOf fn [stat] ++ statsOf fn stream := by
        rw [statsOf, statsOf, statsOf, ← List.filter_append, List.singleton_append]
      rw [hlookup, lookup_step_eq hstep, Option.map_map, hsplit]
      congr 1
      funext s
      simp [FunctionStats.after]
    · simp only [hmem] at hknown
      rw [List.filter_cons]
      by_cases hfn : stat.fn ∈ p.functionStats
      · rw [if_pos (decide_eq_true hfn), Runs.run_cons, hstep, Option.bind_some, hknown]
      · obtain rfl : p = p₁ := Option.some.inj ((step_of_notMem hfn).symm.trans hstep)
        rw [if_neg (by simpa using hfn), hknown]

/-- What has been processed after a stream are the stats whose functions have records.

**Proof sketch.** Induct on the stream. The first stat is processed or dropped, and the set of the
records stays, so the rest is filtered alike. -/
lemma run_processed {T : ℤ} : ∀ {p p' : Processing} {stream : List FunctionStat},
    Runs.run (step T) p stream = some p' →
      p'.processed = (stream.filter fun stat => stat.fn ∈ p.functionStats).reverse ++ p.processed
  | p, p', [], h => by
    obtain rfl := Option.some.inj h
    rfl
  | p, p', stat :: stream, h => by
    obtain ⟨p₁, hstep, hrun⟩ := Runs.run_cons_eq_some.mp h
    obtain ⟨p₂, hp₂, hmem⟩ := step_mem T p stat
    obtain rfl : p₂ = p₁ := Option.some.inj (hp₂.symm.trans hstep)
    have ih := run_processed hrun
    simp only [hmem] at ih
    rw [ih, List.filter_cons]
    by_cases hfn : stat.fn ∈ p.functionStats
    · obtain ⟨p₃, hp₃, -, -, hprocessed⟩ := step_eq (T := T) p stat
      obtain rfl : p₃ = p₂ := Option.some.inj (hp₃.symm.trans hstep)
      rw [hprocessed hfn, if_pos (decide_eq_true hfn)]
      simp
    · obtain rfl : p = p₂ := Option.some.inj ((step_of_notMem hfn).symm.trans hstep)
      rw [if_neg (by simpa using hfn)]

/-- **Every record holds what has been processed** for its function, after a stream into new
records; for a function without a record nothing has been.

**Proof sketch.** A record is the first one after the stats of its function (`run_eq`), and these
are the processed ones, from the last to the first. -/
lemma run_holds {T : ℤ} {functionStats : GoMap FunctionStats} {stream : List FunctionStat}
    {p : Processing} (hnew : ∀ fn r, functionStats.lookup fn = some r → r = fnStats)
    (hrun : Runs.run (step T) ⟨functionStats, []⟩ stream = some p) (fn : Str) :
    (p.functionStats.lookup fn = none → statsOf fn p.processed = []) ∧
      ∀ r, p.functionStats.lookup fn = some r → r.Holds (statsOf fn p.processed).reverse := by
  obtain ⟨p₁, hrun₁, hlookup, -⟩ := run_eq T stream ⟨functionStats, []⟩
  obtain rfl : p₁ = p := Option.some.inj (hrun₁.symm.trans hrun)
  have hprocessed : statsOf fn p₁.processed =
      (statsOf fn (stream.filter fun stat => stat.fn ∈ functionStats)).reverse := by
    rw [run_processed hrun, List.append_nil, statsOf, List.filter_reverse]
    rfl
  rw [hprocessed, List.reverse_reverse, statsOf, List.filter_filter]
  have hfn := hlookup fn
  cases hold : functionStats.lookup fn with
  | none =>
    rw [hold] at hfn
    refine ⟨fun _ => ?_, fun r hr => absurd (hr.symm.trans hfn) (Option.some_ne_none _)⟩
    rw [List.reverse_eq_nil_iff, List.filter_eq_nil_iff]
    rintro stat - hstat
    simp only [Bool.and_eq_true, decide_eq_true_eq] at hstat
    exact AList.lookup_eq_none.mp hold (hstat.1 ▸ hstat.2)
  | some r₀ =>
    obtain rfl := hnew fn r₀ hold
    rw [hold, Option.map_some] at hfn
    refine ⟨fun h => absurd (hfn.symm.trans h) (Option.some_ne_none _), fun r hr => ?_⟩
    obtain rfl := Option.some.inj (hfn.symm.trans hr)
    have hmem : fn ∈ functionStats := AList.lookup_isSome.mp (by rw [hold]; rfl)
    have hall : (stream.filter fun stat => decide (stat.fn = fn) &&
        decide (stat.fn ∈ functionStats)) = statsOf fn stream := by
      refine List.filter_congr fun stat _ => ?_
      by_cases hstat : stat.fn = fn
      · simp [hstat, hmem]
      · simp [hstat]
    rw [hall]
    exact holds_after T _

end Processing

/-- **The records after a stream**: the record of every function that had a new one holds its stats,
which `GetMetricsLog` returns; every record depends on the stats of its own function only; and the
stats of functions without a record change nothing. -/
theorem holds_of_stream (T : ℤ) (functionStats : GoMap FunctionStats)
    (stream : List FunctionStat) :
    ∃ p, Runs.run (Processing.step T) ⟨functionStats, []⟩ stream = some p ∧
      (∀ fn, functionStats.lookup fn = some fnStats →
        ∃ s, p.functionStats.lookup fn = some s ∧ s.Holds (statsOf fn stream) ∧
          getMetricsLog p.functionStats fn = .ok s.entries) ∧
      (∀ fn, p.functionStats.lookup fn =
        (functionStats.lookup fn).map (·.after T (statsOf fn stream))) ∧
      Runs.run (Processing.step T) ⟨functionStats, []⟩
        (stream.filter fun stat => stat.fn ∈ functionStats) = some p := by
  obtain ⟨p, hrun, hlookup, hknown⟩ := Processing.run_eq T stream ⟨functionStats, []⟩
  refine ⟨p, hrun, fun fn hfn => ?_, hlookup, hknown⟩
  have hs := hlookup fn
  rw [hfn, Option.map_some] at hs
  refine ⟨_, hs, holds_after T _, ?_⟩
  rw [getMetricsLog, hs]

end Fecore
