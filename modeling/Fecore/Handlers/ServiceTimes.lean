import Fecore.Data.Samples
import Fecore.Handlers.Stats

set_option relaxedAutoImplicit false
set_option autoImplicit false

/-!
# The mean of the service times

What the record of a function says about the service times of its invocations, beside the stats
that have been processed for it: `avgSvcTime` is to be the mean of the epoch under way, an epoch
being 100 stats.

## Main definitions

* `Fecore.Processing.RecordsAre`, `Fecore.Processing.Takes` — what holds of the records of some
  functions, and of the stats that are processed for them.
* `Fecore.AvgSvcTimeIsMean`, `Fecore.KeepsMean` — what the record is to say, and the stats after
  which it does.

## Main results

* `Fecore.Processing.throughout_iff` — from one stat and one record to streams for all functions.
* `Fecore.avgSvcTime_iff` — the streams along which `avgSvcTime` is the mean of the epoch.

## Design

Times are whole milliseconds that callers take from `time.Duration`, so they are below `2^44` and
none of the sums here comes near `2^63`; they are modelled by integers.
-/

namespace Fecore

open Samples

/-! ### Streams -/

namespace Processing

/-- Each of the functions has a record, of which `Q` holds beside the stats that have been processed
for the function, the newest first. -/
def RecordsAre (fns : Set Str) (Q : FunctionStats → List FunctionStat → Prop) (p : Processing) :
    Prop :=
  ∀ fn ∈ fns, ∃ s, p.functionStats.lookup fn = some s ∧ Q s (statsOf fn p.processed)

/-- If the stat is for one of the functions, `ok` holds of it and of the stats that have been
processed for that function, the newest first. -/
def Takes (fns : Set Str) (ok : List FunctionStat → FunctionStat → Prop) (p : Processing)
    (stat : FunctionStat) : Prop :=
  stat.fn ∈ fns → ok (statsOf stat.fn p.processed) stat

/-- Whether a stat is taken is decided by the records of one function. -/
instance (fn : Str) (ok : List FunctionStat → FunctionStat → Prop)
    [∀ seen stat, Decidable (ok seen stat)] (p : Processing) (stat : FunctionStat) :
    Decidable (Takes {fn} ok p stat) :=
  inferInstanceAs (Decidable (stat.fn = fn → ok (statsOf stat.fn p.processed) stat))

/-- **What one stat does to one record.**

**Proof sketch.** The record of the stat is written when it is there; the record of another function
stays as it is. -/
lemma lookup_step {T : ℤ} {p p' : Processing} {stat : FunctionStat} (h : p.step T stat = some p')
    {fn : Str} {s : FunctionStats} (hs : p.functionStats.lookup fn = some s) :
    (stat.fn = fn ∧ p'.functionStats.lookup fn = some (s.process T stat).1 ∧
      statsOf fn p'.processed = stat :: statsOf fn p.processed) ∨
    (stat.fn ≠ fn ∧ p'.functionStats.lookup fn = some s ∧
      statsOf fn p'.processed = statsOf fn p.processed) := by
  unfold step processFunctionStat at h
  by_cases hfn : stat.fn = fn
  · subst hfn
    rw [hs] at h
    obtain rfl := Option.some.inj h
    exact .inl ⟨rfl, AList.lookup_insert .., by simp [statsOf]⟩
  · refine .inr ⟨hfn, ?_⟩
    cases hother : p.functionStats.lookup stat.fn with
    | none =>
      rw [hother] at h
      obtain rfl := Option.some.inj h
      exact ⟨hs, rfl⟩
    | some s' =>
      rw [hother] at h
      obtain rfl := Option.some.inj h
      refine ⟨?_, by simp [statsOf, hfn]⟩
      dsimp only
      rwa [AList.lookup_insert_ne (Ne.symm hfn)]

/-- **From one stat and one record to streams for all functions.** If, under `J`, a record is as it
should be after a stat exactly when the stat meets `ok`, then the records of some functions are as
they should be all along a stream exactly when all the stats for them meet `ok`.

**Proof sketch.** The invariant `J` is carried along the stream, so the rule
`Runs.throughout_iff_along_of_invariant` leaves one step. There the record of the stat is processed
and every other one stays (`lookup_step`). -/
theorem throughout_iff {T : ℤ} {Q J : FunctionStats → List FunctionStat → Prop}
    {ok : List FunctionStat → FunctionStat → Prop}
    (hstep : ∀ s seen stat, J s seen → Q s seen →
      (Q (s.process T stat).1 (stat :: seen) ↔ ok seen stat))
    (hinv : ∀ s seen stat, J s seen → Q s seen → ok seen stat →
      J (s.process T stat).1 (stat :: seen))
    {fns : Set Str} {p : Processing} (hJ : p.RecordsAre fns J) (hQ : p.RecordsAre fns Q)
    (stream : List FunctionStat) :
    Runs.Throughout (Processing.step T) (RecordsAre fns Q) p stream ↔
      Runs.Along (Processing.step T) (Takes fns ok) p stream := by
  refine Runs.throughout_iff_along_of_invariant (J := RecordsAre fns J)
    (fun p stat p' hJ hQ h => ?_) (fun p stat p' hJ hQ hok h fn hfn => ?_) hJ hQ
  · constructor
    · intro hQ' hfn
      obtain ⟨s, hs, hJs⟩ := hJ _ hfn
      obtain ⟨s₁, hs₁, hQs⟩ := hQ _ hfn
      obtain rfl : s = s₁ := Option.some.inj (hs.symm.trans hs₁)
      obtain ⟨-, hs', hseen⟩ := (lookup_step h hs).resolve_right fun hne => hne.1 rfl
      obtain ⟨s₂, hs₂, hQ₂⟩ := hQ' _ hfn
      obtain rfl : (s.process T stat).1 = s₂ := Option.some.inj (hs'.symm.trans hs₂)
      rw [hseen] at hQ₂
      exact (hstep _ _ stat hJs hQs).mp hQ₂
    · intro hok fn hfn
      obtain ⟨s, hs, hJs⟩ := hJ fn hfn
      obtain ⟨s₁, hs₁, hQs⟩ := hQ fn hfn
      obtain rfl : s = s₁ := Option.some.inj (hs.symm.trans hs₁)
      rcases lookup_step h hs with ⟨rfl, hs', hseen⟩ | ⟨-, hs', hseen⟩
      · refine ⟨_, hs', ?_⟩
        rw [hseen]
        exact (hstep _ _ stat hJs hQs).mpr (hok hfn)
      · refine ⟨s, hs', ?_⟩
        rw [hseen]
        exact hQs
  · obtain ⟨s, hs, hJs⟩ := hJ fn hfn
    obtain ⟨s₁, hs₁, hQs⟩ := hQ fn hfn
    obtain rfl : s = s₁ := Option.some.inj (hs.symm.trans hs₁)
    rcases lookup_step h hs with ⟨rfl, hs', hseen⟩ | ⟨-, hs', hseen⟩
    · refine ⟨_, hs', ?_⟩
      rw [hseen]
      exact hinv _ _ stat hJs hQs (hok hfn)
    · refine ⟨s, hs', ?_⟩
      rw [hseen]
      exact hJs

/-- What holds of a new record holds where one has just been made. -/
lemma recordsAre_insert {Q : FunctionStats → List FunctionStat → Prop} (hQ : Q fnStats [])
    (functionStats : GoMap FunctionStats) (fn : Str) :
    RecordsAre {fn} Q ⟨functionStats.insert fn fnStats, []⟩ := by
  rintro _ rfl
  exact ⟨fnStats, AList.lookup_insert .., hQ⟩

end Processing

/-! ### The mean of the epoch -/

/-- **`avgSvcTime` is the mean of the service times of the epoch under way.** -/
def AvgSvcTimeIsMean (s : FunctionStats) (seen : List FunctionStat) : Prop :=
  s.avgSvcTime = truncMean ((block 100 seen).map FunctionStat.svcTime)

/-- The stat keeps `avgSvcTime` the mean: at the end of an epoch its own service time divided by 100
is the mean of the epoch, and at the beginning of a later epoch the stat before took no time. -/
def KeepsMean (seen : List FunctionStat) (stat : FunctionStat) : Prop :=
  (seen.length % 100 = 99 →
    stat.svcTime.tdiv 100 = truncMean ((block 100 (stat :: seen)).map FunctionStat.svcTime)) ∧
  (seen.length % 100 = 0 → ∀ last ∈ seen.head?, last.svcTime = 0)

/-- The position is the one in the epoch, and the total is that of the epoch; after an epoch it is
what the last stat of it took. -/
def TotalOfEpoch (s : FunctionStats) (seen : List FunctionStat) : Prop :=
  s.entryPos.val = seen.length % 100 ∧
  s.totalSvcTime =
    if seen.length % 100 = 0 then (seen.head?.map FunctionStat.svcTime).getD 0
    else ((block 100 seen).map FunctionStat.svcTime).sum

namespace FunctionStats

/-- The positions run around. -/
lemma val_add_one {pos : Fin 100} {n : ℕ} (h : pos.val = n % 100) :
    (pos + 1).val = (n + 1) % 100 := by
  rw [Fin.val_add, h]
  simp

/-- The position is the last one at the end of an epoch. -/
lemma eq_last_iff {pos : Fin 100} {n : ℕ} (h : pos.val = n % 100) :
    pos = 99 ↔ n % 100 = 99 := by
  rw [← h, Fin.ext_iff]
  rfl

end FunctionStats

section Mean

variable {T : ℤ} {s : FunctionStats} {seen : List FunctionStat} {stat : FunctionStat}

/-- The total after a stat in the middle of an epoch, or at its beginning. -/
lemma TotalOfEpoch.process_totalSvcTime (h : TotalOfEpoch s seen) (hlast : seen.length % 100 ≠ 99) :
    (s.process T stat).1.totalSvcTime =
      if seen.length % 100 = 0 then (seen.head?.map FunctionStat.svcTime).getD 0 + stat.svcTime
      else ((block 100 (stat :: seen)).map FunctionStat.svcTime).sum := by
  rw [FunctionStats.process_totalSvcTime, if_neg fun h99 => hlast
    ((FunctionStats.eq_last_iff h.1).mp h99), h.2, block_cons]
  split
  · rfl
  · rw [List.map_cons, List.sum_cons, add_comm]

/-- **`avgSvcTime` after a stat.**

**Proof sketch.** Case split on the place in the epoch. At its last place the total is set back
before the stat is added, so the mean is that of the stat alone; elsewhere the total is that of the
epoch (`process_totalSvcTime`). -/
lemma avgSvcTimeIsMean_process (h : TotalOfEpoch s seen) :
    AvgSvcTimeIsMean (s.process T stat).1 (stat :: seen) ↔ KeepsMean seen stat := by
  have hlen : ((block 100 (stat :: seen)).map FunctionStat.svcTime).length =
      seen.length % 100 + 1 := by
    rw [List.length_map, length_block_cons]
  unfold AvgSvcTimeIsMean KeepsMean
  rw [FunctionStats.process_avgSvcTime, h.1]
  by_cases hlast : seen.length % 100 = 99
  · -- the total is only the service time of the stat
    have htotal : (s.process T stat).1.totalSvcTime = stat.svcTime := by
      rw [FunctionStats.process_totalSvcTime, if_pos ((FunctionStats.eq_last_iff h.1).mpr hlast),
        zero_add]
    rw [htotal, hlast]
    simp
  · rw [h.process_totalSvcTime hlast]
    by_cases hfirst : seen.length % 100 = 0
    · -- the total has what the stat before took
      rw [if_pos hfirst, hfirst, block_cons, if_pos hfirst]
      cases seen with
      | nil => simp [truncMean]
      | cons last seen => simp [truncMean]
    · rw [if_neg hfirst, truncMean, hlen]
      simp [hlast, hfirst]

/-- The total of the epoch after a stat that keeps the mean.

**Proof sketch.** Case split on whether the stat is the last of its epoch, which sets the total
to zero. If it is not, case split on whether it is the first, which adds the last of the epoch
before. -/
lemma TotalOfEpoch.process (h : TotalOfEpoch s seen) (hok : KeepsMean seen stat) :
    TotalOfEpoch (s.process T stat).1 (stat :: seen) := by
  refine ⟨?_, ?_⟩
  · rw [FunctionStats.process_entryPos, List.length_cons]
    exact FunctionStats.val_add_one h.1
  · rw [List.length_cons]
    by_cases hlast : seen.length % 100 = 99
    · rw [FunctionStats.process_totalSvcTime, if_pos ((FunctionStats.eq_last_iff h.1).mpr hlast),
        if_pos (by omega)]
      simp
    · have hnext : ¬ (seen.length + 1) % 100 = 0 := by omega
      rw [h.process_totalSvcTime hlast, if_neg hnext]
      split
      · next hfirst =>
        rw [block_cons, if_pos hfirst]
        cases seen with
        | nil => simp
        | cons last seen => simp [hok.2 hfirst last rfl]
      · rfl

end Mean

/-- **The streams along which `avgSvcTime` is the mean of the epoch under way.**

**Proof sketch.** At the last stat of an epoch the total is set to zero before the stat is added, so
that the mean is that of one stat alone, and the total of the next epoch begins with it. -/
theorem avgSvcTime_iff (T : ℤ) (functionStats : GoMap FunctionStats) (fn : Str)
    (stream : List FunctionStat) :
    Runs.Throughout (Processing.step T) (Processing.RecordsAre {fn} AvgSvcTimeIsMean)
        ⟨functionStats.insert fn fnStats, []⟩ stream ↔
      Runs.Along (Processing.step T) (Processing.Takes {fn} KeepsMean)
        ⟨functionStats.insert fn fnStats, []⟩ stream :=
  Processing.throughout_iff (J := TotalOfEpoch) (fun _ _ _ h _ => avgSvcTimeIsMean_process h)
    (fun _ _ _ h _ hok => h.process hok)
    (Processing.recordsAre_insert ⟨rfl, rfl⟩ functionStats fn)
    (Processing.recordsAre_insert rfl functionStats fn) stream

/-- An epoch of cold starts that take one millisecond each. -/
def epochOfOnes : List FunctionStat := .replicate 100 ⟨"f".toList, native, 1, 0, cold⟩

/-- At the end of an epoch of ones the mean is said to be zero.

**Proof sketch.** Run the hundred stats. The mean that is written is zero, and the one of the stats
is one. -/
theorem avgSvcTime_epochOfOnes :
    ((Runs.run (Processing.step 100) ⟨(∅ : GoMap FunctionStats).insert "f".toList fnStats, []⟩
      epochOfOnes).map fun p => (p.functionStats.lookup "f".toList).map (·.avgSvcTime)) =
        some (some 0) ∧
      ¬ Runs.Throughout (Processing.step 100) (Processing.RecordsAre {"f".toList} AvgSvcTimeIsMean)
        ⟨(∅ : GoMap FunctionStats).insert "f".toList fnStats, []⟩ epochOfOnes := by
  have hrun : ((Runs.run (Processing.step 100)
      ⟨(∅ : GoMap FunctionStats).insert "f".toList fnStats, []⟩ epochOfOnes).map fun p =>
        ((p.functionStats.lookup "f".toList).map (·.avgSvcTime),
          truncMean ((block 100 (statsOf "f".toList p.processed)).map FunctionStat.svcTime))) =
      some (some 0, 1) := by decide +kernel
  obtain ⟨p, hp, heq⟩ := Option.map_eq_some_iff.mp hrun
  obtain ⟨havg, hmean⟩ := Prod.mk.inj heq
  refine ⟨by rw [hp, Option.map_some, havg], fun h => ?_⟩
  obtain ⟨s, hs, hs'⟩ := h.of_run hp "f".toList rfl
  rw [hs, Option.map_some, Option.some.injEq] at havg
  rw [AvgSvcTimeIsMean, havg, hmean] at hs'
  exact absurd hs' (by decide)

end Fecore
