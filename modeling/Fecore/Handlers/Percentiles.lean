import Fecore.Handlers.ServiceTimes

set_option relaxedAutoImplicit false
set_option autoImplicit false

/-!
# The percentiles of the service times

The service times of a function are kept in a ring of 100 slots. When the last slot is about to be
written the ring is sorted where it is, and the percentiles are read off it; the last stat of the
epoch is not in the ring yet, and what the slots say is no longer what the entries say.

## Main definitions

* `Fecore.PercentilesAreRight` — the percentiles are those of the last epoch, and each slot has the
  service time of its entry.
* `Fecore.KeepsPercentiles` — the stats after which they are.

## Main results

* `Fecore.ring_eq` — what the ring holds when its last slot is about to be written.
* `Fecore.percentiles_iff` — the streams along which the percentiles are right.
-/

namespace Fecore

open Samples

/-- **The percentiles are right**: each slot that has been written has the service time of its
entry, and once a hundred more stats have been processed `p50SvcTime` and `p99SvcTime` are the 50th
and the 99th smallest of their service times. -/
structure PercentilesAreRight (s : FunctionStats) (seen : List FunctionStat) : Prop where
  slots : ∀ i (hi : i < 100), i < seen.length →
    s.serviceTimes[i] = s.entries[i].startupTime + s.entries[i].execTime
  p50 : seen ≠ [] → seen.length % 100 = 0 →
    IsKthSmallest 50 s.p50SvcTime ((seen.take 100).map FunctionStat.svcTime)
  p99 : seen ≠ [] → seen.length % 100 = 0 →
    IsKthSmallest 99 s.p99SvcTime ((seen.take 100).map FunctionStat.svcTime)

/-- The service times of the last 99 stats, the oldest first. -/
def lastTimes (seen : List FunctionStat) : List ℤ :=
  (seen.take 99).reverse.map FunctionStat.svcTime

/-- The service time of the last stat of the epoch before, zero when there is none. -/
def timeBefore (seen : List FunctionStat) : ℤ := (seen[99]?.map FunctionStat.svcTime).getD 0

/-- The stat keeps the percentiles right: at the end of an epoch the stats of the epoch have come in
the order of their service times, none of which is above that of the last stat of the epoch before;
and the stat is not among the first 50 and the first 99 of its epoch itself, unless it does not
matter because the two stats in question took the same time. -/
def KeepsPercentiles (seen : List FunctionStat) (stat : FunctionStat) : Prop :=
  seen.length % 100 = 99 →
    (lastTimes seen ++ [timeBefore seen]).Pairwise (· ≤ ·) ∧
    ((lastTimes seen).getD 49 0 ≤ stat.svcTime ∨
      (lastTimes seen).getD 48 0 = (lastTimes seen).getD 49 0) ∧
    ((lastTimes seen).getD 98 0 ≤ stat.svcTime ∨
      (lastTimes seen).getD 97 0 = (lastTimes seen).getD 98 0)
deriving Decidable

/-- The entries are in a ring, and a slot that has not been written is zero. -/
structure EntriesInRing (s : FunctionStats) (seen : List FunctionStat) : Prop where
  pos : s.entryPos.val = seen.length % 100
  entries : InRing s.entries seen
  last : seen.length < 100 → s.serviceTimes[99] = 0

section Ring

variable {T : ℤ} {s : FunctionStats} {seen : List FunctionStat} {stat : FunctionStat}

/-- There are 99 of them once so many stats have come. -/
lemma length_lastTimes (h : 99 ≤ seen.length) : (lastTimes seen).length = 99 := by
  simp [lastTimes, h]

/-- The service times of the last stats, counted back from the newest. -/
lemma getElem?_lastTimes (h : 99 ≤ seen.length) {i : ℕ} (hi : i < 99) :
    (lastTimes seen)[i]? = seen[98 - i]?.map FunctionStat.svcTime := by
  have hlen : (seen.take 99).length = 99 := by simp [h]
  rw [lastTimes, List.getElem?_map, List.getElem?_reverse (by omega), hlen,
    List.getElem?_take_of_lt (by omega)]

/-- **What the ring holds when its last slot is about to be written**: the service times of the last
99 stats, and in the last slot that of the stat before them.

**Proof sketch.** Compare the two lists at each place. Before the last slot a place holds one of the
last 99 stats; the last slot has not been written since the stat 100 before, or never. -/
theorem ring_eq (hr : EntriesInRing s seen) (hp : PercentilesAreRight s seen)
    (hlast : seen.length % 100 = 99) :
    s.serviceTimes.toList = lastTimes seen ++ [timeBefore seen] := by
  have hge : 99 ≤ seen.length := by omega
  have hslot : ∀ i (hi : i < 100), i < seen.length → ∀ j, j < 100 → j < seen.length →
      (seen.length - 1 - j) % 100 = i →
      some s.serviceTimes[i] = seen[j]?.map FunctionStat.svcTime := by
    intro i hi hlt j hj hjlt hij
    have hentry : s.entries[i]? = seen[j]? := hij ▸ hr.entries j hj hjlt
    rw [Vector.getElem?_eq_getElem hi] at hentry
    rw [← hentry, Option.map_some, hp.slots i hi hlt]
    rfl
  refine List.ext_getElem? fun i => ?_
  rcases Nat.lt_trichotomy i 99 with hi | rfl | hi
  · rw [List.getElem?_append_left (by rw [length_lastTimes hge]; exact hi),
      getElem?_lastTimes hge hi, Vector.getElem?_toList, Vector.getElem?_eq_getElem (by omega)]
    exact hslot i (by omega) (by omega) (98 - i) (by omega) (by omega) (by omega)
  · rw [List.getElem?_append_right (by rw [length_lastTimes hge]), length_lastTimes hge,
      Vector.getElem?_toList, Vector.getElem?_eq_getElem (by omega)]
    by_cases hfirst : seen.length < 100
    · have hnone : seen[99]? = none := List.getElem?_eq_none (by omega)
      simp [timeBefore, hnone, hr.last hfirst]
    · rw [hslot 99 (by omega) (by omega) 99 (by omega) (by omega) (by omega)]
      have hsome : seen[99]? = some seen[99] := List.getElem?_eq_getElem (by omega)
      simp [timeBefore, hsome]
  · rw [List.getElem?_eq_none (by simp; omega),
      List.getElem?_eq_none (by simp [length_lastTimes hge]; omega)]

/-- The entries stay in a ring.

**Proof sketch.** Field by field. The place goes on by one around the ring, the entry is written at
it, and the last time of service is not written before the ring is full. -/
lemma EntriesInRing.process (hr : EntriesInRing s seen) :
    EntriesInRing (s.process T stat).1 (stat :: seen) where
  pos := by
    rw [FunctionStats.process_entryPos, List.length_cons]
    exact FunctionStats.val_add_one hr.pos
  entries := by
    rw [FunctionStats.process_entries]
    exact hr.entries.set stat s.entryPos.isLt hr.pos
  last := by
    rw [List.length_cons]
    intro hlt
    have hpos : s.entryPos.val ≠ 99 := by
      rw [hr.pos]
      omega
    have hne : ¬ s.entryPos = 99 := fun h => hpos (congrArg Fin.val h)
    simp only [FunctionStats.process_serviceTimes, if_neg hne]
    rw [Vector.getElem_set_ne _ _ hpos]
    exact hr.last (by omega)

/-- In the middle of an epoch the slots stay right. -/
lemma percentilesAreRight_process_middle (hr : EntriesInRing s seen)
    (hp : PercentilesAreRight s seen) (hlast : seen.length % 100 ≠ 99) :
    PercentilesAreRight (s.process T stat).1 (stat :: seen) where
  slots := by
    rw [List.length_cons]
    intro i hi hlt
    have hne : ¬ s.entryPos = 99 := fun h => hlast ((FunctionStats.eq_last_iff hr.pos).mp h)
    have hpos := hr.pos
    simp only [FunctionStats.process_serviceTimes, FunctionStats.process_entries, if_neg hne]
    by_cases hip : s.entryPos.val = i
    · subst hip
      simp [FunctionStat.svcTime]
    · rw [Vector.getElem_set_ne _ _ hip, Vector.getElem_set_ne _ _ hip]
      exact hp.slots i hi (by omega)
  p50 := fun _ h => absurd h (by rw [List.length_cons]; omega)
  p99 := fun _ h => absurd h (by rw [List.length_cons]; omega)

section EndOfEpoch

variable (hr : EntriesInRing s seen) (hp : PercentilesAreRight s seen)
  (hlast : seen.length % 100 = 99)
include hr hp hlast

/-- The ring is sorted as a list. -/
lemma sortInts_getElem? {i : ℕ} (hi : i < 100) :
    ((lastTimes seen ++ [timeBefore seen]).mergeSort fun a b => decide (a ≤ b))[i]? =
      some (sortInts s.serviceTimes)[i] := by
  rw [← ring_eq hr hp hlast, ← Vector.getElem?_eq_getElem hi, ← Vector.getElem?_toList]
  rfl

/-- At the end of an epoch the slots stay right exactly when the ring is sorted already.

**Proof sketch.** The slots before the last one keep their entries, so they stay right just when
sorting leaves them in place; that is so only where the ring is sorted (`mergeSort_eq_iff`). -/
lemma slots_iff : (∀ i (hi : i < 100), i < (stat :: seen).length →
      (s.process T stat).1.serviceTimes[i] = (s.process T stat).1.entries[i].startupTime +
        (s.process T stat).1.entries[i].execTime) ↔
    (lastTimes seen ++ [timeBefore seen]).Pairwise (· ≤ ·) := by
  have hge : 99 ≤ seen.length := by omega
  have hend : s.entryPos = 99 := (FunctionStats.eq_last_iff hr.pos).mpr hlast
  have hpos : s.entryPos.val = 99 := congrArg Fin.val hend
  -- what a slot before the last one has to be
  have hslot : ∀ i (hi : i < 99), (s.process T stat).1.serviceTimes[i] =
      (s.process T stat).1.entries[i].startupTime + (s.process T stat).1.entries[i].execTime ↔
        ((lastTimes seen ++ [timeBefore seen]).mergeSort fun a b => decide (a ≤ b))[i]? =
          (lastTimes seen)[i]? := by
    intro i hi
    have hring : (lastTimes seen)[i]? = some s.serviceTimes[i] := by
      rw [← Vector.getElem?_eq_getElem (by omega), ← Vector.getElem?_toList, ring_eq hr hp hlast,
        List.getElem?_append_left (by rw [length_lastTimes hge]; exact hi)]
    rw [sortInts_getElem? hr hp hlast (by omega), hring, Option.some.injEq,
      hp.slots i (by omega) (by omega)]
    simp only [FunctionStats.process_serviceTimes, FunctionStats.process_entries, if_pos hend]
    rw [Vector.getElem_set_ne _ _ (by omega), Vector.getElem_set_ne _ _ (by omega)]
  rw [← mergeSort_eq_iff, length_lastTimes hge]
  constructor
  · intro h i hi
    exact (hslot i hi).mp (h i (by omega) (by rw [List.length_cons]; omega))
  · intro h i hi _
    rcases Nat.lt_or_ge i 99 with hlt | hge'
    · exact (hslot i hlt).mpr (h i hlt)
    · obtain rfl : i = 99 := by omega
      simp only [FunctionStats.process_serviceTimes, FunctionStats.process_entries, hpos]
      simp [FunctionStat.svcTime]

/-- An order statistic of the epoch, where the ring is sorted already.

**Proof sketch.** A ring that is sorted is not changed by the sorting, so the value is the one at
this place of the last 99. The epoch has one more, and `isKthSmallest_cons_iff` decides. -/
lemma isKthSmallest_epoch_iff (hsorted : (lastTimes seen ++ [timeBefore seen]).Pairwise (· ≤ ·))
    {i : ℕ} (hi : i + 1 < 99) :
    IsKthSmallest (i + 2) (sortInts s.serviceTimes)[i + 1]
        (((stat :: seen).take 100).map FunctionStat.svcTime) ↔
      (lastTimes seen).getD (i + 1) 0 ≤ stat.svcTime ∨
        (lastTimes seen).getD i 0 = (lastTimes seen).getD (i + 1) 0 := by
  have hge : 99 ≤ seen.length := by omega
  have hlen := length_lastTimes hge
  have hget : ∀ j (hj : j < 99), (lastTimes seen)[j]? = some (sortInts s.serviceTimes)[j] := by
    intro j hj
    rw [← sortInts_getElem? hr hp hlast (by omega),
      List.mergeSort_of_pairwise (by simpa using hsorted), List.getElem?_append_left (by omega)]
  have hgetD : ∀ j (hj : j < 99), (lastTimes seen).getD j 0 = (sortInts s.serviceTimes)[j] := by
    intro j hj
    rw [List.getD_eq_getElem?_getD, hget j hj, Option.getD_some]
  have hperm : (((stat :: seen).take 100).map FunctionStat.svcTime).Perm
      (stat.svcTime :: lastTimes seen) := by
    rw [List.take_succ_cons, List.map_cons, lastTimes, List.map_reverse]
    exact (List.reverse_perm _).symm.cons _
  rw [isKthSmallest_congr hperm, hgetD i (by omega), hgetD (i + 1) hi]
  exact isKthSmallest_cons_iff (List.pairwise_append.mp hsorted).1 (hget i (by omega)) (hget _ hi)

end EndOfEpoch

/-- **The percentiles after a stat.**

**Proof sketch.** Only the stat at the last place computes the percentiles, out of the sorted times.
When they were sorted already, the slots are those of the stats (`slots_iff`), and a percentile is
right just when its value is that of the epoch (`isKthSmallest_epoch_iff`). -/
lemma percentilesAreRight_process (hr : EntriesInRing s seen) (hp : PercentilesAreRight s seen) :
    PercentilesAreRight (s.process T stat).1 (stat :: seen) ↔ KeepsPercentiles seen stat := by
  by_cases hlast : seen.length % 100 = 99
  · have hend : s.entryPos = 99 := (FunctionStats.eq_last_iff hr.pos).mpr hlast
    have hfull : (stat :: seen).length % 100 = 0 := by
      rw [List.length_cons]
      omega
    have hp50 : (s.process T stat).1.p50SvcTime = (sortInts s.serviceTimes)[49] := by
      have h := congrArg SvcTimes.p50SvcTime (s.process_svcTimes T stat)
      simpa [SvcTimes.next, FunctionStats.svcTimes, hend] using h
    have hp99 : (s.process T stat).1.p99SvcTime = (sortInts s.serviceTimes)[98] := by
      have h := congrArg SvcTimes.p99SvcTime (s.process_svcTimes T stat)
      simpa [SvcTimes.next, FunctionStats.svcTimes, hend] using h
    constructor
    · intro hp' _
      have hsorted := (slots_iff hr hp hlast).mp hp'.slots
      have h50 := hp'.p50 (by simp) hfull
      have h99 := hp'.p99 (by simp) hfull
      rw [hp50] at h50
      rw [hp99] at h99
      exact ⟨hsorted, (isKthSmallest_epoch_iff hr hp hlast hsorted (by omega)).mp h50,
        (isKthSmallest_epoch_iff hr hp hlast hsorted (by omega)).mp h99⟩
    · intro hok
      obtain ⟨hsorted, h50, h99⟩ := hok hlast
      refine ⟨(slots_iff hr hp hlast).mpr hsorted, fun _ _ => ?_, fun _ _ => ?_⟩
      · rw [hp50]
        exact (isKthSmallest_epoch_iff hr hp hlast hsorted (by omega)).mpr h50
      · rw [hp99]
        exact (isKthSmallest_epoch_iff hr hp hlast hsorted (by omega)).mpr h99
  · exact iff_of_true (percentilesAreRight_process_middle hr hp hlast) fun h => absurd h hlast

end Ring

/-- A new record has no entry. -/
lemma entriesInRing_fnStats : EntriesInRing fnStats [] where
  pos := rfl
  entries := inRing_nil _
  last := fun _ => by simp [fnStats]

/-- Before the first epoch the percentiles are zero, as they should be. -/
lemma percentilesAreRight_fnStats : PercentilesAreRight fnStats [] := by
  constructor <;> simp

/-- **The streams along which the percentiles are right.**

**Proof sketch.** The ring is sorted where it is, so the slots stay those of the entries only where
it was sorted already; then the 50th and the 99th slot are read, which leave out the stat that ends
the epoch. -/
theorem percentiles_iff (T : ℤ) (functionStats : GoMap FunctionStats) (fn : Str)
    (stream : List FunctionStat) :
    Runs.Throughout (Processing.step T) (Processing.RecordsAre {fn} PercentilesAreRight)
        ⟨functionStats.insert fn fnStats, []⟩ stream ↔
      Runs.Along (Processing.step T) (Processing.Takes {fn} KeepsPercentiles)
        ⟨functionStats.insert fn fnStats, []⟩ stream :=
  Processing.throughout_iff (J := EntriesInRing)
    (fun _ _ _ hr hp => percentilesAreRight_process hr hp) (fun _ _ _ hr _ _ => hr.process)
    (Processing.recordsAre_insert entriesInRing_fnStats functionStats fn)
    (Processing.recordsAre_insert percentilesAreRight_fnStats functionStats fn) stream

/-- An epoch of cold starts, each of which takes a millisecond more than the one before. -/
def growingEpoch : List FunctionStat :=
  (List.range 100).map fun i => ⟨"f".toList, native, i + 1, 0, cold⟩

/-- At the end of a growing epoch the zero in the last slot of the ring is sorted to its first. -/
theorem not_percentiles_growingEpoch :
    ¬ Runs.Throughout (Processing.step 100)
      (Processing.RecordsAre {"f".toList} PercentilesAreRight)
      ⟨(∅ : GoMap FunctionStats).insert "f".toList fnStats, []⟩ growingEpoch := by
  intro h
  have hkeeps := (Processing.throughout_iff (J := EntriesInRing)
    (fun _ _ _ hr hp => percentilesAreRight_process hr hp) (fun _ _ _ hr _ _ => hr.process)
    (Processing.recordsAre_insert entriesInRing_fnStats ∅ _)
    (Processing.recordsAre_insert percentilesAreRight_fnStats ∅ _) growingEpoch).mp h
  exact absurd hkeeps (by decide +kernel)

end Fecore
