import Mathlib.Tactic.Common
import Fecore.Concurrency.Locks
import Fecore.Handlers.Provider
import Fecore.Handlers.StatsRings

set_option relaxedAutoImplicit false
set_option autoImplicit false

/-!
# The report of a function

`GetMetricsReport` (`pkg/provider/handlers/metrics.go`) reads the record of a function under
`statMu` and its policy under `policyMu`, and drops each lock in a statement of its own. What panics
in between leaves the lock behind.

## Main definitions

* `Fecore.Store`, `Fecore.Lock`, `Fecore.Call` — the store with its records, its locks, and the
  calls that take them.
* `Fecore.getMetricsReport` — the report.

## Main results

* `Fecore.getMetricsReport_of_pos`, `Fecore.getMetricsReport_of_zero` — how the call ends.
* `Fecore.getMetricsReport_iff` — when the report has the mean service time.

## Design

The report has what stands in the tables of the page: numbers where the page has their digits, and
the text that `%.2f` makes of `sandboxUtil`, which is no part of the modelled records. The page
around them is left out.
-/

namespace Fecore

open Samples Locks Locks.Comp

/-! ### Calls -/

/-- The function store with the records of `functionStats`. -/
structure Store where
  world : World
  functionStats : GoMap FunctionStats := ∅

/-- The locks of the store, of its functions, and of the records. -/
inductive Lock
  | dfMu
  | idleReplicasLock (o : Ref)
  | activeReplicasLock (o : Ref)
  | policyMu (o : Ref)
  | statMu (fn : Str)
deriving DecidableEq

/-- A panic of a call. -/
inductive Panic
  | fault (fault : Fault)
  | divideByZero
deriving DecidableEq

/-- A call on the store. -/
abbrev Call := Comp Lock Store Panic

/-- `fs.deployedFunctions[fn]`, dereferenced. -/
def deployedFn (fn : Str) : Call (Ref × Function) :=
  reads fun s =>
    match s.world.fn? fn with
    | none => .error (.fault .absentFunction)
    | some of => .ok of

/-- `fs.functionStats[fn]`, dereferenced. -/
def statsRecord (fn : Str) : Call FunctionStats :=
  reads fun s =>
    match s.functionStats.lookup fn with
    | none => .error (.fault .absentStats)
    | some r => .ok r

section Lookups

variable {s : Store} {fn : Str} (held : List Lock)

/-- The look-up of a deployed function. -/
lemma deployedFn_of_some {of : Ref × Function} (h : s.world.fn? fn = some of) :
    deployedFn fn held s = ⟨.ok of, s, held⟩ := by
  rw [deployedFn, reads_apply, h]

/-- That of one which is not deployed dereferences a nil pointer. -/
lemma deployedFn_of_none (h : s.world.fn? fn = none) :
    deployedFn fn held s = ⟨.error (.fault .absentFunction), s, held⟩ := by
  rw [deployedFn, reads_apply, h]

/-- The look-up of a record that is there. -/
lemma statsRecord_of_some {r : FunctionStats} (h : s.functionStats.lookup fn = some r) :
    statsRecord fn held s = ⟨.ok r, s, held⟩ := by
  rw [statsRecord, reads_apply, h]

/-- That of one which is not dereferences a nil pointer. -/
lemma statsRecord_of_none (h : s.functionStats.lookup fn = none) :
    statsRecord fn held s = ⟨.error (.fault .absentStats), s, held⟩ := by
  rw [statsRecord, reads_apply, h]

end Lookups

/-! ### The report -/

/-- A row of the tables of the replicas. -/
structure ReplicaRow where
  uuid : Str
  pid : ℕ
  ip : Str
  ctrType : Str

/-- The row of a replica, with a mark behind its name. -/
def Replica.row (r : Replica) (mark : Str := []) : ReplicaRow :=
  ⟨r.uuid ++ mark, r.pid, r.ip, r.ctrType⟩

/-- What the report says. -/
structure Report where
  fname : Str
  numStats : ℕ
  avgExecTime : ℤ
  avgStartupTime : ℤ
  avgServiceTime : ℤ
  p50ServiceTime : ℤ
  p99ServiceTime : ℤ
  totalInvocations : ℤ
  sandboxUtilization : Str
  avgSvcCold : ℤ
  avgSvcWarm : ℤ
  coldStartCtrType : Str
  warmStartCtrType : Str
  spawnAddlCtr : ℤ
  idleReplicas : List ReplicaRow
  activeReplicas : List ReplicaRow

/-- The rows of the idle replicas: those of `containers` only where there is an `MRU`. -/
def IdleReplicas.rows (p : IdleReplicas) : List ReplicaRow :=
  (match p.lru with
    | some replica => [replica.row " (LRU) ".toList]
    | none => []) ++
  (match p.mru with
    | some replica => replica.row " (MRU) ".toList :: p.containers.map (·.row)
    | none => [])

/-- `avgServiceTime` of the report. -/
def FunctionStats.avgServiceTime (s : FunctionStats) : Except Panic ℤ :=
  if 0 < s.totalInvocations then .ok 0
  else if s.totalInvocations = 0 then .error .divideByZero
  else .ok ((s.totalExecTime + s.totalStartupTime).tdiv s.totalInvocations)

/-- The report of a function from its record, its mean service time and the function. -/
def FunctionStats.report (sandboxUtilization fname : Str) (s : FunctionStats) (avgServiceTime : ℤ)
    (f : Function) : Report :=
  { fname := fname
    numStats := s.entryPos.val
    avgExecTime := s.avgExecTime
    avgStartupTime := s.avgStartupTime
    avgServiceTime := avgServiceTime
    p50ServiceTime := s.p50SvcTime
    p99ServiceTime := s.p99SvcTime
    totalInvocations := s.totalInvocations
    sandboxUtilization := sandboxUtilization
    avgSvcCold := s.avgSvcCold
    avgSvcWarm := s.avgSvcWarm
    coldStartCtrType := f.policy.coldStartCtrType
    warmStartCtrType := f.policy.warmStartCtrType
    spawnAddlCtr := f.policy.spawnAddlCtrs
    idleReplicas := f.idleReplicas.rows
    activeReplicas := f.activeReplicas.entries.map fun e => e.2.row }

/-- The part of `GetMetricsReport` that is about the policy and the replicas. -/
def reportPolicy (sandboxUtilization fname : Str) (r : FunctionStats) (avgServiceTime : ℤ) :
    Call Report := do
  let of ← deployedFn fname
  lock (.policyMu of.1)
  let of ← deployedFn fname
  unlock (.policyMu of.1)
  pure (r.report sandboxUtilization fname avgServiceTime of.2)

/-- `GetMetricsReport`. -/
def getMetricsReport (sandboxUtilization fname : Str) : Call Report := do
  let _ ← statsRecord fname
  lock (.statMu fname)
  let r ← statsRecord fname
  let avgServiceTime ← reads fun _ => r.avgServiceTime
  unlock (.statMu fname)
  reportPolicy sandboxUtilization fname r avgServiceTime

section Report

variable {s : Store} {fname : Str} {r : FunctionStats} {of : Ref × Function} (util : Str)

/-- The rest of the report of a deployed function. -/
lemma reportPolicy_of_some (hf : s.world.fn? fname = some of) (avgServiceTime : ℤ)
    (held : List Lock) :
    reportPolicy util fname r avgServiceTime held s =
      ⟨.ok (r.report util fname avgServiceTime of.2), s, held⟩ := by
  rw [reportPolicy, bind_of_ok (deployedFn_of_some held hf), bind_of_ok (lock_apply _ _ _),
    bind_of_ok (deployedFn_of_some _ hf), bind_of_ok (unlock_apply _ _ _), pure_apply,
    List.erase_cons_head]

/-- That of another one panics. -/
lemma reportPolicy_of_none (hf : s.world.fn? fname = none) (avgServiceTime : ℤ)
    (held : List Lock) :
    reportPolicy util fname r avgServiceTime held s =
      ⟨.error (.fault .absentFunction), s, held⟩ := by
  rw [reportPolicy, bind_of_error (deployedFn_of_none held hf)]

/-- Without a record the call panics before it takes a lock. -/
lemma getMetricsReport_of_none (hr : s.functionStats.lookup fname = none) (held : List Lock) :
    getMetricsReport util fname held s = ⟨.error (.fault .absentStats), s, held⟩ := by
  rw [getMetricsReport, bind_of_error (statsRecord_of_none held hr)]

/-- **Without invocations the call panics under `statMu`**, which stays locked. -/
lemma getMetricsReport_of_zero (hr : s.functionStats.lookup fname = some r)
    (hzero : r.totalInvocations = 0) (held : List Lock) :
    getMetricsReport util fname held s = ⟨.error .divideByZero, s, .statMu fname :: held⟩ := by
  have havg : r.avgServiceTime = .error .divideByZero := by
    rw [FunctionStats.avgServiceTime, hzero]
    rfl
  have hread : (reads fun _ => r.avgServiceTime : Call ℤ) (.statMu fname :: held) s =
      ⟨.error .divideByZero, s, .statMu fname :: held⟩ := by
    rw [reads_apply, havg]
  rw [getMetricsReport, bind_of_ok (statsRecord_of_some held hr), bind_of_ok (lock_apply _ _ _),
    bind_of_ok (statsRecord_of_some _ hr), bind_of_error hread]

/-- **With invocations the call goes on to the policy**, and the mean is said to be zero. -/
lemma getMetricsReport_of_pos (hr : s.functionStats.lookup fname = some r)
    (hpos : 0 < r.totalInvocations) (held : List Lock) :
    getMetricsReport util fname held s = reportPolicy util fname r 0 held s := by
  have hread : (reads fun _ => r.avgServiceTime : Call ℤ) (.statMu fname :: held) s =
      ⟨.ok 0, s, .statMu fname :: held⟩ := by
    rw [reads_apply, FunctionStats.avgServiceTime, if_pos hpos]
  rw [getMetricsReport, bind_of_ok (statsRecord_of_some held hr), bind_of_ok (lock_apply _ _ _),
    bind_of_ok (statsRecord_of_some _ hr), bind_of_ok hread, bind_of_ok (unlock_apply _ _ _),
    List.erase_cons_head]

end Report

/-! ### The mean -/

/-- All the time that the stats took. -/
def totalTime (stats : List FunctionStat) : ℤ :=
  (stats.map (·.startupTime)).sum + (stats.map (·.execTime)).sum

/-- **The report has the mean service time** of the stats, and the call leaves no lock held. -/
def ReportsMean (util fname : Str) (s : Store) (stats : List FunctionStat) : Prop :=
  ∃ report, getMetricsReport util fname [] s = ⟨.ok report, s, []⟩ ∧
    report.avgServiceTime = if stats = [] then 0 else (totalTime stats).tdiv stats.length

/-- A mean is truncated to zero when there is less than one for each. -/
lemma tdiv_length_eq_zero_iff {stats : List FunctionStat} (h : stats ≠ []) (total : ℤ) :
    total.tdiv stats.length = 0 ↔ total.natAbs < stats.length := by
  have hpos : 0 < stats.length := List.length_pos_of_ne_nil h
  rw [← Int.natAbs_eq_zero, Int.natAbs_tdiv, Int.natAbs_natCast]
  exact Nat.div_eq_zero_iff_lt hpos

/-- **When the report has the mean service time**: exactly when the stats took fewer milliseconds
than there are of them, after every stream of stats into new records.

**Proof sketch.** The test for a record without stats is the wrong way round: without stats the code
divides by their number, under the lock, and with stats it says zero. So the report is right exactly
when there are stats and their truncated mean is zero. -/
theorem getMetricsReport_iff {T : ℤ} {functionStats : GoMap FunctionStats}
    {stream : List FunctionStat} {p : Processing} {w : World} {fname : Str} {of : Ref × Function}
    (util : Str) (hnew : ∀ fn r, functionStats.lookup fn = some r → r = fnStats)
    (hrun : Runs.run (Processing.step T) ⟨functionStats, []⟩ stream = some p)
    (hf : w.fn? fname = some of) :
    ReportsMean util fname ⟨w, p.functionStats⟩ (statsOf fname p.processed) ↔
      (totalTime (statsOf fname p.processed)).natAbs < (statsOf fname p.processed).length := by
  obtain ⟨hnone, hsome⟩ := Processing.run_holds hnew hrun fname
  generalize hstats : statsOf fname p.processed = stats at hnone hsome ⊢
  cases hr : p.functionStats.lookup fname with
  | none =>
    obtain rfl := hnone hr
    refine iff_of_false ?_ (Nat.not_lt_zero _)
    rintro ⟨report, hreport, -⟩
    rw [getMetricsReport_of_none (s := ⟨w, p.functionStats⟩) util hr] at hreport
    cases hreport
  | some r =>
    have hlen : r.totalInvocations = stats.length := by
      rw [(hsome r hr).totalInvocations, List.length_reverse]
    cases stats with
    | nil =>
      refine iff_of_false ?_ (Nat.not_lt_zero _)
      rintro ⟨report, hreport, -⟩
      rw [getMetricsReport_of_zero (s := ⟨w, p.functionStats⟩) util hr hlen] at hreport
      cases hreport
    | cons stat stats =>
      have hpos : 0 < r.totalInvocations := by
        rw [hlen]
        simp
      have hend := getMetricsReport_of_pos (s := ⟨w, p.functionStats⟩) util hr hpos []
      rw [reportPolicy_of_some util hf] at hend
      rw [ReportsMean, hend, ← tdiv_length_eq_zero_iff (List.cons_ne_nil stat stats)]
      constructor
      · rintro ⟨report, heq, hmean⟩
        cases heq
        exact hmean.symm
      · intro hmean
        exact ⟨_, rfl, hmean.symm⟩

/-- The state after the function `f` has been deployed on the small node. -/
def deployedF : Option State := smallRun (deployF ∅)

/-- The function is deployed by then. -/
lemma isSome_deployedF :
    (deployedF.bind fun c => c.shared.fn? "f".toList).isSome = true := by decide +kernel

/-- The new record of `f`. -/
def recordF : GoMap FunctionStats := AList.singleton "f".toList fnStats

/-- All records are new. -/
lemma recordF_new : ∀ fn r, recordF.lookup fn = some r → r = fnStats := by
  intro fn r h
  by_cases hfn : fn = "f".toList
  · subst hfn
    exact (Option.some.inj h).symm
  · rw [recordF, ← AList.insert_empty, AList.lookup_insert_ne hfn] at h
    cases h

/-- One stat that took no time at all. -/
theorem getMetricsReport_iff_instant :
    ∃ w of p, World.fn? w "f".toList = some of ∧
      ReportsMean [] "f".toList ⟨w, Processing.functionStats p⟩
        (statsOf "f".toList p.processed) := by
  obtain ⟨of, hof⟩ := Option.isSome_iff_exists.mp isSome_deployedF
  obtain ⟨c, -, hf⟩ := Option.bind_eq_some_iff.mp hof
  have hrun : Runs.run (Processing.step 100) ⟨recordF, []⟩
      [{ fn := "f".toList, startupType := warm }] = some _ := rfl
  exact ⟨c.shared, of, _, hf, (getMetricsReport_iff [] recordF_new hrun hf).mpr (by decide)⟩

/-- The function has been deployed and not been invoked: the report panics, and `statMu` stays
locked. -/
theorem not_getMetricsReport_new :
    ∃ c of, deployedF = some c ∧ c.shared.fn? "f".toList = some of ∧
      getMetricsReport [] "f".toList [] ⟨c.shared, recordF⟩ =
        ⟨.error .divideByZero, ⟨c.shared, recordF⟩, [.statMu "f".toList]⟩ := by
  obtain ⟨of, hof⟩ := Option.isSome_iff_exists.mp isSome_deployedF
  obtain ⟨c, hc, hf⟩ := Option.bind_eq_some_iff.mp hof
  exact ⟨c, of, hc, hf, getMetricsReport_of_zero (s := ⟨c.shared, recordF⟩) [] rfl rfl []⟩

end Fecore
