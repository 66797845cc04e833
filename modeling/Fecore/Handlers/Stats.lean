import Mathlib.Data.Int.Log
import Mathlib.Data.Rat.Floor
import Mathlib.Tactic.Common
import Fecore.Concurrency.Runs
import Fecore.Data.Words
import Fecore.Handlers.FunctionStore

set_option relaxedAutoImplicit false
set_option autoImplicit false

/-!
# The statistics of the invocations

`UpdateFunctionStats` sends what an invocation took to a channel, and `ProcessFunctionStats` takes
it from there into the records of `functionStats` (`pkg/provider/handlers/stats.go`). For a hybrid
function the processing is also to count epochs of `InvocationSampleThreshold` invocations and to
launch the evaluations of its policy.

## Main definitions

* `Fecore.FunctionStat`, `Fecore.FunctionStats` — what is sent, and the record of a function.
* `Fecore.updateFunctionStats`, `Fecore.processFunctionStat` — the two ends of the channel.
* `Fecore.SvcTimes`, `Fecore.StartTimes` — the parts of a record that are about service times.
* `Fecore.LifeTimes` — the part that is about all invocations so far.
* `Fecore.EpochsCounted` — what the processing of a stat is to do for a hybrid function.

## Main results

* `Fecore.updateFunctionStats_ctrType` — no stat says `hybrid`.
* `Fecore.FunctionStats.process_svcTimes`, `process_coldTimes`, `process_warmTimes`,
  `process_lifeTimes` — what a stat does to the parts of a record.
* `Fecore.epochsCounted_along_iff` — the streams along which the epochs are counted.
-/

namespace Fecore

/-! ### The sender -/

/-- The startup type `"cold"`. -/
def cold : Str := "cold".toList

/-- The startup type `"warm"`. -/
def warm : Str := "warm".toList

/-- What is sent about an invocation. -/
structure FunctionStat where
  fn : Str := []
  ctrType : Str := []
  startupTime : ℤ := 0
  execTime : ℤ := 0
  startupType : Str := []
deriving DecidableEq

/-- `UpdateFunctionStats`: the stats it sends. For a hybrid function there are two entries, one for
the hybrid container and a duplicate one for the container type that actually serviced the
invocation. -/
def updateFunctionStats (fn ctrType requestID : Str) (startupTime execTime : ℤ)
    (startupType : Str) : Except Fault (List FunctionStat) :=
  if ctrType = hybrid then
    let tokens := requestID.splitOn '_'
    let sandboxName := tokens.headD []
    match tokens[2]? with
    | none => .error .indexRange
    | some sandboxType =>
      if sandboxType = "n".toList then
        .ok [⟨fn, native, startupTime, execTime, startupType⟩,
          ⟨sandboxName, native, startupTime, execTime, startupType⟩]
      else if sandboxType = "w".toList then
        .ok [⟨fn, wasm, startupTime, execTime, startupType⟩,
          ⟨sandboxName, wasm, startupTime, execTime, startupType⟩]
      else .ok []
  else .ok [⟨fn, ctrType, startupTime, execTime, startupType⟩]

/-- **No stat says `hybrid`**: the two entries of a hybrid function say `native` or `wasm`.

**Proof sketch.** Case split on the container type and on the letter that stands in the id of the
request. -/
theorem updateFunctionStats_ctrType {fn ctrType requestID startupType : Str}
    {startupTime execTime : ℤ} {stats : List FunctionStat}
    (h : updateFunctionStats fn ctrType requestID startupTime execTime startupType = .ok stats) :
    ∀ stat ∈ stats, stat.ctrType ≠ hybrid := by
  have hn : native ≠ hybrid := by decide
  have hw : wasm ≠ hybrid := by decide
  unfold updateFunctionStats at h
  split at h
  · dsimp only at h
    split at h
    · cases h
    · split at h
      · cases h
        simp [hn]
      · split at h
        · cases h
          simp [hw]
        · cases h
          simp
  · next hct =>
    cases h
    simpa using hct

/-! ### The records -/

/-- The nearest integer, the even one of two. -/
def roundEven (q : ℚ) : ℤ :=
  let r := q - ⌊q⌋
  if r < 1 / 2 then ⌊q⌋
  else if 1 / 2 < r then ⌊q⌋ + 1
  else if ⌊q⌋ % 2 = 0 then ⌊q⌋
  else ⌊q⌋ + 1

/-- The `float32` nearest to a rational number within the range of normal numbers. -/
def float32 (q : ℚ) : ℚ :=
  if q = 0 then 0
  else
    let ulp := (2 : ℚ) ^ (Int.log 2 |q| - 23)
    roundEven (q / ulp) * ulp

/-- `float32(a) / float32(b)`. -/
def float32Ratio (a b : ℤ) : ℚ := float32 (float32 a / float32 b)

/-- The record of a function in `functionStats`, as `AddDeployedFunction` makes it. The positions
run around `MAX_ENTRIES`. -/
structure FunctionStats where
  entries : Vector FunctionStat 100 := .replicate 100 {}
  entryPos : Fin 100 := 0
  coldPos : Fin 100 := 0
  warmPos : Fin 100 := 0
  /-- number cold starts in current epoch -/
  coldStarts : ℤ := 0
  /-- number warm starts in current epoch -/
  warmStarts : ℤ := 0
  /-- number invocations in current epoch -/
  currInvocations : ℤ := 0
  invokeNext : Str := native
  totalInvocations : ℤ := 0
  totalExecTime : ℤ := 0
  totalStartupTime : ℤ := 0
  totalSvcTime : ℤ := 0
  totalSvcCold : ℤ := 0
  totalSvcWarm : ℤ := 0
  avgExecTime : ℤ := 0
  avgStartupTime : ℤ := 0
  p99SvcTime : ℤ := 0
  p50SvcTime : ℤ := 0
  avgSvcTime : ℤ := 0
  avgSvcCold : ℤ := 0
  avgSvcWarm : ℤ := 0
  coldRatio : ℚ := 0
  warmRatio : ℚ := 0
  execTimes : Vector ℤ 100 := .replicate 100 0
  startupTimes : Vector ℤ 100 := .replicate 100 0
  serviceTimes : Vector ℤ 100 := .replicate 100 0

/-- The record that `AddDeployedFunction` makes. -/
def fnStats : FunctionStats := {}

/-- `sort.Ints`. -/
def sortInts {n : ℕ} (xs : Vector ℤ n) : Vector ℤ n :=
  ⟨(xs.toList.mergeSort fun a b => decide (a ≤ b)).toArray, by simp⟩

/-- An evaluation of the policy of a function that is launched in the background. -/
inductive Evaluation
  | evalSandboxUtilization (fn : Str)
  | evalColdStartPolicy (fn : Str)
  | evalWarmStartPolicy (fn : Str)
deriving DecidableEq

namespace FunctionStats

/-- The beginning of the processing: a new invocation, and at the last position of a round the
percentiles. -/
def begin (s : FunctionStats) : FunctionStats :=
  let s : FunctionStats := { s with currInvocations := s.currInvocations + 1 }
  let s : FunctionStats :=
    if s.entryPos = 99 then
      let serviceTimes := sortInts s.serviceTimes
      { s with
        serviceTimes := serviceTimes
        p50SvcTime := serviceTimes[49]
        p99SvcTime := serviceTimes[98]
        -- reset epoch stats
        totalSvcTime := 0 }
    else s
  let s : FunctionStats := if s.coldPos = 99 then { s with totalSvcCold := 0 } else s
  if s.warmPos = 99 then { s with totalSvcWarm := 0 } else s

/-- The times of the stat are recorded at the current position. -/
def recordTimes (s : FunctionStats) (stat : FunctionStat) : FunctionStats :=
  let totalSvcTime := s.totalSvcTime + (stat.startupTime + stat.execTime)
  let totalInvocations := s.totalInvocations + 1
  let totalExecTime := s.totalExecTime + stat.execTime
  let totalStartupTime := s.totalStartupTime + stat.startupTime
  { s with
    totalSvcTime := totalSvcTime
    avgSvcTime := totalSvcTime.tdiv (s.entryPos.val + 1)
    entries := s.entries.set s.entryPos.val stat
    totalInvocations := totalInvocations
    execTimes := s.execTimes.set s.entryPos.val stat.execTime
    startupTimes := s.startupTimes.set s.entryPos.val stat.startupTime
    serviceTimes := s.serviceTimes.set s.entryPos.val (stat.execTime + stat.startupTime)
    totalExecTime := totalExecTime
    totalStartupTime := totalStartupTime
    avgExecTime := totalExecTime.tdiv totalInvocations
    avgStartupTime := totalStartupTime.tdiv totalInvocations }

/-- The stat is counted as a cold or a warm start. -/
def recordStart (s : FunctionStats) (stat : FunctionStat) : FunctionStats :=
  let svcTime := stat.execTime + stat.startupTime
  if stat.startupType = cold then
    { s with
      coldStarts := s.coldStarts + 1
      totalSvcCold := svcTime
      avgSvcCold := svcTime.tdiv (s.coldPos.val + 1)
      coldPos := s.coldPos + 1 }
  else if stat.startupType = warm then
    { s with
      warmStarts := s.warmStarts + 1
      totalSvcWarm := svcTime
      avgSvcWarm := svcTime.tdiv (s.warmPos.val + 1)
      warmPos := s.warmPos + 1 }
  else s

/-- The end of an epoch of a hybrid function. -/
def endEpoch (s : FunctionStats) (invocationSampleThreshold : ℤ) : FunctionStats :=
  { s with
    coldRatio := float32Ratio s.coldStarts invocationSampleThreshold
    warmRatio := float32Ratio s.warmStarts invocationSampleThreshold
    currInvocations := 0
    warmStarts := 0
    coldStarts := 0 }

/-- The processing of a stat under `statMu`: the record after it, and the evaluations that are
launched. The positions that the last tests read are those of before. -/
def process (invocationSampleThreshold : ℤ) (s : FunctionStats) (stat : FunctionStat) :
    FunctionStats × List Evaluation :=
  let s' := ((s.begin).recordTimes stat).recordStart stat
  let (s', launched) :=
    if stat.ctrType = hybrid then
      let ended := s'.currInvocations = invocationSampleThreshold
      (if ended then s'.endEpoch invocationSampleThreshold else s',
        (if ended then [.evalSandboxUtilization stat.fn] else []) ++
          (if (s.coldPos.val + 1) % 10 = 0 then [.evalColdStartPolicy stat.fn] else []) ++
          (if (s.warmPos.val + 1) % 10 = 0 then [.evalWarmStartPolicy stat.fn] else []))
    else (s', [])
  ({ s' with entryPos := s'.entryPos + 1 }, launched)

/-- Where the stat does not say `hybrid`, nothing is launched. -/
lemma process_launched {T : ℤ} {s : FunctionStats} {stat : FunctionStat}
    (h : stat.ctrType ≠ hybrid) : (s.process T stat).2 = [] := by
  simp only [process, if_neg h]

end FunctionStats

/-- `ProcessFunctionStats` for one stat; none when the function has no record. -/
def processFunctionStat (invocationSampleThreshold : ℤ) (functionStats : GoMap FunctionStats)
    (stat : FunctionStat) : Option (GoMap FunctionStats × List Evaluation) :=
  (functionStats.lookup stat.fn).map fun s =>
    let (s', launched) := s.process invocationSampleThreshold stat
    (functionStats.insert stat.fn s', launched)

/-! ### The parts of a record -/

/-- The service time of an invocation. -/
def FunctionStat.svcTime (stat : FunctionStat) : ℤ := stat.startupTime + stat.execTime

/-- The part of a record that is about the service times of all its entries. -/
structure SvcTimes where
  entryPos : Fin 100
  entries : Vector FunctionStat 100
  totalSvcTime : ℤ
  avgSvcTime : ℤ
  serviceTimes : Vector ℤ 100
  p50SvcTime : ℤ
  p99SvcTime : ℤ

/-- The part of a record that is about the service times of its cold starts, or its warm starts. -/
structure StartTimes where
  pos : Fin 100
  avgSvc : ℤ

/-- The part of a record that is about all invocations of the function so far. -/
structure LifeTimes where
  entryPos : Fin 100
  totalInvocations : ℤ
  execTimes : Vector ℤ 100
  startupTimes : Vector ℤ 100
  totalExecTime : ℤ
  totalStartupTime : ℤ
  avgExecTime : ℤ
  avgStartupTime : ℤ

namespace FunctionStats

variable (T : ℤ) (s : FunctionStats) (stat : FunctionStat)

/-- What the record says about all invocations so far. -/
def lifeTimes : LifeTimes :=
  ⟨s.entryPos, s.totalInvocations, s.execTimes, s.startupTimes, s.totalExecTime, s.totalStartupTime,
    s.avgExecTime, s.avgStartupTime⟩

/-- What the record says about the service times of all its entries. -/
def svcTimes : SvcTimes :=
  ⟨s.entryPos, s.entries, s.totalSvcTime, s.avgSvcTime, s.serviceTimes, s.p50SvcTime, s.p99SvcTime⟩

/-- What the record says about the service times of its cold starts. -/
def coldTimes : StartTimes := ⟨s.coldPos, s.avgSvcCold⟩

/-- What the record says about the service times of its warm starts. -/
def warmTimes : StartTimes := ⟨s.warmPos, s.avgSvcWarm⟩

end FunctionStats

/-- The service times of all entries after one more stat. -/
def SvcTimes.next (s : SvcTimes) (stat : FunctionStat) : SvcTimes :=
  let totalSvcTime := (if s.entryPos = 99 then 0 else s.totalSvcTime) + stat.svcTime
  let serviceTimes := if s.entryPos = 99 then sortInts s.serviceTimes else s.serviceTimes
  { entryPos := s.entryPos + 1
    entries := s.entries.set s.entryPos.val stat
    totalSvcTime := totalSvcTime
    avgSvcTime := totalSvcTime.tdiv (s.entryPos.val + 1)
    serviceTimes := serviceTimes.set s.entryPos.val stat.svcTime
    p50SvcTime := if s.entryPos = 99 then serviceTimes[49] else s.p50SvcTime
    p99SvcTime := if s.entryPos = 99 then serviceTimes[98] else s.p99SvcTime }

/-- What the record says about all invocations after one more stat. -/
def LifeTimes.next (s : LifeTimes) (stat : FunctionStat) : LifeTimes :=
  let totalInvocations := s.totalInvocations + 1
  let totalExecTime := s.totalExecTime + stat.execTime
  let totalStartupTime := s.totalStartupTime + stat.startupTime
  { entryPos := s.entryPos + 1
    totalInvocations := totalInvocations
    execTimes := s.execTimes.set s.entryPos.val stat.execTime
    startupTimes := s.startupTimes.set s.entryPos.val stat.startupTime
    totalExecTime := totalExecTime
    totalStartupTime := totalStartupTime
    avgExecTime := totalExecTime.tdiv totalInvocations
    avgStartupTime := totalStartupTime.tdiv totalInvocations }

/-- The service times of the starts of a type after one more stat: the sum of the block is the
service time of the stat alone. -/
def StartTimes.next (startupType : Str) (s : StartTimes) (stat : FunctionStat) : StartTimes :=
  if stat.startupType = startupType then
    ⟨s.pos + 1, stat.svcTime.tdiv (s.pos.val + 1)⟩
  else s

namespace FunctionStats

variable (T : ℤ) (s : FunctionStats) (stat : FunctionStat)

/-- The record after the stat, before the position moves on. -/
lemma process_fst : (s.process T stat).1 =
    let s' := (s.begin.recordTimes stat).recordStart stat
    let s' := if stat.ctrType = hybrid ∧ s'.currInvocations = T then s'.endEpoch T else s'
    { s' with entryPos := s'.entryPos + 1 } := by
  by_cases hct : stat.ctrType = hybrid
  · by_cases hended : ((s.begin.recordTimes stat).recordStart stat).currInvocations = T
    · simp only [process, hct, hended, and_self, if_true]
    · simp only [process, hct, hended, and_false, if_true, if_false]
  · simp only [process, hct, false_and, if_false]

/-- The first two parts of the processing add the stat to the service times. -/
lemma begin_recordTimes_svcTimes : (s.begin.recordTimes stat).svcTimes =
    { s.svcTimes.next stat with entryPos := s.entryPos } := by
  have hsum : stat.execTime + stat.startupTime = stat.svcTime := add_comm _ _
  unfold begin
  dsimp only [recordTimes, svcTimes, SvcTimes.next]
  simp only [hsum]
  split_ifs <;> rfl

/-- Counting a start leaves the service times alone. -/
lemma recordStart_svcTimes : (s.recordStart stat).svcTimes = s.svcTimes := by
  unfold recordStart
  dsimp only
  split_ifs <;> rfl

/-- **What a stat does to the service times of all entries.** -/
theorem process_svcTimes : (s.process T stat).1.svcTimes = s.svcTimes.next stat := by
  have hstart : ((s.begin.recordTimes stat).recordStart stat).svcTimes =
      { s.svcTimes.next stat with entryPos := s.entryPos } := by
    rw [recordStart_svcTimes, begin_recordTimes_svcTimes]
  generalize hs' : (s.begin.recordTimes stat).recordStart stat = s' at hstart
  have hmove : { s' with entryPos := s'.entryPos + 1 }.svcTimes = s.svcTimes.next stat :=
    congrArg (fun t : SvcTimes => { t with entryPos := t.entryPos + 1 }) hstart
  rw [process_fst, hs']
  dsimp only
  split
  · exact hmove
  · exact hmove

/-- The position goes on by one. -/
lemma process_entryPos : (s.process T stat).1.entryPos = s.entryPos + 1 :=
  congrArg SvcTimes.entryPos (s.process_svcTimes T stat)

/-- The stat goes to the current position. -/
lemma process_entries : (s.process T stat).1.entries = s.entries.set s.entryPos.val stat :=
  congrArg SvcTimes.entries (s.process_svcTimes T stat)

/-- The total begins again with the last stat of an epoch. -/
lemma process_totalSvcTime : (s.process T stat).1.totalSvcTime =
    (if s.entryPos = 99 then 0 else s.totalSvcTime) + stat.svcTime :=
  congrArg SvcTimes.totalSvcTime (s.process_svcTimes T stat)

/-- The mean is the total over the stats of the epoch so far. -/
lemma process_avgSvcTime : (s.process T stat).1.avgSvcTime =
    (s.process T stat).1.totalSvcTime.tdiv (s.entryPos.val + 1) := by
  rw [process_totalSvcTime]
  exact congrArg SvcTimes.avgSvcTime (s.process_svcTimes T stat)

/-- The ring after a stat. -/
lemma process_serviceTimes : (s.process T stat).1.serviceTimes =
    (if s.entryPos = 99 then sortInts s.serviceTimes else s.serviceTimes).set s.entryPos.val
      stat.svcTime :=
  congrArg SvcTimes.serviceTimes (s.process_svcTimes T stat)

/-- The first two parts add the stat to those of all invocations. -/
lemma begin_recordTimes_lifeTimes : (s.begin.recordTimes stat).lifeTimes =
    { s.lifeTimes.next stat with entryPos := s.entryPos } := by
  unfold begin
  dsimp only [recordTimes, lifeTimes, LifeTimes.next]
  split_ifs <;> rfl

/-- Counting a start leaves those alone. -/
lemma recordStart_lifeTimes : (s.recordStart stat).lifeTimes = s.lifeTimes := by
  unfold recordStart
  dsimp only
  split_ifs <;> rfl

/-- **What a stat does to what is said about all invocations.** -/
theorem process_lifeTimes : (s.process T stat).1.lifeTimes = s.lifeTimes.next stat := by
  have hstart : ((s.begin.recordTimes stat).recordStart stat).lifeTimes =
      { s.lifeTimes.next stat with entryPos := s.entryPos } := by
    rw [recordStart_lifeTimes, begin_recordTimes_lifeTimes]
  generalize hs' : (s.begin.recordTimes stat).recordStart stat = s' at hstart
  have hmove : { s' with entryPos := s'.entryPos + 1 }.lifeTimes = s.lifeTimes.next stat :=
    congrArg (fun t : LifeTimes => { t with entryPos := t.entryPos + 1 }) hstart
  rw [process_fst, hs']
  dsimp only
  split
  · exact hmove
  · exact hmove

/-- The first two parts leave the cold starts alone. -/
lemma begin_recordTimes_coldTimes : (s.begin.recordTimes stat).coldTimes = s.coldTimes := by
  unfold begin
  dsimp only
  split_ifs <;> rfl

/-- The first two parts leave the warm starts alone. -/
lemma begin_recordTimes_warmTimes : (s.begin.recordTimes stat).warmTimes = s.warmTimes := by
  unfold begin
  dsimp only
  split_ifs <;> rfl

/-- A cold start is counted among the cold ones. -/
lemma recordStart_coldTimes : (s.recordStart stat).coldTimes = s.coldTimes.next cold stat := by
  have hsum : stat.execTime + stat.startupTime = stat.svcTime := add_comm _ _
  unfold recordStart StartTimes.next
  dsimp only
  rw [hsum]
  split_ifs <;> rfl

/-- A warm start is counted among the warm ones. -/
lemma recordStart_warmTimes : (s.recordStart stat).warmTimes = s.warmTimes.next warm stat := by
  have hsum : stat.execTime + stat.startupTime = stat.svcTime := add_comm _ _
  unfold recordStart StartTimes.next
  dsimp only
  rw [hsum]
  by_cases hcold : stat.startupType = cold
  · have hwarm : ¬ stat.startupType = warm := by
      rw [hcold]
      decide
    rw [if_pos hcold, if_neg hwarm]
    rfl
  · rw [if_neg hcold]
    split_ifs <;> rfl

/-- **What a stat does to the service times of the cold starts.** -/
theorem process_coldTimes : (s.process T stat).1.coldTimes = s.coldTimes.next cold stat := by
  have hstart : ((s.begin.recordTimes stat).recordStart stat).coldTimes =
      s.coldTimes.next cold stat := by
    rw [recordStart_coldTimes, begin_recordTimes_coldTimes]
  rw [process_fst, ← hstart]
  dsimp only
  split <;> rfl

/-- **What a stat does to the service times of the warm starts.** -/
theorem process_warmTimes : (s.process T stat).1.warmTimes = s.warmTimes.next warm stat := by
  have hstart : ((s.begin.recordTimes stat).recordStart stat).warmTimes =
      s.warmTimes.next warm stat := by
    rw [recordStart_warmTimes, begin_recordTimes_warmTimes]
  rw [process_fst, ← hstart]
  dsimp only
  split <;> rfl

end FunctionStats

/-! ### Epochs -/

/-- A call of `UpdateFunctionStats`. -/
structure Invocation where
  fn : Str
  ctrType : Str
  requestID : Str
  startupTime : ℤ
  execTime : ℤ
  startupType : Str

/-- The stat is one that the invocation sends. -/
def Invocation.Sends (v : Invocation) (stat : FunctionStat) : Prop :=
  ∃ stats, updateFunctionStats v.fn v.ctrType v.requestID v.startupTime v.execTime v.startupType =
    .ok stats ∧ stat ∈ stats

/-- The records, and the stats that have been processed, the newest first. -/
structure Processing where
  functionStats : GoMap FunctionStats
  processed : List FunctionStat := []

/-- One stat is taken from the channel; it is dropped when its function has no record. -/
def Processing.step (invocationSampleThreshold : ℤ) (p : Processing) (stat : FunctionStat) :
    Option Processing :=
  match processFunctionStat invocationSampleThreshold p.functionStats stat with
  | none => some p
  | some (functionStats, _) => some ⟨functionStats, stat :: p.processed⟩

/-- The stats of the function, the newest first. -/
def statsOf (fn : Str) (stats : List FunctionStat) : List FunctionStat :=
  stats.filter fun stat => stat.fn = fn

/-- The number of stats with the startup type. -/
def starts (startupType : Str) (stats : List FunctionStat) : ℕ :=
  stats.countP fun stat => stat.startupType = startupType

/-- **The epochs of the hybrid function are counted** when the stat is processed: after every `T`
of its invocations the ratios are those of these invocations, the counters are zero and
`EvalSandboxUtilization` is launched; at every tenth cold start `EvalColdStartPolicy` is launched,
and at every tenth warm start `EvalWarmStartPolicy`. -/
def EpochsCounted (T : ℤ) (fn : Str) (p : Processing) (stat : FunctionStat) : Prop :=
  ∀ functionStats launched, stat.fn = fn →
    processFunctionStat T p.functionStats stat = some (functionStats, launched) →
    let seen := statsOf fn (stat :: p.processed)
    (T ∣ seen.length → .evalSandboxUtilization fn ∈ launched ∧
      ∃ s, functionStats.lookup fn = some s ∧
        s.coldRatio = float32Ratio (starts cold (seen.take T.toNat)) T ∧
        s.warmRatio = float32Ratio (starts warm (seen.take T.toNat)) T ∧
        s.currInvocations = 0 ∧ s.coldStarts = 0 ∧ s.warmStarts = 0) ∧
    (stat.startupType = cold → 10 ∣ starts cold seen → .evalColdStartPolicy fn ∈ launched) ∧
    (stat.startupType = warm → 10 ∣ starts warm seen → .evalWarmStartPolicy fn ∈ launched)

/-- Nothing is due yet: fewer than `T` invocations, fewer than ten cold ones and fewer than ten
warm ones. -/
def NothingDue (T : ℤ) (seen : List FunctionStat) : Prop :=
  (seen.length : ℤ) < T ∧ starts cold seen < 10 ∧ starts warm seen < 10

/-! ### What is processed and what is launched -/

/-- The stats of a function are counted, whatever their order. -/
lemma nothingDue_append_cons {T : ℤ} (seen later : List FunctionStat) (stat : FunctionStat) :
    NothingDue T (seen ++ stat :: later) ↔ NothingDue T (stat :: seen ++ later) := by
  have hlen : (seen ++ stat :: later).length = (stat :: seen ++ later).length := by
    simp only [List.length_append, List.length_cons]
    omega
  have hstarts : ∀ type,
      starts type (seen ++ stat :: later) = starts type (stat :: seen ++ later) :=
    fun type => List.Perm.countP_eq _ List.perm_middle
  simp only [NothingDue, hlen, hstarts]

/-- What is due stays due. -/
lemma NothingDue.of_append {T : ℤ} {seen later : List FunctionStat}
    (h : NothingDue T (seen ++ later)) : NothingDue T seen := by
  obtain ⟨hlen, hcold, hwarm⟩ := h
  simp only [starts, List.countP_append, List.length_append] at hlen hcold hwarm
  unfold NothingDue starts
  omega

/-- **The processing of one stat.** Nothing is launched, so the epochs are counted exactly when
nothing is due.

**Proof sketch.** No stat of the type `hybrid` comes, so nothing is launched
(`FunctionStats.process_launched`). If nothing was due before the stat, then something is due after
it exactly when one of the three counts reaches its bound with it. -/
lemma epochsCounted_iff {T : ℤ} {p : Processing} {stat : FunctionStat}
    {s : FunctionStats} (hs : p.functionStats.lookup stat.fn = some s)
    (hct : stat.ctrType ≠ hybrid) (hdue : NothingDue T (statsOf stat.fn p.processed)) :
    EpochsCounted T stat.fn p stat ↔ NothingDue T (stat :: statsOf stat.fn p.processed) := by
  have hproc : ∀ functionStats launched,
      processFunctionStat T p.functionStats stat = some (functionStats, launched) →
        launched = [] := by
    intro functionStats launched h
    simp only [processFunctionStat, hs, Option.map_some, Option.some.injEq, Prod.mk.injEq] at h
    rw [← h.2]
    exact FunctionStats.process_launched hct
  have hseen : statsOf stat.fn (stat :: p.processed) = stat :: statsOf stat.fn p.processed := by
    simp [statsOf]
  obtain ⟨hlen, hcold, hwarm⟩ := hdue
  generalize statsOf stat.fn p.processed = seen at hseen hlen hcold hwarm ⊢
  have hstarts : ∀ type, starts type (stat :: seen) =
      starts type seen + if stat.startupType = type then 1 else 0 := by
    intro type
    simp [starts, List.countP_cons]
  constructor
  · intro h
    -- some evaluation is launched when something is due, and none ever is
    obtain ⟨fs, hfs⟩ : ∃ fs, processFunctionStat T p.functionStats stat = some (fs, []) := by
      obtain ⟨⟨fs, launched⟩, hfs⟩ : ∃ r, processFunctionStat T p.functionStats stat = some r :=
        ⟨_, by simp only [processFunctionStat, hs, Option.map_some]; rfl⟩
      obtain rfl := hproc fs launched hfs
      exact ⟨fs, hfs⟩
    obtain ⟨hepoch, hc, hw⟩ := h fs [] rfl hfs
    rw [hseen] at hepoch hc hw
    refine ⟨?_, ?_, ?_⟩
    · by_contra hge
      have heq : ((stat :: seen).length : ℤ) = T := by
        rw [List.length_cons] at hge ⊢
        push_cast at hge ⊢
        omega
      exact absurd (hepoch (by rw [heq])).1 List.not_mem_nil
    · rw [hstarts] at hc ⊢
      by_contra hge
      by_cases hst : stat.startupType = cold
      · rw [if_pos hst] at hc hge
        have heq : starts cold seen + 1 = 10 := by omega
        exact absurd (hc hst (by rw [heq])) List.not_mem_nil
      · rw [if_neg hst] at hge
        omega
    · rw [hstarts] at hw ⊢
      by_contra hge
      by_cases hst : stat.startupType = warm
      · rw [if_pos hst] at hw hge
        have heq : starts warm seen + 1 = 10 := by omega
        exact absurd (hw hst (by rw [heq])) List.not_mem_nil
      · rw [if_neg hst] at hge
        omega
  · rintro ⟨hlen', hcold', hwarm'⟩ fs launched - _
    dsimp only
    rw [hseen]
    refine ⟨fun hdvd => ?_, fun hst hdvd => ?_, fun hst hdvd => ?_⟩
    · have hle := Int.le_of_dvd (by simp) hdvd
      omega
    · have hpos : 0 < starts cold (stat :: seen) := by simp [hstarts, hst]
      exact absurd (Nat.le_of_dvd hpos hdvd) (by omega)
    · have hpos : 0 < starts warm (stat :: seen) := by simp [hstarts, hst]
      exact absurd (Nat.le_of_dvd hpos hdvd) (by omega)

/-- A function with a record keeps it, and what is processed is recorded. -/
lemma Processing.step_eq {T : ℤ} (p : Processing) (stat : FunctionStat) :
    ∃ p', p.step T stat = some p' ∧
      (∀ fn, fn ∈ p.functionStats → fn ∈ p'.functionStats) ∧
      (∀ fn, stat.fn ≠ fn → statsOf fn p'.processed = statsOf fn p.processed) ∧
      (stat.fn ∈ p.functionStats → p'.processed = stat :: p.processed) := by
  cases hs : p.functionStats.lookup stat.fn with
  | none =>
    refine ⟨p, by simp [step, processFunctionStat, hs], fun _ h => h, fun _ _ => rfl, fun h => ?_⟩
    exact absurd h (AList.lookup_eq_none.mp hs)
  | some s =>
    refine ⟨_, by simp only [step, processFunctionStat, hs, Option.map_some]; rfl, ?_, ?_, ?_⟩
    · exact fun fn h => (AList.mem_insert _).mpr (.inr h)
    · intro fn hne
      simp [statsOf, hne]
    · exact fun _ => rfl

/-- The streams along which the epochs are counted, from any point of the processing at which
nothing is due.

**Proof sketch.** Induct on the stream. A stat of the function must leave nothing due
(`epochsCounted_iff`), and when something is due after it something is due at the end; a stat of
another function changes nothing here. -/
lemma epochsCounted_along {T : ℤ} {fn : Str} {stream : List FunctionStat} :
    ∀ {p : Processing}, fn ∈ p.functionStats → NothingDue T (statsOf fn p.processed) →
      (∀ stat ∈ stream, stat.ctrType ≠ hybrid) →
      (Runs.Along (Processing.step T) (EpochsCounted T fn) p stream ↔
        NothingDue T (statsOf fn p.processed ++ statsOf fn stream)) := by
  induction stream with
  | nil =>
    intro p _ hdue _
    simpa [statsOf, Runs.Along] using hdue
  | cons stat stream ih =>
    intro p hfn hdue hct
    obtain ⟨hstat, hct⟩ := List.forall_mem_cons.mp hct
    obtain ⟨p', hstep, hkeep, hother, hown⟩ := p.step_eq (T := T) stat
    rw [Runs.along_cons_of_some hstep]
    by_cases hname : stat.fn = fn
    · subst hname
      obtain ⟨s, hs⟩ := Option.isSome_iff_exists.mp (AList.lookup_isSome.mpr hfn)
      have hseen : statsOf stat.fn p'.processed = stat :: statsOf stat.fn p.processed := by
        rw [hown hfn]
        simp [statsOf]
      have hlater : statsOf stat.fn (stat :: stream) = stat :: statsOf stat.fn stream := by
        simp [statsOf]
      rw [epochsCounted_iff hs hstat hdue, hlater, nothingDue_append_cons, ← hseen]
      constructor
      · rintro ⟨hdue', hal⟩
        exact (ih (hkeep _ hfn) hdue' hct).mp hal
      · intro h
        exact ⟨h.of_append, (ih (hkeep _ hfn) h.of_append hct).mpr h⟩
    · have hlater : statsOf fn (stat :: stream) = statsOf fn stream := by
        simp [statsOf, hname]
      rw [hlater, ← hother fn hname,
        ← ih (hkeep fn hfn) (by rw [hother fn hname]; exact hdue) hct]
      exact ⟨fun h => h.2, fun h => ⟨fun _ _ heq => absurd heq hname, h⟩⟩

/-- **The streams along which the epochs of a hybrid function are counted**: those in which nothing
is ever due.

**Proof sketch.** No stat says `hybrid` (`updateFunctionStats_ctrType`), so nothing is ever
launched. By induction on the stream, the epochs are counted as long as fewer than `T` invocations,
fewer than ten cold and fewer than ten warm ones have been processed. -/
theorem epochsCounted_along_iff {T : ℤ} (hT : 1 ≤ T) (fn : Str)
    (functionStats : GoMap FunctionStats) {stream : List FunctionStat}
    (hsent : ∀ stat ∈ stream, ∃ v : Invocation, v.Sends stat ∧ (v.fn = fn → v.ctrType = hybrid)) :
    Runs.Along (Processing.step T) (EpochsCounted T fn) ⟨functionStats.insert fn {}, []⟩ stream ↔
      NothingDue T (statsOf fn stream) := by
  refine epochsCounted_along ?_ ?_ fun stat hstat => ?_
  · exact (AList.mem_insert _).mpr (.inl rfl)
  · exact ⟨Int.lt_of_lt_of_le Int.zero_lt_one hT, Nat.zero_lt_succ _, Nat.zero_lt_succ _⟩
  · obtain ⟨v, ⟨stats, hstats, hmem⟩, -⟩ := hsent stat hstat
    exact updateFunctionStats_ctrType hstats stat hmem

/-- A warm start of the hybrid function `f` in a WASM replica. -/
def warmInvocation : Invocation :=
  { fn := "f".toList
    ctrType := hybrid
    requestID := "f-w_1_w".toList
    startupTime := 2
    execTime := 3
    startupType := warm }

/-- What the invocation sends. -/
def warmStats : List FunctionStat :=
  [⟨"f".toList, wasm, 2, 3, warm⟩, ⟨"f-w".toList, wasm, 2, 3, warm⟩]

/-- The stats are those of the invocation. -/
lemma warmInvocation_sends : ∀ stat ∈ warmStats, warmInvocation.Sends stat :=
  fun _ hstat => ⟨warmStats, by decide, hstat⟩

/-- One invocation, and epochs of two. -/
theorem epochsCounted_along_warmInvocation :
    Runs.Along (Processing.step 2) (EpochsCounted 2 "f".toList)
      ⟨(∅ : GoMap FunctionStats).insert "f".toList fnStats, []⟩ warmStats :=
  (epochsCounted_along_iff (by decide) _ _ fun stat hstat =>
    ⟨warmInvocation, warmInvocation_sends stat hstat, fun _ => rfl⟩).mpr
      ⟨by decide, by decide, by decide⟩

/-- One invocation, and epochs of one: nothing is launched. -/
theorem not_epochsCounted_along_warmInvocation :
    ¬ Runs.Along (Processing.step 1) (EpochsCounted 1 "f".toList)
      ⟨(∅ : GoMap FunctionStats).insert "f".toList fnStats, []⟩ warmStats := by
  intro h
  obtain ⟨p', hstep, -⟩ := Processing.step_eq (T := 1)
    ⟨(∅ : GoMap FunctionStats).insert "f".toList fnStats, []⟩ ⟨"f".toList, wasm, 2, 3, warm⟩
  obtain ⟨hcounted, -⟩ := (Runs.along_cons_of_some hstep).mp h
  have hlaunched := (hcounted _ _ rfl rfl).1 (by decide)
  exact absurd hlaunched.1 (by decide)

end Fecore
