import Fecore.Concurrency.Channels
import Fecore.Handlers.StatsRings

set_option relaxedAutoImplicit false
set_option autoImplicit false

/-!
# The channel of the statistics

Every invocation ends with `UpdateFunctionStats`, which sends its stats to `statsChan` and waits
while the 100 places of the channel are taken; one call of `ProcessFunctionStats` takes them out of
it in the background (`cmd/provider.go`). `AddDeployedFunction` makes a new record at any time,
also for a function that had one.

## Main definitions

* `Fecore.statsEffects` — what a stat and a deployment do to `functionStats`, and how a deployment
  breaks the processing of a stat.
* `Fecore.statsProgram` — the invocations, the background and the deployments.
* `Fecore.statsSince` — the stats of a function since it was deployed.
* `Fecore.StatsKept` — where all stats of the invocations are.
* `Fecore.CountsAll` — a record of all that the invocations report.

## Main results

* `Fecore.stats_delivered` — no stat is lost, and the records come to say what all invocations
  report.

## Design

`ProcessFunctionStats` takes a stat, looks its record up and locks the record's `statMu` in one
step; a second step does the rest up to `statMu.Unlock()`. Every line of it looks the record up
again, so a deployment of the same function between the two, which no lock keeps away, leaves it
with a new record that divides by its zero `totalInvocations`, or whose mutex is not locked: the
process ends. The calls that read the records hold `statMu` for a while only and are left out.
-/

namespace Fecore

open Channels Interleaving

/-- What is done to `functionStats`: a stat is processed, or a function is deployed. -/
def recordStats (T : ℤ) (functionStats : GoMap FunctionStats) :
    FunctionStat ⊕ Str → GoMap FunctionStats
  | .inl stat =>
    match processFunctionStat T functionStats stat with
    | none => functionStats
    | some (functionStats, _) => functionStats
  | .inr fn => functionStats.insert fn fnStats

/-- A stat keeps `ProcessFunctionStats` at work when its function has a record, which a deployment
of that function replaces. -/
def statsEffects (T : ℤ) : Effects FunctionStat Str (GoMap FunctionStats) where
  apply := recordStats T
  works functionStats stat := stat.fn ∈ functionStats
  breaks stat fn := stat.fn = fn

/-- The parties to the channel: the invocations, `ProcessFunctionStats`, and the calls of
`AddDeployedFunction`. -/
abbrev StatsParty := Party FunctionStat Str

/-- The channel with its parties, and `functionStats`. -/
abbrev StatsConfig := Interleaving.Config (Link FunctionStat Str (GoMap FunctionStats)) StatsParty

/-- The parties to `statsChan`, which has 100 places. -/
def statsProgram (T : ℤ) :
    Program (Link FunctionStat Str (GoMap FunctionStats)) StatsParty Unit :=
  program 100 (statsEffects T)

/-- The start of the provider, with no records. -/
def startStats : StatsConfig := start ∅

/-- What an invocation reports: the stats that `UpdateFunctionStats` sends. -/
def Reported (stats : List FunctionStat) : Prop :=
  ∃ fn ctrType requestID startupTime execTime startupType,
    updateFunctionStats fn ctrType requestID startupTime execTime startupType = .ok stats

/-! ### The stats since a deployment -/

/-- The stats of a function since it was deployed after one more event. -/
def nextSince (fn : Str) (stats : Option (List FunctionStat)) :
    FunctionStat ⊕ Str → Option (List FunctionStat)
  | .inl stat => stats.map (· ++ statsOf fn [stat])
  | .inr fn' => if fn' = fn then some [] else stats

/-- The stats of a function that have been processed since it was last deployed; none before
that. -/
def statsSince (fn : Str) (log : List (FunctionStat ⊕ Str)) : Option (List FunctionStat) :=
  log.foldl (nextSince fn) none

section Records

variable {T : ℤ} {functionStats : GoMap FunctionStats} {fn : Str}

/-- **What an event does to the record of a function.**

**Proof sketch.** A stat is processed into the record of its function (`Processing.lookup_step_eq`);
a deployment sets the record of its function back to the first one. Other records stay. -/
lemma lookup_recordStats {stats : Option (List FunctionStat)}
    (h : functionStats.lookup fn = stats.map (fnStats.after T)) (event : FunctionStat ⊕ Str) :
    (recordStats T functionStats event).lookup fn =
      (nextSince fn stats event).map (fnStats.after T) := by
  cases event with
  | inl stat =>
    obtain ⟨p, hstep, -⟩ := Processing.step_mem T ⟨functionStats, []⟩ stat
    have hp : recordStats T functionStats (.inl stat) = p.functionStats := by
      cases hproc : processFunctionStat T functionStats stat with
      | none =>
        simp only [Processing.step, hproc] at hstep
        cases hstep
        simp only [recordStats, hproc]
      | some r =>
        simp only [Processing.step, hproc] at hstep
        cases hstep
        simp only [recordStats, hproc]
    rw [hp, Processing.lookup_step_eq hstep fn, h, nextSince, Option.map_map, Option.map_map]
    congr 1
    funext l
    simp [FunctionStats.after]
  | inr fn' =>
    by_cases hfn : fn' = fn
    · subst hfn
      simp only [recordStats, nextSince, AList.lookup_insert, if_pos]
      rfl
    · simp only [recordStats, nextSince, AList.lookup_insert_ne (Ne.symm hfn), if_neg hfn, h]

/-- The records are those of the stats since the deployments. -/
lemma lookup_foldl_recordStats (T : ℤ) (fn : Str) (log : List (FunctionStat ⊕ Str)) :
    (log.foldl (recordStats T) ∅).lookup fn = (statsSince fn log).map (fnStats.after T) := by
  induction log using List.reverseRecOn with
  | nil => rfl
  | append_singleton log event ih =>
    rw [statsSince, List.foldl_append, List.foldl_append]
    exact lookup_recordStats ih event

/-- More stats without another deployment. -/
lemma foldl_nextSince (stats : List FunctionStat) :
    ∀ {log : List (FunctionStat ⊕ Str)}, fn ∉ changes log →
      log.foldl (nextSince fn) (some stats) = some (stats ++ statsOf fn (received log)) := by
  intro log
  induction log using List.reverseRecOn with
  | nil => intro _; simp [received, statsOf]
  | append_singleton log event ih =>
    intro hfn
    rw [changes_append, List.mem_append, not_or] at hfn
    rw [List.foldl_append, ih hfn.1, received_append]
    cases event with
    | inl stat => simp [nextSince, statsOf]
    | inr fn' =>
      have hne : fn' ≠ fn := fun heq => hfn.2 (heq ▸ List.mem_singleton_self fn)
      simp [nextSince, hne]

end Records

/-- A function has been deployed once, and before its first stat. -/
def DeployedFirst (fn : Str) (log : List (FunctionStat ⊕ Str)) : Prop :=
  ∃ before after, log = before ++ .inr fn :: after ∧ statsOf fn (received before) = [] ∧
    fn ∉ changes after

/-- All stats of such a function are those since its deployment. -/
lemma DeployedFirst.statsSince_eq {fn : Str} {log : List (FunctionStat ⊕ Str)}
    (h : DeployedFirst fn log) : statsSince fn log = some (statsOf fn (received log)) := by
  obtain ⟨before, after, rfl, hbefore, hafter⟩ := h
  have hhere : nextSince fn (before.foldl (nextSince fn) none) (.inr fn) = some [] := if_pos rfl
  have hall : statsOf fn (received (before ++ .inr fn :: after)) = statsOf fn (received after) := by
    rw [received_append, statsOf, List.filter_append]
    exact (congrArg (· ++ _) hbefore).trans (List.nil_append _)
  rw [statsSince, List.foldl_append, List.foldl_cons, hhere, foldl_nextSince [] hafter, hall,
    List.nil_append]

/-! ### All stats -/

/-- **No stat is lost**: what the invocations have sent stands in the channel, in the order in which
it has been sent, or is being processed, or has been processed; the channel has no more than its
places; and there is a record of every function that has been deployed, which holds its stats since
then. -/
structure StatsKept (c : StatsConfig) : Prop where
  reports : ∀ t ∈ c.threads, Reported t.all
  alive : c.shared.alive = true
  merge : Merge (c.threads.map Party.sentBy)
    (received c.shared.log ++ c.shared.hand.toList ++ c.shared.buffer)
  bounded : c.shared.buffer.length ≤ 100
  absent : ∀ fn, c.shared.state.lookup fn = none ↔ statsSince fn c.shared.log = none
  records : ∀ fn stats, statsSince fn c.shared.log = some stats →
    ∃ r, c.shared.state.lookup fn = some r ∧ r.Holds stats

/-- A record holds all that is reported, in some order, and its sums are those of all reports. -/
structure CountsAll (r : FunctionStats) (reports : List (List FunctionStat)) : Prop where
  holds : ∃ stats, r.Holds stats ∧ Merge reports stats
  totalInvocations : r.totalInvocations = (reports.map List.length).sum
  totalExecTime : r.totalExecTime =
    (reports.map fun stats => (stats.map (·.execTime)).sum).sum
  totalStartupTime : r.totalStartupTime =
    (reports.map fun stats => (stats.map (·.startupTime)).sum).sum

/-- A record of a merge of the reports. -/
lemma FunctionStats.Holds.countsAll {r : FunctionStats} {stats : List FunctionStat}
    {reports : List (List FunctionStat)} (h : r.Holds stats) (hmerge : Merge reports stats) :
    CountsAll r reports where
  holds := ⟨stats, h, hmerge⟩
  totalInvocations := by rw [h.totalInvocations, hmerge.length_eq]
  totalExecTime := by rw [h.totalExecTime, hmerge.sum_map]
  totalStartupTime := by rw [h.totalStartupTime, hmerge.sum_map]

section Runs

variable {T : ℤ} {c : StatsConfig}

/-- Where the channel is sound and the invocations report their stats, none is lost. -/
lemma statsKept_of_sound (h : Sound 100 (statsEffects T) ∅ c)
    (hreports : ∀ t ∈ c.threads, Reported t.all) : StatsKept c where
  reports := hreports
  alive := h.alive
  merge := by
    rw [List.append_assoc]
    exact h.order ▸ h.merge
  bounded := h.bounded
  absent fn := by
    have hfn := lookup_foldl_recordStats T fn c.shared.log
    rw [h.state, statsEffects, hfn, Option.map_eq_none_iff]
  records fn stats hstats := by
    refine ⟨fnStats.after T stats, ?_, holds_after T stats⟩
    have hfn := lookup_foldl_recordStats T fn c.shared.log
    rw [h.state, statsEffects, hfn, hstats, Option.map_some]

/-- Nothing has to be reported. -/
lemma reported_nil : Reported [] := ⟨[], hybrid, "__".toList, 0, 0, [], rfl⟩

/-- **The stats of all invocations are delivered.** In every run of invocations, of
`ProcessFunctionStats` and of deployments, none of which replaces the record of a stat that is being
processed, no stat is lost; and from where it has come to, steps of the invocations and the
background alone lead to where all has been sent and processed. There a function that was deployed
once, and before its first stat, has a record of all that was ever reported for it.

**Proof sketch.** The channel is sound, and drains. The log of what has been processed and deployed
says what the records hold, event by event; after it has drained the log has the stats of all
invocations, merged, and what is picked out of it for one function is a merge of what each of them
reports for that function. -/
theorem stats_delivered {ms : List (Move StatsParty Unit)}
    (hreports : ∀ t, .arrive t ∈ ms → Reported t.all)
    (hquiet : Runs.Along (statsProgram T).step (Undisturbed (statsEffects T)) startStats ms)
    (hrun : Runs.run (statsProgram T).step startStats ms = some c) :
    StatsKept c ∧ ∃ ms' c', (∀ m ∈ ms', ∃ i, m = .step i ()) ∧
      Runs.run (statsProgram T).step c ms' = some c' ∧
      changes c'.shared.log = changes c.shared.log ∧ StatsKept c' ∧ c'.shared.buffer = [] ∧
      c'.shared.hand = none ∧ c'.threads.map Party.sentBy = c.threads.map Party.all ∧
      ∀ fn, DeployedFirst fn c.shared.log → ∃ r, c'.shared.state.lookup fn = some r ∧
        CountsAll r (c.threads.map fun t => statsOf fn t.all) := by
  have hall : ∀ t ∈ c.threads, Reported t.all := all_of_run reported_nil hreports hrun
  have hsound := sound_of_run hquiet hrun
  obtain ⟨ms', c', hms', hrun', hahead, hpending, hsent⟩ := drains (by decide : 0 < 100) hsound
  have hall' : ∀ t ∈ c'.threads, Reported t.all := by
    intro t ht
    have hmem : t.all ∈ c.threads.map Party.all := hahead.all ▸ List.mem_map_of_mem ht
    obtain ⟨t₀, ht₀, heq⟩ := List.mem_map.mp hmem
    exact heq ▸ hall t₀ ht₀
  obtain ⟨more, hmore⟩ := hahead.log
  have hnone : changes (more.map .inl : List (FunctionStat ⊕ Str)) = [] := by
    simp [changes]
  obtain ⟨hhand, hbuffer⟩ := List.append_eq_nil_iff.mp hpending
  refine ⟨statsKept_of_sound hsound hall, ms', c', hms', hrun', ?_,
    statsKept_of_sound hahead.sound hall', hbuffer, Option.toList_eq_nil_iff.mp hhand, hsent,
    fun fn hfn => ?_⟩
  · rw [hmore, changes_append, hnone, List.append_nil]
  have hfn' : DeployedFirst fn c'.shared.log := by
    obtain ⟨before, after, hlog, hbefore, hafter⟩ := hfn
    refine ⟨before, after ++ more.map .inl, by rw [hmore, hlog]; simp, hbefore, ?_⟩
    rwa [changes_append, hnone, List.append_nil]
  obtain ⟨r, hr, hholds⟩ :=
    (statsKept_of_sound hahead.sound hall').records fn _ hfn'.statsSince_eq
  refine ⟨r, hr, hholds.countsAll ?_⟩
  have hmerge := hahead.sound.merge.filter fun stat => stat.fn = fn
  rw [hsent, hahead.sound.order, hpending, List.append_nil, List.map_map] at hmerge
  exact hmerge

end Runs

/-- Two invocations of a function arrive after it has been deployed, and the second sends its stat
first, which is being processed when another function is deployed. -/
def twoReports : List (Move StatsParty Unit) :=
  [.arrive (.outside (some "f".toList)), .step 1 (),
    .arrive (.sender [] [⟨"f".toList, native, 5, 1, cold⟩]),
    .arrive (.sender [] [⟨"f".toList, native, 0, 2, warm⟩]), .step 3 (), .step 0 (),
    .arrive (.outside (some "g".toList)), .step 4 ()]

/-- The channel after that. -/
def afterTwoReports : StatsConfig :=
  (Runs.run (statsProgram 10).step startStats twoReports).get rfl

/-- Both are counted in the end.

**Proof sketch.** Both threads report what the provider would; deliver them (`stats_delivered`), and
read off the record of `f`. -/
theorem stats_delivered_two :
    ∃ ms c r, Runs.run (statsProgram 10).step afterTwoReports ms = some c ∧
      c.shared.buffer = [] ∧ c.shared.hand = none ∧ c.shared.state.lookup "f".toList = some r ∧
      r.totalInvocations = 2 ∧ r.totalExecTime = 3 := by
  have hreports : ∀ t, Move.arrive t ∈ twoReports → Reported t.all := by
    intro t ht
    simp only [twoReports, List.mem_cons, Move.arrive.injEq, reduceCtorEq, List.not_mem_nil,
      or_false, false_or] at ht
    rcases ht with rfl | rfl | rfl | rfl
    · exact reported_nil
    · exact ⟨"f".toList, native, [], 5, 1, cold, rfl⟩
    · exact ⟨"f".toList, native, [], 0, 2, warm, rfl⟩
    · exact reported_nil
  obtain ⟨-, ms, c, -, hrun, -, -, hbuffer, hhand, -, hcounted⟩ :=
    stats_delivered (T := 10) hreports (by decide) (Option.some_get rfl).symm
  obtain ⟨r, hr, hcounts⟩ := hcounted "f".toList ⟨[], [.inr "g".toList], rfl, rfl, by decide⟩
  exact ⟨ms, c, r, hrun, hbuffer, hhand, hr, hcounts.totalInvocations, hcounts.totalExecTime⟩

/-- Another deployment of the function in the middle ends the process. -/
example : ((Runs.run (statsProgram 10).step startStats
    [.arrive (.outside (some "f".toList)), .step 1 (),
      .arrive (.sender [] [⟨"f".toList, native, 5, 1, cold⟩]), .step 2 (), .step 0 (),
      .arrive (.outside (some "f".toList)), .step 3 ()]).map (·.shared.alive)) = some false := rfl

end Fecore
