import Mathlib.Tactic.Common
import Fecore.Data.Assoc
import Fecore.Handlers.Functions

set_option relaxedAutoImplicit false
set_option autoImplicit false

/-!
# The resolver of the hosts file

`pkg/local_resolver.go`: a map of the hosts is built again from the file whenever the file has
changed, and the answers come from the map. The map is never cleared.

## Main definitions

* `Fecore.LocalResolver` — the resolver, with `rebuild`, `get` and the loop of `Start`.
* `Fecore.hostRecords`, `Fecore.lastIP` — the lines of a file with an address and a host, and the
  address of a host in the last one.

## Main results

* `Fecore.LocalResolver.polls_eq` — what the loop of `Start` has made of the map is a sequence of
  rebuilds.
* `Fecore.LocalResolver.get_foldl_rebuild` — the answer is that of all files that have been read.
* `Fecore.LocalResolver.answersCurrent_iff` — when the answers are those of the current file.
-/

namespace Fecore

/-- `LocalResolver`; each call holds its lock from its start to its end. -/
structure LocalResolver where
  path : Str
  map : GoMap Str := ∅

/-- The host and the address of a line of the hosts file. -/
def hostRecord (line : Str) : Option (Str × Str) :=
  let index := line.idxOf '\t'
  if 0 < line.length ∧ '\t' ∈ line then some (line.drop (index + 1), line.take index) else none

/-- The hosts and addresses of a hosts file, line by line. -/
def hostRecords (fileData : Str) : List (Str × Str) :=
  (fileData.splitOn '\n').filterMap hostRecord

namespace LocalResolver

/-- `NewLocalResolver` -/
def new (path : Str) : LocalResolver := { path := path }

/-- `rebuild`, for what `ioutil.ReadFile` returns: a file that cannot be read changes nothing. -/
def rebuild (l : LocalResolver) (fileData : Option Str) : LocalResolver :=
  match fileData with
  | none => l
  | some fileData =>
    { l with map := (hostRecords fileData).foldl (fun map r => map.insert r.1 r.2) l.map }

/-- `get` -/
def get (l : LocalResolver) (upstream : Str) : Str := index l.map upstream

/-! ### The loop of `Start` -/

/-- What a turn of the loop of `Start` meets: the time of the last modification, when `os.Stat`
returns one, and what can be read of the file. -/
structure Poll where
  modTime : Option ℤ
  fileData : Option Str

/-- A turn of the loop of `Start`, with the time of the last modification that was seen. -/
def poll (lastStat : Option ℤ) (l : LocalResolver) (p : Poll) : Option ℤ × LocalResolver :=
  match p.modTime with
  | none => (lastStat, l)
  | some modTime =>
    (some modTime, if lastStat = some modTime then l else l.rebuild p.fileData)

/-- The turns of the loop of `Start`. -/
def polls (l : LocalResolver) (ps : List Poll) : Option ℤ × LocalResolver :=
  ps.foldl (fun s p => poll s.1 s.2 p) (none, l)

/-- What is read in the turns that rebuild the map. -/
def reads : Option ℤ → List Poll → List (Option Str)
  | _, [] => []
  | lastStat, p :: ps =>
    match p.modTime with
    | none => reads lastStat ps
    | some modTime =>
      if lastStat = some modTime then reads (some modTime) ps
      else p.fileData :: reads (some modTime) ps

/-- **The loop of `Start` is a sequence of rebuilds.** -/
theorem polls_eq (l : LocalResolver) (ps : List Poll) :
    (l.polls ps).2 = (reads none ps).foldl rebuild l := by
  have hloop : ∀ (lastStat : Option ℤ) (l : LocalResolver),
      (ps.foldl (fun s p => poll s.1 s.2 p) (lastStat, l)).2 =
        (reads lastStat ps).foldl rebuild l := by
    induction ps with
    | nil => exact fun _ _ => rfl
    | cons p ps ih =>
      intro lastStat l
      rw [List.foldl_cons, ih]
      cases hmod : p.modTime with
      | none => simp [poll, reads, hmod]
      | some modTime => by_cases h : lastStat = some modTime <;> simp [poll, reads, hmod, h]
  exact hloop none l

/-! ### The answers -/

end LocalResolver

/-- The address of the last line with a host, empty when there is none. -/
def lastIP (records : List (Str × Str)) (host : Str) : Str := (records.reverse.lookup host).getD []

/-- The hosts and addresses that have been read: those of one file after the other. -/
def readRecords (reads : List (Option Str)) : List (Str × Str) :=
  reads.flatMap fun fileData => fileData.elim [] hostRecords

/-- A host is found when some record names it. -/
lemma lookup_reverse_ne_none_iff {records : List (Str × Str)} {host : Str} :
    records.reverse.lookup host ≠ none ↔ ∃ r ∈ records, r.1 = host := by
  rw [Option.ne_none_iff_isSome, List.lookup_isSome_iff]
  simp only [List.mem_reverse, beq_iff_eq, eq_comm (a := host)]

/-- A line in the later records counts before those in the earlier ones. -/
lemma lastIP_append (earlier records : List (Str × Str)) (host : Str) :
    lastIP (earlier ++ records) host =
      if ∃ r ∈ records, r.1 = host then lastIP records host else lastIP earlier host := by
  unfold lastIP
  rw [List.reverse_append, List.lookup_append]
  cases h : records.reverse.lookup host with
  | some ip =>
    rw [if_pos (lookup_reverse_ne_none_iff.mp (by simp [h]))]
    rfl
  | none =>
    rw [if_neg fun hmem => lookup_reverse_ne_none_iff.mpr hmem h]
    rfl

namespace LocalResolver

/-- All records of all reads are inserted, one after the other. -/
lemma foldl_rebuild_map (reads : List (Option Str)) (l : LocalResolver) :
    (reads.foldl rebuild l).map =
      (readRecords reads).foldl (fun map r => map.insert r.1 r.2) l.map := by
  induction reads generalizing l with
  | nil => rfl
  | cons fileData reads ih =>
    rw [List.foldl_cons, ih]
    unfold readRecords
    rw [List.flatMap_cons, List.foldl_append]
    cases fileData <;> rfl

/-- **The answer is that of all files that have been read**, one after the other. -/
theorem get_foldl_rebuild (path : Str) (reads : List (Option Str)) (host : Str) :
    (reads.foldl rebuild (new path)).get host = lastIP (readRecords reads) host := by
  unfold get index lastIP
  rw [foldl_rebuild_map, AList.lookup_foldl_insert]
  simp [new]

/-- **The answers are those of the current file** after each rebuild that has read one: the address
of the last line with the host, and nothing when there is no such line. -/
def AnswersCurrent (path : Str) (reads : List (Option Str)) : Prop :=
  ∀ earlier fileData later, reads = earlier ++ some fileData :: later → ∀ host,
    ((earlier ++ [some fileData]).foldl rebuild (new path)).get host =
      lastIP (hostRecords fileData) host

/-- No host is dropped: a host that has an address by the earlier files has a line in each later
one. -/
def DropsNoHost (reads : List (Option Str)) : Prop :=
  ∀ earlier fileData later, reads = earlier ++ some fileData :: later → ∀ host,
    lastIP (readRecords earlier) host ≠ [] → ∃ r ∈ hostRecords fileData, r.1 = host

/-- The answer after a file has been read. -/
lemma get_rebuild (path : Str) (earlier : List (Option Str)) (fileData host : Str) :
    ((earlier ++ [some fileData]).foldl rebuild (new path)).get host =
      if ∃ r ∈ hostRecords fileData, r.1 = host then lastIP (hostRecords fileData) host
      else lastIP (readRecords earlier) host := by
  rw [get_foldl_rebuild, readRecords, List.flatMap_append, ← readRecords, ← lastIP_append]
  simp

/-- A host that no record names has no address. -/
lemma lastIP_eq_nil {records : List (Str × Str)} {host : Str}
    (h : ¬ ∃ r ∈ records, r.1 = host) : lastIP records host = [] := by
  have hnone : records.reverse.lookup host = none :=
    not_not.mp fun hne => h (lookup_reverse_ne_none_iff.mp hne)
  rw [lastIP, hnone]
  rfl

/-- **When the answers are those of the current file**: exactly when no host is dropped from the
file while it has an address.

**Proof sketch.** A host with a line in the file has the answer of that line (`get_rebuild`); one
without keeps the answer of the earlier files, which should be empty. -/
theorem answersCurrent_iff (path : Str) (reads : List (Option Str)) :
    AnswersCurrent path reads ↔ DropsNoHost reads := by
  refine forall_congr' fun earlier => forall_congr' fun fileData => forall_congr' fun later =>
    imp_congr_right fun _ => forall_congr' fun host => ?_
  rw [get_rebuild]
  by_cases hline : ∃ r ∈ hostRecords fileData, r.1 = host
  · rw [if_pos hline]
    exact iff_of_true rfl fun _ => hline
  · rw [if_neg hline, lastIP_eq_nil hline]
    constructor
    · exact fun hnil hne => absurd hnil hne
    · exact fun himp => not_not.mp fun hne => hline (himp hne)

/-- A file with a line for a service, and then one where the service is gone. -/
def removedService : List (Option Str) := [some "10.62.0.2\techo\n".toList, some []]

/-- **The answers are not those of the current file in general**: a service that is gone from the
file keeps its address. -/
theorem not_answersCurrent : ¬ ∀ path reads, AnswersCurrent path reads := by
  intro h
  have hecho := h [] removedService [some "10.62.0.2\techo\n".toList] [] [] rfl "echo".toList
  exact absurd hecho (by decide)

end LocalResolver

end Fecore
