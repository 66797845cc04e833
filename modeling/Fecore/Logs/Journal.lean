import Mathlib.Tactic.Common
import Fecore.Data.Decimal
import Fecore.Data.Words
import Fecore.Handlers.Policies

set_option relaxedAutoImplicit false
set_option autoImplicit false

/-!
# The logs of the functions

What the containers write is sent to the journal under an identifier (`logStdio` of
`cmd/collect.go`), and a request for logs runs `journalctl` for an identifier and parses the entries
that it prints (`pkg/logs/requestor.go`). `journalctl --identifier` selects the entries whose
`SYSLOG_IDENTIFIER` is exactly what it is given.

## Main definitions

* `Fecore.logStdio` — the fields that the lines of a container are sent with.
* `Fecore.buildCmd`, `Fecore.parseEntry` — the arguments of `journalctl`, and an entry as a message.
* `Fecore.LogsFound` — a request finds the lines of a replica, under the name of the function.
* `Fecore.EntryFields` — what a well-formed entry says.
* `Fecore.ParsesExactly` — what `parseEntry` is for.
* `Fecore.TimestampFits` — the time of the entry is a time in nanoseconds of 64 bits.

## Main results

* `Fecore.mem_buildCmd_iff` — the one identifier that is asked for.
* `Fecore.parseEntry_eq_ok_iff` — which entries are parsed, and as which messages.
* `Fecore.parsesExactly_iff` — when an entry is parsed exactly.
* `Fecore.not_logsFound` — the lines of a native replica are never found.
-/

namespace Fecore

/-! ### The writer -/

/-- `logging.Config`, of which the two streams are left out. -/
structure LoggingConfig where
  namespace_ : Str
  id : Str
deriving DecidableEq

/-- The field that holds the identifier. -/
def syslogIdentifier : Str := "SYSLOG_IDENTIFIER".toList

/-- `logStdio`: the variables that each line is sent with. -/
def logStdio (config : LoggingConfig) : GoMap Str :=
  (∅ : GoMap Str).insert syslogIdentifier (config.namespace_ ++ ':' :: config.id)

/-- The container that `createNativeReplica` makes for a function, as its logger is told. -/
def nativeLogging (f : Function) (uuid : Str) : LoggingConfig :=
  { namespace_ := f.namespace_, id := nativeName f.name uuid }

/-! ### The reader -/

/-- `logs.Request`, of which `buildCmd` reads no other fields. -/
structure LogsRequest where
  name : Str := []
  namespace_ : Str := []
  since : Option Time := none
  tail : ℤ := 0
  follow : Bool := false

/-- The decimal digits of `x`, at least `width` of them. -/
def appendInt (x : ℤ) (width : ℕ) : Str :=
  (if x < 0 then ['-'] else []) ++ (itoa x.natAbs).leftpad width '0'

/-- The year, the month and the day of a number of days since 1970-01-01. -/
def civilDate (days : ℤ) : ℤ × ℤ × ℤ :=
  let z := days + 719468
  let era := z / 146097
  let dayOfEra := z % 146097
  let yearOfEra := (dayOfEra - dayOfEra / 1460 + dayOfEra / 36524 - dayOfEra / 146096) / 365
  let dayOfYear := dayOfEra - (365 * yearOfEra + yearOfEra / 4 - yearOfEra / 100)
  -- the months are counted from March
  let month := (5 * dayOfYear + 2) / 153
  let day := dayOfYear - (153 * month + 2) / 5 + 1
  let month := if month < 10 then month + 3 else month - 9
  (yearOfEra + era * 400 + (if month ≤ 2 then 1 else 0), month, day)

/-- `t.UTC().Format("2006-01-02 15:04:05")` -/
def formatUTC (t : Time) : Str :=
  let seconds := t / 1000000000
  let (year, month, day) := civilDate (seconds / 86400)
  let seconds := seconds % 86400
  appendInt year 4 ++ '-' :: appendInt month 2 ++ '-' :: appendInt day 2 ++ ' ' ::
    appendInt (seconds / 3600) 2 ++ ':' :: appendInt (seconds / 60 % 60) 2 ++ ':' ::
    appendInt (seconds % 60) 2

/-- `buildCmd`: the arguments of `journalctl`. The clock is read twice. -/
def buildCmd (now now' : Time) (req : LogsRequest) : List Str :=
  let since := now - 5 * 60 * 1000000000
  let since :=
    match req.since with
    | some t => if t < now' then t else since
    | none => since
  let namespace_ := if req.namespace_ = [] then defaultFunctionNamespace else req.namespace_
  let args :=
    ["--utc".toList, "--no-pager".toList, "--output=json".toList,
      "--identifier=".toList ++ namespace_ ++ ':' :: req.name,
      "--since=".toList ++ formatUTC since]
  let args := if req.follow then args ++ ["--follow".toList] else args
  if 0 < req.tail then args ++ ["--lines=".toList ++ appendInt req.tail 0] else args

/-- `logs.Message` -/
structure LogsMessage where
  name : Str := []
  namespace_ : Str := []
  instance_ : Str := []
  /-- in nanoseconds -/
  timestamp : Time := 0
  text : Str := []
deriving DecidableEq

/-- `strconv.NumError` -/
structure NumError where
  func : Str
  num : Str
  /-- out of range, and not a matter of syntax -/
  range : Bool
deriving DecidableEq

/-- `strconv.ParseInt(s, 10, 64)` -/
def parseInt (s : Str) : Except NumError ℤ :=
  match atoi s with
  | some n => .ok n
  | none =>
    let digits :=
      match s with
      | '-' :: rest => rest
      | '+' :: rest => rest
      | _ => s
    .error ⟨"ParseInt".toList, s, digits ≠ [] && digits.all Char.isDigit⟩

/-- An error of `parseEntry`: a text, and the error it wraps. -/
structure ParseEntryError where
  text : Str
  wrapped : Option NumError := none
deriving DecidableEq

/-- `parseEntry` -/
def parseEntry (entry : GoMap Str) : Except ParseEntryError LogsMessage :=
  let logMsg : LogsMessage :=
    { text := index entry "MESSAGE".toList, instance_ := index entry "_PID".toList }
  match (index entry syslogIdentifier).splitOn ':' with
  | [namespace_, name] =>
    let logMsg := { logMsg with namespace_ := namespace_, name := name }
    match entry.lookup "__REALTIME_TIMESTAMP".toList with
    | none => .error ⟨"missing required field __REALTIME_TIMESTAMP".toList, none⟩
    | some ts =>
      match parseInt ts with
      | .error err => .error ⟨"invalid timestamp: ".toList, some err⟩
      -- the multiplication wraps around
      | .ok ms => .ok { logMsg with timestamp := (ms * 1000).bmod 18446744073709551616 }
  | _ => .error ⟨"invalid SYSLOG_IDENTIFIER".toList, none⟩

/-- The request asks `journalctl` for the identifier that the lines of the container are sent
with. -/
def LogsRequest.Selects (now now' : Time) (req : LogsRequest) (config : LoggingConfig) : Prop :=
  "--identifier=".toList ++ index (logStdio config) syslogIdentifier ∈ buildCmd now now' req

/-- An entry of the journal that is sent from the container: the identifier is the one it is sent
with, whatever the other fields are. -/
def LoggingConfig.entry (config : LoggingConfig) (fields : GoMap Str) : GoMap Str :=
  fields.insert syslogIdentifier (index (logStdio config) syslogIdentifier)

/-- The entry is parsed as one of the function. -/
def ParsedAs (f : Function) (entry : GoMap Str) : Prop :=
  ∃ msg, parseEntry entry = .ok msg ∧ msg.namespace_ = f.namespace_ ∧ msg.name = f.name

/-- A request for the logs of a function. -/
def LogsRequest.of (req : LogsRequest) (f : Function) : LogsRequest :=
  { req with namespace_ := f.namespace_, name := f.name }

/-- **The request finds the lines of the replica**: it asks for their identifier, and they are
parsed as lines of the function. -/
structure LogsFound (now now' : Time) (req : LogsRequest) (f : Function) (uuid : Str)
    (fields : GoMap Str) : Prop where
  selected : (req.of f).Selects now now' (nativeLogging f uuid)
  parsed : ParsedAs f ((nativeLogging f uuid).entry fields)

/-! ### One identifier -/

/-- **The one identifier that is asked for.**

**Proof sketch.** The other arguments differ from it in their third letter. Split the options, and
cancel the beginning. -/
theorem mem_buildCmd_iff {now now' : Time} {req : LogsRequest} {ident : Str} :
    "--identifier=".toList ++ ident ∈ buildCmd now now' req ↔
      ident = (if req.namespace_ = [] then defaultFunctionNamespace else req.namespace_) ++
        ':' :: req.name := by
  -- the other arguments differ in their third letter
  have hthird : ∀ arg : Str, arg[2]? ≠ some 'i' → "--identifier=".toList ++ ident ≠ arg := by
    rintro _ harg rfl
    exact harg rfl
  have hutc := hthird "--utc".toList (by decide)
  have hpager := hthird "--no-pager".toList (by decide)
  have houtput := hthird "--output=json".toList (by decide)
  have hsince := fun t => hthird ("--since=".toList ++ t) (by simp)
  have hfollow := hthird "--follow".toList (by decide)
  have hlines := fun n => hthird ("--lines=".toList ++ n) (by simp)
  unfold buildCmd
  dsimp only
  split_ifs <;>
    simp only [List.mem_append, List.mem_cons, List.not_mem_nil, or_false, hutc, hpager, houtput,
      hsince, hfollow, hlines, false_or, List.append_assoc, List.append_cancel_left_eq]

/-! ### Entries -/

/-- **Which words `strconv.ParseInt` reads**: the numbers of 64 bits. -/
lemma parseInt_eq_ok_iff {s : Str} {n : ℤ} :
    parseInt s = .ok n ↔ Decimal.Numeral s n ∧ -2 ^ 63 ≤ n ∧ n < 2 ^ 63 := by
  rw [← atoi_eq_some_iff]
  unfold parseInt
  cases atoi s with
  | none => exact iff_of_false nofun nofun
  | some m => rw [Except.ok.injEq, Option.some.injEq]

/-- **What a well-formed entry says**: the two parts of the identifier, around its only colon, and
the number of 64 bits that is its timestamp. -/
structure EntryFields (entry : GoMap Str) (namespace_ name : Str) (t : ℤ) : Prop where
  identifier : index entry syslogIdentifier = namespace_ ++ ':' :: name
  namespace_notMem : ':' ∉ namespace_
  name_notMem : ':' ∉ name
  timestamp : ∃ ts, entry.lookup "__REALTIME_TIMESTAMP".toList = some ts ∧ Decimal.Numeral ts t
  le : -2 ^ 63 ≤ t
  lt : t < 2 ^ 63

/-- The message that `parseEntry` makes of these fields. -/
def parsedMessage (entry : GoMap Str) (namespace_ name : Str) (t : ℤ) : LogsMessage :=
  { name := name
    namespace_ := namespace_
    instance_ := index entry "_PID".toList
    timestamp := (t * 1000).bmod 18446744073709551616
    text := index entry "MESSAGE".toList }

section entries

variable {entry : GoMap Str} {namespace_ name : Str} {t : ℤ} {msg : LogsMessage}

/-- A well-formed entry is parsed. -/
lemma EntryFields.parseEntry_eq (h : EntryFields entry namespace_ name t) :
    parseEntry entry = .ok (parsedMessage entry namespace_ name t) := by
  obtain ⟨ts, hts, hnum⟩ := h.timestamp
  have hsplit := List.splitOn_eq_pair_iff.mpr ⟨h.identifier, h.namespace_notMem, h.name_notMem⟩
  simp only [parseEntry, hsplit, hts, parseInt_eq_ok_iff.mpr ⟨hnum, h.le, h.lt⟩, parsedMessage]

/-- An entry that is parsed is well formed. -/
lemma exists_entryFields (h : parseEntry entry = .ok msg) :
    ∃ namespace_ name t, EntryFields entry namespace_ name t := by
  unfold parseEntry at h
  dsimp only at h
  split at h
  · next namespace_ name hsplit =>
    obtain ⟨hident, hns, hname⟩ := List.splitOn_eq_pair_iff.mp hsplit
    split at h
    · cases h
    · next ts hts =>
      split at h
      · cases h
      · next t hparse =>
        obtain ⟨hnum, hle, hlt⟩ := parseInt_eq_ok_iff.mp hparse
        exact ⟨namespace_, name, t, hident, hns, hname, ⟨ts, hts, hnum⟩, hle, hlt⟩
  · cases h

/-- **Which entries are parsed**, and as which messages. -/
theorem parseEntry_eq_ok_iff :
    parseEntry entry = .ok msg ↔ ∃ namespace_ name t,
      EntryFields entry namespace_ name t ∧ msg = parsedMessage entry namespace_ name t := by
  constructor
  · intro h
    obtain ⟨namespace_, name, t, hfields⟩ := exists_entryFields h
    refine ⟨namespace_, name, t, hfields, ?_⟩
    rw [hfields.parseEntry_eq, Except.ok.injEq] at h
    exact h.symm
  · rintro ⟨namespace_, name, t, hfields, rfl⟩
    exact hfields.parseEntry_eq

/-- **What a parsed entry says is its identifier.** -/
theorem parseEntry_identifier (h : parseEntry entry = .ok msg) :
    index entry syslogIdentifier = msg.namespace_ ++ ':' :: msg.name := by
  obtain ⟨namespace_, name, t, hfields, rfl⟩ := parseEntry_eq_ok_iff.mp h
  exact hfields.identifier

end entries

/-! ### The time of an entry -/

/-- **What `parseEntry` is for**: an entry is parsed when its identifier has one colon and its
timestamp is there and is a number of 64 bits, and the message has the two parts of the identifier
and the time of as many microseconds. -/
structure ParsesExactly (entry : GoMap Str) : Prop where
  succeeds : (∃ msg, parseEntry entry = .ok msg) ↔
    (index entry syslogIdentifier).count ':' = 1 ∧
      ∃ (ts : Str) (t : ℤ), entry.lookup "__REALTIME_TIMESTAMP".toList = some ts ∧
        Decimal.Numeral ts t ∧ -2 ^ 63 ≤ t ∧ t < 2 ^ 63
  message : ∀ namespace_ name t msg, EntryFields entry namespace_ name t →
    parseEntry entry = .ok msg →
      msg.namespace_ = namespace_ ∧ msg.name = name ∧ msg.timestamp = 1000 * t

/-- The timestamp of a well-formed entry is a time in nanoseconds of 64 bits. -/
def TimestampFits (entry : GoMap Str) : Prop :=
  ∀ namespace_ name t, EntryFields entry namespace_ name t →
    -9223372036854775 ≤ t ∧ t ≤ 9223372036854775

/-- A well-formed entry, as a count of colons and a timestamp.

**Proof sketch.** Left to right, the identifier is two words without colons, with one between them.
Right to left, split it at its one colon. -/
lemma exists_entryFields_iff {entry : GoMap Str} :
    (∃ namespace_ name t, EntryFields entry namespace_ name t) ↔
      (index entry syslogIdentifier).count ':' = 1 ∧
        ∃ (ts : Str) (t : ℤ), entry.lookup "__REALTIME_TIMESTAMP".toList = some ts ∧
          Decimal.Numeral ts t ∧ -2 ^ 63 ≤ t ∧ t < 2 ^ 63 := by
  constructor
  · rintro ⟨namespace_, name, t, h⟩
    obtain ⟨ts, hts, hnum⟩ := h.timestamp
    refine ⟨?_, ts, t, hts, hnum, h.le, h.lt⟩
    rw [h.identifier, List.count_append, List.count_cons_self,
      List.count_eq_zero_of_not_mem h.namespace_notMem,
      List.count_eq_zero_of_not_mem h.name_notMem]
  · rintro ⟨hcount, ts, t, hts, hnum, hle, hlt⟩
    have hlen := List.length_splitOn ':' (index entry syslogIdentifier)
    rw [hcount] at hlen
    obtain ⟨namespace_, name, hsplit⟩ := List.length_eq_two.mp hlen
    obtain ⟨hident, hns, hname⟩ := List.splitOn_eq_pair_iff.mp hsplit
    exact ⟨namespace_, name, t, hident, hns, hname, ⟨ts, hts, hnum⟩, hle, hlt⟩

/-- The microseconds that are exact in nanoseconds of 64 bits. -/
lemma bmod_mul_thousand_eq_iff {t : ℤ} :
    (t * 1000).bmod 18446744073709551616 = 1000 * t ↔
      -9223372036854775 ≤ t ∧ t ≤ 9223372036854775 := by
  rw [Int.bmod_eq_iff (by decide), mul_comm, sub_self]
  constructor
  · rintro ⟨hle, hlt, -⟩
    constructor <;> omega
  · rintro ⟨hle, hle'⟩
    exact ⟨by omega, by omega, dvd_zero _⟩

/-- **When an entry is parsed exactly**: when its timestamp is not too far from the epoch, or is not
there.

**Proof sketch.** Which entries are parsed does not depend on the multiplication. It is exact up to
the largest number of microseconds that has 64 bits in nanoseconds, and wraps around behind it. -/
theorem parsesExactly_iff (entry : GoMap Str) : ParsesExactly entry ↔ TimestampFits entry := by
  constructor
  · intro h namespace_ name t hfields
    obtain ⟨-, -, htime⟩ := h.message _ _ _ _ hfields hfields.parseEntry_eq
    exact bmod_mul_thousand_eq_iff.mp htime
  · intro h
    constructor
    · rw [← exists_entryFields_iff]
      constructor
      · rintro ⟨msg, hmsg⟩
        exact exists_entryFields hmsg
      · rintro ⟨namespace_, name, t, hfields⟩
        exact ⟨_, hfields.parseEntry_eq⟩
    · intro namespace_ name t msg hfields hmsg
      rw [hfields.parseEntry_eq, Except.ok.injEq] at hmsg
      subst hmsg
      exact ⟨rfl, rfl, bmod_mul_thousand_eq_iff.mpr (h _ _ _ hfields)⟩

/-- An entry at the largest number of 64 bits. -/
def lastEntry : GoMap Str :=
  ((∅ : GoMap Str).insert syslogIdentifier "openfaas-fn:nodeinfo".toList).insert
    "__REALTIME_TIMESTAMP".toList "9223372036854775807".toList

/-- The entry is well formed, and its time is before the epoch.

**Proof sketch.** The timestamp is the largest of the 64-bit integers. Its product with 1000 wraps
to a negative number, so the time is not that of the entry. -/
theorem not_parsesExactly :
    EntryFields lastEntry "openfaas-fn".toList "nodeinfo".toList 9223372036854775807 ∧
      (parseEntry lastEntry).toOption =
        some { name := "nodeinfo".toList, namespace_ := "openfaas-fn".toList, timestamp := -1000 } ∧
      ¬ ParsesExactly lastEntry := by
  have hfields : EntryFields lastEntry "openfaas-fn".toList "nodeinfo".toList
      9223372036854775807 := by
    have hdigits : Decimal.Digits "9223372036854775807".toList :=
      ⟨by decide, List.all_eq_true.mp (by decide)⟩
    have hvalue : Nat.ofDigitChars 10 "9223372036854775807".toList 0 = 9223372036854775807 := by
      decide +kernel
    have hnum := Decimal.Numeral.plain hdigits
    rw [hvalue] at hnum
    exact ⟨by decide +kernel, by decide, by decide, ⟨_, by decide +kernel, hnum⟩,
      by decide, by decide⟩
  refine ⟨hfields, by decide +kernel, fun h => ?_⟩
  obtain ⟨-, -, htime⟩ := h.message _ _ _ _ hfields hfields.parseEntry_eq
  exact absurd htime (by decide)

/-! ### The replicas -/

/-- A value that is put under a key is found there. -/
lemma index_insert (m : GoMap Str) (k v : Str) : index (m.insert k v) k = v := by
  rw [index, AList.lookup_insert, Option.getD_some]

/-- What the lines of a replica are sent with. -/
lemma index_logStdio (f : Function) (uuid : Str) :
    index (logStdio (nativeLogging f uuid)) syslogIdentifier =
      f.namespace_ ++ ':' :: nativeName f.name uuid := by
  rw [logStdio, index_insert]
  rfl

/-- The name of a replica is longer than that of its function. -/
lemma nativeName_length (name uuid : Str) : name.length < (nativeName name uuid).length := by
  simp [nativeName]

/-- The identifier is not the namespace and the name of the function. -/
lemma logStdio_ne (f : Function) (uuid : Str) :
    index (logStdio (nativeLogging f uuid)) syslogIdentifier ≠ f.namespace_ ++ ':' :: f.name := by
  rw [index_logStdio]
  intro h
  have hlen := congrArg List.length h
  have hlt := nativeName_length f.name uuid
  simp only [List.length_append, List.length_cons] at hlen
  omega

/-- **The lines of a native replica are never found**: no request for its function asks for the
identifier that they are sent with, and no entry with this identifier is parsed as one of the
function.

**Proof sketch.** The identifier ends in the name of the container, which is longer than the name of
the function. -/
theorem not_logsFound (f : Function) (uuid : Str) (now now' : Time) (req : LogsRequest)
    (fields : GoMap Str) :
    ¬ LogsFound now now' req f uuid fields ∧
      ¬ (req.of f).Selects now now' (nativeLogging f uuid) ∧
      ¬ ParsedAs f ((nativeLogging f uuid).entry fields) := by
  have hselects : ¬ (req.of f).Selects now now' (nativeLogging f uuid) := by
    intro h
    have hident := mem_buildCmd_iff.mp h
    by_cases hns : f.namespace_ = []
    · -- the default namespace does not begin with a colon
      have hdefault : defaultFunctionNamespace = 'f' :: "aasedge-fn".toList := by decide
      rw [index_logStdio, LogsRequest.of, if_pos hns, hns, hdefault] at hident
      exact absurd (List.cons.inj hident).1 (by decide)
    · rw [LogsRequest.of, if_neg hns] at hident
      exact logStdio_ne f uuid hident
  refine ⟨fun h => hselects h.selected, hselects, ?_⟩
  rintro ⟨msg, hmsg, hns, hname⟩
  have hident := parseEntry_identifier hmsg
  rw [hns, hname] at hident
  refine logStdio_ne f uuid ?_
  rw [← hident, LoggingConfig.entry, index_insert]

/-- The function `echo` in the default namespace. -/
def echo : Function :=
  { name := "echo".toList, namespace_ := defaultFunctionNamespace, image := "echo".toList }

/-- A line of a replica of `echo`: the query asks for another identifier, and the line is parsed as
one of a function that does not exist. -/
theorem echo_logs_lost :
    buildCmd 0 0 (LogsRequest.of {} echo) =
        ["--utc".toList, "--no-pager".toList, "--output=json".toList,
          "--identifier=faasedge-fn:echo".toList, "--since=1969-12-31 23:55:00".toList] ∧
      index (logStdio (nativeLogging echo "1".toList)) syslogIdentifier =
        "faasedge-fn:echo_1_n".toList ∧
      (parseEntry ((nativeLogging echo "1".toList).entry
          ((∅ : GoMap Str).insert "__REALTIME_TIMESTAMP".toList "5".toList))).toOption =
        some { name := "echo_1_n".toList, namespace_ := defaultFunctionNamespace,
               timestamp := 5000 } ∧
      ¬ LogsFound 0 0 {} echo "1".toList
        ((∅ : GoMap Str).insert "__REALTIME_TIMESTAMP".toList "5".toList) := by
  refine ⟨by decide +kernel, by decide +kernel, by decide +kernel, fun h => ?_⟩
  have hident := mem_buildCmd_iff.mp h.selected
  exact absurd hident (by decide +kernel)

end Fecore
