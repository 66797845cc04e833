import Mathlib.Data.List.TakeWhile
import Mathlib.Tactic.Common
import Fecore.Data.Lines
import Fecore.Logs.Journal

set_option relaxedAutoImplicit false
set_option autoImplicit false

/-!
# The lines that are sent to the journal

`copy` of `cmd/collect.go` reads what a container writes to one of its streams with a
`bufio.Scanner` and sends each line to the journal. The scanner has a buffer of at most 64 KiB, and
stops where it is full without a line in it.

## Main definitions

* `Fecore.Reader` — the stream, and how much of it the reads return.
* `Fecore.Scanner.scan` — the scanner over lines, with its buffer.
* `Fecore.copy` — the entries that are sent, and the scanner in the end.
* `Fecore.SendsEveryLine` — every line is sent, and the stream is read to its end.

## Main results

* `Fecore.copyLoop_fst` — the lines that are sent, for any way in which the reads go.
* `Fecore.sendsEveryLine_iff` — when every line is sent.
-/

namespace Fecore

/-! ### The reader and the scanner -/

/-- `io.Reader` over a stream: what is still to be read, the numbers of bytes that the next reads
find, and the error that the stream ends with, which is none for `io.EOF`. -/
structure Reader where
  data : List UInt8
  sizes : List ℕ := []
  err : Option Str := none

/-- `Read` into a buffer that has `space` bytes left, while there is data: one byte at least. -/
def Reader.read (r : Reader) (space : ℕ) : List UInt8 × Reader :=
  let n := min space (max 1 (r.sizes.headD space))
  (r.data.take n, { r with data := r.data.drop n, sizes := r.sizes.tail })

/-- `bufio.MaxScanTokenSize` -/
def maxScanTokenSize : ℕ := 64 * 1024

/-- The byte that ends a line. -/
def newline : UInt8 := 10

/-- `dropCR`, which takes a carriage return off the end of a line. -/
def dropCR (data : List UInt8) : List UInt8 :=
  if data.getLast? = some 13 then data.dropLast else data

/-- The errors of a scanner. -/
inductive ScanError
  | errTooLong
  | read (err : Str)
deriving DecidableEq

/-- `bufio.Scanner` with `bufio.ScanLines`. -/
structure Scanner where
  /-- what is read and not yet scanned -/
  buf : List UInt8 := []
  r : Reader
  /-- `Err()`, which is nil for `io.EOF` -/
  err : Option ScanError := none

/-- `Scan`: the text of the next token, none for the end, and the scanner after the call. -/
def Scanner.scan (s : Scanner) : Option (List UInt8) × Scanner :=
  match Lines.firstLine newline s.buf with
  | some (line, rest) => (some (dropCR line), { s with buf := rest })
  | none =>
    if maxScanTokenSize ≤ s.buf.length then (none, { s with err := some .errTooLong })
    else if s.r.data = [] then
      -- at the end the rest is the last token
      (if s.buf = [] then none else some (dropCR s.buf),
        { s with buf := [], err := s.r.err.map .read })
    else
      let read := s.r.read (maxScanTokenSize - s.buf.length)
      Scanner.scan { s with buf := s.buf ++ read.1, r := read.2 }
termination_by s.r.data.length
decreasing_by
  have hpos : 0 < s.r.data.length := List.length_pos_iff.mpr (by assumption)
  simp only [Reader.read, List.length_drop]
  omega

/-- The bytes that a scanner has not scanned. -/
def Scanner.total (s : Scanner) : List UInt8 := s.buf ++ s.r.data

/-! ### The calls of a scanner -/

namespace Scanner

/-- A scanner with a line in its buffer. -/
lemma scan_of_line {s : Scanner} {line rest : List UInt8}
    (h : Lines.firstLine newline s.buf = some (line, rest)) :
    s.scan = (some (dropCR line), { s with buf := rest }) := by
  rw [scan, h]

/-- A scanner with a full buffer and no line in it. -/
lemma scan_of_full {s : Scanner} (h : Lines.firstLine newline s.buf = none)
    (hfull : maxScanTokenSize ≤ s.buf.length) :
    s.scan = (none, { s with err := some .errTooLong }) := by
  rw [scan, h]
  exact if_pos hfull

/-- A scanner at the end of its stream. -/
lemma scan_of_end {s : Scanner} (h : Lines.firstLine newline s.buf = none)
    (hfull : ¬ maxScanTokenSize ≤ s.buf.length) (hdata : s.r.data = []) :
    s.scan = (if s.buf = [] then none else some (dropCR s.buf),
      { s with buf := [], err := s.r.err.map .read }) := by
  rw [scan, h]
  dsimp only
  rw [if_neg hfull, if_pos hdata]

/-- **The reads of a call**: they go on until there is a line in the buffer, the buffer is full, or
the stream has ended.

**Proof sketch.** Induct on what is left in the stream. A call with no line in a buffer that is not
full reads something, and goes on with less left. -/
lemma exists_read (s : Scanner) :
    ∃ t : Scanner, s.scan = t.scan ∧ t.total = s.total ∧ t.err = s.err ∧ t.r.err = s.r.err ∧
      (s.buf.length ≤ maxScanTokenSize → t.buf.length ≤ maxScanTokenSize) ∧
      (Lines.firstLine newline t.buf ≠ none ∨ maxScanTokenSize ≤ t.buf.length ∨
        t.r.data = []) := by
  induction hlen : s.r.data.length using Nat.strongRecOn generalizing s with
  | ind n ih =>
    by_cases hline : Lines.firstLine newline s.buf = none
    · by_cases hfull : maxScanTokenSize ≤ s.buf.length
      · exact ⟨s, rfl, rfl, rfl, rfl, id, .inr (.inl hfull)⟩
      · by_cases hdata : s.r.data = []
        · exact ⟨s, rfl, rfl, rfl, rfl, id, .inr (.inr hdata)⟩
        · let read := s.r.read (maxScanTokenSize - s.buf.length)
          have hstep : s.scan = scan { s with buf := s.buf ++ read.1, r := read.2 } := by
            rw [scan, hline]
            dsimp only
            rw [if_neg hfull, if_neg hdata]
          have hpos : 0 < s.r.data.length := List.length_pos_iff.mpr hdata
          have hlt : read.2.data.length < n := by
            simp only [read, Reader.read, List.length_drop]
            omega
          have htotal : read.1 ++ read.2.data = s.r.data := List.take_append_drop _ _
          have hspace : read.1.length ≤ maxScanTokenSize - s.buf.length := by
            simp only [read, Reader.read, List.length_take]
            omega
          obtain ⟨t, hscan, heq, herr, hrerr, hbuf, hcase⟩ := ih _ hlt
            { s with buf := s.buf ++ read.1, r := read.2 } rfl
          refine ⟨t, hstep.trans hscan, ?_, herr, hrerr, fun hle => hbuf ?_, hcase⟩
          · rw [heq]
            simp only [total, List.append_assoc, htotal]
          · rw [List.length_append]
            omega
    · exact ⟨s, rfl, rfl, rfl, rfl, id, .inl hline⟩

/-- **A line that fits in the buffer** is the next token.

**Proof sketch.** After the reads of the call (`Scanner.exists_read`) there is a line in the buffer,
which is the first one of all that is left; or the buffer is full or the stream at its end, where a
line that fits would have been found. -/
lemma scan_line {s : Scanner} {line rest : List UInt8} (hline : newline ∉ line)
    (hlen : line.length < maxScanTokenSize) (htotal : s.total = line ++ newline :: rest) :
    ∃ t, s.scan = (some (dropCR line), t) ∧ t.total = rest ∧ t.err = s.err ∧
      t.r.err = s.r.err ∧ (s.buf.length ≤ maxScanTokenSize → t.buf.length ≤ maxScanTokenSize) := by
  obtain ⟨t, hscan, heq, herr, hrerr, hbuf, hcase⟩ := s.exists_read
  rw [htotal] at heq
  cases hfirst : Lines.firstLine newline t.buf with
  | some found =>
    obtain ⟨line', rest'⟩ := found
    obtain ⟨htbuf, hline'⟩ := Lines.firstLine_eq_some hfirst
    have hsame : some (line, rest) = some (line', rest' ++ t.r.data) := by
      rw [← Lines.firstLine_append_cons hline rest,
        ← Lines.firstLine_append_cons hline' (rest' ++ t.r.data), ← heq, total, htbuf,
        List.append_assoc, List.cons_append]
    obtain ⟨rfl, rfl⟩ := Prod.mk.inj (Option.some.inj hsame)
    refine ⟨_, hscan.trans (scan_of_line hfirst), rfl, herr, hrerr, fun hle => ?_⟩
    have hle' := hbuf hle
    rw [htbuf, List.length_append, List.length_cons] at hle'
    change rest'.length ≤ maxScanTokenSize
    omega
  | none =>
    have hno := Lines.notMem_of_firstLine hfirst
    exfalso
    rcases hcase with hsome | hfull | hdata
    · exact hsome hfirst
    · -- a full buffer would reach beyond the line
      rcases List.append_eq_append_iff.mp heq with ⟨more, hmore, -⟩ | ⟨more, hmore, hrest⟩
      · have hlen' := congrArg List.length hmore
        rw [List.length_append] at hlen'
        omega
      · cases more with
        | nil =>
          rw [hmore, List.append_nil] at hfull
          omega
        | cons b more =>
          obtain rfl : newline = b := (List.cons.inj hrest).1
          exact hno (hmore ▸ by simp)
    · rw [total, hdata, List.append_nil] at heq
      exact hno (heq ▸ by simp)

/-- The rest of the stream, without a line end, is the last token if it fits in the buffer. -/
lemma scan_last {s : Scanner} (hline : newline ∉ s.total)
    (hlen : s.total.length < maxScanTokenSize) :
    ∃ t, s.scan = (if s.total = [] then none else some (dropCR s.total), t) ∧ t.total = [] ∧
      t.err = s.r.err.map .read ∧ t.r.err = s.r.err := by
  obtain ⟨t, hscan, heq, herr, hrerr, -, hcase⟩ := s.exists_read
  have hfirst : Lines.firstLine newline t.buf = none :=
    Lines.firstLine_of_notMem fun hmem => hline (heq ▸ List.mem_append_left _ hmem)
  have hfull : ¬ maxScanTokenSize ≤ t.buf.length := by
    rw [← heq, total, List.length_append] at hlen
    omega
  have hdata : t.r.data = [] := (hcase.resolve_left (not_not.mpr hfirst)).resolve_left hfull
  have hbuf : t.buf = s.total := by rw [← heq, total, hdata, List.append_nil]
  have hend := scan_of_end hfirst hfull hdata
  rw [hbuf, hrerr] at hend
  exact ⟨_, hscan.trans hend, hdata, rfl, hrerr⟩

/-- **A line that does not fit in the buffer** stops the scanner.

**Proof sketch.** After the reads of the call (`Scanner.exists_read`) the buffer is a part of the
line, so it has no line in it; it is full, since the stream is not at its end. -/
lemma scan_long {s : Scanner} {line rest : List UInt8} (hline : newline ∉ line)
    (hlen : maxScanTokenSize ≤ line.length) (htotal : s.total = line ++ rest)
    (hbuf : s.buf.length ≤ maxScanTokenSize) : s.scan.1 = none := by
  obtain ⟨t, hscan, heq, -, -, hle, hcase⟩ := s.exists_read
  rw [htotal] at heq
  have hfirst : Lines.firstLine newline t.buf = none := by
    refine Lines.firstLine_of_notMem fun hmem => ?_
    rcases List.append_eq_append_iff.mp heq with ⟨more, hmore, -⟩ | ⟨more, hmore, -⟩
    · exact hline (hmore ▸ List.mem_append_left more hmem)
    · have hlen' := congrArg List.length hmore
      rw [List.length_append] at hlen'
      have hmax := hle hbuf
      obtain rfl : more = [] := List.eq_nil_of_length_eq_zero (by omega)
      rw [hmore, List.append_nil] at hmem
      exact hline hmem
  have hfull : maxScanTokenSize ≤ t.buf.length := by
    rcases hcase with hsome | hfull | hdata
    · exact absurd hfirst hsome
    · exact hfull
    · rw [total, hdata, List.append_nil] at heq
      rw [heq, List.length_append]
      omega
  rw [hscan, scan_of_full hfirst hfull]

/-- A token takes something off the stream.

**Proof sketch.** A token is a line with its newline, or what is left at the end of the stream,
which is not empty. -/
lemma total_lt_of_scan {s t : Scanner} {text : List UInt8} (h : s.scan = (some text, t)) :
    t.total.length < s.total.length := by
  obtain ⟨u, hscan, heq, -, -, -, hcase⟩ := s.exists_read
  rw [hscan] at h
  rw [← heq]
  cases hfirst : Lines.firstLine newline u.buf with
  | some found =>
    rw [scan_of_line hfirst] at h
    obtain ⟨htbuf, -⟩ := Lines.firstLine_eq_some hfirst
    obtain ⟨-, rfl⟩ := Prod.mk.inj h
    simp only [total, htbuf, List.length_append, List.length_cons]
    omega
  | none =>
    by_cases hfull : maxScanTokenSize ≤ u.buf.length
    · rw [scan_of_full hfirst hfull] at h
      nomatch h
    · have hdata : u.r.data = [] :=
        (hcase.resolve_left (not_not.mpr hfirst)).resolve_left hfull
      rw [scan_of_end hfirst hfull hdata] at h
      obtain ⟨htext, rfl⟩ := Prod.mk.inj h
      have hne : u.buf ≠ [] := by
        rintro hnil
        rw [if_pos hnil] at htext
        nomatch htext
      simp only [total, hdata, List.append_nil, List.length_nil]
      exact List.length_pos_iff.mpr hne

end Scanner

/-! ### The loop -/

/-- `journal.Priority` -/
inductive Priority
  | priEmerg
  | priAlert
  | priCrit
  | priErr
  | priWarning
  | priNotice
  | priInfo
  | priDebug
deriving DecidableEq

/-- What `journal.Send` is called with. -/
structure SentEntry where
  message : List UInt8
  priority : Priority
  vars : GoMap Str

/-- The loop of `copy`: the entries that are sent, and the scanner in the end. -/
def copyLoop (pri : Priority) (vars : GoMap Str) (s : Scanner) : List SentEntry × Scanner :=
  match _h : s.scan with
  | (none, s) => ([], s)
  | (some text, s) =>
    if s.err ≠ none then ([], s)
    else
      let copied := copyLoop pri vars s
      (⟨text, pri, vars⟩ :: copied.1, copied.2)
termination_by s.total.length
decreasing_by exact Scanner.total_lt_of_scan _h

/-- `copy` -/
def copy (r : Reader) (pri : Priority) (vars : GoMap Str) : List SentEntry × Scanner :=
  copyLoop pri vars { r := r }

/-- The line fits in the buffer of a scanner, with its end. -/
def fits (line : List UInt8) : Bool := decide (line.length < maxScanTokenSize)

/-- **Every line is sent**, once and in order, and the stream is read to its end. -/
def SendsEveryLine (r : Reader) (pri : Priority) (vars : GoMap Str) : Prop :=
  (copy r pri vars).1 =
      (Lines.lines newline r.data).map (fun line => ⟨dropCR line, pri, vars⟩) ∧
    (copy r pri vars).2.r.data = []

section Loop

variable {pri : Priority} {vars : GoMap Str} {s t : Scanner}

/-- The loop ends where the scanner has no line. -/
lemma copyLoop_of_none (h : s.scan = (none, t)) : copyLoop pri vars s = ([], t) := by
  rw [copyLoop]
  split
  next _ heq =>
    rw [h] at heq
    rw [(Prod.mk.inj heq).2]
  next _ _ heq =>
    rw [h] at heq
    nomatch heq

/-- The loop sends the line that the scanner has and goes on, unless reading has failed. -/
lemma copyLoop_of_some {text : List UInt8} (h : s.scan = (some text, t)) :
    copyLoop pri vars s =
      if t.err ≠ none then ([], t)
      else (⟨text, pri, vars⟩ :: (copyLoop pri vars t).1, (copyLoop pri vars t).2) := by
  rw [copyLoop]
  split
  next _ heq =>
    rw [h] at heq
    nomatch heq
  next _ _ heq =>
    rw [h] at heq
    obtain ⟨htext, rfl⟩ := Prod.mk.inj heq
    obtain rfl := Option.some.inj htext
    rfl

/-- At the end of the stream nothing more is sent. -/
lemma copyLoop_of_end (h : s.total = []) :
    (copyLoop pri vars s).1 = [] ∧ (copyLoop pri vars s).2.r.data = [] := by
  obtain ⟨t, hscan, htotal, -⟩ := Scanner.scan_last (s := s) (by simp [h]) (by
    rw [h]
    decide)
  rw [if_pos h] at hscan
  rw [copyLoop_of_none hscan]
  exact ⟨rfl, (List.append_eq_nil_iff.mp htotal).2⟩

/-- A line that does not fit ends the loop. -/
lemma copyLoop_of_long {line rest : List UInt8} (hline : newline ∉ line) (hfits : fits line = false)
    (htotal : s.total = line ++ rest) (hbuf : s.buf.length ≤ maxScanTokenSize) :
    (copyLoop pri vars s).1 = [] := by
  have hlen : maxScanTokenSize ≤ line.length := Nat.le_of_not_lt (of_decide_eq_false hfits)
  have hnone := Scanner.scan_long hline hlen htotal hbuf
  rw [copyLoop_of_none (t := s.scan.2) (Prod.ext hnone rfl)]

end Loop

/-- **The lines that are sent**: those before the first that does not fit, of all lines where the
stream ends with `io.EOF`, and of the lines that have an end where it ends with an error.

**Proof sketch.** Induct on the lines of the stream. A line that fits is sent, and the loop goes on
with the rest (`Scanner.scan_line`); one that does not fit ends the loop (`copyLoop_of_long`), as
does the end of the stream. What stands behind the last newline is sent only when there has been no
error. -/
theorem copyLoop_fst (pri : Priority) (vars : GoMap Str) (stream : List UInt8) {s : Scanner}
    (htotal : s.total = stream) (herr : s.err = none) (hbuf : s.buf.length ≤ maxScanTokenSize) :
    (copyLoop pri vars s).1 =
      ((if s.r.err = none then Lines.lines newline stream
        else Lines.endedLines newline stream).takeWhile fits).map
          fun line => ⟨dropCR line, pri, vars⟩ := by
  induction stream using Lines.induction newline generalizing s with
  | nil => simp [(copyLoop_of_end htotal).1]
  | last line hline hne =>
    rw [Lines.lines_of_notMem hline hne, Lines.endedLines_of_notMem hline]
    cases hfits : fits line with
    | false =>
      rw [copyLoop_of_long hline hfits (by rw [htotal, List.append_nil]) hbuf]
      split <;> simp [hfits]
    | true =>
      obtain ⟨t, hscan, ht, hterr, -⟩ := Scanner.scan_last (s := s) (htotal ▸ hline)
        (htotal ▸ of_decide_eq_true hfits)
      rw [htotal, if_neg hne] at hscan
      rw [copyLoop_of_some hscan, hterr]
      cases s.r.err with
      | none => simp [hfits, (copyLoop_of_end ht).1]
      | some err => simp
  | line line rest hline ih =>
    rw [Lines.lines_append_cons hline, Lines.endedLines_append_cons hline]
    cases hfits : fits line with
    | false =>
      rw [copyLoop_of_long hline hfits htotal hbuf]
      split <;> simp [hfits]
    | true =>
      obtain ⟨t, hscan, ht, hterr, hrerr, htbuf⟩ :=
        Scanner.scan_line hline (of_decide_eq_true hfits) htotal
      rw [copyLoop_of_some hscan, if_neg (not_not.mpr (hterr.trans herr)),
        ih ht (hterr.trans herr) (htbuf hbuf), hrerr]
      split <;> simp [hfits]

/-- The loop reads the stream to its end when every line fits.

**Proof sketch.** Induct on the lines of the stream. Each line is a token (`Scanner.scan_line`), so
the loop goes on with the rest, and ends when nothing is left. -/
lemma copyLoop_reads (pri : Priority) (vars : GoMap Str) (stream : List UInt8) {s : Scanner}
    (htotal : s.total = stream) (herr : s.err = none)
    (hfits : ∀ line ∈ Lines.lines newline stream, fits line = true) :
    (copyLoop pri vars s).2.r.data = [] := by
  induction stream using Lines.induction newline generalizing s with
  | nil => exact (copyLoop_of_end htotal).2
  | last line hline hne =>
    rw [Lines.lines_of_notMem hline hne, List.forall_mem_singleton] at hfits
    obtain ⟨t, hscan, ht, -, -⟩ := Scanner.scan_last (s := s) (htotal ▸ hline)
      (htotal ▸ of_decide_eq_true hfits)
    rw [htotal, if_neg hne] at hscan
    rw [copyLoop_of_some hscan]
    split
    · exact (List.append_eq_nil_iff.mp ht).2
    · exact (copyLoop_of_end ht).2
  | line line rest hline ih =>
    rw [Lines.lines_append_cons hline, List.forall_mem_cons] at hfits
    obtain ⟨t, hscan, ht, hterr, -⟩ :=
      Scanner.scan_line hline (of_decide_eq_true hfits.1) htotal
    rw [copyLoop_of_some hscan, if_neg (not_not.mpr (hterr.trans herr))]
    exact ih ht (hterr.trans herr) hfits.2

/-- **When every line is sent**: each of them fits in the buffer, and a stream that ends with an
error ends with a line end.

**Proof sketch.** The lines that are sent are the ones before the first that does not fit. There
are as many of them as there are lines only if all fit and none is lost to an error. -/
theorem sendsEveryLine_iff (r : Reader) (pri : Priority) (vars : GoMap Str) :
    SendsEveryLine r pri vars ↔
      (∀ line ∈ Lines.lines newline r.data, line.length < maxScanTokenSize) ∧
        (r.err ≠ none → Lines.Ended newline r.data) := by
  have hfst := copyLoop_fst pri vars r.data (s := { r := r }) rfl rfl (Nat.zero_le _)
  have hfits : (∀ line ∈ Lines.lines newline r.data, fits line = true) ↔
      ∀ line ∈ Lines.lines newline r.data, line.length < maxScanTokenSize := by
    simp [fits]
  unfold SendsEveryLine copy
  rw [hfst, ← hfits]
  constructor
  · rintro ⟨hsent, -⟩
    have hlen := congrArg List.length hsent
    rw [List.length_map, List.length_map] at hlen
    have hall : ∀ lines : List (List UInt8),
        (lines.takeWhile fits).length = lines.length → ∀ line ∈ lines, fits line = true := by
      intro lines hlines
      exact List.takeWhile_eq_self_iff.mp
        ((List.takeWhile_prefix fits).eq_of_length hlines)
    by_cases herr : r.err = none
    · rw [if_pos herr] at hlen
      exact ⟨hall _ hlen, fun h => absurd herr h⟩
    · rw [if_neg herr] at hlen
      have htake := (List.takeWhile_prefix fits
        (l := Lines.endedLines newline r.data)).length_le
      have hle := Lines.length_endedLines_le newline r.data
      have hended : Lines.Ended newline r.data :=
        (Lines.length_endedLines_eq_iff r.data).mp (by omega)
      rw [hended.endedLines_eq] at hlen
      exact ⟨hall _ hlen, fun _ => hended⟩
  · rintro ⟨hshort, hended⟩
    refine ⟨?_, copyLoop_reads pri vars r.data rfl rfl hshort⟩
    have hlines : (if r.err = none then Lines.lines newline r.data
        else Lines.endedLines newline r.data) = Lines.lines newline r.data := by
      split
      next => rfl
      next herr => exact (hended herr).endedLines_eq
    rw [hlines, List.takeWhile_eq_self_iff.mpr hshort]

/-- A line of 64 KiB, with another one behind it. -/
def longLine : Reader where
  data := List.replicate 65536 97 ++ newline :: [98, newline]

/-- **A line can stop the loop**: nothing is sent of a stream that starts with a line of 64 KiB. -/
theorem not_sendsEveryLine :
    ¬ SendsEveryLine longLine .priInfo (logStdio ⟨"faasedge-fn".toList, "f".toList⟩) := by
  rintro ⟨hsent, -⟩
  have hline : newline ∉ List.replicate 65536 (97 : UInt8) := fun hmem =>
    absurd (List.eq_of_mem_replicate hmem) (by decide)
  have hfits : fits (List.replicate 65536 97) = false := by
    rw [fits, List.length_replicate]
    decide
  have hfst : (copy longLine .priInfo (logStdio ⟨"faasedge-fn".toList, "f".toList⟩)).1 = [] :=
    copyLoop_of_long hline hfits rfl (Nat.zero_le _)
  rw [hfst, longLine, Lines.lines_append_cons hline, List.map_cons] at hsent
  nomatch hsent

end Fecore
