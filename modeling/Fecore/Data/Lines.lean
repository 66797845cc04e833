import Mathlib.Data.List.Basic
import Mathlib.Tactic.Common

set_option relaxedAutoImplicit false
set_option autoImplicit false

/-!
# The lines of a stream

A stream of letters as the lines that a delimiter ends. The last line may have no end; a stream
that is empty, or that ends with a delimiter, has no such line.

## Main definitions

* `Lines.lines` — the lines, without their ends.
* `Lines.endedLines` — those of them that have an end.
* `Lines.firstLine` — the first line that has an end, and what comes after it.
* `Lines.Ended` — the last line has an end.

## Main results

* `Lines.lines_append_cons` — a line in front of a stream.
* `Lines.induction` — induction on the lines of a stream.
-/

namespace Lines

variable {α : Type*} {delim : α}

/-- The last line of a stream has an end. -/
def Ended (delim : α) (stream : List α) : Prop := ∀ a ∈ stream.getLast?, a = delim

/-- A stream without lines has no line without an end. -/
lemma ended_nil : Ended delim [] := nofun

/-- Whether the last line has an end is seen behind any other line. -/
lemma ended_append_cons (line rest : List α) :
    Ended delim (line ++ delim :: rest) ↔ Ended delim rest := by
  unfold Ended
  rw [List.getLast?_append_of_ne_nil _ (List.cons_ne_nil delim rest)]
  cases rest with
  | nil => simp
  | cons a rest => rw [List.getLast?_cons_cons]

/-- A line that is all there is and has no delimiter has no end. -/
lemma not_ended_of_notMem {line : List α} (h : delim ∉ line) (hne : line ≠ []) :
    ¬ Ended delim line := by
  intro hended
  have hlast := hended (line.getLast hne) (List.getLast?_eq_some_getLast hne)
  exact h (hlast ▸ List.getLast_mem hne)

variable [DecidableEq α]

/-- The lines of a stream, without their ends. -/
def lines (delim : α) : List α → List (List α)
  | [] => []
  | a :: rest =>
    if a = delim then [] :: lines delim rest
    else
      match lines delim rest with
      | [] => [[a]]
      | line :: others => (a :: line) :: others

/-- The lines that have an end, without it. -/
def endedLines (delim : α) : List α → List (List α)
  | [] => []
  | a :: rest =>
    if a = delim then [] :: endedLines delim rest
    else
      match endedLines delim rest with
      | [] => []
      | line :: others => (a :: line) :: others

/-- The first line that has an end, and what comes after it. -/
def firstLine (delim : α) : List α → Option (List α × List α)
  | [] => none
  | a :: rest =>
    if a = delim then some ([], rest)
    else (firstLine delim rest).map fun found => (a :: found.1, found.2)

/-- The empty stream has no line. -/
@[simp] lemma lines_nil : lines delim [] = [] := rfl

/-- A delimiter in front ends an empty line. -/
lemma lines_cons_self (rest : List α) : lines delim (delim :: rest) = [] :: lines delim rest :=
  if_pos rfl

/-- Any other letter in front belongs to the first line. -/
lemma lines_cons_of_ne {a : α} (h : a ≠ delim) (rest : List α) :
    lines delim (a :: rest) =
      match lines delim rest with
      | [] => [[a]]
      | line :: others => (a :: line) :: others :=
  if_neg h

/-- A line in front of a stream is the first one. -/
lemma lines_append_cons {line : List α} (h : delim ∉ line) (rest : List α) :
    lines delim (line ++ delim :: rest) = line :: lines delim rest := by
  induction line with
  | nil => exact lines_cons_self rest
  | cons a line ih =>
    obtain ⟨ha, hline⟩ := not_or.mp (List.mem_cons.not.mp h)
    rw [List.cons_append, lines_cons_of_ne (Ne.symm ha), ih hline]

/-- A line that has no end. -/
lemma lines_of_notMem {line : List α} (h : delim ∉ line) (hne : line ≠ []) :
    lines delim line = [line] := by
  induction line with
  | nil => exact absurd rfl hne
  | cons a line ih =>
    obtain ⟨ha, hline⟩ := not_or.mp (List.mem_cons.not.mp h)
    rw [lines_cons_of_ne (Ne.symm ha)]
    cases line with
    | nil => rfl
    | cons b line => rw [ih hline (List.cons_ne_nil b line)]

/-- The empty stream has no line with an end. -/
@[simp] lemma endedLines_nil : endedLines delim [] = [] := rfl

/-- A delimiter in front ends an empty line. -/
lemma endedLines_cons_self (rest : List α) :
    endedLines delim (delim :: rest) = [] :: endedLines delim rest :=
  if_pos rfl

/-- Any other letter in front belongs to the first line, if that has an end. -/
lemma endedLines_cons_of_ne {a : α} (h : a ≠ delim) (rest : List α) :
    endedLines delim (a :: rest) =
      match endedLines delim rest with
      | [] => []
      | line :: others => (a :: line) :: others :=
  if_neg h

/-- The first line that ends comes before those of the rest. -/
lemma endedLines_append_cons {line : List α} (h : delim ∉ line) (rest : List α) :
    endedLines delim (line ++ delim :: rest) = line :: endedLines delim rest := by
  induction line with
  | nil => exact endedLines_cons_self rest
  | cons a line ih =>
    obtain ⟨ha, hline⟩ := not_or.mp (List.mem_cons.not.mp h)
    rw [List.cons_append, endedLines_cons_of_ne (Ne.symm ha), ih hline]

/-- Without a delimiter no line ends. -/
lemma endedLines_of_notMem {line : List α} (h : delim ∉ line) : endedLines delim line = [] := by
  induction line with
  | nil => rfl
  | cons a line ih =>
    obtain ⟨ha, hline⟩ := not_or.mp (List.mem_cons.not.mp h)
    rw [endedLines_cons_of_ne (Ne.symm ha), ih hline]

/-- A delimiter in front ends an empty line. -/
lemma firstLine_cons_self (rest : List α) :
    firstLine delim (delim :: rest) = some ([], rest) :=
  if_pos rfl

/-- Any other letter in front belongs to the first line. -/
lemma firstLine_cons_of_ne {a : α} (h : a ≠ delim) (rest : List α) :
    firstLine delim (a :: rest) =
      (firstLine delim rest).map fun found => (a :: found.1, found.2) :=
  if_neg h

/-- The first line ends at the first delimiter. -/
lemma firstLine_append_cons {line : List α} (h : delim ∉ line) (rest : List α) :
    firstLine delim (line ++ delim :: rest) = some (line, rest) := by
  induction line with
  | nil => exact firstLine_cons_self rest
  | cons a line ih =>
    obtain ⟨ha, hline⟩ := not_or.mp (List.mem_cons.not.mp h)
    rw [List.cons_append, firstLine_cons_of_ne (Ne.symm ha), ih hline]
    rfl

/-- Without a delimiter there is no first line. -/
lemma firstLine_of_notMem {line : List α} (h : delim ∉ line) : firstLine delim line = none := by
  induction line with
  | nil => rfl
  | cons a line ih =>
    obtain ⟨ha, hline⟩ := not_or.mp (List.mem_cons.not.mp h)
    rw [firstLine_cons_of_ne (Ne.symm ha), ih hline]
    rfl

/-- What the first line with an end says about the stream. -/
lemma firstLine_eq_some {stream line rest : List α}
    (h : firstLine delim stream = some (line, rest)) :
    stream = line ++ delim :: rest ∧ delim ∉ line := by
  by_cases hmem : delim ∈ stream
  · obtain ⟨line', rest', rfl, hline⟩ := List.eq_append_cons_of_mem hmem
    rw [firstLine_append_cons hline] at h
    obtain ⟨rfl, rfl⟩ := Prod.mk.inj (Option.some.inj h)
    exact ⟨rfl, hline⟩
  · rw [firstLine_of_notMem hmem] at h
    nomatch h

/-- Where there is no first line there is no delimiter. -/
lemma notMem_of_firstLine {stream : List α} (h : firstLine delim stream = none) :
    delim ∉ stream := by
  intro hmem
  obtain ⟨line, rest, rfl, hline⟩ := List.eq_append_cons_of_mem hmem
  rw [firstLine_append_cons hline] at h
  nomatch h

/-- **Induction on the lines of a stream**: the empty stream, a line without an end, and a line in
front of a stream. -/
@[elab_as_elim]
theorem induction (delim : α) {motive : List α → Prop} (nil : motive [])
    (last : ∀ line, delim ∉ line → line ≠ [] → motive line)
    (line : ∀ line rest, delim ∉ line → motive rest → motive (line ++ delim :: rest))
    (stream : List α) : motive stream := by
  induction hlen : stream.length using Nat.strongRecOn generalizing stream with
  | ind n ih =>
    by_cases hmem : delim ∈ stream
    · obtain ⟨first, rest, rfl, hfirst⟩ := List.eq_append_cons_of_mem hmem
      refine line first rest hfirst (ih rest.length ?_ rest rfl)
      rw [← hlen, List.length_append, List.length_cons]
      omega
    · cases stream with
      | nil => exact nil
      | cons a stream => exact last _ hmem (List.cons_ne_nil a stream)

/-- The lines that have an end are all lines, or all but the last. -/
lemma length_endedLines_le (delim : α) (stream : List α) :
    (endedLines delim stream).length ≤ (lines delim stream).length := by
  induction stream using induction delim with
  | nil => exact Nat.le_refl _
  | last line hline hne => simp [endedLines_of_notMem hline]
  | line line rest hline ih =>
    rw [lines_append_cons hline, endedLines_append_cons hline]
    exact Nat.succ_le_succ ih

/-- **All lines have an end** when the last one has. -/
theorem length_endedLines_eq_iff (stream : List α) :
    (endedLines delim stream).length = (lines delim stream).length ↔ Ended delim stream := by
  induction stream using induction delim with
  | nil => exact iff_of_true rfl ended_nil
  | last line hline hne =>
    rw [endedLines_of_notMem hline, lines_of_notMem hline hne]
    exact iff_of_false Nat.zero_ne_one (not_ended_of_notMem hline hne)
  | line line rest hline ih =>
    rw [lines_append_cons hline, endedLines_append_cons hline, ended_append_cons, ← ih]
    exact Nat.succ_inj

/-- A stream whose last line has an end has no other lines than those. -/
lemma Ended.endedLines_eq {stream : List α} (h : Ended delim stream) :
    endedLines delim stream = lines delim stream := by
  induction stream using induction delim with
  | nil => rfl
  | last line hline hne => exact absurd h (not_ended_of_notMem hline hne)
  | line line rest hline ih =>
    rw [lines_append_cons hline, endedLines_append_cons hline,
      ih ((ended_append_cons line rest).mp h)]

end Lines
