import Mathlib.Data.List.AList
import Mathlib.Data.List.Lex
import Mathlib.Data.Char
import Mathlib.Tactic.Common
import Fecore.Data.Path

set_option relaxedAutoImplicit false
set_option autoImplicit false

/-!
# A tree of files

The files of an operating system, named by their clean paths, and the calls of Go's package `os`
that make, write, remove and list them. There are no links.

## Main definitions

* `Files.Tree` — the directories and the files, by their paths.
* `Files.Tree.mkdirAll`, `Files.Tree.writeFile`, `Files.Tree.remove`, `Files.Tree.readDir` — the
  calls; one that fails leaves the tree alone, but for the directories that `MkdirAll` has made.

## Main results

* `Files.parent_append` — the directory of a path.
* `Files.Tree.mkdirAll_of_dir` — a directory is made in one that is there.
* `Files.Tree.mem_names_iff`, `Files.Tree.names_sorted` — what is listed, and in which order.
-/

namespace Files

/-- What is found at a path. -/
inductive Node
  | dir
  | file (data : List Char)
deriving DecidableEq

/-- The directories and the files; the root is always there. -/
abbrev Tree := AList fun _ : List Char => Node

/-- Why a call fails. -/
inductive Errno
  | enoent
  | enotdir
  | eisdir
  | enotempty
deriving DecidableEq

/-- The text of an error. -/
def Errno.text : Errno → List Char
  | enoent => "no such file or directory".toList
  | enotdir => "not a directory".toList
  | eisdir => "is a directory".toList
  | enotempty => "directory not empty".toList

/-- The text of an `os.PathError`. -/
def pathError (op path : List Char) (e : Errno) : List Char :=
  op ++ ' ' :: path ++ ": ".toList ++ e.text

/-- The directory of a path. -/
def parent (p : List Char) : List Char :=
  Path.render (Path.rooted p) { Path.steps p with down := (Path.steps p).down.tail }

/-- The directory of what is right below a directory. -/
lemma parent_append {dir name : List Char} (hdir : Path.clean dir = dir)
    (hname : Path.ProperName name) : parent (dir ++ '/' :: name) = dir := by
  rw [parent, Path.steps_append_name dir hname, Path.rooted_append (Path.ne_nil_of_clean hdir)]
  exact hdir

namespace Tree

variable (t : Tree)

/-- Why nothing is found on a way: its nearest directory is a file, or has no such entry. -/
def missingOn (root : Bool) (up : ℕ) : List (List Char) → Errno
  | [] => .enoent
  | name :: down =>
    match t.lookup (Path.render root ⟨up, name :: down⟩) with
    | some .dir => .enoent
    | some (.file _) => .enotdir
    | none => missingOn root up down

/-- Why nothing is found at a path. -/
def missing (p : List Char) : Errno :=
  t.missingOn (Path.rooted p) (Path.steps p).up (Path.steps p).down

/-- Whether there is a directory. -/
def isDir (p : List Char) : Bool := t.lookup p = some .dir ∨ (Path.steps p).down = []

/-- The directories on a way, from the first one that is missing. -/
def mkdirs (root : Bool) (up : ℕ) : List (List Char) → Tree → Tree × Option Errno
  | [], t => (t, none)
  | name :: down, t =>
    let p := Path.render root ⟨up, name :: down⟩
    match t.lookup p with
    | some .dir => (t, none)
    | some (.file _) => (t, some .enotdir)
    | none =>
      match mkdirs root up down t with
      | (t, some e) => (t, some e)
      | (t, none) => (t.insert p .dir, none)

/-- `os.MkdirAll` -/
def mkdirAll (p : List Char) : Tree × Option Errno :=
  mkdirs (Path.rooted p) (Path.steps p).up (Path.steps p).down t

/-- `ioutil.WriteFile` -/
def writeFile (p data : List Char) : Tree × Option Errno :=
  match t.lookup p with
  | some .dir => (t, some .eisdir)
  | some (.file _) => (t.insert p (.file data), none)
  | none =>
    if t.isDir (parent p) then (t.insert p (.file data), none) else (t, some (t.missing p))

/-- The name of what is right below a directory. -/
def childName (dir p : List Char) : Option (List Char) :=
  match (dir ++ ['/']).isPrefixOf p with
  | true =>
    let name := p.drop (dir.length + 1)
    if '/' ∈ name then none else some name
  | false => none

/-- The names in a directory, in their order. -/
def names (dir : List Char) : List (List Char) :=
  (t.keys.filterMap (childName dir)).mergeSort fun a b => decide (a ≤ b)

/-- `os.Remove` -/
def remove (p : List Char) : Tree × Option Errno :=
  match t.lookup p with
  | none => (t, some (t.missing p))
  | some (.file _) => (t.erase p, none)
  | some .dir => if t.names p = [] then (t.erase p, none) else (t, some .enotempty)

/-- `os.ReadDir` -/
def readDir (p : List Char) : Except Errno (List (List Char)) :=
  match t.lookup p with
  | none => .error (t.missing p)
  | some (.file _) => .error .enotdir
  | some .dir => .ok (t.names p)

variable {t}

/-- The way to a directory that is there ends in it. -/
lemma lookup_last {dir : List Char} (hdir : Path.clean dir = dir)
    (hne : (Path.steps dir).down ≠ []) :
    ∃ last down, (Path.steps dir).down = last :: down ∧
      t.lookup (Path.render (Path.rooted dir) ⟨(Path.steps dir).up, last :: down⟩) =
        t.lookup dir := by
  obtain ⟨last, down, hdown⟩ := List.exists_cons_of_ne_nil hne
  refine ⟨last, down, hdown, congrArg t.lookup ?_⟩
  rw [← hdown]
  exact hdir

/-- The path of what is right below a directory. -/
lemma render_append {dir name : List Char} (hdir : Path.clean dir = dir)
    (hne : (Path.steps dir).down ≠ []) :
    Path.render (Path.rooted dir) ⟨(Path.steps dir).up, name :: (Path.steps dir).down⟩ =
      dir ++ '/' :: name := by
  rw [Path.render_cons _ _ _ hne]
  exact congrArg (· ++ '/' :: name) hdir

/-- Nothing is found right below a directory that is there. -/
lemma missing_append {dir name : List Char} (hdir : Path.clean dir = dir)
    (hne : (Path.steps dir).down ≠ []) (hthere : t.lookup dir = some .dir)
    (hname : Path.ProperName name) (hnone : t.lookup (dir ++ '/' :: name) = none) :
    t.missing (dir ++ '/' :: name) = .enoent := by
  obtain ⟨last, down, hdown, hlast⟩ := lookup_last (t := t) hdir hne
  rw [missing, Path.rooted_append (Path.ne_nil_of_clean hdir), Path.steps_append_name dir hname,
    missingOn, render_append hdir hne, hnone, hdown, missingOn, hlast, hthere]

/-- A directory is made in one that is there. -/
lemma mkdirAll_of_dir {dir name : List Char} (hdir : Path.clean dir = dir)
    (hne : (Path.steps dir).down ≠ []) (hthere : t.lookup dir = some .dir)
    (hname : Path.ProperName name) :
    t.mkdirAll (dir ++ '/' :: name) =
      match t.lookup (dir ++ '/' :: name) with
      | some .dir => (t, none)
      | some (.file _) => (t, some .enotdir)
      | none => (t.insert (dir ++ '/' :: name) .dir, none) := by
  have hparent : mkdirs (Path.rooted dir) (Path.steps dir).up (Path.steps dir).down t =
      (t, none) := by
    obtain ⟨last, down, hdown, hlast⟩ := lookup_last (t := t) hdir hne
    rw [hdown, mkdirs, hlast, hthere]
  rw [mkdirAll, Path.rooted_append (Path.ne_nil_of_clean hdir), Path.steps_append_name dir hname,
    mkdirs, render_append hdir hne, hparent]

/-- What is right below a directory.

**Proof sketch.** The path begins with the directory and a slash, or is not below it. What is left
is the name just when it has no further slash. -/
lemma childName_eq_some_iff {dir p name : List Char} :
    childName dir p = some name ↔ p = dir ++ '/' :: name ∧ '/' ∉ name := by
  unfold childName
  split
  next hpre =>
    obtain ⟨rest, rfl⟩ := List.isPrefixOf_iff_prefix.mp hpre
    have hdrop : (dir ++ ['/'] ++ rest).drop (dir.length + 1) = rest := by
      rw [List.drop_left' (by simp)]
    rw [hdrop, List.append_assoc]
    by_cases hslash : '/' ∈ rest
    · rw [if_pos hslash]
      refine iff_of_false nofun ?_
      rintro ⟨heq, hname⟩
      obtain rfl : rest = name := by simpa using heq
      exact hname hslash
    · rw [if_neg hslash, Option.some.injEq]
      constructor
      · rintro rfl
        exact ⟨rfl, hslash⟩
      · rintro ⟨heq, -⟩
        simpa using heq
  next hpre =>
    refine iff_of_false nofun ?_
    rintro ⟨rfl, -⟩
    rw [Bool.eq_false_iff, Ne, List.isPrefixOf_iff_prefix] at hpre
    exact hpre ⟨name, by simp⟩

/-- **What is listed**: the names of what is right below the directory. -/
lemma mem_names_iff {dir name : List Char} :
    name ∈ t.names dir ↔ (t.lookup (dir ++ '/' :: name)).isSome = true ∧ '/' ∉ name := by
  rw [names, List.mem_mergeSort, List.mem_filterMap, AList.lookup_isSome]
  constructor
  · rintro ⟨p, hp, hname⟩
    obtain ⟨rfl, hslash⟩ := childName_eq_some_iff.mp hname
    exact ⟨hp, hslash⟩
  · rintro ⟨hp, hslash⟩
    exact ⟨_, hp, childName_eq_some_iff.mpr ⟨rfl, hslash⟩⟩

/-- **The order of the list**, in which each name stands once. -/
lemma names_sorted (dir : List Char) : (t.names dir).Pairwise (· < ·) := by
  have hnodup : (t.names dir).Nodup := by
    rw [names, (List.mergeSort_perm _ _).nodup_iff]
    refine t.keys_nodup.filterMap fun p p' name hp hp' => ?_
    rw [Option.mem_def, childName_eq_some_iff] at hp hp'
    rw [hp.1, hp'.1]
  have hsorted : (t.names dir).Pairwise fun a b => a ≤ b := by
    rw [names]
    have htrans : ∀ a b c : List Char, decide (a ≤ b) = true → decide (b ≤ c) = true →
        decide (a ≤ c) = true := fun a b c hab hbc =>
      decide_eq_true (le_trans (of_decide_eq_true hab) (of_decide_eq_true hbc))
    have htotal : ∀ a b : List Char, (decide (a ≤ b) || decide (b ≤ a)) = true :=
      fun a b => by simpa using le_total a b
    simpa using List.pairwise_mergeSort htrans htotal (t.keys.filterMap (childName dir))
  exact (hsorted.and hnodup).imp fun h => lt_of_le_of_ne h.1 h.2

end Tree

end Files
