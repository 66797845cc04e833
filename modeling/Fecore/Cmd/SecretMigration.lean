import Mathlib.Tactic.Common
import Fecore.Data.Path
import Fecore.Handlers.Functions

set_option relaxedAutoImplicit false
set_option autoImplicit false

/-!
# The migration of the secrets

At each start the provider copies the secrets of the base directory, one after the other, to the
directory of the default namespace (`moveSecretsToDefaultNamespaceSecrets` and `copyFile` of
`cmd/provider.go`). A secret that has a file there is not copied.

## Main definitions

* `Fecore.moveSecretsToDefaultNamespaceSecrets` — one run, with what the calls outside answer.
* `Fecore.migrate` — a sequence of runs.
* `Fecore.Migrated` — every secret has its copy, the old files are there, and nothing is left to do.
* `Fecore.MigrationAnswers.CutsShort` — a copy of the run is broken off after it has made its file.

## Main results

* `Fecore.lookup_moveSecrets_of_some` — no run touches a file that is there.
* `Fecore.migrated_iff` — when the secrets are migrated once a run has returned nil.
-/

namespace Fecore

/-! ### One run -/

/-- `os.FileInfo`: the name and, of what is no directory, the data. -/
structure FileInfo where
  name : Str
  data : Option Str
deriving DecidableEq

/-- **The base directory** of the secrets, as `ioutil.ReadDir` lists it. -/
structure SecretsDirectory where
  files : List FileInfo
  names : (files.map FileInfo.name).Nodup

/-- How a call of `copyFile` goes. -/
inductive CopyAnswer
  | completes
  | openSource (err : Str)
  | openTarget (err : Str)
  /-- `io.Copy` fails when it has written so many bytes -/
  | copyFails (written : ℕ) (err : Str)
  /-- the process ends, before the target is made or when so many bytes are written -/
  | stops (written : Option ℕ)
deriving DecidableEq

/-- What the calls outside answer in a run. -/
structure MigrationAnswers where
  ensureSecretsDir : Option Str := none
  readDir : Option Str := none
  /-- the error of `os.Stat` for a file that is there -/
  stat : Str → Option Str := fun _ => none
  copyFile : Str → CopyAnswer := fun _ => .completes

/-- How a call ends: it returns an error or nil, or the process ends. -/
inductive Ending
  | returns (err : Option Str)
  | stopped
deriving DecidableEq

/-- Bytes are written to the end of a file, which is made where there is none. -/
def appendTo (moved : GoMap Str) (name data : Str) : GoMap Str :=
  moved.insert name ((moved.lookup name).getD [] ++ data)

/-- `copyFile`, of the file `name` with the given data. -/
def copyFile (answer : CopyAnswer) (src dst name data : Str) (moved : GoMap Str) :
    GoMap Str × Ending :=
  match answer with
  | .openSource err =>
    (moved, .returns (some ("opening ".toList ++ src ++ " failed ".toList ++ err)))
  | .openTarget err =>
    (moved, .returns (some ("opening ".toList ++ dst ++ " failed ".toList ++ err)))
  | .copyFails written err =>
    (appendTo moved name (data.take written),
      .returns (some ("writing into ".toList ++ dst ++ " failed ".toList ++ err)))
  | .stops none => (moved, .stopped)
  | .stops (some written) => (appendTo moved name (data.take written), .stopped)
  | .completes => (appendTo moved name data, .returns none)

/-- The loop of `moveSecretsToDefaultNamespaceSecrets`. -/
def copyFiles (a : MigrationAnswers) (baseSecretPath newSecretPath : Str) :
    List FileInfo → GoMap Str → GoMap Str × Ending
  | [], moved => (moved, .returns none)
  | f :: files, moved =>
    match f.data with
    | none => copyFiles a baseSecretPath newSecretPath files moved
    | some data =>
      let newPath := Path.join [newSecretPath, f.name]
      if moved.lookup f.name = none ∨ a.stat f.name ≠ none then
        let oldPath := Path.join [baseSecretPath, f.name]
        let copied := copyFile (a.copyFile f.name) oldPath newPath f.name data moved
        if copied.2 = .returns none then
          copyFiles a baseSecretPath newSecretPath files copied.1
        else copied
      else copyFiles a baseSecretPath newSecretPath files moved

/-- `moveSecretsToDefaultNamespaceSecrets`: the files of the default namespace after the run, and
how it ends. -/
def moveSecretsToDefaultNamespaceSecrets (a : MigrationAnswers)
    (baseSecretPath defaultNamespace : Str) (dir : SecretsDirectory) (moved : GoMap Str) :
    GoMap Str × Ending :=
  let newSecretPath := Path.join [baseSecretPath, defaultNamespace]
  match a.ensureSecretsDir, a.readDir with
  | some err, _ => (moved, .returns (some err))
  | none, some err => (moved, .returns (some err))
  | none, none => copyFiles a baseSecretPath newSecretPath dir.files moved

/-! ### A sequence of runs -/

section Runs

variable (baseSecretPath defaultNamespace : Str) (dir : SecretsDirectory)

/-- The files of the default namespace after the runs, one after the other. -/
def migrate (runs : List MigrationAnswers) (moved : GoMap Str) : GoMap Str :=
  runs.foldl (fun moved a => (moveSecretsToDefaultNamespaceSecrets a baseSecretPath
    defaultNamespace dir moved).1) moved

/-- `os.Stat` fails only where there is no file, as the comment at the call takes it. -/
def MigrationAnswers.StatWorks (a : MigrationAnswers) : Prop := ∀ name, a.stat name = none

/-- **The secrets are migrated**: one that had no file before has one with exactly its data, the
files from before are unchanged, and a further run changes nothing. -/
structure Migrated (before after : GoMap Str) : Prop where
  copied : ∀ f ∈ dir.files, ∀ data, f.data = some data → before.lookup f.name = none →
    after.lookup f.name = some data
  kept : ∀ name data, before.lookup name = some data → after.lookup name = some data
  settled : ∀ a : MigrationAnswers, a.StatWorks →
    (moveSecretsToDefaultNamespaceSecrets a baseSecretPath defaultNamespace dir after).1 = after

end Runs

/-- How many bytes a call of `copyFile` writes that makes its target and does not complete. -/
def CopyAnswer.written : CopyAnswer → Option ℕ
  | .copyFails written _ => some written
  | .stops written => written
  | _ => none

namespace MigrationAnswers

/-- A file that the run has to copy, and the copy does not complete. -/
def breaksOn (a : MigrationAnswers) (moved : GoMap Str) (f : FileInfo) : Bool :=
  f.data.isSome && (moved.lookup f.name).isNone && decide (a.copyFile f.name ≠ .completes)

/-- **A run cuts a copy short**: at the first file that it has to copy and cannot it ends with
the target made and less than the data in it. -/
def CutsShort (a : MigrationAnswers) (dir : SecretsDirectory) (moved : GoMap Str) : Prop :=
  a.ensureSecretsDir = none ∧ a.readDir = none ∧
    ∃ f data written, dir.files.find? (a.breaksOn moved) = some f ∧ f.data = some data ∧
      (a.copyFile f.name).written = some written ∧ written < data.length

end MigrationAnswers

/-! ### What one run does -/

section Run

variable {a : MigrationAnswers} {baseSecretPath newSecretPath : Str}

/-- **The turn of one file**: it is skipped, or copied as a whole, or the run ends with it.

**Proof sketch.** Case split on whether the entry has data, whether a file of its name has been
moved, and how the copy answers. Only a copy that completes goes on with the data as a whole; each
other answer leaves what it has written. -/
lemma copyFiles_cases (hstat : a.StatWorks) (f : FileInfo) (files : List FileInfo)
    (moved : GoMap Str) :
    (a.breaksOn moved f = false ∧ (f.data = none ∨ moved.lookup f.name ≠ none) ∧
      copyFiles a baseSecretPath newSecretPath (f :: files) moved =
        copyFiles a baseSecretPath newSecretPath files moved) ∨
    (∃ data, f.data = some data ∧ moved.lookup f.name = none ∧ a.breaksOn moved f = false ∧
      copyFiles a baseSecretPath newSecretPath (f :: files) moved =
        copyFiles a baseSecretPath newSecretPath files (moved.insert f.name data)) ∨
    (∃ data, f.data = some data ∧ moved.lookup f.name = none ∧ a.breaksOn moved f = true ∧
      (copyFiles a baseSecretPath newSecretPath (f :: files) moved).2 ≠ .returns none ∧
      (copyFiles a baseSecretPath newSecretPath (f :: files) moved).1 =
        (a.copyFile f.name).written.elim moved
          fun written => moved.insert f.name (data.take written)) := by
  cases hdata : f.data with
  | none =>
    refine .inl ⟨?_, .inl rfl, ?_⟩
    · simp [MigrationAnswers.breaksOn, hdata]
    · rw [copyFiles, hdata]
  | some data =>
    by_cases hmoved : moved.lookup f.name = none
    · have happend : ∀ s : Str, appendTo moved f.name s = moved.insert f.name s := by
        intro s
        rw [appendTo, hmoved]
        rfl
      by_cases hanswer : a.copyFile f.name = .completes
      · refine .inr (.inl ⟨data, rfl, hmoved, ?_, ?_⟩)
        · simp [MigrationAnswers.breaksOn, hanswer]
        · rw [copyFiles, hdata]
          simp [hmoved, hanswer, copyFile, happend]
      · refine .inr (.inr ⟨data, rfl, hmoved, ?_, ?_⟩)
        · simp [MigrationAnswers.breaksOn, hdata, hmoved, hanswer]
        · rw [copyFiles, hdata]
          dsimp only
          rw [if_pos (.inl hmoved)]
          cases hcopy : a.copyFile f.name with
          | completes => exact absurd hcopy hanswer
          | openSource err => simp [copyFile, CopyAnswer.written]
          | openTarget err => simp [copyFile, CopyAnswer.written]
          | copyFails written err => simp [copyFile, CopyAnswer.written, happend]
          | stops written => cases written <;> simp [copyFile, CopyAnswer.written, happend]
    · refine .inl ⟨?_, .inr hmoved, ?_⟩
      · obtain ⟨old, hold⟩ := Option.ne_none_iff_exists'.mp hmoved
        simp [MigrationAnswers.breaksOn, hold]
      · rw [copyFiles, hdata]
        dsimp only
        rw [if_neg (by simp [hmoved, hstat f.name])]

/-- A file that is copied has no part in what breaks on the others. -/
lemma find?_breaksOn_insert {files : List FileInfo} {name : Str}
    (h : name ∉ files.map FileInfo.name) (moved : GoMap Str) (data : Str) :
    files.find? (a.breaksOn (moved.insert name data)) = files.find? (a.breaksOn moved) := by
  induction files with
  | nil => rfl
  | cons f files ih =>
    rw [List.map_cons, List.mem_cons, not_or] at h
    obtain ⟨hf, hfiles⟩ := h
    have hbreaks : a.breaksOn (moved.insert name data) f = a.breaksOn moved f := by
      unfold MigrationAnswers.breaksOn
      rw [AList.lookup_insert_ne (Ne.symm hf)]
    rw [List.find?_cons, List.find?_cons, hbreaks, ih hfiles]

/-- The loop touches no file that is there.

**Proof sketch.** Induct on the files. A turn writes only to a file that is not there
(`copyFiles_cases`), so to another one. -/
lemma lookup_copyFiles_of_some (hstat : a.StatWorks) {files : List FileInfo} {moved : GoMap Str}
    {name old : Str} (h : moved.lookup name = some old) :
    (copyFiles a baseSecretPath newSecretPath files moved).1.lookup name = some old := by
  induction files generalizing moved with
  | nil => exact h
  | cons f files ih =>
    have hne : moved.lookup f.name = none → name ≠ f.name := by
      rintro hnone rfl
      rw [h] at hnone
      nomatch hnone
    rcases copyFiles_cases hstat f files moved with
      ⟨-, -, heq⟩ | ⟨data, -, hnone, -, heq⟩ | ⟨data, -, hnone, -, -, heq⟩
    · rw [heq]
      exact ih h
    · rw [heq]
      exact ih (by rwa [AList.lookup_insert_ne (hne hnone)])
    · rw [heq]
      cases (a.copyFile f.name).written with
      | none => exact h
      | some written =>
        rw [Option.elim_some, AList.lookup_insert_ne (hne hnone)]
        exact h

/-- A loop that has nothing to copy changes nothing and returns nil. -/
lemma copyFiles_of_present (hstat : a.StatWorks) {files : List FileInfo} {moved : GoMap Str}
    (h : ∀ f ∈ files, f.data ≠ none → moved.lookup f.name ≠ none) :
    copyFiles a baseSecretPath newSecretPath files moved = (moved, .returns none) := by
  induction files with
  | nil => rfl
  | cons f files ih =>
    rw [List.forall_mem_cons] at h
    rcases copyFiles_cases hstat f files moved with
      ⟨-, -, heq⟩ | ⟨data, hdata, hnone, -⟩ | ⟨data, hdata, hnone, -⟩
    · rw [heq]
      exact ih h.2
    · exact absurd hnone (h.1 (by simp [hdata]))
    · exact absurd hnone (h.1 (by simp [hdata]))

/-- A loop that returns nil has found or made the file of every secret.

**Proof sketch.** Induct on the files with the cases of `copyFiles_cases`. A file that is skipped is
there already, one that is copied is put there, and neither is lost by the rest of the loop
(`lookup_copyFiles_of_some`); a copy that breaks ends the loop with an error. -/
lemma present_of_copyFiles (hstat : a.StatWorks) {files : List FileInfo} {moved : GoMap Str}
    (h : (copyFiles a baseSecretPath newSecretPath files moved).2 = .returns none) :
    ∀ f ∈ files, f.data ≠ none →
      (copyFiles a baseSecretPath newSecretPath files moved).1.lookup f.name ≠ none := by
  induction files generalizing moved with
  | nil => nofun
  | cons f files ih =>
    rcases copyFiles_cases hstat f files moved with
      ⟨-, hskip, heq⟩ | ⟨data, -, hnone, -, heq⟩ | ⟨data, -, -, -, hend, -⟩
    · rw [heq] at h ⊢
      refine List.forall_mem_cons.mpr ⟨fun hdata => ?_, ih h⟩
      obtain ⟨old, hold⟩ := Option.ne_none_iff_exists'.mp (hskip.resolve_left hdata)
      simp [lookup_copyFiles_of_some hstat hold]
    · rw [heq] at h ⊢
      refine List.forall_mem_cons.mpr ⟨fun _ => ?_, ih h⟩
      simp [lookup_copyFiles_of_some hstat (AList.lookup_insert moved)]
    · exact absurd h hend

/-- A loop that returns nil has broken on no file.

**Proof sketch.** Induct on the files with the cases of `copyFiles_cases`. The turn did not break,
so its file is not found; what it has copied does not matter to the files behind it, which have
other names. -/
lemma find?_of_copyFiles (hstat : a.StatWorks) {files : List FileInfo}
    (hnames : (files.map FileInfo.name).Nodup) {moved : GoMap Str}
    (h : (copyFiles a baseSecretPath newSecretPath files moved).2 = .returns none) :
    files.find? (a.breaksOn moved) = none := by
  induction files generalizing moved with
  | nil => rfl
  | cons f files ih =>
    rw [List.map_cons, List.nodup_cons] at hnames
    rcases copyFiles_cases hstat f files moved with
      ⟨hbreaks, -, heq⟩ | ⟨data, -, -, hbreaks, heq⟩ | ⟨data, -, -, -, hend, -⟩
    · rw [heq] at h
      rw [List.find?_cons_of_neg (by simp [hbreaks])]
      exact ih hnames.2 h
    · rw [heq] at h
      rw [List.find?_cons_of_neg (by simp [hbreaks]), ← find?_breaksOn_insert hnames.1 moved data]
      exact ih hnames.2 h
    · exact absurd h hend

/-- A file that the loop has made holds its data, or the part of them that was written when the
run ended with it.

**Proof sketch.** Induct on the files, with `copyFiles_cases` for the first one. The file is made in
its own turn, since the names are different, and it is not touched in a later one
(`lookup_copyFiles_of_some`). -/
lemma new_of_copyFiles (hstat : a.StatWorks) {files : List FileInfo}
    (hnames : (files.map FileInfo.name).Nodup) {moved : GoMap Str} {name new : Str}
    (hold : moved.lookup name = none)
    (hnew : (copyFiles a baseSecretPath newSecretPath files moved).1.lookup name = some new) :
    ∃ f ∈ files, f.name = name ∧ ∃ data, f.data = some data ∧
      (new = data ∨ files.find? (a.breaksOn moved) = some f ∧
        ∃ written, (a.copyFile f.name).written = some written ∧ new = data.take written) := by
  induction files generalizing moved with
  | nil =>
    rw [copyFiles, hold] at hnew
    nomatch hnew
  | cons f files ih =>
    rw [List.map_cons, List.nodup_cons] at hnames
    rcases copyFiles_cases hstat f files moved with
      ⟨hbreaks, -, heq⟩ | ⟨data, hdata, hnone, hbreaks, heq⟩ | ⟨data, hdata, hnone, hbreaks, -, heq⟩
    · rw [heq] at hnew
      obtain ⟨g, hg, hname, rest, hrest, hcase⟩ := ih hnames.2 hold hnew
      rw [List.find?_cons_of_neg (by simp [hbreaks])]
      exact ⟨g, List.mem_cons_of_mem f hg, hname, rest, hrest, hcase⟩
    · rw [heq] at hnew
      by_cases hf : name = f.name
      · subst hf
        rw [lookup_copyFiles_of_some hstat (AList.lookup_insert moved)] at hnew
        exact ⟨f, List.mem_cons_self, rfl, data, hdata, .inl (Option.some.inj hnew).symm⟩
      · have hinsert : (moved.insert f.name data).lookup name = none := by
          rwa [AList.lookup_insert_ne hf]
        obtain ⟨g, hg, hname, rest, hrest, hcase⟩ := ih hnames.2 hinsert hnew
        rw [find?_breaksOn_insert hnames.1] at hcase
        rw [List.find?_cons_of_neg (by simp [hbreaks])]
        exact ⟨g, List.mem_cons_of_mem f hg, hname, rest, hrest, hcase⟩
    · rw [heq] at hnew
      rw [List.find?_cons_of_pos hbreaks]
      cases hwritten : (a.copyFile f.name).written with
      | none =>
        rw [hwritten, Option.elim_none, hold] at hnew
        nomatch hnew
      | some written =>
        rw [hwritten, Option.elim_some] at hnew
        by_cases hf : name = f.name
        · subst hf
          rw [AList.lookup_insert] at hnew
          exact ⟨f, List.mem_cons_self, rfl, data, hdata,
            .inr ⟨rfl, written, hwritten, (Option.some.inj hnew).symm⟩⟩
        · rw [AList.lookup_insert_ne hf, hold] at hnew
          nomatch hnew

/-- The file that the run ends with holds what was written to it.

**Proof sketch.** Induct on the files up to the one that the run ends with; a copy before it does
not change for which file that is (`find?_breaksOn_insert`). -/
lemma lookup_copyFiles_of_breaks (hstat : a.StatWorks) {files : List FileInfo}
    (hnames : (files.map FileInfo.name).Nodup) {moved : GoMap Str} {f : FileInfo}
    (hfind : files.find? (a.breaksOn moved) = some f) {data : Str} (hdata : f.data = some data)
    {written : ℕ} (hwritten : (a.copyFile f.name).written = some written) :
    (copyFiles a baseSecretPath newSecretPath files moved).1.lookup f.name =
      some (data.take written) := by
  induction files generalizing moved with
  | nil => nomatch hfind
  | cons g files ih =>
    rw [List.map_cons, List.nodup_cons] at hnames
    rcases copyFiles_cases hstat g files moved with
      ⟨hbreaks, -, heq⟩ | ⟨rest, -, -, hbreaks, heq⟩ | ⟨rest, hrest, -, hbreaks, -, heq⟩
    · rw [heq]
      rw [List.find?_cons_of_neg (by simp [hbreaks])] at hfind
      exact ih hnames.2 hfind
    · rw [heq]
      rw [List.find?_cons_of_neg (by simp [hbreaks]), ← find?_breaksOn_insert hnames.1 moved rest]
        at hfind
      exact ih hnames.2 hfind
    · rw [List.find?_cons_of_pos hbreaks] at hfind
      obtain rfl := Option.some.inj hfind
      obtain rfl : rest = data := Option.some.inj (hrest.symm.trans hdata)
      rw [heq, hwritten, Option.elim_some, AList.lookup_insert]

end Run

/-! ### What a sequence of runs does -/

section Sequence

variable {a : MigrationAnswers} {baseSecretPath defaultNamespace : Str} {dir : SecretsDirectory}

variable (a baseSecretPath defaultNamespace dir) in
/-- **A run** goes through the files, or ends with an error before. -/
lemma moveSecrets_cases (moved : GoMap Str) :
    (a.ensureSecretsDir = none ∧ a.readDir = none ∧
      moveSecretsToDefaultNamespaceSecrets a baseSecretPath defaultNamespace dir moved =
        copyFiles a baseSecretPath (Path.join [baseSecretPath, defaultNamespace]) dir.files
          moved) ∨
    ∃ err, moveSecretsToDefaultNamespaceSecrets a baseSecretPath defaultNamespace dir moved =
      (moved, .returns (some err)) := by
  unfold moveSecretsToDefaultNamespaceSecrets
  cases a.ensureSecretsDir with
  | some err => exact .inr ⟨err, rfl⟩
  | none =>
    cases a.readDir with
    | some err => exact .inr ⟨err, rfl⟩
    | none => exact .inl ⟨rfl, rfl, rfl⟩

/-- **No run touches a file that is there.** -/
theorem lookup_moveSecrets_of_some (hstat : a.StatWorks) {moved : GoMap Str} {name old : Str}
    (h : moved.lookup name = some old) :
    (moveSecretsToDefaultNamespaceSecrets a baseSecretPath defaultNamespace dir moved).1.lookup
      name = some old := by
  rcases moveSecrets_cases a baseSecretPath defaultNamespace dir moved with
    ⟨-, -, heq⟩ | ⟨err, heq⟩
  · rw [heq]
    exact lookup_copyFiles_of_some hstat h
  · rw [heq]
    exact h

/-- A file that a run has made holds its data, or the run has cut its copy short. -/
lemma new_of_moveSecrets (hstat : a.StatWorks) {moved : GoMap Str} {name new : Str}
    (hold : moved.lookup name = none)
    (hnew : (moveSecretsToDefaultNamespaceSecrets a baseSecretPath defaultNamespace dir
      moved).1.lookup name = some new) :
    (∃ f ∈ dir.files, f.name = name ∧ f.data = some new) ∨ a.CutsShort dir moved := by
  rcases moveSecrets_cases a baseSecretPath defaultNamespace dir moved with
    ⟨hdir, hread, heq⟩ | ⟨err, heq⟩
  · rw [heq] at hnew
    obtain ⟨f, hf, hname, data, hdata, rfl | ⟨hfind, written, hwritten, rfl⟩⟩ :=
      new_of_copyFiles hstat dir.names hold hnew
    · exact .inl ⟨f, hf, hname, hdata⟩
    · by_cases hlt : written < data.length
      · exact .inr ⟨hdir, hread, f, data, written, hfind, hdata, hwritten, hlt⟩
      · exact .inl ⟨f, hf, hname, by rwa [List.take_of_length_le (by omega)]⟩
  · rw [heq] at hnew
    nomatch hold.symm.trans hnew

/-- What a run leaves that has cut a copy short.

**Proof sketch.** The file that cuts the loop short was not there, and what is left of it is what
had been written, which is shorter than its data. -/
lemma MigrationAnswers.CutsShort.leaves (baseSecretPath defaultNamespace : Str)
    (hstat : a.StatWorks) {moved : GoMap Str} (h : a.CutsShort dir moved) :
    ∃ f ∈ dir.files, ∃ data part, f.data = some data ∧ moved.lookup f.name = none ∧
      part ≠ data ∧ (moveSecretsToDefaultNamespaceSecrets a baseSecretPath defaultNamespace dir
        moved).1.lookup f.name = some part := by
  obtain ⟨hdir, hread, f, data, written, hfind, hdata, hwritten, hlt⟩ := h
  have hbreaks : a.breaksOn moved f = true := List.find?_some hfind
  have hnone : moved.lookup f.name = none := by
    unfold breaksOn at hbreaks
    simp only [Bool.and_eq_true] at hbreaks
    exact Option.isNone_iff_eq_none.mp hbreaks.1.2
  refine ⟨f, List.mem_of_find?_eq_some hfind, data, data.take written, hdata, hnone, ?_, ?_⟩
  · intro heq
    have hlen := congrArg List.length heq
    rw [List.length_take] at hlen
    omega
  · unfold moveSecretsToDefaultNamespaceSecrets
    rw [hdir, hread]
    exact lookup_copyFiles_of_breaks hstat dir.names hfind hdata hwritten

/-- A run that returns nil has gone through the files. -/
lemma moveSecrets_of_returns_none {moved : GoMap Str}
    (h : (moveSecretsToDefaultNamespaceSecrets a baseSecretPath defaultNamespace dir moved).2 =
      .returns none) :
    moveSecretsToDefaultNamespaceSecrets a baseSecretPath defaultNamespace dir moved =
      copyFiles a baseSecretPath (Path.join [baseSecretPath, defaultNamespace]) dir.files
        moved := by
  rcases moveSecrets_cases a baseSecretPath defaultNamespace dir moved with
    ⟨-, -, heq⟩ | ⟨err, heq⟩
  · exact heq
  · rw [heq] at h
    nomatch h

/-- It has found or made the file of every secret. -/
lemma present_of_moveSecrets (hstat : a.StatWorks) {moved : GoMap Str}
    (h : (moveSecretsToDefaultNamespaceSecrets a baseSecretPath defaultNamespace dir moved).2 =
      .returns none) :
    ∀ f ∈ dir.files, f.data ≠ none → (moveSecretsToDefaultNamespaceSecrets a baseSecretPath
      defaultNamespace dir moved).1.lookup f.name ≠ none := by
  have heq := moveSecrets_of_returns_none h
  rw [heq] at h ⊢
  exact present_of_copyFiles hstat h

/-- It has cut no copy short. -/
lemma not_cutsShort_of_moveSecrets (hstat : a.StatWorks) {moved : GoMap Str}
    (h : (moveSecretsToDefaultNamespaceSecrets a baseSecretPath defaultNamespace dir moved).2 =
      .returns none) : ¬ a.CutsShort dir moved := by
  rintro ⟨-, -, f, data, written, hfind, -⟩
  rw [moveSecrets_of_returns_none h] at h
  rw [find?_of_copyFiles hstat dir.names h] at hfind
  nomatch hfind

/-- A run that has nothing to copy changes nothing. -/
lemma moveSecrets_of_present (hstat : a.StatWorks) {moved : GoMap Str}
    (h : ∀ f ∈ dir.files, f.data ≠ none → moved.lookup f.name ≠ none) :
    (moveSecretsToDefaultNamespaceSecrets a baseSecretPath defaultNamespace dir moved).1 =
      moved := by
  rcases moveSecrets_cases a baseSecretPath defaultNamespace dir moved with
    ⟨-, -, heq⟩ | ⟨err, heq⟩
  · rw [heq, copyFiles_of_present hstat h]
  · rw [heq]

/-- No run moves nothing. -/
@[simp] lemma migrate_nil (moved : GoMap Str) :
    migrate baseSecretPath defaultNamespace dir [] moved = moved := rfl

/-- Runs after runs go on with what those have moved. -/
@[simp] lemma migrate_append (runs runs' : List MigrationAnswers) (moved : GoMap Str) :
    migrate baseSecretPath defaultNamespace dir (runs ++ runs') moved =
      migrate baseSecretPath defaultNamespace dir runs'
        (migrate baseSecretPath defaultNamespace dir runs moved) :=
  List.foldl_append

/-- The first of the runs moves what it can, and the others go on from there. -/
@[simp] lemma migrate_cons (a : MigrationAnswers) (runs : List MigrationAnswers)
    (moved : GoMap Str) : migrate baseSecretPath defaultNamespace dir (a :: runs) moved =
      migrate baseSecretPath defaultNamespace dir runs
        (moveSecretsToDefaultNamespaceSecrets a baseSecretPath defaultNamespace dir moved).1 :=
  rfl

/-- No sequence of runs touches a file that is there. -/
lemma lookup_migrate_of_some {runs : List MigrationAnswers} (hstat : ∀ a ∈ runs, a.StatWorks)
    {moved : GoMap Str} {name old : Str} (h : moved.lookup name = some old) :
    (migrate baseSecretPath defaultNamespace dir runs moved).lookup name = some old := by
  induction runs generalizing moved with
  | nil => exact h
  | cons a runs ih =>
    rw [List.forall_mem_cons] at hstat
    exact ih hstat.2 (lookup_moveSecrets_of_some hstat.1 h)

/-- **What the runs have made** when none of them cuts a copy short: every new file holds the data
of its secret.

**Proof sketch.** Induct on the runs. A file is not changed once it is there
(`lookup_migrate_of_some`), so it was made in the first run that has it, and there
`new_of_moveSecrets` applies. -/
theorem new_of_migrate {runs : List MigrationAnswers} (hstat : ∀ a ∈ runs, a.StatWorks)
    {moved : GoMap Str}
    (hcut : ∀ earlier a later, runs = earlier ++ a :: later →
      ¬ a.CutsShort dir (migrate baseSecretPath defaultNamespace dir earlier moved))
    {name new : Str} (hold : moved.lookup name = none)
    (hnew : (migrate baseSecretPath defaultNamespace dir runs moved).lookup name = some new) :
    ∃ f ∈ dir.files, f.name = name ∧ f.data = some new := by
  induction runs generalizing moved with
  | nil => nomatch hold.symm.trans hnew
  | cons a runs ih =>
    rw [List.forall_mem_cons] at hstat
    rw [migrate_cons] at hnew
    cases hnext : (moveSecretsToDefaultNamespaceSecrets a baseSecretPath defaultNamespace dir
        moved).1.lookup name with
    | none =>
      refine ih hstat.2 (fun earlier b later heq => ?_) hnext hnew
      exact hcut (a :: earlier) b later (by rw [heq, List.cons_append])
    | some next =>
      obtain rfl : next = new :=
        Option.some.inj ((lookup_migrate_of_some hstat.2 hnext).symm.trans hnew)
      exact (new_of_moveSecrets hstat.1 hold hnext).resolve_right (hcut [] a runs rfl)

/-- **When the secrets are migrated** once a run has returned nil: no earlier run has cut a copy
short.

**Proof sketch.** What a run cuts short stays as it is, since every later run finds the file. In
the other direction each new file holds the data of its secret, by induction on the runs, and the
last run has found or made a file for each of them. -/
theorem migrated_iff {runs : List MigrationAnswers} {last : MigrationAnswers}
    (hstat : ∀ a ∈ runs ++ [last], a.StatWorks) {moved : GoMap Str}
    (hnil : (moveSecretsToDefaultNamespaceSecrets last baseSecretPath defaultNamespace dir
      (migrate baseSecretPath defaultNamespace dir runs moved)).2 = .returns none) :
    Migrated baseSecretPath defaultNamespace dir moved
        (migrate baseSecretPath defaultNamespace dir (runs ++ [last]) moved) ↔
      ∀ earlier a later, runs = earlier ++ a :: later →
        ¬ a.CutsShort dir (migrate baseSecretPath defaultNamespace dir earlier moved) := by
  have hruns : ∀ a ∈ runs, a.StatWorks := fun a ha => hstat a (List.mem_append_left _ ha)
  have hlast : last.StatWorks := hstat last (by simp)
  constructor
  · rintro hmigrated earlier a later rfl hcut
    have hafter : ∀ b ∈ later ++ [last], b.StatWorks := fun b hb => hstat b (by
      rw [List.append_assoc, List.cons_append]
      exact List.mem_append_right _ (List.mem_cons_of_mem _ hb))
    obtain ⟨f, hf, data, part, hdata, hnone, hne, hpart⟩ :=
      hcut.leaves baseSecretPath defaultNamespace (hruns a (by simp))
    have hbefore : moved.lookup f.name = none := by
      by_contra hsome
      obtain ⟨old, hold⟩ := Option.ne_none_iff_exists'.mp hsome
      have hearlier : (migrate baseSecretPath defaultNamespace dir earlier moved).lookup f.name =
          some old :=
        lookup_migrate_of_some (fun b hb => hruns b (List.mem_append_left _ hb)) hold
      nomatch hnone.symm.trans hearlier
    have hcopied := hmigrated.copied f hf data hdata hbefore
    rw [List.append_assoc, List.cons_append, migrate_append, migrate_cons,
      lookup_migrate_of_some hafter hpart] at hcopied
    exact hne (Option.some.inj hcopied)
  · intro hcut
    rw [migrate_append, migrate_cons, migrate_nil]
    have hpresent := present_of_moveSecrets hlast hnil
    refine ⟨fun f hf data hdata hbefore => ?_, fun name old hold => ?_, fun a ha => ?_⟩
    · obtain ⟨new, hnew⟩ := Option.ne_none_iff_exists'.mp (hpresent f hf (by simp [hdata]))
      have hsource : ∃ g ∈ dir.files, g.name = f.name ∧ g.data = some new := by
        cases hnext : (migrate baseSecretPath defaultNamespace dir runs moved).lookup f.name with
        | none =>
          have hnocut := not_cutsShort_of_moveSecrets hlast hnil
          exact (new_of_moveSecrets hlast hnext hnew).resolve_right hnocut
        | some next =>
          obtain rfl : next = new :=
            Option.some.inj ((lookup_moveSecrets_of_some hlast hnext).symm.trans hnew)
          exact new_of_migrate hruns hcut hbefore hnext
      obtain ⟨g, hg, hname, hgdata⟩ := hsource
      obtain rfl : g = f := List.inj_on_of_nodup_map dir.names hg hf hname
      rw [hnew, ← hgdata, hdata]
    · exact lookup_moveSecrets_of_some hlast (lookup_migrate_of_some hruns hold)
    · exact moveSecrets_of_present ha hpresent

end Sequence

/-! ### A copy that is broken off -/

/-- One secret. -/
def oneSecret : SecretsDirectory where
  files := [{ name := "key".toList, data := some "pw".toList }]
  names := by decide

/-- A run in which no call fails. -/
def undisturbedRun : MigrationAnswers where

/-- A run that cannot open the secrets. -/
def deniedRun : MigrationAnswers where
  copyFile := fun _ => .openSource "permission denied".toList

/-- The process ends when one byte of a copy is written. -/
def killedRun : MigrationAnswers where
  copyFile := fun _ => .stops (some 1)

/-- The theorem at one secret, a run that is denied the right to move it and one that is not. -/
theorem migrated_iff_denied :
    Migrated "s".toList "fn".toList oneSecret ∅
      (migrate "s".toList "fn".toList oneSecret ([deniedRun] ++ [undisturbedRun]) ∅) := by
  refine (migrated_iff (fun a ha => ?_) (by rfl)).mpr ?_
  · rcases List.mem_pair.mp ha with rfl | rfl <;> exact fun _ => rfl
  · rintro earlier a later heq ⟨-, -, f, data, written, -, -, hwritten, -⟩
    obtain rfl : a = deniedRun := by
      cases earlier with
      | nil => exact (List.cons.inj heq).1.symm
      | cons b earlier => simp at heq
    nomatch hwritten

/-- **A secret can stay cut short**: the run after the one that was killed returns nil. -/
theorem not_migrated :
    (moveSecretsToDefaultNamespaceSecrets undisturbedRun "s".toList "fn".toList oneSecret
      (migrate "s".toList "fn".toList oneSecret [killedRun] ∅)).2 = .returns none ∧
    ¬ Migrated "s".toList "fn".toList oneSecret ∅
      (migrate "s".toList "fn".toList oneSecret ([killedRun] ++ [undisturbedRun]) ∅) := by
  refine ⟨by rfl, fun hmigrated => ?_⟩
  have hcopied := hmigrated.copied ⟨"key".toList, some "pw".toList⟩ List.mem_cons_self
    "pw".toList rfl rfl
  revert hcopied
  decide

end Fecore
