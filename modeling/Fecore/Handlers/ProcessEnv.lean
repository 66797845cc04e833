import Mathlib.Tactic.Common
import Fecore.Data.Words
import Fecore.Handlers.Functions

set_option relaxedAutoImplicit false
set_option autoImplicit false

/-!
# The environment of a process

`prepareEnv` of `pkg/provider/handlers/deploy.go` writes the environment of a function as strings
with an equals sign, and `readEnvFromProcessEnv` of `functions.go` reads such strings. The key
`fprocess` is the command of the function.

## Main definitions

* `Fecore.prepareEnv`, `Fecore.readEnvFromProcessEnv` — the two functions.
* `Fecore.ReadBack` — the environment and the command are read back.
* `Fecore.EnvKept` — which of them are.

## Main results

* `Fecore.lookup_readEnv` — what is read of the variables that are written.
* `Fecore.readBack_iff` — when all is read back.
-/

namespace Fecore

/-- The key of the command. -/
def fprocessKey : Str := "fprocess".toList

/-- The key that is left out when the environment is read. -/
def pathKey : Str := "PATH".toList

/-- The variables of the loop of `prepareEnv`. -/
structure EnvLoop where
  envs : List Str
  fprocessFound : Bool
  fprocess : Str

/-- A turn of the loop of `prepareEnv`. The value of `fprocess` stands there without its key. -/
def EnvLoop.add (l : EnvLoop) (kv : Sigma fun _ : Str => Str) : EnvLoop :=
  if kv.1 = fprocessKey then { l with fprocessFound := true, fprocess := kv.2 }
  else { l with envs := l.envs ++ [kv.1 ++ '=' :: kv.2] }

/-- `prepareEnv` -/
def prepareEnv (envProcess : Str) (reqEnvVars : GoMap Str) : List Str :=
  let l : EnvLoop := reqEnvVars.entries.foldl EnvLoop.add
    { envs := []
      fprocessFound := 0 < envProcess.length
      fprocess := fprocessKey ++ '=' :: envProcess }
  if l.fprocessFound then l.envs ++ [l.fprocess] else l.envs

/-- A turn of the loop of `readEnvFromProcessEnv`. -/
def readEnv (found : GoMap Str × Str) (e : Str) : GoMap Str × Str :=
  match e.splitOn '=' with
  | key :: value :: _ =>
    if key = pathKey then found
    else if key = fprocessKey then (found.1, value)
    else (found.1.insert key value, found.2)
  | _ => found

/-- `readEnvFromProcessEnv` -/
def readEnvFromProcessEnv (env : List Str) : GoMap Str × Str := env.foldl readEnv (∅, [])

/-- **The environment is read back**: all variables but `PATH` and `fprocess`, with their values,
and the command. -/
structure ReadBack (envProcess : Str) (reqEnvVars : GoMap Str) : Prop where
  vars : ∀ k, (readEnvFromProcessEnv (prepareEnv envProcess reqEnvVars)).1.lookup k =
    if k = pathKey ∨ k = fprocessKey then none else reqEnvVars.lookup k
  process : (readEnvFromProcessEnv (prepareEnv envProcess reqEnvVars)).2 =
    (reqEnvVars.lookup fprocessKey).getD envProcess

/-- **What survives**: values without an equals sign, an empty value of `fprocess`, and, where the
environment does not have that key, a command without an equals sign. -/
structure EnvKept (envProcess : Str) (reqEnvVars : GoMap Str) : Prop where
  values : ∀ k v, reqEnvVars.lookup k = some v → k ≠ pathKey → k ≠ fprocessKey → '=' ∉ v
  override : ∀ v, reqEnvVars.lookup fprocessKey = some v → v = []
  process : reqEnvVars.lookup fprocessKey = none → '=' ∉ envProcess

/-! ### What is written -/

/-- The variables besides the command, as they are written. -/
def writtenVars (l : List (Sigma fun _ : Str => Str)) : List Str :=
  (l.filter fun kv => decide (kv.1 ≠ fprocessKey)).map fun kv => kv.1 ++ '=' :: kv.2

/-- The loop writes the variables and keeps the value of `fprocess` for the end.

**Proof sketch.** Induct on the entries. Case split on whether the key is that of `fprocess`: if it
is, no later entry has it. -/
lemma foldl_add {entries : List (Sigma fun _ : Str => Str)} (h : entries.NodupKeys) (l : EnvLoop) :
    entries.foldl EnvLoop.add l =
      { envs := l.envs ++ writtenVars entries
        fprocessFound := l.fprocessFound || (entries.dlookup fprocessKey).isSome
        fprocess := (entries.dlookup fprocessKey).getD l.fprocess } := by
  induction entries generalizing l with
  | nil => simp [writtenVars]
  | cons kv entries ih =>
    obtain ⟨key, value⟩ := kv
    rw [List.nodupKeys_cons] at h
    rw [List.foldl_cons, ih h.2, EnvLoop.add]
    by_cases hkey : key = fprocessKey
    · subst hkey
      have hnone : entries.dlookup fprocessKey = none := List.dlookup_eq_none.mpr h.1
      simp [writtenVars, hnone]
    · rw [if_neg hkey, List.dlookup_cons_ne _ _ (Ne.symm hkey)]
      simp [writtenVars, hkey]

/-- **What `prepareEnv` writes**: the variables, and then the value of `fprocess` as it is, or the
command of the request. -/
theorem prepareEnv_eq (envProcess : Str) (reqEnvVars : GoMap Str) :
    prepareEnv envProcess reqEnvVars =
      writtenVars reqEnvVars.entries ++
        match reqEnvVars.lookup fprocessKey with
        | some v => [v]
        | none => if envProcess = [] then [] else [fprocessKey ++ '=' :: envProcess] := by
  have hlookup : reqEnvVars.entries.dlookup fprocessKey = reqEnvVars.lookup fprocessKey := rfl
  rw [prepareEnv, foldl_add reqEnvVars.nodupKeys, hlookup]
  cases reqEnvVars.lookup fprocessKey with
  | some v => simp
  | none => cases envProcess <;> simp

/-! ### What is read -/

/-- What is read of a value: the part before the first equals sign. -/
def readValue (v : Str) : Str := (v.splitOn '=').headD []

/-- What is read of a value ends before the first equals sign. -/
lemma equals_notMem_readValue (v : Str) : '=' ∉ readValue v := by
  obtain ⟨piece, pieces, hpieces⟩ := List.exists_cons_of_ne_nil (List.splitOn_ne_nil '=' v)
  rw [readValue, hpieces]
  exact List.notMem_of_mem_splitOn (hpieces ▸ List.mem_cons_self)

/-- A value is read as it is when it has no equals sign. -/
lemma readValue_eq_iff {v : Str} : readValue v = v ↔ '=' ∉ v := by
  constructor
  · intro h
    exact h ▸ equals_notMem_readValue v
  · intro h
    rw [readValue, List.splitOn_eq_singleton h]
    rfl

/-- A variable is read with the part of its value before the first equals sign. -/
lemma readEnv_var {key : Str} (h : '=' ∉ key) (value : Str) (found : GoMap Str × Str) :
    readEnv found (key ++ '=' :: value) =
      if key = pathKey then found
      else if key = fprocessKey then (found.1, readValue value)
      else (found.1.insert key (readValue value), found.2) := by
  obtain ⟨piece, pieces, hpieces⟩ := List.exists_cons_of_ne_nil (List.splitOn_ne_nil '=' value)
  rw [readEnv, List.splitOn_append_cons_self_of_not_mem h, readValue, hpieces]
  rfl

/-- A string that is read as the command has it behind an equals sign. -/
lemma readEnv_snd (e : Str) (m : GoMap Str) : '=' ∉ (readEnv (m, []) e).2 := by
  unfold readEnv
  split
  next key value pieces hpieces =>
    have hvalue : '=' ∉ value := List.notMem_of_mem_splitOn (by rw [hpieces]; simp)
    split
    · exact List.not_mem_nil
    · split
      · exact hvalue
      · exact List.not_mem_nil
  next => exact List.not_mem_nil

/-- A string without an equals sign is skipped. -/
lemma readEnv_of_notMem {e : Str} (h : '=' ∉ e) (found : GoMap Str × Str) :
    readEnv found e = found := by
  rw [readEnv, List.splitOn_eq_singleton h]

/-- **What is read of the variables that are written.**

**Proof sketch.** Induct on the variables. One of them is left out when it is written, one is passed
over when it is read, and every other one inserts its value, which no later one overwrites. -/
theorem lookup_readEnv {entries : List (Sigma fun _ : Str => Str)} (h : entries.NodupKeys)
    (hkeys : ∀ k ∈ entries.keys, '=' ∉ k) (found : GoMap Str × Str) :
    (∀ k, ((writtenVars entries).foldl readEnv found).1.lookup k =
        if k = pathKey ∨ k = fprocessKey then found.1.lookup k
        else ((entries.dlookup k).map readValue).or (found.1.lookup k)) ∧
      ((writtenVars entries).foldl readEnv found).2 = found.2 := by
  induction entries generalizing found with
  | nil => simp [writtenVars]
  | cons kv entries ih =>
    obtain ⟨key, value⟩ := kv
    rw [List.nodupKeys_cons] at h
    rw [List.keys_cons, List.forall_mem_cons] at hkeys
    have hnone : entries.dlookup key = none := List.dlookup_eq_none.mpr h.1
    by_cases hkey : key = fprocessKey
    · -- the command is not among the variables
      have hwritten : writtenVars (⟨key, value⟩ :: entries) = writtenVars entries := by
        simp [writtenVars, hkey]
      rw [hwritten]
      refine ⟨fun k => ?_, (ih h.2 hkeys.2 found).2⟩
      rw [(ih h.2 hkeys.2 found).1]
      split
      next => rfl
      next hk =>
        rw [List.dlookup_cons_ne _ _ fun heq => hk (.inr (heq.trans hkey))]
    · have hwritten : writtenVars (⟨key, value⟩ :: entries) =
          (key ++ '=' :: value) :: writtenVars entries := by
        simp [writtenVars, hkey]
      rw [hwritten, List.foldl_cons, readEnv_var hkeys.1, if_neg hkey]
      by_cases hpath : key = pathKey
      · rw [if_pos hpath]
        refine ⟨fun k => ?_, (ih h.2 hkeys.2 found).2⟩
        rw [(ih h.2 hkeys.2 found).1]
        split
        next => rfl
        next hk =>
          rw [List.dlookup_cons_ne _ _ fun heq => hk (.inl (heq.trans hpath))]
      · rw [if_neg hpath]
        refine ⟨fun k => ?_, (ih h.2 hkeys.2 _).2⟩
        rw [(ih h.2 hkeys.2 _).1]
        by_cases hk : k = key
        · subst hk
          rw [if_neg (not_or.mpr ⟨hpath, hkey⟩), if_neg (not_or.mpr ⟨hpath, hkey⟩), hnone,
            AList.lookup_insert, List.dlookup_cons_eq]
          rfl
        · rw [AList.lookup_insert_ne hk, List.dlookup_cons_ne _ _ hk]

/-! ### When all is read back -/

section ReadBack

variable {envProcess : Str} {reqEnvVars : GoMap Str}

/-- What is read of the variables. -/
def readVars (reqEnvVars : GoMap Str) : GoMap Str :=
  ((writtenVars reqEnvVars.entries).foldl readEnv (∅, [])).1

/-- The variables are read back one after the other, as far as their first equals signs. -/
lemma foldl_readEnv (hkeys : ∀ k ∈ reqEnvVars, '=' ∉ k) :
    (writtenVars reqEnvVars.entries).foldl readEnv (∅, []) = (readVars reqEnvVars, []) :=
  Prod.ext rfl (lookup_readEnv reqEnvVars.nodupKeys hkeys (∅, [])).2

/-- The variables are read with the parts of their values before the first equals sign. -/
lemma lookup_readVars (hkeys : ∀ k ∈ reqEnvVars, '=' ∉ k) (k : Str) :
    (readVars reqEnvVars).lookup k =
      if k = pathKey ∨ k = fprocessKey then none else (reqEnvVars.lookup k).map readValue := by
  have hempty : (∅ : GoMap Str).lookup k = none := rfl
  rw [readVars, (lookup_readEnv reqEnvVars.nodupKeys hkeys (∅, [])).1]
  simp only [hempty, Option.or_none]
  rfl

/-- The variables are read back when their values have no equals sign.

**Proof sketch.** A key that is read back has the value up to the first equals sign
(`lookup_readVars`), so the two agree exactly when the value has none. -/
lemma readVars_iff (hkeys : ∀ k ∈ reqEnvVars, '=' ∉ k) :
    (∀ k, (readVars reqEnvVars).lookup k =
        if k = pathKey ∨ k = fprocessKey then none else reqEnvVars.lookup k) ↔
      ∀ k v, reqEnvVars.lookup k = some v → k ≠ pathKey → k ≠ fprocessKey → '=' ∉ v := by
  constructor
  · intro h k v hv hpath hprocess
    have hk := h k
    have hother : ¬ (k = pathKey ∨ k = fprocessKey) := not_or.mpr ⟨hpath, hprocess⟩
    rw [lookup_readVars hkeys, if_neg hother, if_neg hother, hv, Option.map_some] at hk
    exact readValue_eq_iff.mp (Option.some.inj hk)
  · intro h k
    rw [lookup_readVars hkeys]
    split
    next => rfl
    next hk =>
      obtain ⟨hpath, hprocess⟩ := not_or.mp hk
      cases hv : reqEnvVars.lookup k with
      | none => rfl
      | some v => rw [Option.map_some, readValue_eq_iff.mpr (h k v hv hpath hprocess)]

/-- **When all is read back.**

**Proof sketch.** A value is cut at its first equals sign. The value of `fprocess` is written
without its key, so it is never read as the command, and can at best be empty. -/
theorem readBack_iff (hkeys : ∀ k ∈ reqEnvVars, '=' ∉ k) :
    ReadBack envProcess reqEnvVars ↔ EnvKept envProcess reqEnvVars := by
  have hread : readEnvFromProcessEnv (prepareEnv envProcess reqEnvVars) =
      (match reqEnvVars.lookup fprocessKey with
        | some v => [v]
        | none => if envProcess = [] then [] else [fprocessKey ++ '=' :: envProcess]).foldl
          readEnv (readVars reqEnvVars, []) := by
    rw [readEnvFromProcessEnv, prepareEnv_eq, List.foldl_append, foldl_readEnv hkeys]
  cases hprocess : reqEnvVars.lookup fprocessKey with
  | some v =>
    rw [hprocess, List.foldl_cons, List.foldl_nil] at hread
    by_cases hv : v = []
    · subst hv
      rw [readEnv_of_notMem List.not_mem_nil] at hread
      constructor
      · intro h
        refine ⟨(readVars_iff hkeys).mp fun k => ?_, ?_, ?_⟩
        · rw [← h.vars k, hread]
        · rintro w hw
          exact Option.some.inj (hw.symm.trans hprocess)
        · intro hnone
          nomatch hnone.symm.trans hprocess
      · intro h
        refine ⟨fun k => ?_, ?_⟩
        · rw [hread]
          exact (readVars_iff hkeys).mpr h.values k
        · rw [hread, hprocess]
          rfl
    · refine iff_of_false (fun h => ?_) fun h => hv (h.override v hprocess)
      have hsnd := h.process
      rw [hread, hprocess, Option.getD_some] at hsnd
      have hno : '=' ∉ v := by
        have hsome := readEnv_snd v (readVars reqEnvVars)
        rwa [hsnd] at hsome
      rw [readEnv_of_notMem hno] at hsnd
      exact hv hsnd.symm
  | none =>
    rw [hprocess] at hread
    have hfinal : readEnvFromProcessEnv (prepareEnv envProcess reqEnvVars) =
        (readVars reqEnvVars, readValue envProcess) := by
      rw [hread]
      by_cases hempty : envProcess = []
      · simp [hempty, readValue]
      · rw [if_neg hempty, List.foldl_cons, List.foldl_nil, readEnv_var (by decide),
          if_neg (by decide), if_pos rfl]
    constructor
    · intro h
      refine ⟨(readVars_iff hkeys).mp fun k => ?_, ?_, fun _ => ?_⟩
      · rw [← h.vars k, hfinal]
      · rintro v hv
        nomatch hv.symm.trans hprocess
      · have hsnd := h.process
        rw [hfinal, hprocess] at hsnd
        exact readValue_eq_iff.mp hsnd
    · intro h
      refine ⟨fun k => ?_, ?_⟩
      · rw [hfinal]
        exact (readVars_iff hkeys).mpr h.values k
      · rw [hfinal, hprocess]
        exact readValue_eq_iff.mpr (h.process hprocess)

/-- The theorem at a command and one variable. -/
theorem readBack_iff_mode : ReadBack "node index.js".toList
    ((∅ : GoMap Str).insert "mode".toList "fast".toList) := by
  refine (readBack_iff fun k hk => ?_).mpr ⟨fun k v hv _ _ => ?_, fun v hv => ?_, fun _ => ?_⟩
  · rcases (AList.mem_insert _).mp hk with rfl | hk
    · decide
    · exact absurd hk (AList.notMem_empty k)
  · by_cases hk : k = "mode".toList
    · rw [hk, AList.lookup_insert] at hv
      obtain rfl := Option.some.inj hv
      decide
    · rw [AList.lookup_insert_ne hk] at hv
      nomatch hv
  · rw [AList.lookup_insert_ne (by decide)] at hv
    nomatch hv
  · decide

/-- **A value can be cut**: the option that a variable holds is lost. -/
theorem not_readBack : ¬ ReadBack [] ((∅ : GoMap Str).insert "opts".toList "-m=64".toList) := by
  intro h
  have hvars := h.vars "opts".toList
  revert hvars
  decide

/-- The value of `fprocess` is not read as the command. -/
example : readEnvFromProcessEnv (prepareEnv [] ((∅ : GoMap Str).insert fprocessKey "cat".toList)) =
    (∅, []) := rfl

end ReadBack

end Fecore
