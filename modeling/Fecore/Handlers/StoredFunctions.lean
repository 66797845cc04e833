import Mathlib.Data.List.AList
import Mathlib.Tactic.Common
import Fecore.Handlers.Restart

set_option relaxedAutoImplicit false
set_option autoImplicit false

/-!
# A function and its row

`AddDeployedFunction` writes a function to the storage through `getStorageFunction`, and
`InitFunctionStore` reads it back through `getFunction`, which decodes the columns of the
environment and of the secrets into the annotations.

## Main definitions

* `Fecore.FunctionRecord` — the persisted fields of a function.
* `Fecore.getStorageFunction` — its row.
* `Fecore.FunctionRecord.AgreesWith` — a function has the fields of the record.
* `Fecore.FunctionRecord.ComesBack` — the condition under which it does after the round trip.

## Main results

* `Fecore.getFunction_getStorageFunction_iff` — the records that come back from their row.
* `Fecore.startProvider_agreesWith_iff` — the same over a restart of the provider.

## Design

A nil map and an empty one are the same to every reader, but not to `json.Marshal`: the record tells
them apart, and a function agrees with it when its maps have the same entries.
-/

namespace Fecore

/-- The persisted fields of a `Function`; a nil map or list is none. -/
structure FunctionRecord where
  name : Str
  namespace_ : Str
  image : Str
  labels : Option (GoMap Str) := none
  annotations : Option (GoMap Str) := none
  secrets : Option (List Str) := none
  secretsPath : Str := []
  envVars : Option (GoMap Str) := none
  envProcess : Str := []
  memoryLimit : ℤ := 0

/-- `json.Marshal` of a map of strings. -/
def Json.marshalMap : Option (GoMap Str) → Json
  | none => .null
  | some m => .object m

/-- `json.Marshal` of a list of strings. -/
def Json.marshalList : Option (List Str) → Json
  | none => .null
  | some xs => .array xs

/-- `getStorageFunction`. -/
def getStorageFunction (f : FunctionRecord) : StorageFunction :=
  { name := f.name
    namespace_ := f.namespace_
    image := f.image
    labels := .marshalMap f.labels
    annotations := .marshalMap f.annotations
    secrets := .marshalList f.secrets
    secretsPath := f.secretsPath
    envVars := .marshalMap f.envVars
    envProcess := f.envProcess
    memoryLimit := f.memoryLimit }

/-- The map has the entries of the record's, which may be nil. -/
def SameEntries (m : Option (GoMap Str)) (g : GoMap Str) : Prop :=
  ∀ k, g.lookup k = (m.getD ∅).lookup k

/-- **The function has the persisted fields of the record.** -/
structure FunctionRecord.AgreesWith (f : FunctionRecord) (g : Function) : Prop where
  name : g.name = f.name
  namespace_ : g.namespace_ = f.namespace_
  image : g.image = f.image
  labels : SameEntries f.labels g.labels
  annotations : SameEntries f.annotations g.annotations
  secrets : g.secrets = f.secrets.getD []
  secretsPath : g.secretsPath = f.secretsPath
  envVars : SameEntries f.envVars g.envVars
  envProcess : g.envProcess = f.envProcess
  memoryLimit : g.memoryLimit = f.memoryLimit

/-! ### Maps through JSON -/

/-- A map decoded into a fresh one comes back. -/
lemma Json.unmarshal_marshalMap_empty (m : Option (GoMap Str)) :
    (Json.marshalMap m).unmarshal ∅ = m.getD ∅ := by
  cases m with
  | none => rfl
  | some m => exact AList.union_empty

/-- An empty map is decoded to nothing when it is nil, and leaves what is there otherwise. -/
lemma Json.unmarshal_marshalMap_of_empty {m : Option (GoMap Str)} (hm : m.getD ∅ = ∅)
    (a : GoMap Str) : (Json.marshalMap m).unmarshal a = if m = none then ∅ else a := by
  cases m with
  | none => rfl
  | some m =>
    obtain rfl : m = ∅ := hm
    exact AList.empty_union

/-- A list is never decoded into a map: nil clears the map, and any other leaves it. -/
lemma Json.unmarshal_marshalList (xs : Option (List Str)) (a : GoMap Str) :
    (Json.marshalList xs).unmarshal a = if xs = none then ∅ else a := by
  cases xs <;> rfl

/-- A map in which nothing is found is empty. -/
lemma eq_empty_of_lookup {m : GoMap Str} (h : ∀ k, m.lookup k = none) : m = ∅ := by
  apply AList.ext
  cases hm : m.entries with
  | nil => rfl
  | cons kv rest =>
    have hmem : kv.1 ∈ m := List.mem_map.mpr ⟨kv, hm ▸ List.mem_cons_self, rfl⟩
    exact absurd hmem (AList.lookup_eq_none.mp (h kv.1))

/-- The empty map has the entries of a record's that is empty or nil. -/
lemma sameEntries_empty_iff {m : Option (GoMap Str)} : SameEntries m ∅ ↔ m.getD ∅ = ∅ := by
  constructor
  · exact fun h => eq_empty_of_lookup fun k => (h k).symm
  · intro h k
    rw [h]

/-! ### There and back -/

/-- The annotations that come back when there are no variables and no secrets. -/
lemma annotations_getStorageFunction {f : FunctionRecord} (henv : f.envVars.getD ∅ = ∅) :
    (getFunction (getStorageFunction f)).annotations =
      if f.secrets = none ∨ f.envVars = none then ∅ else f.annotations.getD ∅ := by
  have heq : (getFunction (getStorageFunction f)).annotations =
      (Json.marshalList f.secrets).unmarshal ((Json.marshalMap f.envVars).unmarshal
        ((Json.marshalMap f.annotations).unmarshal ∅)) := rfl
  rw [heq, Json.unmarshal_marshalMap_empty, Json.unmarshal_marshalMap_of_empty henv,
    Json.unmarshal_marshalList]
  by_cases hs : f.secrets = none <;> simp [hs]

/-- The record comes back from its row: no variables, no secrets, and no annotations either unless
the other two are empty without being nil. -/
def FunctionRecord.ComesBack (f : FunctionRecord) : Prop :=
  f.envVars.getD ∅ = ∅ ∧ f.secrets.getD [] = [] ∧
    (f.annotations.getD ∅ = ∅ ∨ (f.envVars ≠ none ∧ f.secrets ≠ none))

/-- The variables and the secrets come back empty; a nil one clears the annotations. -/
lemma FunctionRecord.AgreesWith.comesBack {f : FunctionRecord}
    (h : f.AgreesWith (getFunction (getStorageFunction f))) : f.ComesBack := by
  have henv : f.envVars.getD ∅ = ∅ := sameEntries_empty_iff.mp h.envVars
  have hsecrets : [] = f.secrets.getD [] := h.secrets
  refine ⟨henv, hsecrets.symm, ?_⟩
  by_cases hnil : f.secrets = none ∨ f.envVars = none
  · have hann := h.annotations
    rw [annotations_getStorageFunction henv, if_pos hnil] at hann
    exact .inl (sameEntries_empty_iff.mp hann)
  · rw [not_or] at hnil
    exact .inr ⟨hnil.2, hnil.1⟩

/-- A record that comes back does so with all its fields.

**Proof sketch.** The fields that are stored as they are come back at once; labels come back from
their JSON text, and the annotations as the decoding of the variables has left them. -/
lemma FunctionRecord.ComesBack.agreesWith {f : FunctionRecord} (h : f.ComesBack) :
    f.AgreesWith (getFunction (getStorageFunction f)) := by
  obtain ⟨henv, hsecrets, hann⟩ := h
  have hlabels : (getFunction (getStorageFunction f)).labels = f.labels.getD ∅ :=
    Json.unmarshal_marshalMap_empty f.labels
  refine
    { name := rfl
      namespace_ := rfl
      image := rfl
      labels := fun k => by rw [hlabels]
      annotations := fun k => ?_
      secrets := hsecrets.symm
      secretsPath := rfl
      envVars := sameEntries_empty_iff.mpr henv
      envProcess := rfl
      memoryLimit := rfl }
  rw [annotations_getStorageFunction henv]
  split
  · next hnil =>
    obtain hempty | ⟨henv', hsecrets'⟩ := hann
    · rw [hempty]
    · exact absurd hnil (by simp [henv', hsecrets'])
  · rfl

/-- **The round trip of a function through its row**: it agrees on every persisted field exactly
when the function has no environment variables and no secrets, and has no annotations either unless
both of the others are empty without being nil.

**Proof sketch.** The fields that are no maps, and the labels, always come back. The variables and
the secrets come back empty. Where they are empty to begin with, decoding them into the annotations
clears these when one of them is nil, and changes nothing otherwise. -/
theorem getFunction_getStorageFunction_iff (f : FunctionRecord) :
    f.AgreesWith (getFunction (getStorageFunction f)) ↔
      f.envVars.getD ∅ = ∅ ∧ f.secrets.getD [] = [] ∧
        (f.annotations.getD ∅ = ∅ ∨ (f.envVars ≠ none ∧ f.secrets ≠ none)) :=
  ⟨fun h => h.comesBack, fun h => FunctionRecord.ComesBack.agreesWith h⟩

/-- What `MakeDeployHandler` and `deploy` make of a request without annotations, labels or secrets
but with one variable. -/
def oneVariable : FunctionRecord :=
  { name := "f".toList
    namespace_ := defaultFunctionNamespace
    image := "img".toList
    labels := some ∅
    envVars := some (AList.singleton "LEVEL".toList "debug".toList)
    memoryLimit := 50000000 }

/-- The variable comes back as nothing. -/
theorem not_getFunction_getStorageFunction_oneVariable :
    ¬ oneVariable.AgreesWith (getFunction (getStorageFunction oneVariable)) :=
  fun h => absurd (h.envVars "LEVEL".toList) (by decide)

/-- **A function over a restart**: stored by its record, it is deployed again with the fields of the
record exactly when the record comes back from its row. -/
theorem startProvider_agreesWith_iff {cfg : Config} {storage : Storage} {now : Time} {w : World}
    {f : FunctionRecord} (h : startProvider cfg storage now = .ok w)
    (hf : getStorageFunction f ∈ storage.functions) :
    (∃ o g, w.fn? f.name = some (o, g) ∧ f.AgreesWith g) ↔ f.ComesBack := by
  obtain ⟨o, ho⟩ := (startProvider_restored h).1.deployed _ hf
  have hname : w.fn? f.name = some (o, getFunction (getStorageFunction f)) := ho
  rw [hname]
  constructor
  · rintro ⟨o', g, heq, hagrees⟩
    obtain ⟨-, rfl⟩ := Prod.mk.inj (Option.some.inj heq)
    exact hagrees.comesBack
  · exact fun hcond => ⟨o, _, rfl, hcond.agreesWith⟩

end Fecore
