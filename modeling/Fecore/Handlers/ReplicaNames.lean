import Mathlib.Tactic.Common
import Fecore.Data.Words
import Fecore.Handlers.Provider
import Fecore.Handlers.Stats

set_option relaxedAutoImplicit false
set_option autoImplicit false

/-!
# Reading the names of replicas

The name of a replica is put together from the name of its function, a UUID and a letter for its
container type. Two places read it: `UpdateReplicaStatusInactive` looks for the letter behind an
underscore anywhere in the name, and `UpdateFunctionStats` splits the name at the underscores.

## Main definitions

* `Fecore.nameChar`, `Fecore.uuidChar` — the characters that the router admits in a name, and those
  of a UUID.
* `Fecore.DecodesRight` — both readers get back what was put in.

## Main results

* `Fecore.replicaType_nativeName`, `Fecore.replicaType_wasmName` — what the first reader gets.
* `Fecore.updateFunctionStats_name` — what the second reader gets.
* `Fecore.decodesRight_iff` — both get back what was put in exactly when the name has no underscore.
-/

namespace Fecore

/-- The characters of `NameExpression`. -/
def nameChar (c : Char) : Bool := c.isAlphanum || c = '-' || c = '_' || c = '.'

/-- Hexadecimal digits and hyphens. -/
def uuidChar (c : Char) : Bool :=
  c.isDigit || c ∈ "abcdefABCDEF-".toList

/-- The text is made of hexadecimal digits and hyphens. -/
def IsUUID (uuid : Str) : Prop := ∀ c ∈ uuid, uuidChar c = true

/-- Whether a text is made of such characters is decided one by one. -/
instance : DecidablePred IsUUID := fun uuid => List.decidableBAll _ uuid

/-- Any other character does not occur in it. -/
lemma IsUUID.notMem {uuid : Str} (h : IsUUID uuid) {c : Char} (hc : uuidChar c = false) :
    c ∉ uuid := by
  intro hmem
  rw [h c hmem] at hc
  cases hc

/-! ### Looking for the letter -/

/-- Behind the name, no underscore is followed by a `w`. -/
lemma not_contains_w_tail {uuid : Str} (h : IsUUID uuid) :
    ¬ ['_', 'w'] <:+: '_' :: (uuid ++ "_n".toList) := by
  have htail : ¬ ['_', 'w'] <:+: "_n".toList := by decide
  have huuid : ¬ ['_', 'w'] <:+: uuid :=
    fun hin => h.notMem (by decide) (hin.subset List.mem_cons_self)
  have hrest : ¬ ['_', 'w'] <:+: uuid ++ "_n".toList := by
    rw [List.pair_infix_append (by decide)]
    exact not_or.mpr ⟨huuid, htail⟩
  rw [List.infix_cons_iff]
  refine not_or.mpr ⟨fun hpre => ?_, hrest⟩
  rw [List.cons_prefix_cons] at hpre
  cases uuid with
  | nil => exact absurd hpre.2 (by decide)
  | cons c uuid =>
    have hw : 'w' = c := (List.cons_prefix_cons.mp hpre.2).1
    exact h.notMem (c := 'w') (by decide) (hw ▸ List.mem_cons_self)

/-- **The first reader, on the name of a native replica**: it is deceived when the name of the
function has a `w` behind an underscore. -/
theorem replicaType_nativeName (name : Str) {uuid : Str} (h : IsUUID uuid) :
    replicaType (nativeName name uuid) =
      if contains name "_w".toList then wasm else native := by
  have hname : nativeName name uuid = name ++ '_' :: (uuid ++ "_n".toList) := by
    simp [nativeName]
  have hw : ['_', 'w'] <:+: nativeName name uuid ↔ ['_', 'w'] <:+: name := by
    rw [hname, List.pair_infix_append (by simp)]
    exact or_iff_left (not_contains_w_tail h)
  have hn : contains (nativeName name uuid) "_n".toList = true :=
    contains_iff.mpr (List.suffix_append _ _).isInfix
  have hcontains : contains (nativeName name uuid) "_w".toList = contains name "_w".toList :=
    Bool.eq_iff_iff.mpr (contains_iff.trans (hw.trans contains_iff.symm))
  unfold replicaType
  rw [hcontains, if_pos hn]

/-- **The first reader, on the name of a WASM replica.** -/
theorem replicaType_wasmName (name uuid : Str) : replicaType (wasmName name uuid) = wasm :=
  if_pos (contains_iff.mpr (List.suffix_append _ _).isInfix)

/-! ### Splitting the name -/

/-- The name of a replica, with the letter at its end. -/
def nameWith (name uuid : Str) (letter : Char) : Str := name ++ '_' :: (uuid ++ ['_', letter])

/-- Native replicas have the letter `n`. -/
lemma nativeName_eq (name uuid : Str) : nativeName name uuid = nameWith name uuid 'n' := by
  simp [nativeName, nameWith]

/-- WASM replicas have the letter `w`. -/
lemma wasmName_eq (name uuid : Str) : wasmName name uuid = nameWith name uuid 'w' := by
  simp [wasmName, nameWith]

/-- The container type that the letter stands for. -/
def letterType (letter : Char) : Str := if letter = 'n' then native else wasm

/-- The two stats of an invocation of a hybrid function. -/
def hybridStats (fn sandboxName ctrType : Str) (startupTime execTime : ℤ) (startupType : Str) :
    List FunctionStat :=
  [⟨fn, ctrType, startupTime, execTime, startupType⟩,
    ⟨sandboxName, ctrType, startupTime, execTime, startupType⟩]

/-- **The second reader**: the stats go to the hybrid function and to the sandbox that served the
request exactly when the name of the sandbox has no underscore.

**Proof sketch.** The first piece of the split has no underscore, so it can only be a name without
one. Such a name gives the three pieces it was built of (`List.splitOn_append_cons_append`). -/
theorem updateFunctionStats_name (fn name startupType : Str) {uuid : Str} (h : IsUUID uuid)
    {letter : Char} (hletter : letter = 'n' ∨ letter = 'w') (startupTime execTime : ℤ) :
    updateFunctionStats fn hybrid (nameWith name uuid letter) startupTime execTime startupType =
        .ok (hybridStats fn name (letterType letter) startupTime execTime startupType) ↔
      '_' ∉ name := by
  constructor
  · intro heq hmem
    -- the first piece has no underscore, so it is not the name
    have hne : ((nameWith name uuid letter).splitOn '_').headD [] ≠ name := by
      intro hhead
      obtain ⟨piece, pieces, hsplit⟩ :=
        List.exists_cons_of_ne_nil (List.splitOn_ne_nil '_' (nameWith name uuid letter))
      rw [hsplit, List.headD_cons] at hhead
      have hpiece : piece ∈ (nameWith name uuid letter).splitOn '_' := by
        rw [hsplit]
        exact List.mem_cons_self
      exact List.notMem_of_mem_splitOn hpiece (hhead ▸ hmem)
    simp only [updateFunctionStats, if_true] at heq
    split at heq
    · cases heq
    · split at heq
      · simp only [hybridStats, Except.ok.injEq, List.cons.injEq, FunctionStat.mk.injEq] at heq
        exact hne heq.2.1.1
      · split at heq
        · simp only [hybridStats, Except.ok.injEq, List.cons.injEq, FunctionStat.mk.injEq] at heq
          exact hne heq.2.1.1
        · cases heq
  · intro hname
    have hlast : '_' ∉ [letter] := by rcases hletter with rfl | rfl <;> decide
    have hsplit : (nameWith name uuid letter).splitOn '_' = [name, uuid, [letter]] :=
      List.splitOn_append_cons_append hname (h.notMem (by decide)) hlast
    rcases hletter with rfl | rfl <;> simp [updateFunctionStats, hsplit, hybridStats, letterType]

/-! ### Both readers -/

/-- **Both readers get back what was put in**: the container type, and the stats go to the hybrid
function and to the sandbox that served the request, one to each. -/
structure DecodesRight (name uuid : Str) : Prop where
  native : replicaType (nativeName name uuid) = native
  wasm : replicaType (wasmName name uuid) = wasm
  nativeStats : ∀ fn startupTime execTime startupType,
    updateFunctionStats fn hybrid (nativeName name uuid) startupTime execTime startupType =
      .ok [⟨fn, Fecore.native, startupTime, execTime, startupType⟩,
        ⟨name, Fecore.native, startupTime, execTime, startupType⟩]
  wasmStats : ∀ fn startupTime execTime startupType,
    updateFunctionStats fn hybrid (wasmName name uuid) startupTime execTime startupType =
      .ok [⟨fn, Fecore.wasm, startupTime, execTime, startupType⟩,
        ⟨name, Fecore.wasm, startupTime, execTime, startupType⟩]

/-- **When both readers get back what was put in**: exactly when the name has no underscore.

**Proof sketch.** Left to right, use the reader of the statistics alone: it gets the name back only
when there is no underscore in it. Right to left, the name has no `_w` in it either, so that both
readers get the right type. -/
theorem decodesRight_iff (name : Str) {uuid : Str} (h : IsUUID uuid) :
    DecodesRight name uuid ↔ '_' ∉ name := by
  constructor
  · intro hdec
    refine (updateFunctionStats_name [] name [] h (.inl rfl) 0 0).mp ?_
    rw [← nativeName_eq]
    exact hdec.nativeStats [] 0 0 []
  · intro hname
    have hno : contains name "_w".toList = false :=
      Bool.eq_false_iff.mpr fun hin => hname ((contains_iff.mp hin).subset List.mem_cons_self)
    refine ⟨?_, replicaType_wasmName name uuid, fun fn st et type => ?_, fun fn st et type => ?_⟩
    · rw [replicaType_nativeName name h, hno]
      rfl
    · rw [nativeName_eq]
      exact (updateFunctionStats_name fn name type h (.inl rfl) st et).mpr hname
    · rw [wasmName_eq]
      exact (updateFunctionStats_name fn name type h (.inr rfl) st et).mpr hname

/-- A name without underscores. -/
theorem decodesRight_hyphen : DecodesRight "my-web".toList "1b-2c".toList :=
  (decodesRight_iff _ (by decide)).mpr (by decide)

/-- The router admits `my_web`, and a native replica of it is taken for a WASM one. -/
theorem not_decodesRight_underscore :
    "my_web".toList.all nameChar = true ∧ "1b-2c".toList.all uuidChar = true ∧
      ¬ DecodesRight "my_web".toList "1b-2c".toList :=
  ⟨by decide, by decide, fun h => absurd h.native (by decide)⟩

end Fecore
