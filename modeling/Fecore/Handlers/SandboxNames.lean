import Mathlib.Tactic.Common
import Fecore.Data.Words
import Fecore.Handlers.Provider

set_option relaxedAutoImplicit false
set_option autoImplicit false

/-!
# The sandboxes that a hybrid deployment names

`deploy` tells the native from the WASM sandbox of a hybrid function by the names in the label
`sandboxes`. The naming rule is about suffixes, `-n` and `-w`; the code searches the whole name, and
for `-n` first.

## Main results

* `Fecore.lookup_sandboxesOf_native`, `Fecore.lookup_sandboxesOf_wasm` — which name of a list each
  entry gets.
* `Fecore.deploy_sandboxes_iff` — a pair of names that follows the rule is read as the rule says
  exactly when `-n` does not stand in the name that ends in `-w`.
-/

namespace Fecore

/-- The name is taken for that of a native sandbox. -/
def namesNative (v : Str) : Bool := contains v "-n".toList

/-- The name is taken for that of a WASM sandbox. -/
def namesWasm (v : Str) : Bool := !contains v "-n".toList && contains v "-w".toList

/-- The last name of the list takes the place of an earlier one of its type. -/
lemma sandboxesOf_append_singleton (tokens : List Str) (v : Str) :
    sandboxesOf (tokens ++ [v]) =
      if contains v "-n".toList then (sandboxesOf tokens).insert native v
      else if contains v "-w".toList then (sandboxesOf tokens).insert wasm v
      else sandboxesOf tokens := by
  simp [sandboxesOf]

/-- The native sandbox is the last name with `-n` in it. -/
lemma lookup_sandboxesOf_native (tokens : List Str) :
    (sandboxesOf tokens).lookup native = (tokens.filter namesNative).getLast? := by
  have hne : native ≠ wasm := by decide
  induction tokens using List.reverseRecOn with
  | nil => rfl
  | append_singleton tokens v ih =>
    rw [sandboxesOf_append_singleton, List.filter_append, List.filter_singleton, namesNative]
    cases contains v "-n".toList with
    | true => simp
    | false =>
      rw [if_neg Bool.false_ne_true]
      split
      · simpa [AList.lookup_insert_ne hne] using ih
      · simpa using ih

/-- The WASM sandbox is the last name with `-w` and without `-n` in it. -/
lemma lookup_sandboxesOf_wasm (tokens : List Str) :
    (sandboxesOf tokens).lookup wasm = (tokens.filter namesWasm).getLast? := by
  have hne : wasm ≠ native := by decide
  induction tokens using List.reverseRecOn with
  | nil => rfl
  | append_singleton tokens v ih =>
    rw [sandboxesOf_append_singleton, List.filter_append, List.filter_singleton, namesWasm]
    cases contains v "-n".toList with
    | true => simpa [AList.lookup_insert_ne hne] using ih
    | false =>
      rw [if_neg Bool.false_ne_true]
      cases contains v "-w".toList with
      | true => simp
      | false => simpa using ih

/-- A list of two names. -/
lemma splitComma_pair {a b : Str} (ha : ',' ∉ a) (hb : ',' ∉ b) :
    splitComma (a ++ ',' :: b) = [a, b] :=
  List.splitOn_eq_pair_iff.mpr ⟨rfl, ha, hb⟩

/-- A name that ends in `-n` is taken for a native one. -/
lemma namesNative_of_suffix {n : Str} (h : "-n".toList <:+ n) : namesNative n = true :=
  contains_iff.mpr h.isInfix

/-- A name that ends in `-w` is taken for a WASM sandbox unless it has `-n` somewhere. -/
lemma namesWasm_of_suffix {w : Str} (h : "-w".toList <:+ w) :
    namesWasm w = !contains w "-n".toList := by
  rw [namesWasm, contains_iff.mpr h.isInfix, Bool.and_true]

/-- The sandboxes of a pair of names that follows the rule.

**Proof sketch.** Both names have their own suffix. The second is taken for a native one too exactly
when `-n` is in it; case split on that, and on the order of the pair. -/
lemma sandboxesOf_pair_iff {n w : Str} {tokens : List Str} (hn : "-n".toList <:+ n)
    (hw : "-w".toList <:+ w) (h : tokens = [n, w] ∨ tokens = [w, n]) :
    ((sandboxesOf tokens).lookup native = some n ∧ (sandboxesOf tokens).lookup wasm = some w) ↔
      ¬ "-n".toList <:+: w := by
  have hnn := namesNative_of_suffix hn
  have hnw : namesWasm n = false := by
    rw [namesWasm, show contains n "-n".toList = true from hnn]
    rfl
  have hww := namesWasm_of_suffix hw
  rw [lookup_sandboxesOf_native, lookup_sandboxesOf_wasm, ← contains_iff]
  cases hc : contains w "-n".toList with
  | true =>
    have hwn : namesNative w = true := hc
    rw [hc] at hww
    obtain rfl | rfl := h <;> simp [hnw, hww]
  | false =>
    have hwn : namesNative w = false := hc
    rw [hc] at hww
    obtain rfl | rfl := h <;> simp [hnn, hnw, hwn, hww]

/-- `deploy` reads the sandboxes of a hybrid function off the label. -/
lemma deploy_hybrid {req : FunctionDeployment} {labels : GoMap Str} {val : Str} (e : Env)
    (hlabels : buildLabels req = some labels)
    (hctr : labels.lookup ctrTypeLabel = some hybrid)
    (hval : labels.lookup "sandboxes".toList = some val) :
    (deploy req e).map Function.sandboxes = some (sandboxesOf (splitComma val)) := by
  have hne : (some hybrid : Option Str) ≠ some wasm := by decide
  simp only [deploy, hlabels, hctr, if_neg hne, if_true, hval, Option.map_some]

/-- **The sandboxes of a hybrid deployment**: of two names, one ending in `-n` and one ending in
`-w`, listed in either order, each goes to its own entry exactly when `-n` does not stand in the
name that ends in `-w`.

**Proof sketch.** The list is split at its comma into the two names, in their order
(`splitComma_pair`), and the function gets the sandboxes of that split (`deploy_hybrid`,
`sandboxesOf_pair_iff`). -/
theorem deploy_sandboxes_iff {req : FunctionDeployment} {labels : GoMap Str} {n w : Str} (e : Env)
    (hlabels : buildLabels req = some labels)
    (hctr : labels.lookup ctrTypeLabel = some hybrid)
    (hlist : labels.lookup "sandboxes".toList = some (n ++ ',' :: w) ∨
      labels.lookup "sandboxes".toList = some (w ++ ',' :: n))
    (hn : "-n".toList <:+ n) (hw : "-w".toList <:+ w) (hcn : ',' ∉ n) (hcw : ',' ∉ w) :
    (∃ fn, deploy req e = some fn ∧ fn.sandboxes.lookup native = some n ∧
        fn.sandboxes.lookup wasm = some w) ↔
      ¬ "-n".toList <:+: w := by
  obtain ⟨val, hval, htokens⟩ : ∃ val, labels.lookup "sandboxes".toList = some val ∧
      (splitComma val = [n, w] ∨ splitComma val = [w, n]) := by
    obtain h | h := hlist
    · exact ⟨_, h, .inl (splitComma_pair hcn hcw)⟩
    · exact ⟨_, h, .inr (splitComma_pair hcw hcn)⟩
  obtain ⟨fn, hfn, hsandboxes⟩ := Option.map_eq_some_iff.mp (deploy_hybrid e hlabels hctr hval)
  rw [← sandboxesOf_pair_iff hn hw htokens, ← hsandboxes]
  constructor
  · rintro ⟨fn', hfn', h⟩
    obtain rfl : fn = fn' := Option.some.inj (hfn.symm.trans hfn')
    exact h
  · exact fun h => ⟨fn, hfn, h⟩

/-- The request for a hybrid function with the list of sandboxes. -/
def hybridOf (sandboxes : Str) : FunctionDeployment :=
  { service := "f-h".toList
    labels := some ((AList.singleton ctrTypeLabel hybrid).insert "sandboxes".toList sandboxes) }

/-- The theorem at two names, one of each type. -/
theorem deploy_sandboxes_iff_resize :
    ∃ fn, deploy (hybridOf "resize-n,resize-w".toList) {} = some fn ∧
      fn.sandboxes.lookup native = some "resize-n".toList ∧
      fn.sandboxes.lookup wasm = some "resize-w".toList :=
  (deploy_sandboxes_iff (n := "resize-n".toList) (w := "resize-w".toList) {} rfl rfl (.inl rfl)
    (by decide) (by decide) (by decide) (by decide)).mpr (by decide)

/-- `-n` stands in the middle of the WASM name: the native entry gets it, and the WASM entry is
never set. -/
theorem not_deploy_sandboxes_new :
    "-n".toList <:+ "resize-n".toList ∧ "-w".toList <:+ "img-new-w".toList ∧
      ∃ fn, deploy (hybridOf "resize-n,img-new-w".toList) {} = some fn ∧
        fn.sandboxes.lookup native = some "img-new-w".toList ∧
        fn.sandboxes.lookup wasm = none :=
  ⟨by decide, by decide, _, rfl, by decide, by decide⟩

end Fecore
