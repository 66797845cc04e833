import Mathlib.Tactic.Common
import Fecore.Handlers.Provider

set_option relaxedAutoImplicit false
set_option autoImplicit false

/-!
# Labels and annotations

A container has labels only. `buildLabels` of `pkg/provider/handlers/deploy.go` puts the annotations
of a request among its labels, under keys with a prefix, and `buildLabelsAndAnnotations` of
`functions.go` takes them apart again. Go iterates over a map in any order: a map is given here
with the order of its entries, and all results are about every order.

## Main definitions

* `Fecore.buildLabelsAndAnnotations` — the labels and the annotations of a container.
* `Fecore.KeepsApart` — the two functions are inverse where they can be, and nothing gets lost.

## Main results

* `Fecore.buildLabels_eq_some` — the labels in closed form.
* `Fecore.lookup_buildLabelsAndAnnotations` — what the second function finds.
* `Fecore.keepsApart` — every request is kept apart.
-/

namespace Fecore

/-- `strings.TrimPrefix` -/
def trimPrefix (s start : Str) : Str := if start <+: s then s.drop start.length else s

/-- A turn of the loop of `buildLabelsAndAnnotations`. -/
def sortLabel (sorted : GoMap Str × GoMap Str) (kv : Sigma fun _ : Str => Str) :
    GoMap Str × GoMap Str :=
  if annotationLabelPrefix <+: kv.1 then
    (sorted.1, sorted.2.insert (trimPrefix kv.1 annotationLabelPrefix) kv.2)
  else (sorted.1.insert kv.1 kv.2, sorted.2)

/-- `buildLabelsAndAnnotations` -/
def buildLabelsAndAnnotations (ctrLabels : GoMap Str) : GoMap Str × GoMap Str :=
  ctrLabels.entries.foldl sortLabel (∅, ∅)

/-- **Labels and annotations are kept apart**: labels without the prefix come back with the
annotations, the labels are refused only for a key that an annotation gets as well, and otherwise
hold all entries of both. -/
structure KeepsApart (req : FunctionDeployment) : Prop where
  apart : (∀ k ∈ req.labels.getD ∅, ¬ annotationLabelPrefix <+: k) →
    ∃ labels, buildLabels req = some labels ∧
      ∀ ctrLabels : GoMap Str, ctrLabels.entries.Perm labels.entries →
        (∀ k, (buildLabelsAndAnnotations ctrLabels).1.lookup k = (req.labels.getD ∅).lookup k) ∧
        ∀ k, (buildLabelsAndAnnotations ctrLabels).2.lookup k = (req.annotations.getD ∅).lookup k
  fails : buildLabels req = none ↔
    ∃ k ∈ req.annotations.getD ∅, annotationLabelPrefix ++ k ∈ req.labels.getD ∅
  keeps : ∀ labels, buildLabels req = some labels →
    (∀ k ∈ req.labels.getD ∅, labels.lookup k = (req.labels.getD ∅).lookup k) ∧
      ∀ k ∈ req.annotations.getD ∅,
        labels.lookup (annotationLabelPrefix ++ k) = (req.annotations.getD ∅).lookup k

/-! ### The annotations among the labels -/

/-- A turn of the loop of `buildLabels` over the annotations. -/
def annotate (labels : Option (GoMap Str)) (kv : Sigma fun _ : Str => Str) :
    Option (GoMap Str) :=
  match labels with
  | none => none
  | some labels =>
    let key := annotationLabelPrefix ++ kv.1
    if key ∈ labels then none else some (labels.insert key kv.2)

/-- The annotations are put among the labels one by one. -/
lemma buildLabels_eq_foldl (req : FunctionDeployment) :
    buildLabels req =
      (req.annotations.getD ∅).entries.foldl annotate (some (req.labels.getD ∅)) := rfl

/-- Once an annotation has clashed with a label, no later one matters. -/
lemma foldl_annotate_none (l : List (Sigma fun _ : Str => Str)) :
    l.foldl annotate none = none := by
  induction l with
  | nil => rfl
  | cons kv l ih => exact ih

/-- Keys with the prefix are equal only for the same annotation. -/
lemma prefixed_injective {k k' : Str}
    (h : annotationLabelPrefix ++ k = annotationLabelPrefix ++ k') : k = k' :=
  List.append_cancel_left h

/-- The loop fails at the first annotation whose key is taken.

**Proof sketch.** Induct on the annotations. A label that is added has a key of its own, which is
not among those that follow. -/
lemma foldl_annotate_eq_none_iff {l : List (Sigma fun _ : Str => Str)} (h : l.NodupKeys)
    (labels : GoMap Str) :
    l.foldl annotate (some labels) = none ↔
      ∃ k ∈ l.keys, annotationLabelPrefix ++ k ∈ labels := by
  induction l generalizing labels with
  | nil => simp
  | cons kv l ih =>
    rw [List.nodupKeys_cons] at h
    rw [List.foldl_cons, annotate]
    by_cases hkey : annotationLabelPrefix ++ kv.1 ∈ labels
    · rw [if_pos hkey, foldl_annotate_none]
      exact iff_of_true rfl ⟨kv.1, List.mem_cons_self, hkey⟩
    · rw [if_neg hkey, ih h.2, List.keys_cons]
      constructor
      · rintro ⟨k, hk, hmem⟩
        rcases (AList.mem_insert labels).mp hmem with heq | hmem
        · exact absurd (prefixed_injective heq ▸ hk) h.1
        · exact ⟨k, List.mem_cons_of_mem kv.1 hk, hmem⟩
      · rintro ⟨k, hk, hmem⟩
        rcases List.mem_cons.mp hk with rfl | hk
        · exact absurd hmem hkey
        · exact ⟨k, hk, (AList.mem_insert labels).mpr (.inr hmem)⟩

/-- **The labels in closed form**: the annotations under their keys, and the labels of before.

**Proof sketch.** Induct on the annotations. A step that does not fail inserts a label that was not
there, and the keys that follow are other ones, so it is never overwritten. -/
theorem foldl_annotate_eq_some {l : List (Sigma fun _ : Str => Str)} (h : l.NodupKeys)
    {labels built : GoMap Str} (hbuilt : l.foldl annotate (some labels) = some built) :
    (∀ k, built.lookup (annotationLabelPrefix ++ k) =
        (l.dlookup k).or (labels.lookup (annotationLabelPrefix ++ k))) ∧
      ∀ k, ¬ annotationLabelPrefix <+: k → built.lookup k = labels.lookup k := by
  induction l generalizing labels with
  | nil =>
    obtain rfl := Option.some.inj hbuilt
    exact ⟨fun k => rfl, fun k _ => rfl⟩
  | cons kv l ih =>
    rw [List.nodupKeys_cons] at h
    rw [List.foldl_cons, annotate] at hbuilt
    by_cases hkey : annotationLabelPrefix ++ kv.1 ∈ labels
    · rw [if_pos hkey, foldl_annotate_none] at hbuilt
      nomatch hbuilt
    · rw [if_neg hkey] at hbuilt
      obtain ⟨hprefixed, hother⟩ := ih h.2 hbuilt
      constructor
      · intro k
        rw [hprefixed]
        by_cases hk : k = kv.1
        · subst hk
          rw [List.dlookup_eq_none.mpr h.1, AList.lookup_insert, List.dlookup_cons_eq]
          rfl
        · rw [AList.lookup_insert_ne (fun heq => hk (prefixed_injective heq)),
            List.dlookup_cons_ne _ _ hk]
      · intro k hk
        have hne : k ≠ annotationLabelPrefix ++ kv.1 := by
          rintro rfl
          exact hk (List.prefix_append _ _)
        rw [hother k hk, AList.lookup_insert_ne hne]

/-- **The labels that `buildLabels` makes**: an annotation under its key, and every other label as
it is. -/
theorem buildLabels_eq_some {req : FunctionDeployment} {labels : GoMap Str}
    (h : buildLabels req = some labels) :
    (∀ k, labels.lookup (annotationLabelPrefix ++ k) =
        ((req.annotations.getD ∅).lookup k).or
          ((req.labels.getD ∅).lookup (annotationLabelPrefix ++ k))) ∧
      ∀ k, ¬ annotationLabelPrefix <+: k → labels.lookup k = (req.labels.getD ∅).lookup k := by
  rw [buildLabels_eq_foldl] at h
  exact foldl_annotate_eq_some (req.annotations.getD ∅).nodupKeys h

/-- When `buildLabels` fails. -/
theorem buildLabels_eq_none_iff (req : FunctionDeployment) :
    buildLabels req = none ↔
      ∃ k ∈ req.annotations.getD ∅, annotationLabelPrefix ++ k ∈ req.labels.getD ∅ := by
  rw [buildLabels_eq_foldl]
  exact foldl_annotate_eq_none_iff (req.annotations.getD ∅).nodupKeys _

/-! ### The annotations taken out again -/

/-- The prefix that the deployment puts before a key is the one that the read takes off. -/
lemma trimPrefix_append (k : Str) :
    trimPrefix (annotationLabelPrefix ++ k) annotationLabelPrefix = k := by
  rw [trimPrefix, if_pos (List.prefix_append _ _), List.drop_left]

/-- The loop sorts each label by its key.

**Proof sketch.** Induct on the labels. A key with the prefix goes to the annotations without it and
any other key to the labels; no later key is the same. -/
lemma lookup_foldl_sortLabel {l : List (Sigma fun _ : Str => Str)} (h : l.NodupKeys)
    (sorted : GoMap Str × GoMap Str) :
    (∀ k, (l.foldl sortLabel sorted).1.lookup k =
        if annotationLabelPrefix <+: k then sorted.1.lookup k
        else (l.dlookup k).or (sorted.1.lookup k)) ∧
      ∀ k, (l.foldl sortLabel sorted).2.lookup k =
        (l.dlookup (annotationLabelPrefix ++ k)).or (sorted.2.lookup k) := by
  induction l generalizing sorted with
  | nil => exact ⟨fun k => (ite_self _).symm, fun k => rfl⟩
  | cons kv l ih =>
    obtain ⟨key, value⟩ := kv
    rw [List.nodupKeys_cons] at h
    have hnone : l.dlookup key = none := List.dlookup_eq_none.mpr h.1
    obtain ⟨hfst, hsnd⟩ := ih h.2 (sortLabel sorted ⟨key, value⟩)
    simp only [List.foldl_cons, hfst, hsnd]
    by_cases hkey : annotationLabelPrefix <+: key
    · obtain ⟨name, rfl⟩ := hkey
      rw [sortLabel, if_pos (List.prefix_append _ _), trimPrefix_append]
      constructor
      · intro k
        by_cases hk : annotationLabelPrefix <+: k
        · rw [if_pos hk, if_pos hk]
        · have hne : k ≠ annotationLabelPrefix ++ name := by
            rintro rfl
            exact hk (List.prefix_append _ _)
          rw [if_neg hk, if_neg hk, List.dlookup_cons_ne _ _ hne]
      · intro k
        by_cases hk : k = name
        · subst hk
          rw [hnone, AList.lookup_insert, List.dlookup_cons_eq]
          rfl
        · rw [AList.lookup_insert_ne hk,
            List.dlookup_cons_ne _ _ fun heq => hk (prefixed_injective heq)]
    · rw [sortLabel, if_neg hkey]
      constructor
      · intro k
        by_cases hk : k = key
        · subst hk
          rw [if_neg hkey, if_neg hkey, hnone, AList.lookup_insert, List.dlookup_cons_eq]
          rfl
        · rw [AList.lookup_insert_ne hk, List.dlookup_cons_ne _ _ hk]
      · intro k
        have hne : annotationLabelPrefix ++ k ≠ key := by
          rintro rfl
          exact hkey (List.prefix_append _ _)
        rw [List.dlookup_cons_ne _ _ hne]

/-- **What `buildLabelsAndAnnotations` finds**: the labels without the prefix, and the annotations
under their own keys. -/
theorem lookup_buildLabelsAndAnnotations (ctrLabels : GoMap Str) (k : Str) :
    (buildLabelsAndAnnotations ctrLabels).1.lookup k =
        (if annotationLabelPrefix <+: k then none else ctrLabels.lookup k) ∧
      (buildLabelsAndAnnotations ctrLabels).2.lookup k =
        ctrLabels.lookup (annotationLabelPrefix ++ k) := by
  obtain ⟨hfst, hsnd⟩ := lookup_foldl_sortLabel ctrLabels.nodupKeys (∅, ∅)
  have hempty : ∀ k, (∅ : GoMap Str).lookup k = none := fun k => rfl
  constructor
  · rw [buildLabelsAndAnnotations, hfst]
    simp only [hempty, Option.or_none]
    rfl
  · rw [buildLabelsAndAnnotations, hsnd]
    simp only [hempty, Option.or_none]
    rfl

/-! ### Both functions -/

/-- **Every request is kept apart.**

**Proof sketch.** Where no label has the prefix no key is taken, so the labels are built, and under
a key with the prefix there is an annotation or nothing. The order of the entries plays no part, as
look-ups do not depend on it. -/
theorem keepsApart (req : FunctionDeployment) : KeepsApart req := by
  refine ⟨fun hlabels => ?_, buildLabels_eq_none_iff req, fun labels hbuilt => ?_⟩
  · have hnone : ∀ k, (req.labels.getD ∅).lookup (annotationLabelPrefix ++ k) = none := fun k =>
      AList.lookup_eq_none.mpr fun hmem => hlabels _ hmem (List.prefix_append _ _)
    cases hbuilt : buildLabels req with
    | none =>
      obtain ⟨k, -, hmem⟩ := (buildLabels_eq_none_iff req).mp hbuilt
      exact absurd (List.prefix_append _ _) (hlabels _ hmem)
    | some labels =>
      obtain ⟨hprefixed, hother⟩ := buildLabels_eq_some hbuilt
      refine ⟨labels, rfl, fun ctrLabels hperm => ?_⟩
      have hlookup : ∀ k, ctrLabels.lookup k = labels.lookup k := fun k => AList.perm_lookup hperm
      constructor
      · intro k
        rw [(lookup_buildLabelsAndAnnotations ctrLabels k).1, hlookup]
        split
        next hk =>
          obtain ⟨name, rfl⟩ := hk
          exact (hnone name).symm
        next hk => exact hother k hk
      · intro k
        rw [(lookup_buildLabelsAndAnnotations ctrLabels k).2, hlookup, hprefixed, hnone,
          Option.or_none]
  · obtain ⟨hprefixed, hother⟩ := buildLabels_eq_some hbuilt
    constructor
    · intro k hk
      by_cases hkey : annotationLabelPrefix <+: k
      · obtain ⟨name, rfl⟩ := hkey
        have hfree : (req.annotations.getD ∅).lookup name = none := by
          refine AList.lookup_eq_none.mpr fun hname => ?_
          have hfails := (buildLabels_eq_none_iff req).mpr ⟨name, hname, hk⟩
          nomatch hbuilt.symm.trans hfails
        rw [hprefixed, hfree, Option.none_or]
      · exact hother k hkey
    · intro k hk
      obtain ⟨value, hvalue⟩ := Option.isSome_iff_exists.mp (AList.lookup_isSome.mpr hk)
      rw [hprefixed, hvalue]
      rfl

end Fecore
