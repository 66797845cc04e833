import Mathlib.Tactic.Common
import Fecore.Handlers.DeployHandler

set_option relaxedAutoImplicit false
set_option autoImplicit false

/-!
# The list of the namespaces

`ListNamespaces` and `findNamespace` of `pkg/provider/handlers/functions.go`, against
`validNamespace`, which decides about one namespace.

## Main definitions

* `Fecore.listNamespaces` — the list, from what the namespaces of containerd and their labels are.
* `Fecore.NamespaceStore` — namespaces of distinct names, each with its labels.
* `Fecore.NamespaceStore.ListsValid` — the list holds the default namespace and the valid ones, each
  once.

## Main results

* `Fecore.NamespaceStore.list_cons` — the list in closed form.
* `Fecore.NamespaceStore.listsValid_iff` — when the list holds just these.
-/

namespace Fecore

/-- `findNamespace` -/
def findNamespace (target : Str) (items : List Str) : Bool := items.any fun n => decide (n = target)

/-- A turn of the loop of `ListNamespaces`. -/
def listNamespace (labels : Str → Except Str (GoMap Str)) (set : List Str) (namespace_ : Str) :
    List Str :=
  match labels namespace_ with
  | .error _ => set
  | .ok labels =>
    let set := if (labels.lookup namespaceLabel).isSome then set ++ [namespace_] else set
    if findNamespace defaultFunctionNamespace set then set
    else set ++ [defaultFunctionNamespace]

/-- `ListNamespaces`, from what `List` and `Labels` of the namespace service return. -/
def listNamespaces (namespaces : Except Str (List Str)) (labels : Str → Except Str (GoMap Str)) :
    List Str :=
  match namespaces with
  | .error _ => [defaultFunctionNamespace]
  | .ok namespaces => namespaces.foldl (listNamespace labels) []

/-- **The namespaces of containerd** in the order in which it lists them, with their labels. -/
structure NamespaceStore where
  namespaces : List (Str × GoMap Str)
  names_nodup : (namespaces.map Prod.fst).Nodup

namespace NamespaceStore

/-- `List` -/
def names (store : NamespaceStore) : List Str := store.namespaces.map Prod.fst

/-- `Labels` -/
def labels (store : NamespaceStore) (namespace_ : Str) : Except Str (GoMap Str) :=
  match store.namespaces.find? fun entry => decide (entry.1 = namespace_) with
  | some entry => .ok entry.2
  | none => .error ("namespace ".toList ++ namespace_ ++ ": not found".toList)

/-- The value of the label of a namespace, none without it. -/
def label (store : NamespaceStore) (namespace_ : Str) : Option Str :=
  match store.labels namespace_ with
  | .error _ => none
  | .ok labels => labels.lookup namespaceLabel

/-- What `ListNamespaces` returns. -/
def list (store : NamespaceStore) : List Str := listNamespaces (.ok store.names) store.labels

/-- **The list is right**: it holds the default namespace and, of the others, the ones that
`validNamespace` accepts, and each of them once. -/
structure ListsValid (store : NamespaceStore) : Prop where
  nodup : store.list.Nodup
  hasDefault : defaultFunctionNamespace ∈ store.list
  valid : ∀ namespace_ ≠ defaultFunctionNamespace,
    namespace_ ∈ store.list ↔ validNamespace store.labels namespace_ = .ok true

/-- **What the list relies on**: there is a namespace; the default namespace comes first or has no
label; and the label of no other has a value besides `true`. -/
structure Labelled (store : NamespaceStore) : Prop where
  nonempty : store.names ≠ []
  first : store.label defaultFunctionNamespace ≠ none →
    store.names.head? = some defaultFunctionNamespace
  values : ∀ namespace_ ≠ defaultFunctionNamespace, ∀ value,
    store.label namespace_ = some value → value = "true".toList

/-! ### The list in closed form -/

/-- The namespace is found just when it is listed. -/
lemma findNamespace_iff {target : Str} {items : List Str} :
    findNamespace target items = true ↔ target ∈ items := by
  simp [findNamespace]

/-- A namespace is there if and only if its labels are. -/
lemma labels_of_mem {store : NamespaceStore} {namespace_ : Str} (h : namespace_ ∈ store.names) :
    ∃ labels, store.labels namespace_ = .ok labels := by
  obtain ⟨entry, hentry, rfl⟩ := List.mem_map.mp h
  unfold labels
  cases hfind : store.namespaces.find? fun other => decide (other.1 = entry.1) with
  | none => exact absurd (decide_eq_true rfl) (List.find?_eq_none.mp hfind entry hentry)
  | some other => exact ⟨other.2, rfl⟩

/-- A namespace that has the label exists. -/
lemma mem_of_label {store : NamespaceStore} {namespace_ : Str}
    (h : store.label namespace_ ≠ none) : namespace_ ∈ store.names := by
  unfold label labels at h
  cases hfind : store.namespaces.find? fun entry => decide (entry.1 = namespace_) with
  | none =>
    rw [hfind] at h
    exact absurd rfl h
  | some entry =>
    obtain rfl : entry.1 = namespace_ := by simpa using List.find?_some hfind
    exact List.mem_map_of_mem (List.mem_of_find?_eq_some hfind)

/-- A turn of the loop for a namespace that is there. -/
lemma listNamespace_of_mem {store : NamespaceStore} {namespace_ : Str}
    (h : namespace_ ∈ store.names) (set : List Str) :
    listNamespace store.labels set namespace_ =
      let set := if (store.label namespace_).isSome then set ++ [namespace_] else set
      if defaultFunctionNamespace ∈ set then set else set ++ [defaultFunctionNamespace] := by
  obtain ⟨labels, hlabels⟩ := labels_of_mem h
  have hlabel : store.label namespace_ = labels.lookup namespaceLabel := by
    rw [label, hlabels]
  rw [listNamespace, hlabels, hlabel]
  simp only [findNamespace_iff]

/-- Once the default namespace is in the list, each namespace with the label is added.

**Proof sketch.** Induct on the names. Each is looked up; one with the label is added at the end,
one without adds the default namespace, which is there. -/
lemma foldl_listNamespace {store : NamespaceStore} {names set : List Str}
    (hnames : ∀ n ∈ names, n ∈ store.names) (hset : defaultFunctionNamespace ∈ set) :
    names.foldl (listNamespace store.labels) set =
      set ++ names.filter fun n => (store.label n).isSome := by
  induction names generalizing set with
  | nil => simp
  | cons n names ih =>
    rw [List.forall_mem_cons] at hnames
    rw [List.foldl_cons, listNamespace_of_mem hnames.1]
    cases hlabel : store.label n with
    | none =>
      simp only [Option.isSome_none, Bool.false_eq_true, if_false, if_pos hset]
      rw [ih hnames.2 hset, List.filter_cons_of_neg (by simp [hlabel])]
    | some value =>
      have hmem : defaultFunctionNamespace ∈ set ++ [n] := List.mem_append_left _ hset
      simp only [Option.isSome_some, if_true, if_pos hmem]
      rw [ih hnames.2 hmem, List.filter_cons_of_pos (by simp [hlabel]), List.append_assoc]
      rfl

/-- What the first turn makes of the empty list. -/
def start (store : NamespaceStore) (n : Str) : List Str :=
  if n ≠ defaultFunctionNamespace ∧ (store.label n).isSome then [n, defaultFunctionNamespace]
  else [defaultFunctionNamespace]

/-- **The list in closed form.**

**Proof sketch.** The first name makes the list `start`, with the default namespace in it; the
others follow by `foldl_listNamespace`. -/
theorem list_cons {store : NamespaceStore} {n : Str} {rest : List Str}
    (h : store.names = n :: rest) :
    store.list = store.start n ++ rest.filter fun n => (store.label n).isSome := by
  have hn : n ∈ store.names := h ▸ List.mem_cons_self
  have hrest : ∀ m ∈ rest, m ∈ store.names := fun m hm => h ▸ List.mem_cons_of_mem n hm
  have hstart : listNamespace store.labels [] n = store.start n := by
    rw [listNamespace_of_mem hn, start]
    cases hlabel : store.label n with
    | none => simp
    | some value =>
      by_cases hdefault : n = defaultFunctionNamespace
      · simp [hdefault]
      · simp [hdefault, Ne.symm hdefault]
  have hmem : defaultFunctionNamespace ∈ store.start n := by
    unfold start
    split <;> simp
  rw [list, listNamespaces, h, List.foldl_cons, hstart, foldl_listNamespace hrest hmem]

/-! ### When the list is right -/

/-- From its first turn on, the list holds the default namespace. -/
lemma default_mem_start (store : NamespaceStore) (n : Str) :
    defaultFunctionNamespace ∈ store.start n := by
  unfold start
  split <;> simp

/-- Of the other namespaces, the ones with the label are in the list.

**Proof sketch.** The first namespace is replaced by the default one unless it has the label, and of
the rest those with the label are taken over. -/
lemma mem_list_iff {store : NamespaceStore} (hstore : store.names ≠ []) {namespace_ : Str}
    (hne : namespace_ ≠ defaultFunctionNamespace) :
    namespace_ ∈ store.list ↔ store.label namespace_ ≠ none := by
  obtain ⟨n, rest, hnames⟩ := List.exists_cons_of_ne_nil hstore
  have hstart : namespace_ ∈ store.start n ↔ namespace_ = n ∧ store.label n ≠ none := by
    rw [← Option.isSome_iff_ne_none]
    unfold start
    split
    next h => simp [hne, h.2]
    next h =>
      simp only [List.mem_singleton, hne, false_iff]
      rintro ⟨rfl, hlabel⟩
      exact h ⟨hne, hlabel⟩
  rw [list_cons hnames, List.mem_append, hstart, List.mem_filter, Option.isSome_iff_ne_none]
  constructor
  · rintro (⟨rfl, hlabel⟩ | ⟨-, hlabel⟩)
    · exact hlabel
    · exact hlabel
  · intro hlabel
    have hmem : namespace_ ∈ n :: rest := hnames ▸ mem_of_label hlabel
    rcases List.mem_cons.mp hmem with rfl | hrest
    · exact .inl ⟨rfl, hlabel⟩
    · exact .inr ⟨hrest, hlabel⟩

/-- The default namespace is in the list twice when it has the label and is not the first.

**Proof sketch.** The names of the store are different, so a name can only come twice as the first
one of the list and one of the rest; that is the default namespace, with its label, in the rest of
the store. -/
lemma nodup_list_iff {store : NamespaceStore} (hstore : store.names ≠ []) :
    store.list.Nodup ↔ (store.label defaultFunctionNamespace ≠ none →
      store.names.head? = some defaultFunctionNamespace) := by
  obtain ⟨n, rest, hnames⟩ := List.exists_cons_of_ne_nil hstore
  have hnodup : (n :: rest).Nodup := hnames ▸ store.names_nodup
  rw [List.nodup_cons] at hnodup
  have hstart : (store.start n).Nodup := by
    unfold start
    split
    next h => simp [h.1]
    next => exact List.nodup_singleton _
  have hcommon : (∀ m ∈ store.start n, m ∉ rest.filter fun n => (store.label n).isSome) ↔
      ¬ (defaultFunctionNamespace ∈ rest ∧ store.label defaultFunctionNamespace ≠ none) := by
    rw [← Option.isSome_iff_ne_none]
    constructor
    · intro h hdefault
      exact h _ (default_mem_start store n) (List.mem_filter.mpr hdefault)
    · intro h m hm hmem
      have hcase : m = n ∨ m = defaultFunctionNamespace := by
        unfold start at hm
        split at hm
        · simpa using hm
        · exact .inr (List.mem_singleton.mp hm)
      obtain ⟨hrest, hlabel⟩ := List.mem_filter.mp hmem
      rcases hcase with rfl | rfl
      · exact hnodup.1 hrest
      · exact h ⟨hrest, hlabel⟩
  rw [list_cons hnames, List.nodup_append', List.disjoint_left, hnames, List.head?_cons,
    Option.some_inj, hcommon]
  constructor
  · rintro ⟨-, -, hno⟩ hlabel
    have hmem : defaultFunctionNamespace ∈ n :: rest := hnames ▸ mem_of_label hlabel
    rcases List.mem_cons.mp hmem with heq | hrest
    · exact heq.symm
    · exact absurd ⟨hrest, hlabel⟩ hno
  · intro h
    refine ⟨hstart, hnodup.2.filter _, ?_⟩
    rintro ⟨hrest, hlabel⟩
    exact hnodup.1 (h hlabel ▸ hrest)

/-- What `validNamespace` says about another namespace than the default one. -/
lemma validNamespace_iff {store : NamespaceStore} {namespace_ : Str}
    (hne : namespace_ ≠ defaultFunctionNamespace) :
    validNamespace store.labels namespace_ = .ok true ↔
      store.label namespace_ = some "true".toList := by
  rw [validNamespace, if_neg hne, label]
  cases store.labels namespace_ with
  | error err => simp
  | ok labels => simp

/-- **When the list holds the default namespace and the valid ones, each once.**

**Proof sketch.** The list starts with the first namespace, if it has the label, and the default
one, and then goes on with each namespace that has the label. It is empty without any namespace,
repeats the default one when that has the label and comes later, and takes a label of any value. -/
theorem listsValid_iff (store : NamespaceStore) : store.ListsValid ↔ store.Labelled := by
  by_cases hstore : store.names = []
  · have hlist : store.list = [] := by rw [list, listNamespaces, hstore, List.foldl_nil]
    refine iff_of_false (fun h => ?_) fun h => h.nonempty hstore
    have hdefault := h.hasDefault
    rw [hlist] at hdefault
    exact List.not_mem_nil hdefault
  · constructor
    · intro h
      refine ⟨hstore, (nodup_list_iff hstore).mp h.nodup, fun n hne value hvalue => ?_⟩
      have hmem : n ∈ store.list := (mem_list_iff hstore hne).mpr (by simp [hvalue])
      have htrue := (validNamespace_iff hne).mp ((h.valid n hne).mp hmem)
      exact Option.some.inj (hvalue.symm.trans htrue)
    · intro h
      obtain ⟨n, rest, hnames⟩ := List.exists_cons_of_ne_nil hstore
      refine ⟨(nodup_list_iff hstore).mpr h.first, ?_, fun n hne => ?_⟩
      · rw [list_cons hnames]
        exact List.mem_append_left _ (default_mem_start store n)
      · rw [mem_list_iff hstore hne, validNamespace_iff hne]
        constructor
        · intro hlabel
          obtain ⟨value, hvalue⟩ := Option.ne_none_iff_exists'.mp hlabel
          rw [hvalue, h.values n hne value hvalue]
        · intro htrue
          simp [htrue]

/-- A namespace that comes before the default one, and both have the label. -/
def twoNamespaces : NamespaceStore where
  namespaces := [("default".toList, (∅ : GoMap Str).insert namespaceLabel "true".toList),
    (defaultFunctionNamespace, (∅ : GoMap Str).insert namespaceLabel "true".toList)]
  names_nodup := by decide

/-- **The list can be wrong**: the default namespace is in it twice. -/
theorem not_listsValid : ¬ twoNamespaces.ListsValid := by
  intro h
  have hnodup := h.nodup
  revert hnodup
  decide

/-- Without a namespace the list is empty. -/
example : (⟨[], List.nodup_nil⟩ : NamespaceStore).list = [] := rfl

end NamespaceStore

end Fecore
