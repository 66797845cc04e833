import Mathlib.Data.List.Induction
import Fecore.Data.Fuelled
import Fecore.Depgraph.DeploymentOrder

set_option relaxedAutoImplicit false
set_option autoImplicit false

/-!
# The order of any services

`buildDeploymentOrder` on services that nothing has checked: a service may depend on one that is not
there, or on itself, and two services may have one name. The node map keeps the last node of a name,
which gets the edges of all services of the name; the nodes before it have none.

## Main definitions

* `Fecore.Depgraph.deps` — what the services of a name depend on.
* `Fecore.Depgraph.Open` — what the two lists hold in the middle of a visit.
* `Fecore.Depgraph.Grounded` — a name below which everything is listed and nothing is circular.

## Main results

* `Fecore.Depgraph.get?_ptr`, `Fecore.Depgraph.get?_early` — the nodes of the graph.
* `Fecore.Depgraph.Open.resolveEdge_eq`, `Fecore.Depgraph.Open.resolveEdge_nil` — the check on an
  edge.
* `Fecore.Depgraph.ends_of_grounded` — the visit of a grounded name ends.
-/

namespace Fecore.Depgraph

open DependencyOrder Fuelled

variable {svcs : List Service}

/-! ### The graph of any services -/

/-- What the services of a name depend on, in the order of their edges. -/
def deps (svcs : List Service) (a : Str) : List Str :=
  svcs.flatMap fun t => if t.name = a then t.dependsOn else []

/-- A name is among the edges of another one when a service of the other one depends on it. -/
lemma mem_deps {a d : Str} : d ∈ deps svcs a ↔ Requires svcs a d := by
  unfold deps Requires
  rw [List.mem_flatMap]
  refine exists_congr fun t => and_congr_right fun _ => ?_
  by_cases ht : t.name = a <;> simp [ht]

/-- The node of a name. -/
def ptr (svcs : List Service) (a : Str) : NodePtr := nodeOf (nodeMapOf svcs) a

/-- The names with one more service in front. -/
@[simp] lemma names_cons (s : Service) (l : List Service) : names (s :: l) = s.name :: names l :=
  rfl

/-- The node of a name is that of its last service.

**Proof sketch.** Induct on the list from its end. The last service overwrites the node of its name,
and leaves those of the others. -/
lemma ptr_eq_some_iff {a : Str} {i : ℕ} : ptr svcs a = some i ↔
    ∃ pre s post, svcs = pre ++ s :: post ∧ pre.length = i ∧ s.name = a ∧ a ∉ names post := by
  induction svcs using List.reverseRecOn with
  | nil =>
    refine iff_of_false nofun ?_
    rintro ⟨pre, s, post, h, -⟩
    simp at h
  | append_singleton svcs t ih =>
    unfold ptr nodeOf at ih ⊢
    rw [nodeMapOf_append_singleton]
    by_cases hta : a = t.name
    · rw [hta, AList.lookup_insert, Option.some.injEq]
      constructor
      · rintro rfl
        exact ⟨svcs, t, [], rfl, rfl, rfl, List.not_mem_nil⟩
      · rintro ⟨pre, s, post, heq, rfl, hs, hpost⟩
        rcases List.eq_nil_or_concat post with rfl | ⟨post, u, rfl⟩
        · exact congrArg List.length (List.append_inj' heq rfl).1
        · have heq : svcs ++ [t] = (pre ++ s :: post) ++ [u] := by simpa using heq
          obtain ⟨-, hu⟩ := List.append_inj' heq rfl
          obtain rfl : t = u := by simpa using hu
          simp [names] at hpost
    · rw [AList.lookup_insert_ne hta, ih]
      constructor
      · rintro ⟨pre, s, post, rfl, rfl, rfl, hpost⟩
        refine ⟨pre, s, post ++ [t], by simp, rfl, rfl, ?_⟩
        rw [names_append, List.mem_append, not_or]
        exact ⟨hpost, by simpa [names] using hta⟩
      · rintro ⟨pre, s, post, heq, rfl, rfl, hpost⟩
        rcases List.eq_nil_or_concat post with rfl | ⟨post, u, rfl⟩
        · obtain ⟨-, hs⟩ := List.append_inj' heq rfl
          obtain rfl : t = s := by simpa using hs
          exact absurd rfl hta
        · have heq : svcs ++ [t] = (pre ++ s :: post) ++ [u] := by simpa using heq
          obtain ⟨heq, -⟩ := List.append_inj' heq rfl
          rw [List.concat_eq_append, names_append, List.mem_append, not_or] at hpost
          exact ⟨pre, s, post, heq, rfl, rfl, hpost.1⟩

/-- A name that is listed has a last service. -/
lemma exists_last {a : Str} (ha : a ∈ names svcs) :
    ∃ pre s post, svcs = pre ++ s :: post ∧ s.name = a ∧ a ∉ names post := by
  induction svcs with
  | nil => exact absurd ha List.not_mem_nil
  | cons t svcs ih =>
    by_cases hold : a ∈ names svcs
    · obtain ⟨pre, s, post, rfl, hs, hpost⟩ := ih hold
      exact ⟨t :: pre, s, post, rfl, hs, hpost⟩
    · rw [names_cons, List.mem_cons, or_iff_left hold] at ha
      exact ⟨[], t, svcs, rfl, ha.symm, hold⟩

/-- The last service of a name has its node. -/
lemma ptr_of_last {pre post : List Service} {s : Service} (h : svcs = pre ++ s :: post)
    (hlast : s.name ∉ names post) : ptr svcs s.name = some pre.length :=
  ptr_eq_some_iff.mpr ⟨pre, s, post, h, rfl, rfl, hlast⟩

/-- A name that no service has gets the nil pointer. -/
lemma ptr_eq_none {a : Str} (ha : a ∉ names svcs) : ptr svcs a = none := by
  rw [Option.eq_none_iff_forall_ne_some]
  intro i hi
  obtain ⟨pre, s, post, rfl, -, rfl, -⟩ := ptr_eq_some_iff.mp hi
  exact ha (by simp [names])

/-- The heap of the graph of some services. -/
def heapOf (svcs : List Service) : Heap := (buildServiceGraph svcs).1

/-- The node of a listed name has the name and edges to what the name depends on.

**Proof sketch.** The last service of the name has its node. The edges that are added to that node
are those of the services of the same name, since the node of another name is at another place
(`ptr_eq_some_iff`). -/
lemma get?_ptr {a : Str} (ha : a ∈ names svcs) :
    (heapOf svcs).get? (ptr svcs a) =
      some { name := a, edges := (deps svcs a).map (ptr svcs) } := by
  obtain ⟨pre, s, post, rfl, rfl, hlast⟩ := exists_last ha
  have hptr : ptr (pre ++ s :: post) s.name = some pre.length := ptr_of_last rfl hlast
  rw [hptr, heapOf, get?_buildServiceGraph, List.getElem?_append_right le_rfl, Nat.sub_self,
    List.getElem?_cons_zero, Option.map_some]
  refine congrArg some (congrArg (Node.mk s.name) ?_)
  unfold deps
  rw [List.map_flatMap]
  refine List.flatMap_congr fun t ht => ?_
  by_cases hts : t.name = s.name
  · rw [if_pos hts]
    exact if_pos (by rw [hts]; exact hptr)
  · rw [if_neg hts]
    refine if_neg fun ht' => hts ?_
    obtain ⟨pre', s', post', heq, hlen, hs', -⟩ := ptr_eq_some_iff.mp ht'
    obtain ⟨-, heq⟩ := List.append_inj heq hlen.symm
    rw [← hs', (List.cons.inj heq).1]

/-- The node of a service that is not the last one of its name has no edges. -/
lemma get?_early {pre post : List Service} {s : Service} (h : svcs = pre ++ s :: post)
    (hearly : s.name ∈ names post) :
    (heapOf svcs).get? (some pre.length) = some { name := s.name } := by
  subst h
  rw [heapOf, get?_buildServiceGraph, List.getElem?_append_right le_rfl, Nat.sub_self,
    List.getElem?_cons_zero, Option.map_some]
  refine congrArg some (congrArg (Node.mk s.name) (List.flatMap_eq_nil_iff.mpr fun t ht => ?_))
  refine if_neg fun ht' => ?_
  obtain ⟨pre', s', post', heq, hlen, hs', hlast⟩ := ptr_eq_some_iff.mp ht'
  obtain ⟨-, heq⟩ := List.append_inj heq hlen.symm
  obtain ⟨rfl, rfl⟩ := List.cons.inj heq
  exact hlast (hs' ▸ hearly)

/-! ### In the middle of a visit -/

/-- The names of the nodes of a graph. -/
def Graph.names (heap : Heap) (g : Graph) : List Str := g.nodes.map heap.name

/-- The two graphs while the nodes of `path` are being visited, the last one first: all nodes are
allocated, and those of the path are unresolved as long as no node of their name is resolved. -/
structure Open (heap : Heap) (path : List NodePtr) (graphs : Graph × Graph) : Prop where
  resolved : ∀ p ∈ graphs.1.nodes, ∃ n, heap.get? p = some n
  unresolved : ∀ p ∈ graphs.2.nodes, ∃ n, heap.get? p = some n
  path : ∀ p, heap.name p ∉ graphs.1.names heap → (p ∈ graphs.2.nodes ↔ p ∈ path)

section Open

variable {heap : Heap} {path : List NodePtr} {resolved unresolved : Graph} {p : NodePtr} {n : Node}

/-- Before any visit both graphs are empty, and so is the path. -/
lemma open_empty (heap : Heap) : Open heap [] ({}, {}) where
  resolved := nofun
  unresolved := nofun
  path _ _ := Iff.rfl

/-- `Contains` finds an allocated node of the name. -/
lemma contains_of_get? {g : Graph} (hg : ∀ q ∈ g.nodes, ∃ n, heap.get? q = some n)
    (hp : heap.get? p = some n) : g.contains heap p = pure (decide (n.name ∈ g.names heap)) := by
  rw [Graph.names, ← anyM_name n.name hg]
  simp [Graph.contains, Heap.deref_of_get? hp]

/-- `Contains` on a nil pointer dereferences it when there is a node to compare it with. -/
lemma contains_nil {g : Graph} (hg : ∀ q ∈ g.nodes, ∃ n, heap.get? q = some n) :
    g.contains heap none = if g.nodes = [] then pure false else throw .nilPointer := by
  unfold Graph.contains
  cases hnodes : g.nodes with
  | nil => rfl
  | cons q l =>
    obtain ⟨m, hm⟩ := hg q (hnodes ▸ List.mem_cons_self)
    rw [List.anyM, Heap.deref_of_get? hm]
    rfl

/-- A visit puts its node on the path and among the unresolved ones. -/
lemma Open.push (h : Open heap path (resolved, unresolved)) (hp : heap.get? p = some n) :
    Open heap (p :: path) (resolved, unresolved.add p) where
  resolved := h.resolved
  unresolved := by
    intro q hq
    rcases List.mem_append.mp hq with hq | hq
    · exact h.unresolved q hq
    · obtain rfl := List.mem_singleton.mp hq
      exact ⟨n, hp⟩
  path q hq := by
    have hiff : q ∈ unresolved.nodes ↔ q ∈ path := h.path q hq
    simp [Graph.add, hiff, or_comm]

/-- **The check on an edge to an allocated node** finds a circle when the name is that of a node of
the path and none of the name is resolved.

**Proof sketch.** Case split on whether a node of the name is resolved, and then on whether one is
on the path. Among the names that are not resolved, the unresolved list has those of the path. -/
lemma Open.resolveEdge_eq {graphs : Graph × Graph} (h : Open heap path graphs)
    (hp : heap.get? p = some n) (visit : NodePtr → Graph × Graph → Call (Graph × Graph)) :
    resolveEdge heap visit graphs p =
      if n.name ∉ graphs.1.names heap ∧ n.name ∈ path.map heap.name then
        throw (circularDependency n.name)
      else visit p graphs := by
  unfold resolveEdge
  rw [contains_of_get? h.resolved hp]
  by_cases hres : n.name ∈ graphs.1.names heap
  · simp [hres]
  · have hiff : n.name ∈ graphs.2.names heap ↔ n.name ∈ path.map heap.name := by
      unfold Graph.names
      rw [List.mem_map, List.mem_map]
      refine exists_congr fun q => and_congr_left fun hq => h.path q ?_
      rwa [hq]
    by_cases hpath : n.name ∈ path.map heap.name
    · simp [hres, hpath, contains_of_get? h.unresolved hp, hiff, Heap.deref_of_get? hp]
    · simp [hres, hpath, contains_of_get? h.unresolved hp, hiff]

/-- A nil edge is dereferenced: a node is there to compare it with, the one that is visited if there
is no other one. -/
lemma Open.resolveEdge_nil {graphs : Graph × Graph} (h : Open heap (p :: path) graphs)
    (visit : NodePtr → Graph × Graph → Call (Graph × Graph)) :
    resolveEdge heap visit graphs none = throw .nilPointer := by
  unfold resolveEdge
  rw [contains_nil h.resolved, contains_nil h.unresolved]
  by_cases hnil : graphs.1.nodes = []
  · have hmem : p ∈ graphs.2.nodes := by
      rw [h.path p (by simp [Graph.names, hnil])]
      exact List.mem_cons_self
    simp [hnil, List.ne_nil_of_mem hmem]
  · simp [hnil]

/-- The end of a visit whose edges have been visited. -/
def finish (heap : Heap) (p : NodePtr) (n : Node) (graphs : Graph × Graph) :
    Call (Graph × Graph) := do
  if ← graphs.1.nodes.anyM fun r => return (← heap.deref r).name == n.name then
    return graphs
  return (graphs.1.add p, graphs.2.remove p)

/-- A visit visits the edges and then adds the node. -/
lemma resolve_succ (hp : heap.get? p = some n) (depth : ℕ) :
    resolve heap (depth + 1) p (resolved, unresolved) =
      n.edges.foldlM (resolveEdge heap (resolve heap depth)) (resolved, unresolved.add p) >>=
        finish heap p n := by
  rw [resolve, Heap.deref_of_get? hp, pure_bind]
  rfl

/-- The node is added unless its name is there.

**Proof sketch.** Case split on whether the name is resolved. If it is not, the node moves from the
unresolved ones to the resolved ones, and the nodes that are left on the path are others. -/
lemma Open.finish {graphs : Graph × Graph} (h : Open heap (p :: path) graphs)
    (hp : heap.get? p = some n) : ∃ graphs', finish heap p n graphs = pure graphs' ∧
      Open heap path graphs' ∧ graphs'.1.names heap =
        if n.name ∈ graphs.1.names heap then graphs.1.names heap
        else graphs.1.names heap ++ [n.name] := by
  obtain ⟨resolved, unresolved⟩ := graphs
  have hname := Heap.name_of_get? hp
  unfold Depgraph.finish
  rw [anyM_name n.name h.resolved, pure_bind]
  by_cases hres : n.name ∈ resolved.names heap
  · refine ⟨(resolved, unresolved), ?_, ⟨h.resolved, h.unresolved, fun q hq => ?_⟩, ?_⟩
    · exact if_pos (decide_eq_true hres)
    · have hne : q ≠ p := fun heq => hq (by rw [heq, hname]; exact hres)
      rw [h.path q hq, List.mem_cons, or_iff_right hne]
    · exact (if_pos hres).symm
  · refine ⟨(resolved.add p, unresolved.remove p), ?_, ⟨?_, ?_, fun q hq => ?_⟩, ?_⟩
    · exact if_neg (by simpa [Graph.names] using hres)
    · intro q hq
      rcases List.mem_append.mp hq with hq | hq
      · exact h.resolved q hq
      · obtain rfl := List.mem_singleton.mp hq
        exact ⟨n, hp⟩
    · exact fun q hq => h.unresolved q (List.mem_of_mem_erase hq)
    · have hq' : heap.name q ∉ resolved.names heap ++ [n.name] := by
        simpa [Graph.names, Graph.add, hname] using hq
      rw [List.mem_append, not_or, List.mem_singleton] at hq'
      have hne : q ≠ p := fun heq => hq'.2 (by rw [heq, hname])
      have herase : q ∈ (unresolved.remove p).nodes ↔ q ∈ unresolved.nodes :=
        List.mem_erase_of_ne hne
      rw [herase, h.path q hq'.1, List.mem_cons, or_iff_right hne]
    · rw [if_neg hres]
      simp [Graph.names, Graph.add, hname]

end Open

/-! ### Grounded names -/

/-- A name is grounded when it is listed and everything that it depends on is grounded: below it
everything is listed, and nothing depends on itself. -/
inductive Grounded (svcs : List Service) : Str → Prop
  | intro {a : Str} (listed : a ∈ names svcs) (deps : ∀ d, Requires svcs a d → Grounded svcs d) :
    Grounded svcs a

namespace Grounded

variable {a b : Str}

/-- A grounded name is that of a service. -/
lemma listed (h : Grounded svcs a) : a ∈ names svcs := by
  cases h
  assumption

/-- All that a grounded name depends on is grounded. -/
lemma of_requires (h : Grounded svcs a) (hab : Requires svcs a b) : Grounded svcs b := by
  cases h with
  | intro _ hdeps => exact hdeps b hab

/-- All that is below a grounded name is grounded. -/
lemma of_reflTransGen (h : Grounded svcs a) (hab : Relation.ReflTransGen (Requires svcs) a b) :
    Grounded svcs b := by
  induction hab with
  | refl => exact h
  | tail _ hbc ih => exact ih.of_requires hbc

/-- A grounded name is on no cycle. -/
lemma not_transGen (h : Grounded svcs a) : ¬ Relation.TransGen (Requires svcs) a a := by
  induction h with
  | intro _ _ ih =>
    intro hcycle
    obtain ⟨d, had, hda⟩ := Relation.TransGen.head'_iff.mp hcycle
    exact ih d had (.trans_right hda (.single had))

end Grounded

/-- The loop over the edges to some names. -/
def edgeLoop (svcs : List Service) (ds : List Str) (graphs : Graph × Graph) (depth : ℕ) :
    Call (Graph × Graph) :=
  (ds.map (ptr svcs)).foldlM (resolveEdge (heapOf svcs) (resolve (heapOf svcs) depth)) graphs

/-- A visit only gains by more stack. -/
lemma monotone_resolve (heap : Heap) (p : NodePtr) (graphs : Graph × Graph) :
    Monotone fun depth => resolve heap depth p graphs :=
  fun depth => resolve_extends heap depth p graphs

/-- The turn of an edge only gains by more stack. -/
lemma monotone_resolveEdge (heap : Heap) (graphs : Graph × Graph) (p : NodePtr) :
    Monotone fun depth => resolveEdge heap (resolve heap depth) graphs p := by
  refine (monotone_const (graphs.1.contains heap p)).bind fun isResolved => ?_
  refine (monotone_const _).bind fun circular => ?_
  cases circular with
  | true => exact (monotone_const _).bind fun _ => (monotone_const _).bind fun _ =>
      monotone_resolve heap p graphs
  | false => exact monotone_resolve heap p graphs

/-- Some names are visited: their nodes, and all below them, are in the order, each after all it
depends on. -/
def Visited (svcs : List Service) (path : List NodePtr) (ds : List Str)
    (graphs graphs' : Graph × Graph) : Prop :=
  Open (heapOf svcs) path graphs' ∧
    Grows (Requires svcs) (graphs.1.names (heapOf svcs)) (graphs'.1.names (heapOf svcs)) ∧
      ∀ x, x ∈ graphs'.1.names (heapOf svcs) ↔ x ∈ graphs.1.names (heapOf svcs) ∨
        ∃ d ∈ ds, Relation.ReflTransGen (Requires svcs) d x

/-- The edges to some names are visited when each of the names is.

**Proof sketch.** Induct on the names. None of them is on the path, so each edge is visited as its
name is, and the loop goes on from there (`Ends.foldlM_append`). -/
lemma ends_edgeLoop (ds : List Str) {path : List NodePtr} (hds : ∀ d ∈ ds, d ∈ names svcs)
    (hpath : ∀ d ∈ ds, d ∉ path.map (heapOf svcs).name)
    (hvisit : ∀ d ∈ ds, ∀ graphs, Open (heapOf svcs) path graphs → ∃ graphs',
      Ends (fun depth => resolve (heapOf svcs) depth (ptr svcs d) graphs) (.ok graphs') ∧
        Visited svcs path [d] graphs graphs') :
    ∀ {graphs : Graph × Graph}, Open (heapOf svcs) path graphs → ∃ graphs',
      Ends (edgeLoop svcs ds graphs) (.ok graphs') ∧ Visited svcs path ds graphs graphs' := by
  induction ds with
  | nil => exact fun {graphs} h => ⟨graphs, ends_pure graphs, h, .refl, fun x => by simp⟩
  | cons d ds ih =>
    intro graphs h
    rw [List.forall_mem_cons] at hds hpath hvisit
    obtain ⟨graphs₁, hends, hopen, hgrows, hmem⟩ := hvisit.1 graphs h
    obtain ⟨graphs₂, hends', hopen', hgrows', hmem'⟩ := ih hds.2 hpath.2 hvisit.2 hopen
    refine ⟨graphs₂, ?_, hopen', hgrows.trans hgrows', fun x => ?_⟩
    · have hedge : ∀ depth, resolveEdge (heapOf svcs) (resolve (heapOf svcs) depth) graphs
          (ptr svcs d) = resolve (heapOf svcs) depth (ptr svcs d) graphs := by
        intro depth
        rw [h.resolveEdge_eq (get?_ptr hds.1)]
        exact if_neg fun hcirc => hpath.1 hcirc.2
      refine Ends.foldlM_append (l := [ptr svcs d]) (monotone_resolveEdge _) ?_ hends'
      obtain ⟨depth, hrun⟩ := hends
      refine ⟨depth, ?_⟩
      dsimp only
      rw [List.foldlM_cons, hedge]
      exact run_bind_eq_some.mpr (.inl ⟨graphs₁, hrun, rfl⟩)
    · rw [hmem', hmem]
      simp [or_assoc]

/-- **The visit of a grounded name ends**, with all below it in the order.

**Proof sketch.** By induction on why the name is grounded. No name below it is on the path: not the
name itself, which is on no cycle, and none that was there before. -/
theorem ends_of_grounded {a : Str} (ha : Grounded svcs a) : ∀ {path : List NodePtr}
    {graphs : Graph × Graph}, Open (heapOf svcs) path graphs →
    (∀ x ∈ path.map (heapOf svcs).name, ¬ Relation.ReflTransGen (Requires svcs) a x) →
      ∃ graphs',
        Ends (fun depth => resolve (heapOf svcs) depth (ptr svcs a) graphs) (.ok graphs') ∧
          Visited svcs path [a] graphs graphs' := by
  induction ha with
  | @intro a hlisted hdeps ih =>
    intro path graphs h hpath
    obtain ⟨resolved, unresolved⟩ := graphs
    have hget := get?_ptr hlisted
    have hname : (heapOf svcs).name (ptr svcs a) = a := Heap.name_of_get? hget
    have hbelow : ∀ d, Requires svcs a d →
        ∀ x ∈ (ptr svcs a :: path).map (heapOf svcs).name,
          ¬ Relation.ReflTransGen (Requires svcs) d x := by
      intro d had x hx hdx
      rcases List.mem_cons.mp hx with rfl | hx
      · rw [hname] at hdx
        exact (Grounded.intro hlisted hdeps).not_transGen (.trans_left (.single had) hdx)
      · exact hpath x hx (.head had hdx)
    obtain ⟨graphs₁, hends, hopen, hgrows, hmem⟩ := ends_edgeLoop (deps svcs a)
      (fun d hd => (hdeps d (mem_deps.mp hd)).listed)
      (fun d hd hx => hbelow d (mem_deps.mp hd) d hx .refl)
      (fun d hd graphs hg => ih d (mem_deps.mp hd) hg (hbelow d (mem_deps.mp hd)))
      (h.push hget)
    obtain ⟨graphs₂, hfinish, hopen', hnames⟩ := hopen.finish hget
    have hdeps₁ : ∀ d, Requires svcs a d → d ∈ graphs₁.1.names (heapOf svcs) :=
      fun d had => (hmem d).mpr (.inr ⟨d, mem_deps.mpr had, .refl⟩)
    refine ⟨graphs₂, ?_, hopen', ?_, fun x => ?_⟩
    · obtain ⟨depth, hrun⟩ := hends
      refine ⟨depth + 1, ?_⟩
      dsimp only
      rw [resolve_succ hget]
      exact run_bind_eq_some.mpr (.inl ⟨graphs₁, hrun, by rw [hfinish]; rfl⟩)
    · rw [hnames]
      split
      · exact hgrows
      · next hnew => exact hgrows.snoc hnew hdeps₁
    · have hbelow_iff : Relation.ReflTransGen (Requires svcs) a x ↔
          x = a ∨ ∃ d ∈ deps svcs a, Relation.ReflTransGen (Requires svcs) d x := by
        rw [Relation.ReflTransGen.cases_head_iff, eq_comm]
        simp only [mem_deps]
      have hnames_iff : x ∈ graphs₂.1.names (heapOf svcs) ↔
          x = a ∨ x ∈ graphs₁.1.names (heapOf svcs) := by
        rw [hnames]
        split
        · next hold => exact ⟨.inr, fun h => h.elim (fun h => h ▸ hold) id⟩
        · rw [List.mem_append, List.mem_singleton, or_comm]
      rw [hnames_iff, hmem]
      simp only [List.mem_singleton, exists_eq_left, hbelow_iff]
      exact or_left_comm

end Fecore.Depgraph
