import Fecore.Data.DependencyOrder
import Fecore.Handlers.Functions

set_option relaxedAutoImplicit false
set_option autoImplicit false

/-!
# Resolving a dependency graph

`pkg/depgraph/depgraph.go`: the nodes of a graph are visited depth first, and each is put into the
order once everything it has an edge to is there.

## Main definitions

* `Fecore.Depgraph.Node`, `Fecore.Depgraph.Graph` — the nodes, reached through pointers, and lists
  of them.
* `Fecore.Depgraph.resolve`, `Fecore.Depgraph.Graph.resolve` — the visit of one node and of all.
* `Fecore.Depgraph.Visit` — what the two lists hold in the middle of a visit.

## Main results

* `Fecore.Depgraph.resolve_of_mem` — a node that is in the order already is visited again, with
  everything below it, and the order stays as it is.
* `Fecore.Depgraph.resolve_spec` — the visit of a node puts it into the order, or panics on a cycle.
* `Fecore.Depgraph.Graph.resolve_spec` — all nodes are put into the order, or it panics on a cycle.

## Design

A call is modelled with a bound on the depth of the stack, and yields `none` when it needs more; the
results give a bound that is enough. Pointers are kept, since `Contains` compares names and `Remove`
compares pointers.
-/

namespace Fecore.Depgraph

open DependencyOrder

/-- A pointer to a node: `nil`, or where the node is allocated. -/
abbrev NodePtr := Option ℕ

/-- Pointers are equal when their addresses are. -/
instance : LawfulBEq NodePtr := inferInstance

/-- `Node` -/
structure Node where
  name : Str
  edges : List NodePtr := []
deriving DecidableEq

/-- The nodes that are allocated. -/
abbrev Heap := List Node

/-- `Graph` -/
structure Graph where
  nodes : List NodePtr := []
deriving DecidableEq

/-- What a panic carries. -/
inductive Panic where
  /-- `nil pointer dereference` -/
  | nilPointer
  /-- the message of `log.Panicf` -/
  | panicf (message : Str)
deriving DecidableEq

/-- The end of a call: `none` when the stack was too small for it. -/
abbrev Call := ExceptT Panic Option

/-- The node at an address. -/
def Heap.get? (heap : Heap) (p : NodePtr) : Option Node := p.bind fun i => heap[i]?

/-- `*p` -/
def Heap.deref (heap : Heap) (p : NodePtr) : Call Node :=
  match heap.get? p with
  | some n => pure n
  | none => throw .nilPointer

/-- `g.Contains(target)` -/
def Graph.contains (heap : Heap) (g : Graph) (target : NodePtr) : Call Bool :=
  g.nodes.anyM fun n => do
    return (← heap.deref n).name == (← heap.deref target).name

/-- `g.Add(target)` -/
def Graph.add (g : Graph) (target : NodePtr) : Graph := ⟨g.nodes ++ [target]⟩

/-- `g.Remove(target)` -/
def Graph.remove (g : Graph) (target : NodePtr) : Graph := ⟨g.nodes.erase target⟩

/-- The message of the panic on an edge. -/
def circularDependency (name : Str) : Panic :=
  .panicf ("edge: ".toList ++ name ++ " may be a circular dependency".toList)

/-- One turn of the loop of `resolve` over the edges; `visit` is the recursive call. -/
def resolveEdge (heap : Heap) (visit : NodePtr → Graph × Graph → Call (Graph × Graph))
    (graphs : Graph × Graph) (edge : NodePtr) : Call (Graph × Graph) := do
  let isResolved ← graphs.1.contains heap edge
  let circular ← (if !isResolved then graphs.2.contains heap edge else pure false)
  if circular then
    throw (circularDependency (← heap.deref edge).name)
  visit edge graphs

/-- `resolve(node, resolved, unresolved)`, with the two graphs after the call. -/
def resolve (heap : Heap) : ℕ → NodePtr → Graph × Graph → Call (Graph × Graph)
  | 0, _, _ => ExceptT.mk none
  | depth + 1, node, (resolved, unresolved) => do
    let unresolved := unresolved.add node
    let n ← heap.deref node
    let (resolved, unresolved) ←
      n.edges.foldlM (resolveEdge heap (resolve heap depth)) (resolved, unresolved)
    if ← resolved.nodes.anyM fun r => return (← heap.deref r).name == n.name then
      return (resolved, unresolved)
    return (resolved.add node, unresolved.remove node)

/-- `g.Resolve()` -/
def Graph.resolve (heap : Heap) (depth : ℕ) (g : Graph) : Call (List Str) := do
  let (resolved, _) ←
    g.nodes.foldlM (fun graphs node => Depgraph.resolve heap depth node graphs) ({}, {})
  resolved.nodes.mapM fun node => return (← heap.deref node).name

/-! ### More stack -/

/-- One call ends as another one does, if the other one ends. -/
def Extends {α : Type} (call call' : Call α) : Prop :=
  ∀ res, call'.run = some res → call.run = some res

namespace Extends

variable {α β : Type}

/-- A call ends as itself. -/
@[refl] lemma refl (call : Call α) : Extends call call := fun _ h => h

/-- Of two calls in a row, both may be replaced by ones that end as they do. -/
lemma bind {call call' : Call α} {f f' : α → Call β} (h : Extends call call')
    (hf : ∀ a, Extends (f a) (f' a)) : Extends (call >>= f) (call' >>= f') := by
  intro res hres
  rw [ExceptT.run_bind, Option.bind_eq_bind, Option.bind_eq_some_iff] at hres ⊢
  obtain ⟨r, hr, hres⟩ := hres
  refine ⟨r, h r hr, ?_⟩
  cases r with
  | error e => exact hres
  | ok a => exact hf a res hres

/-- The body of a loop may be replaced by one that ends as it does. -/
lemma foldlM {f f' : β → α → Call β} (hf : ∀ b a, Extends (f b a) (f' b a)) (l : List α) (b : β) :
    Extends (l.foldlM f b) (l.foldlM f' b) := by
  induction l generalizing b with
  | nil => exact .refl _
  | cons a l ih => exact (hf b a).bind ih

end Extends

/-- A visit that ends on a stack ends the same on a higher one. -/
lemma resolve_extends (heap : Heap) (depth : ℕ) (p : NodePtr) (graphs : Graph × Graph) :
    Extends (resolve heap (depth + 1) p graphs) (resolve heap depth p graphs) := by
  induction depth generalizing p graphs with
  | zero => exact fun res hres => absurd hres (by simp [resolve])
  | succ depth ih =>
    rw [resolve.eq_def heap (depth + 1), resolve.eq_def heap (depth + 1 + 1)]
    refine (Extends.refl _).bind fun n => Extends.bind ?_ fun _ => .refl _
    refine Extends.foldlM (fun graphs edge => ?_) n.edges _
    refine (Extends.refl _).bind fun c => (Extends.refl _).bind fun circular => ?_
    cases circular with
    | true =>
      exact (Extends.refl _).bind fun _ => (Extends.refl _).bind fun _ => ih edge graphs
    | false => exact ih edge graphs

/-- Resolving the graph ends on a higher stack as it does on a lower one. -/
lemma Graph.resolve_extends (heap : Heap) (g : Graph) {depth depth' : ℕ} (h : depth ≤ depth') :
    Extends (g.resolve heap depth') (g.resolve heap depth) := by
  induction depth', h using Nat.le_induction with
  | base => exact .refl _
  | succ depth' _ ih =>
    intro res hres
    refine Extends.bind ?_ (fun _ => .refl _) res (ih res hres)
    exact Extends.foldlM (fun graphs p => Depgraph.resolve_extends heap depth' p graphs) g.nodes _

/-! ### Graphs whose pointers are all good -/

/-- The name of the node at an address. -/
def Heap.name (heap : Heap) (p : NodePtr) : Str := ((heap.get? p).map Node.name).getD []

/-- An edge from one node to another. -/
def Edge (heap : Heap) (p q : NodePtr) : Prop := ∃ n, heap.get? p = some n ∧ q ∈ n.edges

/-- The nodes are all allocated, have edges to one another only, and have different names. -/
structure Closed (heap : Heap) (nodes : List NodePtr) : Prop where
  nodup : nodes.Nodup
  allocated : ∀ p ∈ nodes, ∃ n, heap.get? p = some n
  edges : ∀ p ∈ nodes, ∀ q, Edge heap p q → q ∈ nodes
  names : ∀ p ∈ nodes, ∀ q ∈ nodes, heap.name p = heap.name q → p = q

section Allocated

variable {heap : Heap} {p : NodePtr} {n : Node}

/-- The name of an allocated node. -/
lemma Heap.name_of_get? (h : heap.get? p = some n) : heap.name p = n.name := by
  rw [Heap.name, h]
  rfl

/-- A pointer to an allocated node can be followed. -/
lemma Heap.deref_of_get? (h : heap.get? p = some n) : heap.deref p = pure n := by
  rw [Heap.deref, h]

/-- Comparing the names of allocated nodes with a name. -/
lemma anyM_name (x : Str) {l : List NodePtr} (hl : ∀ q ∈ l, ∃ n, heap.get? q = some n) :
    (l.anyM fun r => do return (← heap.deref r).name == x : Call Bool)
      = pure (decide (x ∈ l.map heap.name)) := by
  induction l with
  | nil => rfl
  | cons q l ih =>
    obtain ⟨m, hm⟩ := hl q List.mem_cons_self
    rw [List.anyM, Heap.deref_of_get? hm]
    simp only [pure_bind, List.map_cons, List.mem_cons, Heap.name_of_get? hm]
    by_cases hx : m.name = x
    · simp [hx]
    · have hne : ¬ x = m.name := fun h => hx h.symm
      simp only [beq_eq_false_iff_ne.mpr hx, hne, false_or]
      exact ih fun r hr => hl r (List.mem_cons_of_mem _ hr)

/-- The names of allocated nodes. -/
lemma mapM_name {l : List NodePtr} (hl : ∀ p ∈ l, ∃ n, heap.get? p = some n) :
    (l.mapM fun p => do return (← heap.deref p).name : Call (List Str)) =
      pure (l.map heap.name) := by
  induction l with
  | nil => rfl
  | cons p l ih =>
    obtain ⟨n, hn⟩ := hl p List.mem_cons_self
    rw [List.mapM_cons, ih fun q hq => hl q (List.mem_cons_of_mem _ hq), Heap.deref_of_get? hn]
    simp [Heap.name_of_get? hn]

end Allocated

section Closed

variable {heap : Heap} {nodes : List NodePtr} (hc : Closed heap nodes)
include hc

/-- The pointers among the nodes can be followed, and lead to the names. -/
lemma Closed.deref {p : NodePtr} (hp : p ∈ nodes) :
    ∃ n, heap.get? p = some n ∧ heap.deref p = pure n ∧ n.name = heap.name p := by
  obtain ⟨n, hn⟩ := hc.allocated p hp
  exact ⟨n, hn, Heap.deref_of_get? hn, (Heap.name_of_get? hn).symm⟩

/-- Comparing the names of nodes with a name finds the node that has it. -/
lemma Closed.anyM_name {p : NodePtr} (hp : p ∈ nodes) {l : List NodePtr} (hl : ∀ q ∈ l, q ∈ nodes) :
    (l.anyM fun r => do return (← heap.deref r).name == heap.name p : Call Bool)
      = pure (decide (p ∈ l)) := by
  have hmem : heap.name p ∈ l.map heap.name ↔ p ∈ l := by
    constructor
    · intro hname
      obtain ⟨q, hq, heq⟩ := List.mem_map.mp hname
      exact hc.names q (hl q hq) p hp heq ▸ hq
    · exact List.mem_map_of_mem
  rw [Depgraph.anyM_name (heap.name p) fun q hq => hc.allocated q (hl q hq),
    decide_eq_decide.mpr hmem]

/-- `Contains` compares names, which tell the nodes apart. -/
lemma Closed.contains {g : Graph} {p : NodePtr} (hp : p ∈ nodes)
    (hg : ∀ q ∈ g.nodes, q ∈ nodes) : g.contains heap p = pure (decide (p ∈ g.nodes)) := by
  obtain ⟨n, -, hn, hname⟩ := hc.deref hp
  rw [← hc.anyM_name hp hg]
  simp [Graph.contains, hn, hname]

end Closed

/-! ### In the middle of a visit -/

/-- The two graphs while the nodes of `path` are being visited, the last one first: the resolved
nodes are in order, and of the other nodes just those of the path are unresolved. -/
structure Visit (heap : Heap) (nodes path : List NodePtr) (graphs : Graph × Graph) : Prop where
  ordered : Ordered (Edge heap) graphs.1.nodes
  resolved_mem : ∀ p ∈ graphs.1.nodes, p ∈ nodes
  unresolved_mem : ∀ p ∈ graphs.2.nodes, p ∈ nodes
  path_nodup : path.Nodup
  path_mem : ∀ p ∈ path, p ∈ nodes
  path_unresolved : ∀ p ∈ path, p ∉ graphs.1.nodes
  unresolved_iff : ∀ p, p ∉ graphs.1.nodes → (p ∈ graphs.2.nodes ↔ p ∈ path)

/-- How a call ends that is to resolve some nodes: they are resolved and so is all that was, or a
node on a cycle is named. -/
def Resolves (heap : Heap) (nodes path : List NodePtr) (graphs : Graph × Graph)
    (targets : List NodePtr) (call : Call (Graph × Graph)) : Prop :=
  (∃ graphs', call = pure graphs' ∧ Visit heap nodes path graphs' ∧
    (∀ p ∈ graphs.1.nodes, p ∈ graphs'.1.nodes) ∧ ∀ p ∈ targets, p ∈ graphs'.1.nodes) ∨
  ∃ p ∈ nodes, call = throw (circularDependency (heap.name p)) ∧
    Relation.TransGen (Edge heap) p p

section Visit

variable {heap : Heap} {nodes path : List NodePtr} {resolved unresolved : Graph}

/-- A resolved node can be added to the unresolved ones once more. -/
lemma Visit.add_of_mem {p : NodePtr} (h : Visit heap nodes path (resolved, unresolved))
    (hp : p ∈ resolved.nodes) : Visit heap nodes path (resolved, unresolved.add p) where
  __ := h
  unresolved_mem := by
    intro q hq
    rcases List.mem_append.mp hq with hq | hq
    · exact h.unresolved_mem q hq
    · obtain rfl : q = p := by simpa using hq
      exact h.resolved_mem q hp
  unresolved_iff := by
    intro q hq
    have hne : q ≠ p := fun heq => hq (heq ▸ hp)
    simpa [Graph.add, hne] using h.unresolved_iff q hq

/-- The visit goes down to a node that is not resolved.

**Proof sketch.** Field by field: the node is put into the unresolved list and on the path, and is
in neither before. -/
lemma Visit.push {p : NodePtr} (h : Visit heap nodes path (resolved, unresolved)) (hp : p ∈ nodes)
    (hpr : p ∉ resolved.nodes) (hpath : p ∉ path) :
    Visit heap nodes (p :: path) (resolved, unresolved.add p) where
  ordered := h.ordered
  resolved_mem := h.resolved_mem
  unresolved_mem := by
    intro q hq
    rcases List.mem_append.mp hq with hq | hq
    · exact h.unresolved_mem q hq
    · obtain rfl : q = p := by simpa using hq
      exact hp
  path_nodup := List.nodup_cons.mpr ⟨hpath, h.path_nodup⟩
  path_mem := List.forall_mem_cons.mpr ⟨hp, h.path_mem⟩
  path_unresolved := List.forall_mem_cons.mpr ⟨hpr, h.path_unresolved⟩
  unresolved_iff := by
    intro q hq
    have hiff : q ∈ unresolved.nodes ↔ q ∈ path := h.unresolved_iff q hq
    simp [Graph.add, hiff, or_comm]

/-- The visit of a node ends once all it has an edge to is resolved.

**Proof sketch.** The node leaves the path and is resolved after all that it has an edge to. Since
the path has no node twice, the others on it are unresolved as before. -/
lemma Visit.pop {p : NodePtr} (h : Visit heap nodes (p :: path) (resolved, unresolved))
    (hdeps : ∀ q, Edge heap p q → q ∈ resolved.nodes) :
    Visit heap nodes path (resolved.add p, unresolved.remove p) where
  ordered := h.ordered.snoc (h.path_unresolved p (by simp)) hdeps
  resolved_mem := by
    intro q hq
    rcases List.mem_append.mp hq with hq | hq
    · exact h.resolved_mem q hq
    · obtain rfl : q = p := by simpa using hq
      exact h.path_mem q (by simp)
  unresolved_mem := fun q hq => h.unresolved_mem q (List.mem_of_mem_erase hq)
  path_nodup := (List.nodup_cons.mp h.path_nodup).2
  path_mem := fun q hq => h.path_mem q (List.mem_cons_of_mem _ hq)
  path_unresolved := by
    intro q hq hmem
    rcases List.mem_append.mp hmem with hmem | hmem
    · exact h.path_unresolved q (List.mem_cons_of_mem _ hq) hmem
    · obtain rfl : q = p := by simpa using hmem
      exact (List.nodup_cons.mp h.path_nodup).1 hq
  unresolved_iff := by
    intro q hq
    obtain ⟨hqr, hne⟩ : q ∉ resolved.nodes ∧ q ≠ p := by simpa [Graph.add] using hq
    have hiff : q ∈ unresolved.nodes ↔ q ∈ p :: path := h.unresolved_iff q hqr
    have herase : q ∈ (unresolved.remove p).nodes ↔ q ∈ unresolved.nodes :=
      List.mem_erase_of_ne hne
    rw [herase, hiff]
    simp [hne]

/-- The nodes of the path and the resolved ones are different nodes. -/
lemma Visit.length_le (h : Visit heap nodes path (resolved, unresolved)) :
    path.length + resolved.nodes.length ≤ nodes.length := by
  have hnodup : (path ++ resolved.nodes).Nodup := by
    rw [List.nodup_append]
    refine ⟨h.path_nodup, h.ordered.nodup, fun p hp q hq heq => ?_⟩
    exact h.path_unresolved p hp (heq ▸ hq)
  have hsub : (path ++ resolved.nodes).Subperm nodes := by
    refine List.subperm_of_subset hnodup fun p hp => ?_
    exact (List.mem_append.mp hp).elim (h.path_mem p) (h.resolved_mem p)
  simpa using hsub.length_le

end Visit

/-! ### Resolving -/

section Resolution

variable {heap : Heap} {nodes path : List NodePtr} (hc : Closed heap nodes)
include hc

/-- The check on an edge finds a circle exactly when the node at its end is open.

**Proof sketch.** Case split on whether the node is resolved. One that is is not on the path; among
the others the unresolved list has exactly those on the path. -/
lemma resolveEdge_eq {visit : NodePtr → Graph × Graph → Call (Graph × Graph)}
    {graphs : Graph × Graph} (h : Visit heap nodes path graphs) {edge : NodePtr}
    (hedge : edge ∈ nodes) :
    resolveEdge heap visit graphs edge
      = if edge ∈ path then throw (circularDependency (heap.name edge))
        else visit edge graphs := by
  obtain ⟨resolved, unresolved⟩ := graphs
  obtain ⟨n, -, hn, hname⟩ := hc.deref hedge
  unfold resolveEdge
  rw [hc.contains hedge h.resolved_mem]
  by_cases hres : edge ∈ resolved.nodes
  · have hpath : edge ∉ path := fun hpath => h.path_unresolved edge hpath hres
    simp [hres, hpath]
  · have hiff : edge ∈ unresolved.nodes ↔ edge ∈ path := h.unresolved_iff edge hres
    by_cases hpath : edge ∈ path
    · simp [hres, hpath, hc.contains hedge h.unresolved_mem, hiff, hn, hname]
    · simp [hres, hpath, hc.contains hedge h.unresolved_mem, hiff]

/-- **A resolved node is visited once more with all below it, and leaves the order as it is.**

**Proof sketch.** What a resolved node has an edge to stands before it in the order, so the stack
never gets higher than the place of the node. -/
theorem resolve_of_mem (depth : ℕ) {p : NodePtr} {resolved unresolved : Graph}
    (h : Visit heap nodes path (resolved, unresolved)) (hp : p ∈ resolved.nodes)
    (hdepth : resolved.nodes.idxOf p < depth) :
    ∃ unresolved', resolve heap depth p (resolved, unresolved) = pure (resolved, unresolved') ∧
      Visit heap nodes path (resolved, unresolved') := by
  induction depth generalizing p unresolved with
  | zero => exact absurd hdepth (Nat.not_lt_zero _)
  | succ depth ih =>
    obtain ⟨n, hget, hderef, hname⟩ := hc.deref (h.resolved_mem p hp)
    have hloop : ∀ es : List NodePtr, (∀ e ∈ es, e ∈ n.edges) → ∀ unresolved,
        Visit heap nodes path (resolved, unresolved) → ∃ unresolved',
          es.foldlM (resolveEdge heap (resolve heap depth)) (resolved, unresolved)
            = pure (resolved, unresolved') ∧ Visit heap nodes path (resolved, unresolved') := by
      intro es
      induction es with
      | nil => exact fun _ unresolved hv => ⟨unresolved, rfl, hv⟩
      | cons e es ihes =>
        intro hes unresolved hv
        have hedge : Edge heap p e := ⟨n, hget, hes e (by simp)⟩
        have he : e ∈ resolved.nodes := h.ordered.mem_of_rel hp hedge
        have hlt : resolved.nodes.idxOf e < depth :=
          Nat.lt_of_lt_of_le (h.ordered.idxOf_lt hp hedge) (Nat.le_of_lt_succ hdepth)
        obtain ⟨unresolved₁, heq, hv₁⟩ := ih hv he hlt
        have hpath : e ∉ path := fun hpath => h.path_unresolved e hpath he
        obtain ⟨unresolved₂, heq₂, hv₂⟩ :=
          ihes (fun e' he' => hes e' (by simp [he'])) unresolved₁ hv₁
        refine ⟨unresolved₂, ?_, hv₂⟩
        rw [List.foldlM_cons, resolveEdge_eq hc hv (h.resolved_mem e he), if_neg hpath, heq]
        exact heq₂
    obtain ⟨unresolved', heq, hv⟩ := hloop n.edges (fun e he => he) _ (h.add_of_mem hp)
    refine ⟨unresolved', ?_, hv⟩
    simp only [resolve, hderef, pure_bind, heq, hname]
    rw [hc.anyM_name (h.resolved_mem p hp) h.resolved_mem]
    simp [hp]

omit hc in
/-- Several nodes, one after the other, are resolved when each of them is.

**Proof sketch.** Induct on the nodes: the first one is resolved, and stays so while the others are,
or it names a cycle and ends the loop. -/
lemma Resolves.foldlM {f : Graph × Graph → NodePtr → Call (Graph × Graph)} {targets : List NodePtr}
    (hf : ∀ p ∈ targets, ∀ graphs, Visit heap nodes path graphs →
      Resolves heap nodes path graphs [p] (f graphs p))
    {graphs : Graph × Graph} (h : Visit heap nodes path graphs) :
    Resolves heap nodes path graphs targets (targets.foldlM f graphs) := by
  induction targets generalizing graphs with
  | nil => exact .inl ⟨graphs, rfl, h, fun _ hp => hp, by simp⟩
  | cons p targets ih =>
    rw [List.foldlM_cons]
    rcases hf p (by simp) graphs h with ⟨graphs₁, heq, hv₁, hle₁, hp₁⟩ | ⟨q, hq, heq, hcycle⟩
    · rw [heq, pure_bind]
      have ih := ih (fun q hq => hf q (by simp [hq])) hv₁
      rcases ih with ⟨graphs₂, heq₂, hv₂, hle₂, hp₂⟩ | hpanic
      · refine .inl ⟨graphs₂, heq₂, hv₂, fun q hq => hle₂ q (hle₁ q hq), ?_⟩
        exact List.forall_mem_cons.mpr ⟨hle₂ p (hp₁ p (by simp)), hp₂⟩
      · exact .inr hpanic
    · exact .inr ⟨q, hq, by rw [heq]; rfl, hcycle⟩

/-- **The visit of a node resolves it, or panics on a cycle**, on a stack for as many calls as there
are nodes off the path.

**Proof sketch.** A node that is not resolved is not on the path either, so going down to it makes
the path longer by a new node. An edge back into the path closes a cycle; once all edges are
resolved the node itself can follow them in the order. -/
theorem resolve_spec (depth : ℕ) {p : NodePtr} {graphs : Graph × Graph}
    (h : Visit heap nodes path graphs) (hp : p ∈ nodes) (hpath : p ∉ path)
    (hreach : ∀ q ∈ path, Relation.TransGen (Edge heap) q p)
    (hdepth : nodes.length ≤ depth + path.length) :
    Resolves heap nodes path graphs [p] (resolve heap depth p graphs) := by
  induction depth generalizing p path graphs with
  | zero =>
    obtain ⟨resolved, unresolved⟩ := graphs
    -- the path holds all nodes already
    have hsub : (p :: path).Subperm nodes :=
      List.subperm_of_subset (List.nodup_cons.mpr ⟨hpath, h.path_nodup⟩)
        (List.cons_subset.mpr ⟨hp, h.path_mem⟩)
    have hlen : path.length + 1 ≤ nodes.length := by simpa using hsub.length_le
    omega
  | succ depth ih =>
    obtain ⟨resolved, unresolved⟩ := graphs
    by_cases hres : p ∈ resolved.nodes
    · have hlt : resolved.nodes.idxOf p < depth + 1 := by
        have hidx : resolved.nodes.idxOf p < resolved.nodes.length :=
          List.idxOf_lt_length_of_mem hres
        have hlen := h.length_le
        omega
      obtain ⟨unresolved', heq, hv⟩ := resolve_of_mem hc (depth + 1) h hres hlt
      exact .inl ⟨_, heq, hv, fun _ hq => hq, by simpa using hres⟩
    · obtain ⟨n, hget, hderef, hname⟩ := hc.deref hp
      have hedges : Resolves heap nodes (p :: path) (resolved, unresolved.add p) n.edges
          (n.edges.foldlM (resolveEdge heap (resolve heap depth))
            (resolved, unresolved.add p)) := by
        refine Resolves.foldlM (fun e he graphs hv => ?_) (h.push hp hres hpath)
        have hedge : Edge heap p e := ⟨n, hget, he⟩
        have hmem : e ∈ nodes := hc.edges p hp e hedge
        have hreach' : ∀ q ∈ p :: path, Relation.TransGen (Edge heap) q e :=
          List.forall_mem_cons.mpr ⟨.single hedge, fun q hq => (hreach q hq).tail hedge⟩
        rw [resolveEdge_eq hc hv hmem]
        split
        · rename_i hback
          exact .inr ⟨e, hmem, rfl, hreach' e hback⟩
        · rename_i hback
          refine ih hv hmem hback hreach' ?_
          rw [List.length_cons]
          omega
      simp only [resolve, hderef, pure_bind]
      rcases hedges with ⟨graphs', heq, hv, hle, hall⟩ | ⟨q, hq, heq, hcycle⟩
      · obtain ⟨resolved', unresolved'⟩ := graphs'
        have hpr : p ∉ resolved'.nodes := hv.path_unresolved p (by simp)
        have hpop : Visit heap nodes path (resolved'.add p, unresolved'.remove p) := by
          refine hv.pop fun q hq => ?_
          obtain ⟨m, hm, hq⟩ := hq
          obtain rfl : n = m := Option.some.inj (hget.symm.trans hm)
          exact hall q hq
        refine .inl ⟨(resolved'.add p, unresolved'.remove p), ?_, hpop, fun q hq => ?_, ?_⟩
        · simp only [heq, pure_bind, hname]
          rw [hc.anyM_name hp hv.resolved_mem]
          simp [hpr]
        · exact List.mem_append_left _ (hle q hq)
        · simp [Graph.add]
      · exact .inr ⟨q, hq, by rw [heq]; rfl, hcycle⟩

/-- **All nodes are put into the order, or a node on a cycle is named**, on a stack for as many
calls as there are nodes.

**Proof sketch.** The visit starts with an empty path, and each node of the graph is resolved in its
turn (`Resolves.foldlM`); the names of the resolved nodes are the order. -/
theorem Graph.resolve_spec {depth : ℕ} (hdepth : nodes.length ≤ depth) :
    (∃ order, Graph.resolve heap depth ⟨nodes⟩ = pure (order.map heap.name) ∧
      Ordered (Edge heap) order ∧ ∀ p, p ∈ order ↔ p ∈ nodes) ∨
    ∃ p ∈ nodes, Graph.resolve heap depth ⟨nodes⟩ = throw (circularDependency (heap.name p)) ∧
      Relation.TransGen (Edge heap) p p := by
  have hstart : Visit heap nodes [] ({}, {}) := by
    constructor <;> simp
  have hall : Resolves heap nodes [] ({}, {}) nodes
      (nodes.foldlM (fun graphs node => Depgraph.resolve heap depth node graphs) ({}, {})) := by
    refine Resolves.foldlM (fun p hp graphs hv => ?_) hstart
    exact Depgraph.resolve_spec hc depth hv hp (by simp) (by simp) (by simpa using hdepth)
  unfold Graph.resolve
  rcases hall with ⟨⟨resolved, unresolved⟩, heq, hv, -, hmem⟩ | ⟨p, hp, heq, hcycle⟩
  · refine .inl ⟨resolved.nodes, ?_, hv.ordered, fun p => ⟨hv.resolved_mem p, hmem p⟩⟩
    simp only [heq, pure_bind]
    exact mapM_name fun p hp => hc.allocated p (hv.resolved_mem p hp)
  · exact .inr ⟨p, hp, by rw [heq]; rfl, hcycle⟩

end Resolution

end Fecore.Depgraph
