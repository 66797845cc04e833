import Mathlib.Data.List.Induction
import Fecore.Depgraph.Depgraph

set_option relaxedAutoImplicit false
set_option autoImplicit false

/-!
# The order in which services are started

`pkg/deployment_order.go`: the services of a compose file become the nodes of a dependency graph,
which is resolved.

## Main definitions

* `Fecore.Depgraph.buildServiceGraph`, `Fecore.Depgraph.buildDeploymentOrder` — the graph of some
  services and their order.
* `Fecore.Depgraph.Requires` — one service depends on another.

## Main results

* `Fecore.Depgraph.closed_buildServiceGraph` — different services that depend on one another only
  make a graph without nil pointers.
* `Fecore.Depgraph.buildDeploymentOrder_total` — the services come in the order of their
  dependencies, or the call panics when there is none.
-/

namespace Fecore.Depgraph

open DependencyOrder

/-- `Service` -/
structure Service where
  name : Str
  dependsOn : List Str
deriving DecidableEq

/-- `nodeMap[d]`, the nil pointer when the name is absent. -/
def nodeOf (nodeMap : GoMap ℕ) (d : Str) : NodePtr := nodeMap.lookup d

/-- The first loop of `buildServiceGraph` allocates a node for each service. -/
def addNode (acc : Heap × Graph × GoMap ℕ) (s : Service) : Heap × Graph × GoMap ℕ :=
  let (heap, graph, nodeMap) := acc
  let n := heap.length
  (heap ++ [{ name := s.name }], graph.add (some n), nodeMap.insert s.name n)

/-- `p.Edges = append(p.Edges, edge)` -/
def Heap.addEdge (heap : Heap) (p edge : NodePtr) : Heap :=
  match p with
  | some i => heap.modify i fun n => { n with edges := n.edges ++ [edge] }
  | none => heap -- not reached: a service is in the map under its name

/-- The second loop of `buildServiceGraph` adds the edges of each service. -/
def addEdges (nodeMap : GoMap ℕ) (heap : Heap) (s : Service) : Heap :=
  s.dependsOn.foldl (fun heap d => heap.addEdge (nodeOf nodeMap s.name) (nodeOf nodeMap d)) heap

/-- `buildServiceGraph(svcs)` -/
def buildServiceGraph (svcs : List Service) : Heap × Graph :=
  let (heap, graph, nodeMap) := svcs.foldl addNode ([], {}, ∅)
  (svcs.foldl (addEdges nodeMap) heap, graph)

/-- `buildDeploymentOrder(svcs)`, on a stack for `depth` calls of `resolve`. -/
def buildDeploymentOrder (depth : ℕ) (svcs : List Service) : Call (List Str) :=
  let (heap, graph) := buildServiceGraph svcs
  graph.resolve heap depth

/-- The names of the services. -/
def names (svcs : List Service) : List Str := svcs.map Service.name

/-- The service `a` names the service `b` as one that it depends on. -/
def Requires (svcs : List Service) (a b : Str) : Prop := ∃ s ∈ svcs, s.name = a ∧ b ∈ s.dependsOn

/-! ### The graph of the services -/

variable {svcs : List Service}

/-- The node map of the services. -/
def nodeMapOf (svcs : List Service) : GoMap ℕ := (svcs.foldl addNode ([], {}, ∅)).2.2

/-- The first loop allocates a node for each service, in the order of the services. -/
lemma foldl_addNode (svcs : List Service) :
    svcs.foldl addNode ([], {}, ∅)
      = (svcs.map fun s => { name := s.name }, ⟨(List.range svcs.length).map some⟩,
          nodeMapOf svcs) := by
  induction svcs using List.reverseRecOn with
  | nil => rfl
  | append_singleton svcs s ih =>
    rw [nodeMapOf, List.foldl_append, ih]
    simp [addNode, Graph.add, List.range_succ]

/-- A service more gets the next node. -/
lemma nodeMapOf_append_singleton (svcs : List Service) (s : Service) :
    nodeMapOf (svcs ++ [s]) = (nodeMapOf svcs).insert s.name svcs.length := by
  rw [nodeMapOf, List.foldl_append, foldl_addNode]
  simp [addNode]

/-- The names of services after services. -/
lemma names_append (l l' : List Service) : names (l ++ l') = names l ++ names l' :=
  List.map_append

/-- The node of a service is allocated at the place of the service.

**Proof sketch.** Induct on the services from their end. The last one is a new name, whose node is
allocated last; the entries of the others stay. -/
lemma nodeOf_nodeMapOf (hnames : (names svcs).Nodup) {d : Str} (hd : d ∈ names svcs) :
    nodeOf (nodeMapOf svcs) d = some ((names svcs).idxOf d) := by
  induction svcs using List.reverseRecOn with
  | nil => simp [names] at hd
  | append_singleton svcs s ih =>
    have happ : names (svcs ++ [s]) = names svcs ++ [s.name] := names_append svcs [s]
    rw [happ, List.nodup_append] at hnames
    rw [happ] at hd ⊢
    rw [nodeMapOf_append_singleton, nodeOf]
    by_cases hds : d = s.name
    · subst hds
      have hnew : s.name ∉ names svcs := fun hold => hnames.2.2 _ hold _ (by simp) rfl
      rw [AList.lookup_insert, List.idxOf_append_of_notMem hnew]
      simp [names]
    · have hold : d ∈ names svcs := by simpa [hds] using hd
      rw [AList.lookup_insert_ne hds, List.idxOf_append_of_mem hold]
      exact ih hnames.1 hold

/-- The edges that `addEdges` adds to a node.

**Proof sketch.** Induct on the names that the service depends on: each turn puts one more edge at
the end of those of its node, and leaves other nodes alone. -/
lemma getElem?_addEdges (nodeMap : GoMap ℕ) (heap : Heap) (s : Service) (i : ℕ) :
    (addEdges nodeMap heap s)[i]? = heap[i]?.map fun n =>
      if nodeOf nodeMap s.name = some i then
        { n with edges := n.edges ++ s.dependsOn.map (nodeOf nodeMap) }
      else n := by
  unfold addEdges
  induction s.dependsOn generalizing heap with
  | nil => cases hi : heap[i]? <;> simp [hi]
  | cons d ds ih =>
    rw [List.foldl_cons, ih]
    cases hp : nodeOf nodeMap s.name with
    | none => simp [Heap.addEdge]
    | some j =>
      by_cases hij : j = i
      · subst hij
        cases hj : heap[j]? <;> simp [Heap.addEdge, hj]
      · cases hi : heap[i]? <;> simp [Heap.addEdge, hij, hi]

/-- The node that is allocated for a service has the name of the service.

**Proof sketch.** Induct on the services whose edges are added, with the edges so far in front. -/
lemma get?_buildServiceGraph (i : ℕ) :
    (buildServiceGraph svcs).1.get? (some i) = svcs[i]?.map fun s =>
      { name := s.name
        edges := svcs.flatMap fun t =>
          if nodeOf (nodeMapOf svcs) t.name = some i then
            t.dependsOn.map (nodeOf (nodeMapOf svcs))
          else [] } := by
  have hloop : ∀ (ts : List Service) (heap : Heap),
      (ts.foldl (addEdges (nodeMapOf svcs)) heap)[i]? = heap[i]?.map fun n =>
        { n with edges := n.edges ++ ts.flatMap fun t =>
            if nodeOf (nodeMapOf svcs) t.name = some i then
              t.dependsOn.map (nodeOf (nodeMapOf svcs))
            else [] } := by
    intro ts
    induction ts with
    | nil => intro heap; cases hi : heap[i]? <;> simp [hi]
    | cons t ts ih =>
      intro heap
      rw [List.foldl_cons, ih, getElem?_addEdges]
      cases heap[i]? with
      | none => rfl
      | some n => by_cases ht : nodeOf (nodeMapOf svcs) t.name = some i <;> simp [ht]
  simp only [buildServiceGraph, foldl_addNode, Heap.get?, Option.bind_some, hloop]
  cases hi : svcs[i]? <;> simp [hi]

section Different

variable (hnames : (names svcs).Nodup)
include hnames

/-- The nodes of the graph are those of the services. -/
lemma nodes_buildServiceGraph :
    (buildServiceGraph svcs).2 = ⟨(names svcs).map (nodeOf (nodeMapOf svcs))⟩ := by
  have hgraph : (buildServiceGraph svcs).2 = ⟨(List.range svcs.length).map some⟩ := by
    simp [buildServiceGraph, foldl_addNode]
  rw [hgraph]
  congr 1
  refine List.ext_getElem (by simp [names]) fun i hi hi' => ?_
  have hlt : i < (names svcs).length := by simpa using hi'
  rw [List.getElem_map, List.getElem_map, List.getElem_range,
    nodeOf_nodeMapOf hnames (List.getElem_mem hlt), hnames.idxOf_getElem i hlt]

/-- The node of a service has its name. -/
lemma name_nodeOf {d : Str} (hd : d ∈ names svcs) :
    (buildServiceGraph svcs).1.name (nodeOf (nodeMapOf svcs) d) = d := by
  have hlt : (names svcs).idxOf d < (names svcs).length := List.idxOf_lt_length_of_mem hd
  have hlt' : (names svcs).idxOf d < svcs.length := by simpa [names] using hlt
  have hname : svcs[(names svcs).idxOf d].name = d := by
    simpa only [names, List.getElem_map] using List.getElem_idxOf hlt
  rw [Heap.name, nodeOf_nodeMapOf hnames hd, get?_buildServiceGraph,
    List.getElem?_eq_getElem hlt']
  exact hname

/-- The edges of the graph are the dependencies.

**Proof sketch.** The edges of a node are those of the services with its name
(`get?_buildServiceGraph`), and these are their dependencies; a name that is listed has its node
(`nodeOf_nodeMapOf`). -/
lemma edge_buildServiceGraph {p q : NodePtr} :
    Edge (buildServiceGraph svcs).1 p q ↔ ∃ a b, Requires svcs a b ∧
      nodeOf (nodeMapOf svcs) a = p ∧ nodeOf (nodeMapOf svcs) b = q := by
  constructor
  · rintro ⟨n, hn, hq⟩
    cases p with
    | none => exact absurd hn (by simp [Heap.get?])
    | some i =>
      rw [get?_buildServiceGraph] at hn
      obtain ⟨s, -, rfl⟩ := Option.map_eq_some_iff.mp hn
      obtain ⟨t, ht, hq⟩ := List.mem_flatMap.mp hq
      by_cases hti : nodeOf (nodeMapOf svcs) t.name = some i
      · rw [if_pos hti] at hq
        obtain ⟨d, hd, rfl⟩ := List.mem_map.mp hq
        exact ⟨t.name, d, ⟨t, ht, rfl, hd⟩, hti, rfl⟩
      · rw [if_neg hti] at hq
        exact absurd hq (by simp)
  · rintro ⟨a, b, ⟨t, ht, rfl, hb⟩, rfl, rfl⟩
    have hmem : t.name ∈ names svcs := List.mem_map_of_mem ht
    have hlt : (names svcs).idxOf t.name < svcs.length := by
      simpa [names] using List.idxOf_lt_length_of_mem hmem
    have hnode := nodeOf_nodeMapOf hnames hmem
    refine ⟨_, by rw [hnode, get?_buildServiceGraph, List.getElem?_eq_getElem hlt]; rfl, ?_⟩
    refine List.mem_flatMap.mpr ⟨t, ht, ?_⟩
    rw [if_pos hnode]
    exact List.mem_map_of_mem hb

/-- **Different services that depend on one another only make a graph without nil pointers.**

**Proof sketch.** A name has one node (`name_nodeOf`), which is that of its place in the list; an
edge is a dependency (`edge_buildServiceGraph`), and the names that are depended on are there by
hypothesis. -/
theorem closed_buildServiceGraph (hdeps : ∀ a b, Requires svcs a b → b ∈ names svcs) :
    Closed (buildServiceGraph svcs).1 ((names svcs).map (nodeOf (nodeMapOf svcs))) where
  nodup := by
    refine hnames.map_on fun a ha b hb hab => ?_
    rw [← name_nodeOf hnames ha, hab, name_nodeOf hnames hb]
  allocated := by
    intro p hp
    obtain ⟨d, hd, rfl⟩ := List.mem_map.mp hp
    have hlt : (names svcs).idxOf d < svcs.length := by
      simpa [names] using List.idxOf_lt_length_of_mem hd
    rw [nodeOf_nodeMapOf hnames hd, get?_buildServiceGraph, List.getElem?_eq_getElem hlt]
    exact ⟨_, rfl⟩
  edges := by
    intro p _ q hpq
    obtain ⟨a, b, hab, -, rfl⟩ := (edge_buildServiceGraph hnames).mp hpq
    exact List.mem_map_of_mem (hdeps a b hab)
  names := by
    intro p hp q hq hpq
    obtain ⟨a, ha, rfl⟩ := List.mem_map.mp hp
    obtain ⟨b, hb, rfl⟩ := List.mem_map.mp hq
    rw [name_nodeOf hnames ha, name_nodeOf hnames hb] at hpq
    rw [hpq]

/-! ### The order of the services -/

/-- **The services come in the order of their dependencies, or there is none and the call panics**,
on every stack that is high enough for the services.

**Proof sketch.** The call is `Graph.resolve` on a closed graph, so that `Graph.resolve_spec` gives
an order of its pointers or a cycle. Both are carried over to the names along
`edge_buildServiceGraph`. -/
theorem buildDeploymentOrder_spec (hdeps : ∀ a b, Requires svcs a b → b ∈ names svcs) {depth : ℕ}
    (hdepth : svcs.length ≤ depth) :
    (∃ order, buildDeploymentOrder depth svcs = pure order ∧ Ordered (Requires svcs) order ∧
      order.Perm (names svcs)) ∨
    ∃ a ∈ names svcs, buildDeploymentOrder depth svcs = throw (circularDependency a) ∧
      Relation.TransGen (Requires svcs) a a := by
  have hc := closed_buildServiceGraph hnames hdeps
  have hcall : buildDeploymentOrder depth svcs = Graph.resolve (buildServiceGraph svcs).1 depth
      ⟨(names svcs).map (nodeOf (nodeMapOf svcs))⟩ := by
    rw [← nodes_buildServiceGraph hnames]
    rfl
  rw [hcall]
  rcases Graph.resolve_spec hc (by simpa [names] using hdepth) with
    ⟨order, heq, hord, hmem⟩ | ⟨p, hp, heq, hcycle⟩
  · have hordered : Ordered (Requires svcs) (order.map (buildServiceGraph svcs).1.name) := by
      refine hord.map (fun p hp q hq => hc.names p ((hmem p).mp hp) q ((hmem q).mp hq)) ?_
      intro p hp b hab
      obtain ⟨a, ha, rfl⟩ := List.mem_map.mp ((hmem p).mp hp)
      rw [name_nodeOf hnames ha] at hab
      exact ⟨_, (edge_buildServiceGraph hnames).mpr ⟨a, b, hab, rfl, rfl⟩,
        name_nodeOf hnames (hdeps a b hab)⟩
    refine .inl ⟨_, heq, hordered, (List.perm_ext_iff_of_nodup hordered.nodup hnames).mpr ?_⟩
    intro d
    constructor
    · intro hd
      obtain ⟨p, hp, rfl⟩ := List.mem_map.mp hd
      obtain ⟨a, ha, rfl⟩ := List.mem_map.mp ((hmem p).mp hp)
      rwa [name_nodeOf hnames ha]
    · intro hd
      refine List.mem_map.mpr ⟨_, (hmem _).mpr (List.mem_map_of_mem hd), name_nodeOf hnames hd⟩
  · obtain ⟨a, ha, rfl⟩ := List.mem_map.mp hp
    have hlift : ∀ p q, Edge (buildServiceGraph svcs).1 p q →
        Requires svcs ((buildServiceGraph svcs).1.name p) ((buildServiceGraph svcs).1.name q) := by
      intro p q hpq
      obtain ⟨a, b, hab, rfl, rfl⟩ := (edge_buildServiceGraph hnames).mp hpq
      obtain ⟨t, ht, rfl, -⟩ := id hab
      rwa [name_nodeOf hnames (List.mem_map_of_mem ht), name_nodeOf hnames (hdeps _ b hab)]
    have hcycle : Relation.TransGen (Requires svcs) _ _ := hcycle.lift _ hlift
    rw [name_nodeOf hnames ha] at heq hcycle
    exact .inr ⟨a, ha, heq, hcycle⟩

end Different

/-- **The order of the services is right, or there is none.** The call ends with the same result on
every stack that is high enough for the services: without cycles, with all the services, each after
those it depends on; with a cycle, with the panic that says so.

**Proof sketch.** On a stack as high as the list the result is that of `buildDeploymentOrder_spec`,
and a higher one gives the same (`Graph.resolve_extends`). An order excludes cycles
(`Ordered.acyclic`), and puts each name after those that it requires (`Ordered.idxOf_lt`). -/
theorem buildDeploymentOrder_total (svcs : List Service) (hnames : (names svcs).Nodup)
    (hdeps : ∀ s ∈ svcs, ∀ d ∈ s.dependsOn, d ∈ names svcs) :
    ∃ res : Except Panic (List Str),
      (∀ depth, svcs.length ≤ depth → (buildDeploymentOrder depth svcs).run = some res) ∧
      (Acyclic (Requires svcs) → ∃ order, res = .ok order ∧ order.Perm (names svcs) ∧
        ∀ a b, Requires svcs a b → order.idxOf b < order.idxOf a) ∧
      (¬ Acyclic (Requires svcs) → ∃ a ∈ names svcs, res = .error (circularDependency a) ∧
        Relation.TransGen (Requires svcs) a a) := by
  have hdeps' : ∀ a b, Requires svcs a b → b ∈ names svcs := by
    rintro a b ⟨s, hs, rfl, hb⟩
    exact hdeps s hs b hb
  have hlast := buildDeploymentOrder_spec hnames hdeps' le_rfl
  have hhigher : ∀ res, (buildDeploymentOrder svcs.length svcs).run = some res →
      ∀ depth, svcs.length ≤ depth → (buildDeploymentOrder depth svcs).run = some res :=
    fun res hres depth hdepth => Graph.resolve_extends _ _ hdepth res hres
  rcases hlast with ⟨order, heq, hord, hperm⟩ | ⟨a, ha, heq, hcycle⟩
  · refine ⟨.ok order, hhigher _ (by rw [heq]; rfl), fun _ => ⟨order, rfl, hperm, ?_⟩, ?_⟩
    · rintro a b ⟨s, hs, rfl, hb⟩
      exact hord.idxOf_lt (hperm.mem_iff.mpr (List.mem_map_of_mem hs)) ⟨s, hs, rfl, hb⟩
    · intro hcyclic
      refine absurd (hord.acyclic ?_) hcyclic
      rintro a b ⟨s, hs, rfl, -⟩
      exact hperm.mem_iff.mpr (List.mem_map_of_mem hs)
  · refine ⟨.error (circularDependency a), hhigher _ (by rw [heq]; rfl), ?_, ?_⟩
    · exact fun hacyclic => absurd hcycle (hacyclic a)
    · exact fun _ => ⟨a, ha, rfl, hcycle⟩

/-- Services that depend on one another in a diamond. -/
def diamond : List Service :=
  [⟨['A'], [['B'], ['C']]⟩, ⟨['B'], [['D']]⟩, ⟨['C'], [['D']]⟩, ⟨['D'], []⟩]

example : (buildDeploymentOrder 4 diamond).run = some (.ok [['D'], ['B'], ['C'], ['A']]) := by
  decide +kernel

/-- The theorem at a diamond. -/
theorem buildDeploymentOrder_total_diamond :
    ∃ res : Except Panic (List Str),
      (∀ depth, diamond.length ≤ depth → (buildDeploymentOrder depth diamond).run = some res) ∧
      (Acyclic (Requires diamond) → ∃ order, res = .ok order ∧ order.Perm (names diamond) ∧
        ∀ a b, Requires diamond a b → order.idxOf b < order.idxOf a) ∧
      (¬ Acyclic (Requires diamond) → ∃ a ∈ names diamond, res = .error (circularDependency a) ∧
        Relation.TransGen (Requires diamond) a a) :=
  buildDeploymentOrder_total diamond (by decide) (by decide)

end Fecore.Depgraph
