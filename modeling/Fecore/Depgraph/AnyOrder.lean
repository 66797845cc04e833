import Fecore.Depgraph.AnyServices

set_option relaxedAutoImplicit false
set_option autoImplicit false

/-!
# When the order of any services is found

A name that is not grounded leads to the first thing it depends on that is not grounded either, and
its visit follows it there, until it comes to a nil pointer, to a name of the path, or round a cycle
of resolved names without end. This file puts the visits together and shows on which services
`buildDeploymentOrder` finds the order or reports a cycle.

## Main definitions

* `Fecore.Depgraph.Leads` — the first dependency that is not grounded.
* `Fecore.Depgraph.Settles` — the order is found, or what is circular or unknown is reported.
* `Fecore.Depgraph.InOrder`, `Fecore.Depgraph.LeadsToReport` — the two conditions on the services.
* `Fecore.Depgraph.NoOrder` — a cycle or an unknown dependency.

## Main results

* `Fecore.Depgraph.visit_endless`, `Fecore.Depgraph.reports_of_cycle` — where a visit of a name ends
  that is not grounded.
* `Fecore.Depgraph.buildDeploymentOrder_ne_ok` — without an order none is returned.
* `Fecore.Depgraph.settles_iff` — on which services the call settles.
-/

namespace Fecore.Depgraph

open DependencyOrder Fuelled

variable {svcs : List Service}

/-! ### Names that are not grounded -/

/-- The first thing that a name depends on and that is not grounded. -/
def Leads (svcs : List Service) (a d : Str) : Prop :=
  ∃ pre post, deps svcs a = pre ++ d :: post ∧ (∀ x ∈ pre, Grounded svcs x) ∧ ¬ Grounded svcs d

namespace Leads

variable {a c d : Str}

open Classical in
/-- The name it leads to is the first one that is found not to be grounded. -/
lemma iff_find : Leads svcs a d ↔
    (deps svcs a).find? (fun x => decide (¬ Grounded svcs x)) = some d := by
  rw [List.find?_eq_some_iff_append]
  constructor
  · rintro ⟨pre, post, heq, hpre, hd⟩
    exact ⟨decide_eq_true hd, pre, post, heq, fun x hx => by simp [hpre x hx]⟩
  · rintro ⟨hd, pre, post, heq, hpre⟩
    exact ⟨pre, post, heq, fun x hx => by simpa using hpre x hx, of_decide_eq_true hd⟩

/-- A name leads only to what it depends on. -/
lemma requires (h : Leads svcs a d) : Requires svcs a d := by
  obtain ⟨pre, post, heq, -, -⟩ := h
  exact mem_deps.mp (heq ▸ List.mem_append_right _ List.mem_cons_self)

/-- A name that leads somewhere is that of a service. -/
lemma listed (h : Leads svcs a d) : a ∈ names svcs := by
  obtain ⟨s, hs, rfl, -⟩ := h.requires
  exact List.mem_map_of_mem hs

/-- What a name leads to is not grounded. -/
lemma not_grounded (h : Leads svcs a d) : ¬ Grounded svcs d := by
  obtain ⟨-, -, -, -, hd⟩ := h
  exact hd

/-- A name that leads somewhere is not grounded itself. -/
lemma not_grounded_left (h : Leads svcs a d) : ¬ Grounded svcs a :=
  fun ha => h.not_grounded (ha.of_requires h.requires)

/-- A listed name that is not grounded leads somewhere. -/
lemma exists_of_not_grounded (ha : a ∈ names svcs) (hg : ¬ Grounded svcs a) :
    ∃ d, Leads svcs a d := by
  classical
  cases hfind : (deps svcs a).find? (fun x => decide (¬ Grounded svcs x)) with
  | some d => exact ⟨d, iff_find.mpr hfind⟩
  | none =>
    refine absurd (Grounded.intro ha fun d had => ?_) hg
    simpa using List.find?_eq_none.mp hfind d (mem_deps.mpr had)

/-- A name that leads somewhere, in any number of steps, is that of a service. -/
lemma listed_of_transGen (h : Relation.TransGen (Leads svcs) a c) : a ∈ names svcs := by
  obtain ⟨d, had, -⟩ := Relation.TransGen.head'_iff.mp h
  exact had.listed

/-- A name that leads somewhere, in any number of steps, is not grounded. -/
lemma not_grounded_of_transGen (h : Relation.TransGen (Leads svcs) a c) : ¬ Grounded svcs a := by
  obtain ⟨d, had, -⟩ := Relation.TransGen.head'_iff.mp h
  exact had.not_grounded_left

end Leads

/-- Of the names that are not grounded, these are the resolved ones. -/
def Knows (svcs : List Service) (early : List Str) (graphs : Graph × Graph) : Prop :=
  ∀ x, ¬ Grounded svcs x → (x ∈ graphs.1.names (heapOf svcs) ↔ x ∈ early)

/-- The visit of a name that is not grounded comes to the edge where it leads.

**Proof sketch.** The dependencies before the edge are grounded, so their visits end
(`ends_edgeLoop`), and the loop comes to the edge; the call ends with an error as soon as the edge
does. -/
lemma visit_leads {early : List Str} {a d : Str} (had : Leads svcs a d) {path : List NodePtr}
    {graphs : Graph × Graph} (h : Open (heapOf svcs) path graphs)
    (hpath : ∀ x ∈ path.map (heapOf svcs).name, ¬ Grounded svcs x)
    (hknows : Knows svcs early graphs) :
    ∃ graphs₁, Open (heapOf svcs) (ptr svcs a :: path) graphs₁ ∧ Knows svcs early graphs₁ ∧
      (∀ e, Ends (fun depth => resolveEdge (heapOf svcs) (resolve (heapOf svcs) depth) graphs₁
          (ptr svcs d)) (.error e) →
        Ends (fun depth => resolve (heapOf svcs) depth (ptr svcs a) graphs) (.error e)) ∧
      ∀ depth res, (resolve (heapOf svcs) (depth + 1) (ptr svcs a) graphs).run = some res →
        ∃ r, (resolveEdge (heapOf svcs) (resolve (heapOf svcs) depth) graphs₁ (ptr svcs d)).run =
          some r ∧ ∀ e, r = .error e → res = .error e := by
  obtain ⟨resolved, unresolved⟩ := graphs
  have hget := get?_ptr had.listed
  have hname : (heapOf svcs).name (ptr svcs a) = a := Heap.name_of_get? hget
  have hpath' : ∀ x ∈ (ptr svcs a :: path).map (heapOf svcs).name, ¬ Grounded svcs x := by
    rw [List.map_cons, List.forall_mem_cons, hname]
    exact ⟨had.not_grounded_left, hpath⟩
  obtain ⟨pre, post, hdeps, hpre, -⟩ := id had
  obtain ⟨graphs₁, hends, hopen, -, hmem⟩ := ends_edgeLoop pre (fun x hx => (hpre x hx).listed)
    (fun x hx hold => hpath' x hold (hpre x hx))
    (fun x hx graphs hg => ends_of_grounded (hpre x hx) hg
      fun y hy hxy => hpath' y hy ((hpre x hx).of_reflTransGen hxy))
    (h.push hget)
  have hloop : ∀ depth, resolve (heapOf svcs) (depth + 1) (ptr svcs a) (resolved, unresolved) =
      ((pre.map (ptr svcs) ++ ptr svcs d :: post.map (ptr svcs)).foldlM
        (resolveEdge (heapOf svcs) (resolve (heapOf svcs) depth))
          (resolved, unresolved.add (ptr svcs a))) >>=
        finish (heapOf svcs) (ptr svcs a)
          { name := a, edges := (deps svcs a).map (ptr svcs) } := by
    intro depth
    rw [resolve_succ hget, hdeps, List.map_append, List.map_cons]
  refine ⟨graphs₁, hopen, fun x hx => ?_, fun e he => ?_, fun depth res hres => ?_⟩
  · rw [hmem, or_iff_left]
    · exact hknows x hx
    · rintro ⟨y, hy, hyx⟩
      exact hx ((hpre y hy).of_reflTransGen hyx)
  · have hrest : Ends (fun depth => (ptr svcs d :: post.map (ptr svcs)).foldlM
        (resolveEdge (heapOf svcs) (resolve (heapOf svcs) depth)) graphs₁) (.error e) :=
      he.bind_error
    obtain ⟨depth, hrun⟩ := Ends.foldlM_append (monotone_resolveEdge _) hends hrest
    refine ⟨depth + 1, ?_⟩
    dsimp only at hrun ⊢
    rw [hloop]
    exact run_bind_eq_some.mpr (.inr ⟨e, hrun, rfl⟩)
  · rw [hloop] at hres
    rcases run_bind_eq_some.mp hres with ⟨graphs₂, hrun, -⟩ | ⟨e, hrun, rfl⟩
    · have hrest := run_foldlM_append (monotone_resolveEdge _) hends hrun
      rw [List.foldlM_cons] at hrest
      rcases run_bind_eq_some.mp hrest with ⟨graphs₃, hedge, -⟩ | ⟨e, -, herr⟩
      · exact ⟨_, hedge, nofun⟩
      · cases herr
    · have hrest := run_foldlM_append (monotone_resolveEdge _) hends hrun
      rw [List.foldlM_cons] at hrest
      rcases run_bind_eq_some.mp hrest with ⟨graphs₃, hedge, -⟩ | ⟨e', hedge, herr⟩
      · exact ⟨_, hedge, nofun⟩
      · exact ⟨_, hedge, fun e'' he'' => herr.trans he''⟩

/-! ### Where a visit that is not grounded leads -/

section Walk

variable {early : List Str} {a c d n : Str} {path : List NodePtr} {graphs : Graph × Graph}

/-- The names of the path lead to the name that is visited. -/
def LeadTo (svcs : List Service) (path : List NodePtr) (a : Str) : Prop :=
  ∀ x ∈ path.map (heapOf svcs).name, Relation.TransGen (Leads svcs) x a

/-- The empty path leads to every name. -/
lemma leadTo_nil (a : Str) : LeadTo svcs [] a := fun _ hx => absurd hx List.not_mem_nil

/-- The path goes on by a name that leads to the next one. -/
lemma LeadTo.push (h : LeadTo svcs path a) (had : Leads svcs a d) :
    LeadTo svcs (ptr svcs a :: path) d := by
  intro x hx
  rw [List.map_cons, Heap.name_of_get? (get?_ptr had.listed), List.mem_cons] at hx
  rcases hx with rfl | hx
  · exact .single had
  · exact (h x hx).tail had

/-- The names on a path that goes on by the node of a name. -/
lemma names_push (ha : a ∈ names svcs) :
    (ptr svcs a :: path).map (heapOf svcs).name = a :: path.map (heapOf svcs).name := by
  rw [List.map_cons, Heap.name_of_get? (get?_ptr ha)]

/-- **A cycle is endless** when all its names are resolved early: the visit of a name that leads to
no other cycle does not end, except at a nil pointer.

**Proof sketch.** Induct on the depth. The service leads to one that is not grounded
(`Leads.exists_of_not_grounded`), whose visit is the rest of the call. It closes no cycle that is
not resolved early, so the panic for one cannot come; and where the edge is nil the pointer is
dereferenced. -/
lemma visit_endless
    (hcycles : ∀ c, Relation.ReflTransGen (Leads svcs) n c → Relation.TransGen (Leads svcs) c c →
      c ∈ early) (depth : ℕ) :
    ∀ {a : Str} {path : List NodePtr} {graphs : Graph × Graph} {res : Except Panic (Graph × Graph)},
      Relation.ReflTransGen (Leads svcs) n a → a ∈ names svcs → ¬ Grounded svcs a →
        LeadTo svcs path a → Open (heapOf svcs) path graphs → Knows svcs early graphs →
          (resolve (heapOf svcs) depth (ptr svcs a) graphs).run = some res →
            res = .error .nilPointer := by
  induction depth with
  | zero => exact fun _ _ _ _ _ _ h => nomatch h
  | succ depth ih =>
    intro a path graphs res hna ha hg hlead hopen hknows hres
    obtain ⟨d, had⟩ := Leads.exists_of_not_grounded ha hg
    obtain ⟨graphs₁, hopen₁, hknows₁, -, hrun⟩ := visit_leads had hopen
      (fun x hx => Leads.not_grounded_of_transGen (hlead x hx)) hknows
    obtain ⟨r, hr, hend⟩ := hrun depth res hres
    refine hend _ ?_
    by_cases hd : d ∈ names svcs
    · rw [hopen₁.resolveEdge_eq (get?_ptr hd), names_push ha] at hr
      split at hr
      · next hcirc =>
        have hcycle : Relation.TransGen (Leads svcs) d d := by
          rcases List.mem_cons.mp hcirc.2 with rfl | hd
          · exact .single had
          · exact (hlead d hd).tail had
        exact absurd ((hknows₁ d had.not_grounded).mpr (hcycles d (hna.tail had) hcycle)) hcirc.1
      · exact ih (hna.tail had) hd had.not_grounded (hlead.push had) hopen₁ hknows₁ hr
    · rw [ptr_eq_none hd, hopen₁.resolveEdge_nil] at hr
      exact (Option.some.inj hr).symm

/-- How a call ends that reports a name on a cycle. -/
def Reports (svcs : List Service) (call : ℕ → Call (Graph × Graph)) : Prop :=
  ∃ c, Relation.TransGen (Requires svcs) c c ∧ Ends call (.error (circularDependency c))

/-- The visit of a name reports a cycle when the name that it leads to is one of the path, and not
resolved, or when the visit of that name does.

**Proof sketch.** The call comes to the edge (`visit_leads`). If the name there is on the path and
not resolved, the edge reports a cycle through it; otherwise its visit does. -/
lemma reports_of_leads (had : Leads svcs a d) (hd : d ∈ names svcs)
    (hlead : LeadTo svcs path a) (hopen : Open (heapOf svcs) path graphs)
    (hknows : Knows svcs early graphs)
    (h : (d ∉ early ∧ d ∈ a :: path.map (heapOf svcs).name) ∨
      ∀ graphs₁, Open (heapOf svcs) (ptr svcs a :: path) graphs₁ → Knows svcs early graphs₁ →
        Reports svcs fun depth => resolve (heapOf svcs) depth (ptr svcs d) graphs₁) :
    Reports svcs fun depth => resolve (heapOf svcs) depth (ptr svcs a) graphs := by
  obtain ⟨graphs₁, hopen₁, hknows₁, hends, -⟩ := visit_leads had hopen
    (fun x hx => Leads.not_grounded_of_transGen (hlead x hx)) hknows
  have hedge := fun visit => hopen₁.resolveEdge_eq (get?_ptr hd) visit
  by_cases hcirc : d ∉ graphs₁.1.names (heapOf svcs) ∧
      d ∈ (ptr svcs a :: path).map (heapOf svcs).name
  · have hcycle : Relation.TransGen (Leads svcs) d d := by
      have hd' := hcirc.2
      rw [names_push had.listed] at hd'
      rcases List.mem_cons.mp hd' with rfl | hd'
      · exact .single had
      · exact (hlead d hd').tail had
    refine ⟨d, hcycle.lift id fun _ _ => Leads.requires, hends _ ⟨0, ?_⟩⟩
    dsimp only
    rw [hedge, if_pos hcirc]
    rfl
  · rcases h with ⟨hearly, hpath⟩ | h
    · rw [← hknows₁ d had.not_grounded] at hearly
      exact absurd ⟨hearly, by rwa [names_push had.listed]⟩ hcirc
    · obtain ⟨c, hc, depth, hrun⟩ := h graphs₁ hopen₁ hknows₁
      refine ⟨c, hc, hends _ ⟨depth, ?_⟩⟩
      dsimp only
      rw [hedge, if_neg hcirc]
      exact hrun

/-- A visit that leads to a name of the path, which is not resolved, reports a cycle.

**Proof sketch.** Induct on the way to the name, from its beginning. The last edge leads to a name
of the path, and the check on it finds the circle; before that, the visit goes down one edge, and
the path grows (`reports_of_leads`). -/
lemma reports_on_path (hearly : c ∉ early) (hac : Relation.TransGen (Leads svcs) a c) :
    ∀ {path : List NodePtr} {graphs : Graph × Graph}, c ∈ a :: path.map (heapOf svcs).name →
      LeadTo svcs path a → Open (heapOf svcs) path graphs → Knows svcs early graphs →
        Reports svcs fun depth => resolve (heapOf svcs) depth (ptr svcs a) graphs := by
  induction hac using Relation.TransGen.head_induction_on with
  | @single a had =>
    intro path graphs hc hlead hopen hknows
    have hlisted : c ∈ names svcs := by
      rcases List.mem_cons.mp hc with rfl | hc
      · exact had.listed
      · exact Leads.listed_of_transGen (hlead c hc)
    exact reports_of_leads had hlisted hlead hopen hknows (.inl ⟨hearly, hc⟩)
  | @head a d had hdc ih =>
    intro path graphs hc hlead hopen hknows
    refine reports_of_leads had (Leads.listed_of_transGen hdc) hlead hopen hknows
      (.inr fun graphs₁ hopen₁ hknows₁ => ih ?_ (hlead.push had) hopen₁ hknows₁)
    rw [names_push had.listed]
    exact List.mem_cons_of_mem _ hc

/-- **A visit that leads to a cycle reports it** when a name of the cycle is not resolved. -/
lemma reports_of_cycle (hearly : c ∉ early) (hcycle : Relation.TransGen (Leads svcs) c c)
    (hac : Relation.ReflTransGen (Leads svcs) a c) :
    ∀ {path : List NodePtr} {graphs : Graph × Graph}, LeadTo svcs path a →
      Open (heapOf svcs) path graphs → Knows svcs early graphs →
        Reports svcs fun depth => resolve (heapOf svcs) depth (ptr svcs a) graphs := by
  induction hac using Relation.ReflTransGen.head_induction_on with
  | refl => exact fun hlead => reports_on_path hearly hcycle List.mem_cons_self hlead
  | @head a d had hdc ih =>
    intro path graphs hlead hopen hknows
    have hlisted : d ∈ names svcs := by
      rcases Relation.ReflTransGen.cases_head_iff.mp hdc with rfl | ⟨e, hde, -⟩
      · exact Leads.listed_of_transGen hcycle
      · exact hde.listed
    exact reports_of_leads had hlisted hlead hopen hknows
      (.inr fun graphs₁ hopen₁ hknows₁ => ih (hlead.push had) hopen₁ hknows₁)

end Walk

/-! ### All services -/

/-- The names that are resolved once the first services have been visited: theirs, and what is below
the names that have their last service there. -/
def Resolved (svcs pre post : List Service) (x : Str) : Prop :=
  x ∈ names pre ∨ ∃ a ∈ names pre, a ∉ names post ∧ Relation.TransGen (Requires svcs) a x

/-- **Where a name comes again, all it depends on is resolved before its first service.** -/
def InOrder (svcs pre post : List Service) : Prop :=
  ∀ p s q, pre = p ++ s :: q → s.name ∉ names p → s.name ∈ names (q ++ post) →
    ∀ d, Requires svcs s.name d → Resolved svcs p (s :: q ++ post) d

/-- Before the first service nothing is out of order. -/
lemma inOrder_nil (svcs post : List Service) : InOrder svcs [] post := by
  intro p s q h
  simp at h

/-- One more service.

**Proof sketch.** A place in the longer list is one in the shorter list or the last place, for which
the second part is what is asked. -/
lemma inOrder_append_singleton {pre post : List Service} {s : Service} :
    InOrder svcs (pre ++ [s]) post ↔ InOrder svcs pre (s :: post) ∧
      (s.name ∉ names pre → s.name ∈ names post →
        ∀ d, Requires svcs s.name d → Resolved svcs pre (s :: post) d) := by
  constructor
  · intro h
    refine ⟨fun p t q heq hnew hlater => ?_, h pre s [] rfl⟩
    have hq : (q ++ [s]) ++ post = q ++ s :: post := by simp
    have ht := h p t (q ++ [s]) (by rw [heq]; simp) hnew (by rwa [hq])
    rwa [List.cons_append, hq] at ht
  · rintro ⟨h, hs⟩ p t q heq hnew hlater
    rcases List.eq_nil_or_concat q with rfl | ⟨q, u, rfl⟩
    · obtain ⟨rfl, ht⟩ := List.append_inj' heq rfl
      obtain rfl := List.singleton_inj.mp ht
      exact hs hnew hlater
    · have heq : pre ++ [s] = (p ++ t :: q) ++ [u] := by simpa using heq
      obtain ⟨rfl, hu⟩ := List.append_inj' heq rfl
      obtain rfl := List.singleton_inj.mp hu
      have hq : q.concat s ++ post = q ++ s :: post := by simp
      rw [List.cons_append, hq]
      exact h p t q rfl hnew (by rwa [hq] at hlater)

/-- The names with one more service at the end. -/
lemma mem_names_append_singleton {pre : List Service} {s : Service} {x : Str} :
    x ∈ names (pre ++ [s]) ↔ x ∈ names pre ∨ x = s.name := by
  rw [names_append, List.mem_append]
  simp [names]

/-- A service that is not the last one of its name resolves the name. -/
lemma resolved_early {pre post : List Service} {s : Service} (hearly : s.name ∈ names post)
    {x : Str} : Resolved svcs (pre ++ [s]) post x ↔
      x = s.name ∨ Resolved svcs pre (s :: post) x := by
  unfold Resolved
  simp only [mem_names_append_singleton, names_cons, List.mem_cons, not_or]
  constructor
  · rintro ((hx | rfl) | ⟨a, ha | rfl, hpost, hax⟩)
    · exact .inr (.inl hx)
    · exact .inl rfl
    · exact .inr (.inr ⟨a, ha, ⟨fun heq => hpost (heq ▸ hearly), hpost⟩, hax⟩)
    · exact absurd hearly hpost
  · rintro (rfl | hx | ⟨a, ha, ⟨-, hpost⟩, hax⟩)
    · exact .inl (.inr rfl)
    · exact .inl (.inl hx)
    · exact .inr ⟨a, .inl ha, hpost, hax⟩

/-- The last service of a name resolves the name and what is below it.

**Proof sketch.** Unfold both sides. What is new is the name itself and what is below it, since its
last service has been visited now. -/
lemma resolved_last {pre post : List Service} {s : Service} (hlast : s.name ∉ names post)
    {x : Str} : Resolved svcs (pre ++ [s]) post x ↔
      Resolved svcs pre (s :: post) x ∨ Relation.ReflTransGen (Requires svcs) s.name x := by
  unfold Resolved
  simp only [mem_names_append_singleton, names_cons, List.mem_cons, not_or]
  constructor
  · rintro ((hx | rfl) | ⟨a, ha | rfl, hpost, hax⟩)
    · exact .inl (.inl hx)
    · exact .inr .refl
    · by_cases has : a = s.name
      · exact .inr (has ▸ hax.to_reflTransGen)
      · exact .inl (.inr ⟨a, ha, ⟨has, hpost⟩, hax⟩)
    · exact .inr hax.to_reflTransGen
  · rintro ((hx | ⟨a, ha, ⟨-, hpost⟩, hax⟩) | hx)
    · exact .inl (.inl hx)
    · exact .inr ⟨a, .inl ha, hpost, hax⟩
    · rcases Relation.reflTransGen_iff_eq_or_transGen.mp hx with rfl | hx
      · exact .inl (.inr rfl)
      · exact .inr ⟨s.name, .inr rfl, hlast, hx⟩

/-- The loop of `Resolve` over the first services. -/
def rootLoop (svcs : List Service) (k depth : ℕ) : Call (Graph × Graph) :=
  ((List.range k).map some).foldlM (fun graphs p => resolve (heapOf svcs) depth p graphs) ({}, {})

/-- Once the first services have been visited, these names are resolved, and they are in order if
they should be. -/
structure Roots (svcs pre post : List Service) (graphs : Graph × Graph) : Prop where
  isOpen : Open (heapOf svcs) [] graphs
  mem : ∀ x, x ∈ graphs.1.names (heapOf svcs) ↔ Resolved svcs pre post x
  ordered : Ordered (Requires svcs) (graphs.1.names (heapOf svcs)) ↔ InOrder svcs pre post

/-- The visit of a service that is not the last one of its name.

**Proof sketch.** The node of the service has no edges, so its visit is its own end. Its name is
added to the resolved ones unless it is there already, and this is in order just when its
dependencies come before it. -/
lemma Roots.early {pre post : List Service} {s : Service} {graphs : Graph × Graph}
    (h : Roots svcs pre (s :: post) graphs) (hsvcs : svcs = pre ++ s :: post)
    (hearly : s.name ∈ names post) :
    ∃ graphs', Ends (fun depth => resolve (heapOf svcs) depth (some pre.length) graphs)
      (.ok graphs') ∧ Roots svcs (pre ++ [s]) post graphs' := by
  obtain ⟨resolved, unresolved⟩ := graphs
  have hget := get?_early hsvcs hearly
  obtain ⟨graphs', hfinish, hopen, hnames⟩ := (h.isOpen.push hget).finish hget
  have hends : Ends (fun depth => resolve (heapOf svcs) depth (some pre.length)
      (resolved, unresolved)) (.ok graphs') := by
    refine ⟨1, ?_⟩
    dsimp only
    rw [resolve_succ hget]
    exact run_bind_eq_some.mpr (.inl ⟨_, rfl, by rw [hfinish]; rfl⟩)
  refine ⟨graphs', hends, ?_⟩
  by_cases hold : s.name ∈ resolved.names (heapOf svcs)
  · -- the name is resolved already, by its first service or by a name above it
    rw [if_pos hold] at hnames
    refine ⟨hopen, fun x => ?_, ?_⟩
    · rw [hnames, resolved_early hearly, h.mem]
      exact (or_iff_right_of_imp fun hx => hx ▸ (h.mem _).mp hold).symm
    · rw [hnames, h.ordered, inOrder_append_singleton]
      refine (and_iff_left fun hnew _ d hd => ?_).symm
      rcases (h.mem _).mp hold with hpre | ⟨a, ha, hpost, has⟩
      · exact absurd hpre hnew
      · exact .inr ⟨a, ha, hpost, has.tail hd⟩
  · rw [if_neg hold] at hnames
    refine ⟨hopen, fun x => ?_, ?_⟩
    · rw [hnames, resolved_early hearly, ← h.mem, List.mem_append, List.mem_singleton, or_comm]
    · rw [hnames, ordered_append_singleton_iff hold, inOrder_append_singleton]
      refine and_congr h.ordered ⟨fun hdeps _ _ d hd => (h.mem d).mp (hdeps d hd),
        fun hdeps d hd => (h.mem d).mpr (hdeps (fun hpre => ?_) hearly d hd)⟩
      exact hold ((h.mem _).mpr (.inl hpre))

/-- The visit of a service that is the last one of its name, which is grounded. -/
lemma Roots.last {pre post : List Service} {s : Service} {graphs : Graph × Graph}
    (h : Roots svcs pre (s :: post) graphs) (hsvcs : svcs = pre ++ s :: post)
    (hlast : s.name ∉ names post) (hg : Grounded svcs s.name) :
    ∃ graphs', Ends (fun depth => resolve (heapOf svcs) depth (some pre.length) graphs)
      (.ok graphs') ∧ Roots svcs (pre ++ [s]) post graphs' := by
  obtain ⟨graphs', hends, hopen, hgrows, hmem⟩ := ends_of_grounded hg h.isOpen nofun
  rw [ptr_of_last hsvcs hlast] at hends
  refine ⟨graphs', hends, hopen, fun x => ?_, ?_⟩
  · rw [hmem, h.mem, resolved_last hlast]
    simp
  · rw [hgrows.ordered_iff, h.ordered, inOrder_append_singleton]
    exact (and_iff_left fun _ hlater => absurd hlater hlast).symm

/-- **The loop over the first services ends** when those of them that are the last ones of their
name are grounded.

**Proof sketch.** Induct on the list from its end. The loop over one service more is the loop over
those before it and then the visit of that one (`Ends.foldlM_append`): an early one has no edges
(`Roots.early`), the last one of its name is grounded (`Roots.last`). -/
lemma ends_rootLoop {pre : List Service} : ∀ {post : List Service}, svcs = pre ++ post →
    (∀ a ∈ names pre, a ∉ names post → Grounded svcs a) →
      ∃ graphs, Ends (rootLoop svcs pre.length) (.ok graphs) ∧ Roots svcs pre post graphs := by
  induction pre using List.reverseRecOn with
  | nil =>
    intro post _ _
    refine ⟨({}, {}), ends_pure _, open_empty _, fun x => ?_, ?_⟩
    · simp [Graph.names, Resolved, names]
    · exact iff_of_true Ordered.nil (inOrder_nil svcs post)
  | append_singleton pre s ih =>
    intro post hsvcs hgrounded
    have hsvcs' : svcs = pre ++ s :: post := by rw [hsvcs]; simp
    obtain ⟨graphs, hends, hroots⟩ := ih hsvcs' fun a ha hlast => by
      rw [names_cons, List.mem_cons, not_or] at hlast
      exact hgrounded a (by rw [names_append]; exact List.mem_append_left _ ha) hlast.2
    obtain ⟨graphs', hvisit, hroots'⟩ :
        ∃ graphs', Ends (fun depth => resolve (heapOf svcs) depth (some pre.length) graphs)
          (.ok graphs') ∧ Roots svcs (pre ++ [s]) post graphs' := by
      by_cases hlast : s.name ∈ names post
      · exact hroots.early hsvcs' hlast
      · exact hroots.last hsvcs' hlast (hgrounded s.name (by simp [names]) hlast)
    refine ⟨graphs', ?_, hroots'⟩
    have hrange : (List.range (pre ++ [s]).length).map some =
        (List.range pre.length).map some ++ [some pre.length] := by
      simp [List.range_succ]
    have hlast : Ends (fun depth => [some pre.length].foldlM
        (fun graphs p => resolve (heapOf svcs) depth p graphs) graphs) (.ok graphs') := by
      obtain ⟨depth, hrun⟩ := hvisit
      refine ⟨depth, ?_⟩
      dsimp only
      rw [List.foldlM_cons]
      exact run_bind_eq_some.mpr (.inl ⟨graphs', hrun, rfl⟩)
    have hall := Ends.foldlM_append (fun graphs p => monotone_resolve (heapOf svcs) p graphs)
      hends hlast
    rw [← hrange] at hall
    exact hall

/-- `Resolve` is the loop over all nodes, and then the names of the resolved ones. -/
lemma buildDeploymentOrder_eq (depth : ℕ) : buildDeploymentOrder depth svcs =
    rootLoop svcs svcs.length depth >>= fun graphs =>
      graphs.1.nodes.mapM fun p => do return (← (heapOf svcs).deref p).name := by
  have hgraph : (buildServiceGraph svcs).2 = ⟨(List.range svcs.length).map some⟩ := by
    simp [buildServiceGraph, foldl_addNode]
  have hcall : buildDeploymentOrder depth svcs =
      (buildServiceGraph svcs).2.resolve (heapOf svcs) depth := rfl
  rw [hcall, hgraph]
  rfl

/-- The loop over the nodes only gains by more stack. -/
lemma monotone_rootLoop (k : ℕ) : Monotone (rootLoop svcs k) :=
  Monotone.foldlM (fun graphs p => monotone_resolve (heapOf svcs) p graphs) _ _

/-- The call only gains by more stack. -/
lemma monotone_buildDeploymentOrder : Monotone fun depth => buildDeploymentOrder depth svcs := by
  simp only [buildDeploymentOrder_eq]
  exact (monotone_rootLoop _).bind fun _ => monotone_const _

/-- When all names are grounded the call returns all of them, in order if they should be.

**Proof sketch.** The loop over the roots ends (`ends_rootLoop`), and the order is the list of the
names that it has resolved. What is below a grounded name is listed. -/
lemma ends_of_all_grounded (hall : ∀ a ∈ names svcs, Grounded svcs a) :
    ∃ order, Ends (fun depth => buildDeploymentOrder depth svcs) (.ok order) ∧
      (∀ a, a ∈ order ↔ a ∈ names svcs) ∧
        (Ordered (Requires svcs) order ↔ InOrder svcs svcs []) := by
  obtain ⟨graphs, hends, hroots⟩ := ends_rootLoop (svcs.append_nil.symm) fun a ha _ => hall a ha
  refine ⟨graphs.1.names (heapOf svcs), ?_, fun a => ?_, hroots.ordered⟩
  · obtain ⟨depth, hrun⟩ := hends
    refine ⟨depth, ?_⟩
    dsimp only
    rw [buildDeploymentOrder_eq]
    refine run_bind_eq_some.mpr (.inl ⟨graphs, hrun, ?_⟩)
    rw [mapM_name hroots.isOpen.resolved]
    rfl
  · rw [hroots.mem]
    refine or_iff_left_of_imp ?_
    rintro ⟨b, hb, -, hba⟩
    exact ((hall b hb).of_reflTransGen hba.to_reflTransGen).listed

/-- The first service that is the last one of its name where the name is not grounded. -/
structure FirstUngrounded (svcs pre post : List Service) (s : Service) : Prop where
  eq : svcs = pre ++ s :: post
  last : s.name ∉ names post
  ungrounded : ¬ Grounded svcs s.name
  grounded : ∀ a ∈ names pre, a ∉ names (s :: post) → Grounded svcs a

/-- Either all names whose last service has been visited are grounded, or one is the first that is
not.

**Proof sketch.** Induct on the visited services from their end. The last one is the first that is
not grounded, or it is grounded too or not the last service of its name. -/
lemma exists_firstUngrounded {pre : List Service} : ∀ {post : List Service}, svcs = pre ++ post →
    (∀ a ∈ names pre, a ∉ names post → Grounded svcs a) ∨
      ∃ pre' s post', FirstUngrounded svcs pre' post' s := by
  induction pre using List.reverseRecOn with
  | nil => exact fun _ => .inl fun _ h => absurd h List.not_mem_nil
  | append_singleton pre s ih =>
    intro post hsvcs
    have hsvcs' : svcs = pre ++ s :: post := by rw [hsvcs]; simp
    rcases ih hsvcs' with hgrounded | hfirst
    · by_cases hs : s.name ∉ names post ∧ ¬ Grounded svcs s.name
      · exact .inr ⟨pre, s, post, hsvcs', hs.1, hs.2, hgrounded⟩
      · refine .inl fun a ha hlast => ?_
        by_cases has : a = s.name
        · subst has
          exact not_not.mp fun hg => hs ⟨hlast, hg⟩
        · have ha' := (mem_names_append_singleton.mp ha).resolve_right has
          exact hgrounded a ha' (by simp [has, hlast])
    · exact .inr hfirst

/-- Up to the first service that is not grounded the names are visited, and the call fails as the
visit of this service does.

**Proof sketch.** The loop goes through the services before (`ends_rootLoop`), and then comes to the
node of this one, which is the last of its name; from there it fails as its visit does
(`Ends.foldlM_append`). -/
lemma FirstUngrounded.visit {pre post : List Service} {s : Service}
    (h : FirstUngrounded svcs pre post s) :
    ∃ graphs, Open (heapOf svcs) [] graphs ∧ Knows svcs (names pre) graphs ∧
      (∀ e, Ends (fun depth => resolve (heapOf svcs) depth (ptr svcs s.name) graphs) (.error e) →
        Ends (fun depth => buildDeploymentOrder depth svcs) (.error e)) ∧
      ∀ depth res, (buildDeploymentOrder depth svcs).run = some res →
        ∃ r, (resolve (heapOf svcs) depth (ptr svcs s.name) graphs).run = some r ∧
          ∀ e, r = .error e → res = .error e := by
  obtain ⟨graphs, hends, hroots⟩ := ends_rootLoop h.eq h.grounded
  have hloop : ∀ depth, buildDeploymentOrder depth svcs =
      (((List.range pre.length).map some ++ ptr svcs s.name ::
          (List.range post.length).map fun i => some (pre.length + (i + 1))).foldlM
        (fun graphs p => resolve (heapOf svcs) depth p graphs) ({}, {})) >>= fun graphs =>
          graphs.1.nodes.mapM fun p => do return (← (heapOf svcs).deref p).name := by
    intro depth
    have hrange : (List.range svcs.length).map some = (List.range pre.length).map some ++
        some pre.length :: (List.range post.length).map fun i => some (pre.length + (i + 1)) := by
      rw [h.eq, List.length_append, List.length_cons, List.range_add, List.range_succ_eq_map]
      simp [Function.comp_def]
    rw [buildDeploymentOrder_eq, rootLoop, hrange, ptr_of_last h.eq h.last]
  have hmono := fun graphs p => monotone_resolve (heapOf svcs) p graphs
  refine ⟨graphs, hroots.isOpen, fun x hx => ?_, fun e he => ?_, fun depth res hres => ?_⟩
  · rw [hroots.mem]
    refine or_iff_left_of_imp ?_
    rintro ⟨a, ha, hlast, hax⟩
    exact absurd ((h.grounded a ha hlast).of_reflTransGen hax.to_reflTransGen) hx
  · obtain ⟨depth, hrun⟩ := Ends.foldlM_append (k := ptr svcs s.name ::
      (List.range post.length).map fun i => some (pre.length + (i + 1))) hmono hends he.bind_error
    refine ⟨depth, ?_⟩
    dsimp only at hrun ⊢
    rw [hloop]
    exact run_bind_eq_some.mpr (.inr ⟨e, hrun, rfl⟩)
  · rw [hloop] at hres
    rcases run_bind_eq_some.mp hres with ⟨graphs', hrun, -⟩ | ⟨e, hrun, rfl⟩
    · have hrest := run_foldlM_append hmono hends hrun
      rw [List.foldlM_cons] at hrest
      rcases run_bind_eq_some.mp hrest with ⟨graphs₁, hvisit, -⟩ | ⟨e, -, herr⟩
      · exact ⟨_, hvisit, nofun⟩
      · cases herr
    · have hrest := run_foldlM_append hmono hends hrun
      rw [List.foldlM_cons] at hrest
      rcases run_bind_eq_some.mp hrest with ⟨graphs₁, hvisit, -⟩ | ⟨e', hvisit, herr⟩
      · exact ⟨_, hvisit, nofun⟩
      · cases herr
        refine ⟨_, hvisit, fun e' he' => ?_⟩
        cases he'
        rfl

/-- The first ungrounded service is one of the services. -/
lemma FirstUngrounded.listed {pre post : List Service} {s : Service}
    (h : FirstUngrounded svcs pre post s) : s.name ∈ names svcs := by
  rw [h.eq]
  simp [names]

/-- **A call returns only when all names are grounded.**

**Proof sketch.** Otherwise there is a first name that is not grounded. If a cycle lies below it,
the visit reports one (`reports_of_cycle`); if none does, it has no end (`visit_endless`). In
neither case does the call return. -/
lemma all_grounded_of_ok {depth : ℕ} {order : List Str}
    (h : (buildDeploymentOrder depth svcs).run = some (.ok order)) :
    ∀ a ∈ names svcs, Grounded svcs a := by
  rcases exists_firstUngrounded svcs.append_nil.symm with hall | ⟨pre, s, post, hfirst⟩
  · exact fun a ha => hall a ha List.not_mem_nil
  · exfalso
    obtain ⟨graphs, hopen, hknows, hends, hrun⟩ := hfirst.visit
    by_cases hcycle : ∃ c, c ∉ names pre ∧ Relation.ReflTransGen (Leads svcs) s.name c ∧
        Relation.TransGen (Leads svcs) c c
    · obtain ⟨c, hearly, hsc, hc⟩ := hcycle
      obtain ⟨c', -, hreport⟩ := reports_of_cycle hearly hc hsc (leadTo_nil _) hopen hknows
      exact nomatch (hends _ hreport).unique monotone_buildDeploymentOrder ⟨depth, h⟩
    · obtain ⟨r, hr, hend⟩ := hrun depth _ h
      have hnil := visit_endless (fun c hsc hc => not_not.mp fun hearly =>
        hcycle ⟨c, hearly, hsc, hc⟩) depth .refl hfirst.listed hfirst.ungrounded (leadTo_nil _)
        hopen hknows hr
      exact nomatch hend _ hnil

/-- **No order can be computed**: there is a cycle, or a service depends on a name that is not that
of a service. -/
def NoOrder (svcs : List Service) : Prop :=
  (∃ a, Relation.TransGen (Requires svcs) a a) ∨ ∃ a d, Requires svcs a d ∧ d ∉ names svcs

/-- A name that depends on something is that of a service. -/
lemma Requires.listed {a d : Str} (h : Requires svcs a d) : a ∈ names svcs := by
  obtain ⟨s, hs, rfl, -⟩ := h
  exact List.mem_map_of_mem hs

/-- Without an order not all names are grounded. -/
lemma NoOrder.not_all_grounded (h : NoOrder svcs) : ¬ ∀ a ∈ names svcs, Grounded svcs a := by
  intro hall
  rcases h with ⟨a, ha⟩ | ⟨a, d, had, hd⟩
  · have hlisted : a ∈ names svcs := by
      obtain ⟨b, hab, -⟩ := Relation.TransGen.head'_iff.mp ha
      exact hab.listed
    exact (hall a hlisted).not_transGen ha
  · exact hd ((hall a had.listed).of_requires had).listed

/-- **Without an order none is returned.** -/
theorem buildDeploymentOrder_ne_ok (h : NoOrder svcs) (depth : ℕ) (order : List Str) :
    (buildDeploymentOrder depth svcs).run ≠ some (.ok order) :=
  fun hok => h.not_all_grounded (all_grounded_of_ok hok)

/-! ### When the call settles -/

/-- **The call settles**: it returns all names, each after those that it depends on, or it stops
with a report of a name that is circular or unknown. -/
def Settles (svcs : List Service) : Prop :=
  ∃ res, Ends (fun depth => buildDeploymentOrder depth svcs) res ∧
    ((∃ order, res = .ok order ∧ Ordered (Requires svcs) order ∧
        ∀ a, a ∈ order ↔ a ∈ names svcs) ∨
      ∃ message d, res = .error (.panicf message) ∧ d <:+: message ∧
        (Relation.TransGen (Requires svcs) d d ∨ (∃ a, Requires svcs a d) ∧ d ∉ names svcs))

/-- The first service that is not grounded leads to a cycle, of which one name is not that of a
service before it. -/
def LeadsToReport (svcs : List Service) : Prop :=
  ∃ pre s post, FirstUngrounded svcs pre post s ∧ ∃ c, c ∉ names pre ∧
    Relation.ReflTransGen (Leads svcs) s.name c ∧ Relation.TransGen (Leads svcs) c c

/-- **When the call settles**, on any services: when all names are grounded and those that come
again are in order, or when the first service that is not grounded leads to a cycle that is
reported.

**Proof sketch.** Up to the first service that is not grounded every visit ends
(`ends_rootLoop`). A visit that is not grounded never returns: it follows where the name leads, and
stops where it comes to a nil pointer or to a name of the path that is not resolved
(`reports_of_cycle`); where all names of a cycle are resolved, by services that have no edges, it
goes round for ever (`visit_endless`). -/
theorem settles_iff (svcs : List Service) : Settles svcs ↔
    (∀ a ∈ names svcs, Grounded svcs a) ∧ InOrder svcs svcs [] ∨ LeadsToReport svcs := by
  constructor
  · rintro ⟨res, hres, hsettled⟩
    rcases exists_firstUngrounded svcs.append_nil.symm with hall | ⟨pre, s, post, hfirst⟩
    · have hall : ∀ a ∈ names svcs, Grounded svcs a := fun a ha => hall a ha List.not_mem_nil
      obtain ⟨order, hends, -, hordered⟩ := ends_of_all_grounded hall
      obtain rfl := hends.unique monotone_buildDeploymentOrder hres
      rcases hsettled with ⟨order', heq, hord, -⟩ | ⟨message, d, heq, -⟩
      · cases heq
        exact .inl ⟨hall, hordered.mp hord⟩
      · cases heq
    · refine .inr ⟨pre, s, post, hfirst, ?_⟩
      by_contra hno
      obtain ⟨graphs, hopen, hknows, -, hrun⟩ := hfirst.visit
      obtain ⟨depth, hrun'⟩ := hres
      obtain ⟨r, hr, hend⟩ := hrun depth res hrun'
      have hnil := visit_endless (fun c hnc hc => not_not.mp fun hearly =>
        hno ⟨c, hearly, hnc, hc⟩)
        depth .refl hfirst.listed hfirst.ungrounded (leadTo_nil _) hopen hknows hr
      obtain rfl := hend _ hnil
      rcases hsettled with ⟨order', heq, -⟩ | ⟨message, d, heq, -⟩ <;> cases heq
  · rintro (⟨hall, hinorder⟩ | ⟨pre, s, post, hfirst, c, hearly, hsc, hc⟩)
    · obtain ⟨order, hends, hmem, hordered⟩ := ends_of_all_grounded hall
      exact ⟨.ok order, hends, .inl ⟨order, rfl, hordered.mpr hinorder, hmem⟩⟩
    · obtain ⟨graphs, hopen, hknows, hends, -⟩ := hfirst.visit
      obtain ⟨c', hc', hreport⟩ := reports_of_cycle hearly hc hsc (leadTo_nil _) hopen hknows
      refine ⟨_, hends _ hreport, .inr ⟨_, c', rfl, ?_, .inl hc'⟩⟩
      exact ⟨"edge: ".toList, " may be a circular dependency".toList, rfl⟩

/-- The service A depends on X, which is not there. -/
def unknownDependency : List Service := [⟨['A'], [['X']]⟩]

/-- There are two services A, and the second one depends on A. -/
def circularAgain : List Service := [⟨['A'], []⟩, ⟨['A'], [['A']]⟩]

/-- Round the cycle, again and again. -/
lemma resolve_circularAgain (depth : ℕ) : ∀ unresolved : Graph,
    (resolve (heapOf circularAgain) depth (some 1) (⟨[some 0]⟩, unresolved)).run = none := by
  induction depth with
  | zero => exact fun _ => rfl
  | succ depth ih =>
    intro unresolved
    have hedge : ∀ unresolved, resolveEdge (heapOf circularAgain)
        (resolve (heapOf circularAgain) depth) (⟨[some 0]⟩, unresolved) (some 1) =
          resolve (heapOf circularAgain) depth (some 1) (⟨[some 0]⟩, unresolved) := fun _ => rfl
    rw [resolve_succ (n := ⟨['A'], [some 1]⟩) (by decide), List.foldlM_cons, hedge]
    exact run_bind_eq_none _ (run_bind_eq_none _ (ih _))

/-- With an unknown dependency the call dereferences a nil pointer, and it does not end where a
cycle is resolved early.

**Proof sketch.** The first list is evaluated. In the second one the first service of the name is
resolved without edges, so the cycle is never seen and the visit comes back to it on every stack
(`resolve_circularAgain`). -/
theorem not_settles_unknown_circular :
    (buildDeploymentOrder 1 unknownDependency).run = some (.error .nilPointer) ∧
      ¬ Settles unknownDependency ∧
        (∀ depth, (buildDeploymentOrder depth circularAgain).run = none) ∧
          ¬ Settles circularAgain := by
  have hnil : (buildDeploymentOrder 1 unknownDependency).run = some (.error .nilPointer) := by
    decide +kernel
  have hnone : ∀ depth, (buildDeploymentOrder depth circularAgain).run = none := by
    intro depth
    rw [buildDeploymentOrder_eq]
    refine run_bind_eq_none _ ?_
    cases depth with
    | zero => rfl
    | succ depth =>
      have hfirst : resolve (heapOf circularAgain) (depth + 1) (some 0) ({}, {}) =
          pure (⟨[some 0]⟩, ⟨[]⟩) := by
        rw [resolve_succ (n := ⟨['A'], []⟩) (by decide)]
        rfl
      have hloop : rootLoop circularAgain circularAgain.length (depth + 1) =
          resolve (heapOf circularAgain) (depth + 1) (some 0) ({}, {}) >>= fun graphs =>
            [some 1].foldlM (fun graphs p => resolve (heapOf circularAgain) (depth + 1) p graphs)
              graphs := rfl
      rw [hloop, hfirst, pure_bind, List.foldlM_cons]
      exact run_bind_eq_none _ (resolve_circularAgain (depth + 1) _)
  refine ⟨hnil, fun ⟨res, hres, hsettled⟩ => ?_, hnone, fun ⟨res, ⟨depth, hres⟩, _⟩ => ?_⟩
  · obtain rfl := hres.run_eq monotone_buildDeploymentOrder hnil
    rcases hsettled with ⟨_, heq, -⟩ | ⟨_, _, heq, -⟩ <;> cases heq
  · rw [hnone] at hres
    cases hres

end Fecore.Depgraph
