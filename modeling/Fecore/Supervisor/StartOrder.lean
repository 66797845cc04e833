import Mathlib.Tactic.Common
import Fecore.Supervisor.HostsFile

set_option relaxedAutoImplicit false
set_option autoImplicit false

/-!
# The order in which the services come up

A call of `Supervisor.Start` may stop at any of its steps. Wherever it does, the services that have
got a container, a task and an address are those at the beginning of an order of the dependencies,
and the containers of others have not been touched.

## Main definitions

* `Fecore.Supervisor.AgreeOff` — two states of containerd agree on all other containers and tasks.
* `Fecore.Supervisor.StartedInOrder` — what a call has come to.

## Main results

* `Fecore.Supervisor.startContainer_cases` — what a turn of the last loop does.
* `Fecore.Supervisor.start_inOrder` — the services come up in the order of their dependencies.
-/

namespace Fecore

namespace Supervisor

open EarlyReturns DependencyOrder

/-! ### Other containers -/

/-- **The states agree off some keys**: they have the same containers and tasks with other keys, and
the same of these tasks have ended. -/
structure AgreeOff (keys : List Key) (c c' : Containerd) : Prop where
  containers : ∀ key ∉ keys, (key ∈ c'.containers ↔ key ∈ c.containers)
  tasks : ∀ key ∉ keys, (key ∈ c'.tasks ↔ key ∈ c.tasks)
  stopped : ∀ key ∉ keys, (key ∈ c'.stopped ↔ key ∈ c.stopped)

namespace AgreeOff

variable {keys : List Key} {c c' c'' : Containerd}

/-- A state agrees with itself. -/
lemma refl (keys : List Key) (c : Containerd) : AgreeOff keys c c :=
  ⟨fun _ _ => .rfl, fun _ _ => .rfl, fun _ _ => .rfl⟩

/-- States that agree with a third one agree. -/
lemma trans (h : AgreeOff keys c c') (h' : AgreeOff keys c' c'') : AgreeOff keys c c'' where
  containers key hkey := (h'.containers key hkey).trans (h.containers key hkey)
  tasks key hkey := (h'.tasks key hkey).trans (h.tasks key hkey)
  stopped key hkey := (h'.stopped key hkey).trans (h.stopped key hkey)

/-- Fewer states agree off fewer keys. -/
lemma mono {keys' : List Key} (h : AgreeOff keys c c') (hsub : keys ⊆ keys') :
    AgreeOff keys' c c' where
  containers key hkey := h.containers key fun hmem => hkey (hsub hmem)
  tasks key hkey := h.tasks key fun hmem => hkey (hsub hmem)
  stopped key hkey := h.stopped key fun hmem => hkey (hsub hmem)

/-- The snapshots do not count. -/
lemma snapshots (keys : List Key) (c : Containerd) (snapshots : List Key) :
    AgreeOff keys c { c with snapshots := snapshots } :=
  ⟨fun _ _ => .rfl, fun _ _ => .rfl, fun _ _ => .rfl⟩

/-- A removed container. -/
lemma remove {key : Key} (hkey : key ∈ keys) (errs : RemoveErrors) (c : Containerd) :
    AgreeOff keys c (errs.remove key c).1 :=
  have hmem (key' : Key) (hkey' : key' ∉ keys) :=
    errs.mem_remove_of_ne (ne_of_mem_of_not_mem hkey hkey').symm c
  ⟨fun key' hkey' => (hmem key' hkey').1, fun key' hkey' => (hmem key' hkey').2.1,
    fun key' hkey' => (hmem key' hkey').2.2⟩

/-- A new container. -/
lemma withContainer {key : Key} (hkey : key ∈ keys) (c : Containerd) :
    AgreeOff keys c (c.withContainer key) where
  containers _ hkey' := List.mem_cons.trans (or_iff_right (ne_of_mem_of_not_mem hkey hkey').symm)
  tasks _ _ := .rfl
  stopped _ _ := .rfl

/-- A new task. -/
lemma withTask {key : Key} (hkey : key ∈ keys) (c : Containerd) :
    AgreeOff keys c (c.withTask key) where
  containers _ _ := .rfl
  tasks _ hkey' := List.mem_cons.trans (or_iff_right (ne_of_mem_of_not_mem hkey hkey').symm)
  stopped key' hkey' := by
    have hne : key' ≠ key := (ne_of_mem_of_not_mem hkey hkey').symm
    simp [Containerd.withTask, hne]

end AgreeOff

/-! ### A turn of the last loop -/

/-- The site once a service has been attached. -/
def Site.attached (s : Site) (name ip : Str) (hosts : Option Str) : Site where
  containerd := (s.containerd.withContainer (containerKey name)).withTask (containerKey name)
  addresses := s.addresses ++ [(name, ip)]
  hosts := hosts

/-- The first address of `eth1` is given to the container. -/
lemma attach_ok {a : TaskAnswers} (h : a.setup = none) {ip : Str} (hip : a.eth1.head? = some ip)
    (name : Str) (s : Site) :
    attach a name s = .ok ip { s with addresses := s.addresses ++ [(name, ip)] } := by
  obtain ⟨ips, heth⟩ := List.head?_eq_some_iff.mp hip
  unfold attach orError
  rw [h, heth]
  rfl

/-- The entry in the hosts file changes nothing else, and does not stop the turn. -/
lemma addHost_ok (a : ServiceAnswers) (ip name : Str) (s : Site) :
    ∃ hosts, addHost a ip name s = .ok () { s with hosts := hosts } := by
  unfold addHost
  cases a.writeFile <;> exact ⟨_, rfl⟩

/-- **What a turn of the last loop does**: it stops before the service has an address, or it has
attached the service, and goes on when the task can be waited for and started.

**Proof sketch.** Follow the calls: the creation of the container (`newContainer_ends`) and of its
task (`newTask_cases`), the network, and then the wait and the start. Up to the network a failure
leaves the service without an address. -/
lemma startContainer_cases (a : ServiceAnswers) (options : ContainerOptions) (name : Str)
    (s : Site) :
    (∃ stop c, startContainer a options name s = .error stop { s with containerd := c } ∧
      AgreeOff [containerKey name] s.containerd c ∧ s.containerd.Within c) ∨
    ∃ ip hosts, a.task.eth1.head? = some ip ∧
      ((a.task.wait = none ∧ a.task.start = none ∧
          startContainer a options name s = .ok () (s.attached name ip hosts)) ∨
        ∃ stop, startContainer a options name s = .error stop (s.attached name ip hosts)) := by
  have hkey : containerKey name ∈ [containerKey name] := List.mem_singleton_self _
  have hmade := s.containerd.within_withContainer (containerKey name)
  have hoff := AgreeOff.withContainer hkey s.containerd
  unfold startContainer
  cases newContainer_ends (a.newContainer options) (containerKey name) s.containerd with
  | spared err _ hnew =>
    exact .inl ⟨_, _, bind_of_error (onContainerd_error hnew) _, .refl _ _, .refl _⟩
  | leased err _ _ _ hnew =>
    exact .inl ⟨_, _, bind_of_error (onContainerd_error hnew) _, .snapshots _ _ _,
      (s.containerd.within_snapshots _).1⟩
  | made _ _ _ _ hnew =>
  rw [bind_of_ok (onContainerd_ok hnew)]
  obtain ⟨err, -, htask⟩ | ⟨-, -, htask⟩ :=
    newTask_cases a.task (containerKey name) (s.containerd.withContainer (containerKey name))
  · exact .inl ⟨_, _, bind_of_error (onContainerd_error htask) _, hoff, hmade⟩
  rw [bind_of_ok (onContainerd_ok htask)]
  have hmade' := hmade.trans (Containerd.within_withTask _ (containerKey name))
  have hoff' := hoff.trans (.withTask hkey _)
  cases hsetup : a.task.setup with
  | some err =>
    have hstop : ∀ s, attach a.task name s = .error (.error err) s := fun s => by
      unfold attach orError
      rw [hsetup]
      rfl
    exact .inl ⟨_, _, bind_of_error (hstop _) _, hoff', hmade'⟩
  | none =>
    cases heth : a.task.eth1 with
    | nil =>
      have hstop : ∀ s, attach a.task name s = .error .noAddress s := fun s => by
        unfold attach orError
        rw [hsetup, heth]
        rfl
      exact .inl ⟨_, _, bind_of_error (hstop _) _, hoff', hmade'⟩
    | cons ip ips =>
      rw [bind_of_ok (attach_ok hsetup (by rw [heth]; rfl) _ _)]
      obtain ⟨hosts, hadd⟩ := addHost_ok a ip name (s.attached name ip s.hosts)
      refine .inr ⟨ip, hosts, rfl, ?_⟩
      simp only [Site.attached] at hadd
      rw [bind_of_ok hadd]
      cases hwait : a.task.wait with
      | some err => exact .inr ⟨.error err, rfl⟩
      | none =>
        cases hstart : a.task.start with
        | some err => exact .inr ⟨.error err, rfl⟩
        | none => exact .inl ⟨rfl, rfl, rfl⟩

/-! ### The last loop -/

/-- The keys of the containers of some services. -/
def containerKeys (svcs : List Service) : List Key := svcs.map fun svc => containerKey svc.name

/-- What some turns of the last loop have come to: their services are attached. -/
structure Started (a : StartAnswers) (svcs : List Service) (s s' : Site) (turns : List (Str × ℕ))
    (started : List (Str × Str)) : Prop where
  addresses : s'.addresses = s.addresses ++ started
  names : started.map Prod.fst = turns.map Prod.fst
  given : ∀ r ∈ started, ∃ i, (a.service i).task.eth1.head? = some r.2
  there : ∀ r ∈ started, containerKey r.1 ∈ s'.containerd.containers ∧
    containerKey r.1 ∈ s'.containerd.tasks
  others : AgreeOff (containerKeys svcs) s.containerd s'.containerd

/-- The task of a turn can be waited for and started. -/
def StartAnswers.Runs (a : StartAnswers) (i : ℕ) : Prop :=
  (a.service i).task.wait = none ∧ (a.service i).task.start = none

namespace Started

variable {a : StartAnswers} {svcs : List Service} {s s' : Site} {turns : List (Str × ℕ)}
  {started : List (Str × Str)}

/-- Before the first turn. -/
lemma nil (haddr : s'.addresses = s.addresses)
    (hothers : AgreeOff (containerKeys svcs) s.containerd s'.containerd) :
    Started a svcs s s' [] [] where
  addresses := by rw [haddr, List.append_nil]
  names := rfl
  given := nofun
  there := nofun
  others := hothers

/-- A turn that stops before its service has an address. -/
lemma stopped (h : Started a svcs s s' turns started) {c : Containerd} {key : Key}
    (hkey : key ∈ containerKeys svcs) (hc : AgreeOff [key] s'.containerd c)
    (hwithin : s'.containerd.Within c) :
    Started a svcs s { s' with containerd := c } turns started where
  addresses := h.addresses
  names := h.names
  given := h.given
  there r hr :=
    ⟨hwithin.containers.subset (h.there r hr).1, hwithin.tasks.subset (h.there r hr).2⟩
  others := h.others.trans (hc.mono (by simpa using hkey))

/-- A turn that has attached its service.

**Proof sketch.** The address of the service is the last one, and its container and task are there
now; those of the others are as before. -/
lemma snoc (h : Started a svcs s s' turns started) {turn : Str × ℕ} {ip : Str}
    (hkey : containerKey turn.1 ∈ containerKeys svcs)
    (hip : (a.service turn.2).task.eth1.head? = some ip) (hosts : Option Str) :
    Started a svcs s (s'.attached turn.1 ip hosts) (turns ++ [turn])
      (started ++ [(turn.1, ip)]) where
  addresses := by
    rw [← List.append_assoc, ← h.addresses]
    rfl
  names := by rw [List.map_append, List.map_append, h.names, List.map_singleton,
    List.map_singleton]
  given r hr := by
    rcases List.mem_append.mp hr with hr | hr
    · exact h.given r hr
    · obtain rfl := List.mem_singleton.mp hr
      exact ⟨turn.2, hip⟩
  there r hr := by
    rcases List.mem_append.mp hr with hr | hr
    · exact ⟨List.mem_cons_of_mem _ (h.there r hr).1, List.mem_cons_of_mem _ (h.there r hr).2⟩
    · obtain rfl := List.mem_singleton.mp hr
      exact ⟨List.mem_cons_self, List.mem_cons_self⟩
  others := h.others.trans ((AgreeOff.withContainer hkey _).trans (.withTask hkey _))

end Started

/-- **A turn of the last loop**, after those before it: it goes on with its service attached and its
task started, or it stops, with its service attached or not.

**Proof sketch.** The service is found in the list, and `startContainer_cases` gives what its
turn does; the list of the services that are started grows by it once it has an address
(`Started.snoc`). -/
lemma startService_cases {a : StartAnswers} {svcs : List Service} {s s' : Site}
    {turns : List (Str × ℕ)} {started : List (Str × Str)} (h : Started a svcs s s' turns started)
    (images : GoMap Str) (turn : Str × ℕ) :
    (∃ s₁ started', startService a svcs images turn s' = .ok () s₁ ∧ a.Runs turn.2 ∧
      Started a svcs s s₁ (turns ++ [turn]) started') ∨
    ∃ stop s₁ turns' started', startService a svcs images turn s' = .error stop s₁ ∧
      Started a svcs s s₁ turns' started' ∧ (turns' = turns ∨ turns' = turns ++ [turn]) := by
  unfold startService
  cases hfind : svcs.find? fun svc => svc.name = turn.1 with
  | none => exact .inr ⟨_, s', turns, started, rfl, h, .inl rfl⟩
  | some svc =>
    have hname : svc.name = turn.1 := by simpa using List.find?_some hfind
    have hkey : containerKey turn.1 ∈ containerKeys svcs :=
      List.mem_map.mpr ⟨svc, List.mem_of_find?_eq_some hfind, by rw [hname]⟩
    dsimp only
    rw [hname]
    rcases startContainer_cases (a.service turn.2)
        (containerOptions a.wd svc (images.lookup turn.1)) turn.1 s' with
      ⟨stop, c, hstop, hc, hwithin⟩ | ⟨ip, hosts, hip, ⟨hwait, hstart, hok⟩ | ⟨stop, hstop⟩⟩
    · exact .inr ⟨stop, _, turns, started, hstop, h.stopped hkey hc hwithin, .inl rfl⟩
    · exact .inl ⟨_, _, hok, ⟨hwait, hstart⟩, h.snoc hkey hip hosts⟩
    · exact .inr ⟨stop, _, _, _, hstop, h.snoc hkey hip hosts, .inr rfl⟩

/-- **The last loop**: at its end all services of the order are attached and started; where it
stops, these are the services of the turns before, and perhaps the one of the last turn.

**Proof sketch.** The loop keeps that the turns so far have started their services (`forM_rule`);
the turn that stops is once more `startService_cases`. -/
lemma startServices_cases {a : StartAnswers} {svcs : List Service} {s s' : Site}
    (h : Started a svcs s s' [] []) (images : GoMap Str) (turns : List (Str × ℕ)) :
    (∃ s₁ started, turns.forM (startService a svcs images) s' = .ok () s₁ ∧
      Started a svcs s s₁ turns started ∧ ∀ turn ∈ turns, a.Runs turn.2) ∨
    ∃ stop s₁ done turn rest done' started, turns = done ++ turn :: rest ∧
      turns.forM (startService a svcs images) s' = .error stop s₁ ∧
      Started a svcs s s₁ done' started ∧ (done' = done ∨ done' = done ++ [turn]) ∧
      ∀ turn ∈ done, a.Runs turn.2 := by
  have hloop := forM_rule (f := startService a svcs images)
    (I := fun done s₁ => (∃ started, Started a svcs s s₁ done started) ∧
      ∀ turn ∈ done, a.Runs turn.2)
    (fun done turn s₁ s₂ hdone hok => by
      obtain ⟨⟨started, hstarted⟩, hran⟩ := hdone
      rcases startService_cases hstarted images turn with
        ⟨s₃, started', hok', hturn, hstarted'⟩ | ⟨stop, s₃, _, _, hstop, -⟩
      · rw [hok] at hok'
        cases hok'
        refine ⟨⟨started', hstarted'⟩, fun t ht => ?_⟩
        rcases List.mem_append.mp ht with ht | ht
        · exact hran t ht
        · exact (List.mem_singleton.mp ht) ▸ hturn
      · rw [hok] at hstop
        cases hstop)
    turns [] ⟨⟨[], h⟩, nofun⟩
  rcases hloop with ⟨s₁, hok, ⟨started, hstarted⟩, hran⟩ |
    ⟨done, turn, rest, s₁, stop, s₂, heq, ⟨⟨started, hstarted⟩, hran⟩, herr, hstop⟩
  · exact .inl ⟨s₁, started, hok, hstarted, hran⟩
  · rcases startService_cases hstarted images turn with
      ⟨s₃, _, hok, -⟩ | ⟨stop', s₃, done', started', hstop', hstarted', hdone⟩
    · rw [herr] at hok
      cases hok
    · rw [herr] at hstop'
      cases hstop'
      exact .inr ⟨stop, s₂, done, turn, rest, done', started', heq, hstop, hstarted', hdone, hran⟩

/-! ### The call -/

/-- **The services have come up in order**: those that have got an address in the call are different
services of the list, each after all that it depends on; their containers and tasks are there, and
the task of each but the last one has been started. Other containers and tasks are as before. -/
structure StartedInOrder (a : StartAnswers) (svcs : List Service) (s s' : Site)
    (started : List (Str × Str)) : Prop where
  addresses : s'.addresses = s.addresses ++ started
  ordered : Ordered (Depgraph.Requires (svcs.map Service.toService)) (started.map Prod.fst)
  listed : ∀ r ∈ started, ∃ svc ∈ svcs, svc.name = r.1
  given : ∀ r ∈ started, ∃ i, (a.service i).task.eth1.head? = some r.2
  there : ∀ r ∈ started, containerKey r.1 ∈ s'.containerd.containers ∧
    containerKey r.1 ∈ s'.containerd.tasks
  runs : ∀ i, i + 1 < started.length → a.Runs i
  others : AgreeOff (containerKeys svcs) s.containerd s'.containerd

/-- The turns for the first services of an order.

**Proof sketch.** Field by field: the names of what has been started are the first ones of the
order. -/
lemma Started.inOrder {a : StartAnswers} {svcs : List Service} {s s' : Site}
    {started : List (Str × Str)} (first rest : List Str)
    (h : Started a svcs s s' first.zipIdx started)
    (hordered : Ordered (Depgraph.Requires (svcs.map Service.toService)) (first ++ rest))
    (hlisted : ∀ name ∈ first, ∃ svc ∈ svcs, svc.name = name)
    (hruns : ∀ i, i + 1 < first.length → a.Runs i) : StartedInOrder a svcs s s' started := by
  have hfirst : started.map Prod.fst = first := by rw [h.names, List.zipIdx_map_fst]
  have hlen : started.length = first.length := by rw [← hfirst, List.length_map]
  exact
    { addresses := h.addresses
      ordered := by
        rw [hfirst]
        exact hordered.of_append
      listed := fun r hr => hlisted _ (hfirst ▸ List.mem_map_of_mem hr)
      given := h.given
      there := h.there
      runs := fun i hi => hruns i (hlen ▸ hi)
      others := h.others }

/-- A call that ends before the last loop. -/
lemma Started.inOrder_nil {a : StartAnswers} {svcs : List Service} {s s' : Site}
    (h : Started a svcs s s' [] []) : StartedInOrder a svcs s s' [] :=
  Started.inOrder [] [] h (by simp) nofun nofun

/-- What the call does before the last loop changes no addresses, and spares other containers. -/
lemma keeps_prepare {P : Site → Prop} (hP : ∀ s hosts, P s → P { s with hosts := hosts })
    (a : StartAnswers) (svcs : List Service) : Keeps P (prepare a svcs) := by
  have hvalue : Keeps P (valueOrError a.cniGateway) := by
    cases a.cniGateway <;> exact fun _ hs => hs
  have hwrite : ∀ hosts, Keeps P (writeHosts a.writeFile hosts) := by
    intro hosts s hs
    cases a.writeFile <;> exact hP s _ hs
  have herror : ∀ answer, Keeps P (orError answer) := fun answer => by
    cases answer <;> exact fun _ hs => hs
  exact hvalue.bind fun gw => (hwrite _).bind fun _ => (herror _).bind fun _ =>
    Keeps.foldlM (keeps_prepareImage P a) _ _

/-- The removal of old containers starts nothing. -/
lemma keeps_removeOld_started {a : StartAnswers} {svcs : List Service} {s : Site}
    {turn : Service × ℕ} (h : turn ∈ svcs.zipIdx) :
    Keeps (fun s' => Started a svcs s s' [] []) (removeOld a turn) := by
  intro s' hs
  have hkey : containerKey turn.1.name ∈ containerKeys svcs :=
    List.mem_map.mpr ⟨turn.1, List.fst_mem_of_mem_zipIdx h, rfl⟩
  refine .nil ?_ ?_
  · rw [removeOld, serviceRemove, finalState_onContainerd, hs.addresses, List.append_nil]
  · rw [removeOld, serviceRemove, finalState_onContainerd]
    exact hs.others.trans (.remove hkey _ _)

end Supervisor

namespace Depgraph

open DependencyOrder

/-- An order that is returned is one of the dependencies, whatever the height of the stack and
whether or not all dependencies are services.

**Proof sketch.** An order is returned only when every dependency is a service. On a stack that is
high enough the result is the same one, and `buildDeploymentOrder_spec` describes it. -/
lemma ordered_of_ok {svcs : List Service} (hnames : (names svcs).Nodup) {depth : ℕ}
    {order : List Str} (h : (buildDeploymentOrder depth svcs).run = some (.ok order)) :
    Ordered (Requires svcs) order ∧ order.Perm (names svcs) := by
  have hdeps : ∀ a b, Requires svcs a b → b ∈ names svcs := by
    intro a b hab
    by_contra hb
    exact buildDeploymentOrder_ne_ok (.inr ⟨a, b, hab, hb⟩) depth order h
  have hhigh := Graph.resolve_extends (buildServiceGraph svcs).1 (buildServiceGraph svcs).2
    (Nat.le_max_left depth svcs.length) _ h
  rcases buildDeploymentOrder_spec hnames hdeps (Nat.le_max_right depth svcs.length) with
    ⟨order', heq, hordered, hperm⟩ | ⟨a, -, heq, -⟩
  · change (buildDeploymentOrder (max depth svcs.length) svcs).run = _ at hhigh
    rw [heq] at hhigh
    cases hhigh
    exact ⟨hordered, hperm⟩
  · change (buildDeploymentOrder (max depth svcs.length) svcs).run = _ at hhigh
    rw [heq] at hhigh
    cases hhigh

end Depgraph

namespace Supervisor

open EarlyReturns DependencyOrder

/-- The names of the services are those of the graph. -/
lemma names_toService (svcs : List Service) :
    Depgraph.names (svcs.map Service.toService) = svcs.map fun svc => svc.name := by
  simp [Depgraph.names]

/-- An order that the call goes on with. -/
lemma deploymentOrder_eq_ok {depth : ℕ} {svcs : List Service} {s s' : Site} {order : List Str}
    (h : deploymentOrder depth svcs s = .ok order s') :
    (Depgraph.buildDeploymentOrder depth (svcs.map Service.toService)).run = some (.ok order) := by
  unfold deploymentOrder at h
  split at h
  · cases h
  · cases h
  · next hrun =>
    cases h
    exact hrun

/-- The last loop, over an order of the services.

**Proof sketch.** `startServices_cases` gives the turns that have been taken. They are a beginning
of the order, so each service comes after all that it depends on, and those before the last one have
been started. -/
lemma startServices_inOrder {a : StartAnswers} {svcs : List Service} {s s' : Site}
    (h : Started a svcs s s' [] []) (images : GoMap Str) {order : List Str}
    (hordered : Ordered (Depgraph.Requires (svcs.map Service.toService)) order)
    (hperm : order.Perm (svcs.map fun svc => svc.name)) :
    ∃ started, StartedInOrder a svcs s
        (finalState (order.zipIdx.forM (startService a svcs images) s')) started ∧
      ∀ s₁, order.zipIdx.forM (startService a svcs images) s' = .ok () s₁ →
        started.map Prod.fst = order ∧ ∀ i < order.length, a.Runs i := by
  have hlisted : ∀ name ∈ order, ∃ svc ∈ svcs, svc.name = name := fun name hname =>
    List.mem_map.mp (hperm.mem_iff.mp hname)
  rcases startServices_cases h images order.zipIdx with
    ⟨s₁, started, hok, hstarted, hruns⟩ |
    ⟨stop, s₁, done, turn, rest, done', started, heq, hstop, hstarted, hdone, hruns⟩
  · have hall : ∀ i < order.length, a.Runs i := fun i hi =>
      hruns (order[i], i) (List.mk_mem_zipIdx_iff_getElem?.mpr (List.getElem?_eq_getElem hi))
    refine ⟨started, ?_, fun _ _ => ⟨by rw [hstarted.names, List.zipIdx_map_fst], hall⟩⟩
    rw [hok]
    exact hstarted.inOrder order [] (by rwa [List.append_nil]) hlisted
      fun i hi => hall i (Nat.lt_of_succ_lt hi)
  · refine ⟨started, ?_, fun s₂ hok => ?_⟩
    · rw [hstop]
      obtain ⟨first, last, rfl, rfl, hlast⟩ := List.zipIdx_eq_append_iff.mp heq
      obtain ⟨x, last, rfl⟩ : ∃ x last', last = x :: last' := by
        cases last with
        | nil => cases hlast
        | cons x last' => exact ⟨x, last', rfl⟩
      have hturn : turn = (x, 0 + first.length) := by
        rw [List.zipIdx_cons] at hlast
        exact (List.cons.inj hlast).1
      have hbefore : ∀ i < first.length, a.Runs i := fun i hi =>
        hruns (first[i], i) (List.mk_mem_zipIdx_iff_getElem?.mpr (List.getElem?_eq_getElem hi))
      rcases hdone with rfl | rfl
      · exact hstarted.inOrder first (x :: last) hordered
          (fun name hname => hlisted name (List.mem_append_left _ hname))
          fun i hi => hbefore i (Nat.lt_of_succ_lt hi)
      · have hnext : first.zipIdx ++ [turn] = (first ++ [x]).zipIdx := by
          rw [List.zipIdx_append, hturn]
          rfl
        rw [hnext] at hstarted
        refine hstarted.inOrder (first ++ [x]) last (by simpa using hordered)
          (fun name hname => hlisted name ?_) fun i hi => hbefore i (by simpa using hi)
        rcases List.mem_append.mp hname with hname | hname
        · exact List.mem_append_left _ hname
        · exact List.mem_append_right _ ((List.mem_singleton.mp hname) ▸ List.mem_cons_self)
    · rw [hstop] at hok
      cases hok

/-- **The services come up in the order of their dependencies.** Wherever a call ends, and whatever
was there before, the services that have got a container, a task and an address in it are different
ones, each after all that it depends on, and all but the last one have been started; a call that
returns nil has started all of them. The containers and tasks of others are as before.

**Proof sketch.** What the call does before its last loop concerns the containers of the services
only. The order is one of the dependencies (`Depgraph.ordered_of_ok`), a turn of the loop stops or
adds one service (`startService_cases`), and the beginning of an order is an order. -/
theorem start_inOrder (a : StartAnswers) (depth : ℕ) {svcs : List Service}
    (hnames : (svcs.map fun svc => svc.name).Nodup) (s : Site) :
    ∃ started, StartedInOrder a svcs s (finalState (start a depth svcs s)) started ∧
      ∀ s', start a depth svcs s = .ok () s' →
        (started.map Prod.fst).Perm (svcs.map fun svc => svc.name) ∧
          ∀ i < svcs.length, a.Runs i := by
  have hfirst : Started a svcs s s [] [] := .nil rfl (.refl _ _)
  have hprepare := keeps_prepare (P := fun s' => Started a svcs s s' [] [])
    (fun s' hosts hs => .nil (by simpa using hs.addresses) hs.others) a svcs s hfirst
  unfold start
  cases hprep : prepare a svcs s with
  | error stop s₁ =>
    rw [hprep] at hprepare
    rw [bind_of_error hprep]
    exact ⟨[], hprepare.inOrder_nil, nofun⟩
  | ok images s₁ =>
    rw [hprep] at hprepare
    rw [bind_of_ok hprep]
    have hremoval := Keeps.forM_of_mem (fun turn hturn => keeps_removeOld_started hturn) s₁ hprepare
    cases hloop : svcs.zipIdx.forM (removeOld a) s₁ with
    | error stop s₂ =>
      rw [hloop] at hremoval
      rw [bind_of_error hloop]
      exact ⟨[], hremoval.inOrder_nil, nofun⟩
    | ok u s₂ =>
      rw [hloop] at hremoval
      rw [bind_of_ok hloop]
      have hstay : ∀ r, deploymentOrder depth svcs s₂ = r → finalState r = s₂ := by
        rintro r rfl
        unfold deploymentOrder
        split <;> rfl
      cases horder : deploymentOrder depth svcs s₂ with
      | error stop s₃ =>
        obtain rfl := hstay _ horder
        rw [bind_of_error horder]
        exact ⟨[], hremoval.inOrder_nil, nofun⟩
      | ok order s₃ =>
        obtain rfl := hstay _ horder
        rw [bind_of_ok horder]
        obtain ⟨hordered, hperm⟩ := Depgraph.ordered_of_ok (names_toService svcs ▸ hnames)
          (deploymentOrder_eq_ok horder)
        rw [names_toService] at hperm
        obtain ⟨started, hstarted, hok⟩ :=
          startServices_inOrder hremoval images hordered hperm
        refine ⟨started, hstarted, fun s' hs' => ?_⟩
        obtain ⟨hnames', hruns⟩ := hok s' hs'
        have hlen : order.length = svcs.length := by rw [hperm.length_eq, List.length_map]
        exact ⟨hnames' ▸ hperm, hlen ▸ hruns⟩

/-- Two services, where one needs the other, come up in order. -/
theorem start_inOrder_echoAndStore :
    ∃ started, StartedInOrder echoAndStoreAnswers echoAndStore {}
        (finalState (start echoAndStoreAnswers 3 echoAndStore {})) started ∧
      ∀ s', start echoAndStoreAnswers 3 echoAndStore {} = .ok () s' →
        (started.map Prod.fst).Perm (echoAndStore.map fun svc => svc.name) ∧
          ∀ i < echoAndStore.length, echoAndStoreAnswers.Runs i :=
  start_inOrder echoAndStoreAnswers 3 (by decide) {}

end Supervisor

end Fecore
