import Mathlib.Tactic.Common
import Fecore.Concurrency.Runs
import Fecore.Service.Leftovers
import Fecore.Supervisor.StartOrder

set_option relaxedAutoImplicit false
set_option autoImplicit false

/-!
# Going up and down again

`fecore up` starts the services (`Supervisor.Start`) and removes them at a signal
(`Supervisor.Remove`). Each call may stop at any step and leave what it has done by then; the next
call begins with that.

## Main definitions

* `Fecore.Supervisor.remove`, `Fecore.Supervisor.deleteCNINetwork` — the call that stops the
  services.
* `Fecore.Supervisor.Sound` — the records of the supervisor's namespace can be removed again.
* `Fecore.Supervisor.UpDown` — the calls of a history.

## Main results

* `Fecore.Supervisor.keeps_sound_remove`, `Fecore.Supervisor.keeps_sound_start` — all calls leave
  sound records.
* `Fecore.Supervisor.start_recovers` — after any history a call in which nothing fails outside
  starts all services, and one that stops them leaves nothing of them.

## Design

A call that is cut off leaves what a call leaves whose next step fails, since each step may fail.
The records are not sound after two kinds of failures, which the histories leave out: a lease that
is kept when the creation of a container fails, and a look-up of the task in `container.Delete` that
fails where `killTask` has left the task, so that the container is deleted over it.
-/

namespace Fecore.Supervisor

open EarlyReturns DependencyOrder

/-! ### Stopping the services -/

/-- What `DeleteCNINetwork` meets. -/
structure NetworkAnswers where
  /-- `client.LoadContainer`, besides for a missing record -/
  loadContainer : Option Str := none
  /-- the text of the error for a missing record -/
  notFound : Str := []
  /-- `container.Task`, besides for a missing task: the call returns nil -/
  task : Bool := false
  /-- `cni.Remove`, with the text of the error that is returned -/
  remove : Option Str := none

/-- What `Remove` meets, turn by turn. -/
structure DownAnswers where
  network : ℕ → NetworkAnswers := fun _ => {}
  remove : ℕ → RemoveErrors := fun _ => {}

/-- The text of the error when there is no container. -/
def unableToFind (name err : Str) : Str :=
  "Unable to find container: ".toList ++ name ++ ", error: ".toList ++ err ++ ": ".toList ++ err

/-- `DeleteCNINetwork`; it changes no records. -/
def deleteCNINetwork (a : NetworkAnswers) (name : Str) : Starting Unit := fun s =>
  if containerKey name ∈ s.containerd.containers ∧ a.loadContainer = none then
    if containerKey name ∈ s.containerd.tasks ∧ a.task = false then orError a.remove s
    else .ok () s
  else .error (.error (unableToFind name (a.loadContainer.getD a.notFound))) s

/-- A turn of the loop of `Remove`. -/
def stopService (a : DownAnswers) (turn : Service × ℕ) : Starting Unit := do
  deleteCNINetwork (a.network turn.2) turn.1.name
  serviceRemove (a.remove turn.2) turn.1.name

/-- `Supervisor.Remove`. -/
def remove (a : DownAnswers) (svcs : List Service) : Starting Unit :=
  svcs.zipIdx.forM (stopService a)

/-! ### Sound records -/

/-- **The records are sound**: a task or a snapshot of a container of the supervisor comes with the
container. -/
structure Sound (c : Containerd) : Prop where
  keyed : c.Keyed
  task : ∀ name, containerKey name ∈ c.tasks → containerKey name ∈ c.containers
  snapshot : ∀ name, snapshotKey (containerKey name) ∈ c.snapshots →
    containerKey name ∈ c.containers

/-- Different services have different snapshots. -/
lemma snapshotKey_containerKey_inj {name name' : Str}
    (h : snapshotKey (containerKey name) = snapshotKey (containerKey name')) : name = name' :=
  List.append_cancel_right (Prod.ext_iff.mp h).2

/-- Different services have different containers. -/
lemma containerKey_inj {name name' : Str} (h : containerKey name = containerKey name') :
    name = name' := (Prod.ext_iff.mp h).2

namespace Sound

variable {c : Containerd} {name : Str}

/-- Fewer snapshots. -/
lemma snapshots (h : Sound c) {snapshots : List Key} (hsub : snapshots.Sublist c.snapshots) :
    Sound { c with snapshots := snapshots } where
  keyed := ⟨h.keyed.containers, h.keyed.tasks, h.keyed.snapshots.sublist hsub⟩
  task := h.task
  snapshot name hname := h.snapshot name (hsub.subset hname)

/-- Ending a task. -/
lemma afterKill (h : Sound c) (errs : RemoveErrors) (key : Key) : Sound (errs.afterKill key c) := by
  unfold RemoveErrors.afterKill
  split
  · obtain ⟨-, heq⟩ | ⟨-, heq⟩ | ⟨-, heq⟩ := errs.killTask_cases key c <;> rw [heq]
    · exact h
    · exact ⟨⟨h.keyed.containers, h.keyed.tasks, h.keyed.snapshots⟩, h.task, h.snapshot⟩
    · exact ⟨⟨h.keyed.containers, h.keyed.tasks.filter _, h.keyed.snapshots⟩,
        fun name hname => h.task name (List.mem_filter.mp hname).1, h.snapshot⟩
  · exact h

/-- Deleting a container without a task, or failing at it.

**Proof sketch.** Case split on the error. Without one the container and its snapshot go, and it has
no task, since the look-up would have seen it; with one, at most the snapshot goes. -/
lemma deleteContainer (h : Sound c) (errs : RemoveErrors) (name : Str)
    (hsees : containerKey name ∈ c.tasks → errs.loadTask = none) :
    Sound (errs.deleteContainer (containerKey name) c).1 := by
  by_cases hnone : (errs.deleteContainer (containerKey name) c).2 = none
  · have htask : containerKey name ∉ c.tasks := fun hmem =>
      (RemoveErrors.deleteContainer_snd_eq_none_iff.mp hnone).1 ⟨hmem, hsees hmem⟩
    rw [RemoveErrors.deleteContainer_of_none hnone]
    refine ⟨⟨h.keyed.containers.erase _, h.keyed.tasks, h.keyed.snapshots.erase _⟩, ?_, ?_⟩
    · intro name' hname'
      have hne : containerKey name' ≠ containerKey name := fun heq => htask (heq ▸ hname')
      exact (List.mem_erase_of_ne hne).mpr (h.task name' hname')
    · intro name' hname'
      obtain ⟨hne, hmem⟩ := h.keyed.snapshots.mem_erase_iff.mp hname'
      refine (List.mem_erase_of_ne fun heq => hne ?_).mpr (h.snapshot name' hmem)
      rw [heq]
  · obtain ⟨snapshots, hsub, heq⟩ := RemoveErrors.deleteContainer_of_some hnone
    rw [heq]
    exact h.snapshots hsub

/-- **`Remove` leaves sound records** where it sees the task that it has left. -/
lemma remove (h : Sound c) {errs : RemoveErrors} (hsees : errs.SeesTask) (name : Str) :
    Sound (errs.remove (containerKey name) c).1 := by
  by_cases hloads : errs.Loads (containerKey name) c
  · cases htask : errs.task with
    | some err =>
      rw [RemoveErrors.remove_of_task hloads htask]
      exact h
    | none =>
      rw [(RemoveErrors.remove_of_loads hloads htask).1]
      exact (h.afterKill errs _).deleteContainer errs name hsees.loadTask
  · rw [RemoveErrors.remove_of_not_loads hloads]
    split
    · exact h.snapshots List.erase_sublist
    · exact h

/-- A `Remove` in which nothing fails removes the container. -/
lemma remove_ok (h : Sound c) (name : Str) :
    (RemoveErrors.remove {} (containerKey name) c).2 = none ∧
      containerKey name ∉ (RemoveErrors.remove {} (containerKey name) c).1.containers := by
  have hkilled : containerKey name ∉ (RemoveErrors.afterKill {} (containerKey name) c).tasks := by
    rw [RemoveErrors.afterKill_tasks, if_pos ⟨rfl, rfl⟩]
    simp
  rcases RemoveErrors.remove_containers {} (containerKey name) c with
    ⟨hloads, heq⟩ | ⟨hloads, heq, hok⟩
  · have hok : (RemoveErrors.remove {} (containerKey name) c).2 = none :=
      (RemoveErrors.remove_of_loads hloads rfl).2.mpr
        (RemoveErrors.deleteContainer_snd_eq_none_iff.mpr
          ⟨fun htask => hkilled htask.1, rfl, rfl, rfl⟩)
    rw [heq, if_pos hok]
    exact ⟨hok, h.keyed.containers.not_mem_erase⟩
  · rw [heq]
    exact ⟨hok, fun hmem => hloads ⟨hmem, rfl⟩⟩

/-- Where there is no container, nothing is left of it. -/
lemma clear (h : Sound c) (hname : containerKey name ∉ c.containers) :
    c.Clear (containerKey name) :=
  ⟨hname, fun htask => hname (h.task name htask),
    fun hsnapshot => hname (h.snapshot name hsnapshot)⟩

/-- A new container, with its snapshot. -/
lemma withContainer (h : Sound c) (hname : containerKey name ∉ c.containers) :
    Sound (c.withContainer (containerKey name)) where
  keyed := ⟨List.nodup_cons.mpr ⟨hname, h.keyed.containers⟩, h.keyed.tasks,
    List.nodup_cons.mpr ⟨(h.clear hname).snapshot, h.keyed.snapshots⟩⟩
  task name' hname' := List.mem_cons_of_mem _ (h.task name' hname')
  snapshot name' hname' := by
    rcases List.mem_cons.mp hname' with heq | hmem
    · exact List.mem_cons.mpr (.inl (by rw [snapshotKey_containerKey_inj heq]))
    · exact List.mem_cons_of_mem _ (h.snapshot name' hmem)

/-- A new task. -/
lemma withTask (h : Sound c) (hname : containerKey name ∈ c.containers)
    (hnew : containerKey name ∉ c.tasks) : Sound (c.withTask (containerKey name)) where
  keyed := ⟨h.keyed.containers, List.nodup_cons.mpr ⟨hnew, h.keyed.tasks⟩, h.keyed.snapshots⟩
  task name' hname' := by
    rcases List.mem_cons.mp hname' with heq | hmem
    · exact heq ▸ hname
    · exact h.task name' hmem
  snapshot := h.snapshot

/-- A new container with its task. -/
lemma attached (h : Sound c) (hname : containerKey name ∉ c.containers) :
    Sound ((c.withContainer (containerKey name)).withTask (containerKey name)) :=
  (h.withContainer hname).withTask List.mem_cons_self (h.clear hname).task

end Sound

/-! ### What every call keeps -/

/-- The records on the site are sound. -/
def Site.Sound (s : Site) : Prop := Supervisor.Sound s.containerd

/-- Whenever a creation fails, its lease is deleted, and the snapshot with it. -/
def StartAnswers.EndsLeases (a : StartAnswers) : Prop :=
  ∀ i options, ((a.service i).newContainer options).leaseKept = false

/-- What makes nothing in containerd keeps it sound. -/
lemma keeps_sound_of_containerd {α : Type} {x : Starting α}
    (h : ∀ s, (finalState (x s)).containerd = s.containerd) : Keeps Site.Sound x := by
  intro s hs
  unfold Site.Sound
  rw [h]
  exact hs

/-- The removal of a container. -/
lemma keeps_sound_serviceRemove {errs : RemoveErrors} (h : errs.SeesTask) (name : Str) :
    Keeps Site.Sound (serviceRemove errs name) := by
  intro s hs
  rw [serviceRemove, finalState_onContainerd]
  exact Sound.remove hs h name

/-- A call outside, whether it fails or returns, makes nothing and keeps all sound. -/
lemma keeps_sound_orError (answer : Option Str) : Keeps Site.Sound (orError answer) :=
  keeps_orError _ answer

/-- A turn that starts a container leaves sound records, wherever it stops.

**Proof sketch.** The creation leaves nothing when it fails, since the lease is deleted
(`newContainer_ends`), and the container with its snapshot otherwise; a task is of a container that
is there, and afterwards the records do not change. -/
lemma keeps_sound_startContainer {a : ServiceAnswers}
    (h : ∀ options, (a.newContainer options).leaseKept = false) (options : ContainerOptions)
    (name : Str) : Keeps Site.Sound (startContainer a options name) := by
  -- once the task is there, the records do not change
  have hrest : Keeps Site.Sound (attach a.task name >>= fun ip => addHost a ip name >>= fun _ =>
      orError a.task.wait >>= fun _ => orError a.task.start) := by
    refine Keeps.bind (keeps_sound_of_containerd fun s => ?_) fun ip =>
      Keeps.bind (keeps_sound_of_containerd fun s => ?_) fun _ =>
        (keeps_sound_orError _).bind fun _ => keeps_sound_orError _
    · rcases attach_cases a.task name s with ⟨stop, hstop⟩ | ⟨ip, hip⟩
      · rw [hstop]
        rfl
      · rw [hip]
        rfl
    · obtain ⟨hosts, hadd⟩ := addHost_ok a ip name s
      rw [hadd]
      rfl
  intro s hs
  unfold startContainer
  cases newContainer_ends (a.newContainer options) (containerKey name) s.containerd with
  | spared err _ hnew =>
    rw [bind_of_error (onContainerd_error hnew)]
    exact hs
  | leased err _ _ hlease hnew =>
    rw [h options] at hlease
    cases hlease
  | made _ hname _ _ hnew =>
  rw [bind_of_ok (onContainerd_ok hnew)]
  obtain ⟨err, -, htask⟩ | ⟨-, -, htask⟩ :=
    newTask_cases a.task (containerKey name) (s.containerd.withContainer (containerKey name))
  · rw [bind_of_error (onContainerd_error htask)]
    exact Sound.withContainer hs hname
  · rw [bind_of_ok (onContainerd_ok htask)]
    exact hrest _ (Sound.attached hs hname)

/-- **A call that starts the services leaves sound records**, wherever it stops. -/
theorem keeps_sound_start {a : StartAnswers} (h : a.EndsLeases) (hsees : ∀ i, (a.remove i).SeesTask)
    (depth : ℕ) (svcs : List Service) : Keeps Site.Sound (start a depth svcs) := by
  have hprepare : Keeps Site.Sound (prepare a svcs) := keeps_prepare (fun _ _ hs => hs) a svcs
  have hremoval : ∀ turn, Keeps Site.Sound (removeOld a turn) := fun turn =>
    keeps_sound_serviceRemove (hsees turn.2) turn.1.name
  have hturn : ∀ images turn, Keeps Site.Sound (startService a svcs images turn) := by
    intro images turn
    unfold startService
    split
    · exact keeps_throw _
    · exact keeps_sound_startContainer (h turn.2) _ _
  exact hprepare.bind fun images => (Keeps.forM hremoval _).bind fun _ =>
    (keeps_deploymentOrder _ depth svcs).bind fun order => Keeps.forM (hturn images) _

/-- **A call that stops the services leaves sound records**, wherever it stops. -/
theorem keeps_sound_remove {a : DownAnswers} (hsees : ∀ i, (a.remove i).SeesTask)
    (svcs : List Service) : Keeps Site.Sound (remove a svcs) := by
  refine Keeps.forM (fun turn => Keeps.bind (keeps_sound_of_containerd fun s => ?_) fun _ =>
    keeps_sound_serviceRemove (hsees _) _) _
  unfold deleteCNINetwork
  split
  · split
    · cases (a.network turn.2).remove <;> rfl
    · rfl
  · rfl

/-! ### Histories -/

/-- A call of a history, with the services of the compose file of that time. -/
inductive UpDown
  | up (a : StartAnswers) (depth : ℕ) (svcs : List Service)
  | down (a : DownAnswers) (svcs : List Service)

/-- What a call leaves. -/
def upDown (s : Site) : UpDown → Option Site
  | .up a depth svcs => some (finalState (start a depth svcs s))
  | .down a svcs => some (finalState (remove a svcs s))

/-- No creation of the call leaves its lease. -/
def UpDown.EndsLeases : UpDown → Prop
  | .up a _ _ => a.EndsLeases
  | .down _ _ => True

/-- What the removals of a call meet. -/
def UpDown.removals : UpDown → ℕ → RemoveErrors
  | .up a _ _ => a.remove
  | .down a _ => a.remove

/-- No removal of the call deletes a container over its task. -/
def UpDown.SeesTasks (c : UpDown) : Prop := ∀ i, (c.removals i).SeesTask

/-- **The records are sound after every history.** -/
theorem sound_of_history {s s' : Site} {calls : List UpDown} (hs : s.Sound)
    (hcalls : ∀ c ∈ calls, c.EndsLeases ∧ c.SeesTasks)
    (hrun : Runs.run upDown s calls = some s') : s'.Sound := by
  have halong : Runs.Along upDown (fun _ c => UpDown.EndsLeases c ∧ UpDown.SeesTasks c) s calls :=
    Runs.along_of_forall hcalls
  refine Runs.invariant_of_along (fun s c s' hs hc hstep => ?_) hs halong hrun
  cases c with
  | up a depth svcs =>
    cases hstep
    exact keeps_sound_start hc.1 hc.2 depth svcs s hs
  | down a svcs =>
    cases hstep
    exact keeps_sound_remove hc.2 svcs s hs

/-! ### Calls in which nothing fails -/

/-- **Nothing fails outside** in a call that starts services. -/
structure StartAnswers.AllGood (a : StartAnswers) (gw : Str) : Prop where
  gateway : a.cniGateway = .ok gw
  written : a.HostsWritten
  image : ∀ turn, ∃ img, a.image turn = .ok img
  remove : ∀ i, a.remove i = {}
  create : ∀ i options, ((a.service i).newContainer options).before = none ∧
    ((a.service i).newContainer options).after = none
  task : ∀ i, (a.service i).task.newTask = none ∧ (a.service i).task.setup = none ∧
    (a.service i).task.eth1 ≠ []
  runs : ∀ i, a.Runs i

/-- **Nothing fails outside** in a call that stops services. -/
structure DownAnswers.AllGood (a : DownAnswers) : Prop where
  load : ∀ i, (a.network i).loadContainer = none
  network : ∀ i, (a.network i).remove = none
  remove : ∀ i, a.remove i = {}

/-- A removal in which nothing fails. -/
lemma serviceRemove_ok {errs : RemoveErrors} (ha : errs = {}) {s : Site} (hs : s.Sound)
    (name : Str) : ∃ c, serviceRemove errs name s = .ok () { s with containerd := c } ∧
      Sound c ∧ c.Within s.containerd ∧ AgreeOff [containerKey name] s.containerd c ∧
        containerKey name ∉ c.containers := by
  subst ha
  obtain ⟨hok, hgone⟩ := Sound.remove_ok hs name
  exact ⟨_, onContainerd_ok (Prod.ext rfl hok), Sound.remove hs (.inl rfl) name,
    RemoveErrors.remove_within _ _ _, .remove (List.mem_singleton_self _) _ _, hgone⟩

/-- The old containers are removed.

**Proof sketch.** Each turn removes its container and brings none of the earlier ones back
(`serviceRemove_ok`). Induct on the turns. -/
lemma removeOld_all {a : StartAnswers} (ha : ∀ i, a.remove i = {}) (svcs : List Service)
    {s : Site} (hs : s.Sound) : ∃ s', svcs.zipIdx.forM (removeOld a) s = .ok () s' ∧ s'.Sound ∧
      ∀ svc ∈ svcs, containerKey svc.name ∉ s'.containerd.containers := by
  have hturn : ∀ (done : List (Service × ℕ)) turn rest (s : Site),
      svcs.zipIdx = done ++ turn :: rest →
        (s.Sound ∧ ∀ t ∈ done, containerKey t.1.name ∉ s.containerd.containers) →
          ∃ s', removeOld a turn s = .ok () s' ∧ s'.Sound ∧
            ∀ t ∈ done ++ [turn], containerKey t.1.name ∉ s'.containerd.containers := by
    rintro done turn rest s - ⟨hs, hdone⟩
    obtain ⟨c, hok, hc, hwithin, -, hgone⟩ := serviceRemove_ok (ha turn.2) hs turn.1.name
    refine ⟨_, hok, hc, fun t ht => ?_⟩
    rcases List.mem_append.mp ht with ht | ht
    · exact fun hmem => hdone t ht (hwithin.containers.subset hmem)
    · obtain rfl := List.mem_singleton.mp ht
      exact hgone
  obtain ⟨s', hok, hs', hgone⟩ := forM_ok hturn ⟨hs, nofun⟩
  refine ⟨s', hok, hs', fun svc hsvc => ?_⟩
  obtain ⟨i, hi⟩ := List.mem_iff_getElem?.mp hsvc
  exact hgone (svc, i) (List.mk_mem_zipIdx_iff_getElem?.mpr hi)

/-- A turn starts its container, where nothing is left of an old one.

**Proof sketch.** Nothing is left of the container (`Sound.clear`), so the creation and the task
succeed (`newContainer_ok`, `newTask_ok`), and the rest succeeds by hypothesis. -/
lemma startContainer_ok {a : StartAnswers} {gw : Str} (ha : a.AllGood gw) (i : ℕ)
    (options : ContainerOptions) {name : Str} {s : Site} (hs : s.Sound)
    (hname : containerKey name ∉ s.containerd.containers) :
    ∃ ip hosts,
      startContainer (a.service i) options name s = .ok () (s.attached name ip hosts) := by
  obtain ⟨hbefore, hafter⟩ := ha.create i options
  obtain ⟨htask, hsetup, heth⟩ := ha.task i
  obtain ⟨ip, ips, hips⟩ := List.exists_cons_of_ne_nil heth
  obtain ⟨hwait, hstart⟩ := ha.runs i
  obtain ⟨hosts, hadd⟩ := addHost_ok (a.service i) ip name (s.attached name ip s.hosts)
  refine ⟨ip, hosts, ?_⟩
  unfold startContainer
  have hclear := Sound.clear hs hname
  have hnew : containerKey name ∉ (s.containerd.withContainer (containerKey name)).tasks :=
    hclear.task
  have htask' := newTask_ok htask hnew
  rw [bind_of_ok (onContainerd_ok (newContainer_ok hbefore hafter hname hclear.snapshot)),
    bind_of_ok (onContainerd_ok htask'),
    bind_of_ok (attach_ok hsetup (by rw [hips]; rfl) _ _)]
  simp only [Site.attached] at hadd
  rw [bind_of_ok hadd, hwait, hstart]
  rfl

/-- What has not been done in a list without repetitions. -/
lemma notMem_done {α β : Type} {l : List α} {f : α → β} {done rest : List α} {a : α}
    (h : (l.map f).Nodup) (hl : l = done ++ a :: rest) : f a ∉ done.map f := by
  rw [hl, List.map_append, List.map_cons, List.nodup_append] at h
  exact fun hmem => h.2.2 (f a) hmem (f a) List.mem_cons_self rfl

/-- All services are started, where nothing is left of the old containers.

**Proof sketch.** Each turn finds its service in the list and its container gone, since the names
are different and a turn makes only its own container (`startContainer_ok`). -/
lemma startServices_all {a : StartAnswers} {gw : Str} (ha : a.AllGood gw) {svcs : List Service}
    (images : GoMap Str) {order : List Str} (hnodup : order.Nodup)
    (hlisted : ∀ name ∈ order, ∃ svc ∈ svcs, svc.name = name) {s : Site} (hs : s.Sound)
    (hgone : ∀ name ∈ order, containerKey name ∉ s.containerd.containers) :
    ∃ s', order.zipIdx.forM (startService a svcs images) s = .ok () s' ∧ s'.Sound := by
  have hturn : ∀ (done : List (Str × ℕ)) turn rest (s : Site),
      order.zipIdx = done ++ turn :: rest →
        (s.Sound ∧ ∀ name ∈ order, name ∉ done.map Prod.fst →
          containerKey name ∉ s.containerd.containers) →
          ∃ s', startService a svcs images turn s = .ok () s' ∧ s'.Sound ∧
            ∀ name ∈ order, name ∉ (done ++ [turn]).map Prod.fst →
              containerKey name ∉ s'.containerd.containers := by
    rintro done turn rest s hl ⟨hs, hleft⟩
    have hmem : turn.1 ∈ order :=
      List.fst_mem_of_mem_zipIdx (hl ▸ List.mem_append_right _ List.mem_cons_self)
    have hnew : containerKey turn.1 ∉ s.containerd.containers :=
      hleft turn.1 hmem (notMem_done (by rwa [List.zipIdx_map_fst]) hl)
    obtain ⟨svc, hsvc, hname⟩ := hlisted turn.1 hmem
    obtain ⟨svc', hfind⟩ : ∃ svc', svcs.find? (fun svc => svc.name = turn.1) = some svc' :=
      Option.isSome_iff_exists.mp (List.find?_isSome.mpr ⟨svc, hsvc, by simpa using hname⟩)
    have hname' : svc'.name = turn.1 := by simpa using List.find?_some hfind
    obtain ⟨ip, hosts, hok⟩ := startContainer_ok ha turn.2
      (containerOptions a.wd svc' (images.lookup turn.1)) hs hnew
    refine ⟨s.attached turn.1 ip hosts, ?_, Sound.attached hs hnew, fun name hname hdone => ?_⟩
    · unfold startService
      rw [hfind]
      dsimp only
      rw [hname', hok]
    · rw [List.map_append, List.mem_append, not_or] at hdone
      refine fun hmem' => (List.mem_cons.mp hmem').elim (fun heq => hdone.2 ?_)
        (hleft name hname hdone.1)
      rw [containerKey_inj heq]
      exact List.mem_singleton_self _
  obtain ⟨s', hok, hs', -⟩ := forM_ok hturn ⟨hs, fun name hname _ => hgone name hname⟩
  exact ⟨s', hok, hs'⟩

/-- **A call in which nothing fails starts all services**, from sound records.

**Proof sketch.** The images are there, and the removal leaves nothing of the old containers
(`removeOld_all`). Without cycles there is an order (`Depgraph.buildDeploymentOrder_total`), in
which each service is created and started (`startServices_all`). -/
theorem start_ok {a : StartAnswers} {gw : Str} (ha : a.AllGood gw) {svcs : List Service}
    (hnames : (svcs.map fun svc => svc.name).Nodup)
    (hdeps : ∀ svc ∈ svcs, ∀ d ∈ svc.dependsOn, ∃ svc' ∈ svcs, svc'.name = d)
    (hacyclic : Acyclic (Depgraph.Requires (svcs.map Service.toService))) {depth : ℕ}
    (hdepth : svcs.length ≤ depth) {s : Site} (hs : s.Sound) :
    ∃ s', start a depth svcs s = .ok () s' ∧ s'.Sound := by
  unfold start
  rcases prepare_cases a svcs s with ⟨hfails, -⟩ | ⟨-, gw', images, -, hprepare⟩
  · rcases hfails with ⟨err, herr⟩ | ⟨failure, hfailure⟩ | ⟨turn, -, err, herr⟩
    · rw [ha.gateway] at herr
      cases herr
    · rw [ha.written.1] at hfailure
      cases hfailure
    · obtain ⟨img, himg⟩ := ha.image turn
      rw [himg] at herr
      cases herr
  rw [bind_of_ok hprepare]
  obtain ⟨s₁, hremoval, hs₁, hgone⟩ :=
    removeOld_all ha.remove svcs (s := { s with hosts := some (firstHosts gw') }) hs
  rw [bind_of_ok hremoval]
  obtain ⟨res, hrun, hok, -⟩ := Depgraph.buildDeploymentOrder_total (svcs.map Service.toService)
    (by rwa [names_toService]) fun service hservice d hd => by
      obtain ⟨svc, hsvc, rfl⟩ := List.mem_map.mp hservice
      rw [names_toService]
      exact List.mem_map.mpr (hdeps svc hsvc d hd)
  obtain ⟨order, rfl, hperm, -⟩ := hok hacyclic
  rw [names_toService] at hperm
  have horder : deploymentOrder depth svcs s₁ = .ok order s₁ := by
    unfold deploymentOrder
    rw [hrun depth (by simpa using hdepth)]
  rw [bind_of_ok horder]
  have hlisted : ∀ name ∈ order, ∃ svc ∈ svcs, svc.name = name := fun name hname =>
    List.mem_map.mp (hperm.mem_iff.mp hname)
  obtain ⟨s', hstart, hs'⟩ := startServices_all ha images (hperm.nodup_iff.mpr hnames) hlisted hs₁
    fun name hname => by
      obtain ⟨svc, hsvc, rfl⟩ := hlisted name hname
      exact hgone svc hsvc
  exact ⟨s', hstart, hs'⟩

/-- **A call in which nothing fails stops all services**, and leaves nothing of them.

**Proof sketch.** Each turn finds its container, since the turns before it were for others, and
removes it with its task (`serviceRemove_ok`). From sound records nothing is left of a container
that has gone (`Sound.clear`). -/
theorem remove_ok {a : DownAnswers} (ha : a.AllGood) {svcs : List Service}
    (hnames : (svcs.map fun svc => svc.name).Nodup) {s : Site} (hs : s.Sound)
    (hthere : ∀ svc ∈ svcs, containerKey svc.name ∈ s.containerd.containers) :
    ∃ s', remove a svcs s = .ok () s' ∧ AgreeOff (containerKeys svcs) s.containerd s'.containerd ∧
      ∀ svc ∈ svcs, s'.containerd.Clear (containerKey svc.name) := by
  have hturn : ∀ (done : List (Service × ℕ)) turn rest (s₁ : Site),
      svcs.zipIdx = done ++ turn :: rest →
        (s₁.Sound ∧ AgreeOff (containerKeys (done.map Prod.fst)) s.containerd s₁.containerd ∧
          ∀ t ∈ done, containerKey t.1.name ∉ s₁.containerd.containers) →
          ∃ s₂, stopService a turn s₁ = .ok () s₂ ∧ s₂.Sound ∧
            AgreeOff (containerKeys ((done ++ [turn]).map Prod.fst)) s.containerd s₂.containerd ∧
            ∀ t ∈ done ++ [turn], containerKey t.1.name ∉ s₂.containerd.containers := by
    rintro done turn rest s₁ hl ⟨hs₁, hagree, hgone⟩
    have hmem : turn.1 ∈ svcs :=
      List.fst_mem_of_mem_zipIdx (hl ▸ List.mem_append_right _ List.mem_cons_self)
    have hnew : containerKey turn.1.name ∉ containerKeys (done.map Prod.fst) := by
      have hnodup : ((svcs.zipIdx).map fun t => containerKey t.1.name).Nodup := by
        have hmap : (svcs.zipIdx).map (fun t => containerKey t.1.name) =
            (svcs.map fun svc => svc.name).map containerKey := by
          rw [List.map_map, ← List.zipIdx_map_fst 0 svcs, List.map_map, List.zipIdx_map_fst]
          rfl
        rw [hmap]
        exact hnames.map fun _ _ => containerKey_inj
      have hnot := notMem_done hnodup hl
      unfold containerKeys
      rwa [List.map_map]
    have hhere : containerKey turn.1.name ∈ s₁.containerd.containers :=
      (hagree.containers _ hnew).mpr (hthere turn.1 hmem)
    have hnetwork : deleteCNINetwork (a.network turn.2) turn.1.name s₁ = .ok () s₁ := by
      unfold deleteCNINetwork
      rw [if_pos ⟨hhere, ha.load turn.2⟩, ha.network turn.2]
      split <;> rfl
    obtain ⟨c, hok, hc, hwithin, hoff, hgone'⟩ :=
      serviceRemove_ok (ha.remove turn.2) hs₁ turn.1.name
    refine ⟨{ s₁ with containerd := c }, ?_, hc, ?_, fun t ht => ?_⟩
    · unfold stopService
      rw [bind_of_ok hnetwork, hok]
    · exact (hagree.mono (by simp [containerKeys])).trans (hoff.mono (by simp [containerKeys]))
    · rcases List.mem_append.mp ht with ht | ht
      · exact fun hmem => hgone t ht (hwithin.containers.subset hmem)
      · obtain rfl := List.mem_singleton.mp ht
        exact hgone'
  obtain ⟨s', hok, hs', hagree, hgone⟩ := forM_ok hturn ⟨hs, .refl _ _, nofun⟩
  refine ⟨s', hok, by rwa [List.zipIdx_map_fst] at hagree, fun svc hsvc => Sound.clear hs' ?_⟩
  obtain ⟨i, hi⟩ := List.mem_iff_getElem?.mp hsvc
  exact hgone (svc, i) (List.mk_mem_zipIdx_iff_getElem?.mpr hi)

/-- **The supervisor recovers.** After any history of calls that start or stop services, of any
compose files and each ending at any of its steps, a call in which nothing fails outside starts all
its services in the order of their dependencies and writes their addresses to the hosts file; and a
call after it that stops them leaves nothing of them. Other containers are as before.

**Proof sketch.** All calls leave sound records (`sound_of_history`). From sound records the removal
at the beginning leaves nothing of the old containers (`removeOld_all`), so that no creation finds
one (`startServices_all`). -/
theorem start_recovers {s₀ s : Site} {calls : List UpDown} (hs₀ : s₀.Sound)
    (hcalls : ∀ c ∈ calls, c.EndsLeases ∧ c.SeesTasks) (hrun : Runs.run upDown s₀ calls = some s)
    {a : StartAnswers} {gw : Str} (ha : a.AllGood gw) {svcs : List Service}
    (hnames : (svcs.map fun svc => svc.name).Nodup)
    (hdeps : ∀ svc ∈ svcs, ∀ d ∈ svc.dependsOn, ∃ svc' ∈ svcs, svc'.name = d)
    (hacyclic : Acyclic (Depgraph.Requires (svcs.map Service.toService))) {depth : ℕ}
    (hdepth : svcs.length ≤ depth) :
    ∃ s' started, start a depth svcs s = .ok () s' ∧ StartedInOrder a svcs s s' started ∧
      (started.map Prod.fst).Perm (svcs.map fun svc => svc.name) ∧
      s'.hosts = some (hostsText gw started) ∧
      ∀ d : DownAnswers, d.AllGood → ∃ s'', remove d svcs s' = .ok () s'' ∧
        AgreeOff (containerKeys svcs) s.containerd s''.containerd ∧
        ∀ svc ∈ svcs, s''.containerd.Clear (containerKey svc.name) := by
  have hs := sound_of_history hs₀ hcalls hrun
  obtain ⟨s', hok, hs'⟩ := start_ok ha hnames hdeps hacyclic hdepth hs
  obtain ⟨started, hstarted, hall⟩ := start_inOrder a depth hnames s
  obtain ⟨started', haddr, hhosts⟩ := start_hosts ha.gateway ha.written depth svcs s
  rw [hok] at hstarted haddr hhosts
  obtain ⟨hperm, -⟩ := hall s' hok
  obtain rfl : started' = started :=
    List.append_cancel_left (haddr.symm.trans hstarted.addresses)
  refine ⟨s', started', hok, hstarted, hperm, hhosts, fun d hd => ?_⟩
  have hthere : ∀ svc ∈ svcs, containerKey svc.name ∈ s'.containerd.containers := by
    intro svc hsvc
    obtain ⟨r, hr, hname⟩ := List.mem_map.mp (hperm.mem_iff.mpr (List.mem_map_of_mem hsvc))
    rw [← hname]
    exact (hstarted.there r hr).1
  obtain ⟨s'', hremove, hagree, hclear⟩ := remove_ok hd hnames hs' hthere
  exact ⟨s'', hremove, hstarted.others.trans hagree, hclear⟩

/-- Two services of which the second one cannot be started, and which are then stopped. -/
def failedUp : List UpDown :=
  [.up { echoAndStoreAnswers with
      service := fun i =>
        { task := { eth1 := ["10.62.0.2".toList], start := if i = 1 then some [] else none } } }
      3 echoAndStore,
    .down { network := fun _ => { task := true } } echoAndStore]

/-- The site after that. -/
def afterFailedUp : Site := (Runs.run upDown {} failedUp).get rfl

/-- The two services have an order. -/
lemma echoAndStore_acyclic : Acyclic (Depgraph.Requires (echoAndStore.map Service.toService)) := by
  have hrun : (Depgraph.buildDeploymentOrder 3 (echoAndStore.map Service.toService)).run =
      some (.ok ["store".toList, "echo".toList]) := by decide +kernel
  refine (Depgraph.ordered_of_ok (by decide) hrun).1.acyclic fun b c hbc => ?_
  exact (Depgraph.ordered_of_ok (by decide) hrun).2.mem_iff.mpr hbc.listed

/-- Where nothing has been made all is sound. -/
lemma sound_empty : Site.Sound {} where
  keyed := ⟨.nil, .nil, .nil⟩
  task := by simp
  snapshot := by simp

/-- The two services can be started again.

**Proof sketch.** The hypotheses are checked for the two services, and the run before is
evaluated. -/
theorem start_recovers_echoAndStore :
    ∃ s' started, start echoAndStoreAnswers 3 echoAndStore afterFailedUp = .ok () s' ∧
      StartedInOrder echoAndStoreAnswers echoAndStore afterFailedUp s' started ∧
      (started.map Prod.fst).Perm (echoAndStore.map fun svc => svc.name) ∧
      s'.hosts = some (hostsText "10.62.0.1".toList started) ∧
      ∀ d : DownAnswers, d.AllGood → ∃ s'', remove d echoAndStore s' = .ok () s'' ∧
        AgreeOff (containerKeys echoAndStore) afterFailedUp.containerd s''.containerd ∧
        ∀ svc ∈ echoAndStore, s''.containerd.Clear (containerKey svc.name) :=
  start_recovers sound_empty
    (fun c hc => by
      rcases List.mem_pair.mp hc with rfl | rfl
      · exact ⟨fun _ _ => rfl, fun _ => .inl rfl⟩
      · exact ⟨trivial, fun _ => .inl rfl⟩)
    (Option.some_get rfl).symm
    { gateway := rfl
      written := ⟨rfl, fun _ => ⟨rfl, rfl⟩⟩
      image := fun _ => ⟨_, rfl⟩
      remove := fun _ => rfl
      create := fun _ _ => ⟨rfl, rfl⟩
      task := fun _ => ⟨rfl, rfl, List.cons_ne_nil _ _⟩
      runs := fun _ => ⟨rfl, rfl⟩ }
    (by decide) (by decide) echoAndStore_acyclic (by decide)

end Fecore.Supervisor
