import Mathlib.Tactic.Common
import Fecore.Concurrency.EarlyReturns
import Fecore.Data.Path
import Fecore.Depgraph.AnyOrder
import Fecore.Handlers.FailedCreations
import Fecore.Handlers.UpdateHandler

set_option relaxedAutoImplicit false
set_option autoImplicit false

/-!
# Starting the services

`Supervisor.Start` of `pkg/supervisor.go`: the hosts file is written, the images are prepared, the
old containers are removed, and then the services are started in the order of their dependencies.
Each call outside may fail, and a panic ends the program as an error does.

## Main definitions

* `Fecore.Supervisor.Site` — what the supervisor works on.
* `Fecore.Supervisor.start` — the call.
* `Fecore.Supervisor.FailsSparing` — the call fails, and all containers are still there.

## Main results

* `Fecore.Supervisor.start_failsSparing_iff` — when a call without an order spares the containers.

## Design

The directories that are made for mounts are left out: an error there is printed only. A container
has the options that it is created with in front of the answer of the client.
-/

namespace Fecore.Supervisor

open EarlyReturns

/-! ### Services and their containers -/

/-- `Mount` -/
structure Mount where
  src : Str
  dest : Str
deriving DecidableEq

/-- `Service`; `Start` does not look at the ports. -/
structure Service extends Depgraph.Service where
  image : Str := []
  env : List Str := []
  mounts : List Mount := []
  caps : List Str := []
  args : List Str := []
  user : Str := []
deriving DecidableEq

/-- What a container is created with. -/
structure ContainerOptions where
  image : Option Str
  newSnapshot : Str
  hostname : Str
  user : Option Str
  capabilities : List Str
  mounts : List OCIMount
  processArgs : Option (List Str)
  env : List Str
deriving DecidableEq

/-- The mount of a service in its container. -/
def Mount.bind (mnt : Mount) : OCIMount where
  source := mnt.src
  destination := mnt.dest
  type_ := "bind".toList
  options := ["rbind".toList, "rw".toList]

/-- The mount of a file of the working directory below `/etc`. -/
def etcMount (wd file : Str) : OCIMount :=
  roBind ("/etc/".toList ++ file) (Path.join [wd, file])

/-- `withUserOrDefault` -/
def withUserOrDefault (userstr : Str) : Option Str := if userstr = [] then none else some userstr

/-- `withOCIArgs` -/
def withOCIArgs (args : List Str) : Option (List Str) := if args = [] then none else some args

/-- The options of the container of a service. -/
def containerOptions (wd : Str) (svc : Service) (image : Option Str) : ContainerOptions where
  image := image
  newSnapshot := svc.name ++ "-snapshot".toList
  hostname := svc.name
  user := withUserOrDefault svc.user
  capabilities := svc.caps
  mounts := svc.mounts.map Mount.bind ++
    [etcMount wd "resolv.conf".toList, etcMount wd "hosts".toList]
  processArgs := withOCIArgs svc.args
  env := svc.env

/-- `FaasEdgeNamespace` -/
def faasEdgeNamespace : Str := "faasedge".toList

/-- The key of the container of a service. -/
def containerKey (name : Str) : Key := (faasEdgeNamespace, name)

/-! ### The site -/

/-- What the supervisor works on: containerd, the addresses that the networks have given to `eth1`
of the containers, and the file `hosts` of the working directory. -/
structure Site where
  containerd : Containerd := {}
  addresses : List (Str × Str) := []
  hosts : Option Str := none

/-- Why a call stops. -/
inductive Stop
  | error (err : Str)
  | panic (panic : Depgraph.Panic)
  /-- a panic, since `eth1` has no address -/
  | noAddress
  /-- `buildDeploymentOrder` has used up the stack -/
  | overflow
deriving DecidableEq

/-- A step of a call. -/
abbrev Starting := EStateM Stop Site

/-- A file that could not be written: the error, and what is left of the file. -/
structure WriteFailure where
  err : Str
  left : Option Str := none

/-- What a turn of the last loop meets. -/
structure ServiceAnswers where
  newContainer : ContainerOptions → NewContainerAnswers := fun _ => {}
  task : TaskAnswers := {}
  /-- the file `hosts` cannot be read, and this has been read of it -/
  readFile : Option Str := none
  writeFile : Option WriteFailure := none

/-- What a call of `Start` meets; what a loop meets depends on the turn. -/
structure StartAnswers where
  wd : Str := []
  cniGateway : Except Str Str
  writeFile : Option WriteFailure := none
  /-- `reference.ParseNormalizedNamed`, with the text of `reference.TagNameOnly` -/
  parseNormalizedNamed : Str → Except Str Str := .ok
  prepareImage : ℕ → Str → Except Str Str := fun _ => .ok
  remove : ℕ → RemoveErrors := fun _ => {}
  service : ℕ → ServiceAnswers := fun _ => {}

/-! ### The call -/

/-- An answer that is an error ends the call. -/
def orError (answer : Option Str) : Starting Unit :=
  match answer with
  | some err => throw (.error err)
  | none => pure ()

/-- An answer with a value ends the call when it is an error. -/
def valueOrError (answer : Except Str Str) : Starting Str :=
  match answer with
  | .error err => throw (.error err)
  | .ok val => pure val

/-- A call that changes the records of containerd; its error ends the call of `Start`. -/
def onContainerd (call : Containerd → Containerd × Option Str) : Starting Unit := fun s =>
  let r := call s.containerd
  match r.2 with
  | some err => .error (.error err) { s with containerd := r.1 }
  | none => .ok () { s with containerd := r.1 }

/-- `ioutil.WriteFile` for the file `hosts`, which returns the text of its error. -/
def writeHosts (failure : Option WriteFailure) (hosts : Str) : Starting (Option Str) :=
  match failure with
  | some failure => do
    modify fun s => { s with hosts := failure.left }
    pure (some failure.err)
  | none => do
    modify fun s => { s with hosts := some hosts }
    pure none

/-- The hosts file before a service has been started. -/
def firstHosts (gw : Str) : Str :=
  '\n' :: ("127.0.0.1".toList ++ '\t' :: ("localhost".toList ++ '\n' :: (gw ++ '\t' ::
    "fecore-provider".toList)))

/-- What the hosts file gets for a service. -/
def hostsEntry (ip name : Str) : Str := '\n' :: (ip ++ '\t' :: (name ++ ['\n']))

/-- The text of the error when the hosts file cannot be written. -/
def cannotWriteHosts (err : Str) : Str := "cannot write hosts file: ".toList ++ err

/-- A turn of the loop that prepares the images. -/
def prepareImage (a : StartAnswers) (images : GoMap Str) (turn : Service × ℕ) :
    Starting (GoMap Str) := do
  let imgRef ← valueOrError (a.parseNormalizedNamed turn.1.image)
  let img ← valueOrError (a.prepareImage turn.2 imgRef)
  pure (images.insert turn.1.name img)

/-- `Start` up to the images. -/
def prepare (a : StartAnswers) (svcs : List Service) : Starting (GoMap Str) := do
  let gw ← valueOrError a.cniGateway
  let writeHostsErr ← writeHosts a.writeFile (firstHosts gw)
  orError (writeHostsErr.map cannotWriteHosts)
  svcs.zipIdx.foldlM (prepareImage a) ∅

/-- `service.Remove`. -/
def serviceRemove (errs : RemoveErrors) (name : Str) : Starting Unit :=
  onContainerd (errs.remove (containerKey name))

/-- A turn of the loop that removes the old containers. -/
def removeOld (a : StartAnswers) (turn : Service × ℕ) : Starting Unit :=
  serviceRemove (a.remove turn.2) turn.1.name

/-- `buildDeploymentOrder`, on a stack for `depth` calls. -/
def deploymentOrder (depth : ℕ) (svcs : List Service) : Starting (List Str) := fun s =>
  match (Depgraph.buildDeploymentOrder depth (svcs.map Service.toService)).run with
  | none => .error .overflow s
  | some (.error panic) => .error (.panic panic) s
  | some (.ok order) => .ok order s

/-- `CreateCNINetwork`, and the address of `eth1`. -/
def attach (a : TaskAnswers) (name : Str) : Starting Str := do
  orError a.setup
  match a.eth1 with
  | [] => throw .noAddress
  | ip :: _ => do
    modify fun s => { s with addresses := s.addresses ++ [(name, ip)] }
    pure ip

/-- The entry of a service in the hosts file: the errors are logged. -/
def addHost (a : ServiceAnswers) (ip name : Str) : Starting Unit := do
  let hosts := a.readFile.getD ((← get).hosts.getD [])
  let _ ← writeHosts a.writeFile (hosts ++ hostsEntry ip name)

/-- A turn of the loop over the order, for the service with the name. -/
def startContainer (a : ServiceAnswers) (options : ContainerOptions) (name : Str) :
    Starting Unit := do
  onContainerd (newContainer (a.newContainer options) (containerKey name))
  onContainerd (newTask a.task (containerKey name))
  let ip ← attach a.task name
  addHost a ip name
  orError a.task.wait
  orError a.task.start

/-- A turn of the loop over the order: a name without a service is a nil pointer. -/
def startService (a : StartAnswers) (svcs : List Service) (images : GoMap Str)
    (turn : Str × ℕ) : Starting Unit :=
  match svcs.find? fun svc => svc.name = turn.1 with
  | none => throw (.panic .nilPointer)
  | some svc =>
    startContainer (a.service turn.2) (containerOptions a.wd svc (images.lookup svc.name)) svc.name

/-- `Supervisor.Start`. -/
def start (a : StartAnswers) (depth : ℕ) (svcs : List Service) : Starting Unit := do
  let images ← prepare a svcs
  svcs.zipIdx.forM (removeOld a)
  let order ← deploymentOrder depth svcs
  order.zipIdx.forM (startService a svcs images)

/-! ### The images -/

/-- The image that is prepared in a turn. -/
def StartAnswers.image (a : StartAnswers) (turn : Service × ℕ) : Except Str Str :=
  (a.parseNormalizedNamed turn.1.image).bind (a.prepareImage turn.2)

/-- The turn of a service asks for its image and puts it into the map. -/
lemma prepareImage_eq (a : StartAnswers) (images : GoMap Str) (turn : Service × ℕ) :
    prepareImage a images turn =
      valueOrError (a.image turn) >>= fun img => pure (images.insert turn.1.name img) := by
  unfold prepareImage StartAnswers.image
  cases a.parseNormalizedNamed turn.1.image <;> rfl

/-- An image that is there is put into the map. -/
lemma prepareImage_ok {a : StartAnswers} {turn : Service × ℕ} {img : Str}
    (h : a.image turn = .ok img) (images : GoMap Str) (s : Site) :
    prepareImage a images turn s = .ok (images.insert turn.1.name img) s := by
  rw [prepareImage_eq, h]
  rfl

/-- A failure ends the call. -/
lemma prepareImage_error {a : StartAnswers} {turn : Service × ℕ} {err : Str}
    (h : a.image turn = .error err) (images : GoMap Str) (s : Site) :
    prepareImage a images turn s = .error (.error err) s := by
  rw [prepareImage_eq, h]
  rfl

/-- The loop over the images changes nothing on the site. -/
lemma keeps_prepareImage (P : Site → Prop) (a : StartAnswers) (images : GoMap Str)
    (turn : Service × ℕ) : Keeps P (prepareImage a images turn) := by
  intro s hs
  cases h : a.image turn with
  | ok img =>
    rw [prepareImage_ok h]
    exact hs
  | error err =>
    rw [prepareImage_error h]
    exact hs

/-- The loop ends early when an image cannot be prepared.

**Proof sketch.** Induct on the turns; the first image that cannot be prepared ends the loop. -/
lemma prepareImages_cases (a : StartAnswers) (l : List (Service × ℕ)) (images : GoMap Str)
    (s : Site) :
    ((∃ turn ∈ l, ∃ err, a.image turn = .error err) ∧
      ∃ stop, l.foldlM (prepareImage a) images s = .error stop s) ∨
    ((∀ turn ∈ l, ∃ img, a.image turn = .ok img) ∧
      ∃ images', l.foldlM (prepareImage a) images s = .ok images' s) := by
  induction l generalizing images with
  | nil => exact .inr ⟨fun _ h => absurd h List.not_mem_nil, images, rfl⟩
  | cons turn l ih =>
    rw [List.foldlM_cons]
    cases h : a.image turn with
    | error err =>
      refine .inl ⟨⟨turn, List.mem_cons_self, err, h⟩, .error err, ?_⟩
      rw [bind_of_error (prepareImage_error h images s)]
    | ok img =>
      rw [bind_of_ok (prepareImage_ok h images s)]
      rcases ih (images.insert turn.1.name img) with ⟨⟨t, ht, herr⟩, hstop⟩ | ⟨hall, hok⟩
      · exact .inl ⟨⟨t, List.mem_cons_of_mem _ ht, herr⟩, hstop⟩
      · refine .inr ⟨fun t ht => ?_, hok⟩
        rcases List.mem_cons.mp ht with rfl | ht
        · exact ⟨img, h⟩
        · exact hall t ht

/-- What stops a call before it comes to a container. -/
def StartAnswers.FailsEarly (a : StartAnswers) (svcs : List Service) : Prop :=
  (∃ err, a.cniGateway = .error err) ∨ (∃ failure, a.writeFile = some failure) ∨
    ∃ turn ∈ svcs.zipIdx, ∃ err, a.image turn = .error err

/-- **The call up to the images** stops early, or it leaves the first hosts file.

**Proof sketch.** Case split on the gateway and on the file, and then on the images
(`prepareImages_cases`). -/
lemma prepare_cases (a : StartAnswers) (svcs : List Service) (s : Site) :
    (a.FailsEarly svcs ∧ ∃ stop s', prepare a svcs s = .error stop s' ∧
      s'.containerd = s.containerd) ∨
    (¬ a.FailsEarly svcs ∧ ∃ gw images, a.cniGateway = .ok gw ∧
      prepare a svcs s = .ok images { s with hosts := some (firstHosts gw) }) := by
  unfold prepare StartAnswers.FailsEarly
  cases hgw : a.cniGateway with
  | error err => exact .inl ⟨.inl ⟨err, rfl⟩, _, _, rfl, rfl⟩
  | ok gw =>
    cases hwrite : a.writeFile with
    | some failure => exact .inl ⟨.inr (.inl ⟨failure, rfl⟩), _, _, rfl, rfl⟩
    | none =>
      rcases prepareImages_cases a svcs.zipIdx ∅ { s with hosts := some (firstHosts gw) } with
        ⟨hfails, stop, hstop⟩ | ⟨hall, images, hok⟩
      · exact .inl ⟨.inr (.inr hfails), stop, _, hstop, rfl⟩
      · refine .inr ⟨?_, gw, images, rfl, hok⟩
        rintro (⟨err, herr⟩ | ⟨failure, hfailure⟩ | ⟨turn, hturn, err, herr⟩)
        · cases herr
        · cases hfailure
        · obtain ⟨img, himg⟩ := hall turn hturn
          rw [himg] at herr
          cases herr

/-! ### The removal of the old containers -/

/-- What a call that changes the records leaves, whether it stops or not. -/
lemma finalState_onContainerd (call : Containerd → Containerd × Option Str) (s : Site) :
    finalState (onContainerd call s) = { s with containerd := (call s.containerd).1 } := by
  unfold onContainerd
  dsimp only
  split <;> rfl

/-- A call that returns no error goes on. -/
lemma onContainerd_ok {call : Containerd → Containerd × Option Str} {s : Site} {c : Containerd}
    (h : call s.containerd = (c, none)) :
    onContainerd call s = .ok () { s with containerd := c } := by
  unfold onContainerd
  rw [h]

/-- A call that returns an error stops. -/
lemma onContainerd_error {call : Containerd → Containerd × Option Str} {s : Site} {c : Containerd}
    {err : Str} (h : call s.containerd = (c, some err)) :
    onContainerd call s = .error (.error err) { s with containerd := c } := by
  unfold onContainerd
  rw [h]

/-- The container of a turn is loaded by the removal. -/
def StartAnswers.loads (a : StartAnswers) (c : Containerd) (turn : Service × ℕ) : Bool :=
  decide ((a.remove turn.2).Loads (containerKey turn.1.name) c)

/-- No container is removed: the removal of the first one that is loaded stops before it has come to
anything. -/
def StartAnswers.RemovesNothing (a : StartAnswers) (l : List (Service × ℕ)) (c : Containerd) :
    Prop :=
  ∀ turn ∈ l.find? (a.loads c), (a.remove turn.2).Stops (containerKey turn.1.name) c

/-- Whether nothing is removed is decided service by service. -/
instance (a : StartAnswers) (l : List (Service × ℕ)) (c : Containerd) :
    Decidable (a.RemovesNothing l c) :=
  inferInstanceAs (Decidable (∀ _ ∈ _, _))

/-- The removal makes no containers and no tasks. -/
lemma keeps_removeOld (c : Containerd) (a : StartAnswers) (turn : Service × ℕ) :
    Keeps (fun s => s.containerd.Within c) (removeOld a turn) := by
  intro s hs
  rw [removeOld, serviceRemove, finalState_onContainerd]
  exact (RemoveErrors.remove_within _ _ _).trans hs

/-- A turn that does not load the container goes on to the next one. -/
lemma removeOld_of_not_loads {a : StartAnswers} {turn : Service × ℕ} {s : Site}
    (h : ¬ a.loads s.containerd turn = true) : ∃ snapshots,
      removeOld a turn s =
        .ok () { s with containerd := { s.containerd with snapshots := snapshots } } := by
  obtain ⟨snapshots, heq⟩ :=
    RemoveErrors.exists_remove_of_not_loads (fun hl => h (decide_eq_true hl))
  exact ⟨snapshots, onContainerd_ok heq⟩

/-- A turn that stops short ends the loop. -/
lemma removeOld_of_stops {a : StartAnswers} {turn : Service × ℕ} {s : Site}
    (h : (a.remove turn.2).Loads (containerKey turn.1.name) s.containerd)
    (hstops : (a.remove turn.2).Stops (containerKey turn.1.name) s.containerd) :
    ∃ stop s', removeOld a turn s = .error stop s' := by
  obtain ⟨err, herr⟩ :=
    Option.ne_none_iff_exists'.mp (RemoveErrors.remove_snd_of_stops h hstops)
  exact ⟨_, _, onContainerd_error (Prod.ext rfl herr)⟩

/-- **When all containers are still there after the removal.** The records only shrink, so what the
first turn that loads a container has removed does not come back.

**Proof sketch.** Induct on the turns. A turn that loads nothing leaves the containers alone. The
first one that loads something must not remove it (`RemoveErrors.within_remove_iff`), and if it does
not, it stops the loop. -/
lemma within_removeOld_iff (a : StartAnswers) (l : List (Service × ℕ)) (s : Site) :
    s.containerd.Within (finalState (l.forM (removeOld a) s)).containerd ↔
      a.RemovesNothing l s.containerd := by
  induction l generalizing s with
  | nil => exact iff_of_true (.refl _) nofun
  | cons turn l ih =>
    have hcons : (turn :: l).forM (removeOld a) =
        removeOld a turn >>= fun _ => l.forM (removeOld a) := rfl
    unfold StartAnswers.RemovesNothing
    by_cases hload : a.loads s.containerd turn = true
    · have hloads := of_decide_eq_true hload
      have hfirst : (finalState (removeOld a turn s)).containerd =
          ((a.remove turn.2).remove (containerKey turn.1.name) s.containerd).1 := by
        rw [removeOld, serviceRemove, finalState_onContainerd]
      simp only [List.find?_cons_of_pos hload, Option.mem_some_iff, forall_eq']
      rw [hcons, ← RemoveErrors.within_remove_iff hloads]
      cases hturn : removeOld a turn s with
      | error stop s' =>
        rw [hturn] at hfirst
        rw [bind_of_error hturn, hfirst]
      | ok u s' =>
        rw [hturn] at hfirst
        change s'.containerd = _ at hfirst
        rw [bind_of_ok hturn]
        have hkeeps := Keeps.forM (keeps_removeOld s'.containerd a) l s' (.refl _)
        constructor
        · intro hw
          have hw' := hw.trans hkeeps
          rwa [hfirst] at hw'
        · intro hw
          obtain ⟨stop, s'', herr⟩ :=
            removeOld_of_stops hloads ((RemoveErrors.within_remove_iff hloads).mp hw)
          rw [herr] at hturn
          cases hturn
    · obtain ⟨snapshots, hturn⟩ := removeOld_of_not_loads hload
      have hrest :=
        ih { s with containerd := { s.containerd with snapshots := snapshots } }
      obtain ⟨hin, hout⟩ := s.containerd.within_snapshots snapshots
      rw [hcons, bind_of_ok hturn, List.find?_cons_of_neg hload]
      exact ⟨fun hw => hrest.mp (hout.trans hw), fun hnothing => hin.trans (hrest.mpr hnothing)⟩

/-! ### A call without an order -/

/-- **The call fails and spares the containers**: it ends with an error or a panic, and all
containers and tasks are still there. -/
def FailsSparing (c : Containerd) (result : EStateM.Result Stop Site Unit) : Prop :=
  ∃ stop s', result = .error stop s' ∧ c.Within s'.containerd

/-- A call that has failed has spared the containers when all of them are still there. -/
lemma failsSparing_error_iff {c : Containerd} {stop : Stop} {s : Site} :
    FailsSparing c (.error stop s) ↔ c.Within s.containerd := by
  constructor
  · rintro ⟨stop', s', hend, hw⟩
    cases hend
    exact hw
  · exact fun hw => ⟨stop, s, rfl, hw⟩

/-- Without an order the call ends before it starts a service. -/
lemma deploymentOrder_error {svcs : List Service}
    (h : Depgraph.NoOrder (svcs.map Service.toService)) (depth : ℕ) (s : Site) :
    ∃ stop, deploymentOrder depth svcs s = .error stop s := by
  unfold deploymentOrder
  cases hrun : (Depgraph.buildDeploymentOrder depth (svcs.map Service.toService)).run with
  | none => exact ⟨_, rfl⟩
  | some result =>
    cases result with
    | error panic => exact ⟨_, rfl⟩
    | ok order => exact absurd hrun (Depgraph.buildDeploymentOrder_ne_ok h depth order)

/-- **When a call without an order spares the containers**: it has failed before the removal of the
old containers, or the removal of the first one comes to nothing.

**Proof sketch.** The order comes after the removal, and there is none
(`Depgraph.buildDeploymentOrder_ne_ok`), so the call ends with what the removal has left. -/
theorem start_failsSparing_iff {svcs : List Service}
    (h : Depgraph.NoOrder (svcs.map Service.toService)) (a : StartAnswers) (depth : ℕ) (s : Site) :
    FailsSparing s.containerd (start a depth svcs s) ↔
      a.FailsEarly svcs ∨ a.RemovesNothing svcs.zipIdx s.containerd := by
  unfold start
  rcases prepare_cases a svcs s with ⟨hearly, stop, s', hstop, hcontainerd⟩ |
    ⟨hearly, gw, images, -, hok⟩
  · rw [bind_of_error hstop, failsSparing_error_iff, hcontainerd]
    exact iff_of_true (.refl _) (.inl hearly)
  · rw [bind_of_ok hok, or_iff_right hearly]
    have hremoval := within_removeOld_iff a svcs.zipIdx { s with hosts := some (firstHosts gw) }
    cases hloop : svcs.zipIdx.forM (removeOld a) { s with hosts := some (firstHosts gw) } with
    | error stop s' =>
      rw [hloop] at hremoval
      rw [bind_of_error hloop, failsSparing_error_iff]
      exact hremoval
    | ok u s' =>
      obtain ⟨stop, hstop⟩ := deploymentOrder_error h depth s'
      rw [hloop] at hremoval
      rw [bind_of_ok hloop, bind_of_error hstop, failsSparing_error_iff]
      exact hremoval

/-- A service that depends on itself. -/
def selfDependent : Service := { name := ['A'], dependsOn := [['A']] }

/-- A service that depends on itself leaves no order. -/
lemma noOrder_selfDependent : Depgraph.NoOrder ([selfDependent].map Service.toService) :=
  .inl ⟨['A'], .single ⟨selfDependent.toService, List.mem_cons_self, rfl, List.mem_cons_self⟩⟩

/-- A site on which the container of the service runs. -/
def runningSite : Site where
  containerd := { containers := [containerKey ['A']], tasks := [containerKey ['A']] }

/-- A call where all goes well outside. -/
def goodAnswers : StartAnswers := { cniGateway := .ok "10.62.0.1".toList }

/-- The container of a service whose task cannot be looked up is spared. -/
theorem start_failsSparing_taskError :
    FailsSparing runningSite.containerd (start
      { goodAnswers with remove := fun _ => { task := some "unavailable".toList } } 2
      [selfDependent] runningSite) :=
  (start_failsSparing_iff noOrder_selfDependent _ 2 runningSite).mpr (.inr (by decide))

/-- **A call without an order does not spare the containers in general**: the container of a service
that depends on itself is removed before the cycle is found. -/
theorem not_start_failsSparing :
    ¬ ∀ (svcs : List Service), Depgraph.NoOrder (svcs.map Service.toService) →
      ∀ (a : StartAnswers) (depth : ℕ) (s : Site),
        FailsSparing s.containerd (start a depth svcs s) := by
  intro h
  obtain ⟨stop, s', hend, hw⟩ :=
    h [selfDependent] noOrder_selfDependent goodAnswers 2 runningSite
  have hremoved : [] =
      (finalState (start goodAnswers 2 [selfDependent] runningSite)).containerd.containers := by
    decide
  rw [hend] at hremoved
  change [] = s'.containerd.containers at hremoved
  have hcontainers := hw.containers
  rw [← hremoved] at hcontainers
  exact absurd hcontainers (by decide)

end Fecore.Supervisor
