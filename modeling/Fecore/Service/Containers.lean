import Mathlib.Tactic.Common
import Fecore.Handlers.Functions

set_option relaxedAutoImplicit false
set_option autoImplicit false

/-!
# Containers and their tasks

The records of containerd, and the calls of its client that make a container with a new snapshot
and a task for it. The provider makes the containers of native replicas with them, and the
supervisor those of its services.

## Main definitions

* `Fecore.Containerd` — the containers, tasks and snapshots that exist, and which tasks have ended.
* `Fecore.newContainer`, `Fecore.newTask` — the calls: the records after them, and their errors.
* `Fecore.NewContainerAnswers.Spared` — the failures of a creation that leave nothing.
* `Fecore.OCIMount` — a mount of a container.

## Main results

* `Fecore.newContainer_ends` — how the creation of a container ends.

## Design

`NewContainer` takes the snapshot under a lease and deletes the lease in a deferred statement, as
the client of containerd does; a snapshot without a lease and without a container is collected.
A task whose process has ended stays in the records until it is deleted, and is then among the
stopped ones too.
-/

namespace Fecore

/-- A namespace of containerd and a name in it. -/
abbrev Key := Str × Str

/-- Keys are equal when their namespaces and names are. -/
instance : LawfulBEq Key := inferInstance

/-- The records of containerd. -/
@[ext] structure Containerd where
  containers : List Key := []
  tasks : List Key := []
  /-- the tasks whose process has ended -/
  stopped : List Key := []
  snapshots : List Key := []

/-- The key of the snapshot that `createNativeReplica` and `Start` make for a container. -/
def snapshotKey (key : Key) : Key := (key.1, key.2 ++ "-snapshot".toList)

/-- What `client.NewContainer` meets: the error of the options up to `WithNewSnapshot`, the error of
what follows, and whether the deferred deletion of the lease fails. -/
structure NewContainerAnswers where
  before : Option Str := none
  after : Option Str := none
  leaseKept : Bool := false

/-- The text of `errdefs.ErrAlreadyExists`. -/
def errAlreadyExists : Str := "already exists".toList

/-- `client.NewContainer` with a new snapshot: the records after the call, and its error. -/
def newContainer (a : NewContainerAnswers) (key : Key) (c : Containerd) :
    Containerd × Option Str :=
  let leased := { c with snapshots := snapshotKey key :: c.snapshots }
  match (if snapshotKey key ∈ c.snapshots then some errAlreadyExists else a.before) with
  | some err => (c, some err)
  | none =>
    match (if key ∈ c.containers then some errAlreadyExists else a.after) with
    | some err => (if a.leaseKept then leased else c, some err)
    | none => ({ leased with containers := key :: c.containers }, none)

/-- What the creation and the start of a task meet: the errors of `NewTask`, `Setup`, `Wait` and
`Start`, the PID of the task, whether `Setup` attaches a network, and the addresses of `eth1`. -/
structure TaskAnswers where
  newTask : Option Str := none
  pid : ℕ := 0
  attached : Bool := true
  setup : Option Str := none
  eth1 : List Str := []
  wait : Option Str := none
  start : Option Str := none

/-- `container.NewTask`: the records after the call, and its error. -/
def newTask (a : TaskAnswers) (key : Key) (c : Containerd) : Containerd × Option Str :=
  match (if key ∈ c.tasks then some errAlreadyExists else a.newTask) with
  | some err => (c, some err)
  | none =>
    ({ c with tasks := key :: c.tasks, stopped := c.stopped.filter (· ≠ key) }, none)

/-- `specs.Mount`. -/
structure OCIMount where
  destination : Str
  type_ : Str
  source : Str
  options : List Str
deriving DecidableEq

/-- A bind mount that is read-only. -/
def roBind (destination source : Str) : OCIMount :=
  ⟨destination, "bind".toList, source, ["rbind".toList, "ro".toList]⟩

/-! ### How the calls end -/

/-- The records with a container more, and its snapshot. -/
def Containerd.withContainer (c : Containerd) (key : Key) : Containerd :=
  { c with containers := key :: c.containers, snapshots := snapshotKey key :: c.snapshots }

/-- The records with a task more, which has not ended. -/
def Containerd.withTask (c : Containerd) (key : Key) : Containerd :=
  { c with tasks := key :: c.tasks, stopped := c.stopped.filter (· ≠ key) }

/-- `NewContainer` fails and leaves nothing. -/
def NewContainerAnswers.Spared (a : NewContainerAnswers) (key : Key) (c : Containerd) : Prop :=
  snapshotKey key ∈ c.snapshots ∨ a.before.isSome ∨
    ((key ∈ c.containers ∨ a.after.isSome) ∧ a.leaseKept = false)

/-- How `client.NewContainer` ends: it fails and leaves nothing, or it fails and leaves the
snapshot under its lease, or the container is there, which was not there before. -/
inductive NewContainerEnds (a : NewContainerAnswers) (key : Key) (c : Containerd) : Prop
  | spared (err : Str) (hs : a.Spared key c) (h : newContainer a key c = (c, some err))
  | leased (err : Str) (hs : ¬ a.Spared key c) (hnew : snapshotKey key ∉ c.snapshots)
      (hlease : a.leaseKept = true)
      (h : newContainer a key c =
        ({ c with snapshots := snapshotKey key :: c.snapshots }, some err))
  | made (hs : ¬ a.Spared key c) (hnew : key ∉ c.containers)
      (hsnapshot : snapshotKey key ∉ c.snapshots)
      (hcalls : a.before = none ∧ a.after = none)
      (h : newContainer a key c = (c.withContainer key, none))

/-- **How the creation of a container ends.**

**Proof sketch.** Case split in the order of the calls: the snapshot that is there already, the
calls before, the container that is there already, and the calls after. After one of the last two
failures the lease may be left. -/
theorem newContainer_ends (a : NewContainerAnswers) (key : Key) (c : Containerd) :
    NewContainerEnds a key c := by
  by_cases hsnap : snapshotKey key ∈ c.snapshots
  · exact .spared errAlreadyExists (.inl hsnap) (by simp only [newContainer, if_pos hsnap])
  cases hbefore : a.before with
  | some err =>
    exact .spared err (.inr (.inl (by rw [hbefore]; rfl)))
      (by simp only [newContainer, if_neg hsnap, hbefore])
  | none =>
    have hs : a.Spared key c ↔
        (key ∈ c.containers ∨ a.after.isSome) ∧ a.leaseKept = false := by
      simp [NewContainerAnswers.Spared, hsnap, hbefore]
    cases hafter : (if key ∈ c.containers then some errAlreadyExists else a.after) with
    | some err =>
      have hfail : key ∈ c.containers ∨ a.after.isSome := by
        by_cases hkey : key ∈ c.containers
        · exact .inl hkey
        · rw [if_neg hkey] at hafter
          exact .inr (by rw [hafter]; rfl)
      cases hlease : a.leaseKept with
      | false =>
        refine .spared err (hs.mpr ⟨hfail, hlease⟩) ?_
        simp only [newContainer, if_neg hsnap, hbefore, hafter, hlease, Bool.false_eq_true,
          if_false]
      | true =>
        refine .leased err (fun h => ?_) hsnap hlease ?_
        · rw [(hs.mp h).2] at hlease
          cases hlease
        · simp only [newContainer, if_neg hsnap, hbefore, hafter, hlease, if_true]
    | none =>
      have hkey : key ∉ c.containers := by
        intro hkey
        rw [if_pos hkey] at hafter
        cases hafter
      have hafter' : a.after = none := by rwa [if_neg hkey] at hafter
      refine .made (fun h => ?_) hkey hsnap ⟨hbefore, hafter'⟩ ?_
      · have := (hs.mp h).1.resolve_left hkey
        rw [hafter'] at this
        cases this
      · simp only [newContainer, if_neg hsnap, hbefore, hafter]
        rfl

/-- A creation in which nothing fails. -/
lemma newContainer_ok {a : NewContainerAnswers} (hbefore : a.before = none)
    (hafter : a.after = none) {key : Key} {c : Containerd} (hkey : key ∉ c.containers)
    (hsnapshot : snapshotKey key ∉ c.snapshots) :
    newContainer a key c = (c.withContainer key, none) := by
  simp only [newContainer, if_neg hsnapshot, hbefore, if_neg hkey, hafter]
  rfl

/-- The creation of a task in which nothing fails. -/
lemma newTask_ok {a : TaskAnswers} (ha : a.newTask = none) {key : Key} {c : Containerd}
    (hkey : key ∉ c.tasks) : newTask a key c = (c.withTask key, none) := by
  simp only [newTask, if_neg hkey, ha]
  rfl

/-- A task is made, where there was none, or the call fails and changes nothing. -/
lemma newTask_cases (a : TaskAnswers) (key : Key) (c : Containerd) :
    (∃ err, (key ∈ c.tasks ∨ a.newTask ≠ none) ∧ newTask a key c = (c, some err)) ∨
    (key ∉ c.tasks ∧ a.newTask = none ∧ newTask a key c = (c.withTask key, none)) := by
  unfold newTask
  by_cases hkey : key ∈ c.tasks
  · rw [if_pos hkey]
    exact .inl ⟨_, .inl hkey, rfl⟩
  · rw [if_neg hkey]
    cases a.newTask with
    | some err => exact .inl ⟨err, .inr (by simp), rfl⟩
    | none => exact .inr ⟨hkey, rfl, rfl⟩

end Fecore
