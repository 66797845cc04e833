import Mathlib.Tactic.Common
import Fecore.Service.Containers

set_option relaxedAutoImplicit false
set_option autoImplicit false

/-!
# Removing a container

`Remove` and `killTask` of `pkg/service/service.go` over the records of containerd, with the error
of each call that they make.

## Main definitions

* `Fecore.RemoveErrors` — the errors of the calls made by `Remove`.
* `Fecore.RemoveErrors.remove` — the records after the call, and the error that it returned.
* `Fecore.Containerd.Within` — all containers and tasks of one state are there in another, and
  what runs still runs.

## Main results

* `Fecore.RemoveErrors.remove_containers` — `Remove` changes the containers only when it returns
  nil, and then only by the one it was asked to remove; it returns nil for a container it cannot
  load.
* `Fecore.RemoveErrors.within_remove_iff` — when a container that it loads, and its task, are still
  there as they were.
* `Fecore.RemoveErrors.remove_eq_iff` — when it fails before it has changed anything.

## Design

A task whose process has ended stays in the records until it is deleted; it is then among the
stopped ones too. A failing `task.Delete` leaves it there, and by then it has ended: `killTask` has
sent it SIGKILL and waited for it. Only when the signal cannot be sent and the wait brings nothing
but an error of its own may the task go on.
-/

namespace Fecore

/-- The errors of the calls that `Remove` makes; the one of `t.Status` is only logged. -/
structure RemoveErrors where
  /-- `client.LoadContainer`, besides for a missing record -/
  loadContainer : Option Str := none
  /-- `container.Task`, other than `NotFound` -/
  task : Option Str := none
  /-- `task.Wait`, whose vendored version reports its error through the channel only -/
  wait : Option Str := none
  /-- `task.Kill` -/
  kill : Option Str := none
  /-- the error in the exit status that comes out of the channel of `task.Wait` -/
  exitStatus : Option Str := none
  /-- `task.Delete` -/
  taskDelete : Option Str := none
  /-- the look-up of the task in `container.Delete`, besides for a missing task -/
  loadTask : Option Str := none
  /-- the look-up of the container's record in `container.Delete` -/
  get : Option Str := none
  /-- the removal of the snapshot in `containerd.WithSnapshotCleanup`, other than `NotFound` -/
  snapshot : Option Str := none
  /-- the removal of the container's record -/
  delete : Option Str := none
  /-- `Stat` of the snapshot service, besides for a missing snapshot -/
  stat : Option Str := none
  /-- `Remove` of the snapshot service -/
  removeSnapshot : Option Str := none
deriving DecidableEq

namespace RemoveErrors

/-- `killTask`: the records after the call, and the error that it returned. The goroutine assigns
to an `err` of its own, so the error that is returned is nil. -/
def killTask (errs : RemoveErrors) (key : Key) (c : Containerd) : Containerd × Option Str :=
  if errs.wait.isSome then (c, none) -- Error waiting on task
  -- an error of `task.Kill` is logged, the ones of the exit status and of `task.Delete` are not
  else if errs.taskDelete.isSome then
    if errs.kill.isSome ∧ errs.exitStatus.isSome then (c, none)
    else ({ c with stopped := c.stopped.insert key }, none)
  else ({ c with tasks := c.tasks.filter (· ≠ key), stopped := c.stopped.filter (· ≠ key) }, none)

/-- `container.Delete(ctx, containerd.WithSnapshotCleanup)`: the records after the call, and the
error that it returned. A task that cannot be looked up counts as none. -/
def deleteContainer (errs : RemoveErrors) (key : Key) (c : Containerd) :
    Containerd × Option Str :=
  if key ∈ c.tasks ∧ errs.loadTask = none then
    (c, some ("cannot delete running task ".toList ++ key.2 ++ ": failed precondition".toList))
  else match errs.get, errs.snapshot with
    | some err, _ => (c, some err)
    | none, some err => (c, some err)
    | none, none =>
      let c := { c with snapshots := c.snapshots.erase (snapshotKey key) }
      match errs.delete with
      | some err => (c, some err)
      | none => ({ c with containers := c.containers.erase key }, none)

/-- `Remove`: the records after the call, and the error that it returned. -/
def remove (errs : RemoveErrors) (key : Key) (c : Containerd) : Containerd × Option Str :=
  if key ∈ c.containers ∧ errs.loadContainer = none then
    match errs.task with
    | some err => (c, some ("unable to get task ".toList ++ err ++ ": ".toList))
    | none =>
      let killed := if key ∈ c.tasks then errs.killTask key c else (c, none)
      match killed.2 with
      | some err =>
        (killed.1, some ("error killing task ".toList ++ key.2 ++ ", ".toList ++ key.2 ++
          ", ".toList ++ err))
      | none =>
        let deleted := errs.deleteContainer key killed.1
        (deleted.1, deleted.2.map fun err =>
          "error deleting container ".toList ++ key.2 ++ ", ".toList ++ key.2 ++ ", ".toList ++
            err)
  else
    -- the key is spelled without the hyphen here
    let snapshot : Key := (key.1, key.2 ++ "snapshot".toList)
    if snapshot ∈ c.snapshots ∧ errs.stat = none ∧ errs.removeSnapshot = none then
      ({ c with snapshots := c.snapshots.erase snapshot }, none)
    else (c, none)

/-- The container is there and `Remove` loads it. -/
def Loads (errs : RemoveErrors) (key : Key) (c : Containerd) : Prop :=
  key ∈ c.containers ∧ errs.loadContainer = none

/-- Whether the task is loaded depends on the calls outside and on the task. -/
instance (errs : RemoveErrors) (key : Key) (c : Containerd) : Decidable (errs.Loads key c) :=
  inferInstanceAs (Decidable (_ ∧ _))

/-- `container.Delete` sees a task that `killTask` has left. -/
def SeesTask (errs : RemoveErrors) : Prop :=
  errs.loadTask = none ∨ (errs.wait = none ∧ errs.taskDelete = none)

/-- The records when `Remove` comes to the deletion of the container. -/
def afterKill (errs : RemoveErrors) (key : Key) (c : Containerd) : Containerd :=
  if key ∈ c.tasks then (errs.killTask key c).1 else c

/-! ### The steps of a removal -/

/-- `killTask` returns no error. -/
lemma killTask_snd (errs : RemoveErrors) (key : Key) (c : Containerd) :
    (errs.killTask key c).2 = none := by
  unfold killTask
  split
  · rfl
  · split
    · split <;> rfl
    · rfl

/-- **What `killTask` leaves**: the task as it was, or ended, or no task.

**Proof sketch.** Case split on the errors in the order in which they are read. The task has ended
unless the signal and the look at its status both fail. -/
lemma killTask_cases (errs : RemoveErrors) (key : Key) (c : Containerd) :
    ((errs.wait ≠ none ∨ errs.taskDelete ≠ none ∧ errs.kill ≠ none ∧ errs.exitStatus ≠ none) ∧
      (errs.killTask key c).1 = c) ∨
    ((errs.wait = none ∧ errs.taskDelete ≠ none ∧ ¬ (errs.kill ≠ none ∧ errs.exitStatus ≠ none)) ∧
      (errs.killTask key c).1 = { c with stopped := c.stopped.insert key }) ∨
    ((errs.wait = none ∧ errs.taskDelete = none) ∧ (errs.killTask key c).1 =
      { c with tasks := c.tasks.filter (· ≠ key), stopped := c.stopped.filter (· ≠ key) }) := by
  unfold killTask
  cases errs.wait with
  | some err => exact .inl ⟨.inl (by simp), rfl⟩
  | none =>
    cases errs.taskDelete with
    | none => exact .inr (.inr ⟨⟨rfl, rfl⟩, rfl⟩)
    | some err =>
      by_cases hkill : errs.kill.isSome ∧ errs.exitStatus.isSome
      · rw [Option.isSome_iff_ne_none, Option.isSome_iff_ne_none] at hkill
        refine .inl ⟨.inr ⟨by simp, hkill⟩, ?_⟩
        simp [Option.isSome_iff_ne_none, hkill]
      · have hkill' := hkill
        rw [Option.isSome_iff_ne_none, Option.isSome_iff_ne_none] at hkill'
        exact .inr (.inl ⟨⟨rfl, by simp, hkill'⟩, by simp [hkill]⟩)

/-- Before the deletion only the tasks change. -/
lemma afterKill_records (errs : RemoveErrors) (key : Key) (c : Containerd) :
    (errs.afterKill key c).containers = c.containers ∧
      (errs.afterKill key c).snapshots = c.snapshots := by
  unfold afterKill
  split
  · obtain ⟨-, h⟩ | ⟨-, h⟩ | ⟨-, h⟩ := errs.killTask_cases key c <;> rw [h] <;> exact ⟨rfl, rfl⟩
  · exact ⟨rfl, rfl⟩

/-- The tasks that are left when the container comes to be deleted. -/
lemma afterKill_tasks (errs : RemoveErrors) (key : Key) (c : Containerd) :
    (errs.afterKill key c).tasks =
      if errs.wait = none ∧ errs.taskDelete = none then c.tasks.filter (· ≠ key) else c.tasks := by
  unfold afterKill
  by_cases hkey : key ∈ c.tasks
  · rw [if_pos hkey]
    obtain ⟨h, heq⟩ | ⟨h, heq⟩ | ⟨h, heq⟩ := errs.killTask_cases key c
    · rw [heq, if_neg fun hnone => h.elim (absurd hnone.1) fun h => h.1 hnone.2]
    · rw [heq, if_neg fun hnone => h.2.1 hnone.2]
    · rw [heq, if_pos h]
  · have hfilter : c.tasks.filter (· ≠ key) = c.tasks :=
      List.filter_eq_self.mpr fun k hk => by simpa using ne_of_mem_of_not_mem hk hkey
    rw [if_neg hkey, hfilter, ite_self]

/-- The deletion of a container sees a task that is left. -/
lemma SeesTask.loadTask {errs : RemoveErrors} (h : errs.SeesTask) {key : Key} {c : Containerd}
    (hkey : key ∈ (errs.afterKill key c).tasks) : errs.loadTask = none := by
  refine h.resolve_right fun hkilled => ?_
  rw [afterKill_tasks, if_pos hkilled] at hkey
  simp at hkey

/-- Deleting a container leaves the tasks alone. -/
lemma deleteContainer_tasks (errs : RemoveErrors) (key : Key) (c : Containerd) :
    (errs.deleteContainer key c).1.tasks = c.tasks ∧
      (errs.deleteContainer key c).1.stopped = c.stopped := by
  unfold deleteContainer
  split
  · exact ⟨rfl, rfl⟩
  · split
    · exact ⟨rfl, rfl⟩
    · exact ⟨rfl, rfl⟩
    · dsimp only
      split <;> exact ⟨rfl, rfl⟩

/-- When the deletion of a container succeeds. -/
lemma deleteContainer_snd_eq_none_iff {errs : RemoveErrors} {key : Key} {c : Containerd} :
    (errs.deleteContainer key c).2 = none ↔ ¬ (key ∈ c.tasks ∧ errs.loadTask = none) ∧
      errs.get = none ∧ errs.snapshot = none ∧ errs.delete = none := by
  unfold deleteContainer
  split
  next h => simp [h]
  next h =>
    rw [and_iff_right h]
    cases errs.get with
    | some err => simp
    | none =>
      cases errs.snapshot with
      | some err => simp
      | none => cases errs.delete <;> simp

/-- What a deletion that succeeds leaves. -/
lemma deleteContainer_of_none {errs : RemoveErrors} {key : Key} {c : Containerd}
    (h : (errs.deleteContainer key c).2 = none) : (errs.deleteContainer key c).1 =
      { c with
        containers := c.containers.erase key
        snapshots := c.snapshots.erase (snapshotKey key) } := by
  obtain ⟨htask, hget, hsnapshot, hdelete⟩ := deleteContainer_snd_eq_none_iff.mp h
  rw [deleteContainer, if_neg htask, hget, hsnapshot, hdelete]

/-- What a deletion that fails leaves: all records but perhaps the snapshot.

**Proof sketch.** Split the cases. Only the last failure comes after the snapshot has been
removed. -/
lemma deleteContainer_of_some {errs : RemoveErrors} {key : Key} {c : Containerd}
    (h : (errs.deleteContainer key c).2 ≠ none) : ∃ snapshots,
      snapshots.Sublist c.snapshots ∧
        (errs.deleteContainer key c).1 = { c with snapshots := snapshots } := by
  unfold deleteContainer at h ⊢
  split
  · exact ⟨_, .refl _, rfl⟩
  next htask =>
    rw [if_neg htask] at h
    cases hget : errs.get with
    | some err => exact ⟨_, .refl _, rfl⟩
    | none =>
      cases hsnapshot : errs.snapshot with
      | some err => exact ⟨_, .refl _, rfl⟩
      | none =>
        cases hdelete : errs.delete with
        | some err => exact ⟨_, List.erase_sublist, rfl⟩
        | none => simp [hget, hsnapshot, hdelete] at h

/-- A call that has loaded the container and looked up its task deletes the container. -/
lemma remove_of_loads {errs : RemoveErrors} {key : Key} {c : Containerd} (h : errs.Loads key c)
    (htask : errs.task = none) :
    (errs.remove key c).1 = (errs.deleteContainer key (errs.afterKill key c)).1 ∧
      ((errs.remove key c).2 = none ↔
        (errs.deleteContainer key (errs.afterKill key c)).2 = none) := by
  unfold Loads at h
  rw [remove, if_pos h, htask, afterKill]
  by_cases hkey : key ∈ c.tasks
  · simp [hkey, killTask_snd]
  · simp [hkey]

/-- A call that does not look up the task fails. -/
lemma remove_of_task {errs : RemoveErrors} {key : Key} {c : Containerd} (h : errs.Loads key c)
    {err : Str} (htask : errs.task = some err) :
    errs.remove key c = (c, some ("unable to get task ".toList ++ err ++ ": ".toList)) := by
  unfold Loads at h
  rw [remove, if_pos h, htask]

/-- A call that does not load the container returns nil. -/
lemma remove_of_not_loads {errs : RemoveErrors} {key : Key} {c : Containerd}
    (h : ¬ errs.Loads key c) : errs.remove key c =
      (if errs.stat = none ∧ errs.removeSnapshot = none then
        { c with snapshots := c.snapshots.erase (key.1, key.2 ++ "snapshot".toList) }
      else c, none) := by
  unfold Loads at h
  rw [remove, if_neg h]
  by_cases hcalls : errs.stat = none ∧ errs.removeSnapshot = none
  · by_cases hmem : (key.1, key.2 ++ "snapshot".toList) ∈ c.snapshots
    · rw [if_pos ⟨hmem, hcalls⟩, if_pos hcalls]
    · rw [if_neg (fun hand => hmem hand.1), if_pos hcalls, List.erase_of_not_mem hmem]
  · rw [if_neg (fun hand => hcalls hand.2), if_neg hcalls]

/-- A call that does not load the container changes no more than the snapshots. -/
lemma exists_remove_of_not_loads {errs : RemoveErrors} {key : Key} {c : Containerd}
    (h : ¬ errs.Loads key c) :
    ∃ snapshots, errs.remove key c = ({ c with snapshots := snapshots }, none) := by
  rw [remove_of_not_loads h]
  split
  · exact ⟨_, rfl⟩
  · exact ⟨c.snapshots, rfl⟩

/-! ### Containers -/

/-- Deleting a container removes its record or fails. -/
lemma deleteContainer_containers (errs : RemoveErrors) (key : Key) (c : Containerd) :
    (errs.deleteContainer key c).1.containers =
      if (errs.deleteContainer key c).2 = none then c.containers.erase key else c.containers := by
  by_cases h : (errs.deleteContainer key c).2 = none
  · rw [if_pos h, deleteContainer_of_none h]
  · obtain ⟨snapshots, -, heq⟩ := deleteContainer_of_some h
    rw [if_neg h, heq]

/-- **What `Remove` does to the containers.** A container that it loads is removed when it
returns nil and stays when it returns an error; one that it does not load it leaves alone and
returns nil. -/
theorem remove_containers (errs : RemoveErrors) (key : Key) (c : Containerd) :
    (errs.Loads key c ∧ (errs.remove key c).1.containers =
      if (errs.remove key c).2 = none then c.containers.erase key else c.containers) ∨
    (¬ errs.Loads key c ∧ (errs.remove key c).1.containers = c.containers ∧
      (errs.remove key c).2 = none) := by
  by_cases h : errs.Loads key c
  · refine .inl ⟨h, ?_⟩
    cases htask : errs.task with
    | some err => simp [remove_of_task h htask]
    | none =>
      obtain ⟨hfst, hsnd⟩ := remove_of_loads h htask
      rw [hfst, deleteContainer_containers, (errs.afterKill_records key c).1]
      simp only [hsnd]
  · obtain ⟨snapshots, heq⟩ := exists_remove_of_not_loads h
    exact .inr ⟨h, by rw [heq], by rw [heq]⟩

end RemoveErrors

/-! ### What is still there -/

/-- **All containers and tasks are there** in another state as well, and the tasks that have not
ended have not ended there either. -/
structure Containerd.Within (c c' : Containerd) : Prop where
  containers : c.containers.Sublist c'.containers
  tasks : c.tasks.Sublist c'.tasks
  running : ∀ key ∈ c.tasks, key ∉ c.stopped → key ∉ c'.stopped

/-- Everything is where it is. -/
lemma Containerd.Within.refl (c : Containerd) : c.Within c := ⟨.refl _, .refl _, fun _ _ h => h⟩

/-- What is there in a state is there in what that state is within. -/
lemma Containerd.Within.trans {c c' c'' : Containerd} (h : c.Within c') (h' : c'.Within c'') :
    c.Within c'' :=
  ⟨h.containers.trans h'.containers, h.tasks.trans h'.tasks, fun key hkey hstopped =>
    h'.running key (h.tasks.subset hkey) (h.running key hkey hstopped)⟩

/-- The snapshots do not count. -/
lemma Containerd.within_snapshots (c : Containerd) (snapshots : List Key) :
    c.Within { c with snapshots := snapshots } ∧ Within { c with snapshots := snapshots } c :=
  ⟨⟨.refl _, .refl _, fun _ _ h => h⟩, ⟨.refl _, .refl _, fun _ _ h => h⟩⟩

/-- A new container. -/
lemma Containerd.within_withContainer (c : Containerd) (key : Key) :
    c.Within (c.withContainer key) :=
  ⟨List.sublist_cons_self _ _, .refl _, fun _ _ h => h⟩

/-- A new task. -/
lemma Containerd.within_withTask (c : Containerd) (key : Key) : c.Within (c.withTask key) :=
  ⟨.refl _, List.sublist_cons_self _ _, fun _ _ h hmem => h (List.mem_filter.mp hmem).1⟩

namespace RemoveErrors

/-- Ending a task makes no containers and no tasks, and brings none back. -/
lemma afterKill_within (errs : RemoveErrors) (key : Key) (c : Containerd) :
    (errs.afterKill key c).Within c := by
  unfold afterKill
  split
  · obtain ⟨-, h⟩ | ⟨-, h⟩ | ⟨-, h⟩ := errs.killTask_cases key c <;> rw [h]
    · exact .refl c
    · refine ⟨.refl _, .refl _, fun k _ hk hstopped => hk ?_⟩
      exact List.mem_insert_of_mem hstopped
    · refine ⟨.refl _, List.filter_sublist, fun k hk hleft hstopped => hleft ?_⟩
      exact List.mem_filter.mpr ⟨hstopped, (List.mem_filter.mp hk).2⟩
  · exact .refl c

/-- Deleting a container makes none. -/
lemma deleteContainer_within (errs : RemoveErrors) (key : Key) (c : Containerd) :
    (errs.deleteContainer key c).1.Within c := by
  obtain ⟨htasks, hstopped⟩ := errs.deleteContainer_tasks key c
  refine ⟨?_, htasks ▸ .refl _, fun k _ hk => by rwa [hstopped] at hk⟩
  rw [deleteContainer_containers]
  split
  · exact List.erase_sublist
  · exact .refl _

/-- **`Remove` makes no containers and no tasks**, and brings none back. -/
lemma remove_within (errs : RemoveErrors) (key : Key) (c : Containerd) :
    (errs.remove key c).1.Within c := by
  by_cases h : errs.Loads key c
  · cases htask : errs.task with
    | some err =>
      rw [remove_of_task h htask]
      exact .refl c
    | none =>
      rw [(remove_of_loads h htask).1]
      exact (errs.deleteContainer_within key _).trans (errs.afterKill_within key c)
  · obtain ⟨snapshots, heq⟩ := exists_remove_of_not_loads h
    rw [heq]
    exact (c.within_snapshots snapshots).2

/-- A call of `Remove` spares the containers and tasks with other keys.

**Proof sketch.** Each part of the call erases the key of its own container, or marks it
(`killTask_cases`), and leaves other keys where they are. -/
lemma mem_remove_of_ne (errs : RemoveErrors) {key key' : Key} (h : key' ≠ key) (c : Containerd) :
    (key' ∈ (errs.remove key c).1.containers ↔ key' ∈ c.containers) ∧
      (key' ∈ (errs.remove key c).1.tasks ↔ key' ∈ c.tasks) ∧
      (key' ∈ (errs.remove key c).1.stopped ↔ key' ∈ c.stopped) := by
  refine ⟨?_, ?_⟩
  · rcases errs.remove_containers key c with ⟨-, heq⟩ | ⟨-, heq, -⟩
    · rw [heq]
      split
      · exact List.mem_erase_of_ne h
      · rfl
    · rw [heq]
  by_cases hload : errs.Loads key c
  · cases htask : errs.task with
    | some err =>
      rw [remove_of_task hload htask]
      exact ⟨.rfl, .rfl⟩
    | none =>
      obtain ⟨htasks, hstopped⟩ := errs.deleteContainer_tasks key (errs.afterKill key c)
      rw [(remove_of_loads hload htask).1, htasks, hstopped, afterKill]
      split
      · obtain ⟨-, heq⟩ | ⟨-, heq⟩ | ⟨-, heq⟩ := errs.killTask_cases key c <;> rw [heq]
        · exact ⟨.rfl, .rfl⟩
        · exact ⟨.rfl, List.mem_insert_iff.trans (or_iff_right h)⟩
        · constructor <;> simp [h]
      · exact ⟨.rfl, .rfl⟩
  · obtain ⟨snapshots, heq⟩ := exists_remove_of_not_loads hload
    rw [heq]
    exact ⟨.rfl, .rfl⟩

/-- `killTask` leaves a task that there is as it was: the wait fails, or the task cannot be deleted
and had ended before, or neither SIGKILL nor the wait reaches it. -/
def KeepsTask (errs : RemoveErrors) (key : Key) (c : Containerd) : Prop :=
  key ∈ c.tasks → errs.wait ≠ none ∨
    (errs.taskDelete ≠ none ∧ (key ∈ c.stopped ∨ (errs.kill ≠ none ∧ errs.exitStatus ≠ none)))

/-- The deletion of a container whose task has been left as it was fails before it comes to the
container's record: `container.Delete` sees the task, or another call fails. -/
def DeletionStops (errs : RemoveErrors) (key : Key) (c : Containerd) : Prop :=
  (key ∈ c.tasks ∧ errs.loadTask = none) ∨ errs.get ≠ none ∨ errs.snapshot ≠ none ∨
    errs.delete ≠ none

/-- What keeps `Remove` from a container that it has loaded, and from its task: it cannot get the
task, or leaves it as it was and does not delete the container. -/
def Stops (errs : RemoveErrors) (key : Key) (c : Containerd) : Prop :=
  errs.task ≠ none ∨ (errs.KeepsTask key c ∧ errs.DeletionStops key c)

/-- Whether the task is left is decided by the same. -/
instance (errs : RemoveErrors) (key : Key) (c : Containerd) : Decidable (errs.KeepsTask key c) :=
  inferInstanceAs (Decidable (_ → _))

/-- Whether the deletion of the container stops depends on the calls outside and on the task. -/
instance (errs : RemoveErrors) (key : Key) (c : Containerd) :
    Decidable (errs.DeletionStops key c) :=
  inferInstanceAs (Decidable (_ ∨ _))

/-- Whether the removal stops is decided by its parts. -/
instance (errs : RemoveErrors) (key : Key) (c : Containerd) : Decidable (errs.Stops key c) :=
  inferInstanceAs (Decidable (_ ∨ _))

/-- What an element is erased from is no longer all there. -/
lemma not_sublist_erase {l : List Key} {key : Key} (h : key ∈ l) : ¬ l.Sublist (l.erase key) := by
  intro hsub
  have hlen := hsub.length_le
  rw [List.length_erase_of_mem h] at hlen
  have hpos := List.length_pos_of_mem h
  omega

/-- A task is left as it was exactly when it is still there and has not ended since.

**Proof sketch.** Case split on whether there is a task, and then on what `killTask` leaves
(`killTask_cases`). A task that has been ended before stays as it was. -/
lemma within_afterKill_iff {errs : RemoveErrors} {key : Key} {c : Containerd} :
    c.Within (errs.afterKill key c) ↔ errs.KeepsTask key c := by
  unfold afterKill KeepsTask
  by_cases hkey : key ∈ c.tasks
  · rw [if_pos hkey]
    obtain ⟨h, heq⟩ | ⟨h, heq⟩ | ⟨h, heq⟩ := errs.killTask_cases key c <;> rw [heq]
    · refine iff_of_true (.refl c) fun _ => ?_
      exact h.imp_right fun h => ⟨h.1, .inr h.2⟩
    · constructor
      · intro hw _
        refine .inr ⟨h.2.1, .inl (not_not.mp fun hstopped => ?_)⟩
        exact hw.running key hkey hstopped List.mem_insert_self
      · intro hkeeps
        have hstopped : key ∈ c.stopped :=
          ((hkeeps hkey).resolve_left (absurd h.1)).2.resolve_right h.2.2
        rw [List.insert_of_mem hstopped]
        exact .refl c
    · refine iff_of_false (fun hw => ?_) fun hkeeps => ?_
      · simpa using hw.tasks.subset hkey
      · exact (hkeeps hkey).elim (absurd h.1) fun hdelete => hdelete.1 h.2
  · rw [if_neg hkey]
    exact iff_of_true (.refl c) fun hmem => absurd hmem hkey

/-- Where a task is left as it was, nothing has changed. -/
lemma afterKill_of_keepsTask {errs : RemoveErrors} {key : Key} {c : Containerd}
    (h : errs.KeepsTask key c) : errs.afterKill key c = c := by
  unfold afterKill
  by_cases hkey : key ∈ c.tasks
  · rw [if_pos hkey]
    obtain ⟨-, heq⟩ | ⟨hcalls, heq⟩ | ⟨hcalls, -⟩ := errs.killTask_cases key c
    · exact heq
    · have hstopped : key ∈ c.stopped :=
        ((h hkey).resolve_left (absurd hcalls.1)).2.resolve_right hcalls.2.2
      rw [heq, List.insert_of_mem hstopped]
    · exact ((h hkey).elim (absurd hcalls.1) fun hdelete => hdelete.1 hcalls.2).elim
  · rw [if_neg hkey]

/-- When the deletion of a container fails. -/
lemma deletionStops_iff {errs : RemoveErrors} {key : Key} {c : Containerd} :
    (errs.deleteContainer key c).2 ≠ none ↔ errs.DeletionStops key c := by
  rw [Ne, deleteContainer_snd_eq_none_iff, DeletionStops]
  tauto

/-- **When a container that `Remove` loads and its task are still there as they were.**

**Proof sketch.** What is there after the call was there after `killTask`; the deletion then leaves
the container exactly when it fails. -/
theorem within_remove_iff {errs : RemoveErrors} {key : Key} {c : Containerd}
    (h : errs.Loads key c) : c.Within (errs.remove key c).1 ↔ errs.Stops key c := by
  unfold Stops
  cases htask : errs.task with
  | some err =>
    rw [remove_of_task h htask]
    exact iff_of_true (.refl c) (.inl (by simp))
  | none =>
    rw [(remove_of_loads h htask).1]
    constructor
    · intro hw
      have hkeeps := within_afterKill_iff.mp (hw.trans (errs.deleteContainer_within key _))
      rw [afterKill_of_keepsTask hkeeps] at hw
      refine .inr ⟨hkeeps, deletionStops_iff.mp fun hnone => ?_⟩
      rw [deleteContainer_of_none hnone] at hw
      exact not_sublist_erase h.1 hw.containers
    · rintro (hne | ⟨hkeeps, hstops⟩)
      · exact absurd rfl hne
      · rw [afterKill_of_keepsTask hkeeps]
        obtain ⟨snapshots, -, heq⟩ := deleteContainer_of_some (deletionStops_iff.mpr hstops)
        rw [heq]
        exact (c.within_snapshots snapshots).1

/-- A container that `Remove` loads and leaves as it was comes with an error. -/
lemma remove_snd_of_stops {errs : RemoveErrors} {key : Key} {c : Containerd}
    (h : errs.Loads key c) (hstops : errs.Stops key c) : (errs.remove key c).2 ≠ none := by
  intro hnone
  have hw := ((within_remove_iff h).mpr hstops).containers
  rcases errs.remove_containers key c with ⟨-, heq⟩ | ⟨hno, -⟩
  · rw [heq, if_pos hnone] at hw
    exact not_sublist_erase h.1 hw
  · exact hno h

/-- `Remove` fails before it has changed anything: it loads the container, and then cannot get its
task; or it leaves the task as it was, and the deletion fails before there is anything to undo. -/
def FailsFirst (errs : RemoveErrors) (key : Key) (c : Containerd) : Prop :=
  errs.Loads key c ∧ (errs.task ≠ none ∨ (errs.KeepsTask key c ∧
    ((key ∈ c.tasks ∧ errs.loadTask = none) ∨ errs.get ≠ none ∨ errs.snapshot ≠ none ∨
      (errs.delete ≠ none ∧ snapshotKey key ∉ c.snapshots))))

/-- Whether the removal fails before it has removed anything is decided by its parts. -/
instance (errs : RemoveErrors) (key : Key) (c : Containerd) : Decidable (errs.FailsFirst key c) :=
  inferInstanceAs (Decidable (_ ∧ _))

/-- When the deletion of a container fails and changes nothing.

**Proof sketch.** Split the cases in the order of the calls. Removing the snapshot changes nothing
exactly when there is none. -/
lemma deleteContainer_eq_iff {errs : RemoveErrors} {key : Key} {c : Containerd} :
    ((errs.deleteContainer key c).1 = c ∧ (errs.deleteContainer key c).2 ≠ none) ↔
      (key ∈ c.tasks ∧ errs.loadTask = none) ∨ errs.get ≠ none ∨ errs.snapshot ≠ none ∨
        (errs.delete ≠ none ∧ snapshotKey key ∉ c.snapshots) := by
  have herase : { c with snapshots := c.snapshots.erase (snapshotKey key) } = c ↔
      snapshotKey key ∉ c.snapshots := by
    rw [Containerd.ext_iff]
    simp [List.erase_eq_self_iff]
  unfold deleteContainer
  split
  next htask => simp [htask]
  next htask =>
    simp only [htask, false_or]
    cases errs.get with
    | some err => simp
    | none =>
      cases errs.snapshot with
      | some err => simp
      | none => cases errs.delete <;> simp [herase]

/-- **When `Remove` fails before it has changed anything.**

**Proof sketch.** A container that is not loaded gives no error. One that is loaded may lose its
task first; the call has changed nothing only if the task was kept (`within_afterKill_iff`) and the
deletion itself changes nothing (`deleteContainer_eq_iff`). -/
theorem remove_eq_iff {errs : RemoveErrors} {key : Key} {c : Containerd} :
    ((errs.remove key c).1 = c ∧ (errs.remove key c).2 ≠ none) ↔ errs.FailsFirst key c := by
  unfold FailsFirst
  by_cases h : errs.Loads key c
  · rw [and_iff_right h]
    cases htask : errs.task with
    | some err => simp [remove_of_task h htask]
    | none =>
      obtain ⟨hfst, hsnd⟩ := remove_of_loads h htask
      rw [hfst, Ne, hsnd]
      constructor
      · rintro ⟨heq, hfails⟩
        have hw := errs.deleteContainer_within key (errs.afterKill key c)
        rw [heq] at hw
        have hkeeps := within_afterKill_iff.mp hw
        rw [afterKill_of_keepsTask hkeeps] at heq hfails
        exact .inr ⟨hkeeps, deleteContainer_eq_iff.mp ⟨heq, hfails⟩⟩
      · rintro (hne | ⟨hkeeps, hfails⟩)
        · exact absurd rfl hne
        · rw [afterKill_of_keepsTask hkeeps]
          exact deleteContainer_eq_iff.mpr hfails
  · obtain ⟨snapshots, heq⟩ := exists_remove_of_not_loads h
    simp [h, heq]

end RemoveErrors

end Fecore
