import Mathlib.Tactic.Common
import Fecore.Service.Remove

set_option relaxedAutoImplicit false
set_option autoImplicit false

/-!
# What a removal leaves

What is left of a container when `Remove` of `pkg/service/service.go` returns nil, and which errors
of the kill it returns.

## Main definitions

* `Fecore.Containerd.Clear` — nothing of a container is left.
* `Fecore.RemoveErrors.RemovesAll` — nothing is left when the call returns nil, and an error of
  the kill is returned.

## Main results

* `Fecore.RemoveErrors.removesAll_iff` — when the call removes all.
-/

namespace Fecore

/-- **The records are keyed**: there is one for each name in a namespace. -/
structure Containerd.Keyed (c : Containerd) : Prop where
  containers : c.containers.Nodup
  tasks : c.tasks.Nodup
  snapshots : c.snapshots.Nodup

/-- **Nothing of a container is left**: no record, no task and no snapshot as
`createNativeReplica` and `Start` make it. -/
structure Containerd.Clear (c : Containerd) (key : Key) : Prop where
  container : key ∉ c.containers
  task : key ∉ c.tasks
  snapshot : snapshotKey key ∉ c.snapshots

namespace RemoveErrors

/-! ### What is left -/

/-- **Waiting on or killing the task fails** in a call that gets there. -/
def KillFails (errs : RemoveErrors) (key : Key) (c : Containerd) : Prop :=
  (errs.Loads key c ∧ errs.task = none ∧ key ∈ c.tasks) ∧
    (errs.wait ≠ none ∨ errs.kill ≠ none ∨ errs.exitStatus ≠ none)

/-- **The call removes all**: when it returns nil there is nothing left of the container, and it
returns an error when waiting on or killing the task fails. -/
def RemovesAll (errs : RemoveErrors) (key : Key) (c : Containerd) : Prop :=
  ((errs.remove key c).2 = none → (errs.remove key c).1.Clear key) ∧
    (errs.KillFails key c → (errs.remove key c).2 ≠ none)

/-- The task stays and `container.Delete` sees it, or another call of the deletion fails. -/
def DeletionFails (errs : RemoveErrors) (key : Key) (c : Containerd) : Prop :=
  (key ∈ c.tasks ∧ (errs.wait ≠ none ∨ errs.taskDelete ≠ none) ∧ errs.loadTask = none) ∨
    errs.get ≠ none ∨ errs.snapshot ≠ none ∨ errs.delete ≠ none

/-- No call that ends the task fails. -/
def EndsTask (errs : RemoveErrors) : Prop :=
  errs.wait = none ∧ errs.kill = none ∧ errs.exitStatus = none ∧ errs.taskDelete = none

/-- What a removal of everything takes: of a container that is loaded, that the look-up of its
task or its deletion fails, or that a task that it has is ended; of one that is not loaded, that
there is nothing of it from the start. -/
def Removable (errs : RemoveErrors) (key : Key) (c : Containerd) : Prop :=
  (errs.Loads key c ∧
    (errs.task ≠ none ∨ errs.DeletionFails key c ∨ (key ∈ c.tasks → errs.EndsTask))) ∨
  (¬ errs.Loads key c ∧ c.Clear key)

/-- The task is still there when the container comes to be deleted. -/
lemma mem_afterKill_tasks_iff {errs : RemoveErrors} {key : Key} {c : Containerd} :
    key ∈ (errs.afterKill key c).tasks ↔
      key ∈ c.tasks ∧ (errs.wait ≠ none ∨ errs.taskDelete ≠ none) := by
  rw [afterKill_tasks]
  by_cases hcalls : errs.wait = none ∧ errs.taskDelete = none
  · simp [hcalls]
  · rw [if_neg hcalls]
    tauto

/-- When a call that has loaded the container returns nil. -/
lemma remove_snd_eq_none_iff {errs : RemoveErrors} {key : Key} {c : Containerd}
    (h : errs.Loads key c) : (errs.remove key c).2 = none ↔
      errs.task = none ∧ ¬ errs.DeletionFails key c := by
  cases htask : errs.task with
  | some err => simp [remove_of_task h htask]
  | none =>
    rw [(remove_of_loads h htask).2, deleteContainer_snd_eq_none_iff, mem_afterKill_tasks_iff]
    unfold DeletionFails
    simp only [ne_eq, true_and]
    tauto

/-- What a call that has loaded the container and returns nil leaves. -/
lemma clear_remove_iff {errs : RemoveErrors} {key : Key} {c : Containerd} (hc : c.Keyed)
    (h : errs.Loads key c) (hnone : (errs.remove key c).2 = none) :
    (errs.remove key c).1.Clear key ↔
      ¬ (key ∈ c.tasks ∧ (errs.wait ≠ none ∨ errs.taskDelete ≠ none)) := by
  obtain ⟨htask, -⟩ := (remove_snd_eq_none_iff h).mp hnone
  obtain ⟨hfst, hsnd⟩ := remove_of_loads h htask
  rw [hfst, deleteContainer_of_none (hsnd.mp hnone), ← mem_afterKill_tasks_iff]
  constructor
  · exact fun hclear => hclear.task
  · intro htasks
    obtain ⟨hcontainers, hsnapshots⟩ := errs.afterKill_records key c
    refine ⟨?_, htasks, ?_⟩
    · simpa only [hcontainers] using hc.containers.not_mem_erase
    · simpa only [hsnapshots] using hc.snapshots.not_mem_erase

/-- The key that `Remove` spells is not the one of the snapshot. -/
lemma snapshotKey_ne (key : Key) : snapshotKey key ≠ (key.1, key.2 ++ "snapshot".toList) := by
  intro heq
  have hlen := congrArg (fun k : Key => k.2.length) heq
  simp [snapshotKey] at hlen

/-- A call that does not load the container leaves of it what there is. -/
lemma clear_remove_of_not_loads {errs : RemoveErrors} {key : Key} {c : Containerd}
    (h : ¬ errs.Loads key c) : (errs.remove key c).1.Clear key ↔ c.Clear key := by
  rw [remove_of_not_loads h]
  dsimp only
  split
  · have hmem : snapshotKey key ∈ c.snapshots.erase (key.1, key.2 ++ "snapshot".toList) ↔
        snapshotKey key ∈ c.snapshots := List.mem_erase_of_ne (snapshotKey_ne key)
    exact ⟨fun ⟨hcontainer, htask, hsnapshot⟩ => ⟨hcontainer, htask, hmem.not.mp hsnapshot⟩,
      fun ⟨hcontainer, htask, hsnapshot⟩ => ⟨hcontainer, htask, hmem.not.mpr hsnapshot⟩⟩
  · rfl

/-- **When a call removes all.**

**Proof sketch.** A call that does not load the container returns nil and leaves its record, its
task and the snapshot, since the key of the snapshot is spelled in another way. A call that has
loaded it and returns nil has removed the record and the snapshot; the task is gone unless the
wait or its deletion failed, and an error of the kill or in the exit status is lost. -/
theorem removesAll_iff (errs : RemoveErrors) (key : Key) {c : Containerd} (hc : c.Keyed) :
    errs.RemovesAll key c ↔ errs.Removable key c := by
  by_cases h : errs.Loads key c
  · by_cases hret : (errs.remove key c).2 = none
    · obtain ⟨htask, hdeletion⟩ := (remove_snd_eq_none_iff h).mp hret
      have hends : errs.RemovesAll key c ↔ (key ∈ c.tasks → errs.EndsTask) := by
        unfold RemovesAll KillFails EndsTask
        rw [clear_remove_iff hc h hret]
        simp only [h, htask, hret, ne_eq, not_true_eq_false]
        tauto
      rw [hends]
      constructor
      · exact fun htasks => .inl ⟨h, .inr (.inr htasks)⟩
      · rintro (⟨-, herr | herr | htasks⟩ | ⟨hno, -⟩)
        · exact absurd htask herr
        · exact absurd herr hdeletion
        · exact htasks
        · exact absurd h hno
    · have herr : errs.task ≠ none ∨ errs.DeletionFails key c := by
        by_cases htask : errs.task = none
        · exact .inr (not_not.mp fun hno =>
            hret ((remove_snd_eq_none_iff h).mpr ⟨htask, hno⟩))
        · exact .inl htask
      exact iff_of_true ⟨fun hnone => absurd hnone hret, fun _ => hret⟩
        (.inl ⟨h, herr.imp_right .inl⟩)
  · have hret : (errs.remove key c).2 = none := by rw [remove_of_not_loads h]
    constructor
    · exact fun hall => .inr ⟨h, (clear_remove_of_not_loads h).mp (hall.1 hret)⟩
    · rintro (⟨hloads, -⟩ | ⟨-, hclear⟩)
      · exact absurd hloads h
      · exact ⟨fun _ => (clear_remove_of_not_loads h).mpr hclear,
          fun hkill => absurd hkill.1.1 h⟩

/-- The key of a function's container. -/
def figlet : Key := ("openfaas-fn".toList, "figlet".toList)

/-- A container without a task is removed, and its snapshot with it. -/
theorem removesAll_iff_figlet :
    RemovesAll {} figlet { containers := [figlet], snapshots := [snapshotKey figlet] } :=
  (removesAll_iff {} figlet ⟨by decide, by decide, by decide⟩).mpr
    (.inl ⟨by decide, .inr (.inr fun _ => ⟨rfl, rfl, rfl, rfl⟩)⟩)

/-- **A snapshot can be left**: no call fails and the container's record is missing. -/
theorem not_removesAll : ¬ RemovesAll {} figlet { snapshots := [snapshotKey figlet] } := by
  intro hall
  have hclear := hall.1 (by decide)
  exact hclear.snapshot (by decide)

/-- The error of the kill is lost. -/
example : (RemoveErrors.remove { kill := some "no such process".toList } figlet
    { containers := [figlet], tasks := [figlet] }).2 = none := by decide

end RemoveErrors

end Fecore
