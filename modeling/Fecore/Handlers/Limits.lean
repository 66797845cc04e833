import Mathlib.Algebra.Order.Group.Int
import Mathlib.Tactic.Common
import Fecore.Handlers.Node
import Fecore.Handlers.WellFormed

set_option relaxedAutoImplicit false
set_option autoImplicit false

/-!
# The counters of replicas and the limits of the node

`containerCount` and `wasmContainerCount` are taken before a replica is created and given back at
the end of its deletion. This file compares them with the replicas that exist or are being
created: when they are equal, and when the limits of the config file hold.

## Main definitions

* `Fecore.CreatePc.building` — a creation has a slot and has not made its replica yet.
* `Fecore.World.over` — how many replicas exist beyond the counter.
* `Fecore.CountsExact`, `Fecore.WithinLimits` — the two properties.
* `Fecore.Thread.keepsSlots`, `Fecore.Thread.keepsLimits` — the sections that keep them.

## Main results

* `Fecore.countsExact_throughout` — the counters are exact throughout the runs whose moves keep
  the slots.
* `Fecore.withinLimits_throughout` — the limits hold throughout the runs whose moves keep them.
-/

namespace Fecore

/-! ### Slots -/

/-- One while the creation has a slot and its replica of the kind is not made yet. -/
def CreatePc.building (kind : Str) (call : CreateCall) : CreatePc → ℤ
  | .lookup => if call.ctrType = kind then 1 else 0
  | .build _ _ => if kind = native then 1 else 0
  | .storage _ _ => if kind = wasm then 1 else 0
  | .net _ => if kind = wasm then 1 else 0
  | .start _ _ => if kind = wasm then 1 else 0
  | _ => 0

/-- The measure of a creation that `CreatePc.building` is. -/
def building (kind : Str) (call : CreateCall) (pc : CreatePc) : ℤ := pc.building kind call

/-- How many replicas of the kind are being created. -/
def State.building (kind : Str) (c : State) : ℤ :=
  (c.threads.map (·.creating (Fecore.building kind))).sum

/-- How many replicas of the kind exist beyond its counter. -/
def World.over (kind : Str) (w : World) : ℤ :=
  if kind = native then w.nativeReplicas.length - w.containerCount
  else w.wasmProcs.length - w.wasmContainerCount

/-- The native replicas beyond `containerCount`. -/
@[simp] lemma over_native (w : World) :
    w.over native = w.nativeReplicas.length - w.containerCount := if_pos rfl

/-- The WASM replicas beyond `wasmContainerCount`. -/
@[simp] lemma over_wasm (w : World) : w.over wasm = w.wasmProcs.length - w.wasmContainerCount :=
  if_neg World.wasm_ne_native

/-- A creation builds one replica or none. -/
lemma building_nonneg (kind : Str) (call : CreateCall) (pc : CreatePc) :
    0 ≤ building kind call pc := by
  unfold building CreatePc.building
  split <;> (try split) <;> decide

/-- Not less than no replica is being created. -/
lemma State.building_nonneg (kind : Str) (c : State) : 0 ≤ c.building kind := by
  refine Interleaving.sum_map_nonneg (fun t => ?_) _
  unfold Thread.creating
  split
  · exact le_rfl
  · exact Fecore.building_nonneg _ _ _

/-- The processes have PIDs of their own. -/
def World.PIDsNodup (w : World) : Prop := (w.wasmProcs.map (·.pid)).Nodup

/-! ### Creations -/

/-- The next section of a creation does not fail once the creation has a slot, and a slot goes to
a native or a WASM replica. -/
def CreateCall.goesOn (w : World) (call : CreateCall) (e : Env) : CreatePc → Bool
  | .slot _ => call.ctrType = native ∨ call.ctrType = wasm ∨ 1000 ≤ w.containerCount
  | .lookup => (w.fn? call.fname).isSome
  | .build _ _ => e.built = .ok
  | .storage _ imageFn => (w.fn? imageFn).isSome ∧ e.err = false
  | .net _ => w.netnsList ≠ []
  | .start _ _ => e.err = false
  | .add _ => true

/-- A section of a creation never adds to the replicas beyond the counters, and takes nothing off
them either when the creation goes on.

**Proof sketch.** Case split on the section and on the kind. A slot is counted before there is a
replica, and the replica that is built or started takes the place of the slot. -/
lemma createSection_over {kind : Str} (hkind : kind = native ∨ kind = wasm) {w w' : World}
    {call : CreateCall} {e : Env} {pc : CreatePc} {result : CreateResult}
    (hsec : CreateSection w call e pc w' result) :
    w'.over kind + result.creating (building kind) call ≤
        w.over kind + building kind call pc ∧
      (call.goesOn w e pc = true →
        w'.over kind + result.creating (building kind) call =
          w.over kind + building kind call pc) := by
  have hne := World.wasm_ne_native
  cases hsec with
  | nativeSlot hct hlt =>
    rcases hkind with rfl | rfl <;>
      simp only [over_native, over_wasm, CreateResult.creating, building, CreatePc.building,
        CreateCall.goesOn, decide_eq_true_eq, hct, if_false, false_or]
    · split
      · omega
      · next hn => exact ⟨by omega, fun h => by simp [hn] at h; omega⟩
    · simp
  | wasmSlot hct hlt =>
    rcases hkind with rfl | rfl
    · simp [CreateResult.creating, building, CreatePc.building, hct, hne]
    · simp [CreateResult.creating, building, CreatePc.building, hct]
      omega
  | wait => simp [CreateResult.creating, building, CreatePc.building]
  | limit => simp [CreateResult.creating, building, CreatePc.building]
  | missing hf =>
    simp only [CreateResult.creating, CreateCall.goesOn, hf, Option.isSome_none]
    exact ⟨by have := building_nonneg kind call .lookup; omega, fun h => absurd h (by decide)⟩
  | neither hn hw =>
    rcases hkind with rfl | rfl <;>
      simp [CreateResult.creating, building, CreatePc.building, hn, hw]
  | nativeLookup hct hf =>
    rcases hkind with rfl | rfl <;>
      simp [CreateResult.creating, building, CreatePc.building, hct, hne, hne.symm]
  | wasmLookup hct hf =>
    rcases hkind with rfl | rfl <;>
      simp [CreateResult.creating, building, CreatePc.building, hct, hne, hne.symm]
  | @buildFailed fnName fnNamespace hb =>
    have hb' := building_nonneg kind call (.build fnName fnNamespace)
    refine ⟨?_, fun h => absurd h (by simpa [CreateCall.goesOn] using hb)⟩
    simp only [CreateResult.creating]
    exact add_le_add_right hb' (w.over kind)
  | built hb =>
    rcases hkind with rfl | rfl
    · simp [CreateResult.creating, building, CreatePc.building]
      omega
    · simp [CreateResult.creating, building, CreatePc.building, hne]
  | @noStorage replicaName imageFn hf =>
    have hb := building_nonneg kind call (.storage replicaName imageFn)
    refine ⟨by simp only [CreateResult.creating]; omega, fun h => ?_⟩
    rcases hf with hf | herr
    · simp [CreateCall.goesOn, hf] at h
    · simp [CreateCall.goesOn, herr] at h
  | storage => exact ⟨le_rfl, fun _ => rfl⟩
  | @noNet replicaName hnil =>
    have hb := building_nonneg kind call (.net replicaName)
    refine ⟨by simp only [CreateResult.creating]; omega, fun h => ?_⟩
    simp [CreateCall.goesOn, hnil] at h
  | net => exact ⟨le_rfl, fun _ => rfl⟩
  | @startFailed replicaName ipInfo herr =>
    have hb := building_nonneg kind call (.start replicaName ipInfo)
    refine ⟨by simp only [CreateResult.creating]; omega, fun h => ?_⟩
    simp [CreateCall.goesOn, herr] at h
  | started =>
    rcases hkind with rfl | rfl
    · simp [CreateResult.creating, building, CreatePc.building, hne.symm]
    · simp [CreateResult.creating, building, CreatePc.building]
      omega
  | addActive => exact ⟨le_rfl, fun _ => rfl⟩
  | noStats => exact ⟨le_rfl, fun _ => rfl⟩
  | addIdle => exact ⟨le_rfl, fun _ => rfl⟩
  | addAbsent => exact ⟨le_rfl, fun _ => rfl⟩

/-! ### Deletions -/

/-- The deletion of a native replica finds the container of a replica that exists and loads it, or
there is no slot to give back. -/
def returnsNative (w : World) (ns : Str) (a : Answers) (r : Replica) : Bool :=
  a.remove.Loads (ns, r.uuid) w.containerd ∧ (ns, r.uuid) ∈ w.nativeReplicas ∨
    w.containerCount ≤ 0

/-- The deletion of a WASM replica gives a slot back when it kills a process, and none when it
kills none: it panics or finds no process, or it kills one and removes the directory, or it kills
none and does not come to the counter. -/
def returnsWasm (w : World) (a : Answers) (r : Replica) : Bool :=
  (w.fn? r.fname).isNone || a.findProcess ||
    if r.pid ∈ w.wasmProcs.map (·.pid) then !a.removeAll
    else a.removeAll || decide (w.wasmContainerCount ≤ 0)

/-- The deletion of a WASM replica does not give back the slot of a process that still runs. -/
def keepsWasm (w : World) (a : Answers) (r : Replica) : Bool :=
  (w.fn? r.fname).isNone || a.findProcess || a.removeAll ||
    decide (r.pid ∈ w.wasmProcs.map (·.pid)) || decide (w.wasmContainerCount ≤ 0)

/-- A deletion gives back the slot of the replica it deletes. -/
def returnsSlot : DeletionCond := fun w ns a r =>
  if r.ctrType = native then returnsNative w ns a r
  else if r.ctrType = wasm then returnsWasm w a r
  else true

/-- A deletion gives back no slot but that of the replica it deletes. -/
def keepsLimit : DeletionCond := fun w ns a r =>
  if r.ctrType = native then returnsNative w ns a r
  else if r.ctrType = wasm then keepsWasm w a r
  else true

/-- A native replica is gone when its container was loaded and `Remove` succeeded.

**Proof sketch.** The container has gone from the records exactly when it was loaded and `Remove`
returned nil (`RemoveErrors.remove_containers`). -/
lemma deleteNativeReplica_nativeReplicas (w : World) (ns : Str) (a : Answers) (r : Replica) :
    (w.deleteNativeReplica ns a r).nativeReplicas =
      if a.remove.Loads (ns, r.uuid) w.containerd ∧
          (a.remove.remove (ns, r.uuid) w.containerd).2 = none then
        w.nativeReplicas.erase (ns, r.uuid)
      else w.nativeReplicas := by
  have hdel : (w.deleteNativeReplica ns a r).nativeReplicas =
      if (a.remove.remove (ns, r.uuid) w.containerd).1.containers = w.containerd.containers then
        w.nativeReplicas else w.nativeReplicas.erase (ns, r.uuid) := by
    dsimp only [World.deleteNativeReplica, World.removeContainer]
    split
    · rfl
    · rw [World.delContainerCount_eq]
  rw [hdel]
  rcases a.remove.remove_containers (ns, r.uuid) w.containerd with ⟨hl, hc⟩ | ⟨hl, hc, hok⟩
  · cases hok : (a.remove.remove (ns, r.uuid) w.containerd).2 with
    | some err => simp [hc, hok]
    | none =>
      have hne : w.containerd.containers.erase (ns, r.uuid) ≠ w.containerd.containers := by
        intro heq
        have hlen := List.length_erase_of_mem hl.1
        have hpos := List.length_pos_of_mem hl.1
        rw [heq] at hlen
        omega
      simp [hc, hok, hl, hne]
  · simp [hc, hl]

/-- The counter goes down when `Remove` returns nil, but not below zero. -/
lemma deleteNativeReplica_containerCount (w : World) (ns : Str) (a : Answers) (r : Replica) :
    (w.deleteNativeReplica ns a r).containerCount =
      if (a.remove.remove (ns, r.uuid) w.containerd).2 = none ∧ 0 < w.containerCount then
        w.containerCount - 1
      else w.containerCount := by
  dsimp only [World.deleteNativeReplica, World.removeContainer]
  cases (a.remove.remove (ns, r.uuid) w.containerd).2 with
  | some err => rfl
  | none =>
    rw [World.delContainerCount_eq]
    simp

/-- What the deletion of a native replica does to the counter and the replicas.

**Proof sketch.** Case split on whether `Remove` has removed the container. If it has, one replica
and one of the count go, or the count is not positive; if it has not, the count is not positive
either, by the condition. -/
lemma deleteNativeReplica_over {w : World} {ns : Str} {a : Answers} {r : Replica}
    (h : returnsNative w ns a r = true) :
    (w.deleteNativeReplica ns a r).over native ≤ w.over native ∧
      (w.over native ≤ 0 → (w.deleteNativeReplica ns a r).over native = w.over native) ∧
        (w.deleteNativeReplica ns a r).containerCount ≤ w.containerCount := by
  have hle := (w.nativeReplicas.erase_sublist (a := (ns, r.uuid))).length_le
  simp only [over_native, deleteNativeReplica_nativeReplicas, deleteNativeReplica_containerCount]
  simp only [returnsNative, decide_eq_true_eq] at h
  by_cases hl : a.remove.Loads (ns, r.uuid) w.containerd
  · cases (a.remove.remove (ns, r.uuid) w.containerd).2 with
    | some err => simp
    | none =>
      simp only [hl, true_and, and_self, if_true] at h ⊢
      by_cases hmem : (ns, r.uuid) ∈ w.nativeReplicas
      · have hlen := List.length_erase_of_mem hmem
        have hpos := List.length_pos_of_mem hmem
        split <;> omega
      · have hcount : w.containerCount ≤ 0 := by simpa [hmem] using h
        rw [List.erase_of_not_mem hmem]
        split <;> omega
  · have hcount : w.containerCount ≤ 0 := by simpa [hl] using h
    simp only [hl, false_and, if_false]
    split <;> omega

/-- The deletion of a native replica leaves the WASM replicas alone. -/
lemma deleteNativeReplica_wasm (w : World) (ns : Str) (a : Answers) (r : Replica) :
    (w.deleteNativeReplica ns a r).wasmProcs = w.wasmProcs ∧
      (w.deleteNativeReplica ns a r).wasmContainerCount = w.wasmContainerCount := by
  dsimp only [World.deleteNativeReplica]
  split
  · exact ⟨rfl, rfl⟩
  · rw [World.delContainerCount_eq]
    exact ⟨rfl, rfl⟩

/-- The processes left when the one with the PID is killed. -/
def killed (procs : List WasmProc) (pid : ℕ) : List WasmProc := procs.filter fun p => p.pid ≠ pid

/-- What the deletion of a WASM replica does: nothing to the processes and to the counter when it
panics or finds no process; else it kills, and counts down unless the directory stays.

**Proof sketch.** Case split on the look-up of the function, on the process and on the removal of
the directory. -/
lemma deleteWasmReplica_cases (w : World) (a : Answers) (r : Replica) :
    (((w.fn? r.fname).isNone || a.findProcess) = true ∧
      (w.deleteWasmReplica a r).1.wasmProcs = w.wasmProcs ∧
      (w.deleteWasmReplica a r).1.wasmContainerCount = w.wasmContainerCount) ∨
    (((w.fn? r.fname).isNone || a.findProcess) = false ∧
      (w.deleteWasmReplica a r).1.wasmProcs = killed w.wasmProcs r.pid ∧
      (w.deleteWasmReplica a r).1.wasmContainerCount =
        if a.removeAll = false ∧ 0 < w.wasmContainerCount then w.wasmContainerCount - 1
        else w.wasmContainerCount) := by
  have hmark : World.fn? { w with deleteCalls := (wasm, r.uuid) :: w.deleteCalls } r.fname =
      w.fn? r.fname := rfl
  simp only [World.deleteWasmReplica, hmark]
  cases hf : w.fn? r.fname with
  | none => exact .inl ⟨rfl, rfl, rfl⟩
  | some of =>
    cases hp : a.findProcess with
    | true => exact .inl ⟨rfl, rfl, rfl⟩
    | false =>
      refine .inr ⟨rfl, ?_⟩
      cases a.removeAll with
      | true => exact ⟨rfl, rfl⟩
      | false =>
        simp only [Bool.false_eq_true, if_false, World.delWasmContainerCount_eq, true_and]
        exact ⟨rfl, trivial⟩

/-- The deletion of a WASM replica leaves the native replicas alone. -/
lemma deleteWasmReplica_native (w : World) (a : Answers) (r : Replica) :
    (w.deleteWasmReplica a r).1.nativeReplicas = w.nativeReplicas ∧
      (w.deleteWasmReplica a r).1.containerCount = w.containerCount := by
  dsimp only [World.deleteWasmReplica]
  split
  · exact ⟨rfl, rfl⟩
  split
  · exact ⟨rfl, rfl⟩
  split
  · exact ⟨rfl, rfl⟩
  · rw [World.delWasmContainerCount_eq]
    exact ⟨rfl, rfl⟩

/-- Killing a process that runs leaves at least one less. -/
lemma length_killed_le (procs : List WasmProc) (pid : ℕ) :
    (killed procs pid).length + (if pid ∈ procs.map (·.pid) then 1 else 0) ≤ procs.length := by
  induction procs with
  | nil => simp [killed]
  | cons p procs ih =>
    simp only [killed] at ih ⊢
    by_cases hp : p.pid = pid
    · have := List.length_filter_le (fun p : WasmProc => decide (p.pid ≠ pid)) procs
      simp [hp]
      simpa using this
    · rw [List.filter_cons_of_pos (by simp [hp]), List.length_cons, List.map_cons]
      simp only [List.mem_cons, Ne.symm hp, false_or, List.length_cons]
      omega

/-- Killing a process that runs leaves just one less when the PIDs are different. -/
lemma length_killed {procs : List WasmProc} (h : (procs.map (·.pid)).Nodup) (pid : ℕ) :
    (killed procs pid).length + (if pid ∈ procs.map (·.pid) then 1 else 0) = procs.length := by
  induction procs with
  | nil => simp [killed]
  | cons p procs ih =>
    simp only [List.map_cons, List.nodup_cons] at h
    have ih := ih h.2
    simp only [killed] at ih ⊢
    by_cases hp : p.pid = pid
    · subst hp
      rw [if_neg h.1] at ih
      simp
      simpa using ih
    · rw [List.filter_cons_of_pos (by simp [hp]), List.length_cons, List.map_cons]
      simp only [List.mem_cons, Ne.symm hp, false_or, List.length_cons]
      omega

/-- The deletion of a WASM replica that gives back the right slot.

**Proof sketch.** The process that is killed is one of the list or is none (`length_killed`). In the
first case the directory has to go, so the count goes down with it; in the second one nothing may be
counted down. -/
lemma deleteWasmReplica_over_eq {w : World} {a : Answers} {r : Replica}
    (h : returnsWasm w a r = true) (hPID : w.PIDsNodup) (hover : w.over wasm ≤ 0) :
    (w.deleteWasmReplica a r).1.over wasm = w.over wasm := by
  have hlen := length_killed hPID r.pid
  rw [over_wasm] at hover
  rw [over_wasm, over_wasm]
  obtain ⟨-, hprocs, hcount⟩ | ⟨hnone, hprocs, hcount⟩ := deleteWasmReplica_cases w a r
  · rw [hprocs, hcount]
  · simp only [returnsWasm, hnone, Bool.false_or] at h
    rw [hprocs, hcount]
    split at h
    · next hmem =>
      rw [if_pos hmem] at hlen
      have hrem : a.removeAll = false := by simpa using h
      rw [if_pos ⟨hrem, by omega⟩]
      omega
    · next hmem =>
      rw [if_neg hmem] at hlen
      rw [if_neg ?_]
      · omega
      · rintro ⟨hrem, hpos⟩
        simp [hrem] at h
        omega

/-- The deletion of a WASM replica that gives back no slot of a process that still runs.

**Proof sketch.** Case split on the deletion (`deleteWasmReplica_cases`). Where it gives a slot
back, the process it kills is one of those that run. -/
lemma deleteWasmReplica_over_le {w : World} {a : Answers} {r : Replica}
    (h : keepsWasm w a r = true) : (w.deleteWasmReplica a r).1.over wasm ≤ w.over wasm ∧
      (w.deleteWasmReplica a r).1.wasmContainerCount ≤ w.wasmContainerCount := by
  have hlen := length_killed_le w.wasmProcs r.pid
  rw [over_wasm, over_wasm]
  obtain ⟨-, hprocs, hcount⟩ | ⟨hnone, hprocs, hcount⟩ := deleteWasmReplica_cases w a r
  · rw [hprocs, hcount]
    exact ⟨le_rfl, le_rfl⟩
  · simp only [keepsWasm, hnone, Bool.false_or] at h
    rw [hprocs, hcount]
    split
    · next hdel =>
      simp only [hdel.1, Bool.false_or, Bool.or_eq_true, decide_eq_true_eq] at h
      have hmem : r.pid ∈ w.wasmProcs.map (·.pid) := h.resolve_right (by omega)
      rw [if_pos hmem] at hlen
      omega
    · omega

/-! ### The counters -/

/-- The replicas beyond the counters are as many as given, and the PIDs are different. -/
structure World.Exact (m n : ℤ) (w : World) : Prop where
  native : w.over native = m
  wasm : w.over wasm = n
  pids : w.PIDsNodup

/-- A deletion that gives back the slot of the replica it deletes keeps the counters exact.

**Proof sketch.** Case split on the type of the replica. The deletion of one kind leaves the other
alone, and balances its own (`deleteNativeReplica_over`, `deleteWasmReplica_over_eq`). -/
lemma deleteIn_exact {w : World} {m n : ℤ} (hm : m ≤ 0) (hn : n ≤ 0) (ns : Str) (a : Answers)
    (r : Replica) (h : w.Exact m n) (hok : returnsSlot w ns a r = true) :
    (w.deleteIn ns a r).1.Exact m n := by
  by_cases hnat : r.ctrType = native
  · rw [World.deleteIn_native hnat]
    rw [returnsSlot, if_pos hnat] at hok
    obtain ⟨hprocs, hcount⟩ := deleteNativeReplica_wasm w ns a r
    refine ⟨?_, ?_, ?_⟩
    · exact ((deleteNativeReplica_over hok).2.1 (by rw [h.native]; exact hm)).trans h.native
    · rw [over_wasm, hprocs, hcount, ← over_wasm]
      exact h.wasm
    · rw [World.PIDsNodup, hprocs]
      exact h.pids
  by_cases hwasm : r.ctrType = wasm
  · rw [World.deleteIn_wasm hwasm]
    rw [returnsSlot, if_neg hnat, if_pos hwasm] at hok
    obtain ⟨hreplicas, hcount⟩ := deleteWasmReplica_native w a r
    refine ⟨?_, ?_, ?_⟩
    · rw [over_native, hreplicas, hcount, ← over_native]
      exact h.native
    · exact (deleteWasmReplica_over_eq hok h.pids (by rw [h.wasm]; exact hn)).trans h.wasm
    · obtain ⟨-, hprocs, -⟩ | ⟨-, hprocs, -⟩ := deleteWasmReplica_cases w a r <;>
        rw [World.PIDsNodup, hprocs]
      · exact h.pids
      · exact h.pids.sublist (List.filter_sublist.map _)
  · rw [World.deleteIn_other hnat hwasm]
    exact h

/-- The section does not make a creation fail that has a slot, and its deletions give back the
slots of the replicas they delete. -/
def Thread.keepsSlots (w : World) (t : Thread) (e : Env) : Bool :=
  t.deletions returnsSlot w e &&
    match t.creation with
    | none => true
    | some (call, pc) => call.goesOn w e pc

/-- A section of a creation leaves the PIDs different. -/
lemma createSection_pids {w w' : World} {call : CreateCall} {e : Env} {pc : CreatePc}
    {result : CreateResult} (hsec : CreateSection w call e pc w' result) (h : w.PIDsNodup) :
    w'.PIDsNodup := by
  cases hsec with
  | started herr hfree => exact List.nodup_cons.mpr ⟨hfree, h⟩
  | _ => exact h

/-- One section that keeps the slots keeps the difference between the replicas and the
counters.

**Proof sketch.** A section outside the creations touches the node only by deletions
(`section_node`, `deleteIn_exact`). One of a creation moves its replica from what is being built to
what is there (`createSection_over`), and has to go on. -/
lemma section_exact {w w' : World} {e : Env} {t t' : Thread} {new : List Thread}
    (hsec : Section w e t w' t' new) (hok : t.keepsSlots w e = true)
    (hn : w.over native ≤ 0) (hw : w.over wasm ≤ 0) (hPIDs : w.PIDsNodup) :
    w'.PIDsNodup ∧ ∀ kind, kind = native ∨ kind = wasm →
      w'.over kind + t'.creating (building kind) + (new.map (·.creating (building kind))).sum =
        w.over kind + t.creating (building kind) := by
  simp only [Thread.keepsSlots, Bool.and_eq_true] at hok
  obtain ⟨hdel, hgo⟩ := hok
  cases hcreation : t.creation with
  | none =>
    have h := section_node (I := World.Exact (w.over native) (w.over wasm))
      (fun {w₁ w₂} h hsame => ⟨by
        rw [over_native, hsame.nativeReplicas, hsame.containerCount, ← over_native]
        exact h.native, by
        rw [over_wasm, hsame.wasmProcs, hsame.wasmContainerCount, ← over_wasm]
        exact h.wasm, by
        rw [World.PIDsNodup, hsame.wasmProcs]
        exact h.pids⟩)
      (fun ns a r h hok => deleteIn_exact hn hw ns a r h hok) hsec hcreation hdel
      ⟨rfl, rfl, hPIDs⟩
    refine ⟨h.pids, fun kind hkind => ?_⟩
    have hzero := section_creating_of_none (m := building kind) (fun _ _ => rfl) hsec hcreation
    rw [add_assoc, hzero, Thread.creating_of_none hcreation]
    rcases hkind with rfl | rfl
    · rw [h.native]
    · rw [h.wasm]
  | some cp =>
    obtain ⟨call, pc⟩ := cp
    rw [hcreation] at hgo
    constructor
    · obtain ⟨result, hcreate, -⟩ :=
        section_creating_of_some (m := building native) (fun _ _ => rfl) hsec hcreation
      exact createSection_pids hcreate hPIDs
    · intro kind hkind
      obtain ⟨result, hcreate, hmeasure⟩ :=
        section_creating_of_some (m := building kind) (fun _ _ => rfl) hsec hcreation
      rw [add_assoc, hmeasure, Thread.creating_of_some hcreation]
      exact (createSection_over hkind hcreate).2 hgo

/-- **The counters are exact**: each equals the number of replicas of its kind that exist or are
being created. -/
structure CountsExact (c : State) : Prop where
  native : c.shared.containerCount = c.shared.nativeReplicas.length + c.building native
  wasm : c.shared.wasmContainerCount = c.shared.wasmProcs.length + c.building wasm

/-- Whether the counters are exact can be looked up. -/
instance (c : State) : Decidable (CountsExact c) :=
  decidable_of_iff
    (c.shared.containerCount = c.shared.nativeReplicas.length + c.building native ∧
      c.shared.wasmContainerCount = c.shared.wasmProcs.length + c.building wasm)
    ⟨fun h => ⟨h.1, h.2⟩, fun h => ⟨h.native, h.wasm⟩⟩

/-- The replicas beyond a counter, those that are being created included. -/
def State.overdraft (kind : Str) (c : State) : ℤ :=
  c.ledger (World.over kind) (Thread.creating (Fecore.building kind))

/-- The replicas beyond a counter exist or are being created. -/
lemma State.overdraft_eq (kind : Str) (c : State) :
    c.overdraft kind = c.shared.over kind + c.building kind := rfl

/-- The counters are exact when neither is overdrawn nor too high. -/
lemma countsExact_iff {c : State} :
    CountsExact c ↔ c.overdraft native = 0 ∧ c.overdraft wasm = 0 := by
  simp only [State.overdraft_eq, over_native, over_wasm]
  constructor
  · rintro ⟨hn, hw⟩
    omega
  · rintro ⟨hn, hw⟩
    exact ⟨by omega, by omega⟩

/-- A move that keeps the slots keeps the counters exact.

**Proof sketch.** The overdraft of each kind is a ledger that a section keeps (`section_exact`). It
is not positive before, since what is being built is counted already. -/
lemma step_countsExact {c c' : State} {m : Event} (hc : CountsExact c ∧ c.shared.PIDsNodup)
    (hok : atNext (fun w t e => t.keepsSlots w e) c m = true)
    (hstep : provider.step c m = some c') :
    CountsExact c' ∧ c'.shared.PIDsNodup := by
  obtain ⟨hcounts, hPIDs⟩ := hc
  have hn : c.shared.over native ≤ 0 := by
    have := c.building_nonneg native
    rw [over_native, hcounts.native]
    omega
  have hw : c.shared.over wasm ≤ 0 := by
    have := c.building_nonneg wasm
    rw [over_wasm, hcounts.wasm]
    omega
  have hledger : ∀ kind, kind = native ∨ kind = wasm → c'.overdraft kind = c.overdraft kind := by
    intro kind hkind
    refine Interleaving.ledger_step_eq hstep (fun t hent => entry_creating hent) ?_
    intro i e t w' t' new hm ht hnext
    exact (section_exact (next_cases hnext) (atNext_step hok hm ht) hn hw hPIDs).2 kind hkind
  refine ⟨?_, ?_⟩
  · rw [countsExact_iff] at hcounts ⊢
    rw [hledger native (.inl rfl), hledger wasm (.inr rfl)]
    exact hcounts
  · obtain ⟨t, rfl, -, rfl⟩ | ⟨i, e, t, w', t', new, hm, ht, hnext, rfl⟩ :=
      Interleaving.Program.step_cases hstep
    · exact hPIDs
    · exact (section_exact (next_cases hnext) (atNext_step hok hm ht) hn hw hPIDs).1

/-- **When the counters are exact.** In every run in which no creation fails once it has a slot,
slots go to native and WASM replicas only, and each deletion gives back just the slot of the
replica it deletes, the counters equal the numbers of replicas that exist or are being created.

**Proof sketch.** The difference between the two is a ledger: a slot is taken and a replica
begins to be created in one section, a creation that goes on moves its replica to those that
exist, and a deletion takes one off both sides. -/
theorem countsExact_throughout {cfg : Config} {storage : Storage} {now : Time} {w : World}
    (hstart : startProvider cfg storage now = .ok w) {events : List Event}
    (hkept : Runs.Along provider.step
      (fun c m => atNext (fun w t e => t.keepsSlots w e) c m = true) ⟨w, []⟩ events) :
    Runs.Throughout provider.step CountsExact ⟨w, []⟩ events := by
  have hfresh := (startProvider_fresh hstart).1
  refine Runs.throughout_of_along (I := fun c : State => CountsExact c ∧ c.shared.PIDsNodup)
    (fun _ _ _ hI hok hstep => step_countsExact hI hok hstep) (fun _ hI => hI.1) ⟨?_, ?_⟩ hkept
  · constructor
    · simp [hfresh.containerCount, hfresh.nativeReplicas, State.building]
    · simp [hfresh.wasmContainerCount, hfresh.wasmProcs, State.building]
  · simp [World.PIDsNodup, hfresh.wasmProcs]

/-- An invocation of `f` creates a native replica and releases it, and a sweep deletes it. -/
theorem countsExact_throughout_invokeF :
    ((smallRun (deployF ∅ ++ invokeF 1 12 { uuid := "1".toList, pid := 7 } ++ sweepF 2)).map
        fun c => (c.shared.containerCount, c.shared.deleteCalls)) =
        some (0, [(native, "f_1_n".toList)]) ∧
      Runs.Throughout provider.step CountsExact ⟨smallWorld, []⟩
        (deployF ∅ ++ invokeF 1 12 { uuid := "1".toList, pid := 7 } ++ sweepF 2) :=
  ⟨by decide, countsExact_throughout startProvider_small (by decide)⟩

/-- The image of `f` cannot be prepared: the creation fails, and its slot stays taken. -/
theorem not_countsExact_prepareImage :
    ¬ Runs.Throughout provider.step CountsExact ⟨smallWorld, []⟩
      (deployF ∅ ++ invokeF 1 5 { built := .prepareImage }) :=
  Runs.not_throughout (by decide)

/-! ### The limits -/

/-- **The limits hold**: the replicas of a kind that exist or are being created are not more than
the config file allows. -/
structure WithinLimits (c : State) : Prop where
  native : c.shared.nativeReplicas.length + c.building native ≤ c.shared.cfg.maxNativeContainers
  wasm : c.shared.wasmProcs.length + c.building wasm ≤ c.shared.cfg.maxWasmContainers

/-- Whether the limits hold can be looked up. -/
instance (c : State) : Decidable (WithinLimits c) :=
  decidable_of_iff
    (c.shared.nativeReplicas.length + c.building native ≤ c.shared.cfg.maxNativeContainers ∧
      c.shared.wasmProcs.length + c.building wasm ≤ c.shared.cfg.maxWasmContainers)
    ⟨fun h => ⟨h.1, h.2⟩, fun h => ⟨h.native, h.wasm⟩⟩

/-- The slot for a native replica is below the limit of the config file, or there is none. -/
def CreateCall.belowLimit (w : World) (call : CreateCall) : CreatePc → Bool
  | .slot _ => call.ctrType = wasm ∨ w.containerCount < w.cfg.maxNativeContainers ∨
      1000 ≤ w.containerCount
  | _ => true

/-- The section takes no slot for a native replica beyond the limit of the config file, and its
deletions give back no slots but those of the replicas they delete. -/
def Thread.keepsLimits (w : World) (t : Thread) (e : Env) : Bool :=
  t.deletions keepsLimit w e &&
    match t.creation with
    | none => true
    | some (call, pc) => call.belowLimit w pc

/-- The counters are within the limits. -/
structure World.CountsWithin (w : World) : Prop where
  native : w.containerCount ≤ w.cfg.maxNativeContainers
  wasm : w.wasmContainerCount ≤ w.cfg.maxWasmContainers

/-- The replicas beyond the counters are at most as many as given, and the counters are within the
limits. -/
structure World.Below (m n : ℤ) (w : World) : Prop where
  native : w.over native ≤ m
  wasm : w.over wasm ≤ n
  counts : w.CountsWithin

/-- A deletion that gives back no other slot leaves no replica beyond the counters.

**Proof sketch.** Case split on the type of the replica. The deletion of one kind leaves the other
alone; its own count goes down by no more than its replicas. -/
lemma deleteIn_below {w : World} {m n : ℤ} (ns : Str) (a : Answers) (r : Replica)
    (h : w.Below m n) (hok : keepsLimit w ns a r = true) : (w.deleteIn ns a r).1.Below m n := by
  have hcfg := (w.sameStore_deleteIn ns a r).cfg
  by_cases hnat : r.ctrType = native
  · rw [World.deleteIn_native hnat] at hcfg ⊢
    rw [keepsLimit, if_pos hnat] at hok
    obtain ⟨hprocs, hcount⟩ := deleteNativeReplica_wasm w ns a r
    obtain ⟨hover, -, hle⟩ := deleteNativeReplica_over hok
    refine ⟨hover.trans h.native, ?_, ?_, ?_⟩
    · rw [over_wasm, hprocs, hcount, ← over_wasm]
      exact h.wasm
    · rw [hcfg]
      exact hle.trans h.counts.native
    · rw [hcount, hcfg]
      exact h.counts.wasm
  by_cases hwasm : r.ctrType = wasm
  · rw [World.deleteIn_wasm hwasm] at hcfg ⊢
    rw [keepsLimit, if_neg hnat, if_pos hwasm] at hok
    obtain ⟨hreplicas, hcount⟩ := deleteWasmReplica_native w a r
    obtain ⟨hover, hle⟩ := deleteWasmReplica_over_le hok
    refine ⟨?_, hover.trans h.wasm, ?_, ?_⟩
    · rw [over_native, hreplicas, hcount, ← over_native]
      exact h.native
    · rw [hcount, hcfg]
      exact h.counts.native
    · rw [hcfg]
      exact hle.trans h.counts.wasm
  · rw [World.deleteIn_other hnat hwasm]
    exact h

/-- A creation takes its slot below the limit. -/
lemma createSection_countsWithin {w w' : World} {call : CreateCall} {e : Env} {pc : CreatePc}
    {result : CreateResult} (hsec : CreateSection w call e pc w' result) (h : w.CountsWithin)
    (hok : call.belowLimit w pc = true) : w'.CountsWithin := by
  cases hsec with
  | nativeSlot hct hlt =>
    have hlim : w.containerCount < w.cfg.maxNativeContainers := by
      simp only [CreateCall.belowLimit, hct, false_or, decide_eq_true_eq] at hok
      omega
    exact ⟨Int.add_one_le_of_lt hlim, h.wasm⟩
  | wasmSlot hct hlt => exact ⟨h.native, Int.add_one_le_of_lt hlt⟩
  | _ => exact ⟨h.native, h.wasm⟩

/-- One section that keeps the limits keeps the counters within them and adds no replicas beyond
the counters.

**Proof sketch.** As for the exact counts, with `deleteIn_below` for a deletion and the inequality
of `createSection_over` for a creation; a slot is taken only below the limit. -/
lemma section_below {w w' : World} {e : Env} {t t' : Thread} {new : List Thread}
    (hsec : Section w e t w' t' new) (hok : t.keepsLimits w e = true) (h : w.CountsWithin) :
    w'.CountsWithin ∧ ∀ kind, kind = native ∨ kind = wasm →
      w'.over kind + t'.creating (building kind) + (new.map (·.creating (building kind))).sum ≤
        w.over kind + t.creating (building kind) := by
  simp only [Thread.keepsLimits, Bool.and_eq_true] at hok
  obtain ⟨hdel, hslot⟩ := hok
  cases hcreation : t.creation with
  | none =>
    have h := section_node (I := World.Below (w.over native) (w.over wasm))
      (fun {w₁ w₂} h hsame => ⟨by
        rw [over_native, hsame.nativeReplicas, hsame.containerCount, ← over_native]
        exact h.native, by
        rw [over_wasm, hsame.wasmProcs, hsame.wasmContainerCount, ← over_wasm]
        exact h.wasm, by
        rw [hsame.containerCount, hsame.cfg]
        exact h.counts.native, by
        rw [hsame.wasmContainerCount, hsame.cfg]
        exact h.counts.wasm⟩)
      (fun ns a r h hok => deleteIn_below ns a r h hok) hsec hcreation hdel ⟨le_rfl, le_rfl, h⟩
    refine ⟨h.counts, fun kind hkind => ?_⟩
    have hzero := section_creating_of_none (m := building kind) (fun _ _ => rfl) hsec hcreation
    rw [add_assoc, hzero, Thread.creating_of_none hcreation]
    rcases hkind with rfl | rfl
    · exact add_le_add_left h.native 0
    · exact add_le_add_left h.wasm 0
  | some cp =>
    obtain ⟨call, pc⟩ := cp
    rw [hcreation] at hslot
    constructor
    · obtain ⟨result, hcreate, -⟩ :=
        section_creating_of_some (m := building native) (fun _ _ => rfl) hsec hcreation
      exact createSection_countsWithin hcreate h hslot
    · intro kind hkind
      obtain ⟨result, hcreate, hmeasure⟩ :=
        section_creating_of_some (m := building kind) (fun _ _ => rfl) hsec hcreation
      rw [add_assoc, hmeasure, Thread.creating_of_some hcreation]
      exact (createSection_over hkind hcreate).1

/-- No replicas exist beyond the counters, and the counters are within the limits. -/
structure State.Below (c : State) : Prop where
  native : c.overdraft native ≤ 0
  wasm : c.overdraft wasm ≤ 0
  counts : c.shared.CountsWithin

/-- Where no replica is beyond the counters and these are within the limits, so are the replicas. -/
lemma State.Below.withinLimits {c : State} (h : c.Below) : WithinLimits c := by
  have hn := h.native
  have hw := h.wasm
  have hcn := h.counts.native
  have hcw := h.counts.wasm
  simp only [State.overdraft_eq, over_native, over_wasm] at hn hw
  exact ⟨by omega, by omega⟩

/-- A move that keeps the limits keeps the replicas below the counters. -/
lemma step_below {c c' : State} {m : Event} (hc : c.Below)
    (hok : atNext (fun w t e => t.keepsLimits w e) c m = true)
    (hstep : provider.step c m = some c') : c'.Below := by
  have hledger : ∀ kind, kind = Fecore.native ∨ kind = Fecore.wasm →
      c'.overdraft kind ≤ c.overdraft kind := by
    intro kind hkind
    refine Interleaving.ledger_step_le hstep (fun t hent => (entry_creating hent).le) ?_
    intro i e t w' t' new hm ht hnext
    exact (section_below (next_cases hnext) (atNext_step hok hm ht) hc.counts).2 kind hkind
  refine ⟨(hledger _ (.inl rfl)).trans hc.native, (hledger _ (.inr rfl)).trans hc.wasm, ?_⟩
  obtain ⟨t, rfl, -, rfl⟩ | ⟨i, e, t, w', t', new, hm, ht, hnext, rfl⟩ :=
    Interleaving.Program.step_cases hstep
  · exact hc.counts
  · exact (section_below (next_cases hnext) (atNext_step hok hm ht) hc.counts).1

/-- The pool of network namespaces is empty when the limit is not positive. -/
lemma createWasmInterfaces_of_nonpos {n : ℤ} (h : n ≤ 0) : createWasmInterfaces n = [] := by
  have : (min n 1000).toNat = 0 := by omega
  rw [createWasmInterfaces, this]
  rfl

/-- **When the limits hold.** With a limit for native replicas that is not negative, in every run in
which no slot for a native replica is taken beyond the limit of the config file and no deletion
gives back a slot but that of the replica it deletes, the replicas that exist or are being created
are never more than the limits of the config file.

**Proof sketch.** The invariant is that neither ledger is overdrawn. It holds when the provider
starts, one section keeps it (`step_below`), and it bounds both counts. -/
theorem withinLimits_throughout {cfg : Config} {storage : Storage} {now : Time} {w : World}
    (hstart : startProvider cfg storage now = .ok w) (hcfg : 0 ≤ cfg.maxNativeContainers)
    {events : List Event}
    (hkept : Runs.Along provider.step
      (fun c m => atNext (fun w t e => t.keepsLimits w e) c m = true) ⟨w, []⟩ events) :
    Runs.Throughout provider.step WithinLimits ⟨w, []⟩ events := by
  obtain ⟨hfresh, hw, hnet, hne⟩ := startProvider_fresh hstart
  refine Runs.throughout_of_along (fun _ _ _ hI hok hstep => step_below hI hok hstep)
    (fun _ hI => hI.withinLimits) ⟨?_, ?_, ?_, ?_⟩ hkept
  · simp [State.overdraft_eq, State.building, hfresh.containerCount, hfresh.nativeReplicas]
  · simp [State.overdraft_eq, State.building, hfresh.wasmContainerCount, hfresh.wasmProcs]
  · rw [hfresh.containerCount, hw]
    exact hcfg
  · -- the provider has begun to serve, so it has a network namespace
    rw [hfresh.wasmContainerCount, hw]
    by_contra hneg
    exact hne (hnet.trans (createWasmInterfaces_of_nonpos (by omega)))

/-- The one native replica that the small node allows is deleted by a sweep, and another one is
created. -/
theorem withinLimits_throughout_invokeF :
    ((smallRun (deployF ∅ ++ invokeF 1 12 { uuid := "1".toList, pid := 7 } ++ sweepF 2 ++
        invokeF 3 12 { uuid := "2".toList, pid := 8 })).map
        fun c => (c.shared.containerCount, c.shared.nativeReplicas)) =
        some (1, [("faasedge-fn".toList, "f_2_n".toList)]) ∧
      Runs.Throughout provider.step WithinLimits ⟨smallWorld, []⟩
        (deployF ∅ ++ invokeF 1 12 { uuid := "1".toList, pid := 7 } ++ sweepF 2 ++
          invokeF 3 12 { uuid := "2".toList, pid := 8 }) :=
  ⟨by decide, withinLimits_throughout startProvider_small (by decide) (by decide)⟩

/-- Two invocations of `f` at the same time, and two native replicas where one is allowed. -/
theorem not_withinLimits_twoInvocations :
    ¬ Runs.Throughout provider.step WithinLimits ⟨smallWorld, []⟩
      (deployF ∅ ++ invokeF 1 5 { uuid := "1".toList } ++ invokeF 2 5 { uuid := "2".toList }) :=
  Runs.not_throughout (by decide)

end Fecore
