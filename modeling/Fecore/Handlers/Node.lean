import Mathlib.Algebra.BigOperators.Group.List.Basic
import Mathlib.Algebra.Group.Int.Defs
import Mathlib.Tactic.Common
import Fecore.Handlers.Frames
import Fecore.Handlers.Sections

set_option relaxedAutoImplicit false
set_option autoImplicit false

/-!
# The node under the store

The counters, the containers, the processes and the network namespaces change in two kinds of
sections only: those of a creation of a replica, and those that delete replicas. This file has
the rule that every invariant of the node rests on: look at one deletion, and at the sections of a
creation; nothing else touches the node.

## Main definitions

* `Fecore.World.SameNode` — two stores have the same node.
* `Fecore.Thread.deletions` — every deletion of the next section meets a condition.
* `Fecore.Thread.creation`, `Fecore.Thread.creating` — the creation a goroutine is in, and a
  measure of it.

## Main results

* `Fecore.section_node` — a section outside a creation keeps what deletions keep.
* `Fecore.section_creating` — a section is one of a creation, or no creation is measured.
-/

namespace Fecore

/-- The two stores have the same configuration, counters, containers, processes and network
namespaces. -/
structure World.SameNode (w w' : World) : Prop where
  cfg : w'.cfg = w.cfg
  containerCount : w'.containerCount = w.containerCount
  wasmContainerCount : w'.wasmContainerCount = w.wasmContainerCount
  netnsList : w'.netnsList = w.netnsList
  containerd : w'.containerd = w.containerd
  wasmProcs : w'.wasmProcs = w.wasmProcs
  nativeReplicas : w'.nativeReplicas = w.nativeReplicas

/-! ### Deletions -/

/-- A condition on one deletion of a replica: the store and the namespace in which it is made, what
it meets, and the replica. -/
abbrev DeletionCond := World → Str → Answers → Replica → Bool

/-- Every deletion of the loop meets the condition, in the store in which it is made. -/
def World.eachDeletion (ok : DeletionCond) (ns : Str) (answers : Str → Answers) :
    World → List Replica → Bool
  | _, [] => true
  | w, replica :: rest =>
    let w := { w with deletedByAll := replica.uuid :: w.deletedByAll }
    ok w ns (answers replica.uuid) replica &&
      eachDeletion ok ns answers (w.deleteIn ns (answers replica.uuid) replica).1 rest

/-- Every deletion that the next section of the goroutine makes meets the condition. -/
def Thread.deletions (ok : DeletionCond) (w : World) (e : Env) : Thread → Bool
  | .request _ (.del replica) => ok w defaultFunctionNamespace (e.answers replica.uuid) replica
  | .sweep (.del _ _ _ _ replica) => ok w defaultFunctionNamespace (e.answers replica.uuid) replica
  | .sweep (.pool currTs _ _ fn) =>
    match w.heap[fn]? with
    | none => true
    | some f =>
      match (f.idleReplicas.sweep w.cfg currTs).2 with
      | .mru (some replica) =>
        ok (w.setFn fn { f with idleReplicas := { f.idleReplicas with mru := none } })
          defaultFunctionNamespace (e.answers replica.uuid) replica
      | _ => true
  | .delete req .deleteAll =>
    match w.fn? req.functionName with
    | none => true
    | some (_, f) =>
      if f.idleReplicas.count ≤ 0 then true
      else w.eachDeletion ok req.lookupNamespace e.answers f.idleReplicas.containers
  | _ => true

section Rule

variable {ok : DeletionCond} {I : World → Prop}

/-- What one deletion keeps, the loop over a list keeps.

**Proof sketch.** Induct on the replicas: the first deletion keeps it, and the loop goes on, or ends
with the fault. -/
lemma World.eachDeletion_rule (hsame : ∀ {w w' : World}, I w → w.SameNode w' → I w')
    (hdel : ∀ {w : World} (ns : Str) (a : Answers) (r : Replica), I w → ok w ns a r = true →
      I (w.deleteIn ns a r).1) (ns : Str) (answers : Str → Answers) :
    ∀ {rs : List Replica} {w : World}, w.eachDeletion ok ns answers rs = true → I w →
      I (deleteEach ns answers w rs).1
  | [], _, _, hI => hI
  | r :: rs, w, hok, hI => by
    simp only [eachDeletion, Bool.and_eq_true] at hok
    have hmark : I { w with deletedByAll := r.uuid :: w.deletedByAll } :=
      hsame hI ⟨rfl, rfl, rfl, rfl, rfl, rfl, rfl⟩
    have hfirst := hdel ns (answers r.uuid) r hmark hok.1
    unfold deleteEach
    dsimp only
    split
    · next w' heq =>
      rw [heq] at hfirst hok
      exact eachDeletion_rule hsame hdel ns answers hok.2 hfirst
    · next w' fault heq =>
      rw [heq] at hfirst
      exact hfirst

/-- The creation that a goroutine is in. -/
def Thread.creation : Thread → Option (CreateCall × CreatePc)
  | .request _ (.create fn pc) => some (fn.call, pc)
  | .spawn call pc => some (call, pc)
  | _ => none

/-- **Outside the creations only deletions touch the node.** A section that is not one of a
creation keeps every invariant of the node that one deletion keeps.

**Proof sketch.** Case split on the section. Those that delete one replica and the deletion of all
of them follow the rule for deletions (`World.eachDeletion_rule`); the others leave the node as it
is. -/
theorem section_node (hsame : ∀ {w w' : World}, I w → w.SameNode w' → I w')
    (hdel : ∀ {w : World} (ns : Str) (a : Answers) (r : Replica), I w → ok w ns a r = true →
      I (w.deleteIn ns a r).1)
    {w w' : World} {e : Env} {t t' : Thread} {new : List Thread} (hsec : Section w e t w' t' new)
    (hnone : t.creation = none) (hok : t.deletions ok w e = true) (hI : I w) : I w' := by
  have hone : ∀ {w w' : World} {a : Answers} {r : Replica} {fault : Option Fault}, I w →
      ok w defaultFunctionNamespace a r = true → w.deleteReplica a r = (w', fault) → I w' := by
    intro w w' a r fault hI hok heq
    have := hdel defaultFunctionNamespace a r hI hok
    rw [World.deleteReplica] at heq
    rwa [heq] at this
  -- the store from which the sweep has taken an expired `MRU`
  have htaken : ∀ (fn : Ref) (f : Function), I (w.setFn fn { f with
      idleReplicas := { f.idleReplicas with mru := none } }) :=
    fun _ _ => hsame hI ⟨rfl, rfl, rfl, rfl, rfl, rfl, rfl⟩
  have hall : ∀ {req : DeleteRequest} {fault : Option Fault},
      Thread.deletions ok w e (.delete req .deleteAll) = true →
      w.deleteAllReplicas req.lookupNamespace e.answers req.functionName = (w', fault) → I w' := by
    intro req fault hok heq
    simp only [Thread.deletions, World.deleteAllReplicas] at hok heq
    split at heq
    · cases heq
      exact hI
    · next hf =>
      rw [hf] at hok
      dsimp only at hok
      split at heq
      · cases heq
        exact hI
      · next hcount =>
        rw [if_neg hcount] at hok
        have := World.eachDeletion_rule hsame hdel _ _ hok hI
        rwa [heq] at this
  cases hsec with
  | request hsec =>
    cases hsec with
    | idle hf htake => exact hsame hI ⟨rfl, rfl, rfl, rfl, rfl, rfl, rfl⟩
    | create => cases hnone
    | take hf => exact hsame hI ⟨rfl, rfl, rfl, rfl, rfl, rfl, rfl⟩
    | give hf => exact hsame hI ⟨rfl, rfl, rfl, rfl, rfl, rfl, rfl⟩
    | del heq => exact hone hI hok heq
    | delFault heq => exact hone hI hok heq
    | _ => exact hI
  | spawn => cases hnone
  | sweep hsec =>
    cases hsec with
    | lock => exact hsame hI ⟨rfl, rfl, rfl, rfl, rfl, rfl, rfl⟩
    | done => exact hsame hI ⟨rfl, rfl, rfl, rfl, rfl, rfl, rfl⟩
    | lruAbsent => exact hsame hI ⟨rfl, rfl, rfl, rfl, rfl, rfl, rfl⟩
    | lru => exact hsame hI ⟨rfl, rfl, rfl, rfl, rfl, rfl, rfl⟩
    | @mru currTs began visited fn f replica _ hheap hsweep heq =>
      simp only [Thread.deletions, hheap, hsweep] at hok
      exact hone (htaken fn f) hok heq
    | @mruFault currTs began visited fn f replica _ fault hheap hsweep heq =>
      simp only [Thread.deletions, hheap, hsweep] at hok
      exact hsame (hone (htaken fn f) hok heq) ⟨rfl, rfl, rfl, rfl, rfl, rfl, rfl⟩
    | del heq => exact hone hI hok heq
    | delFault heq => exact hsame (hone hI hok heq) ⟨rfl, rfl, rfl, rfl, rfl, rfl, rfl⟩
    | _ => exact hI
  | deleteAll heq => exact hall hok heq
  | deleteAllFault heq => exact hall hok heq
  | insert hdeploy hins =>
    obtain ⟨-, rows, rfl⟩ := World.insertFunction_eq hins
    exact hsame hI ⟨rfl, rfl, rfl, rfl, rfl, rfl, rfl⟩
  | _ => first | exact hI | exact hsame hI ⟨rfl, rfl, rfl, rfl, rfl, rfl, rfl⟩

end Rule

/-! ### Creations -/

/-- A measure of the creation that a goroutine is in. -/
def Thread.creating (m : CreateCall → CreatePc → ℤ) (t : Thread) : ℤ :=
  match t.creation with
  | none => 0
  | some (call, pc) => m call pc

/-- The measure of what a section of a creation leads to. -/
def CreateResult.creating (m : CreateCall → CreatePc → ℤ) (call : CreateCall) : CreateResult → ℤ
  | .running pc => m call pc
  | _ => 0

section Creating

variable {m : CreateCall → CreatePc → ℤ}

/-- **A section is one of a creation, or no creation is measured.**

**Proof sketch.** Case split on the section, and on how a creation ends. A creation that goes on is
measured where it is, one that ends is measured no longer, and the ones that it starts are at their
first section. -/
theorem section_creating (hslot : ∀ call n, m call (.slot n) = 0) {w w' : World} {e : Env}
    {t t' : Thread} {new : List Thread} (hsec : Section w e t w' t' new) :
    (∃ call pc result, t.creation = some (call, pc) ∧ CreateSection w call e pc w' result ∧
      t'.creating m + (new.map (·.creating m)).sum = result.creating m call) ∨
    (t.creation = none ∧ t'.creating m + (new.map (·.creating m)).sum = 0) := by
  cases hsec with
  | request hsec =>
    cases hsec with
    | @create fn pc _ result hsec =>
      refine .inl ⟨_, _, result, rfl, hsec, ?_⟩
      cases result with
      | running pc' => exact add_zero _
      | returned replicaName replicaIP =>
        simp only [Thread.afterCreate, sum_spawns (h := (·.creating m)) fun call => hslot call 0]
        rfl
      | failed =>
        simp only [Thread.afterCreate]
        split <;> rfl
      | panicked fault => rfl
    | resolvedCold => exact .inr ⟨rfl, by simp [Thread.creating, Thread.creation, hslot]⟩
    | idleNone => exact .inr ⟨rfl, by simp [Thread.creating, Thread.creation, hslot]⟩
    | _ => exact .inr ⟨rfl, rfl⟩
  | @spawn call pc _ result hsec =>
    refine .inl ⟨_, _, result, rfl, hsec, ?_⟩
    cases result with
    | running pc' => exact add_zero _
    | _ => rfl
  | sweep hsec => cases hsec <;> exact .inr ⟨rfl, rfl⟩
  | _ => exact .inr ⟨rfl, rfl⟩

section Cases

variable (hslot : ∀ call n, m call (.slot n) = 0) {w w' : World} {e : Env} {t t' : Thread}
  {new : List Thread} (hsec : Section w e t w' t' new)

include hslot hsec

/-- A section of a creation. -/
lemma section_creating_of_some {call : CreateCall} {pc : CreatePc}
    (hcreation : t.creation = some (call, pc)) :
    ∃ result, CreateSection w call e pc w' result ∧
      t'.creating m + (new.map (·.creating m)).sum = result.creating m call := by
  obtain ⟨call', pc', result, hsome, hcreate, hmeasure⟩ | ⟨hnone, -⟩ := section_creating hslot hsec
  · obtain ⟨rfl, rfl⟩ : call = call' ∧ pc = pc' := by simpa [hcreation] using hsome
    exact ⟨result, hcreate, hmeasure⟩
  · rw [hcreation] at hnone
    cases hnone

/-- A section that is none of a creation. -/
lemma section_creating_of_none (hcreation : t.creation = none) :
    t'.creating m + (new.map (·.creating m)).sum = 0 := by
  obtain ⟨call, pc, result, hsome, -⟩ | ⟨-, hzero⟩ := section_creating hslot hsec
  · rw [hcreation] at hsome
    cases hsome
  · exact hzero

end Cases

/-- A request that arrives is in no creation. -/
lemma entry_creating {t : Thread} (h : t.entry = true) : t.creating m = 0 := by
  obtain ⟨req, rfl⟩ | rfl | ⟨req, rfl⟩ | ⟨req, rfl⟩ | ⟨fn, updated, rfl⟩ := entry_cases h <;> rfl

/-- Out of a creation the measure is zero. -/
lemma Thread.creating_of_none {t : Thread} (h : t.creation = none) : t.creating m = 0 := by
  simp only [Thread.creating, h]

/-- In a creation it is that of the creation. -/
lemma Thread.creating_of_some {t : Thread} {call : CreateCall} {pc : CreatePc}
    (h : t.creation = some (call, pc)) : t.creating m = m call pc := by
  simp only [Thread.creating, h]

end Creating

/-- The section that the move takes meets the condition. -/
def atNext (ok : World → Thread → Env → Bool) (c : State) : Event → Bool
  | .arrive _ => true
  | .step i e =>
    match c.threads[i]? with
    | none => true
    | some t => ok c.shared t e

/-- The condition on a move is one on the section that it takes. -/
lemma atNext_step {ok : World → Thread → Env → Bool} {c : State} {m : Event} {i : ℕ} {e : Env}
    {t : Thread} (h : atNext ok c m = true) (hm : m = .step i e) (ht : c.threads[i]? = some t) :
    ok c.shared t e = true := by
  subst hm
  simpa only [atNext, ht] using h

end Fecore
