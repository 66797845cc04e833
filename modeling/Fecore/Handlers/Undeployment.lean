import Mathlib.Tactic.Common
import Fecore.Handlers.Deletion
import Fecore.Handlers.Node
import Fecore.Handlers.Sharing

set_option relaxedAutoImplicit false
set_option autoImplicit false

/-!
# Deleting a function that is in use

A goroutine looks its function up in `deployedFunctions` again and again, and most of the look-ups
do not expect that the function has been deleted meanwhile. A deletion also leaves the replicas it
has deleted in `containers[]`, where an invocation may find them until the function is gone.

This file shows what keeps both apart: a function is dropped only when no other goroutine still
uses it, and no invocation turns to a pool that is being deleted.

## Main definitions

* `Fecore.Thread.uses` — the functions that a goroutine still relies on.
* `Fecore.Thread.Sound` — they are deployed, and the goroutine has not panicked for want of one.
* `Fecore.NoDangling` — no look-up has failed, and no invocation has a deleted replica.
* `Fecore.State.undeploysSafely` — the moves that keep it.

## Main results

* `Fecore.section_sound` — one section keeps a goroutine sound.
* `Fecore.noDangling_throughout` — nothing dangles throughout the runs whose moves undeploy safely.
-/

namespace Fecore

/-! ### What a goroutine relies on -/

/-- The function that the deletion of a replica looks up. -/
def Replica.uses (r : Replica) : List Str := if r.ctrType = native then [] else [r.fname]

/-- The functions that a creation still looks up, and relies on. -/
def CreatePc.uses (call : CreateCall) : CreatePc → List Str
  | .build fnName _ => [fnName]
  | .storage _ _ => [call.fname]
  | .net _ => [call.fname]
  | .start _ _ => [call.fname]
  | .add replica => [replica.fname]
  | _ => []

/-- The functions that an invocation still looks up, and relies on. -/
def RequestPc.uses (functionName : Str) : RequestPc → List Str
  -- the first look-up is checked
  | .resolve => []
  | .policy fn => [functionName, fn.name]
  | .idle fn => [functionName, fn.pool]
  | .create fn pc => functionName :: pc.uses fn.call
  | .build _ _ => [functionName]
  | .exec _ _ => [functionName]
  | .labels _ _ => [functionName]
  | .take effectiveFname _ => [functionName, effectiveFname]
  | .look _ (some replica) => [functionName, replica.fname]
  | .look _ none => [functionName]
  | .give replica => [replica.fname]
  | .del replica => replica.uses

/-- The functions that a goroutine still looks up, and relies on. -/
def Thread.uses (w : World) : Thread → List Str
  | .request req pc => pc.uses req.functionName
  | .spawn call pc => pc.uses call
  | .sweep (.pool _ _ _ fn) => (w.heap[fn]?.map (·.name)).toList
  | .sweep (.del _ _ _ fn replica) => (w.heap[fn]?.map (·.name)).toList ++ replica.uses
  | .delete req .deleteAll => [req.functionName]
  | .delete req .read => [req.functionName]
  | .updatePolicy fn _ => [fn]
  | _ => []

/-- **The goroutine is sound**: the functions it relies on are deployed, its pointers do not dangle,
and it has not panicked because a function was absent. -/
structure Thread.Sound (w : World) (t : Thread) : Prop where
  uses : ∀ n ∈ t.uses w, (w.fn? n).isSome
  pointer : ∀ fn, t.pointer = some fn → fn < w.heap.length
  rows : ∀ req fn, t = .delete req (.rows fn) → ∃ o, fn = some o ∧ o < w.heap.length
  noFault : t ≠ .panicked .absentFunction

/-- The objects of the heap keep their names. -/
structure World.KeepsNames (w w' : World) : Prop where
  length : w.heap.length ≤ w'.heap.length
  names : ∀ o, o < w.heap.length → (w'.heap[o]?).map Function.name = (w.heap[o]?).map Function.name

/-- What keeps the names in the map keeps those of the objects. -/
lemma World.SameNames.keepsNames {w w' : World} (h : SameNames w w') : w.KeepsNames w' where
  length := by
    by_contra hlt
    have hname := h.names w'.heap.length
    rw [List.getElem?_eq_none le_rfl, List.getElem?_eq_getElem (by omega)] at hname
    cases hname
  names o _ := h.names o

/-- What leaves the objects alone keeps their names. -/
lemma World.keepsNames_of_heap {w w' : World} (h : w'.heap = w.heap) : w.KeepsNames w' :=
  ⟨by rw [h], fun o _ => by rw [h]⟩

/-- A new object leaves the others their names. -/
lemma World.keepsNames_putFunction (w : World) (f : Function) : w.KeepsNames (w.putFunction f) where
  length := by simp [World.putFunction]
  names o ho := by rw [World.putFunction, List.getElem?_append_left ho]

/-- A goroutine stays sound when the functions it relies on stay deployed.

**Proof sketch.** What a goroutine relies on are names, and the name of the object that a sweep
points to has not changed. -/
lemma Thread.Sound.keep {w w' : World} {t : Thread} (h : t.Sound w) (hnames : w.KeepsNames w')
    (huses : ∀ n ∈ t.uses w, (w'.fn? n).isSome) : t.Sound w' where
  uses := by
    -- a sweep relies on the function its pointer leads to, under the same name as before
    have heap : ∀ fn, t.pointer = some fn →
        (w'.heap[fn]?).map Function.name = (w.heap[fn]?).map Function.name :=
      fun fn hfn => hnames.names fn (h.pointer fn hfn)
    have hsame : t.uses w' = t.uses w := by
      cases t with
      | sweep pc =>
        cases pc with
        | pool currTs began visited fn => simp only [Thread.uses, heap fn rfl]
        | del currTs began visited fn replica => simp only [Thread.uses, heap fn rfl]
        | _ => rfl
      | delete req pc => cases pc <;> rfl
      | _ => rfl
    rw [hsame]
    exact huses
  pointer fn hfn := (h.pointer fn hfn).trans_le hnames.length
  rows req fn ht := by
    obtain ⟨o, ho, hlt⟩ := h.rows req fn ht
    exact ⟨o, ho, hlt.trans_le hnames.length⟩
  noFault := h.noFault

/-- A goroutine without a pointer is sound when the functions it relies on are deployed. -/
lemma Thread.sound_of_uses {w : World} {t : Thread} (hp : t.pointer = none)
    (hr : ∀ req fn, t ≠ .delete req (.rows fn)) (hf : t ≠ .panicked .absentFunction)
    (h : ∀ n ∈ t.uses w, (w.fn? n).isSome) : t.Sound w where
  uses := h
  pointer fn hfn := by
    rw [hp] at hfn
    cases hfn
  rows req fn ht := absurd ht (hr req fn)
  noFault := hf

/-- A goroutine that relies on nothing is sound. -/
lemma Thread.sound_of_uses_eq_nil {w : World} {t : Thread} (hp : t.pointer = none)
    (hr : ∀ req fn, t ≠ .delete req (.rows fn)) (hf : t ≠ .panicked .absentFunction)
    (h : t.uses w = []) : t.Sound w :=
  Thread.sound_of_uses hp hr hf fun n hn => by
    rw [h] at hn
    cases hn

/-- A goroutine at its end is sound. -/
lemma Thread.sound_returned (w : World) : Thread.returned.Sound w :=
  Thread.sound_of_uses_eq_nil rfl (fun _ _ => by simp) (by simp) rfl

/-! ### One section -/

/-- Functions stay deployed, but for the one that a delete request drops.

**Proof sketch.** Case split on the section. Only the last one of a deletion takes a function from
the map, and objects keep their names. -/
lemma section_deployed {w w' : World} {e : Env} {t t' : Thread} {new : List Thread}
    (hsec : Section w e t w' t' new) (hw : w.WellFormed) :
    w.KeepsNames w' ∧ ∀ n, (w.fn? n).isSome →
      (∀ req, t = .delete req .unmap → n ≠ req.functionName) → (w'.fn? n).isSome := by
  have hsame : ∀ {w' : World}, World.SameNames w w' → w.KeepsNames w' ∧ ∀ n, (w.fn? n).isSome →
      (∀ req, t = .delete req .unmap → n ≠ req.functionName) → (w'.fn? n).isSome :=
    fun h => ⟨h.keepsNames, fun n hn _ => h.isSome hn⟩
  cases hsec with
  | request hsec => exact hsame (requestSection_sameNames hsec)
  | spawn hsec => exact hsame (createSection_sameNames hsec)
  | sweep hsec => exact hsame (sweepSection_sameNames hsec)
  | deleteAll hall => exact hsame (.of_sameStore (World.sameStore_of_deleteAllReplicas hall))
  | deleteAllFault hall => exact hsame (.of_sameStore (World.sameStore_of_deleteAllReplicas hall))
  | rowsAbsent => exact ⟨World.keepsNames_of_heap rfl, fun n hn _ => hn⟩
  | rows => exact ⟨World.keepsNames_of_heap rfl, fun n hn _ => hn⟩
  | @unmap req =>
    refine ⟨World.keepsNames_of_heap rfl, fun n hn hne => ?_⟩
    rw [World.fn?_dropFunction, if_neg (hne req rfl)]
    exact hn
  | insert hdeploy hins =>
    obtain ⟨-, rows, rfl⟩ := World.insertFunction_eq hins
    exact ⟨World.keepsNames_of_heap rfl, fun n hn _ => hn⟩
  | @map fn =>
    refine ⟨w.keepsNames_putFunction fn, fun n hn _ => ?_⟩
    rw [World.fn?_putFunction hw.valid]
    split
    · rfl
    · exact hn
  | stats => exact ⟨World.keepsNames_of_heap rfl, fun n hn _ => hn⟩
  | policy hf => exact hsame (.setFn (World.heap_of_fn? hf) rfl)
  | _ => exact hsame (.refl w)

/-- What a section of a creation leads to relies on deployed functions, and has not panicked for
want of one.

**Proof sketch.** The last section finds its function, since the creation relies on it. A creation
relies on the function that it has looked up, which is deployed. -/
lemma createSection_sound {w w' : World} {call : CreateCall} {e : Env} {pc : CreatePc}
    {result : CreateResult} (hsec : CreateSection w call e pc w' result) (hw : w.WellFormed)
    (huses : ∀ n ∈ pc.uses call, (w.fn? n).isSome) :
    result ≠ .panicked .absentFunction ∧
      ∀ pc', result = .running pc' → ∀ n ∈ pc'.uses call, (w'.fn? n).isSome := by
  have hsame := createSection_sameNames hsec
  refine ⟨?_, ?_⟩
  · rintro rfl
    cases hsec with
    | addAbsent hf =>
      have := huses _ List.mem_cons_self
      rw [hf] at this
      cases this
  · rintro pc' rfl n hn
    refine hsame.isSome ?_
    cases hsec with
    | @nativeLookup o f hct hf =>
      obtain rfl : n = f.name := by simpa [CreatePc.uses] using hn
      rw [(hw.function hf).2, hf]
      rfl
    | wasmLookup hct hf =>
      obtain rfl : n = call.fname := by simpa [CreatePc.uses] using hn
      rw [hf]
      rfl
    | built => exact huses n hn
    | storage => exact huses n hn
    | net => exact huses n hn
    | started => exact huses n hn
    | _ => cases hn

/-- The functions that the section of an invocation picks are deployed (the one of its path when the
first look-up finds the one without the namespace, and the sandbox of a hybrid function), and a
delete request does not fail in the storage. -/
def Thread.picksDeployed (w : World) (t : Thread) (e : Env) : Bool :=
  match t with
  | .request req .resolve =>
    (w.fn? (actualFunctionName req.functionName)).all fun _ => (w.fn? req.functionName).isSome
  | .request _ (.policy fn) =>
    (w.fn? fn.name).all fun of => (w.fn? { fn with policy := of.2.policy }.pool).isSome
  | .request req (.labels _ replicaName) =>
    (w.fn? req.functionName).all fun of =>
      (w.fn? (of.2.effectiveFname req.functionName replicaName)).isSome
  | .delete _ (.rows _) => !e.err
  | _ => true

/-- The deletion of a replica does not panic while the function that it looks up is deployed. -/
lemma deleteReplica_noFault {w w' : World} {a : Answers} {r : Replica} {fault : Option Fault}
    (huses : ∀ n ∈ r.uses, (w.fn? n).isSome) (h : w.deleteReplica a r = (w', fault)) :
    fault = none := by
  rw [World.deleteReplica] at h
  by_cases hnat : r.ctrType = native
  · rw [World.deleteIn_native hnat] at h
    exact (Prod.mk.inj h).2.symm
  · have hf : (w.fn? r.fname).isSome := huses r.fname (by simp [Replica.uses, hnat])
    have hnone := World.deleteIn_noFault hf defaultFunctionNamespace a
    rw [h] at hnone
    exact hnone

/-- An invocation does not panic for want of a function, and relies on deployed functions.

**Proof sketch.** Case split on the section. Each look-up finds its function by what the invocation
relies on, and what it goes on with relies on the function of the request and on the one that
serves, which is deployed by the condition. -/
lemma requestSection_sound {w w' : World} {req : Request} {e : Env} {pc : RequestPc} {t' : Thread}
    {new : List Thread} (hsec : RequestSection w req e pc w' t' new) (hw : w.WellFormed)
    (hok : (Thread.request req pc).picksDeployed w e = true)
    (huses : ∀ n ∈ pc.uses req.functionName, (w.fn? n).isSome) : t'.Sound w' := by
  have hsame := requestSection_sameNames hsec
  -- an invocation that relies on functions deployed before the section
  have hgo : ∀ pc' : RequestPc, (∀ n ∈ pc'.uses req.functionName, (w.fn? n).isSome) →
      (Thread.request req pc').Sound w' := fun pc' h =>
    Thread.sound_of_uses rfl (fun _ _ => by simp) (by simp) fun n hn => hsame.isSome (h n hn)
  -- one that relies on the function of the request and on another one
  have hpair : ∀ (pc' : RequestPc) (n' : Str),
      pc'.uses req.functionName = [req.functionName, n'] → (w.fn? req.functionName).isSome →
        (w.fn? n').isSome → (Thread.request req pc').Sound w' := by
    intro pc' n' heq hraw hn'
    refine hgo pc' fun n hn => ?_
    rw [heq] at hn
    rcases List.mem_cons.mp hn with rfl | hn
    · exact hraw
    · rw [List.mem_singleton.mp hn]
      exact hn'
  have hret := Thread.sound_returned w'
  have hfault : ∀ fault, fault ≠ Fault.absentFunction → (Thread.panicked fault).Sound w' :=
    fun fault hne => Thread.sound_of_uses_eq_nil rfl (fun _ _ => by simp) (by simpa using hne) rfl
  -- the first look-up finds a function whose name in the path is deployed, too
  have hfound : ∀ {of : Ref × Function}, w.fn? (actualFunctionName req.functionName) = some of →
      pc = .resolve → (w.fn? req.functionName).isSome := by
    rintro of hf rfl
    simpa [Thread.picksDeployed, hf] using hok
  -- a look-up of a function the invocation relies on does not fail
  have habsent : ∀ {n : Str}, n ∈ pc.uses req.functionName → w.fn? n = none → t'.Sound w' := by
    intro n hn hf
    have := huses n hn
    rw [hf] at this
    cases this
  cases hsec with
  | unresolved => exact hret
  | @resolvedHybrid o f fn hf hname hct =>
    refine hpair _ _ rfl (hfound hf rfl) ?_
    rw [hname, (hw.function hf).2, hf]
    rfl
  | resolvedCold hf hname hct =>
    refine hgo _ fun n hn => ?_
    obtain rfl : n = req.functionName := by simpa [RequestPc.uses, CreatePc.uses] using hn
    exact hfound hf rfl
  | @resolved o f fn hf hname hct =>
    refine hpair _ _ rfl (hfound hf rfl) ?_
    rw [Resolving.pool, if_neg hct, hname, (hw.function hf).2, hf]
    rfl
  | policyAbsent hf => exact habsent (by simp [RequestPc.uses]) hf
  | policy hf =>
    refine hpair _ _ rfl (huses _ List.mem_cons_self) ?_
    simpa [Thread.picksDeployed, hf] using hok
  | idleAbsent hf => exact habsent (by simp [RequestPc.uses]) hf
  | idleNone hf htake =>
    refine hgo _ fun n hn => huses n ?_
    simp only [RequestPc.uses, CreatePc.uses, List.mem_singleton] at hn
    simp [RequestPc.uses, hn]
  | idle hf htake =>
    refine hgo _ fun n hn => huses n ?_
    simp only [RequestPc.uses, List.mem_singleton] at hn
    simp [RequestPc.uses, hn]
  | @create fn pc _ result hsec =>
    obtain ⟨hres, hrun⟩ := createSection_sound hsec hw
      fun n hn => huses n (List.mem_cons_of_mem _ hn)
    have hraw : (w.fn? req.functionName).isSome := huses _ List.mem_cons_self
    have hbuild : ∀ replicaName,
        (Thread.request req (.build fn.containerType replicaName)).Sound w' :=
      fun _ => hgo _ fun n hn => by
        obtain rfl := List.mem_singleton.mp hn
        exact hraw
    cases result with
    | running pc' =>
      refine Thread.sound_of_uses rfl (fun _ _ => by simp [Thread.afterCreate])
        (by simp [Thread.afterCreate]) fun n hn => ?_
      rcases List.mem_cons.mp hn with rfl | hn
      · exact hsame.isSome hraw
      · exact hrun pc' rfl n hn
    | returned replicaName replicaIP => exact hbuild _
    | failed =>
      simp only [Thread.afterCreate]
      split
      · exact hbuild _
      · exact hret
    | panicked fault => exact hfault fault fun heq => hres (by rw [heq])
  | buildFailed => exact hret
  | build => exact hgo _ huses
  | execNil => exact hfault _ (by decide)
  | execBad => exact hret
  | exec => exact hgo _ huses
  | labelsIndex => exact hfault _ (by decide)
  | labelsAbsent hf => exact habsent List.mem_cons_self hf
  | labels hf =>
    refine hpair _ _ rfl (huses _ List.mem_cons_self) ?_
    simpa [Thread.picksDeployed, hf] using hok
  | takeAbsent hf => exact habsent (by simp [RequestPc.uses]) hf
  | @take effectiveFname replicaName o f hf =>
    refine hgo _ fun n hn => ?_
    cases hr : f.activeReplicas.lookup replicaName with
    | none =>
      rw [hr] at hn
      obtain rfl := List.mem_singleton.mp hn
      exact huses _ List.mem_cons_self
    | some r =>
      rw [hr] at hn
      rcases List.mem_cons.mp hn with rfl | hn
      · exact huses _ List.mem_cons_self
      · obtain rfl := List.mem_singleton.mp hn
        obtain ⟨hwf, hname⟩ := hw.function hf
        rw [(hwf.active _ _ hr).2.1, hname, hf]
        rfl
  | lookAbsent hf =>
    refine habsent ?_ hf
    unfold RequestPc.uses
    split <;> simp_all
  | lookNil => exact hfault _ (by decide)
  | lookDel hf =>
    refine hgo _ fun n hn => huses n ?_
    simp only [RequestPc.uses, Replica.uses] at hn
    split at hn
    · cases hn
    · exact List.mem_cons_of_mem _ hn
  | lookGive hf => exact hgo _ fun n hn => huses n (List.mem_cons_of_mem _ hn)
  | giveAbsent hf => exact habsent List.mem_cons_self hf
  | give => exact hret
  | del => exact hret
  | delFault hdel => exact absurd (deleteReplica_noFault huses hdel) (by simp)

/-- A sweep does not panic for want of a function, and relies on deployed functions.

**Proof sketch.** Case split on the section. The pointer of a sweep leads to an object that is
deployed under its name, and the names stay. -/
lemma sweepSection_sound {w w' : World} {e : Env} {pc : SweepPc} {t' : Thread}
    (hsec : SweepSection w e pc w' t') (hw : w.WellFormed) (ht : (Thread.sweep pc).Sound w) :
    t'.Sound w' := by
  have hsame := sweepSection_sameNames hsec
  have hret := Thread.sound_returned w'
  have hrange : ∀ currTs began visited,
      (Thread.sweep (.range currTs began visited)).Sound w' := fun _ _ _ =>
    Thread.sound_of_uses_eq_nil rfl (fun _ _ => by simp) (by simp) rfl
  -- a sweep that goes on with the function of its pointer
  have hgo : ∀ pc' : SweepPc, (Thread.sweep pc').pointer = (Thread.sweep pc).pointer →
      (∀ n ∈ (Thread.sweep pc').uses w, (w.fn? n).isSome) → (Thread.sweep pc').Sound w' := by
    intro pc' hp huses
    refine Thread.Sound.keep ⟨huses, fun fn hfn => ht.pointer fn (hp ▸ hfn), ?_, by simp⟩
      hsame.keepsNames fun n hn => hsame.isSome (huses n hn)
    intro req fn heq
    cases heq
  cases hsec with
  | locked => exact hret
  | lock => exact hrange _ _ _
  | @visit currTs began visited name fn hlookup =>
    obtain ⟨f, hheap, hf⟩ := hw.current hlookup
    refine ⟨fun n hn => ?_, fun fn' hfn => ?_, fun req fn' heq => (by cases heq), by simp⟩
    · obtain rfl : n = f.name := by simpa [Thread.uses, hheap, eq_comm] using hn
      rw [hf]
      rfl
    · obtain rfl := Option.some.inj hfn
      exact (List.getElem?_eq_some_iff.mp hheap).1
  | done => exact hret
  | @lruAbsent currTs began visited fn f hheap hf =>
    have := ht.uses f.name (by simp [Thread.uses, hheap])
    rw [hf] at this
    cases this
  | @lru currTs began visited fn o f f' replica hheap hsweep hf =>
    refine hgo _ rfl fun n hn => ?_
    have hname : replica.fname = f.name :=
      ((hw.functions f (List.mem_of_getElem? hheap)).stored replica (by
        rw [IdleReplicas.stored_of_sweep_lru hsweep]
        exact List.mem_cons_self)).2
    obtain rfl : n = f.name := by
      simp only [Thread.uses, hheap, Option.map_some, Option.toList_some, List.mem_append,
        List.mem_singleton, Replica.uses] at hn
      rcases hn with rfl | hn
      · rfl
      · split at hn
        · cases hn
        · rw [List.mem_singleton.mp hn, hname]
    rw [hf]
    rfl
  | mru => exact hrange _ _ _
  | @mruFault currTs began visited fn f replica w₁ fault hheap hsweep hdel =>
    have hname : replica.fname = f.name :=
      ((hw.functions f (List.mem_of_getElem? hheap)).stored replica (by
        rw [IdleReplicas.stored_of_sweep_mru hsweep]
        simp)).2
    have hf : (w.fn? f.name).isSome := ht.uses f.name (by simp [Thread.uses, hheap])
    refine absurd (deleteReplica_noFault (fun n hn => ?_) hdel) (by simp)
    unfold Replica.uses at hn
    split at hn
    · cases hn
    · obtain rfl := List.mem_singleton.mp hn
      rw [World.fn?_setFn_isSome, hname]
      exact hf
  | fresh => exact hrange _ _ _
  | del => exact hgo _ rfl fun n hn => ht.uses n (List.mem_append_left _ hn)
  | delFault hdel =>
    have huses := fun n hn => ht.uses n (List.mem_append_right _ hn)
    exact absurd (deleteReplica_noFault huses hdel) (by simp)

/-- **One section keeps a goroutine sound**, when the sandbox it picks is deployed.

**Proof sketch.** By cases on the section: the functions that the next section looks up have been
looked up by this one, or are those on which the goroutine relied before. -/
theorem section_sound {w w' : World} {e : Env} {t t' : Thread} {new : List Thread}
    (hsec : Section w e t w' t' new) (hw : w.WellFormed) (hok : t.picksDeployed w e = true)
    (ht : t.Sound w) : t'.Sound w' := by
  have hret := Thread.sound_returned w'
  have habsent : ∀ {n : Str}, n ∈ t.uses w → w.fn? n = none → t'.Sound w' := by
    intro n hn hf
    have := ht.uses n hn
    rw [hf] at this
    cases this
  cases hsec with
  | request hsec => exact requestSection_sound hsec hw hok ht.uses
  | @spawn call pc _ result hsec =>
    obtain ⟨hres, hrun⟩ := createSection_sound hsec hw ht.uses
    cases result with
    | running pc' =>
      exact Thread.sound_of_uses rfl (fun _ _ => by simp [Thread.afterSpawn])
        (by simp [Thread.afterSpawn]) (hrun pc' rfl)
    | returned => exact hret
    | failed => exact hret
    | panicked fault =>
      exact Thread.sound_of_uses_eq_nil rfl (fun _ _ => by simp [Thread.afterSpawn])
        (by simpa [Thread.afterSpawn] using hres) rfl
  | sweep hsec => exact sweepSection_sound hsec hw ht
  | @deleteAll req _ hall =>
    refine Thread.sound_of_uses rfl (fun _ _ => by simp) (by simp) fun n hn => ?_
    rw [(World.sameStore_of_deleteAllReplicas hall).fn?]
    exact ht.uses n hn
  | @deleteAllFault req _ fault hall =>
    obtain ⟨⟨o, f⟩, hf⟩ := Option.isSome_iff_exists.mp (ht.uses _ List.mem_cons_self)
    obtain ⟨w₁, hnone, -⟩ := deleteAllReplicas_spec hw hf req.lookupNamespace e.answers
    rw [hnone] at hall
    cases hall
  | @read req =>
    refine ⟨fun n hn => absurd hn List.not_mem_nil, fun fn hfn => (by cases hfn), ?_, by simp⟩
    rintro req' fn ⟨rfl⟩
    obtain ⟨⟨o, f⟩, hf⟩ := Option.isSome_iff_exists.mp (ht.uses _ List.mem_cons_self)
    have hlookup := (World.fn?_eq_some.mp hf).1
    exact ⟨o, hlookup, hw.valid _ o hlookup⟩
  | rowsFailed => exact hret
  | @rowsAbsent req fn herr hf =>
    obtain ⟨o, rfl, hlt⟩ := ht.rows req fn rfl
    rw [Option.bind_some, List.getElem?_eq_getElem hlt] at hf
    cases hf
  | rows => exact Thread.sound_of_uses_eq_nil rfl (fun _ _ => by simp) (by simp) rfl
  | unmap => exact hret
  | refused => exact hret
  | insert => exact Thread.sound_of_uses_eq_nil rfl (fun _ _ => by simp) (by simp) rfl
  | map => exact Thread.sound_of_uses_eq_nil rfl (fun _ _ => by simp) (by simp) rfl
  | stats => exact hret
  | policyAbsent hf => exact habsent List.mem_cons_self hf
  | policy => exact hret

/-! ### Replicas that may still be handed out -/

/-- How often the name is unborn or active. -/
def World.hot (u : Str) (w : World) : ℤ := w.unborn u + w.active u

/-- The places of a name outside the idle pools: it is hot when it is unborn, active, or in the
hands of a goroutine that creates or releases it. -/
def State.hot (u : Str) (c : State) : ℤ := c.ledger (World.hot u) (Thread.places false u)

/-- How often the name is idle. -/
def World.idle (u : Str) (w : World) : ℤ := (w.heap.map fun f => (f.idleCount u : ℤ)).sum

/-- An update of a function changes what is hot by what it changes among the active ones. -/
lemma World.hot_setFn {w : World} {o : Ref} {f : Function} (ho : w.heap[o]? = some f)
    (f' : Function) (u : Str) :
    (w.setFn o f').hot u + f.activeCount u = w.hot u + f'.activeCount u := by
  have h := World.active_setFn ho f' u
  have hrest : (w.setFn o f').hot u = w.unborn u + (w.setFn o f').active u := rfl
  rw [hrest, World.hot]
  omega

/-- What is hot is read off the objects and the names that have been given. -/
lemma World.hot_congr {w w' : World} (hheap : w'.heap = w.heap) (hcreated : w'.created = w.created)
    (u : Str) : w'.hot u = w.hot u := by
  simp only [World.hot, World.unborn, World.active, hheap, hcreated]

/-- What the functions have is idle or active. -/
lemma World.held_eq (w : World) (u : Str) : w.held u = w.idle u + w.active u := by
  simp only [World.held, World.idle, World.active, ← List.sum_map_add]
  rfl

/-- The ledger of a name is what is hot and what is idle. -/
lemma State.places_eq (c : State) (u : Str) : c.places false u = c.hot u + c.shared.idle u := by
  have h := c.shared.held_eq u
  simp only [State.places, State.hot, Interleaving.Config.ledger, World.places, World.hot,
    Bool.false_eq_true, if_false]
  omega

/-- A replica that becomes active is active once more at most. -/
lemma Function.activeCount_insert_le (f : Function) (r : Replica) (u : Str) :
    ({ f with activeReplicas := f.activeReplicas.insert r.uuid r }.activeCount u : ℤ) ≤
      f.activeCount u + one (some r.uuid) u := by
  have h := f.places_insertActive_le u r
  have hidle : { f with activeReplicas := f.activeReplicas.insert r.uuid r }.idleCount u =
    f.idleCount u := rfl
  simp only [Function.places, hidle] at h
  omega

/-- A token that is made from a fresh name is no longer unborn. -/
lemma World.hot_born {w w' : World} {name u : Str} (hfresh : name ∉ w.created)
    (hcreated : w'.created = name :: w.created) (hheap : w'.heap = w.heap) :
    w'.hot u + one (some name) u = w.hot u := by
  have hborn := World.unborn_cons hfresh u
  have hunborn : w'.unborn u = if u ∈ name :: w.created then 0 else 1 := by
    rw [World.unborn, hcreated]
  simp only [World.hot, hunborn, World.active_congr hheap]
  omega

/-- A creation makes a name hot only by taking it from those unborn.

**Proof sketch.** Case split on the section. A name that is taken is unborn before
(`World.hot_born`); the replica goes from the hands of the creation to the active ones, or to the
idle ones, where it is hot no longer. -/
lemma createSection_hot_le {w w' : World} {call : CreateCall} {e : Env} {pc : CreatePc}
    {result : CreateResult} (hsec : CreateSection w call e pc w' result) (u : Str) :
    w'.hot u + one result.carried u ≤ w.hot u + one pc.carried u := by
  have hlook : ∀ name : Option Str, w.hot u + 0 ≤ w.hot u + one name u :=
    fun name => add_le_add_right (one_nonneg name u) _
  cases hsec with
  | wasmLookup hct hf hfresh =>
    exact le_trans (le_of_eq (World.hot_born hfresh rfl rfl))
      (le_add_of_nonneg_right (one_nonneg _ _))
  | @buildFailed fnName _ _ hfresh =>
    have hone := one_nonneg (some (nativeName fnName e.uuid)) u
    refine add_le_add_left (le_of_add_le_of_nonneg_left (le_of_eq ?_) hone) _
    exact World.hot_born hfresh rfl rfl
  | built _ hfresh =>
    exact le_trans (le_of_eq (World.hot_born hfresh rfl rfl))
      (le_add_of_nonneg_right (one_nonneg _ _))
  | noStorage => exact hlook _
  | noNet => exact hlook _
  | startFailed => exact hlook _
  | @addActive replica o f n hact hf hstats =>
    have hset := World.hot_setFn (World.heap_of_fn? hf) { f with
      activeReplicas := f.activeReplicas.insert replica.uuid replica } u
    have hins := f.activeCount_insert_le replica u
    have hrest : World.hot u { w.setFn o { f with
        activeReplicas := f.activeReplicas.insert replica.uuid replica } with
          functionStats := w.functionStats.insert replica.fname (n + 1) } =
        (w.setFn o { f with
          activeReplicas := f.activeReplicas.insert replica.uuid replica }).hot u := rfl
    simp only [hrest, CreateResult.carried, CreatePc.carried, one_none]
    omega
  | @noStats replica o f hact hf =>
    have hset := World.hot_setFn (World.heap_of_fn? hf) { f with
      activeReplicas := f.activeReplicas.insert replica.uuid replica } u
    have hins := f.activeCount_insert_le replica u
    simp only [CreateResult.carried, CreatePc.carried, one_none]
    omega
  | @addIdle replica o f hact hf =>
    have hset := World.hot_setFn (World.heap_of_fn? hf) { f with
      idleReplicas := f.idleReplicas.add replica e.now } u
    have hsame : { f with idleReplicas := f.idleReplicas.add replica e.now }.activeCount u =
      f.activeCount u := rfl
    have hone := one_nonneg (some replica.uuid) u
    simp only [CreateResult.carried, CreatePc.carried, one_none]
    omega
  | addAbsent => exact hlook _
  | _ => exact le_rfl

/-- The replica that the section takes from an idle pool is not the one. -/
def Thread.takesOther (u : Str) (w : World) (t : Thread) : Prop :=
  ∀ req fn o f r f', t = .request req (.idle fn) → w.fn? fn.pool = some (o, f) →
    f.takeIdle = some (r, f') → r.uuid ≠ u

/-- An invocation makes a name hot only by taking it from a pool.

**Proof sketch.** Case split on the section. An idle replica that is taken is another one by the
condition; the release moves the replica from the active ones to the hands of the invocation, and
from there to the pool. -/
lemma requestSection_hot_le {w w' : World} {req : Request} {e : Env} {pc : RequestPc} {t' : Thread}
    {new : List Thread} (hsec : RequestSection w req e pc w' t' new) {u : Str}
    (hother : (Thread.request req pc).takesOther u w) :
    w'.hot u + (t'.places false u + (new.map (·.places false u)).sum) ≤
      w.hot u + one pc.carried u := by
  have hlook : ∀ name : Option Str, w.hot u + (0 + 0) ≤ w.hot u + one name u :=
    fun name => add_le_add_right (by have := one_nonneg name u; omega) _
  cases hsec with
  | @idle fn o f f' replica hf htake =>
    have hset := World.hot_setFn (World.heap_of_fn? hf) f' u
    have hins := f.activeCount_insert_le replica u
    have hact : f'.activeCount u = { f with
        activeReplicas := f.activeReplicas.insert replica.uuid replica }.activeCount u := by
      simp only [Function.activeCount, (Function.takeIdle_spec htake).2.1]
    have hzero : one (some replica.uuid) u = 0 :=
      if_neg fun heq => hother _ _ _ _ _ _ rfl hf htake (Option.some.inj heq)
    simp only [Thread.places, RequestPc.carried, one_none, List.map_nil, List.sum_nil]
    omega
  | create hsec =>
    rw [afterCreate_places]
    exact createSection_hot_le hsec u
  | @take _ replicaName o f hf =>
    have hset := World.hot_setFn (World.heap_of_fn? hf) { f with
      activeReplicas := f.activeReplicas.erase replicaName } u
    have herase := Function.places_eraseActive (f := f) u replicaName
    have hidle : { f with activeReplicas := f.activeReplicas.erase replicaName }.idleCount u =
      f.idleCount u := rfl
    simp only [Function.places, hidle] at herase
    cases hr : f.activeReplicas.lookup replicaName <;>
      simp only [hr, Option.map_none, Option.map_some, one_none, Thread.places,
        RequestPc.carried, List.map_nil, List.sum_nil] at herase ⊢ <;>
      omega
  | lookDel => exact le_of_eq (by simp [Thread.places, RequestPc.carried])
  | lookGive => exact le_of_eq (by simp [Thread.places, RequestPc.carried])
  | @give replica o f hf =>
    have hset := World.hot_setFn (World.heap_of_fn? hf) { f with
      idleReplicas := f.idleReplicas.add replica e.now } u
    have hsame : { f with idleReplicas := f.idleReplicas.add replica e.now }.activeCount u =
      f.activeCount u := rfl
    have hone := one_nonneg (some replica.uuid) u
    simp only [Thread.places, RequestPc.carried, List.map_nil, List.sum_nil]
    omega
  | del hdel =>
    have hsame := World.sameStore_of_deleteReplica hdel
    rw [World.hot_congr hsame.heap hsame.created]
    exact hlook _
  | delFault hdel =>
    have hsame := World.sameStore_of_deleteReplica hdel
    rw [World.hot_congr hsame.heap hsame.created]
    exact hlook _
  | _ => exact hlook _

/-- A sweep leaves the names alone that are hot. -/
lemma sweepSection_hot {w w' : World} {e : Env} {pc : SweepPc} {t' : Thread}
    (hsec : SweepSection w e pc w' t') (u : Str) :
    w'.hot u = w.hot u ∧ t'.places false u = 0 := by
  have hact := (sweepSection_active hsec u).1
  have hcreated : w'.created = w.created := by
    cases hsec with
    | mru hheap hsweep hdel => exact (World.sameStore_of_deleteReplica hdel).created
    | mruFault hheap hsweep hdel => exact (World.sameStore_of_deleteReplica hdel).created
    | del hdel => exact (World.sameStore_of_deleteReplica hdel).created
    | delFault hdel => exact (World.sameStore_of_deleteReplica hdel).created
    | _ => rfl
  refine ⟨by simp only [World.hot, World.unborn, hact, hcreated], ?_⟩
  cases hsec <;> rfl

/-- **One section makes a name hot only by taking it from an idle pool.**

**Proof sketch.** Case split on the section. Invocations and creations move the name between hot
places (`requestSection_hot_le`, `createSection_hot_le`); sweeps and deletions leave them alone, and
a deployment brings a function without replicas. -/
lemma section_hot_le {w w' : World} {e : Env} {t t' : Thread} {new : List Thread}
    (hsec : Section w e t w' t' new) {u : Str} (hother : t.takesOther u w) :
    w'.hot u + t'.places false u + (new.map (·.places false u)).sum ≤
      w.hot u + t.places false u := by
  rw [add_assoc]
  cases hsec with
  | request hsec => exact requestSection_hot_le hsec hother
  | @spawn call pc _ result hsec =>
    have h := createSection_hot_le hsec u
    cases result <;> simpa [Thread.afterSpawn, Thread.places, CreateResult.carried] using h
  | sweep hsec =>
    obtain ⟨hhot, hplaces⟩ := sweepSection_hot hsec u
    rw [hhot, hplaces]
    exact le_rfl
  | deleteAll hall =>
    have hsame := World.sameStore_of_deleteAllReplicas hall
    rw [World.hot_congr hsame.heap hsame.created]
    exact le_rfl
  | deleteAllFault hall =>
    have hsame := World.sameStore_of_deleteAllReplicas hall
    rw [World.hot_congr hsame.heap hsame.created]
    exact le_rfl
  | insert hdeploy hins =>
    obtain ⟨-, rows, rfl⟩ := World.insertFunction_eq hins
    obtain ⟨-, hidle, hact⟩ := deploy_empty hdeploy
    refine le_of_eq ?_
    simp [Thread.places, Function.places, Function.idleCount, Function.activeCount, hidle, hact,
      IdleReplicas.stored, World.hot, World.unborn, World.active]
  | @map fn =>
    have hunborn : (w.putFunction fn).unborn u = w.unborn u := rfl
    have hact : (w.putFunction fn).active u = w.active u + fn.activeCount u := by
      simp [World.active, World.putFunction]
    have hput : (w.putFunction fn).hot u = w.hot u + fn.activeCount u := by
      rw [World.hot, World.hot, hunborn, hact, add_assoc]
    simp only [hput, Thread.places, Function.places, List.map_nil, List.sum_nil]
    omega
  | @policy fn updated o f hf =>
    have hset := World.hot_setFn (World.heap_of_fn? hf) { f with
      policy := World.updatedPolicy f.policy updated } u
    have hsame : { f with policy := World.updatedPolicy f.policy updated }.activeCount u =
      f.activeCount u := rfl
    simp only [Thread.places, List.map_nil, List.sum_nil]
    omega
  | _ => exact le_rfl

/-! ### Replicas left behind in an idle pool -/

/-- The name of the replica in `MRU`. -/
def Function.newest (f : Function) : Option Str := f.idleReplicas.mru.map (·.uuid)

/-- What is idle under the name was idle already, and in `MRU` only if it was there. -/
structure Function.IdleFrom (u : Str) (f f' : Function) : Prop where
  idle : 0 < f'.idleCount u → 0 < f.idleCount u
  newest : f'.newest = some u → f.newest = some u

/-- The same of every deployed function. -/
def World.IdleFrom (u : Str) (w w' : World) : Prop :=
  ∀ n o f', w'.fn? n = some (o, f') → 0 < f'.idleCount u →
    ∃ f, w.fn? n = some (o, f) ∧ f.IdleFrom u f'

namespace Function.IdleFrom

variable {f f' : Function} {u : Str}

/-- The same pool has the same idle replicas. -/
lemma of_eq (h : f'.idleReplicas = f.idleReplicas) : f.IdleFrom u f' where
  idle hpos := by rwa [idleCount, h] at hpos
  newest hnew := by rwa [Function.newest, h] at hnew

/-- Replicas may leave the pool, as long as no other one comes to `MRU`. -/
lemma of_sublist (hsub : f'.idleReplicas.stored.Sublist f.idleReplicas.stored)
    (hnew : f'.newest = some u → f.newest = some u) : f.IdleFrom u f' where
  idle hpos := hpos.trans_le hsub.countP_le
  newest := hnew

/-- The `LRU` may leave the pool. -/
lemma remove : f.IdleFrom u { f with idleReplicas := f.idleReplicas.remove } := by
  refine of_sublist f.idleReplicas.stored_remove_suffix.sublist fun hnew => ?_
  unfold Function.newest IdleReplicas.remove at hnew
  unfold Function.newest
  split at hnew <;> exact hnew

/-- The `MRU` may leave the pool. -/
lemma noMRU : f.IdleFrom u { f with idleReplicas := { f.idleReplicas with mru := none } } := by
  refine of_sublist ?_ fun hnew => by cases hnew
  simp [IdleReplicas.stored]

/-- A release puts another replica into the pool. -/
lemma add {r : Replica} {now : Time} (hne : r.uuid ≠ u) :
    f.IdleFrom u { f with idleReplicas := f.idleReplicas.add r now } where
  idle hpos := by
    have hstored := f.idleReplicas.stored_add r now
    simpa only [idleCount, hstored, List.countP_append, List.countP_singleton,
      Replica.accessed_uuid, hne, decide_false, Bool.false_eq_true, if_false, add_zero] using hpos
  newest hnew := by
    have hmru : (f.idleReplicas.add r now).mru = some (r.accessed now) := by
      unfold IdleReplicas.add
      dsimp only
      split
      · rfl
      · split <;> rfl
    rw [Function.newest, hmru] at hnew
    exact absurd (Option.some.inj hnew) hne

/-- `GetIdleReplica` moves no replica into `MRU` when `containers[]` is empty. -/
lemma takeIdle {r : Replica} (htake : f.takeIdle = some (r, f'))
    (hempty : f.idleReplicas.containers = []) : f.IdleFrom u f' := by
  refine of_sublist ?_ fun hnew => ?_
  · rw [(Function.takeIdle_spec htake).1]
    exact List.sublist_append_left _ _
  · have hmru : f'.idleReplicas.mru = none := by
      unfold Function.takeIdle at htake
      split at htake
      · cases htake
      · simp only [hempty, List.getLast?_nil, Option.some.injEq, Prod.mk.injEq] at htake
        rw [← htake.2]
    rw [Function.newest, hmru] at hnew
    cases hnew

end Function.IdleFrom

namespace World.IdleFrom

variable {w w' w'' : World} {u : Str}

/-- What leaves the map and the objects alone leaves the pools alone. -/
lemma of_eq (hheap : w'.heap = w.heap) (hmap : w'.deployedFunctions = w.deployedFunctions) :
    w.IdleFrom u w' := by
  intro n o f' hf _
  rw [World.fn?_congr hheap hmap] at hf
  exact ⟨f', hf, .of_eq rfl⟩

/-- A deletion of a replica does. -/
lemma of_sameStore (h : World.SameStore w w') : w.IdleFrom u w' := of_eq h.heap h.deployedFunctions

/-- An update of a function may take replicas out of its pool. -/
lemma setFn {o : Ref} {f f' : Function} (ho : w.heap[o]? = some f)
    (h : 0 < f'.idleCount u → f.IdleFrom u f') : w.IdleFrom u (w.setFn o f') := by
  intro n o₁ f₁ hf hpos
  rw [World.fn?_setFn ho, Option.map_eq_some_iff] at hf
  obtain ⟨⟨o₂, f₂⟩, hf₂, heq⟩ := hf
  dsimp only at heq
  split at heq
  · next hsame =>
    cases heq
    rw [hsame] at hf₂
    obtain rfl : f₂ = f := Option.some.inj ((World.heap_of_fn? hf₂).symm.trans ho)
    exact ⟨_, hf₂, h hpos⟩
  · cases heq
    exact ⟨_, hf₂, .of_eq rfl⟩

/-- Then a deletion of a replica changes nothing more. -/
lemma sameStore (h : w.IdleFrom u w') (hsame : World.SameStore w' w'') : w.IdleFrom u w'' := by
  intro n o f' hf
  rw [hsame.fn?] at hf
  exact h n o f' hf

end World.IdleFrom

/-- The replica that the section takes, if it takes one, is taken from a pool that has nothing in
`containers[]`, or from one without the replica. -/
def Thread.takesAway (u : Str) (w : World) (t : Thread) : Prop :=
  ∀ req fn o f, t = .request req (.idle fn) → w.fn? fn.pool = some (o, f) →
    f.idleReplicas.containers = [] ∨ f.idleCount u = 0

/-- A creation in whose hands the replica is not leaves it where it is idle. -/
lemma createSection_idleFrom {w w' : World} {call : CreateCall} {e : Env} {pc : CreatePc}
    {result : CreateResult} (hsec : CreateSection w call e pc w' result) {u : Str}
    (hcarried : one pc.carried u = 0) : w.IdleFrom u w' := by
  cases hsec with
  | addActive hact hf hstats => exact .setFn (World.heap_of_fn? hf) fun _ => .of_eq rfl
  | noStats hact hf => exact .setFn (World.heap_of_fn? hf) fun _ => .of_eq rfl
  | @addIdle replica o f hact hf =>
    refine .setFn (World.heap_of_fn? hf) fun _ => .add fun heq => ?_
    rw [CreatePc.carried, heq, one_some_self] at hcarried
    cases hcarried
  | _ => exact .of_eq rfl rfl

/-- An invocation in whose hands the replica is not leaves it where it is idle.

**Proof sketch.** Case split on the section. A replica that is not in the hands of the invocation is
not the one that it puts back, and the look-up of an idle replica leaves it where it is unless it
moves up to MRU, which the condition excludes. -/
lemma requestSection_idleFrom {w w' : World} {req : Request} {e : Env} {pc : RequestPc}
    {t' : Thread} {new : List Thread} (hsec : RequestSection w req e pc w' t' new) {u : Str}
    (hcarried : one pc.carried u = 0) (htakes : (Thread.request req pc).takesAway u w) :
    w.IdleFrom u w' := by
  cases hsec with
  | @idle fn o f f' replica hf htake =>
    refine .setFn (World.heap_of_fn? hf) fun hpos => ?_
    rcases htakes _ _ _ _ rfl hf with hempty | hzero
    · exact .takeIdle htake hempty
    · have hsub : f'.idleCount u ≤ f.idleCount u := by
        rw [Function.idleCount, Function.idleCount, (Function.takeIdle_spec htake).1]
        exact (List.sublist_append_left _ _).countP_le
      omega
  | create hsec => exact createSection_idleFrom hsec hcarried
  | take hf => exact .setFn (World.heap_of_fn? hf) fun _ => .of_eq rfl
  | @give replica o f hf =>
    refine .setFn (World.heap_of_fn? hf) fun _ => .add fun heq => ?_
    rw [RequestPc.carried, heq, one_some_self] at hcarried
    cases hcarried
  | del hdel => exact .of_sameStore (World.sameStore_of_deleteReplica hdel)
  | delFault hdel => exact .of_sameStore (World.sameStore_of_deleteReplica hdel)
  | _ => exact .of_eq rfl rfl

/-- A sweep leaves replicas where they are idle, or takes them away. -/
lemma sweepSection_idleFrom {w w' : World} {e : Env} {pc : SweepPc} {t' : Thread}
    (hsec : SweepSection w e pc w' t') (u : Str) : w.IdleFrom u w' := by
  cases hsec with
  | lru hheap hsweep hf => exact .setFn (World.heap_of_fn? hf) fun _ => .remove
  | mru hheap hsweep hdel =>
    exact World.IdleFrom.sameStore (.setFn hheap fun _ => .noMRU)
      (World.sameStore_of_deleteReplica hdel)
  | mruFault hheap hsweep hdel =>
    have hsame := World.sameStore_of_deleteReplica hdel
    intro n o f' hf
    exact World.IdleFrom.sameStore (.setFn hheap fun _ => .noMRU) hsame n o f' hf
  | del hdel => exact .of_sameStore (World.sameStore_of_deleteReplica hdel)
  | delFault hdel =>
    have hsame := World.sameStore_of_deleteReplica hdel
    exact .of_eq hsame.heap hsame.deployedFunctions
  | _ => exact .of_eq rfl rfl

/-- **One section leaves a replica that is not in its hands where it is idle.**

**Proof sketch.** Case split on the section. Outside the hands of the goroutine a replica can only
leave a pool, but for what an invocation takes away; a function that is put into the map has no
replicas. -/
lemma section_idleFrom {w w' : World} {e : Env} {t t' : Thread} {new : List Thread}
    (hsec : Section w e t w' t' new) (hw : w.WellFormed) {u : Str}
    (hplaces : t.places false u = 0) (htakes : t.takesAway u w) : w.IdleFrom u w' := by
  cases hsec with
  | request hsec => exact requestSection_idleFrom hsec hplaces htakes
  | spawn hsec => exact createSection_idleFrom hsec hplaces
  | sweep hsec => exact sweepSection_idleFrom hsec u
  | deleteAll hall => exact .of_sameStore (World.sameStore_of_deleteAllReplicas hall)
  | deleteAllFault hall => exact .of_sameStore (World.sameStore_of_deleteAllReplicas hall)
  | @unmap req =>
    intro n o f' hf _
    rw [World.fn?_dropFunction] at hf
    split at hf
    · cases hf
    · exact ⟨f', hf, .of_eq rfl⟩
  | insert hdeploy hins =>
    obtain ⟨-, rows, rfl⟩ := World.insertFunction_eq hins
    exact .of_eq rfl rfl
  | @map fn =>
    intro n o f' hf hpos
    rw [World.fn?_putFunction hw.valid] at hf
    split at hf
    · cases hf
      have hzero : fn.places u = 0 := hplaces
      simp only [Function.places] at hzero
      omega
    · exact ⟨f', hf, .of_eq rfl⟩
  | policy hf => exact .setFn (World.heap_of_fn? hf) fun _ => .of_eq rfl
  | _ => exact .of_eq rfl rfl

/-- Only `DeleteAllReplicas` records its deletions as its own. -/
lemma createSection_deletedByAll {w w' : World} {call : CreateCall} {e : Env} {pc : CreatePc}
    {result : CreateResult} (hsec : CreateSection w call e pc w' result) :
    w'.deletedByAll = w.deletedByAll := by
  cases hsec <;> rfl

/-- `DeleteReplica` is none of the deletions by `DeleteAllReplicas`. -/
lemma World.deletedByAll_of_deleteReplica {w w' : World} {a : Answers} {r : Replica}
    {fault : Option Fault} (h : w.deleteReplica a r = (w', fault)) :
    w'.deletedByAll = w.deletedByAll := by
  have hdel := w.deleteIn_deletedByAll defaultFunctionNamespace a r
  rw [World.deleteReplica] at h
  rwa [h] at hdel

/-- Only a delete request deletes all replicas.

**Proof sketch.** Case split on the section; the deletion of one replica marks none. -/
lemma section_deletedByAll {w w' : World} {e : Env} {t t' : Thread} {new : List Thread}
    (hsec : Section w e t w' t' new) (hall : ∀ req, t ≠ .delete req .deleteAll) :
    w'.deletedByAll = w.deletedByAll := by
  cases hsec with
  | request hsec =>
    cases hsec with
    | create hsec => exact createSection_deletedByAll hsec
    | del hdel => exact World.deletedByAll_of_deleteReplica hdel
    | delFault hdel => exact World.deletedByAll_of_deleteReplica hdel
    | _ => rfl
  | spawn hsec => exact createSection_deletedByAll hsec
  | sweep hsec =>
    cases hsec with
    | mru hheap hsweep hdel => exact (World.deletedByAll_of_deleteReplica hdel :)
    | mruFault hheap hsweep hdel => exact (World.deletedByAll_of_deleteReplica hdel :)
    | del hdel => exact World.deletedByAll_of_deleteReplica hdel
    | delFault hdel => exact (World.deletedByAll_of_deleteReplica hdel :)
    | _ => rfl
  | deleteAll => exact absurd rfl (hall _)
  | deleteAllFault => exact absurd rfl (hall _)
  | insert hdeploy hins =>
    obtain ⟨-, rows, rfl⟩ := World.insertFunction_eq hins
    rfl
  | _ => rfl

/-! ### Moves that undeploy safely -/

/-- A delete request for the function has deleted replicas of it, and has not dropped it yet. -/
def Thread.deletes (n : Str) : Thread → Bool
  | .delete _ .deleteAll => false
  | .delete req _ => req.functionName = n
  | _ => false

/-- The function is being deleted. -/
def State.deleting (c : State) (n : Str) : Bool := c.threads.any (Thread.deletes n)

/-- The section of `GetIdleReplica` does not move a replica from `containers[]` into `MRU` while the
function is being deleted. -/
def State.takesSafely (c : State) : Thread → Bool
  | .request _ (.idle fn) =>
    !c.deleting fn.pool ||
      (c.shared.fn? fn.pool).all fun of => of.2.idleReplicas.containers.isEmpty
  | _ => true

/-- The function that a delete request drops is one that no other goroutine relies on. -/
def State.dropsUnused (c : State) (i : ℕ) : Thread → Bool
  | .delete req .unmap =>
    (c.threads.eraseIdx i).all fun t => decide (req.functionName ∉ t.uses c.shared)
  | _ => true

/-- The move undeploys safely: the requests that look functions up without a check name deployed
ones, the functions that invocations pick are deployed, they leave a pool alone that is being
deleted, and a function is dropped that no goroutine relies on. -/
def State.undeploysSafely (c : State) : Event → Bool
  | .arrive t => (t.uses c.shared).all fun n => (c.shared.fn? n).isSome
  | .step i e =>
    match c.threads[i]? with
    | none => true
    | some t => t.picksDeployed c.shared e && c.takesSafely t && c.dropsUnused i t

/-- The goroutine has panicked because a function was absent. -/
def Thread.absent : Thread → Bool
  | .panicked .absentFunction => true
  | _ => false

/-- **Nothing dangles**: no goroutine has dereferenced an entry of `deployedFunctions` that is
absent, and no invocation has been given a replica that `DeleteAllReplicas` has deleted. -/
structure NoDangling (c : State) : Prop where
  noAbsent : ∀ t ∈ c.threads, t.absent = false
  noDead : ∀ t ∈ c.threads, ∀ u ∈ t.given, u ∉ c.shared.deletedByAll

/-- Whether something dangles can be looked up. -/
instance (c : State) : Decidable (NoDangling c) :=
  decidable_of_iff ((∀ t ∈ c.threads, t.absent = false) ∧
      ∀ t ∈ c.threads, ∀ u ∈ t.given, u ∉ c.shared.deletedByAll)
    ⟨fun ⟨h₁, h₂⟩ => ⟨h₁, h₂⟩, fun h => ⟨h.1, h.2⟩⟩

/-- Goroutines stay sound when the move undeploys safely.

**Proof sketch.** The goroutine that steps goes on soundly (`section_sound`). The others rely on
functions that stay deployed (`section_deployed`), because one that is dropped is used by no other
goroutine. -/
lemma step_sound {c c' : State} {m : Event} (hwf : State.WellFormed c) (hc : c.All Thread.Sound)
    (hsafe : c.undeploysSafely m = true) (hstep : provider.step c m = some c') :
    c'.All Thread.Sound := by
  refine Interleaving.all_step hc hstep ?_ ?_
  · rintro t rfl hent
    refine Thread.sound_of_uses ?_ ?_ ?_ fun n hn => List.all_eq_true.mp hsafe n hn
    all_goals
      obtain ⟨req, rfl⟩ | rfl | ⟨req, rfl⟩ | ⟨req, rfl⟩ | ⟨name, updated, rfl⟩ := entry_cases hent
    all_goals simp [Thread.pointer]
  · rintro i e t w' t' new rfl ht hn
    have hsec := next_cases hn
    obtain ⟨⟨hpick, -⟩, hdrop⟩ : (t.picksDeployed c.shared e = true ∧ c.takesSafely t = true) ∧
        c.dropsUnused i t = true := by
      simpa [State.undeploysSafely, ht] using hsafe
    obtain ⟨hnames, hdeployed⟩ := section_deployed hsec hwf.1
    refine ⟨section_sound hsec hwf.1 hpick (hc t (List.mem_of_getElem? ht)), fun u hu => ?_,
      fun j u hji hj hu => hu.keep hnames fun n hn => hdeployed n (hu.uses n hn) ?_⟩
    · obtain ⟨call, rfl⟩ := section_new hsec u hu
      exact Thread.sound_of_uses_eq_nil rfl (fun _ _ => by simp) (by simp) rfl
    · rintro req rfl rfl
      -- the function dropped is not used by another goroutine
      have hmem : u ∈ c.threads.eraseIdx i := List.mem_eraseIdx_iff_getElem?.mpr ⟨j, hji, hj⟩
      simpa [hn] using List.all_eq_true.mp hdrop u hmem

/-- The deletion of a function goes on until it drops the function. -/
lemma section_deletes {w w' : World} {e : Env} {t t' : Thread} {new : List Thread}
    (hsec : Section w e t w' t' new) (hok : t.picksDeployed w e = true) (ht : t.Sound w) {n : Str}
    (h : t.deletes n = true) : t'.deletes n = true ∨ w'.fn? n = none := by
  cases hsec with
  | read => exact .inl h
  | rowsFailed herr => simp [Thread.picksDeployed, herr] at hok
  | rowsAbsent herr hf =>
    obtain ⟨o, rfl, hlt⟩ := ht.rows _ _ rfl
    rw [Option.bind_some, List.getElem?_eq_getElem hlt] at hf
    cases hf
  | rows => exact .inl h
  | unmap =>
    have hn := of_decide_eq_true h
    exact .inr (by rw [World.fn?_dropFunction, if_pos hn.symm])
  | _ => cases h

/-- A function that is being deleted still is after a section, or it has been dropped. -/
lemma State.deleting_section {c : State} {i : ℕ} {t t' : Thread} {w w' : World} {e : Env}
    {new : List Thread} (hi : c.threads[i]? = some t) (hsec : Section w e t w' t' new)
    (hok : t.picksDeployed w e = true) (ht : t.Sound w) {n : Str} (h : c.deleting n = true) :
    State.deleting ⟨w', c.threads.set i t' ++ new⟩ n = true ∨ w'.fn? n = none := by
  have hlt : i < c.threads.length := (List.getElem?_eq_some_iff.mp hi).1
  obtain ⟨u, hu, hdel⟩ := List.any_eq_true.mp h
  obtain ⟨j, hj⟩ := List.mem_iff_getElem?.mp hu
  by_cases hji : j = i
  · obtain rfl : u = t := Option.some.inj (by rw [← hj, ← hi, hji])
    refine (section_deletes hsec hok ht hdel).imp_left fun hdel' => ?_
    exact List.any_eq_true.mpr
      ⟨t', List.mem_append_left _ (List.mem_set hlt t'), hdel'⟩
  · refine .inl (List.any_eq_true.mpr ⟨u, List.mem_append_left _ ?_, hdel⟩)
    exact List.mem_iff_getElem?.mpr ⟨j, by rw [List.getElem?_set_ne (Ne.symm hji), hj]⟩

/-- A replica is idle in one function. -/
lemma World.idle_unique {w : World} {u : Str} (hle : w.idle u ≤ 1) {o o' : Ref} {f f' : Function}
    (ho : w.heap[o]? = some f) (ho' : w.heap[o']? = some f') (hf : 0 < f.idleCount u)
    (hf' : 0 < f'.idleCount u) : o = o' := by
  by_contra hne
  have hsum := Interleaving.add_le_sum_of_getElem? (h := fun f : Function => (f.idleCount u : ℤ))
    (fun f => Int.natCast_nonneg _) hne ho ho'
  simp only [World.idle] at hle
  omega

/-- A replica in `containers[]` that is idle once is not in `MRU`. -/
lemma Function.newest_ne_of_containers {f : Function} {r : Replica}
    (hr : r ∈ f.idleReplicas.containers) (hle : f.idleCount r.uuid ≤ 1) :
    f.newest ≠ some r.uuid := by
  intro hnew
  obtain ⟨mru, hmru, heq⟩ := Option.map_eq_some_iff.mp hnew
  have hin : 0 < f.idleReplicas.containers.countP fun r' => r'.uuid = r.uuid :=
    List.countP_pos_iff.mpr ⟨r, hr, by simp⟩
  simp only [Function.idleCount, IdleReplicas.stored, hmru, List.countP_append, Option.toList_some,
    List.countP_singleton, heq, decide_true, if_true] at hle
  omega

/-- The replica that `GetIdleReplica` takes was the `MRU`. -/
lemma Function.newest_of_takeIdle {f f' : Function} {r : Replica}
    (h : f.takeIdle = some (r, f')) : f.newest = some r.uuid := by
  unfold Function.takeIdle at h
  unfold Function.newest
  split at h
  · cases h
  · next recycled hmru =>
    rw [hmru]
    dsimp only at h
    split at h <;> cases h <;> rfl

/-- What is in the hands of a goroutine is hot. -/
lemma State.places_eq_zero {c : State} {u : Str} (hhot : c.hot u ≤ 0) {i : ℕ} {t : Thread}
    (hi : c.threads[i]? = some t) : t.places false u = 0 := by
  have hle := Interleaving.le_sum_of_getElem? (Thread.places_nonneg false u) hi
  have hnonneg := t.places_nonneg false u
  have hunborn := c.shared.unborn_nonneg u
  have hactive := c.shared.active_nonneg u
  simp only [State.hot, Interleaving.Config.ledger, World.hot] at hhot
  omega

/-- Names do not become hot when the section takes another one. -/
lemma State.hot_section {c : State} {i : ℕ} {t t' : Thread} {w' : World} {e : Env}
    {new : List Thread} (hi : c.threads[i]? = some t) (hsec : Section c.shared e t w' t' new)
    {u : Str} (hother : t.takesOther u c.shared) :
    State.hot u ⟨w', c.threads.set i t' ++ new⟩ ≤ c.hot u := by
  have heq := Interleaving.ledger_section (World.hot u) (Thread.places false u) w' t' new hi
  have hle : w'.hot u + t'.places false u + (new.map (Thread.places false u)).sum ≤
      c.shared.hot u + t.places false u := section_hot_le hsec hother
  simp only [State.hot]
  omega

/-- A name has no negative number of hot places. -/
lemma State.hot_nonneg (c : State) (u : Str) : 0 ≤ c.hot u := by
  have hunborn := c.shared.unborn_nonneg u
  have hactive := c.shared.active_nonneg u
  have hhands := Interleaving.sum_map_nonneg (Thread.places_nonneg false u) c.threads
  simp only [State.hot, Interleaving.Config.ledger, World.hot]
  omega

/-- The replica is out of reach: it is not hot, and it is idle only in a function that is being
deleted, and there not in `MRU`. -/
structure State.OutOfReach (c : State) (u : Str) : Prop where
  cold : c.hot u ≤ 0
  idle : ∀ n o f, c.shared.fn? n = some (o, f) → 0 < f.idleCount u →
    c.deleting n = true ∧ f.newest ≠ some u

/-- A replica out of reach stays there when the section undeploys safely: it is in nobody's hands,
so the section does not put it back; it is not the `MRU` that an invocation takes; and its function
is still being deleted, unless it has been dropped.

**Proof sketch.** The section cannot make the replica hot, since it would have to take it from a
pool, where it is not the newest one (`State.hot_section`). Where it is idle afterwards it was idle
before (`section_idleFrom`), in an object that is being deleted or has been dropped. -/
lemma State.OutOfReach.keep {c : State} {u : Str} (hu : c.OutOfReach u)
    (hw : c.shared.WellFormed) {i : ℕ} {t t' : Thread} {w' : World} {e : Env} {new : List Thread}
    (hi : c.threads[i]? = some t) (hsec : Section c.shared e t w' t' new)
    (hpick : t.picksDeployed c.shared e = true) (htake : c.takesSafely t = true)
    (ht : t.Sound c.shared) : State.OutOfReach ⟨w', c.threads.set i t' ++ new⟩ u where
  cold := by
    refine (State.hot_section hi hsec ?_).trans hu.cold
    rintro req fn o f r f' rfl hf htk rfl
    refine (hu.idle _ o f hf ?_).2 (Function.newest_of_takeIdle htk)
    rw [Function.idleCount, (Function.takeIdle_spec htk).1]
    simp
  idle n o f hf hpos := by
    have haway : t.takesAway u c.shared := by
      rintro req fn o f rfl hf
      by_cases hzero : f.idleCount u = 0
      · exact .inr hzero
      · have hdel := (hu.idle _ o f hf (Nat.pos_of_ne_zero hzero)).1
        exact .inl (by simpa [State.takesSafely, hdel, hf] using htake)
    have hfrom := section_idleFrom hsec hw (State.places_eq_zero hu.cold hi) haway
    obtain ⟨f₀, hf₀, hidle⟩ := hfrom n o f hf hpos
    obtain ⟨hdel, hnew⟩ := hu.idle n o f₀ hf₀ (hidle.idle hpos)
    refine ⟨?_, fun heq => hnew (hidle.newest heq)⟩
    refine (State.deleting_section hi hsec hpick ht hdel).resolve_right fun hnone => ?_
    rw [show w'.fn? n = some (o, f) from hf] at hnone
    cases hnone

/-- The replicas that `DeleteAllReplicas` deletes are out of reach: they were idle in
`containers[]`, so by the ledger hot nowhere and not in `MRU`, and the function is being deleted.

**Proof sketch.** The replica is in `containers[]`, so its one place is there: it is hot nowhere and
is not the newest. Its function is found under its name only, and is being deleted from now on. -/
lemma State.outOfReach_of_deleted {c : State} (hw : c.shared.WellFormed)
    (hloose : ∀ u, c.places false u ≤ 1) {i : ℕ} {req : DeleteRequest} {w' : World} {e : Env}
    (hi : c.threads[i]? = some (.delete req .deleteAll))
    (hsec : Section c.shared e (.delete req .deleteAll) w' (.delete req .read) [])
    (hsame : World.SameStore c.shared w') {o₀ : Ref} {f₀ : Function}
    (hf₀ : c.shared.fn? req.functionName = some (o₀, f₀)) {r : Replica}
    (hr : r ∈ f₀.idleReplicas.deleted) :
    State.OutOfReach ⟨w', c.threads.set i (.delete req .read) ++ []⟩ r.uuid := by
  have hmem : r ∈ f₀.idleReplicas.containers := by
    unfold IdleReplicas.deleted at hr
    split at hr
    · cases hr
    · exact hr
  have hpos₀ : 0 < f₀.idleCount r.uuid :=
    List.countP_pos_iff.mpr ⟨r, by simp [IdleReplicas.stored, hmem], by simp⟩
  have hplaces := hloose r.uuid
  rw [c.places_eq] at hplaces
  have hidle₀ : (f₀.idleCount r.uuid : ℤ) ≤ c.shared.idle r.uuid :=
    Interleaving.le_sum_of_getElem? (h := fun f : Function => (f.idleCount r.uuid : ℤ))
      (fun f => Int.natCast_nonneg _) (World.heap_of_fn? hf₀)
  have hhot₀ := c.hot_nonneg r.uuid
  refine ⟨?_, fun n o f hf hpos => ?_⟩
  · have hother : Thread.takesOther r.uuid c.shared (.delete req .deleteAll) := by
      intro req' fn o f r' f' heq
      cases heq
    exact (State.hot_section hi hsec hother).trans (by omega)
  · have hf' : c.shared.fn? n = some (o, f) := (hsame.fn? n).symm.trans hf
    have hheap := World.heap_of_fn? hf'
    have hheap₀ := World.heap_of_fn? hf₀
    -- the replica is idle once, so this is the function that is being deleted
    obtain rfl := World.idle_unique (by omega) hheap hheap₀ hpos hpos₀
    obtain rfl : f = f₀ := Option.some.inj (hheap.symm.trans hheap₀)
    refine ⟨?_, Function.newest_ne_of_containers hmem (by omega)⟩
    have hname : req.functionName = n := (hw.named _ _ _ hf₀).symm.trans (hw.named _ _ _ hf')
    have hlt : i < c.threads.length := (List.getElem?_eq_some_iff.mp hi).1
    refine List.any_eq_true.mpr ⟨.delete req .read, ?_, decide_eq_true hname⟩
    exact List.mem_append_left _ (List.mem_set hlt _)

/-- What holds in the runs whose moves undeploy safely. -/
structure State.Undeploying (c : State) : Prop where
  wellFormed : State.WellFormed c
  loose : ∀ u, c.places false u ≤ 1
  claims : ∀ u, c.claims u ≤ 0
  sound : c.All Thread.Sound
  dead : ∀ u ∈ c.shared.deletedByAll, c.OutOfReach u

/-- **The replicas that `DeleteAllReplicas` has deleted stay out of reach** when the move undeploys
safely.

**Proof sketch.** The replicas deleted before stay out of reach of the section
(`State.OutOfReach.keep`). Those that a deletion of all marks now are in no hot place, since each
has one place, and are idle in the object that is being deleted (`State.outOfReach_of_deleted`). -/
lemma step_dead {c c' : State} {m : Event} (hc : c.Undeploying) (hsafe : c.undeploysSafely m = true)
    (hstep : provider.step c m = some c') : ∀ u ∈ c'.shared.deletedByAll, c'.OutOfReach u := by
  obtain ⟨t, rfl, hent, rfl⟩ | ⟨i, e, t, w', t', new, rfl, hi, hn, rfl⟩ :=
    Interleaving.Program.step_cases hstep
  · intro u hu
    refine ⟨?_, fun n o f hf hpos => ?_⟩
    · simpa [State.hot, Interleaving.Config.ledger, entry_places hent] using (hc.dead u hu).cold
    · obtain ⟨hdel, hnew⟩ := (hc.dead u hu).idle n o f hf hpos
      refine ⟨?_, hnew⟩
      simp only [State.deleting, List.any_append]
      exact Bool.or_eq_true_iff.mpr (.inl hdel)
  · have hw := hc.wellFormed.1
    have hsec := next_cases hn
    have ht := hc.sound t (List.mem_of_getElem? hi)
    obtain ⟨⟨hpick, htake⟩, -⟩ : (t.picksDeployed c.shared e = true ∧ c.takesSafely t = true) ∧
        c.dropsUnused i t = true := by
      simpa [State.undeploysSafely, hi] using hsafe
    have hold : ∀ u ∈ c.shared.deletedByAll,
        State.OutOfReach ⟨w', c.threads.set i t' ++ new⟩ u :=
      fun u hu => (hc.dead u hu).keep hw hi hsec hpick htake ht
    by_cases hall : ∃ req, t = .delete req .deleteAll
    · obtain ⟨req, rfl⟩ := hall
      obtain ⟨⟨o₀, f₀⟩, hf₀⟩ := Option.isSome_iff_exists.mp (ht.uses _ List.mem_cons_self)
      obtain ⟨w₁, hnone, hsame, -, hmarks⟩ :=
        deleteAllReplicas_spec hw hf₀ req.lookupNamespace e.answers
      have hgo : provider.next c.shared (.delete req .deleteAll) e =
          some (w₁, .delete req .read, []) := by
        simp [provider, Thread.next, deleteNext, hnone]
      obtain ⟨rfl, rfl, rfl⟩ : w₁ = w' ∧ Thread.delete req .read = t' ∧ [] = new := by
        simpa [hgo] using hn
      intro u hu
      rw [hmarks, List.mem_append, List.mem_reverse, List.mem_map] at hu
      rcases hu with ⟨r, hr, rfl⟩ | hu
      · exact State.outOfReach_of_deleted hw hc.loose hi hsec hsame hf₀ hr
      · exact hold u hu
    · have hmarks := section_deletedByAll hsec fun req heq => hall ⟨req, heq⟩
      exact fun u hu => hold u (hmarks ▸ hu)

/-- **Step lemma.** A move that undeploys safely keeps the invariant. -/
lemma step_undeploying {c c' : State} {m : Event} (hc : c.Undeploying)
    (hsafe : c.undeploysSafely m = true) (hstep : provider.step c m = some c') :
    c'.Undeploying where
  wellFormed := step_wellFormed hc.wellFormed hstep
  loose u := (step_places_le hstep u).trans (hc.loose u)
  claims u := (step_claims_le hc.wellFormed hc.loose hstep u).trans (hc.claims u)
  sound := step_sound hc.wellFormed hc.sound hsafe hstep
  dead := step_dead hc hsafe hstep

/-- The invariant says that nothing dangles: what an invocation has been given is active, so hot. -/
lemma State.Undeploying.noDangling {c : State} (hc : c.Undeploying) : NoDangling c where
  noAbsent t ht := by
    have hfault := (hc.sound t ht).noFault
    unfold Thread.absent
    split
    · exact absurd rfl hfault
    · rfl
  noDead t ht u hgiven hu := by
    have hactive := State.active_of_given (hc.claims u) ht hgiven
    have hcold := (hc.dead u hu).cold
    have hunborn := c.shared.unborn_nonneg u
    have hhands := Interleaving.sum_map_nonneg (Thread.places_nonneg false u) c.threads
    simp only [State.hot, Interleaving.Config.ledger, World.hot] at hcold
    omega

/-- **Nothing dangles throughout the runs whose moves undeploy safely.**

**Proof sketch.** Goroutines stay sound: what they look up is deployed, since a function is dropped
only when nobody relies on it. Replicas that `DeleteAllReplicas` has deleted stay out of reach, and
what an invocation has been given is active. -/
theorem noDangling_throughout {cfg : Config} {storage : Storage} {now : Time} {w : World}
    (hstart : startProvider cfg storage now = .ok w) {events : List Event}
    (hsafe : Runs.Along provider.step (fun (c : State) m => c.undeploysSafely m = true) ⟨w, []⟩
      events) :
    Runs.Throughout provider.step NoDangling ⟨w, []⟩ events := by
  have hfresh := (startProvider_fresh hstart).1
  have hinit : State.Undeploying ⟨w, []⟩ :=
    { wellFormed := ⟨hfresh.wellFormed, fun _ ht => absurd ht List.not_mem_nil⟩
      loose := hfresh.places_le_one false
      claims := hfresh.claims_le
      sound := fun _ ht => absurd ht List.not_mem_nil
      dead := fun u hu => by
        rw [show w.deletedByAll = [] from hfresh.deletedByAll] at hu
        cases hu }
  exact Runs.throughout_of_along (fun _ _ _ hI hok hstep => step_undeploying hI hok hstep)
    (fun _ hI => hI.noDangling) hinit hsafe

/-- A delete request for `f` arrives as goroutine `i` and takes its first sections. -/
def deleteF (i n : ℕ) : List Event :=
  .arrive (.delete { functionName := "f".toList } .deleteAll) :: sections i n

/-- An invocation of `f` returns, and then the function is deleted. -/
def deleteAfterInvocation : List Event :=
  deployF ∅ ++ invokeF 1 12 { uuid := "1".toList, pid := 7 } ++ deleteF 2 4

/-- The run goes through, and nothing dangles throughout. -/
theorem noDangling_throughout_deleteAfterInvocation :
    ((smallRun deleteAfterInvocation).map fun c =>
        (c.threads.all Thread.isReturned, c.shared.deployedFunctions.keys)) = some (true, []) ∧
      Runs.Throughout provider.step NoDangling ⟨smallWorld, []⟩ deleteAfterInvocation :=
  ⟨by decide, noDangling_throughout startProvider_small (by decide)⟩

/-- An invocation of `f` waits for its replica when the function is deleted, and dereferences the
absent function once it has the response. -/
theorem not_noDangling_deleteF :
    ¬ Runs.Throughout provider.step NoDangling ⟨smallWorld, []⟩
      (deployF ∅ ++ invokeF 1 7 { uuid := "1".toList, pid := 7 } ++ deleteF 2 4 ++
        sections 1 2) :=
  Runs.not_throughout (by decide)

end Fecore
