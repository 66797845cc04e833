import Mathlib.Tactic.Common
import Fecore.Handlers.Ownership

set_option relaxedAutoImplicit false
set_option autoImplicit false

/-!
# Deleting a function

The delete handler: `DeleteAllReplicas` and then `RemoveDeployedFunction`, by itself, on a
deployed function of a reachable state. `DeleteAllReplicas` is to delete all idle replicas, but its
loop is over `containers[]` only, and it does nothing when the counter is zero.

## Main definitions

* `Fecore.solo` — a goroutine that runs by itself.
* `Fecore.DeletesAll` — every idle replica is deleted once, and the function is gone.

## Main results

* `Fecore.deleteEach_spec` — the loop deletes each replica of the list, once.
* `Fecore.deletesAll_iff` — when the delete handler deletes all.
-/

namespace Fecore

/-- The goroutine takes its sections by itself, `n` of them at most. -/
def solo : ℕ → World → Thread → Env → World × Thread
  | 0, w, t, _ => (w, t)
  | n + 1, w, t, e =>
    match t.next w e with
    | none => (w, t)
    | some (w', t', _) => solo n w' t' e

/-- The delete handler, by itself. -/
def deleteHandler (w : World) (req : DeleteRequest) (e : Env) : World × Thread :=
  solo 4 w (.delete req .deleteAll) e

/-- The calls of `DeleteNativeReplica` and `DeleteWasmReplica` on the replica. -/
def World.callsOn (w : World) (u : Str) : List (Str × Str) := w.deleteCalls.filter fun c => c.2 = u

/-- **The delete handler deletes all**: it returns, has called the deletion of each idle replica of
the function just once and according to its container type, and the function is gone from
`deployedFunctions` and from the storage. -/
structure DeletesAll (w : World) (req : DeleteRequest) (f : Function) (e : Env) : Prop where
  returned : (deleteHandler w req e).2.isReturned = true
  replicas : ∀ r ∈ f.idleReplicas.stored,
    (deleteHandler w req e).1.callsOn r.uuid = (r.ctrType, r.uuid) :: w.callsOn r.uuid
  undeployed : (deleteHandler w req e).1.deployedFunctions.lookup req.functionName = none
  unstored : req.functionName ∉ (deleteHandler w req e).1.functionTable

/-- Whether all is deleted can be run. -/
instance (w : World) (req : DeleteRequest) (f : Function) (e : Env) :
    Decidable (DeletesAll w req f e) :=
  decidable_of_iff
    ((deleteHandler w req e).2.isReturned = true ∧
      (∀ r ∈ f.idleReplicas.stored,
        (deleteHandler w req e).1.callsOn r.uuid = (r.ctrType, r.uuid) :: w.callsOn r.uuid) ∧
      (deleteHandler w req e).1.deployedFunctions.lookup req.functionName = none ∧
      req.functionName ∉ (deleteHandler w req e).1.functionTable)
    ⟨fun ⟨h₁, h₂, h₃, h₄⟩ => ⟨h₁, h₂, h₃, h₄⟩, fun h => ⟨h.1, h.2, h.3, h.4⟩⟩

/-! ### The loop -/

/-- The loop of `DeleteAllReplicas` deletes each replica of the list once, the last one last.

**Proof sketch.** Induct on the list. The deletion of one replica appends its call, keeps the store
(`sameStore_deleteIn`) and does not panic, since its function is found. -/
lemma deleteEach_spec {ns : Str} {answers : Str → Answers} {rs : List Replica} : ∀ {w : World},
    (∀ r ∈ rs, r.WellFormed ∧ (w.fn? r.fname).isSome) →
      ∃ w', World.deleteEach ns answers w rs = (w', none) ∧ World.SameStore w w' ∧
        w'.deleteCalls = (rs.map fun r => (r.ctrType, r.uuid)).reverse ++ w.deleteCalls ∧
        w'.deletedByAll = (rs.map (·.uuid)).reverse ++ w.deletedByAll := by
  induction rs with
  | nil => exact fun {w} _ => ⟨w, rfl, ⟨rfl, rfl, rfl, rfl, rfl, rfl, rfl⟩, rfl, rfl⟩
  | cons r rs ih =>
    intro w hrs
    obtain ⟨hr, hf⟩ := hrs r List.mem_cons_self
    -- the loop marks the replica before it deletes it
    obtain ⟨w₁, hw₁⟩ : ∃ w₁, { w with deletedByAll := r.uuid :: w.deletedByAll } = w₁ := ⟨_, rfl⟩
    have hmark : World.SameStore w w₁ ∧ w₁.deleteCalls = w.deleteCalls ∧
        w₁.deletedByAll = r.uuid :: w.deletedByAll := by
      subst hw₁
      exact ⟨⟨rfl, rfl, rfl, rfl, rfl, rfl, rfl⟩, rfl, rfl⟩
    obtain ⟨w₂, hw₂⟩ : ∃ w₂, (w₁.deleteIn ns (answers r.uuid) r).1 = w₂ := ⟨_, rfl⟩
    have hsame : World.SameStore w w₂ := by
      subst hw₂
      exact hmark.1.trans (w₁.sameStore_deleteIn ns _ r)
    have hcalls : w₂.deleteCalls = (r.ctrType, r.uuid) :: w.deleteCalls := by
      subst hw₂
      rw [w₁.deleteIn_deleteCalls, if_pos hr.ctrType, hmark.2.1]
    have hmarks : w₂.deletedByAll = r.uuid :: w.deletedByAll := by
      subst hw₂
      rw [w₁.deleteIn_deletedByAll, hmark.2.2]
    have hdel : w₁.deleteIn ns (answers r.uuid) r = (w₂, none) := by
      refine Prod.ext hw₂ (World.deleteIn_noFault ?_ ns _)
      rw [hmark.1.fn?]
      exact hf
    obtain ⟨w', heach, hsame', hcalls', hmarks'⟩ := ih (w := w₂) fun r' hr' => by
      obtain ⟨hwf, hf'⟩ := hrs r' (List.mem_cons_of_mem _ hr')
      rw [hsame.fn?]
      exact ⟨hwf, hf'⟩
    refine ⟨w', ?_, hsame.trans hsame', ?_, ?_⟩
    · simp only [World.deleteEach, hw₁, hdel]
      exact heach
    · rw [hcalls', hcalls]
      simp
    · rw [hmarks', hmarks]
      simp

/-- The replicas that `DeleteAllReplicas` comes to. -/
def IdleReplicas.deleted (p : IdleReplicas) : List Replica :=
  if p.count ≤ 0 then [] else p.containers

/-- The loop deletes replicas that are stored, and each at most once. -/
lemma IdleReplicas.deleted_sublist (p : IdleReplicas) : p.deleted.Sublist p.stored := by
  unfold deleted stored
  split
  · exact List.nil_sublist _
  · exact (List.sublist_append_right _ _).trans (List.sublist_append_left _ _)

/-- `DeleteAllReplicas` on a deployed function does not panic, and deletes each of the replicas it
comes to once. -/
lemma deleteAllReplicas_spec {w : World} (hw : w.WellFormed) {name : Str} {o : Ref} {f : Function}
    (hf : w.fn? name = some (o, f)) (ns : Str) (answers : Str → Answers) :
    ∃ w', w.deleteAllReplicas ns answers name = (w', none) ∧ World.SameStore w w' ∧
      w'.deleteCalls =
        (f.idleReplicas.deleted.map fun r => (r.ctrType, r.uuid)).reverse ++ w.deleteCalls ∧
      w'.deletedByAll = (f.idleReplicas.deleted.map (·.uuid)).reverse ++ w.deletedByAll := by
  obtain ⟨hwf, hname⟩ := hw.function hf
  simp only [World.deleteAllReplicas, hf, IdleReplicas.deleted]
  split
  · exact ⟨w, rfl, ⟨rfl, rfl, rfl, rfl, rfl, rfl, rfl⟩, rfl, rfl⟩
  · refine deleteEach_spec fun r hr => ?_
    obtain ⟨hr', hfname⟩ := hwf.stored r (by simp [IdleReplicas.stored, hr])
    rw [hfname, hname, hf]
    exact ⟨hr', rfl⟩

/-! ### The handler -/

/-- **A run of the delete handler** on a deployed function: the idle replicas are deleted, and then
the rows and the function unless the storage fails.

**Proof sketch.** The deletion of the idle replicas leaves the store (`deleteAllReplicas_spec`), so
the look-up of the second section still finds the function; its rows are deleted unless the storage
fails. -/
lemma deleteHandler_eq {w : World} (hw : w.WellFormed) {req : DeleteRequest} {o : Ref}
    {f : Function} (hf : w.fn? req.functionName = some (o, f)) (e : Env) :
    ∃ w₁, World.SameStore w w₁ ∧
      w₁.deleteCalls =
        (f.idleReplicas.deleted.map fun r => (r.ctrType, r.uuid)).reverse ++ w.deleteCalls ∧
      deleteHandler w req e =
        (if e.err = true then w₁
          else (w₁.deleteRows req.functionName f).dropFunction req.functionName, .returned) := by
  obtain ⟨hlookup, hheap⟩ := World.fn?_eq_some.mp hf
  obtain ⟨w₁, hall, hsame, hcalls, -⟩ := deleteAllReplicas_spec hw hf req.lookupNamespace e.answers
  have hlookup₁ : w₁.deployedFunctions.lookup req.functionName = some o := by
    rw [hsame.deployedFunctions, hlookup]
  have hheap₁ : w₁.heap[o]? = some f := by rw [hsame.heap, hheap]
  refine ⟨w₁, hsame, hcalls, ?_⟩
  cases herr : e.err with
  | true => simp [deleteHandler, solo, Thread.next, deleteNext, hall, herr]
  | false => simp [deleteHandler, solo, Thread.next, deleteNext, hall, herr, hlookup₁, hheap₁]

/-- What the delete handler does to a deployed function.

**Proof sketch.** Read off `deleteHandler_eq`, for a storage that fails and one that does not. -/
lemma deleteHandler_spec {w : World} (hw : w.WellFormed) {req : DeleteRequest} {o : Ref}
    {f : Function} (hf : w.fn? req.functionName = some (o, f)) (e : Env) :
    (deleteHandler w req e).2.isReturned = true ∧
      (deleteHandler w req e).1.deleteCalls =
        (f.idleReplicas.deleted.map fun r => (r.ctrType, r.uuid)).reverse ++ w.deleteCalls ∧
      (e.err = true →
        (deleteHandler w req e).1.deployedFunctions.lookup req.functionName = some o) ∧
      (e.err = false →
        (deleteHandler w req e).1.deployedFunctions.lookup req.functionName = none ∧
          req.functionName ∉ (deleteHandler w req e).1.functionTable) := by
  obtain ⟨w₁, hsame, hcalls, hrun⟩ := deleteHandler_eq hw hf e
  rw [hrun]
  cases e.err with
  | true =>
    refine ⟨rfl, hcalls, fun _ => ?_, fun h => absurd h (by decide)⟩
    rw [if_pos rfl, hsame.deployedFunctions, (World.fn?_eq_some.mp hf).1]
  | false =>
    refine ⟨rfl, hcalls, fun h => absurd h (by decide), fun _ => ⟨?_, ?_⟩⟩
    · simp [World.dropFunction]
    · simp [World.dropFunction, World.deleteRows]

/-! ### Which replicas are deleted -/

/-- The idle replicas of a function have different names. -/
lemma Reachable.idle_nodup {c : State} (hc : Reachable c) {f : Function} (hf : f ∈ c.shared.heap) :
    (f.idleReplicas.stored.map (·.uuid)).Nodup := by
  refine List.nodup_iff_count_le_one.mpr fun u => ?_
  have hone := hc.places_le_one u
  have hle := (c.shared_places_le false u).trans hone
  have hheld := World.places_le_held hf u
  have hunborn := c.shared.unborn_nonneg u
  have hcount : (f.idleReplicas.stored.map (·.uuid)).count u = f.idleCount u := by
    simp only [Function.idleCount, List.count, List.countP_map]
    congr 1
    funext r
    rw [Bool.eq_iff_iff]
    simp
  simp only [World.places, Bool.false_eq_true, if_false] at hle
  simp only [Function.places] at hheld
  omega

/-- Among replicas with different names one is the only one of its name. -/
lemma filter_uuid_eq {rs : List Replica} (h : (rs.map (·.uuid)).Nodup) {r : Replica} (hr : r ∈ rs) :
    rs.filter (fun r' => r'.uuid = r.uuid) = [r] := by
  induction rs with
  | nil => cases hr
  | cons r' rs ih =>
    simp only [List.map_cons, List.nodup_cons] at h
    rcases List.mem_cons.mp hr with rfl | hr
    · have hrest : rs.filter (fun r' => r'.uuid = r.uuid) = [] := by
        refine List.filter_eq_nil_iff.mpr fun r' hr' heq => h.1 ?_
        rw [← of_decide_eq_true heq]
        exact List.mem_map_of_mem hr'
      rw [List.filter_cons_of_pos (by simp), hrest]
    · have hne : r'.uuid ≠ r.uuid := fun heq => h.1 (heq ▸ List.mem_map_of_mem hr)
      rw [List.filter_cons_of_neg (by simpa using hne)]
      exact ih h.2 hr

/-- The handler has called the deletion of an idle replica once exactly when the loop of
`DeleteAllReplicas` has come to it.

**Proof sketch.** The calls of the handler are those of the list, without a second one of the same
name (`deleteHandler_spec`). So there is one just when the replica is in the list. -/
lemma callsOn_deleteHandler_iff {w : World} (hw : w.WellFormed) {req : DeleteRequest} {o : Ref}
    {f : Function} (hf : w.fn? req.functionName = some (o, f))
    (hnodup : (f.idleReplicas.stored.map (·.uuid)).Nodup) (e : Env) {r : Replica}
    (hr : r ∈ f.idleReplicas.stored) :
    (deleteHandler w req e).1.callsOn r.uuid = (r.ctrType, r.uuid) :: w.callsOn r.uuid ↔
      r ∈ f.idleReplicas.deleted := by
  have hsub := f.idleReplicas.deleted_sublist
  have hcalls : (deleteHandler w req e).1.callsOn r.uuid =
      ((f.idleReplicas.deleted.filter fun r' => r'.uuid = r.uuid).map
        fun r => (r.ctrType, r.uuid)).reverse ++ w.callsOn r.uuid := by
    have hspec := (deleteHandler_spec hw hf e).2.1
    rw [World.callsOn, hspec, List.filter_append, ← World.callsOn]
    congr 1
    rw [List.filter_reverse, List.filter_map]
    rfl
  rw [hcalls]
  constructor
  · intro h
    have hlen := congrArg List.length h
    have hne : (f.idleReplicas.deleted.filter fun r' => r'.uuid = r.uuid) ≠ [] := by
      intro hnil
      simp [hnil] at hlen
    obtain ⟨r', hr'⟩ := List.exists_mem_of_ne_nil _ hne
    obtain ⟨hmem, heq⟩ := List.mem_filter.mp hr'
    obtain rfl : r' = r :=
      List.inj_on_of_nodup_map hnodup (hsub.subset hmem) hr (of_decide_eq_true heq)
    exact hmem
  · intro h
    rw [filter_uuid_eq (hnodup.sublist (hsub.map _)) h]
    rfl

/-- The loop comes to all idle replicas only when there are none: the oldest one sits in `LRU`, or
the only one in `MRU`.

**Proof sketch.** The loop comes to replicas in `containers[]` only. The oldest one is in LRU when
there is one there, so it would be in the pool twice. -/
lemma stored_subset_deleted_iff {p : IdleReplicas} (hnodup : (p.stored.map (·.uuid)).Nodup)
    (hordered : p.Ordered) : p.stored ⊆ p.deleted ↔ p.stored = [] := by
  obtain ⟨cs, n, lru, mru⟩ := p
  have hsub : IdleReplicas.deleted ⟨cs, n, lru, mru⟩ ⊆ cs := by
    unfold IdleReplicas.deleted
    split
    · exact List.nil_subset _
    · exact fun _ h => h
  constructor
  · intro h
    cases lru with
    | some l =>
      -- it would sit in `containers[]` a second time
      have hl : l ∈ cs := hsub (h (by simp [IdleReplicas.stored]))
      simp only [IdleReplicas.stored, Option.toList_some, List.cons_append, List.map_cons,
        List.nodup_cons] at hnodup
      exact absurd (List.mem_map_of_mem (List.mem_append_left _ hl)) hnodup.1
    | none =>
      have hcs : cs = [] := by
        by_contra hne
        exact hordered hne rfl
      subst hcs
      exact List.eq_nil_iff_forall_not_mem.mpr fun r hr => List.not_mem_nil (hsub (h hr))
  · intro h
    rw [h]
    exact List.nil_subset _

/-- **When the delete handler deletes all.** On a deployed function of a reachable state it calls
the deletion of every idle replica just once and removes the function exactly when the deletion from
the storage succeeds and no replica is idle.

**Proof sketch.** The loop deletes each replica of `containers[]` once, when the counter is not
zero, and no other replica. The idle replicas have different names, so no call on one is a call
on another, and the oldest one never sits in `containers[]`. -/
theorem deletesAll_iff {c : State} (hc : Reachable c) {req : DeleteRequest} {o : Ref} {f : Function}
    (hf : c.shared.fn? req.functionName = some (o, f)) (e : Env) :
    DeletesAll c.shared req f e ↔ e.err = false ∧ f.idleReplicas.stored = [] := by
  have hw := hc.wellFormed.1
  have hnodup := hc.idle_nodup (List.mem_of_getElem? (World.heap_of_fn? hf))
  obtain ⟨hret, -, hstays, hgone⟩ := deleteHandler_spec hw hf e
  rw [← stored_subset_deleted_iff hnodup (hw.function hf).1.ordered]
  constructor
  · intro h
    constructor
    · cases herr : e.err with
      | false => rfl
      | true =>
        have hsome := hstays herr
        rw [h.undeployed] at hsome
        cases hsome
    · intro r hr
      exact (callsOn_deleteHandler_iff hw hf hnodup e hr).mp (h.replicas r hr)
  · rintro ⟨herr, hsub⟩
    obtain ⟨hdep, hrow⟩ := hgone herr
    exact ⟨hret, fun r hr => (callsOn_deleteHandler_iff hw hf hnodup e hr).mpr (hsub hr), hdep,
      hrow⟩

/-- A function without replicas is deployed, and the handler deletes it. -/
theorem deletesAll_deployF : ∃ c o f, smallRun (deployF ∅) = some c ∧
    c.shared.fn? "f".toList = some (o, f) ∧
      DeletesAll c.shared { functionName := "f".toList } f {} := by
  have h : (smallRun (deployF ∅)).any (fun c => (c.shared.fn? "f".toList).any fun of =>
      decide (of.2.idleReplicas.stored = [])) = true := by decide
  obtain ⟨c, hc, h⟩ := (Option.any_eq_true _ _).mp h
  obtain ⟨⟨o, f⟩, hf, h⟩ := (Option.any_eq_true _ _).mp h
  exact ⟨c, o, f, hc, hf,
    (deletesAll_iff (reachable_of_smallRun hc) hf {}).mpr ⟨rfl, of_decide_eq_true h⟩⟩

/-- After one invocation the replica of `f` is idle, in `MRU`, and the handler does not delete
it. -/
theorem not_deletesAll_invokeF :
    ∃ c o f, smallRun (deployF ∅ ++ invokeF 1 12 { uuid := "1".toList, pid := 7 }) = some c ∧
      c.shared.fn? "f".toList = some (o, f) ∧
        ¬ DeletesAll c.shared { functionName := "f".toList } f {} := by
  have h : (smallRun (deployF ∅ ++ invokeF 1 12 { uuid := "1".toList, pid := 7 })).any
      (fun c => (c.shared.fn? "f".toList).any fun of =>
        !decide (DeletesAll c.shared { functionName := "f".toList } of.2 {})) = true := by decide
  obtain ⟨c, hc, h⟩ := (Option.any_eq_true _ _).mp h
  obtain ⟨⟨o, f⟩, hf, h⟩ := (Option.any_eq_true _ _).mp h
  exact ⟨c, o, f, hc, hf, by simpa using h⟩

end Fecore
