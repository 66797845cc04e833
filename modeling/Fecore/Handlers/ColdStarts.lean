import Mathlib.Algebra.Order.Group.Nat
import Mathlib.Tactic.Common
import Fecore.Handlers.PoolClocks

set_option relaxedAutoImplicit false
set_option autoImplicit false

/-!
# Cold starts

How often an invocation finds no idle replica and creates one (`Resolve` and `GetIdleReplica` of
`pkg/provider/handlers`). An invocation that ends gives its replica to the idle pool, so a replica
is created again only when more invocations are under way than ever before, when a creation has
failed, or when a replica has been lost: expired and swept, deleted with its function, not given
back, or left in `containers[]` with no `MRU` before it.

## Main definitions

* `Fecore.Thread.coldStarts` — what a section counts as a cold start.
* `Fecore.Thread.lost`, `Thread.unserved`, `Thread.stranded` — the replicas of a function that a
  section loses, the invocations that it ends without their having had a replica, and the replicas
  that a sweep puts out of reach.
* `Fecore.State.inFlight`, `State.kept` — the invocations of a function that are under way; its idle
  replicas in reach and those that these invocations use.

## Main results

* `Fecore.section_keeps` — a section adds a cold start to the replicas that are kept, and takes from
  them what it loses.
* `Fecore.coldStarts_le` — in every run there are at most as many cold starts as there were
  invocations under way at once, replicas lost, and one more; no replica is put out of reach while
  the time stamps do not go back.

## Design

`AddIdleReplica` takes its time stamp before it takes the lock of the pool, so the stamps in a pool
need not be in the order in which the replicas came. The runs here put no condition on the stamps:
each section has a time of its own. Only then can a sweep take an expired `MRU` out while there are
others before it.
-/

namespace Fecore

/-! ### What is counted -/

/-- The name in the request leads to the function. -/
def Request.invokes (req : Request) (f : Str) : Bool := actualFunctionName req.functionName = f

/-- One for an invocation of the function that is under way. -/
def Thread.inFlight (f : Str) : Thread → ℕ
  | .request req _ => if req.invokes f then 1 else 0
  | _ => 0

/-- One when the invocation has been to the idle pool: it creates, uses or returns a replica, or
goes on without one. -/
def RequestPc.holds : RequestPc → ℕ
  | .resolve | .policy _ | .idle _ => 0
  | _ => 1

/-- The invocation has a replica; without one it goes on with an empty name. -/
def RequestPc.served : RequestPc → Bool
  | .resolve | .policy _ | .idle _ | .create _ _ => false
  | .build _ replicaName | .exec _ replicaName | .labels _ replicaName | .take _ replicaName
  | .look replicaName _ => replicaName ≠ []
  | .give _ | .del _ => true

/-- The next section of the invocation is its last one. -/
def Request.endsAt (w : World) (e : Env) (req : Request) (pc : RequestPc) : Bool :=
  match requestNext w req pc e with
  | some (_, .request _ _, _) => false
  | _ => true

/-- One for an invocation of the function that has been to the idle pool. -/
def Thread.holds (f : Str) : Thread → ℕ
  | .request req pc => if req.invokes f then pc.holds else 0
  | _ => 0

/-- The replicas of the pool that are in reach: without an `MRU` those in `containers[]` are not. -/
def IdleReplicas.inReach (p : IdleReplicas) : ℕ :=
  if p.mru = none then p.lru.toList.length else p.stored.length

/-- How many replicas the idle pool of the function has in reach. -/
def World.pooled (f : Str) (w : World) : ℕ :=
  match w.fn? f with
  | none => 0
  | some (_, g) => g.idleReplicas.inReach

/-- How many invocations of the function are under way. -/
def State.inFlight (f : Str) (s : State) : ℕ := (s.threads.map (·.inFlight f)).sum

/-- The replicas of the function that are idle and in reach, and one for each of its invocations
that has been to the idle pool. -/
def State.kept (f : Str) (s : State) : ℕ := s.ledger (World.pooled f) (Thread.holds f)

/-- One when an invocation of the function asks its idle pool in vain; a replica is created next. -/
def Thread.coldStarts (f : Str) (w : World) (_ : Env) : Thread → ℕ
  | .request req (.idle fn) =>
    if req.invokes f ∧ fn.pool = f then
      match w.getIdleReplica f with
      | .ok none => 1
      | _ => 0
    else 0
  | _ => 0

/-- The replicas of the function that a section loses. -/
def Thread.lost (f : Str) (w : World) (e : Env) : Thread → ℕ
  | .request req pc =>
    if req.invokes f then
      match pc with
      -- the replica goes to the pool that its name leads to
      | .give replica => if replica.fname = f ∧ (w.fn? f).isSome then 0 else 1
      -- the invocation ends with its replica
      | pc => if req.endsAt w e pc ∧ pc.served then 1 else 0
    else
      match pc with
      -- an invocation of a hybrid function takes a replica
      | .idle fn =>
        if fn.pool = f then
          match w.getIdleReplica f with
          | .ok (some _) => 1
          | _ => 0
        else 0
      | _ => 0
  | .sweep (.pool currTs _ _ fn) =>
    if (w.heap[fn]?).map Function.name = some f then (w.sweptFrom fn currTs).length else 0
  | .delete req .unmap => if req.functionName = f then w.pooled f else 0
  -- the object that was deployed under the name is replaced
  | .deploy (.map fn) => if fn.name = f then w.pooled f else 0
  | _ => 0

/-- One when an invocation of the function ends that has asked for a replica and had none. -/
def Thread.unserved (f : Str) (w : World) (e : Env) : Thread → ℕ
  | .request req pc =>
    if req.invokes f ∧ req.endsAt w e pc ∧ ¬ pc.served then pc.holds else 0
  | _ => 0

/-- The replicas of the function that a sweep leaves in `containers[]` when it takes the `MRU`
out. -/
def Thread.stranded (f : Str) (w : World) (_ : Env) : Thread → ℕ
  | .sweep (.pool currTs _ _ fn) =>
    match w.heap[fn]? with
    | none => 0
    | some g =>
      if g.name = f then
        match (g.idleReplicas.sweep w.cfg currTs).2 with
        | .mru (some _) => g.idleReplicas.containers.length
        | _ => 0
      else 0
  | _ => 0

/-! ### Replicas in reach -/

namespace IdleReplicas

/-- With an `MRU` all replicas are in reach. -/
lemma inReach_of_mru {p : IdleReplicas} (h : p.mru ≠ none) : p.inReach = p.stored.length :=
  if_neg h

/-- Without one only the `LRU` is. -/
lemma inReach_le_one {p : IdleReplicas} (h : p.mru = none) : p.inReach ≤ 1 := by
  rw [inReach, if_pos h]
  cases p.lru <;> simp

/-- All that is in reach is in the pool. -/
lemma inReach_le (p : IdleReplicas) : p.inReach ≤ p.stored.length := by
  unfold inReach stored
  split
  · simp only [List.length_append]
    omega
  · exact le_rfl

/-- A replica that is added is in reach, and so are the others. -/
lemma inReach_add (p : IdleReplicas) (r : Replica) (now : Time) :
    p.inReach + 1 ≤ (p.add r now).inReach := by
  have hmru : (p.add r now).mru ≠ none := by
    unfold add
    split
    · exact Option.some_ne_none _
    · split <;> exact Option.some_ne_none _
  have hle := p.inReach_le
  rw [inReach_of_mru hmru, stored_add, List.length_append, List.length_singleton]
  omega

/-- `RemoveIdleReplica` takes one replica at most. -/
lemma length_stored_remove (p : IdleReplicas) : p.stored.length ≤ p.remove.stored.length + 1 := by
  cases hlru : p.lru with
  | some r =>
    rw [stored_remove hlru, List.length_cons]
  | none =>
    unfold remove
    split
    · next hcs =>
      simp only [stored, hlru, hcs, Option.toList_none, Option.toList_some, List.length_append,
        List.length_nil, List.length_cons]
      omega
    · next hcs =>
      simp only [stored, hlru, hcs]
      exact Nat.le_add_right _ _

/-- `RemoveIdleReplica` takes one at most out of reach. -/
lemma inReach_remove (p : IdleReplicas) : p.inReach ≤ p.remove.inReach + 1 := by
  have hmru : p.remove.mru = p.mru := by
    unfold remove
    split <;> rfl
  by_cases h : p.mru = none
  · exact (inReach_le_one h).trans (Nat.le_add_left _ _)
  · rw [inReach_of_mru h, inReach_of_mru (hmru ▸ h)]
    exact p.length_stored_remove

/-- Without its `MRU`, a pool has lost that one, and those in `containers[]` are out of reach. -/
lemma inReach_of_sweep_mru {cfg : Config} {currTs : Time} {p : IdleReplicas} {r : Replica}
    (h : (p.sweep cfg currTs).2 = .mru (some r)) :
    p.inReach ≤ { p with mru := none }.inReach + 1 + p.containers.length := by
  have hle := p.inReach_le
  rw [stored_of_sweep_mru h] at hle
  simp only [stored, Option.toList_none, List.append_nil, List.length_append,
    List.length_singleton] at hle
  have hleft : { p with mru := none }.inReach = p.lru.toList.length := if_pos rfl
  omega

/-- **While the stamps are in order, a sweep puts no replica out of reach.**

**Proof sketch.** A sweep takes the `MRU` out where the `LRU` has not expired. As all others were
used after it, there is no `LRU` then, and nothing in `containers[]`. -/
lemma containers_of_sweep_mru {cfg : Config} {currTs now : Time} {p : IdleReplicas} {r : Replica}
    (hordered : p.Ordered) (htime : p.InTime now)
    (hsweep : (p.sweep cfg currTs).2 = .mru (some r)) : p.containers = [] := by
  have hfresh := fresh_of_sweep_mru hordered htime hsweep
  simp only [sweep_fst_of_mru hsweep, Option.isSome_some, if_true] at hfresh
  have hsorted := htime.sorted
  rw [stored_of_sweep_mru hsweep, List.pairwise_append] at hsorted
  refine List.eq_nil_iff_forall_not_mem.mpr fun c hc => ?_
  have hmem : c ∈ { p with mru := none }.stored := by
    simp only [stored, Option.toList_none, List.append_nil]
    exact List.mem_append_right _ hc
  have hle := hsorted.2.2 c hmem r (List.mem_singleton_self r)
  have hexpired := Config.expired_mono hle (expired_of_sweep_mru hsweep)
  rw [hfresh c hmem] at hexpired
  cases hexpired

end IdleReplicas

/-- `GetIdleReplica` takes one replica, and refills the `MRU`.

**Proof sketch.** One replica leaves the pool (`Function.takeIdle_spec`), so the count goes down by
one at most as long as there is an MRU. There is none afterwards only if nothing was in
`containers[]`, and then all that is left is in reach. -/
lemma Function.inReach_takeIdle {f f' : Function} {r : Replica} (h : f.takeIdle = some (r, f')) :
    f.idleReplicas.inReach ≤ f'.idleReplicas.inReach + 1 := by
  obtain ⟨hst, -, -⟩ := Function.takeIdle_spec h
  have hlen : f.idleReplicas.inReach ≤ f'.idleReplicas.stored.length + 1 := by
    have := f.idleReplicas.inReach_le
    rwa [hst, List.length_append, List.length_singleton] at this
  by_cases hmru : f'.idleReplicas.mru = none
  · -- nothing was in `containers[]`
    have hcs : f'.idleReplicas.containers = [] := by
      unfold Function.takeIdle at h
      split at h
      · cases h
      · dsimp only at h
        split at h
        · cases h
          cases hmru
        · next hlast =>
          cases h
          exact List.getLast?_eq_none_iff.mp hlast
    have hleft : f'.idleReplicas.inReach = f'.idleReplicas.lru.toList.length := if_pos hmru
    rw [IdleReplicas.stored, hcs, hmru] at hlen
    simpa [hleft] using hlen
  · rwa [IdleReplicas.inReach_of_mru hmru]

/-! ### One section -/

section Kept

variable {w w' : World} {e : Env} {t t' : Thread} {new : List Thread} {f : Str}

/-- The pool of a function that is deployed. -/
lemma World.pooled_of_fn? {o : Ref} {g : Function} (hf : w.fn? f = some (o, g)) :
    w.pooled f = g.idleReplicas.inReach := by
  rw [World.pooled, hf]

/-- A function that is not deployed has no idle replicas. -/
lemma World.pooled_of_none (hf : w.fn? f = none) : w.pooled f = 0 := by
  rw [World.pooled, hf]

/-- The idle replicas of a function are those of its object. -/
lemma World.pooled_congr (h : w'.fn? f = w.fn? f) : w'.pooled f = w.pooled f := by
  rw [World.pooled, h, World.pooled]

/-- **The idle replicas of a function after a write to an object**, by what the write takes when the
object is one of the function.

**Proof sketch.** The look-up of the function finds the object that is written or another one
(`World.fn?_setFn`). In the first case the hypothesis applies, since an object is filed under its
own name; in the second nothing has changed. -/
lemma World.pooled_setFn {o : Ref} {g g' : Function} (hw : w.WellFormed) (ho : w.heap[o]? = some g)
    {k : ℕ} (hk : g.name = f →
      g.idleReplicas.inReach ≤ g'.idleReplicas.inReach + k) :
    w.pooled f ≤ (w.setFn o g').pooled f + k := by
  cases hf : w.fn? f with
  | none =>
    rw [World.pooled_of_none hf]
    exact Nat.zero_le _
  | some og =>
    obtain ⟨o₁, g₁⟩ := og
    have hf' : (w.setFn o g').fn? f =
        (w.fn? f).map fun p => if p.1 = o then (o, g') else p := World.fn?_setFn ho f
    rw [hf, Option.map_some] at hf'
    by_cases heq : o₁ = o
    · subst heq
      obtain rfl := Option.some.inj ((World.heap_of_fn? hf).symm.trans ho)
      rw [if_pos rfl] at hf'
      rw [World.pooled_of_fn? hf, World.pooled_of_fn? hf']
      exact hk (hw.named f o₁ g₁ hf)
    · rw [if_neg heq] at hf'
      rw [World.pooled_of_fn? hf, World.pooled_of_fn? hf']
      exact Nat.le_add_right _ _

/-- A creation takes nothing from the idle pools. -/
lemma createSection_idle {call : CreateCall} {pc : CreatePc} {result : CreateResult}
    (hw : w.WellFormed) (hsec : CreateSection w call e pc w' result) :
    w.pooled f ≤ w'.pooled f := by
  cases hsec with
  | addActive hact hf hstats =>
    exact World.pooled_setFn (k := 0) hw (World.heap_of_fn? hf) fun _ => le_rfl
  | noStats hact hf =>
    exact World.pooled_setFn (k := 0) hw (World.heap_of_fn? hf) fun _ => le_rfl
  | addIdle hact hf =>
    exact World.pooled_setFn (k := 0) hw (World.heap_of_fn? hf) fun _ =>
      Nat.le_of_succ_le (IdleReplicas.inReach_add _ _ _)
  | _ => exact le_rfl

/-- An invocation takes nothing from the idle pools but in `GetIdleReplica`. -/
lemma requestSection_idle {req : Request} {pc : RequestPc} (hw : w.WellFormed)
    (hsec : RequestSection w req e pc w' t' new) (hpc : ∀ fn, pc ≠ .idle fn) :
    w.pooled f ≤ w'.pooled f := by
  cases hsec with
  | idle => exact absurd rfl (hpc _)
  | create hsec => exact createSection_idle hw hsec
  | take hf => exact World.pooled_setFn (k := 0) hw (World.heap_of_fn? hf) fun _ => le_rfl
  | give hf =>
    exact World.pooled_setFn (k := 0) hw (World.heap_of_fn? hf) fun _ =>
      Nat.le_of_succ_le (IdleReplicas.inReach_add _ _ _)
  | del hdel => exact (World.pooled_congr ((World.sameStore_of_deleteReplica hdel).fn? f)).ge
  | delFault hdel => exact (World.pooled_congr ((World.sameStore_of_deleteReplica hdel).fn? f)).ge
  | _ => exact le_rfl

/-- An invocation that goes on keeps the replica that it has.

**Proof sketch.** Case split on the section, and for a creation on how it ends. -/
lemma requestSection_holds {req req' : Request} {pc pc' : RequestPc}
    (hsec : RequestSection w req e pc w' t' new) (ht' : t' = .request req' pc') :
    req' = req ∧ pc.holds ≤ pc'.holds := by
  cases hsec with
  | create hsec =>
    rename_i result
    cases result with
    | running pc =>
      cases ht'
      exact ⟨rfl, le_rfl⟩
    | returned replicaName replicaIP =>
      cases ht'
      exact ⟨rfl, le_rfl⟩
    | failed =>
      simp only [Thread.afterCreate] at ht'
      split at ht'
      · cases ht'
        exact ⟨rfl, le_rfl⟩
      · cases ht'
    | panicked fault => cases ht'
  | _ => first
    | cases ht'; exact ⟨rfl, by simp [RequestPc.holds]⟩
    | cases ht'

/-- `GetIdleReplica` panics for a function that is not deployed. -/
lemma World.getIdleReplica_of_none {fn : Str} (hf : w.fn? fn = none) :
    w.getIdleReplica fn = .error .absentFunction := by
  rw [World.getIdleReplica, hf]

/-- `GetIdleReplica` takes a replica from the pool of the function. -/
lemma World.getIdleReplica_of_fn? {fn : Str} {o : Ref} {g : Function}
    (hf : w.fn? fn = some (o, g)) :
    w.getIdleReplica fn = .ok (g.takeIdle.map fun rg => (rg.1, w.setFn o rg.2)) := by
  rw [World.getIdleReplica, hf]
  cases htake : g.takeIdle <;> simp only [htake, Option.map_none, Option.map_some]

/-- `GetIdleReplica` finds none: a cold start for the invocations of the function.

**Proof sketch.** Case split on what the look-up finds. Without a function or a replica nothing
leaves the pool; with one the pool loses one replica (`Function.inReach_takeIdle`), which the
invocation holds or which is lost. -/
lemma requestSection_keeps_idle {req : Request} {fn : Resolving} (hw : w.WellFormed)
    (hsec : RequestSection w req e (.idle fn) w' t' new) :
    (Thread.request req (.idle fn)).coldStarts f w e + w.pooled f ≤
      w'.pooled f + t'.holds f + (Thread.request req (.idle fn)).lost f w e := by
  cases hsec with
  | idleAbsent hf =>
    by_cases hpool : fn.pool = f
    · subst hpool
      simp only [Thread.coldStarts, World.getIdleReplica_of_none hf, ite_self]
      omega
    · simp only [Thread.coldStarts, hpool, and_false, if_false]
      omega
  | idleNone hf htake =>
    by_cases hinv : req.invokes f
    · have hcold : (Thread.request req (.idle fn)).coldStarts f w e ≤ 1 := by
        simp only [Thread.coldStarts]
        split
        · split <;> omega
        · exact Nat.zero_le _
      simp only [Thread.holds, hinv, if_true, RequestPc.holds]
      omega
    · simp only [Thread.coldStarts, hinv, Bool.false_eq_true, false_and, if_false]
      omega
  | @idle fn o g g' replica hf htake =>
    have hname := hw.named _ _ _ hf
    have hidle : w.pooled f ≤ (w.setFn o g').pooled f + if fn.pool = f then 1 else 0 := by
      refine World.pooled_setFn hw (World.heap_of_fn? hf) fun hf' => ?_
      rw [if_pos (hname.symm.trans hf')]
      exact Function.inReach_takeIdle htake
    have hget := World.getIdleReplica_of_fn? hf
    rw [htake, Option.map_some] at hget
    by_cases hpool : fn.pool = f
    · subst hpool
      simp only [Thread.coldStarts, Thread.holds, Thread.lost, RequestPc.holds, hget, if_true,
        ite_self] at hidle ⊢
      split <;> omega
    · simp only [Thread.coldStarts, hpool, and_false, if_false] at hidle ⊢
      omega

/-- An invocation that has a replica has been to the idle pool. -/
lemma RequestPc.holds_of_served {pc : RequestPc} (h : pc.served = true) : pc.holds = 1 := by
  cases pc <;> first
    | rfl
    | cases h

/-- An invocation that ends before it returns a replica loses it, or had none. -/
lemma Thread.lost_of_invokes {req : Request} {pc : RequestPc} (hinv : req.invokes f = true)
    (hgive : ∀ replica, pc ≠ .give replica) :
    (Thread.request req pc).lost f w e + (Thread.request req pc).unserved f w e =
      if req.endsAt w e pc then pc.holds else 0 := by
  have hlost : (Thread.request req pc).lost f w e =
      if req.endsAt w e pc ∧ pc.served then 1 else 0 := by
    cases pc with
    | give replica => exact absurd rfl (hgive replica)
    | _ => simp only [Thread.lost, hinv, if_true]
  rw [hlost, Thread.unserved]
  cases hend : req.endsAt w e pc with
  | false => simp
  | true =>
    cases hserved : pc.served with
    | true => simp [RequestPc.holds_of_served hserved]
    | false => simp [hinv]

/-- A replica that is returned comes to the idle pool, or is lost. -/
lemma requestSection_keeps_give {req : Request} {replica : Replica} (hw : w.WellFormed)
    (hinv : req.invokes f = true) (hsec : RequestSection w req e (.give replica) w' t' new) :
    w.pooled f + 1 ≤ w'.pooled f + (Thread.request req (.give replica)).lost f w e := by
  have hle := requestSection_idle (f := f) hw hsec fun fn hfn => by cases hfn
  simp only [Thread.lost, hinv, if_true]
  split
  · next hback =>
    obtain ⟨rfl, hsome⟩ := hback
    cases hsec with
    | giveAbsent hf => simp [hf] at hsome
    | give hf =>
      rw [World.pooled_of_fn? hf, World.pooled_of_fn? (World.fn?_setFn_self hf _), add_zero]
      exact IdleReplicas.inReach_add _ _ _
  · omega

/-- **What an invocation keeps**: a cold start brings a replica, and one that ends has given its
replica back, or loses it, or had none.

**Proof sketch.** Case split on where the invocation is. At the look-up of an idle replica
`requestSection_keeps_idle` counts the cold start, and at the return of the replica
`requestSection_keeps_give` counts what is lost. Elsewhere the pool stays as it is, and the
invocation ends without having had a replica or goes on with the one that it holds. -/
lemma requestSection_keeps {req : Request} {pc : RequestPc} (hw : w.WellFormed)
    (h : requestNext w req pc e = some (w', t', new)) :
    (Thread.request req pc).coldStarts f w e + (w.pooled f + (Thread.request req pc).holds f) ≤
      w'.pooled f + t'.holds f + ((Thread.request req pc).lost f w e +
        (Thread.request req pc).unserved f w e) := by
  have hsec := requestNext_cases h
  by_cases hidle : ∃ fn, pc = .idle fn
  · obtain ⟨fn, rfl⟩ := hidle
    have hholds : (Thread.request req (.idle fn)).holds f = 0 := by
      simp only [Thread.holds, RequestPc.holds, ite_self]
    have := requestSection_keeps_idle (f := f) hw hsec
    omega
  · have hle := requestSection_idle (f := f) hw hsec fun fn hfn => hidle ⟨fn, hfn⟩
    have hcold : (Thread.request req pc).coldStarts f w e = 0 := by
      unfold Thread.coldStarts
      split
      · next heq =>
        cases heq
        exact absurd ⟨_, rfl⟩ hidle
      · rfl
    by_cases hinv : req.invokes f
    · by_cases hgive : ∃ replica, pc = .give replica
      · obtain ⟨replica, rfl⟩ := hgive
        have := requestSection_keeps_give hw hinv hsec
        simp only [hcold, Thread.holds, hinv, if_true, RequestPc.holds]
        omega
      · rw [hcold, Thread.lost_of_invokes hinv (fun r hr => hgive ⟨r, hr⟩), Thread.holds,
          if_pos hinv, Request.endsAt, h]
        cases t' with
        | request req' pc' =>
          obtain ⟨rfl, hholds⟩ := requestSection_holds hsec rfl
          simp only [Thread.holds, hinv, if_true]
          omega
        | _ =>
          dsimp only
          rw [if_pos rfl]
          omega
    · simp only [hcold, Thread.holds, hinv, Bool.false_eq_true, if_false]
      omega

/-- What a sweep removes from the pool of an object, the function loses when it is one of its. -/
lemma Thread.lost_sweep {currTs : Time} {began visited : List Str} {fn : Ref} {g : Function}
    (hheap : w.heap[fn]? = some g) :
    (Thread.sweep (.pool currTs began visited fn)).lost f w e =
      if g.name = f then (w.sweptFrom fn currTs).length else 0 := by
  simp only [Thread.lost, hheap, Option.map_some, Option.some.injEq]

/-- What a sweep that takes the `MRU` out of the pool of an object puts out of reach. -/
lemma Thread.stranded_sweep {currTs : Time} {began visited : List Str} {fn : Ref} {g : Function}
    {r : Replica} (hheap : w.heap[fn]? = some g)
    (hsweep : (g.idleReplicas.sweep w.cfg currTs).2 = .mru (some r)) :
    (Thread.sweep (.pool currTs began visited fn)).stranded f w e =
      if g.name = f then g.idleReplicas.containers.length else 0 := by
  simp only [Thread.stranded, hheap, hsweep]

/-- The `MRU` that a sweep takes out is lost, and those behind it are out of reach. -/
lemma World.pooled_sweep_mru {fn : Ref} {g : Function} {currTs : Time} {replica : Replica}
    (hw : w.WellFormed) (hheap : w.heap[fn]? = some g)
    (hsweep : (g.idleReplicas.sweep w.cfg currTs).2 = .mru (some replica)) {w₁ : World}
    (hsame : World.SameStore (w.setFn fn { g with
      idleReplicas := { g.idleReplicas with mru := none } }) w₁) (began visited : List Str) :
    w.pooled f ≤ w₁.pooled f + ((Thread.sweep (.pool currTs began visited fn)).lost f w e +
      (Thread.sweep (.pool currTs began visited fn)).stranded f w e) := by
  rw [World.pooled_congr (hsame.fn? f), Thread.lost_sweep hheap, Thread.stranded_sweep hheap hsweep,
    World.sweptFrom_of_heap hheap, hsweep]
  refine World.pooled_setFn hw hheap fun hname => ?_
  rw [if_pos hname, if_pos hname]
  have := IdleReplicas.inReach_of_sweep_mru hsweep
  simp only [Option.toList_some, List.length_singleton]
  omega

/-- **What a sweep takes** from the idle pool of the function is lost or out of reach.

**Proof sketch.** Only the section that removes from a pool changes it. Taking LRU removes one
replica, which is counted as lost when the object is one of the function; where MRU is taken the
rest of the pool is counted as stranded (`World.pooled_sweep_mru`). -/
lemma sweepSection_keeps {pc : SweepPc} (hw : w.WellFormed) (hsec : SweepSection w e pc w' t') :
    w.pooled f ≤ w'.pooled f +
      ((Thread.sweep pc).lost f w e + (Thread.sweep pc).stranded f w e) := by
  cases hsec with
  | @lru currTs began visited fn o g g' replica hheap hsweep hf =>
    have hname := hw.named _ _ _ hf
    rw [Thread.lost_sweep hheap, World.sweptFrom_of_heap hheap, hsweep]
    have hle : w.pooled f ≤ (w.setFn o { g' with
        idleReplicas := g'.idleReplicas.remove }).pooled f + if g.name = f then 1 else 0 := by
      refine World.pooled_setFn hw (World.heap_of_fn? hf) fun hg' => ?_
      rw [if_pos (hname ▸ hg')]
      exact IdleReplicas.inReach_remove _
    refine hle.trans ?_
    rw [← add_assoc]
    exact Nat.le_add_right _ _
  | mru hheap hsweep hdel =>
    exact World.pooled_sweep_mru hw hheap hsweep (World.sameStore_of_deleteReplica hdel) _ _
  | mruFault hheap hsweep hdel =>
    have hsame := World.sameStore_of_deleteReplica hdel
    exact World.pooled_sweep_mru hw hheap hsweep
      ⟨hsame.1, hsame.2, hsame.3, hsame.4, hsame.5, hsame.6, hsame.7⟩ _ _
  | del hdel =>
    rw [World.pooled_congr ((World.sameStore_of_deleteReplica hdel).fn? f)]
    exact Nat.le_add_right _ _
  | @delFault _ _ _ _ _ w₁ _ hdel =>
    have hfn : World.fn? { w₁ with cleanupMu := false } f = w.fn? f :=
      (World.sameStore_of_deleteReplica hdel).fn? f
    rw [World.pooled_congr hfn]
    exact Nat.le_add_right _ _
  | _ => exact Nat.le_add_right _ _

/-- **One section adds a cold start to the replicas of a function that are kept, and takes from them
what it loses.**

**Proof sketch.** An invocation takes an idle replica, or creates one after a cold start, and has it
until it ends. It ends in `AddIdleReplica`, or the replica is lost, or there was none. All others
take from the idle pool at most what is counted as lost or out of reach. -/
theorem section_keeps (h : provider.next w t e = some (w', t', new)) (hw : w.WellFormed) :
    t.coldStarts f w e + (w.pooled f + t.holds f) ≤
      w'.pooled f + t'.holds f + (t.lost f w e + t.unserved f w e + t.stranded f w e) := by
  have hsec := next_cases h
  have hsame : ∀ {w₁ : World} {k : ℕ}, w₁.fn? f = w.fn? f →
      0 + (w.pooled f + 0) ≤ w₁.pooled f + k + (0 + 0 + 0) := by
    intro w₁ k hfn
    rw [World.pooled_congr hfn]
    omega
  cases hsec with
  | request => exact requestSection_keeps hw h
  | @spawn call pc _ result hsec =>
    have hle := createSection_idle (f := f) hw hsec
    simp only [Thread.coldStarts, Thread.holds, Thread.lost, Thread.unserved, Thread.stranded]
    omega
  | @sweep pc _ _ hsec =>
    have hle := sweepSection_keeps (f := f) hw hsec
    simp only [Thread.coldStarts, Thread.holds, Thread.unserved]
    omega
  | deleteAll hdel => exact hsame ((World.sameStore_of_deleteAllReplicas hdel).fn? f)
  | deleteAllFault hdel => exact hsame ((World.sameStore_of_deleteAllReplicas hdel).fn? f)
  | @unmap req =>
    by_cases hname : req.functionName = f
    · simp only [Thread.coldStarts, Thread.holds, Thread.lost, Thread.unserved, Thread.stranded,
        if_pos hname]
      omega
    · exact hsame (by rw [World.fn?_dropFunction, if_neg (Ne.symm hname)])
  | insert hdeploy hins =>
    obtain ⟨-, rows, rfl⟩ := World.insertFunction_eq hins
    exact hsame rfl
  | @map fn =>
    by_cases hname : fn.name = f
    · simp only [Thread.coldStarts, Thread.holds, Thread.lost, Thread.unserved, Thread.stranded,
        if_pos hname]
      omega
    · exact hsame (by rw [World.fn?_putFunction hw.valid, if_neg (Ne.symm hname)])
  | @policy fn updated o g hf =>
    have hle : w.pooled f ≤
        (w.setFn o { g with policy := World.updatedPolicy g.policy updated }).pooled f + 0 :=
      World.pooled_setFn hw (World.heap_of_fn? hf) fun _ => le_rfl
    simp only [Thread.coldStarts, Thread.holds, Thread.lost, Thread.unserved, Thread.stranded]
    omega
  | _ => exact hsame rfl

end Kept

/-! ### Runs -/

/-- A move adds a cold start to what is kept, and takes from it what is lost. -/
lemma step_keeps {f : Str} {s s' : State} {m : Event} (hwf : State.WellFormed s)
    (hstep : provider.step s m = some s') :
    s.count (fun w e t => t.coldStarts f w e) m + s.kept f ≤
      s'.kept f +
        s.count (fun w e t => t.lost f w e + t.unserved f w e + t.stranded f w e) m := by
  obtain ⟨t, rfl, hent, rfl⟩ | ⟨i, e, t, w', t', new, rfl, ht, hn, rfl⟩ :=
    Interleaving.Program.step_cases hstep
  · simp only [Interleaving.Config.count_arrive, State.kept, Interleaving.Config.ledger,
      List.map_append, List.sum_append]
    omega
  · have hsec := section_keeps (f := f) hn hwf.1
    have hledger := Interleaving.ledger_section (World.pooled f) (Thread.holds f) w' t' new ht
    rw [Interleaving.Config.count_step _ ht, Interleaving.Config.count_step _ ht]
    simp only [State.kept]
    omega

/-- An invocation that has been to the idle pool is under way. -/
lemma Thread.holds_le_inFlight (f : Str) (t : Thread) : t.holds f ≤ t.inFlight f := by
  cases t with
  | request req pc =>
    simp only [Thread.holds, Thread.inFlight]
    split
    · cases pc <;> simp [RequestPc.holds]
    · exact le_rfl
  | _ => exact le_rfl

/-- An invocation that has no replica is one more under way than those that have one. -/
lemma State.holds_lt_inFlight {f : Str} {s : State} {i : ℕ} {t : Thread}
    (ht : s.threads[i]? = some t) (hlt : t.holds f < t.inFlight f) :
    (s.threads.map (Thread.holds f)).sum < s.inFlight f := by
  have hle : (s.threads.map (Thread.holds f)).sum + (t.inFlight f - t.holds f) ≤ s.inFlight f :=
    Interleaving.sum_add_sub_le (Thread.holds_le_inFlight f) ht
  omega

/-- A cold start: an invocation of the function without a replica, and a pool with an empty
`MRU`.

**Proof sketch.** Unfold the count, and split where it is not zero: the goroutine is an invocation
of the function at the look-up, and the look-up finds the function without an idle replica. -/
lemma Thread.eq_of_coldStarts {f : Str} {w : World} {e : Env} {t : Thread}
    (hcold : t.coldStarts f w e ≠ 0) : ∃ req fn o g, t = .request req (.idle fn) ∧
      req.invokes f = true ∧ fn.pool = f ∧ w.fn? f = some (o, g) ∧ g.takeIdle = none := by
  unfold Thread.coldStarts at hcold
  split at hcold
  · next req fn =>
    split at hcold
    · next hask =>
      cases hf : w.fn? f with
      | none => simp [World.getIdleReplica_of_none hf] at hcold
      | some og =>
        obtain ⟨o, g⟩ := og
        rw [World.getIdleReplica_of_fn? hf] at hcold
        cases htake : g.takeIdle with
        | none => exact ⟨req, fn, o, g, rfl, hask.1, hask.2, rfl, htake⟩
        | some rg => simp [htake] at hcold
    · contradiction
  · contradiction

/-- **After a cold start there is one replica more than there are invocations, at most.**

**Proof sketch.** A pool that has no replica to hand out has one at most in reach, and the
invocation that asks it has none, while all others have one at most each. -/
lemma kept_of_coldStart {f : Str} {s s' : State} {i : ℕ} {e : Env} {t : Thread}
    (hstep : provider.step s (.step i e) = some s')
    (ht : s.threads[i]? = some t) (hcold : t.coldStarts f s.shared e ≠ 0) :
    s'.kept f ≤ s.inFlight f + 1 := by
  obtain ⟨req, fn, o, g, rfl, hinv, hpool, hf, htake⟩ := Thread.eq_of_coldStarts hcold
  obtain ⟨w', t', new, hn, rfl⟩ := Interleaving.step_of_getElem? hstep ht
  have hnext : provider.next s.shared (.request req (.idle fn)) e =
      some (s.shared, .request req (.create fn (.slot 0)), []) := by
    simp only [provider, Thread.next, requestNext, hpool, World.getIdleReplica_of_fn? hf, htake,
      Option.map_none]
  obtain ⟨rfl, rfl, rfl⟩ : s.shared = w' ∧ .request req (.create fn (.slot 0)) = t' ∧ [] = new := by
    simpa using hnext.symm.trans hn
  have hidle : s.shared.pooled f ≤ 1 := by
    rw [World.pooled_of_fn? hf]
    exact IdleReplicas.inReach_le_one (Function.takeIdle_eq_none.mp htake)
  have hholds : (Thread.request req (.idle fn)).holds f = 0 := by
    simp only [Thread.holds, RequestPc.holds, ite_self]
  have hcreates : (Thread.request req (.create fn (.slot 0))).holds f = 1 := by
    simp only [Thread.holds, RequestPc.holds, hinv, if_true]
  have hlt := State.holds_lt_inFlight (f := f) ht (by
    rw [hholds]
    simp only [Thread.inFlight, hinv, if_true]
    exact Nat.one_pos)
  have hledger := Interleaving.ledger_section (World.pooled f) (Thread.holds f) s.shared
    (.request req (.create fn (.slot 0))) [] ht
  rw [hholds, hcreates] at hledger
  simp only [State.kept, Interleaving.Config.ledger, List.map_nil, List.sum_nil] at hledger ⊢
  omega

/-- The provider at its start. -/
lemma startProvider_wellFormed {cfg : Config} {storage : Storage} {now : Time} {w : World}
    (hstart : startProvider cfg storage now = .ok w) : State.WellFormed ⟨w, []⟩ :=
  ⟨(startProvider_fresh hstart).1.wellFormed, fun _ ht => absurd ht List.not_mem_nil⟩

/-- **No replica is put out of reach while the time stamps do not go back.**

**Proof sketch.** No single step strands a replica: while the time stamps are in order a sweep finds
MRU expired only when no older replica is left (`containers_of_sweep_mru`). The invariants hold at
the start and along the run, and the tally of zeros is zero. -/
theorem stranded_eq_zero {cfg : Config} {storage : Storage} {now : Time} {w : World}
    (hstart : startProvider cfg storage now = .ok w) (f : Str) {events : List Event}
    {s : State × Time} (hrun : Runs.run clockedProvider (⟨w, []⟩, now) events = some s) :
    Runs.tally provider.step (fun s m => s.count (fun w e t => t.stranded f w e) m) ⟨w, []⟩
      events = 0 := by
  have hnone : ∀ s m s', State.WellFormed s.1 ∧ s.1.shared.InTime s.2 → True →
      clockedProvider s m = some s' → s.1.count (fun w e t => t.stranded f w e) m ≤ 0 := by
    rintro s m s' ⟨hwf, htime⟩ - hstep
    obtain ⟨t, rfl, -, -⟩ | ⟨i, e, t, w', t', new, rfl, ht, -, -⟩ :=
      Interleaving.Program.step_cases (Clocks.clocked_eq_some.mp hstep).1
    · exact le_rfl
    · rw [Interleaving.Config.count_step _ ht, Nat.le_zero]
      unfold Thread.stranded
      split
      · next currTs _ _ fn =>
        split
        · rfl
        · next g hg =>
          split
          · split
            · next hsweep =>
              rw [IdleReplicas.containers_of_sweep_mru
                (hwf.1.functions g (List.mem_of_getElem? hg)).ordered (htime fn g hg) hsweep]
              rfl
            · rfl
          · rfl
      · rfl
  have hbegin : State.WellFormed ⟨w, []⟩ ∧ w.InTime now :=
    ⟨startProvider_wellFormed hstart, inTime_of_run hstart (Runs.run_nil _)⟩
  have hinv : ∀ s m s', State.WellFormed s.1 ∧ s.1.shared.InTime s.2 → True →
      clockedProvider s m = some s' → State.WellFormed s'.1 ∧ s'.1.shared.InTime s'.2 :=
    fun s m s' h _ hstep => ⟨step_wellFormed h.1 (Clocks.clocked_eq_some.mp hstep).1,
      step_inTime h.1 h.2 hstep⟩
  have halong : Runs.Along clockedProvider (fun _ _ => True) (⟨w, []⟩, now) events :=
    Runs.along_of_forall fun _ _ => trivial
  have hle := Runs.tally_le_tally hinv hnone hbegin halong
  have hsame := Clocks.tally_clocked
    (fun (s : State) m => s.count (fun w e t => t.stranded f w e) m) hrun
  rw [Runs.tally_zero] at hle
  exact Nat.le_zero.mp (hsame ▸ hle)

/-- Two invocations at once, and then two more: the older one of the two idle replicas sits in the
`LRU`, where the last invocation does not find it. -/
def twiceTwo : List Event :=
  deployF (AList.singleton ctrTypeLabel native) ++
    invokeF 1 6 { uuid := "1".toList } ++ invokeF 2 6 { uuid := "2".toList } ++
    sections 1 6 ++ sections 2 6 ++ invokeF 3 2 ++ invokeF 4 12 { uuid := "3".toList }

example : Runs.tally provider.step (fun s m => s.count
    (fun w e t => t.coldStarts "f".toList w e) m) ⟨smallWorld, []⟩ twiceTwo = 3 := by decide

/-- An invocation, taken to its end, whose creation fails at the image. -/
def failedInvocation (i : ℕ) (uuid : Str) : List Event :=
  invokeF i 5 { built := .prepareImage, uuid := uuid }

-- three such invocations, one after the other: three cold starts, and no replica to lose
example :
    let events := deployF ∅ ++ failedInvocation 1 "1".toList ++ failedInvocation 2 "2".toList ++
      failedInvocation 3 "3".toList
    let counted (f : World → Env → Thread → ℕ) :=
      Runs.tally provider.step (fun s m => s.count f m) ⟨smallWorld, []⟩ events
    counted (fun w e t => t.coldStarts "f".toList w e) = 3 ∧
      counted (fun w e t => t.lost "f".toList w e) = 0 ∧
      counted (fun w e t => t.unserved "f".toList w e) = 3 := by
  decide

end Fecore
