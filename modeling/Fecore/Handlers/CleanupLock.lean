import Mathlib.Tactic.Common
import Fecore.Handlers.SweepLoops

set_option relaxedAutoImplicit false
set_option autoImplicit false

/-!
# One sweep at a time

`CleanupDaemon` takes `cleanupMu` with `TryLock`, and holds it until it returns or panics.

## Main definitions

* `Fecore.Thread.holdsCleanup`, `Fecore.State.cleanup` — who has the lock, and its ledger.

## Main results

* `Fecore.Reachable.cleanup` — in every run, the lock is free or held by one sweep.
* `Fecore.State.eq_of_holdsCleanup` — two sweeps that hold it are one.
-/

namespace Fecore

open Interleaving (Config)

/-- One when no sweep holds `cleanupMu`. -/
def World.cleanupFree (w : World) : ℤ := if w.cleanupMu then 0 else 1

/-- One for a sweep that holds `cleanupMu`. -/
def Thread.holdsCleanup : Thread → ℤ
  | .sweep .tryLock => 0
  | .sweep _ => 1
  | _ => 0

/-- The ledger of `cleanupMu`. -/
def State.cleanup (c : State) : ℤ := c.ledger World.cleanupFree Thread.holdsCleanup

/-- No goroutine holds less than nothing. -/
lemma Thread.holdsCleanup_nonneg (t : Thread) : 0 ≤ t.holdsCleanup := by
  unfold Thread.holdsCleanup
  split <;> decide

/-- Only a sweep holds `cleanupMu`. -/
lemma Thread.holdsCleanup_of_notSweep {t : Thread} (ht : ∀ pc, t ≠ .sweep pc) :
    t.holdsCleanup = 0 := by
  cases t with
  | sweep pc => exact absurd rfl (ht pc)
  | _ => rfl

/-- The lock is free at most once, and not less than never. -/
lemma World.cleanupFree_nonneg (w : World) : 0 ≤ w.cleanupFree := by
  unfold World.cleanupFree
  split <;> decide

/-! ### Sections -/

section Sections

variable {w w' : World} {e : Env} {t t' : Thread} {new : List Thread}

/-- A deletion of a replica leaves `cleanupMu` as it is. -/
lemma World.cleanupMu_deleteIn (w : World) (ns : Str) (a : Answers) (r : Replica) :
    (w.deleteIn ns a r).1.cleanupMu = w.cleanupMu := by
  obtain ⟨c, n, p, k, j, d, heq⟩ := w.deleteIn_writes ns a r
  rw [heq]

/-- `DeleteReplica` leaves `cleanupMu` as it is, with a fault or without. -/
lemma World.cleanupMu_of_deleteReplica {a : Answers} {r : Replica} {fault : Option Fault}
    (h : w.deleteReplica a r = (w', fault)) : w'.cleanupMu = w.cleanupMu := by
  have hsame := w.cleanupMu_deleteIn defaultFunctionNamespace a r
  rw [World.deleteReplica] at h
  rwa [h] at hsame

/-- The loop over idle replicas leaves `cleanupMu` as it is.

**Proof sketch.** Induct on the replicas; a deletion leaves it, whether the loop goes on after it or
panics in it. -/
lemma World.cleanupMu_deleteEach (ns : Str) (answers : Str → Answers) (rs : List Replica) :
    ∀ w : World, (w.deleteEach ns answers rs).1.cleanupMu = w.cleanupMu := by
  induction rs with
  | nil => exact fun w => rfl
  | cons r rs ih =>
    intro w
    have hfirst := World.cleanupMu_deleteIn { w with deletedByAll := r.uuid :: w.deletedByAll } ns
      (answers r.uuid) r
    unfold World.deleteEach
    dsimp only
    split
    · next w₁ heq =>
      rw [heq] at hfirst
      exact (ih w₁).trans hfirst
    · next w₁ fault heq =>
      rw [heq] at hfirst
      exact hfirst

/-- `DeleteAllReplicas` leaves `cleanupMu` as it is. -/
lemma World.cleanupMu_of_deleteAllReplicas {ns : Str} {answers : Str → Answers} {fn : Str}
    {fault : Option Fault} (h : w.deleteAllReplicas ns answers fn = (w', fault)) :
    w'.cleanupMu = w.cleanupMu := by
  have hsame : (w.deleteAllReplicas ns answers fn).1.cleanupMu = w.cleanupMu := by
    unfold World.deleteAllReplicas
    split
    · rfl
    split
    · rfl
    · exact World.cleanupMu_deleteEach ns answers _ w
  rwa [h] at hsame

/-- Only sweeps touch `cleanupMu`.

**Proof sketch.** Case split on the section: none but those of a sweep writes it, and the deletions
and insertions that they call do not either. -/
lemma section_cleanupMu (hsec : Section w e t w' t' new) (ht : ∀ pc, t ≠ .sweep pc) :
    w'.cleanupMu = w.cleanupMu := by
  have hcreate : ∀ {call : CreateCall} {pc : CreatePc} {w' : World} {result : CreateResult},
      CreateSection w call e pc w' result → w'.cleanupMu = w.cleanupMu :=
    fun hsec => by cases hsec <;> rfl
  cases hsec with
  | request hsec =>
    cases hsec with
    | create hsec => exact hcreate hsec
    | del hdel => exact World.cleanupMu_of_deleteReplica hdel
    | delFault hdel => exact World.cleanupMu_of_deleteReplica hdel
    | _ => rfl
  | spawn hsec => exact hcreate hsec
  | sweep hsec => exact absurd rfl (ht _)
  | deleteAll hdel => exact World.cleanupMu_of_deleteAllReplicas hdel
  | deleteAllFault hdel => exact World.cleanupMu_of_deleteAllReplicas hdel
  | insert hdeploy hins =>
    obtain ⟨-, rows, rfl⟩ := World.insertFunction_eq hins
    rfl
  | _ => rfl

/-- A sweep takes the lock when it is free, and holds it until it returns or panics.

**Proof sketch.** Case split on where the sweep is. It takes the lock at its first section when the
lock is free, and gives it back in the section in which it returns or panics. -/
lemma sweepNext_cleanup {pc : SweepPc} (h : sweepNext w pc e = some (w', t'))
    (hheld : (Thread.sweep pc).holdsCleanup = 1 → w.cleanupMu = true) :
    w'.cleanupFree + t'.holdsCleanup = w.cleanupFree + (Thread.sweep pc).holdsCleanup := by
  cases pc with
  | tryLock =>
    simp only [sweepNext] at h
    split at h <;> cases h
    · rfl
    · next hfree => simp [World.cleanupFree, Thread.holdsCleanup, hfree]
  | range currTs began visited =>
    cases sweepNext_cases h with
    | visit => rfl
    | done => simp [World.cleanupFree, Thread.holdsCleanup, hheld rfl]
  | pool currTs began visited fn =>
    have hmu := hheld rfl
    cases sweepNext_cases h with
    | lruAbsent => simp [World.cleanupFree, Thread.holdsCleanup, hmu]
    | lru => rfl
    | mru hheap hsweep hdel =>
      simp [World.cleanupFree, Thread.holdsCleanup, World.cleanupMu_of_deleteReplica hdel,
        World.setFn]
    | mruFault => simp [World.cleanupFree, Thread.holdsCleanup, hmu]
    | fresh => rfl
  | del currTs began visited fn replica =>
    have hmu := hheld rfl
    cases sweepNext_cases h with
    | del hdel =>
      simp [World.cleanupFree, Thread.holdsCleanup, World.cleanupMu_of_deleteReplica hdel]
    | delFault => simp [World.cleanupFree, Thread.holdsCleanup, hmu]

/-- **A section keeps the ledger of the lock.**

**Proof sketch.** Only a sweep takes the lock or gives it back (`sweepNext_cleanup`); every other
section leaves it alone (`section_cleanupMu`), and no section starts a sweep (`section_new`). -/
lemma section_cleanup (h : provider.next w t e = some (w', t', new))
    (hheld : t.holdsCleanup = 1 → w.cleanupMu = true) :
    w'.cleanupFree + t'.holdsCleanup + (new.map Thread.holdsCleanup).sum =
      w.cleanupFree + t.holdsCleanup := by
  have hsec := next_cases h
  have hnew : (new.map Thread.holdsCleanup).sum = 0 := by
    refine List.sum_eq_zero fun x hx => ?_
    obtain ⟨u, hu, rfl⟩ := List.mem_map.mp hx
    obtain ⟨call, rfl⟩ := section_new hsec u hu
    rfl
  rw [hnew, add_zero]
  by_cases ht : ∃ pc, t = .sweep pc
  · obtain ⟨pc, rfl⟩ := ht
    simp only [provider, Thread.next, Option.map_eq_some_iff] at h
    obtain ⟨⟨w₁, t₁⟩, hnext, heq⟩ := h
    cases heq
    exact sweepNext_cleanup hnext hheld
  · have ht : ∀ pc, t ≠ .sweep pc := fun pc heq => ht ⟨pc, heq⟩
    rw [Thread.holdsCleanup_of_notSweep ht,
      Thread.holdsCleanup_of_notSweep (section_notSweep hsec ht), World.cleanupFree,
      World.cleanupFree, section_cleanupMu hsec ht]

end Sections

/-! ### Runs -/

section State

variable {c c' : State} {m : Event} {i j : ℕ} {t u : Thread}

/-- A sweep that holds the lock has locked it. -/
lemma State.cleanupMu_of_holdsCleanup (hc : c.cleanup = 1) (ht : c.threads[i]? = some t)
    (hheld : t.holdsCleanup = 1) : c.shared.cleanupMu = true := by
  have hsum := Interleaving.le_sum_of_getElem? Thread.holdsCleanup_nonneg ht
  simp only [State.cleanup, Config.ledger] at hc
  by_contra hfree
  have : c.shared.cleanupFree = 1 := by simp [World.cleanupFree, hfree]
  omega

/-- While the lock is free, nobody holds it. -/
lemma State.holdsCleanup_of_free (hc : c.cleanup = 1) (hfree : c.shared.cleanupMu = false)
    (ht : t ∈ c.threads) : t.holdsCleanup = 0 := by
  obtain ⟨i, hi⟩ := List.mem_iff_getElem?.mp ht
  have hsum := Interleaving.le_sum_of_getElem? Thread.holdsCleanup_nonneg hi
  have hle := t.holdsCleanup_nonneg
  have : c.shared.cleanupFree = 1 := by simp [World.cleanupFree, hfree]
  simp only [State.cleanup, Config.ledger] at hc
  omega

/-- **Two sweeps that hold the lock are one.** -/
lemma State.eq_of_holdsCleanup (hc : c.cleanup = 1) (ht : c.threads[i]? = some t)
    (hu : c.threads[j]? = some u) (hheld : t.holdsCleanup = 1) (hheld' : u.holdsCleanup = 1) :
    i = j := by
  by_contra hne
  have hsum := Interleaving.add_le_sum_of_getElem? Thread.holdsCleanup_nonneg hne ht hu
  have hle := c.shared.cleanupFree_nonneg
  simp only [State.cleanup, Config.ledger] at hc
  omega

/-- One move keeps the ledger of the lock. -/
lemma step_cleanup (hc : c.cleanup = 1) (hstep : provider.step c m = some c') :
    c'.cleanup = 1 := by
  refine (Interleaving.ledger_step_eq hstep (fun t hent => ?_) ?_).trans hc
  · obtain ⟨req, rfl⟩ | rfl | ⟨req, rfl⟩ | ⟨req, rfl⟩ | ⟨fn, updated, rfl⟩ :=
      entry_cases hent <;> rfl
  · intro i e t w' t' new _ ht hn
    exact section_cleanup hn (State.cleanupMu_of_holdsCleanup hc ht)

end State

/-- The provider begins with a free lock. -/
lemma startProvider_cleanupMu {cfg : Config} {storage : Storage} {now : Time} {w : World}
    (h : startProvider cfg storage now = .ok w) : w.cleanupMu = false := by
  refine startProvider_keeps (I := fun w => w.cleanupMu = false)
    (fun w replica now w' hw hadd => ?_) (fun _ _ hw => hw) (fun _ _ hw => hw) rfl h
  unfold World.addIdleReplica at hadd
  split at hadd <;> cases hadd
  exact hw

/-- **In every run the lock is free or held by one sweep.** -/
theorem Reachable.cleanup {c : State} (h : Reachable c) : c.cleanup = 1 := by
  obtain ⟨cfg, storage, now, w, events, hstart, hrun⟩ := h
  refine Runs.invariant (I := fun c : State => c.cleanup = 1)
    (fun c m c' hI hstep => step_cleanup hI hstep) ?_ hrun
  simp [State.cleanup, Config.ledger, World.cleanupFree, startProvider_cleanupMu hstart]

end Fecore
