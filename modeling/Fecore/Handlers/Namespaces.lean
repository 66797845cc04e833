import Mathlib.Algebra.Order.Group.Int
import Mathlib.Data.List.Perm.Subperm
import Mathlib.Tactic.Common
import Fecore.Handlers.Limits

set_option relaxedAutoImplicit false
set_option autoImplicit false

/-!
# The network namespaces of WASM replicas

`CreateWasmInterfaces` fills `netnsList` once; `createWasmReplica` takes a pair of a namespace
and an address out of it with `GetNetNS`, and nothing puts one back, since no code calls
`ReturnNetNS`. This file shows when the pairs are conserved all the same: when no `cmd.Start`
fails and no process is killed.

## Main definitions

* `Fecore.State.heldPairs` — the pairs that WASM replicas hold.
* `Fecore.NamespacesConserved` — every pair is free once or held once.
* `Fecore.Thread.keepsNamespaces` — the sections that keep it.

## Main results

* `Fecore.createWasmInterfaces_nodup` — the pairs of the pool are different.
* `Fecore.namespacesConserved_throughout` — the pairs are conserved throughout the runs whose
  sections keep them.
-/

namespace Fecore

/-! ### The pool -/

/-- The loop numbers its pairs from where it begins. -/
lemma wasmInterfaces_netnsNum {k : ℕ} : ∀ {ns v2 v3 : ℕ}, ∀ p ∈ wasmInterfaces k ns v2 v3,
    (ns : ℤ) ≤ p.netnsNum := by
  induction k with
  | zero => exact fun _ hp => absurd hp List.not_mem_nil
  | succ k ih =>
    intro ns v2 v3 p hp
    rw [wasmInterfaces] at hp
    rcases List.mem_cons.mp hp with rfl | hp
    · exact le_rfl
    · have := ih p hp
      push_cast at this
      omega

/-- The pairs of the pool are different: their namespaces have different numbers. -/
lemma wasmInterfaces_nodup {k : ℕ} : ∀ {ns v2 v3 : ℕ}, (wasmInterfaces k ns v2 v3).Nodup := by
  induction k with
  | zero => exact List.nodup_nil
  | succ k ih =>
    intro ns v2 v3
    rw [wasmInterfaces]
    refine List.nodup_cons.mpr ⟨fun hmem => ?_, ih⟩
    have := wasmInterfaces_netnsNum _ hmem
    push_cast at this
    omega

/-- No pair comes into the pool twice. -/
lemma createWasmInterfaces_nodup (n : ℤ) : (createWasmInterfaces n).Nodup := wasmInterfaces_nodup

/-! ### Who holds a pair -/

/-- The pair with which a creation is about to start its process. -/
def CreatePc.starting : CreatePc → Option WasmIPInfo
  | .start _ ipInfo => some ipInfo
  | _ => none

/-- The pair of the process that a goroutine is about to start. -/
def Thread.starting (t : Thread) : Option WasmIPInfo := t.creation.bind fun cp => cp.2.starting

/-- The pairs that WASM replicas hold: those whose process runs, and those whose process is about to
be started. -/
def State.heldPairs (c : State) : List WasmIPInfo :=
  c.shared.wasmProcs.map (·.netns) ++ c.threads.filterMap Thread.starting

/-- **The pairs of the pool are conserved**: each is free and no replica holds it, or it is not free
and one replica holds it; and the free pairs run out only when there are as many replicas as
pairs. -/
structure NamespacesConserved (pool : List WasmIPInfo) (c : State) : Prop where
  once : ∀ p ∈ pool, c.shared.netnsList.count p = 1 ∧ c.heldPairs.count p = 0 ∨
    c.shared.netnsList.count p = 0 ∧ c.heldPairs.count p = 1
  enough : c.shared.netnsList = [] → pool.length ≤ c.heldPairs.length

/-- Whether the pairs are conserved can be looked up in the pool and the processes. -/
instance (pool : List WasmIPInfo) (c : State) : Decidable (NamespacesConserved pool c) :=
  decidable_of_iff
    ((∀ p ∈ pool, c.shared.netnsList.count p = 1 ∧ c.heldPairs.count p = 0 ∨
        c.shared.netnsList.count p = 0 ∧ c.heldPairs.count p = 1) ∧
      (c.shared.netnsList = [] → pool.length ≤ c.heldPairs.length))
    ⟨fun h => ⟨h.1, h.2⟩, fun h => ⟨h.once, h.enough⟩⟩

/-- How often the pair is free or held by a process. -/
def World.pairs (p : WasmIPInfo) (w : World) : ℤ :=
  w.netnsList.count p + (w.wasmProcs.map (·.netns)).count p

/-- One when the creation is about to start its process with the pair. -/
def startsWith (p : WasmIPInfo) (_ : CreateCall) (pc : CreatePc) : ℤ :=
  if pc.starting = some p then 1 else 0

/-- The ledger of a pair. -/
def State.pairs (p : WasmIPInfo) (c : State) : ℤ :=
  c.ledger (World.pairs p) (Thread.creating (startsWith p))

/-- The creations about to start a process with a pair are counted once each. -/
lemma sum_creating_startsWith (p : WasmIPInfo) (ts : List Thread) :
    (ts.map (·.creating (startsWith p))).sum = ((ts.filterMap Thread.starting).count p : ℕ) := by
  induction ts with
  | nil => rfl
  | cons t ts ih =>
    have ht : t.creating (startsWith p) = if t.starting = some p then 1 else 0 := by
      unfold Thread.creating Thread.starting startsWith
      cases t.creation <;> rfl
    rw [List.map_cons, List.sum_cons, ih, ht]
    cases hs : t.starting with
    | none => simp [hs]
    | some q =>
      by_cases hq : q = p
      · simp [hs, hq, add_comm]
      · simp [hs, hq]

/-- A pair is free, or a replica holds it. -/
lemma State.pairs_eq (p : WasmIPInfo) (c : State) :
    c.pairs p = c.shared.netnsList.count p + c.heldPairs.count p := by
  simp only [State.pairs, Interleaving.Config.ledger, World.pairs, sum_creating_startsWith,
    State.heldPairs, List.count_append]
  omega

/-- A ledger of one for every pair says that the pairs are conserved. -/
lemma namespacesConserved_of_pairs {pool : List WasmIPInfo} {c : State} (hnodup : pool.Nodup)
    (h : ∀ p ∈ pool, c.pairs p = 1) : NamespacesConserved pool c where
  once p hp := by
    have := h p hp
    rw [State.pairs_eq] at this
    omega
  enough hnil := by
    refine (hnodup.subperm fun p hp => ?_).length_le
    have := h p hp
    rw [State.pairs_eq, hnil, List.count_nil] at this
    exact List.count_pos_iff.mp (by omega)

/-! ### One section -/

/-- A deletion kills no process. -/
def sparesProcs : DeletionCond := fun w _ a r =>
  r.ctrType ≠ wasm || (w.fn? r.fname).isNone || a.findProcess ||
    decide (r.pid ∉ w.wasmProcs.map (·.pid))

/-- The section kills no process, and a process that it starts does start. -/
def Thread.keepsNamespaces (w : World) (t : Thread) (e : Env) : Bool :=
  t.deletions sparesProcs w e && (t.starting.isNone || !e.err)

/-- To kill a process that is not there kills none. -/
lemma killed_of_notMem {procs : List WasmProc} {pid : ℕ} (h : pid ∉ procs.map (·.pid)) :
    killed procs pid = procs := by
  refine List.filter_eq_self.mpr fun p hp => ?_
  simp only [decide_eq_true_eq]
  rintro rfl
  exact h (List.mem_map_of_mem hp)

/-- A deletion that kills no process leaves the pairs alone. -/
lemma deleteIn_pairs {w : World} {ns : Str} {a : Answers} {r : Replica}
    (h : sparesProcs w ns a r = true) :
    (w.deleteIn ns a r).1.netnsList = w.netnsList ∧
      (w.deleteIn ns a r).1.wasmProcs = w.wasmProcs := by
  refine ⟨(w.sameStore_deleteIn ns a r).netnsList, ?_⟩
  by_cases hnat : r.ctrType = native
  · rw [World.deleteIn_native hnat]
    exact (deleteNativeReplica_wasm w ns a r).1
  by_cases hwasm : r.ctrType = wasm
  · rw [World.deleteIn_wasm hwasm]
    obtain ⟨-, hprocs, -⟩ | ⟨hnone, hprocs, -⟩ := deleteWasmReplica_cases w a r
    · exact hprocs
    · have hPID : r.pid ∉ w.wasmProcs.map (·.pid) := by
        simpa [sparesProcs, hwasm, hnone, Bool.or_assoc] using h
      rw [hprocs, killed_of_notMem hPID]
  · rw [World.deleteIn_other hnat hwasm]

/-- A creation takes a free pair and hands it to its process. -/
lemma createSection_pairs {w w' : World} {call : CreateCall} {e : Env} {pc : CreatePc}
    {result : CreateResult} (hsec : CreateSection w call e pc w' result)
    (hok : (pc.starting.isNone || !e.err) = true) (p : WasmIPInfo) :
    w'.pairs p + result.creating (startsWith p) call = w.pairs p + startsWith p call pc := by
  cases hsec with
  | @net replicaName ipInfo rest hcons =>
    by_cases hp : ipInfo = p <;>
      simp [World.pairs, CreateResult.creating, startsWith, CreatePc.starting, hcons, hp]
    omega
  | @started replicaName ipInfo herr hfree =>
    by_cases hp : ipInfo = p <;>
      simp [World.pairs, CreateResult.creating, startsWith, CreatePc.starting, hp]
    omega
  | startFailed herr => simp [CreatePc.starting, herr] at hok
  | _ => rfl

/-- One section that keeps the namespaces keeps the ledger of every pair.

**Proof sketch.** Case split on whether the goroutine is creating a replica. If it is, use
`createSection_pairs`; if not, the section frees namespaces by deletions only, each of which keeps
the ledger (`section_node`). -/
lemma section_pairs {w w' : World} {e : Env} {t t' : Thread} {new : List Thread}
    (hsec : Section w e t w' t' new) (hok : t.keepsNamespaces w e = true) (p : WasmIPInfo) :
    w'.pairs p + t'.creating (startsWith p) + (new.map (·.creating (startsWith p))).sum =
      w.pairs p + t.creating (startsWith p) := by
  simp only [Thread.keepsNamespaces, Bool.and_eq_true] at hok
  obtain ⟨hdel, hstart⟩ := hok
  rw [add_assoc]
  obtain ⟨call, pc, result, hsome, hcreate, hmeasure⟩ | ⟨hnone, hzero⟩ :=
    section_creating (m := startsWith p) (fun _ _ => rfl) hsec
  · rw [hmeasure, Thread.creating_of_some hsome]
    exact createSection_pairs hcreate (by simpa [Thread.starting, hsome] using hstart) p
  · have h := section_node
      (I := fun w₁ => w₁.netnsList = w.netnsList ∧ w₁.wasmProcs = w.wasmProcs)
      (fun h hsame => ⟨hsame.netnsList.trans h.1, hsame.wasmProcs.trans h.2⟩)
      (fun ns a r h hok => ⟨(deleteIn_pairs hok).1.trans h.1, (deleteIn_pairs hok).2.trans h.2⟩)
      hsec hnone hdel ⟨rfl, rfl⟩
    rw [hzero, Thread.creating_of_none hnone, World.pairs, h.1, h.2, World.pairs]

/-! ### Runs -/

/-- **When the network namespaces are conserved.** In every run in which every `cmd.Start`
succeeds and no deletion kills a process, each pair of `CreateWasmInterfaces` is free once or held
by one WASM replica.

**Proof sketch.** The ledger of a pair adds up where it is free, held by a process, or held by a
creation that is about to start one. It is one in the beginning, since the pairs of the pool are
different, and only a failed start or a killed process takes from it. -/
theorem namespacesConserved_throughout {cfg : Config} {storage : Storage} {now : Time} {w : World}
    (hstart : startProvider cfg storage now = .ok w) {events : List Event}
    (hkept : Runs.Along provider.step
      (fun c m => atNext (fun w t e => t.keepsNamespaces w e) c m = true) ⟨w, []⟩ events) :
    Runs.Throughout provider.step
      (NamespacesConserved (createWasmInterfaces cfg.maxWasmContainers)) ⟨w, []⟩ events := by
  obtain ⟨hfresh, -, hnet, -⟩ := startProvider_fresh hstart
  have hnodup := createWasmInterfaces_nodup cfg.maxWasmContainers
  refine Runs.throughout_of_along
    (I := fun c : State => ∀ p ∈ createWasmInterfaces cfg.maxWasmContainers, c.pairs p = 1)
    (fun c m c' hI hok hstep p hp => ?_) (fun c hI => namespacesConserved_of_pairs hnodup hI)
    (fun p hp => ?_) hkept
  · refine Eq.trans (Interleaving.ledger_step_eq hstep (fun t hent => entry_creating hent) ?_)
      (hI p hp)
    intro i e t w' t' new hm ht hnext
    exact section_pairs (next_cases hnext) (atNext_step hok hm ht) p
  · rw [State.pairs_eq, hnet, List.count_eq_one_of_mem hnodup hp]
    simp [State.heldPairs, hfresh.wasmProcs]

/-- The label of a WASM function. -/
def wasmLabels : GoMap Str := (∅ : GoMap Str).insert ctrTypeLabel wasm

/-- Two invocations of a WASM function take both pairs of the small node. -/
theorem namespacesConserved_throughout_invokeF :
    Runs.Throughout provider.step (NamespacesConserved (createWasmInterfaces 2)) ⟨smallWorld, []⟩
      (deployF wasmLabels ++ invokeF 1 8 { uuid := "1".toList, pid := 7 } ++
        invokeF 2 8 { uuid := "2".toList, pid := 8 }) :=
  namespacesConserved_throughout startProvider_small (by decide)

/-- A WASM replica of `f` is created and released, and it expires: the sweep kills its process, and
its pair is lost. -/
theorem not_namespacesConserved_sweep :
    ¬ Runs.Throughout provider.step (NamespacesConserved (createWasmInterfaces 2)) ⟨smallWorld, []⟩
      (deployF wasmLabels ++ invokeF 1 14 { uuid := "1".toList, pid := 7 } ++
        .arrive (.sweep .tryLock) :: .step 2 { now := 60 * 10 ^ 9 } ::
          .step 2 { entry := some "f".toList } :: sections 2 1) :=
  Runs.not_throughout (by decide)

end Fecore
