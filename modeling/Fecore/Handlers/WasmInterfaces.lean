import Mathlib.Data.List.Range
import Mathlib.Tactic.Common
import Fecore.Handlers.FunctionStore
import Fecore.Wasmnet.Wasmnet

set_option relaxedAutoImplicit false
set_option autoImplicit false

/-!
# The pool of WASM interfaces and the host

`CreateWasmInterfaces` fills the pool with pairs of a namespace number and an address, without a
look at the host: the namespaces are made by `wasmnet` before the provider starts. This file
compares the two loops.

## Main definitions

* `Fecore.createWasmInterfacesCall` — a call on an empty pool, with the log entry at its end.
* `Fecore.PoolOnHost` — the pairs are different, and the tool has created each of them.

## Main results

* `Fecore.startProvider_eq` — the provider starts with the pool of the call.
* `Fecore.wasmInterfaces_eq` — the pairs have the numbers and the addresses of the turns of the
  tool.
* `Fecore.createWasmInterfacesCall_onHost_iff` — how many pairs the config file may ask for.
-/

namespace Fecore

/-- A call of `CreateWasmInterfaces` on an empty pool: the log entry at its end reads the first pair
of the pool. -/
def createWasmInterfacesCall (numNS : ℤ) : Except Fault (List WasmIPInfo) :=
  match createWasmInterfaces numNS with
  | [] => .error .indexRange
  | pairs => .ok pairs

/-- **The provider starts with the pool of the call**, or panics where the call does. -/
theorem startProvider_eq (cfg : Config) (storage : Storage) (now : Time) :
    startProvider cfg storage now = (initFunctionStore cfg storage now).bind fun w =>
      (createWasmInterfacesCall cfg.maxWasmContainers).map fun pairs =>
        { w with netnsList := pairs } := by
  unfold startProvider createWasmInterfacesCall
  cases initFunctionStore cfg storage now with
  | error fault => rfl
  | ok w => cases createWasmInterfaces cfg.maxWasmContainers <;> rfl

/-! ### The two loops -/

/-- The pair of the namespace and the address of a turn of the tool. -/
def turnPair (i : ℕ) : WasmIPInfo :=
  { netnsNum := ((i + 1 : ℕ) : ℤ), ip := dotted (octets i).1 (octets i).2 }

/-- The pairs from a turn on. -/
lemma wasmInterfaces_eq {k : ℕ} : ∀ {i v2 v3 : ℕ}, CountersAt i v2 v3 →
    wasmInterfaces k (i + 1) v2 v3 = (List.range' i k).map turnPair := by
  induction k with
  | zero => exact fun _ => rfl
  | succ k ih =>
    intro i v2 v3 hcount
    rw [List.range'_succ, List.map_cons]
    simp only [wasmInterfaces, hcount.carry]
    rw [ih (countersAt_succ i)]
    rfl

/-- The pool has the pairs of the first turns of the tool, a thousand at most. -/
lemma createWasmInterfaces_eq (numNS : ℤ) :
    createWasmInterfaces numNS = (List.range (min numNS 1000).toNat).map turnPair := by
  rw [createWasmInterfaces, List.range_eq_range', ← wasmInterfaces_eq countersAt_zero]

/-- What a call that returns leaves: it returns when it creates a pair.

**Proof sketch.** Case split on whether a pair is created. If none is, the call reads the first of
no pairs, and panics. -/
lemma createWasmInterfacesCall_eq_ok_iff {numNS : ℤ} {pairs : List WasmIPInfo} :
    createWasmInterfacesCall numNS = .ok pairs ↔
      1 ≤ numNS ∧ pairs = (List.range (min numNS 1000).toNat).map turnPair := by
  unfold createWasmInterfacesCall
  rw [createWasmInterfaces_eq]
  by_cases hpos : 0 < numNS
  · obtain ⟨n, hn⟩ : ∃ n, (min numNS 1000).toNat = n + 1 :=
      ⟨(min numNS 1000).toNat - 1, by omega⟩
    rw [hn, List.range_succ_eq_map, List.map_cons]
    constructor
    · intro h
      exact ⟨hpos, (Except.ok.inj h).symm⟩
    · rintro ⟨-, rfl⟩
      rfl
  · have hzero : (min numNS 1000).toNat = 0 := by omega
    rw [hzero]
    exact ⟨nofun, fun h => absurd h.1 (by omega)⟩

/-- Different turns make different namespaces. -/
lemma turnPair_netnsNum_injective : Function.Injective fun i => (turnPair i).netnsNum := by
  intro i j h
  simp only [turnPair] at h
  omega

/-- The turns have addresses of their own. -/
lemma turnPair_ip_injective : Function.Injective fun i => (turnPair i).ip := by
  intro i j h
  obtain ⟨h2, h3⟩ := dotted_inj h
  simp only [octets] at h2 h3
  omega

/-! ### On the host -/

/-- The tool has created the pair: it has added the address of the pair to `eth1` of the namespace
with its number. -/
def Created (h h' : NetHost) (p : WasmIPInfo) : Prop :=
  ∃ ns : ℕ, p.netnsNum = ns ∧
    ∃ a : Addr, a = ⟨netnsName ns, "eth1".toList, p.ip ++ "/16".toList⟩ ∧ a ∈ h'.addrs ∧ a ∉ h.addrs

/-- **The pool is on the host** that the tool has left: numbers and addresses are different, the
last octets of addresses are those of hosts, and the tool has created each pair. -/
structure PoolOnHost (h h' : NetHost) (pool : List WasmIPInfo) : Prop where
  netnsNum : (pool.map (·.netnsNum)).Nodup
  ip : (pool.map (·.ip)).Nodup
  octet : ∀ p ∈ pool, ∃ v2 v3, p.ip = dotted v2 v3 ∧ v2 ≤ 255 ∧ 1 ≤ v3 ∧ v3 ≤ 254
  created : ∀ p ∈ pool, Created h h' p

/-- A pair of the pool is created exactly when the loop of the tool comes to its turn. -/
lemma created_turnPair_iff {h h' : NetHost} (hmain : wasmnetMain h = some h') (i : ℕ) :
    Created h h' (turnPair i) ↔ i < 500 := by
  constructor
  · rintro ⟨ns, hns, a, rfl, hmem⟩
    obtain ⟨j, hj, heq⟩ := (mem_addrs_wasmnetMain hmain _).mp hmem
    have hname := netnsName_injective (congrArg Addr.netns heq)
    simp only [turnPair] at hns
    omega
  · intro hi
    exact ⟨i + 1, rfl, turnAddr i, rfl, (mem_addrs_wasmnetMain hmain _).mpr ⟨i, hi, rfl⟩⟩

/-- **A call leaves a pool of pairs that are on the host** when the config file asks for one pair at
least, and for no more than the tool creates.

**Proof sketch.** The pool has the pairs of the first turns, which differ from one another. The tool
creates the pairs of the first 500 turns (`created_turnPair_iff`), so the last pair of the pool is
the one that decides. -/
theorem createWasmInterfacesCall_onHost_iff {h h' : NetHost} (hmain : wasmnetMain h = some h')
    (numNS : ℤ) :
    (∃ pool, createWasmInterfacesCall numNS = .ok pool ∧ PoolOnHost h h' pool) ↔
      1 ≤ numNS ∧ numNS ≤ 500 := by
  simp only [createWasmInterfacesCall_eq_ok_iff]
  constructor
  · rintro ⟨pool, ⟨hpos, rfl⟩, hpool⟩
    refine ⟨hpos, ?_⟩
    -- the last pair of the pool is the one to look at
    have hlast := hpool.created (turnPair ((min numNS 1000).toNat - 1))
      (List.mem_map_of_mem (List.mem_range.mpr (by omega)))
    have := (created_turnPair_iff hmain _).mp hlast
    omega
  · rintro ⟨hpos, hle⟩
    refine ⟨_, ⟨hpos, rfl⟩, ?_, ?_, ?_, ?_⟩
    · rw [List.map_map]
      exact List.nodup_range.map turnPair_netnsNum_injective
    · rw [List.map_map]
      exact List.nodup_range.map turnPair_ip_injective
    · intro p hp
      obtain ⟨i, hi, rfl⟩ := List.mem_map.mp hp
      have := List.mem_range.mp hi
      refine ⟨_, _, rfl, ?_⟩
      simp only [octets]
      omega
    · intro p hp
      obtain ⟨i, hi, rfl⟩ := List.mem_map.mp hp
      have := List.mem_range.mp hi
      exact (created_turnPair_iff hmain i).mpr (by omega)

/-- A host with the bridge and nothing else. -/
def bridgeHost : NetHost := { links := [(none, "fewasm0".toList)] }

/-- The bridge is all that the tool needs. -/
lemma bridgeHost_ready : bridgeHost.Ready 0 where
  bridge := List.mem_cons_self
  eth1 := by decide
  netns _ _ := List.not_mem_nil
  link j _ h := by
    have hname := (Prod.ext_iff.mp (List.mem_singleton.mp h)).2
    exact ne_ethName (by decide) (j + 1) hname.symm
  inner j _ h := by
    have hname := (Prod.ext_iff.mp (List.mem_singleton.mp h)).1
    exact absurd hname nofun

/-- The number of the default config, on the host that the tool leaves. -/
theorem createWasmInterfacesCall_onHost_default :
    ∃ h', wasmnetMain bridgeHost = some h' ∧
      ∃ pool, createWasmInterfacesCall 500 = .ok pool ∧ PoolOnHost bridgeHost h' pool := by
  obtain ⟨h', hmain⟩ := Option.isSome_iff_exists.mp bridgeHost_ready.isSome_wasmnetMain
  exact ⟨h', hmain, (createWasmInterfacesCall_onHost_iff hmain 500).mpr (by decide)⟩

/-- With `"MaxWasmContainers": 0` the provider panics, and with 501 the last namespace of the pool
is not on the host. -/
theorem not_createWasmInterfacesCall_onHost :
    (¬ ∃ pool, createWasmInterfacesCall 0 = .ok pool) ∧
      ∃ h', wasmnetMain bridgeHost = some h' ∧
        ∃ pool, createWasmInterfacesCall 501 = .ok pool ∧ ¬ PoolOnHost bridgeHost h' pool := by
  obtain ⟨h', hmain⟩ := Option.isSome_iff_exists.mp bridgeHost_ready.isSome_wasmnetMain
  refine ⟨nofun, h', hmain, _, createWasmInterfacesCall_eq_ok_iff.mpr ⟨by decide, rfl⟩, ?_⟩
  intro hpool
  have hlast := hpool.created (turnPair 500) (List.mem_map_of_mem (List.mem_range.mpr (by decide)))
  exact absurd ((created_turnPair_iff hmain 500).mp hlast) (by decide)

end Fecore
