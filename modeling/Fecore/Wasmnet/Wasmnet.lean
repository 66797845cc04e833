import Mathlib.Data.List.Range
import Mathlib.Tactic.Common
import Fecore.Data.Words
import Fecore.Handlers.FunctionStore

set_option relaxedAutoImplicit false
set_option autoImplicit false

/-!
# The network namespaces of the host

The main loop of `utilities/wasmnet/wasmnet.go`, which makes the network namespaces of WASM replicas
with `ip` commands and assigns an address to the interface in each.

## Main definitions

* `Fecore.NetHost`, `Fecore.IpCommand` — the namespaces, interfaces and addresses of a host, and the
  commands that change them.
* `Fecore.mainLoop`, `Fecore.wasmnetMain` — the loop, and the tool.

## Main results

* `Fecore.mem_addrs_wasmnetMain` — the addresses that the tool assigns.
* `Fecore.NetHost.Ready.isSome_wasmnetMain` — on a host with the bridge and without these names, no
  command of the tool fails.
-/

namespace Fecore

/-! ### Commands -/

/-- An interface: its network namespace, none for that of the host, and its name. -/
abbrev Link := Option Str × Str

/-- An address of an interface in a network namespace. -/
structure Addr where
  netns : Str
  dev : Str
  cidr : Str
deriving DecidableEq

/-- The network namespaces that have been added to a host, its interfaces, and the addresses in
these namespaces. -/
structure NetHost where
  namespaces : List Str := []
  links : List Link := []
  addrs : List Addr := []
  /-- addresses are those of namespaces that exist -/
  addrs_mem : ∀ a ∈ addrs, a.netns ∈ namespaces := by simp

/-- The `ip` commands of the loop. -/
inductive IpCommand
  /-- `ip netns add` -/
  | netnsAdd (netns : Str)
  /-- `ip link add .. type veth peer name ..` -/
  | linkAdd (dev peer : Str)
  /-- `ip link set .. netns ..` -/
  | linkSetNetns (dev netns : Str)
  /-- `ip -n .. addr add .. dev ..` -/
  | addrAdd (netns cidr dev : Str)
  /-- `ip [-n ..] link set .. up` -/
  | linkUp (link : Link)
  /-- `ip link set .. master ..` -/
  | linkMaster (dev master : Str)
  /-- `ip netns exec .. ip route add default via ..` -/
  | routeAdd (netns via : Str)
deriving DecidableEq

/-- What a command does; none is an error. -/
def NetHost.exec (h : NetHost) : IpCommand → Option NetHost
  | .netnsAdd netns =>
    if netns ∈ h.namespaces then none
    else some
      { namespaces := netns :: h.namespaces
        links := (some netns, "lo".toList) :: h.links
        addrs := h.addrs
        addrs_mem := fun a ha => List.mem_cons_of_mem _ (h.addrs_mem a ha) }
  | .linkAdd dev peer =>
    if (none, dev) ∈ h.links ∨ (none, peer) ∈ h.links then none
    else some { h with links := (none, dev) :: (none, peer) :: h.links }
  | .linkSetNetns dev netns =>
    if (none, dev) ∈ h.links ∧ netns ∈ h.namespaces ∧ (some netns, dev) ∉ h.links then
      some { h with links := (some netns, dev) :: h.links.erase (none, dev) }
    else none
  | .addrAdd netns cidr dev =>
    if hnetns : netns ∈ h.namespaces then
      if (some netns, dev) ∈ h.links ∧ ⟨netns, dev, cidr⟩ ∉ h.addrs then
        some
          { h with
            addrs := ⟨netns, dev, cidr⟩ :: h.addrs
            addrs_mem := List.forall_mem_cons.mpr ⟨hnetns, h.addrs_mem⟩ }
      else none
    else none
  | .linkUp link => if link ∈ h.links then some h else none
  | .linkMaster dev master =>
    if (none, dev) ∈ h.links ∧ (none, master) ∈ h.links then some h else none
  | .routeAdd netns _ => if netns ∈ h.namespaces then some h else none

/-- The commands, one after the other; after an error the tool ends with `log.Fatal`. -/
def NetHost.execAll : NetHost → List IpCommand → Option NetHost
  | h, [] => some h
  | h, cmd :: cmds => (h.exec cmd).bind fun h => h.execAll cmds

/-! ### The main loop -/

/-- `fmt.Sprintf("fe_wasm_netns%d", ns)`. -/
def netnsName (ns : ℕ) : Str := "fe_wasm_netns".toList ++ itoa ns

/-- `fmt.Sprintf("fe_wasm_eth%d", ns)`. -/
def ethName (ns : ℕ) : Str := "fe_wasm_eth".toList ++ itoa ns

/-- `fmt.Sprintf("%d.%d.%d.%d", v0, v1, v2, v3)`, with `v0` and `v1` as they are. -/
def dotted (v2 v3 : ℕ) : Str := "10.63.".toList ++ itoa v2 ++ ".".toList ++ itoa v3

/-- The commands of one turn of the loop. -/
def turnCommands (ns v2 v3 : ℕ) : List IpCommand :=
  let thisIP := dotted v2 v3
  let thisCIDR := thisIP ++ "/16".toList
  let thisNS := netnsName ns
  let thisIF := ethName ns
  let eth1 := "eth1".toList
  [.netnsAdd thisNS, .linkAdd eth1 thisIF, .linkSetNetns eth1 thisNS,
    .addrAdd thisNS thisCIDR eth1, .linkUp (some thisNS, eth1),
    .linkUp (some thisNS, "lo".toList), .linkUp (none, thisIF),
    .linkMaster thisIF "fewasm0".toList, .routeAdd thisNS "10.63.0.1".toList]

/-- The loop, for so many turns and from the counters on. -/
def mainLoop : ℕ → ℕ → ℕ → ℕ → NetHost → Option NetHost
  | 0, _, _, _, h => some h
  | k + 1, ns, v2, v3, h =>
    let (v2, v3) := if 254 < v3 then (v2 + 1, 1) else (v2, v3)
    (h.execAll (turnCommands ns v2 v3)).bind (mainLoop k (ns + 1) v2 (v3 + 1))

/-- The tool. -/
def wasmnetMain (h : NetHost) : Option NetHost := mainLoop 500 1 100 1 h

/-! ### Names and addresses -/

/-- Different numbers make different names of namespaces. -/
lemma netnsName_injective : Function.Injective netnsName :=
  fun _ _ h => itoa_injective (List.append_cancel_left h)

/-- An address determines its last two octets. -/
lemma dotted_inj {v2 v3 w2 w3 : ℕ} (h : dotted v2 v3 = dotted w2 w3) : v2 = w2 ∧ v3 = w3 := by
  unfold dotted at h
  rw [List.append_assoc, List.append_assoc, List.append_assoc, List.append_assoc,
    List.append_right_inj] at h
  obtain ⟨h2, h3⟩ := (List.append_cons_inj (dot_notMem_itoa v2) (dot_notMem_itoa w2)).mp h
  exact ⟨itoa_injective h2, itoa_injective h3⟩

/-- The last two octets of the address with this index: 254 addresses for each of the third. -/
def octets (i : ℕ) : ℕ × ℕ := (100 + i / 254, 1 + i % 254)

/-- The counters that come to the turn with this index. -/
def CountersAt (i v2 v3 : ℕ) : Prop := 254 * v2 + v3 = 25401 + i ∧ 1 ≤ v3 ∧ v3 ≤ 255

/-- The counters with which the loop begins. -/
lemma countersAt_zero : CountersAt 0 100 1 := by
  unfold CountersAt
  omega

/-- The counters after the carry. -/
lemma CountersAt.carry {i v2 v3 : ℕ} (h : CountersAt i v2 v3) :
    (if 254 < v3 then (v2 + 1, 1) else (v2, v3)) = octets i := by
  obtain ⟨hsum, hlow, hhigh⟩ := h
  unfold octets
  split
  · exact Prod.ext_iff.mpr ⟨show v2 + 1 = 100 + i / 254 by omega,
      show 1 = 1 + i % 254 by omega⟩
  · exact Prod.ext_iff.mpr ⟨show v2 = 100 + i / 254 by omega, show v3 = 1 + i % 254 by omega⟩

/-- The counters of the next turn. -/
lemma countersAt_succ (i : ℕ) : CountersAt (i + 1) (octets i).1 ((octets i).2 + 1) := by
  unfold CountersAt octets
  dsimp only
  omega

/-! ### What the loop makes -/

/-- The address that the loop assigns in the turn with this index. -/
def turnAddr (i : ℕ) : Addr :=
  ⟨netnsName (i + 1), "eth1".toList, dotted (octets i).1 (octets i).2 ++ "/16".toList⟩

/-- The namespace that a command adds. -/
def IpCommand.netns? : IpCommand → Option Str
  | .netnsAdd netns => some netns
  | _ => none

/-- The address that a command assigns. -/
def IpCommand.addr? : IpCommand → Option Addr
  | .addrAdd netns cidr dev => some ⟨netns, dev, cidr⟩
  | _ => none

/-- A command that goes through adds its namespace, which is new, and its address.

**Proof sketch.** Case split on the command; only the one that adds a namespace and the one that
adds an address change these lists. -/
lemma NetHost.exec_eq {h h' : NetHost} {cmd : IpCommand} (hexec : h.exec cmd = some h') :
    (∀ netns ∈ cmd.netns?, netns ∉ h.namespaces) ∧
      h'.namespaces = cmd.netns?.toList ++ h.namespaces ∧
        h'.addrs = cmd.addr?.toList ++ h.addrs := by
  cases cmd with
  | netnsAdd netns =>
    simp only [exec] at hexec
    split at hexec
    · cases hexec
    · next hnew =>
      cases hexec
      refine ⟨fun netns' hn => ?_, rfl, rfl⟩
      obtain rfl := Option.some.inj hn
      exact hnew
  | addrAdd netns cidr dev =>
    simp only [exec] at hexec
    split at hexec
    · split at hexec <;> cases hexec
      exact ⟨nofun, rfl, rfl⟩
    · cases hexec
  | _ =>
    simp only [exec] at hexec
    split at hexec <;> cases hexec
    exact ⟨nofun, rfl, rfl⟩

/-- Commands that go through add their namespaces, which are new, and their addresses.

**Proof sketch.** Induct on the commands. Each adds its own (`NetHost.exec_eq`), and a namespace
that is new later on has been new before. -/
lemma NetHost.execAll_eq {cmds : List IpCommand} :
    ∀ {h h' : NetHost}, h.execAll cmds = some h' →
      (∀ netns ∈ cmds.filterMap IpCommand.netns?, netns ∉ h.namespaces) ∧
        h'.namespaces = (cmds.filterMap IpCommand.netns?).reverse ++ h.namespaces ∧
          h'.addrs = (cmds.filterMap IpCommand.addr?).reverse ++ h.addrs := by
  induction cmds with
  | nil =>
    intro h h' hexec
    obtain rfl := Option.some.inj hexec
    exact ⟨nofun, rfl, rfl⟩
  | cons cmd cmds ih =>
    intro h h' hexec
    obtain ⟨h₁, hcmd, hrest⟩ := Option.bind_eq_some_iff.mp hexec
    obtain ⟨hnew₁, hns₁, haddrs₁⟩ := NetHost.exec_eq hcmd
    obtain ⟨hnew, hns, haddrs⟩ := ih hrest
    rw [hns₁] at hnew hns
    rw [haddrs₁] at haddrs
    simp only [List.filterMap_eq_flatMap_toList, List.flatMap_cons, List.reverse_append,
      List.append_assoc] at hnew hns haddrs ⊢
    refine ⟨fun netns hmem hold => ?_, ?_, ?_⟩
    · rcases List.mem_append.mp hmem with hmem | hmem
      · exact hnew₁ netns (Option.mem_toList.mp hmem) hold
      · exact hnew netns hmem (List.mem_append_right _ hold)
    · rw [hns]
      cases cmd.netns? <;> rfl
    · rw [haddrs]
      cases cmd.addr? <;> rfl

/-- A turn that goes through adds one namespace, which is new, and one address in it. -/
lemma execAll_turnCommands {h h' : NetHost} {ns v2 v3 : ℕ}
    (hturn : h.execAll (turnCommands ns v2 v3) = some h') :
    netnsName ns ∉ h.namespaces ∧ h'.namespaces = netnsName ns :: h.namespaces ∧
      h'.addrs = ⟨netnsName ns, "eth1".toList, dotted v2 v3 ++ "/16".toList⟩ :: h.addrs := by
  obtain ⟨hnew, hns, haddrs⟩ := NetHost.execAll_eq hturn
  exact ⟨hnew _ List.mem_cons_self, hns, haddrs⟩

/-- The loop from a turn on.

**Proof sketch.** Induct on the turns that are left. A turn adds its namespace and its address
(`execAll_turnCommands`), and the counters go on as the turns do (`countersAt_succ`). -/
lemma mainLoop_eq {k : ℕ} : ∀ {i v2 v3 : ℕ} {h h' : NetHost}, CountersAt i v2 v3 →
    mainLoop k (i + 1) v2 v3 h = some h' →
      h.namespaces ⊆ h'.namespaces ∧ (∀ j, i ≤ j → j < i + k → netnsName (j + 1) ∉ h.namespaces) ∧
        h'.addrs = ((List.range' i k).map turnAddr).reverse ++ h.addrs := by
  induction k with
  | zero =>
    intro i v2 v3 h h' _ hloop
    obtain rfl := Option.some.inj hloop
    exact ⟨List.Subset.refl _, fun j _ _ => by omega, rfl⟩
  | succ k ih =>
    intro i v2 v3 h h' hcount hloop
    simp only [mainLoop, hcount.carry] at hloop
    obtain ⟨h₁, hturn, hrest⟩ := Option.bind_eq_some_iff.mp hloop
    obtain ⟨hnew, hns, haddrs⟩ := execAll_turnCommands hturn
    obtain ⟨hsub, hnew', haddrs'⟩ := ih (countersAt_succ i) hrest
    rw [hns] at hsub hnew'
    refine ⟨fun n hn => hsub (List.mem_cons_of_mem _ hn), fun j hle hlt => ?_, ?_⟩
    · rcases Nat.eq_or_lt_of_le hle with rfl | hgt
      · exact hnew
      · exact fun hold => hnew' j hgt (by omega) (List.mem_cons_of_mem _ hold)
    · rw [haddrs', haddrs, List.range'_succ, List.map_cons, List.reverse_cons, List.append_assoc]
      rfl

/-- **The addresses that the tool assigns**, to namespaces that were not there before. -/
theorem mem_addrs_wasmnetMain {h h' : NetHost} (hmain : wasmnetMain h = some h') (a : Addr) :
    (a ∈ h'.addrs ∧ a ∉ h.addrs) ↔ ∃ i < 500, a = turnAddr i := by
  obtain ⟨-, hnew, haddrs⟩ := mainLoop_eq countersAt_zero hmain
  rw [haddrs, List.mem_append, List.mem_reverse, List.mem_map]
  constructor
  · rintro ⟨⟨i, hi, rfl⟩ | hold, hnot⟩
    · exact ⟨i, (by simpa using hi), rfl⟩
    · exact absurd hold hnot
  · rintro ⟨i, hi, rfl⟩
    refine ⟨.inl ⟨i, by simpa using hi, rfl⟩, fun hold => ?_⟩
    exact hnew i (Nat.zero_le i) (by omega) (h.addrs_mem _ hold)

/-! ### When no command fails -/

/-- Different numbers make different names of interfaces. -/
lemma ethName_injective : Function.Injective ethName :=
  fun _ _ h => itoa_injective (List.append_cancel_left h)

/-- The host has the bridge, no `eth1` of its own, and nothing under the names of the turns from
this one on. -/
structure NetHost.Ready (i : ℕ) (h : NetHost) : Prop where
  bridge : (none, "fewasm0".toList) ∈ h.links
  eth1 : (none, "eth1".toList) ∉ h.links
  netns : ∀ j, i ≤ j → netnsName (j + 1) ∉ h.namespaces
  link : ∀ j, i ≤ j → (none, ethName (j + 1)) ∉ h.links
  inner : ∀ j, i ≤ j → (some (netnsName (j + 1)), "eth1".toList) ∉ h.links

/-- A name that does not begin like these is none of them. -/
lemma ne_ethName {name : Str} (h : name.take 3 ≠ "fe_".toList) (ns : ℕ) : name ≠ ethName ns := by
  have htake : (ethName ns).take 3 = "fe_".toList := by
    have hpre : "fe_wasm_eth".toList.take 3 = "fe_".toList := by decide
    unfold ethName
    rw [List.take_append_of_le_length (by decide), hpre]
  rintro rfl
  exact h htake

/-- The commands that give a new namespace an interface with an address go through when the names
are free and the bridge is there.

**Proof sketch.** Run the commands one after the other; each finds what it needs, by the hypotheses
or from the commands before. -/
lemma NetHost.execAll_eq_some (cidr via : Str) {h : NetHost} {netns dev peer bridge : Str}
    (hbridge : (none, bridge) ∈ h.links) (hdev : (none, dev) ∉ h.links)
    (hnetns : netns ∉ h.namespaces) (hpeer : (none, peer) ∉ h.links)
    (hinner : (some netns, dev) ∉ h.links) (hne : dev ≠ peer) (hlo : dev ≠ "lo".toList) :
    ∃ addrs_mem, h.execAll
      [.netnsAdd netns, .linkAdd dev peer, .linkSetNetns dev netns, .addrAdd netns cidr dev,
        .linkUp (some netns, dev), .linkUp (some netns, "lo".toList), .linkUp (none, peer),
        .linkMaster peer bridge, .routeAdd netns via] = some
      { namespaces := netns :: h.namespaces
        links := (some netns, dev) :: (none, peer) :: (some netns, "lo".toList) :: h.links
        addrs := ⟨netns, dev, cidr⟩ :: h.addrs
        addrs_mem := addrs_mem } := by
  have haddr : (⟨netns, dev, cidr⟩ : Addr) ∉ h.addrs := fun hmem => hnetns (h.addrs_mem _ hmem)
  have hlo' : dev ≠ ['l', 'o'] := by simpa using hlo
  refine ⟨List.forall_mem_cons.mpr
    ⟨List.mem_cons_self, fun a ha => List.mem_cons_of_mem _ (h.addrs_mem a ha)⟩, ?_⟩
  simp [execAll, exec, hnetns, hdev, hpeer, hinner, hne, hlo', haddr, hbridge]

/-- On a host that is ready for a turn its commands go through, and then it is ready for the
next. -/
lemma NetHost.Ready.execAll {i : ℕ} {h : NetHost} (hr : h.Ready i) (v2 v3 : ℕ) :
    ∃ h', h.execAll (turnCommands (i + 1) v2 v3) = some h' ∧ h'.Ready (i + 1) := by
  have hne : "eth1".toList ≠ ethName (i + 1) := ne_ethName (by decide) _
  obtain ⟨haddrs, hrun⟩ := execAll_eq_some (dotted v2 v3 ++ "/16".toList) "10.63.0.1".toList
    hr.bridge hr.eth1 (hr.netns i le_rfl) (hr.link i le_rfl) (hr.inner i le_rfl) hne (by decide)
  refine ⟨_, hrun, ?_, ?_, fun j hj => ?_, fun j hj => ?_, fun j hj => ?_⟩
  all_goals dsimp only
  · simp only [List.mem_cons, hr.bridge, or_true]
  · simpa using ⟨hne, hr.eth1⟩
  · have hlt : j + 1 ≠ i + 1 := by omega
    exact List.not_mem_cons_of_ne_of_not_mem (netnsName_injective.ne hlt) (hr.netns j (by omega))
  · have hlt : j + 1 ≠ i + 1 := by omega
    simpa [ethName_injective.ne hlt] using hr.link j (by omega)
  · have hlt : j + 1 ≠ i + 1 := by omega
    simpa [netnsName_injective.ne hlt] using hr.inner j (by omega)

/-- On a host that is ready the loop comes to its end. -/
lemma NetHost.Ready.isSome_mainLoop {k : ℕ} : ∀ {i v2 v3 : ℕ} {h : NetHost}, h.Ready i →
    (mainLoop k (i + 1) v2 v3 h).isSome = true := by
  induction k with
  | zero => exact fun _ => rfl
  | succ k ih =>
    intro i v2 v3 h hr
    simp only [mainLoop]
    obtain ⟨h₁, hturn, hr₁⟩ := hr.execAll (if 254 < v3 then (v2 + 1, 1) else (v2, v3)).1
      (if 254 < v3 then (v2 + 1, 1) else (v2, v3)).2
    rw [hturn]
    exact ih hr₁

/-- **No command of the tool fails** on a host that is ready for its first turn. -/
theorem NetHost.Ready.isSome_wasmnetMain {h : NetHost} (hr : h.Ready 0) :
    (wasmnetMain h).isSome = true :=
  hr.isSome_mainLoop

end Fecore
