import Mathlib.Tactic.Common
import Fecore.Concurrency.Traces
import Fecore.Data.Words
import Fecore.Handlers.Ipam

set_option relaxedAutoImplicit false
set_option autoImplicit false

/-!
# The addresses that are given out

`LastReservedIP` gives out the addresses from 10.62.0.1 on, one after the other. Nothing stops it at
the end of the subnet of the containers.

## Main definitions

* `Fecore.IPv4.toNat`, `Fecore.IPv4.ofNat` — the word that `getNextIP` adds to.
* `Fecore.IPAM.lastReserved` — the address that a section of `LastReservedIP` gives out.
* `Fecore.WalksSubnet` — addresses follow one another in the subnet, none of them twice.

## Main results

* `Fecore.IPv4.string_injective` — an address can be read back.
* `Fecore.walksSubnet_trace_iff` — for how many calls the addresses of a run are those of the
  subnet.
-/

namespace Fecore

open Interleaving

/-! ### Addresses as words -/

namespace IPv4

/-- The word that `getNextIP` puts together from the bytes. -/
def toNat (ip : IPv4) : ℕ :=
  (ip.v0.toNat <<< 24) + (ip.v1.toNat <<< 16) + (ip.v2.toNat <<< 8) + ip.v3.toNat

/-- The bytes that `getNextIP` takes from a word. -/
def ofNat (v : ℕ) : IPv4 :=
  ⟨.ofNat (v >>> 24 &&& 0xFF), .ofNat (v >>> 16 &&& 0xFF), .ofNat (v >>> 8 &&& 0xFF),
    .ofNat (v &&& 0xFF)⟩

/-- `getNextIP` adds to the word. -/
lemma getNextIP_eq (ip : IPv4) (inc : ℕ) : getNextIP ip inc = ofNat (ip.toNat + inc) := rfl

/-- The word has the bytes as its digits to base 256. -/
lemma toNat_eq (ip : IPv4) :
    ip.toNat = ip.v0.toNat * 2 ^ 24 + ip.v1.toNat * 2 ^ 16 + ip.v2.toNat * 2 ^ 8 + ip.v3.toNat := by
  unfold toNat
  simp only [Nat.shiftLeft_eq]

/-- A byte of a word. -/
lemma toNat_byte (v : ℕ) : (UInt8.ofNat (v &&& 0xFF)).toNat = v % 2 ^ 8 := by
  rw [UInt8.toNat_ofNat', show (0xFF : ℕ) = 2 ^ 8 - 1 from rfl, Nat.and_two_pow_sub_one_eq_mod,
    Nat.mod_mod]

/-- An address is a word of 32 bits. -/
lemma toNat_lt (ip : IPv4) : ip.toNat < 2 ^ 32 := by
  rw [toNat_eq]
  have h0 := ip.v0.toNat_lt
  have h1 := ip.v1.toNat_lt
  have h2 := ip.v2.toNat_lt
  have h3 := ip.v3.toNat_lt
  omega

/-- Beyond 32 bits a word starts from 0.0.0.0 again. -/
lemma toNat_ofNat (v : ℕ) : (ofNat v).toNat = v % 2 ^ 32 := by
  rw [toNat_eq, ofNat]
  simp only [toNat_byte, Nat.shiftRight_eq_div_pow]
  omega

/-- The address after so many calls. -/
lemma toNat_iterate (ip : IPv4) (i : ℕ) :
    ((getNextIP · 1)^[i] ip).toNat = (ip.toNat + i) % 2 ^ 32 := by
  induction i with
  | zero => rw [Function.iterate_zero_apply, Nat.add_zero, Nat.mod_eq_of_lt ip.toNat_lt]
  | succ i ih =>
    rw [Function.iterate_succ_apply', getNextIP_eq, toNat_ofNat, ih]
    omega

/-- Different addresses are different words. -/
lemma toNat_injective : Function.Injective toNat := by
  intro a b h
  rw [toNat_eq, toNat_eq] at h
  have ha1 := a.v1.toNat_lt
  have ha2 := a.v2.toNat_lt
  have ha3 := a.v3.toNat_lt
  have hb1 := b.v1.toNat_lt
  have hb2 := b.v2.toNat_lt
  have hb3 := b.v3.toNat_lt
  cases a
  cases b
  rw [IPv4.mk.injEq]
  simp only [← UInt8.toNat_inj]
  dsimp only at *
  omega

/-- An address can be read back. -/
lemma string_injective : Function.Injective IPv4.string := by
  intro a b h
  unfold IPv4.string at h
  simp only [List.append_assoc, List.cons_append] at h
  obtain ⟨h0, h⟩ := (List.append_cons_inj (dot_notMem_itoa _) (dot_notMem_itoa _)).mp h
  obtain ⟨h1, h⟩ := (List.append_cons_inj (dot_notMem_itoa _) (dot_notMem_itoa _)).mp h
  obtain ⟨h2, h3⟩ := (List.append_cons_inj (dot_notMem_itoa _) (dot_notMem_itoa _)).mp h
  cases a
  cases b
  rw [IPv4.mk.injEq]
  exact ⟨UInt8.toNat_inj.mp (itoa_injective h0), UInt8.toNat_inj.mp (itoa_injective h1),
    UInt8.toNat_inj.mp (itoa_injective h2), UInt8.toNat_inj.mp (itoa_injective h3)⟩

end IPv4

/-- A subnet: an address and how many bits of it are those of the network. -/
structure Subnet where
  ip : IPv4
  ones : ℕ

/-- The address is in the subnet. -/
def Subnet.contains (net : Subnet) (ip : IPv4) : Prop :=
  ip.toNat / 2 ^ (32 - net.ones) = net.ip.toNat / 2 ^ (32 - net.ones)

/-- `defaultSubnet` of `pkg/cninetwork/cni_network.go`, `10.62.0.0/16`. -/
def defaultSubnet : Subnet := ⟨⟨10, 62, 0, 0⟩, 16⟩

/-- **The addresses walk through the subnet**: no two are written the same, each is one more than
the one before it, and all of them are in `defaultSubnet`. -/
structure WalksSubnet (addrs : List IPv4) : Prop where
  distinct : (addrs.map IPv4.string).Nodup
  succ : addrs.IsChain fun a b => b.toNat = a.toNat + 1
  subnet : ∀ ip ∈ addrs, defaultSubnet.contains ip

/-- The address after so many calls is in the subnet. -/
lemma contains_iterate_iff (i : ℕ) (hi : i < 2 ^ 16) :
    defaultSubnet.contains ((getNextIP · 1)^[i] ⟨10, 62, 0, 1⟩) ↔ i < 65535 := by
  have hfirst : IPv4.toNat ⟨10, 62, 0, 1⟩ = 171835393 := by decide
  have hnet : defaultSubnet.ip.toNat = 171835392 := by decide
  unfold Subnet.contains
  rw [IPv4.toNat_iterate, hfirst, hnet, defaultSubnet]
  dsimp only
  omega

/-- So many addresses from the first one on walk through the subnet.

**Proof sketch.** As numbers the addresses are the first one and those behind it, so they are
different and follow one another. They lie in the subnet up to its last address
(`contains_iterate_iff`). -/
lemma walksSubnet_iterate_iff (n : ℕ) :
    WalksSubnet (List.iterate (getNextIP · 1) ⟨10, 62, 0, 1⟩ n) ↔ n ≤ 65535 := by
  have hfirst : IPv4.toNat ⟨10, 62, 0, 1⟩ = 171835393 := by decide
  constructor
  · intro h
    by_contra hn
    -- the address that is given out after the last one of the subnet
    have hlast := h.subnet _ (List.mem_iterate.mpr ⟨65535, by omega, rfl⟩)
    exact absurd ((contains_iterate_iff 65535 (by decide)).mp hlast) (by decide)
  · intro hn
    have hval : ∀ i < n, ((getNextIP · 1)^[i] ⟨10, 62, 0, 1⟩).toNat = 171835393 + i := by
      intro i hi
      rw [IPv4.toNat_iterate, hfirst]
      omega
    refine ⟨?_, List.isChain_iff_getElem.mpr fun i hi => ?_, fun ip hip => ?_⟩
    · rw [← List.range_map_iterate, List.map_map]
      refine List.Nodup.map_on (fun i hi j hj heq => ?_) List.nodup_range
      have := congrArg IPv4.toNat (IPv4.string_injective heq)
      rw [hval i (List.mem_range.mp hi), hval j (List.mem_range.mp hj)] at this
      omega
    · rw [List.length_iterate] at hi
      rw [List.getElem_iterate, List.getElem_iterate, hval _ hi, hval _ (by omega)]
      omega
    · obtain ⟨i, hi, rfl⟩ := List.mem_iterate.mp hip
      exact (contains_iterate_iff i (by omega)).mpr (by omega)

/-! ### Runs -/

/-- The request is for the next address. -/
def IPAMThread.asksAddress : IPAMThread → Bool
  | .received r => decide (r.action = "LastReservedIP".toList)
  | _ => false

namespace IPAM

/-- The move is the section of a request for the next address. -/
def asksAddress (c : Interleaving.Config IPAM IPAMThread) : Move IPAMThread Unit → Bool
  | .arrive _ => false
  | .step i _ => (c.threads[i]?).any IPAMThread.asksAddress

/-- The address that a section of `LastReservedIP` gives out. -/
def lastReserved (c : Interleaving.Config IPAM IPAMThread) (m : Move IPAMThread Unit) :
    Option IPv4 :=
  if asksAddress c m then some c.shared.nextIP else none

/-- One for each call of `LastReservedIP`. -/
def calls (c : Interleaving.Config IPAM IPAMThread) (m : Move IPAMThread Unit) : ℕ :=
  if asksAddress c m then 1 else 0

/-- **What a section does to the next address**: a call of `LastReservedIP` takes it and answers
with it, and the others leave it.

**Proof sketch.** Case split on the action of the request. Only the branch of `LastReservedIP`
writes the next address. -/
lemma next_nextIP {s s' : IPAM} {t t' : IPAMThread} (h : s.next t = some (s', t')) :
    t.asksAddress = false ∧ s'.nextIP = s.nextIP ∨
      t.asksAddress = true ∧ s'.nextIP = getNextIP s.nextIP 1 ∧ t' = .answered s.nextIP.string := by
  cases t with
  | received r =>
    have hhandle : s.handle r = (s', t') := Option.some.inj h
    by_cases hr : r.action = "LastReservedIP".toList
    · have hreserve : r.action ≠ "Reserve".toList := by
        rw [hr]
        decide
      unfold handle at hhandle
      rw [if_neg hreserve, if_pos hr] at hhandle
      cases hhandle
      exact .inr ⟨decide_eq_true hr, rfl, rfl⟩
    · refine .inl ⟨decide_eq_false hr, ?_⟩
      obtain rfl : (s.handle r).1 = s' := congrArg Prod.fst hhandle
      unfold handle
      simp only [if_neg hr]
      repeat' split
      all_goals rfl
  | storing ip id =>
    obtain rfl : (s.store ip id).1 = s' := congrArg Prod.fst (Option.some.inj h)
    exact .inl ⟨rfl, rfl⟩
  | deleting id =>
    obtain rfl : (s.delete id).1 = s' := congrArg Prod.fst (Option.some.inj h)
    exact .inl ⟨rfl, rfl⟩
  | answered retval => cases h

/-- What a move does to the next address; the request that takes it is answered with it. -/
lemma nextIP_cases {c c' : Interleaving.Config IPAM IPAMThread} {m : Move IPAMThread Unit}
    (h : ipamProgram.step c m = some c') :
    lastReserved c m = none ∧ c'.shared.nextIP = c.shared.nextIP ∨
      lastReserved c m = some c.shared.nextIP ∧
        c'.shared.nextIP = getNextIP c.shared.nextIP 1 ∧
          ∃ i, m = .step i () ∧ c'.threads[i]? = some (.answered c.shared.nextIP.string) := by
  obtain ⟨t, rfl, -, rfl⟩ | ⟨i, e, t, s', t', new, rfl, ht, hn, rfl⟩ := Program.step_cases h
  · exact .inl ⟨rfl, rfl⟩
  · obtain ⟨⟨s', t'⟩, hnext, heq⟩ := Option.map_eq_some_iff.mp hn
    obtain ⟨rfl, rfl, rfl⟩ := heq
    have hasks : asksAddress c (.step i e) = t.asksAddress := congrArg (Option.any _) ht
    unfold lastReserved
    rw [hasks]
    rcases next_nextIP hnext with ⟨hfalse, hip⟩ | ⟨htrue, hip, rfl⟩
    · exact .inl ⟨by rw [hfalse]; rfl, hip⟩
    · exact .inr ⟨by rw [htrue]; rfl, hip, i, rfl, getElem?_section _ _ ht⟩

/-- The addresses of a run, by the number of calls.

**Proof sketch.** Each section that calls `getNextIP` leaves the address it reserves as the next
one, and no other section writes it (`nextIP_cases`). So the addresses are its iterates. -/
lemma trace_lastReserved (ms : List (Move IPAMThread Unit)) :
    Runs.trace ipamProgram.step lastReserved startIPAM ms =
      List.iterate (getNextIP · 1) ⟨10, 62, 0, 1⟩
        (Runs.tally ipamProgram.step calls startIPAM ms) := by
  have hlength : (fun c m => (lastReserved c m).toList.length) = calls := by
    funext c m
    unfold lastReserved calls
    split <;> rfl
  have hdispense : ∀ (c : Interleaving.Config IPAM IPAMThread) (m : Move IPAMThread Unit) c',
      ipamProgram.step c m = some c' →
        lastReserved c m = none ∧ c'.shared.nextIP = c.shared.nextIP ∨
          lastReserved c m = some c.shared.nextIP ∧
            c'.shared.nextIP = getNextIP c.shared.nextIP 1 := by
    intro c m c' h
    exact (nextIP_cases h).imp_right fun h => ⟨h.1, h.2.1⟩
  have htrace := Runs.trace_eq_iterate (fun c : Interleaving.Config IPAM IPAMThread =>
    c.shared.nextIP) (getNextIP · 1) hdispense startIPAM ms
  rw [Runs.length_trace, hlength] at htrace
  exact htrace

end IPAM

open IPAM

/-- **The addresses of a run walk through the subnet** of the containers exactly when there are no
more calls than it has addresses after its own. -/
theorem walksSubnet_trace_iff (ms : List (Move IPAMThread Unit)) :
    WalksSubnet (Runs.trace ipamProgram.step lastReserved startIPAM ms) ↔
      Runs.tally ipamProgram.step calls startIPAM ms ≤ 65535 := by
  rw [trace_lastReserved]
  exact walksSubnet_iterate_iff _

/-! ### The end of the subnet -/

/-- Requests for so many addresses, one after the other. -/
def askAddresses : ℕ → List (Move IPAMThread Unit)
  | 0 => []
  | n + 1 => askAddresses n ++
    [.arrive (.received { action := "LastReservedIP".toList }), .step n ()]

/-- So many questions for an address can be asked, and each is counted.

**Proof sketch.** Induct on the number of questions. One more arrives, takes its section and is the
last goroutine of the configuration. -/
lemma run_askAddresses (n : ℕ) :
    ∃ c, Runs.run ipamProgram.step startIPAM (askAddresses n) = some c ∧ c.threads.length = n ∧
      Runs.tally ipamProgram.step calls startIPAM (askAddresses n) = n := by
  induction n with
  | zero => exact ⟨_, rfl, rfl, rfl⟩
  | succ n ih =>
    obtain ⟨c, hrun, hlength, htally⟩ := ih
    have hi : (c.threads ++ [.received { action := "LastReservedIP".toList }])[n]? =
        some (.received { action := "LastReservedIP".toList }) := by
      rw [List.getElem?_append_right (by omega), hlength, Nat.sub_self]
      rfl
    have harrive : ipamProgram.step c
        (.arrive (.received { action := "LastReservedIP".toList })) =
          some ⟨c.shared, c.threads ++ [.received { action := "LastReservedIP".toList }]⟩ := rfl
    obtain ⟨c', hstep, hlength'⟩ : ∃ c', ipamProgram.step
        ⟨c.shared, c.threads ++ [.received { action := "LastReservedIP".toList }]⟩ (.step n ()) =
          some c' ∧ c'.threads.length = n + 1 := by
      rw [Program.step, hi]
      refine ⟨_, rfl, ?_⟩
      simp [hlength]
    refine ⟨c', ?_, hlength', ?_⟩
    · rw [askAddresses, Runs.run_append, hrun, Option.bind_some, Runs.run_cons, harrive,
        Option.bind_some, Runs.run_cons, hstep]
      rfl
    · rw [askAddresses, Runs.tally_append hrun, htally, Runs.tally_cons_of_some _ _ harrive,
        Runs.tally_cons_of_some _ _ hstep, Runs.tally_nil, calls, calls, asksAddress, asksAddress]
      dsimp only
      rw [hi]
      rfl

/-- After the 65535 addresses of the subnet the next one is that of the subnet of WASM replicas. -/
theorem not_walksSubnet_askAddresses :
    (Runs.trace ipamProgram.step lastReserved startIPAM (askAddresses 65536)).getLast? =
        some ⟨10, 63, 0, 0⟩ ∧
      ¬ WalksSubnet (Runs.trace ipamProgram.step lastReserved startIPAM (askAddresses 65536)) := by
  obtain ⟨-, -, -, htally⟩ := run_askAddresses 65536
  rw [trace_lastReserved, htally]
  refine ⟨?_, fun h => absurd ((walksSubnet_iterate_iff _).mp h) (by decide)⟩
  rw [List.getLast?_eq_getElem?, List.length_iterate, List.getElem?_iterate _ _ _ _ (by decide)]
  refine congrArg some (IPv4.toNat_injective ?_)
  rw [IPv4.toNat_iterate]
  decide

end Fecore
