import Mathlib.Tactic.Common
import Fecore.Data.Decimal
import Fecore.Handlers.FunctionStore
import Fecore.Supervisor.LookUps

set_option relaxedAutoImplicit false
set_option autoImplicit false

/-!
# The ports of upstreams

An upstream is written as a host, a colon and a port by `runUp` (`cmd/up.go`), and `getUpstream`
(`pkg/proxy.go`) takes it apart again. The port is written as an unsigned number and read as a
signed one.

## Main definitions

* `Fecore.upstreamOf` — what `runUp` writes.
* `Fecore.SplitsUpstream` — what `getUpstream` is for.
* `Fecore.PortSafe` — the port is no number that is read with the wrong sign.

## Main results

* `Fecore.parseInt32_eq_ok_iff` — which words are read as which numbers.
* `Fecore.splitsUpstream_iff` — when an upstream is split.
-/

namespace Fecore

/-- The upstream that `runUp` makes for a port of a service. -/
def upstreamOf (name : Str) (targetPort : ℕ) : Str := name ++ ':' :: itoa targetPort

/-- **What `getUpstream` is for**: without a colon the upstream is a host with the default port, and
with one the text before it is the host, and the rest the number of the port; it is an error if the
rest is no number of 32 bits without a sign. -/
structure SplitsUpstream (val : Str) (defaultPort : ℕ) : Prop where
  noPort : ':' ∉ val → getUpstream val defaultPort = .ok (val, defaultPort)
  port : ∀ (host rest : Str) (n : ℕ), val = host ++ ':' :: rest → ':' ∉ host →
    Decimal.Numeral rest n → n < 2 ^ 32 → getUpstream val defaultPort = .ok (host, n)
  noNumber : ∀ host rest : Str, val = host ++ ':' :: rest → ':' ∉ host →
    (∀ n : ℕ, Decimal.Numeral rest n → 2 ^ 32 ≤ n) → ∃ err, getUpstream val defaultPort = .error err

/-- What is behind the first colon is no number of 32 bits with a minus, and none of 32 bits whose
highest bit is set. -/
def PortSafe (val : Str) : Prop :=
  ∀ (host rest : Str) (n : ℤ), val = host ++ ':' :: rest → ':' ∉ host → Decimal.Numeral rest n →
    n < -2 ^ 31 ∨ 0 ≤ n ∧ n < 2 ^ 31 ∨ 2 ^ 32 ≤ n

/-! ### Numbers -/

/-- **Which words `strconv.ParseInt` reads**: the numbers of 32 bits.

**Proof sketch.** A word that is no number of 64 bits is not one of 32 bits either
(`parseInt_eq_ok_iff`), and the number of a word is unique, so the test of the range decides. -/
lemma parseInt32_eq_ok_iff {s : Str} {n : ℤ} :
    parseInt32 s = .ok n ↔ Decimal.Numeral s n ∧ -2 ^ 31 ≤ n ∧ n < 2 ^ 31 := by
  unfold parseInt32
  cases h : parseInt s with
  | error err =>
    refine iff_of_false (by simp [Except.bind]) ?_
    rintro ⟨hn, hlo, hhi⟩
    rw [parseInt_eq_ok_iff.mpr ⟨hn, by omega, by omega⟩] at h
    cases h
  | ok m =>
    have hm := (parseInt_eq_ok_iff.mp h).1
    simp only [Except.bind]
    split
    next hrange =>
      rw [Except.ok.injEq]
      constructor
      · rintro rfl
        exact ⟨hm, by omega, by omega⟩
      · rintro ⟨hn, -, -⟩
        exact hm.unique hn
    next hrange =>
      refine iff_of_false (by simp) ?_
      rintro ⟨hn, hlo, hhi⟩
      obtain rfl := hm.unique hn
      exact hrange ⟨by omega, by omega⟩

/-! ### Upstreams -/

section Split

variable {host rest : Str} (hhost : ':' ∉ host) (defaultPort : ℕ)

include hhost

/-- What is behind the first colon is parsed. -/
lemma getUpstream_append : getUpstream (host ++ ':' :: rest) defaultPort =
    (parseInt32 rest).map fun port => (host, (port % 4294967296).toNat) := by
  have hidx : (host ++ ':' :: rest).idxOf ':' = host.length := by
    rw [List.idxOf_append_of_notMem hhost, List.idxOf_cons_self, Nat.add_zero]
  have hdrop : (host ++ ':' :: rest).drop (host.length + 1) = rest := by
    rw [List.drop_append, List.drop_eq_nil_of_le (Nat.le_succ _), Nat.add_sub_cancel_left]
    rfl
  unfold getUpstream
  rw [if_pos (List.mem_append_right _ List.mem_cons_self), hidx, hdrop, List.take_left]

/-- A number that fits is returned as it is below the highest bit.

**Proof sketch.** `parseInt32` accepts the number exactly when it is below 2 ^ 31, and the
conversion keeps it. -/
lemma getUpstream_eq_ok_iff {n : ℕ} (hnum : Decimal.Numeral rest n) (hn : n < 2 ^ 32) :
    getUpstream (host ++ ':' :: rest) defaultPort = .ok (host, n) ↔ n < 2 ^ 31 := by
  rw [getUpstream_append hhost]
  constructor
  · intro h
    cases hparse : parseInt32 rest with
    | error err =>
      rw [hparse] at h
      cases h
    | ok m =>
      obtain ⟨hm, -, hhi⟩ := parseInt32_eq_ok_iff.mp hparse
      obtain rfl := hm.unique hnum
      exact_mod_cast hhi
  · intro hlt
    rw [parseInt32_eq_ok_iff.mpr ⟨hnum, by omega, by exact_mod_cast hlt⟩, Except.map]
    have hmod : ((n : ℤ) % 4294967296).toNat = n := by omega
    rw [hmod]

/-- What is no number of 32 bits with a sign is an error. -/
lemma getUpstream_eq_error_iff :
    (∃ err, getUpstream (host ++ ':' :: rest) defaultPort = .error err) ↔
      ∀ n : ℤ, Decimal.Numeral rest n → n < -2 ^ 31 ∨ 2 ^ 31 ≤ n := by
  rw [getUpstream_append hhost]
  cases hparse : parseInt32 rest with
  | error err =>
    refine iff_of_true ⟨err, rfl⟩ fun n hn => ?_
    by_contra hrange
    rw [parseInt32_eq_ok_iff.mpr ⟨hn, by omega, by omega⟩] at hparse
    cases hparse
  | ok m =>
    obtain ⟨hm, hlo, hhi⟩ := parseInt32_eq_ok_iff.mp hparse
    refine iff_of_false (by simp [Except.map]) fun h => ?_
    rcases h m hm with hlt | hle
    · omega
    · omega

end Split

/-- **When an upstream is split**: exactly when what is behind its first colon is neither a negative
number of 32 bits nor one from 2 ^ 31 up to 2 ^ 32; and what `runUp` writes is split exactly when
the port is less than 2 ^ 31.

**Proof sketch.** A word is read when it is a number of 32 bits with a sign
(`parseInt32_eq_ok_iff`). The numbers that fit without a sign are refused from 2 ^ 31 on, and the
negative ones that are read wrap around. -/
theorem splitsUpstream_iff (val : Str) (defaultPort : ℕ) :
    (SplitsUpstream val defaultPort ↔ PortSafe val) ∧
      ∀ (host : Str) (p : ℕ), ':' ∉ host → p < 2 ^ 32 →
        (getUpstream (upstreamOf host p) defaultPort = .ok (host, p) ↔ p < 2 ^ 31) := by
  refine ⟨⟨fun h => ?_, fun h => ⟨fun hcolon => ?_, ?_, ?_⟩⟩, fun host p hhost hp => ?_⟩
  · intro host rest n hval hhost hnum
    subst hval
    by_contra hrange
    rcases lt_or_ge n 0 with hneg | hpos
    · -- it is an error, but is read
      have herr := h.noNumber host rest rfl hhost fun m hm => by
        have := hnum.unique hm
        omega
      have hout := (getUpstream_eq_error_iff hhost defaultPort).mp herr n hnum
      omega
    · -- it fits, but is not read
      obtain ⟨m, rfl⟩ := Int.eq_ofNat_of_zero_le hpos
      have hlt := (getUpstream_eq_ok_iff hhost defaultPort hnum (by omega)).mp
        (h.port host rest m rfl hhost hnum (by omega))
      omega
  · exact if_neg hcolon
  · rintro host rest n rfl hhost hnum hn
    have hsafe := h host rest n rfl hhost hnum
    exact (getUpstream_eq_ok_iff hhost defaultPort hnum hn).mpr (by omega)
  · rintro host rest rfl hhost hnone
    refine (getUpstream_eq_error_iff hhost defaultPort).mpr fun n hnum => ?_
    have hsafe := h host rest n rfl hhost hnum
    rcases lt_or_ge n 0 with hneg | hpos
    · omega
    · obtain ⟨m, rfl⟩ := Int.eq_ofNat_of_zero_le hpos
      have hbig := hnone m hnum
      omega
  · exact getUpstream_eq_ok_iff hhost defaultPort (numeral_itoa p) hp

/-- The port of the gateway is read. -/
theorem splitsUpstream_iff_gateway :
    getUpstream (upstreamOf "gateway".toList 8080) 80 = .ok ("gateway".toList, 8080) :=
  ((splitsUpstream_iff [] 80).2 "gateway".toList 8080 (by decide) (by decide)).mpr (by decide)

/-- A negative port wraps around, and one with the highest bit is refused. -/
theorem not_splitsUpstream :
    ¬ SplitsUpstream "gateway:-1".toList 8080 ∧
      getUpstream (upstreamOf "gateway".toList 2147483648) 8080 ≠
        .ok ("gateway".toList, 2147483648) := by
  constructor
  · intro h
    have hwrap : getUpstream "gateway:-1".toList 8080 = .ok ("gateway".toList, 4294967295) := rfl
    obtain ⟨err, herr⟩ := h.noNumber "gateway".toList "-1".toList rfl (by decide) fun m hm => by
      have hneg : (m : ℤ) = -1 := (Decimal.numeral_minus_iff.mp hm).2
      omega
    rw [hwrap] at herr
    cases herr
  · intro h
    have hlt := (getUpstream_eq_ok_iff (by decide) 8080 (numeral_itoa _) (by decide)).mp h
    exact absurd hlt (by decide)

end Fecore
