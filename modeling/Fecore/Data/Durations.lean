import Mathlib.Tactic.Common
import Mathlib.Tactic.Ring
import Fecore.Data.Floats

set_option relaxedAutoImplicit false
set_option autoImplicit false

/-!
# Durations and their seconds

Durations of Go's package `time`: 64-bit counts of nanoseconds. `Time.Sub` stops at the largest
and the least of them, and `Duration.Seconds` gives a double: the whole seconds plus the rest
over `1e9`, each step rounded.

## Main definitions

* `Durations.sub`, `Durations.seconds` — `Time.Sub` and `Duration.Seconds`.

## Main results

* `Durations.seconds_mono` — a longer duration has no fewer seconds.
* `Durations.seconds_whole` — whole seconds are exact.
* `Durations.seconds_lt` — a duration that is short of whole seconds by more than the rounding
  at their size has fewer seconds.

## Design

Doubles are given in units, as in `Fecore.Data.Floats`: one is `2 ^ 128` of them. That is enough
here: the last bit of a nanosecond over `1e9` is `2 ^ -82`.
-/

namespace Durations

open Floats (double)

/-- `time.Second`, in nanoseconds. -/
def second : ℤ := 1000000000

/-- `minDuration`. -/
def minDuration : ℤ := -2 ^ 63

/-- `maxDuration`. -/
def maxDuration : ℤ := 2 ^ 63 - 1

/-- `t.Sub(u)`, for times in nanoseconds. -/
def sub (t u : ℤ) : ℤ := max minDuration (min maxDuration (t - u))

/-- `float64(n)`. -/
def float64 (n : ℤ) : ℤ := Floats.ofInt double n

/-- `d.Seconds()`: `float64(d / Second) + float64(d % Second) / 1e9`. -/
def seconds (d : ℤ) : ℤ :=
  Floats.add double (float64 (d.tdiv second))
    (Floats.div double (float64 (d.tmod second)) (float64 second))

/-- One double. -/
abbrev one : ℤ := Floats.one double

/-- `float64(n) / 1e9`. -/
abbrev fraction (n : ℤ) : ℤ := Floats.div double (float64 n) (float64 second)

/-- A difference is a duration. -/
lemma sub_bounds (t u : ℤ) : minDuration ≤ sub t u ∧ sub t u ≤ maxDuration := by
  simp only [sub, minDuration, maxDuration]
  omega

/-- The later of two times is less far away. -/
lemma sub_anti {t u u' : ℤ} (h : u ≤ u') : sub t u' ≤ sub t u := by
  simp only [sub, minDuration, maxDuration]
  omega

/-- Nothing has passed between a time and a later one. -/
lemma sub_le_zero {t u : ℤ} (h : t ≤ u) : sub t u ≤ 0 := by
  simp only [sub, minDuration, maxDuration]
  omega

/-- The doubles of integers are in order. -/
lemma float64_mono {i j : ℤ} (h : i ≤ j) : float64 i ≤ float64 j :=
  Floats.ofInt_mono (by decide) h

/-- Integers of 53 bits are exact. -/
lemma float64_eq {n : ℤ} (h : n.natAbs < 2 ^ 53) : float64 n = n * one :=
  Floats.ofInt_eq h

/-- The divisor of a fraction is positive. -/
lemma float64_second_pos : 0 < float64 second := by
  rw [float64_eq (by decide)]
  exact Int.mul_pos (by decide) Floats.one_pos

/-- Fractions are in order. -/
lemma fraction_mono {n n' : ℤ} (h : n ≤ n') : fraction n ≤ fraction n' :=
  Floats.div_mono (by decide) float64_second_pos (float64_mono h)

/-- No nanoseconds are no seconds. -/
lemma fraction_zero : fraction 0 = 0 := by
  rw [fraction, float64_eq (by decide), Int.zero_mul, Floats.zero_div]

/-- As many nanoseconds as a second has are one. -/
lemma fraction_second : fraction second = one := Floats.div_self (by decide) float64_second_pos

/-- A whole negative second is minus one as a double. -/
lemma fraction_neg_second : fraction (-second) = -one := by
  rw [fraction, float64, Floats.ofInt_neg, Floats.neg_div]
  exact congrArg Neg.neg fraction_second

/-- Go's division: the rest has the sign of the duration, and is less than a second. -/
lemma tmod_second (d : ℤ) :
    second * d.tdiv second + d.tmod second = d ∧ -second < d.tmod second ∧
      d.tmod second < second ∧ (0 ≤ d → 0 ≤ d.tmod second) ∧ (d ≤ 0 → d.tmod second ≤ 0) := by
  refine ⟨Int.mul_tdiv_add_tmod d second, Int.lt_tmod_of_pos d (by decide),
    Int.tmod_lt_of_pos d (by decide), Int.tmod_nonneg second, fun h => ?_⟩
  have := Int.tmod_nonneg second (show 0 ≤ -d by omega)
  rw [Int.neg_tmod] at this
  omega

/-- The seconds of a 64-bit count of nanoseconds are exact, before they are added. -/
lemma seconds_eq {d : ℤ} (h : minDuration ≤ d ∧ d ≤ maxDuration) :
    seconds d = Floats.roundInt double (d.tdiv second * one + fraction (d.tmod second)) 1 := by
  have hexact : float64 (d.tdiv second) = d.tdiv second * one := by
    refine float64_eq ?_
    have := tmod_second d
    simp only [minDuration, maxDuration, second] at h this ⊢
    omega
  rw [seconds, Floats.add, hexact]

/-- **A longer duration has no fewer seconds.**

**Proof sketch.** The rest is at most a second on either side of zero, and its fraction then at
most one: whole seconds decide where they differ, and the rest where they do not. -/
theorem seconds_mono {d d' : ℤ} (h : minDuration ≤ d) (hle : d ≤ d') (h' : d' ≤ maxDuration) :
    seconds d ≤ seconds d' := by
  rw [seconds_eq ⟨h, hle.trans h'⟩, seconds_eq ⟨h.trans hle, h'⟩]
  refine Floats.roundInt_mono (by decide) (by decide) ?_
  have hone : 0 < one := Floats.one_pos
  have hbelow : ∀ n, n ≤ second → fraction n ≤ one := fun n hn =>
    (fraction_mono hn).trans_eq fraction_second
  have habove : ∀ n, -second ≤ n → -one ≤ fraction n := fun n hn =>
    fraction_neg_second.symm.trans_le (fraction_mono hn)
  have hpos : ∀ n, 0 ≤ n → 0 ≤ fraction n := fun n hn =>
    fraction_zero.symm.trans_le (fraction_mono hn)
  have hneg : ∀ n, n ≤ 0 → fraction n ≤ 0 := fun n hn =>
    (fraction_mono hn).trans_eq fraction_zero
  obtain ⟨hd, hlow, hhigh, hnonneg, hnonpos⟩ := tmod_second d
  obtain ⟨hd', hlow', hhigh', hnonneg', hnonpos'⟩ := tmod_second d'
  generalize d.tdiv second = s at *
  generalize d.tmod second = n at *
  generalize d'.tdiv second = s' at *
  generalize d'.tmod second = n' at *
  rcases lt_trichotomy s s' with hlt | rfl | hgt
  · have hstep : (s + 1) * one ≤ s' * one := Int.mul_le_mul_of_nonneg_right (by omega) hone.le
    rw [Int.add_mul, Int.one_mul] at hstep
    rcases le_total 0 d with hd0 | hd0
    · -- both rests are positive
      have h1 := hbelow n hhigh.le
      have h2 := hpos n' (hnonneg' (hd0.trans hle))
      omega
    · have h1 := hneg n (hnonpos hd0)
      have h2 := habove n' hlow'.le
      omega
  · have := fraction_mono (show n ≤ n' by omega)
    omega
  · simp only [second] at hd hd' hlow hhigh hlow' hhigh'
    omega

/-- **Whole seconds are exact.** -/
theorem seconds_whole {n : ℤ} (h : n.natAbs < 2 ^ 53) : seconds (n * second) = n * one := by
  have hdiv : (n * second).tdiv second = n := Int.mul_tdiv_cancel n (by decide)
  have hmod : (n * second).tmod second = 0 := Int.mul_tmod_left n second
  calc seconds (n * second) = Floats.add double (float64 n) (fraction 0) := by
        rw [seconds, hdiv, hmod]
    _ = Floats.roundInt double (n * one) 1 := by
        rw [fraction_zero, float64_eq h, Floats.add, Int.add_zero]
    _ = n * one := float64_eq h

/-- **A duration that is short of whole seconds has fewer seconds**, when what it is short by is
more than half the distance of the doubles at their size.

**Proof sketch.** The exact sum is short of the whole seconds by the same, up to the rounding of
the fraction; rounding the sum goes up by half a distance at most. -/
theorem seconds_lt {n short : ℤ} {e : ℕ} (hn : 0 < n) (he : n ≤ 2 ^ e)
    (hmax : n * second ≤ maxDuration) (hshort : 0 < short) (hsecond : short < second)
    (hround : 2 ^ (double.scale + e - 53) < 2 * (one - fraction (second - short))) :
    seconds (n * second - short) < n * one := by
  obtain ⟨hd, hlow, hhigh, hnonneg, -⟩ := tmod_second (n * second - short)
  have hdiv : (n * second - short).tdiv second = n - 1 := by
    simp only [second] at *
    omega
  have hmod : (n * second - short).tmod second = second - short := by
    simp only [second] at *
    omega
  rw [seconds_eq (by simp only [minDuration, maxDuration, second] at *; omega), hdiv, hmod]
  have hpos : 0 ≤ fraction (second - short) :=
    fraction_zero.symm.trans_le (fraction_mono (by omega))
  have hpow : (0 : ℤ) < 2 ^ (double.scale + e - 53) := Int.pow_pos (by decide)
  have hone : 0 < one := Floats.one_pos
  have hnone : n * one = (n - 1) * one + one := by ring
  have hnonneg : 0 ≤ (n - 1) * one := Int.mul_nonneg (by omega) hone.le
  obtain ⟨x, hx⟩ : ∃ x : ℕ, (n - 1) * one + fraction (second - short) = x :=
    Int.eq_ofNat_of_zero_le (by omega)
  rw [hx]
  have hsize : (x : ℤ) < 2 ^ (e + double.scale) := by
    calc (x : ℤ) < n * one := by omega
      _ ≤ 2 ^ e * one := Int.mul_le_mul_of_nonneg_right he hone.le
      _ = 2 ^ (e + double.scale) := (Int.pow_add 2 e double.scale).symm
  have hspacing := Floats.spacing_le (f := double) (x := x) (e := e + double.scale)
    (by exact_mod_cast hsize) (by simp [double])
  have hround' := Floats.round_le_add_spacing (f := double) x
  have hpow' : ((2 ^ (e + double.scale - 53) : ℕ) : ℤ) = 2 ^ (double.scale + e - 53) := by
    rw [Nat.add_comm]
    exact Nat.cast_pow 2 _
  change ((Floats.round double x 1 : ℕ) : ℤ) < _
  change Floats.spacing double x ≤ 2 ^ (e + double.scale - 53) at hspacing
  omega

end Durations
