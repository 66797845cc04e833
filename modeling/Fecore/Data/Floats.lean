import Mathlib.Algebra.Order.Group.Nat
import Mathlib.Algebra.Order.Ring.Int
import Mathlib.Tactic.Common
import Mathlib.Tactic.Ring

set_option relaxedAutoImplicit false
set_option autoImplicit false

/-!
# Binary floating-point numbers

Rounding to nearest, ties to even, in a binary format. A number is given by its value in units of
the smallest positive one, so that every number of the format is an integer: neighbours are one
unit apart as long as the precision suffices, and twice as far from each power of two on.
Overflow, signed zeros and what is not a number are left out.

## Main definitions

* `Floats.Format`, `Floats.double` — the precision of a format, and how many units one is.
* `Floats.round` — the nearest number of the format to a quotient.
* `Floats.ofInt`, `Floats.add`, `Floats.div` — the operations: the exact result, rounded.

## Main results

* `Floats.round_mono` — rounding keeps the order.
* `Floats.round_mul` — a number of the format is not changed.
* `Floats.round_le_add_spacing` — rounding goes up by half a distance at most.
-/

namespace Floats

/-- A binary format: how many bits a number has, and that one is `2 ^ scale` units. -/
structure Format where
  precision : ℕ
  scale : ℕ

/-- Double precision, for numbers whose last bit is not below `2 ^ -128`. -/
def double : Format := ⟨53, 128⟩

/-! ### The nearest integer -/

/-- The integer nearest to `n / d`, the even one of two. -/
def nearestEven (n d : ℕ) : ℕ :=
  if 2 * (n % d) < d ∨ (2 * (n % d) = d ∧ n / d % 2 = 0) then n / d else n / d + 1

/-- The nearest integer is above the floor. -/
lemma div_le_nearestEven (n d : ℕ) : n / d ≤ nearestEven n d := by
  unfold nearestEven
  split <;> omega

/-- The nearest integer is the floor or the next one. -/
lemma nearestEven_le_div (n d : ℕ) : nearestEven n d ≤ n / d + 1 := by
  unfold nearestEven
  split <;> omega

/-- The nearest integer to an integer. -/
lemma nearestEven_mul (m : ℕ) {d : ℕ} (hd : 0 < d) : nearestEven (d * m) d = m := by
  simp [nearestEven, Nat.mul_div_cancel_left m hd, hd]

/-- The nearest integer to zero. -/
lemma nearestEven_zero (d : ℕ) : nearestEven 0 d = 0 := by
  rcases Nat.eq_zero_or_pos d with rfl | hd
  · rfl
  · simpa using nearestEven_mul 0 hd

/-- Rounding to an integer keeps the order. -/
lemma nearestEven_mono {n n' d : ℕ} (h : n ≤ n') :
    nearestEven n d ≤ nearestEven n' d := by
  rcases (Nat.div_le_div_right h : n / d ≤ n' / d).lt_or_eq with hlt | heq
  · calc nearestEven n d ≤ n / d + 1 := nearestEven_le_div n d
      _ ≤ n' / d := hlt
      _ ≤ nearestEven n' d := div_le_nearestEven n' d
  · -- the same floor: the remainders are in order
    have hmod : n % d ≤ n' % d := by
      have hn := Nat.div_add_mod n d
      have hn' := Nat.div_add_mod n' d
      rw [heq] at hn
      omega
    unfold nearestEven
    rw [heq]
    split <;> split <;> omega

/-- The nearest integer is at most one half above. -/
lemma two_mul_nearestEven_le (n d : ℕ) : 2 * (nearestEven n d * d) ≤ 2 * n + d := by
  have hn := Nat.div_add_mod n d
  unfold nearestEven
  split
  · rw [Nat.mul_comm (n / d) d]
    omega
  · rw [Nat.add_mul, Nat.mul_comm (n / d) d]
    omega

/-! ### The nearest number -/

variable (f : Format)

/-- How far neighbouring numbers are apart at `x` units. -/
def spacing (x : ℕ) : ℕ := 2 ^ (x.log2 + 1 - f.precision)

/-- The number of the format nearest to `n / d` units, the even one of two. -/
def round (n d : ℕ) : ℕ := nearestEven n (d * spacing f (n / d)) * spacing f (n / d)

variable {f}

/-- There is a distance everywhere. -/
lemma spacing_pos (x : ℕ) : 0 < spacing f x := Nat.two_pow_pos _

/-- The distance at a number divides the power of two below it. -/
lemma spacing_dvd_log2 (hf : 0 < f.precision) (x : ℕ) : spacing f x ∣ 2 ^ x.log2 :=
  Nat.pow_dvd_pow 2 (by omega)

/-- The distance at a number divides the power of two above it. -/
lemma spacing_dvd_succ_log2 (x : ℕ) : spacing f x ∣ 2 ^ (x.log2 + 1) :=
  Nat.pow_dvd_pow 2 (Nat.sub_le _ _)

/-- The distance below a power of two. -/
lemma spacing_le {x e : ℕ} (h : x < 2 ^ e) (he : 0 < e) : spacing f x ≤ 2 ^ (e - f.precision) := by
  have hlog : x.log2 < e := by
    rcases Nat.eq_zero_or_pos x with rfl | hx
    · simpa using he
    · exact (Nat.log2_lt (by omega)).mpr h
  exact Nat.pow_le_pow_right (by decide) (by omega)

/-- A multiple of the distance that is below the quotient is below what it is rounded to. -/
lemma le_round {n d m : ℕ} (hd : 0 < d) (hm : spacing f (n / d) ∣ m) (h : d * m ≤ n) :
    m ≤ round f n d := by
  obtain ⟨c, rfl⟩ := hm
  have hpos := spacing_pos (f := f) (n / d)
  have hc := nearestEven_mul c (Nat.mul_pos hd hpos)
  have hmono : nearestEven (d * spacing f (n / d) * c) _ ≤ nearestEven n (d * spacing f (n / d)) :=
    nearestEven_mono (by rwa [Nat.mul_assoc])
  rw [hc] at hmono
  rw [round, Nat.mul_comm]
  exact Nat.mul_le_mul_right _ hmono

/-- A multiple of the distance that is above the quotient is above what it is rounded to. -/
lemma round_le {n d m : ℕ} (hd : 0 < d) (hm : spacing f (n / d) ∣ m) (h : n ≤ d * m) :
    round f n d ≤ m := by
  obtain ⟨c, rfl⟩ := hm
  have hpos := spacing_pos (f := f) (n / d)
  have hc := nearestEven_mul c (Nat.mul_pos hd hpos)
  have hmono : nearestEven n (d * spacing f (n / d)) ≤ nearestEven (d * spacing f (n / d) * c) _ :=
    nearestEven_mono (by rwa [Nat.mul_assoc])
  rw [hc] at hmono
  rw [round, Nat.mul_comm (spacing f (n / d))]
  exact Nat.mul_le_mul_right _ hmono

/-- **Rounding keeps the order.**

**Proof sketch.** Where the distances are the same, the nearest integers are in order. Where they
are not, a power of two lies between the two quotients, and both formats have it. -/
theorem round_mono (hf : 0 < f.precision) {n n' d : ℕ} (hd : 0 < d) (h : n ≤ n') :
    round f n d ≤ round f n' d := by
  have hdiv : n / d ≤ n' / d := Nat.div_le_div_right h
  rcases Nat.lt_or_ge (n / d).log2 (n' / d).log2 with hlt | hge
  · have hne : n' / d ≠ 0 := by
      rintro h0
      rw [h0] at hlt
      exact absurd hlt (by simp)
    have hbelow : 2 ^ (n' / d).log2 ≤ n' / d := Nat.log2_self_le hne
    have habove : n / d < 2 ^ (n / d).log2.succ := Nat.lt_log2_self
    have hpow : 2 ^ (n / d).log2.succ ≤ 2 ^ (n' / d).log2 := Nat.pow_le_pow_right (by decide) hlt
    calc round f n d ≤ 2 ^ ((n / d).log2 + 1) :=
          round_le hd (spacing_dvd_succ_log2 _) ((Nat.div_lt_iff_lt_mul hd).mp habove |>.le.trans_eq
            (Nat.mul_comm _ _))
      _ ≤ 2 ^ (n' / d).log2 := hpow
      _ ≤ round f n' d :=
          le_round hd (spacing_dvd_log2 hf _) ((Nat.mul_comm _ _).trans_le
            ((Nat.le_div_iff_mul_le hd).mp hbelow))
  · have hlog : (n / d).log2 = (n' / d).log2 := le_antisymm (by
      rcases Nat.eq_zero_or_pos (n / d) with h0 | h0
      · simp [h0]
      · exact (Nat.le_log2 (by omega)).mpr ((Nat.log2_self_le (by omega)).trans hdiv)) hge
    rw [round, round, spacing, spacing, hlog]
    exact Nat.mul_le_mul_right _ (nearestEven_mono h)

/-- **A number of the format is not changed**: one that has the precision behind its first bit. -/
theorem round_mul {k m d : ℕ} (hd : 0 < d) (hk : 2 ^ k ∣ m) (hm : m < 2 ^ (k + f.precision)) :
    round f (d * m) d = m := by
  have hdvd : spacing f m ∣ m := by
    rcases Nat.eq_zero_or_pos m with rfl | hpos
    · exact dvd_zero _
    · have hlog : m.log2 < k + f.precision := (Nat.log2_lt (by omega)).mpr hm
      exact (Nat.pow_dvd_pow 2 (by omega : m.log2 + 1 - f.precision ≤ k)).trans hk
  have hdiv : d * m / d = m := Nat.mul_div_cancel_left m hd
  exact le_antisymm (round_le hd (by rwa [hdiv]) le_rfl) (le_round hd (by rwa [hdiv]) le_rfl)

/-- **Rounding goes up by half a distance at most.** -/
theorem round_le_add_spacing (n : ℕ) : 2 * round f n 1 ≤ 2 * n + spacing f n := by
  have h := two_mul_nearestEven_le n (1 * spacing f (n / 1))
  simpa [round] using h

/-! ### Operations -/

variable (f)

/-- Rounding of a signed quotient, towards neither sign. -/
def roundInt : ℤ → ℕ → ℤ
  | .ofNat n, d => round f n d
  | .negSucc n, d => -round f (n + 1) d

/-- One, in units. -/
def one : ℤ := 2 ^ f.scale

/-- The number nearest to an integer. -/
def ofInt (i : ℤ) : ℤ := roundInt f (i * one f) 1

/-- The rounded sum. -/
def add (a b : ℤ) : ℤ := roundInt f (a + b) 1

/-- The rounded quotient by a positive number. -/
def div (a b : ℤ) : ℤ := roundInt f (a * one f) b.toNat

variable {f}

/-- One is positive. -/
lemma one_pos : 0 < one f := Int.pow_pos (by decide)

/-- Rounding keeps the order, also of negative numbers. -/
lemma roundInt_mono (hf : 0 < f.precision) {n n' : ℤ} {d : ℕ} (hd : 0 < d) (h : n ≤ n') :
    roundInt f n d ≤ roundInt f n' d := by
  cases n with
  | ofNat n =>
    cases n' with
    | ofNat n' => exact Int.ofNat_le.mpr (round_mono hf hd (Int.ofNat_le.mp h))
    | negSucc n' =>
      have hn := Int.natCast_nonneg n
      exact absurd h (by rw [Int.ofNat_eq_natCast]; omega)
  | negSucc n =>
    cases n' with
    | ofNat n' => simp only [roundInt]; omega
    | negSucc n' =>
      have := round_mono hf hd (show n' + 1 ≤ n + 1 by omega)
      simp only [roundInt]
      omega

/-- Zero is not changed. -/
lemma roundInt_zero {d : ℕ} : roundInt f 0 d = 0 := by
  change (round f 0 d : ℤ) = 0
  rw [round, nearestEven_zero, Nat.zero_mul]
  rfl

/-- A negative number is rounded as its absolute value is. -/
lemma roundInt_neg (n : ℤ) (d : ℕ) : roundInt f (-n) d = -roundInt f n d := by
  cases n with
  | ofNat n =>
    cases n with
    | zero => exact roundInt_zero.trans (congrArg Neg.neg roundInt_zero).symm
    | succ n => rfl
  | negSucc n => exact (Int.neg_neg _).symm

/-- The conversion of integers keeps their order. -/
lemma ofInt_mono (hf : 0 < f.precision) {i j : ℤ} (h : i ≤ j) : ofInt f i ≤ ofInt f j :=
  roundInt_mono hf (by decide) (Int.mul_le_mul_of_nonneg_right h one_pos.le)

/-- Division by a positive number keeps the order of the dividends. -/
lemma div_mono (hf : 0 < f.precision) {a a' b : ℤ} (hb : 0 < b) (h : a ≤ a') :
    div f a b ≤ div f a' b :=
  roundInt_mono hf (by omega) (Int.mul_le_mul_of_nonneg_right h one_pos.le)

/-- The conversion of an integer keeps its sign. -/
lemma ofInt_neg (i : ℤ) : ofInt f (-i) = -ofInt f i := by
  rw [ofInt, ofInt, Int.neg_mul, roundInt_neg]

/-- Zero over a number is zero. -/
lemma zero_div (b : ℤ) : div f 0 b = 0 := by
  rw [div, Int.zero_mul, roundInt_zero]

/-- The sign of the dividend is that of the quotient. -/
lemma neg_div (a b : ℤ) : div f (-a) b = -div f a b := by
  rw [div, div, Int.neg_mul, roundInt_neg]

/-- A number over itself is one. -/
lemma div_self (hf : 0 < f.precision) {b : ℤ} (hb : 0 < b) : div f b b = one f := by
  obtain ⟨n, rfl⟩ := Int.eq_ofNat_of_zero_le hb.le
  have hround : round f (n * 2 ^ f.scale) n = 2 ^ f.scale :=
    round_mul (by omega) (dvd_refl _) (Nat.pow_lt_pow_right (by decide) (by omega))
  rw [div, show (n : ℤ) * one f = ((n * 2 ^ f.scale : ℕ) : ℤ) by simp [one]]
  exact (congrArg Int.ofNat hround).trans (by simp [one])

/-- Small integers are not changed.

**Proof sketch.** A number below the precision is a multiple of the unit that needs no rounding
(`round_mul`). Case split on the sign, since a negative number is rounded as its absolute value. -/
lemma ofInt_eq {i : ℤ} (h : i.natAbs < 2 ^ f.precision) : ofInt f i = i * one f := by
  have hnat : ∀ m : ℕ, m < 2 ^ f.precision → ofInt f m = m * one f := by
    intro m hm
    have hround : round f (1 * (m * 2 ^ f.scale)) 1 = m * 2 ^ f.scale :=
      round_mul Nat.one_pos (Dvd.intro_left m rfl) (by
        rw [Nat.pow_add, Nat.mul_comm]
        exact Nat.mul_lt_mul_of_pos_left hm (Nat.two_pow_pos _))
    rw [Nat.one_mul] at hround
    rw [ofInt, show (m : ℤ) * one f = ((m * 2 ^ f.scale : ℕ) : ℤ) by simp [one]]
    exact congrArg Int.ofNat hround
  obtain ⟨m, rfl | rfl⟩ := Int.eq_nat_or_neg i
  · exact hnat m (by simpa using h)
  · rw [ofInt_neg, hnat m (by simpa using h), Int.neg_mul]

end Floats
