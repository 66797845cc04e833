import Mathlib.Data.Int.Notation
import Mathlib.Tactic.Common

set_option relaxedAutoImplicit false
set_option autoImplicit false

/-!
# Decimal numbers

Words that are decimal numbers, with a sign or without one, and the integers that they stand for.

## Main definitions

* `Decimal.Digits`, `Decimal.Numeral` — the word is made of digits; it is a number.

## Main results

* `Decimal.numeral_plus_iff`, `Decimal.numeral_minus_iff`, `Decimal.numeral_iff_of_ne_cons` —
  numbers with and without a sign.
* `Decimal.Numeral.unique` — a word stands for one number.
* `Decimal.numeral_toString` — what is written for a number stands for it.
-/

namespace Decimal

/-- The word is made of digits, and not empty. -/
structure Digits (s : List Char) : Prop where
  ne_nil : s ≠ []
  isDigit : ∀ c ∈ s, c.isDigit = true

/-- The word stands for a number. -/
inductive Numeral : List Char → ℤ → Prop
  | plain {s : List Char} (h : Digits s) : Numeral s (Nat.ofDigitChars 10 s 0)
  | plus {s : List Char} (h : Digits s) : Numeral ('+' :: s) (Nat.ofDigitChars 10 s 0)
  | minus {s : List Char} (h : Digits s) : Numeral ('-' :: s) (-(Nat.ofDigitChars 10 s 0 : ℕ))

/-- Digits contain nothing that is not a digit. -/
lemma Digits.notMem {s : List Char} (h : Digits s) {c : Char} (hc : c.isDigit = false) :
    c ∉ s := by
  intro hmem
  rw [h.isDigit c hmem] at hc
  cases hc

/-- A sign is no digit. -/
lemma Digits.ne_cons {s t : List Char} (h : Digits s) {c : Char} (hc : c.isDigit = false) :
    s ≠ c :: t := by
  rintro rfl
  exact h.notMem hc List.mem_cons_self

/-- A number with a plus. -/
lemma numeral_plus_iff {s : List Char} {n : ℤ} :
    Numeral ('+' :: s) n ↔ Digits s ∧ n = (Nat.ofDigitChars 10 s 0 : ℕ) := by
  constructor
  · intro hn
    cases hn with
    | plain h => exact absurd rfl (h.ne_cons (by decide))
    | plus h => exact ⟨h, rfl⟩
  · rintro ⟨h, rfl⟩
    exact .plus h

/-- A number with a minus. -/
lemma numeral_minus_iff {s : List Char} {n : ℤ} :
    Numeral ('-' :: s) n ↔ Digits s ∧ n = -(Nat.ofDigitChars 10 s 0 : ℕ) := by
  constructor
  · intro hn
    cases hn with
    | plain h => exact absurd rfl (h.ne_cons (by decide))
    | minus h => exact ⟨h, rfl⟩
  · rintro ⟨h, rfl⟩
    exact .minus h

/-- A number without a sign. -/
lemma numeral_iff_of_ne_cons {s : List Char} {n : ℤ} (hplus : ∀ t, s ≠ '+' :: t)
    (hminus : ∀ t, s ≠ '-' :: t) :
    Numeral s n ↔ Digits s ∧ n = (Nat.ofDigitChars 10 s 0 : ℕ) := by
  constructor
  · intro hn
    cases hn with
    | plain h => exact ⟨h, rfl⟩
    | plus h => exact absurd rfl (hplus _)
    | minus h => exact absurd rfl (hminus _)
  · rintro ⟨h, rfl⟩
    exact .plain h

/-- **A word stands for one number.** -/
theorem Numeral.unique {s : List Char} {m n : ℤ} (hm : Numeral s m) (hn : Numeral s n) :
    m = n := by
  cases hm with
  | plain h =>
    have hplus : ∀ t, s ≠ '+' :: t := fun t => h.ne_cons (by decide)
    have hminus : ∀ t, s ≠ '-' :: t := fun t => h.ne_cons (by decide)
    exact ((numeral_iff_of_ne_cons hplus hminus).mp hn).2.symm
  | plus h => exact (numeral_plus_iff.mp hn).2.symm
  | minus h => exact (numeral_minus_iff.mp hn).2.symm

/-- A number is written with digits. -/
lemma digits_toString (n : ℕ) : Digits (toString n).toList := by
  have hdigits : (toString n).toList = Nat.toDigits 10 n := Nat.toList_repr
  rw [hdigits]
  exact ⟨Nat.toDigits_ne_nil, fun c hc => Nat.isDigit_of_mem_toDigits (by decide) (by decide) hc⟩

/-- **What is written for a number** stands for it. -/
theorem numeral_toString (n : ℕ) : Numeral (toString n).toList n := by
  have hdigits : (toString n).toList = Nat.toDigits 10 n := Nat.toList_repr
  have hvalue : Nat.ofDigitChars 10 (toString n).toList 0 = n := by
    rw [hdigits, Nat.ofDigitChars_ten_toDigits]
  have h := Numeral.plain (digits_toString n)
  rwa [hvalue] at h

end Decimal
