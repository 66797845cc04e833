import Mathlib.Algebra.Ring.Int.Defs
import Mathlib.Data.List.Sort
import Mathlib.Order.Defs.LinearOrder
import Mathlib.Tactic.Common

set_option relaxedAutoImplicit false
set_option autoImplicit false

/-!
# Samples in blocks and in rings

A stream of samples, the newest first, that is looked at in consecutive blocks or kept in a ring
buffer: the block under way, the slots of the ring, and order statistics of a block.

## Main definitions

* `Samples.block` — the samples of the block under way.
* `Samples.truncMean` — the mean of some integers, truncated towards zero.
* `Samples.InRing` — a vector that is written round and round holds the latest samples.
* `Samples.IsKthSmallest` — the `k`-th smallest of some values.

## Main results

* `Samples.block_cons` — the block under way after a sample.
* `Samples.InRing.set` — the next sample goes to the next slot.
* `Samples.inRing_reverse_iff` — the ring of a stream in its order.
* `Samples.isKthSmallest_cons_iff` — an order statistic of a sorted list and one more value.
* `Samples.mergeSort_eq_iff` — sorting leaves all but the last value in place only where they are
  sorted.
-/

namespace Samples

variable {α : Type*} {N : ℕ}

/-! ### Blocks -/

/-- The samples of the block under way, where each block has `N` of them. -/
def block (N : ℕ) (seen : List α) : List α := seen.take ((seen.length - 1) % N + 1)

/-- A sample begins a block or goes on with the one under way. -/
theorem block_cons (a : α) (seen : List α) :
    block N (a :: seen) = if seen.length % N = 0 then [a] else a :: block N seen := by
  simp only [block, List.length_cons, Nat.add_sub_cancel, List.take_succ_cons]
  split
  · next h => rw [h, List.take_zero]
  · next h =>
    have hlen : (seen.length - 1) % N + 1 = seen.length % N := by
      rcases Nat.eq_zero_or_pos N with rfl | hN
      · simp only [Nat.mod_zero] at h ⊢
        omega
      · have hmod : seen.length % N < N := Nat.mod_lt _ hN
        have hdiv := Nat.div_add_mod seen.length N
        have hsub : seen.length - 1 = (seen.length % N - 1) + N * (seen.length / N) := by omega
        rw [hsub, Nat.add_mul_mod_self_left, Nat.mod_eq_of_lt (by omega)]
        omega
    rw [hlen]

/-- A block has as many samples as were taken since the last one was full. -/
lemma length_block_cons (a : α) (seen : List α) :
    (block N (a :: seen)).length = seen.length % N + 1 := by
  have hle : seen.length % N ≤ seen.length := Nat.mod_le _ _
  simp only [block, List.length_cons, Nat.add_sub_cancel, List.length_take]
  omega

/-- The mean of some integers, truncated towards zero. -/
def truncMean (xs : List ℤ) : ℤ := xs.sum.tdiv xs.length

/-! ### Rings -/

/-- The vector holds the latest samples, each in the slot whose turn it was. -/
def InRing (v : Vector α N) (seen : List α) : Prop :=
  ∀ i, i < N → i < seen.length → v[(seen.length - 1 - i) % N]? = seen[i]?

/-- Before the first sample nothing is asked of the vector. -/
lemma inRing_nil (v : Vector α N) : InRing v [] := fun _ _ h => absurd h (Nat.not_lt_zero _)

/-- **The next sample goes to the next slot**, and takes the place of the one `N` before.

**Proof sketch.** The new sample is at its slot. An older one that is still held is less than `N`
back, so its slot is another one and is not touched. -/
theorem InRing.set {v : Vector α N} {seen : List α} (h : InRing v seen) (a : α) {p : ℕ}
    (hp : p < N) (hpos : p = seen.length % N) : InRing (v.set p a) (a :: seen) := by
  subst hpos
  intro i hN hi
  cases i with
  | zero => simp
  | succ i =>
    have hlt : i < seen.length := by simpa using hi
    have hne : seen.length % N ≠ (seen.length - 1 - i) % N := by
      intro heq
      have h₁ := Nat.div_add_mod seen.length N
      have h₂ := Nat.div_add_mod (seen.length - 1 - i) N
      -- the two lengths would differ by a multiple of `N`, and they differ by less
      have hdiff : N * (seen.length / N) = N * ((seen.length - 1 - i) / N) + (i + 1) := by omega
      have hdvd : N ∣ i + 1 :=
        (Nat.dvd_add_right (Nat.dvd_mul_right N _)).mp (hdiff ▸ Nat.dvd_mul_right N _)
      exact absurd (Nat.le_of_dvd (Nat.succ_pos i) hdvd) (by omega)
    have hidx : (a :: seen).length - 1 - (i + 1) = seen.length - 1 - i := by
      simp only [List.length_cons]
      omega
    rw [hidx, Vector.getElem?_set_ne hp hne, List.getElem?_cons_succ]
    exact h i (by omega) hlt

/-- **The ring of a stream in its order**: its latest samples stand at their positions in the
stream, taken round the ring. -/
theorem inRing_reverse_iff {v : Vector α N} {xs : List α} :
    InRing v xs.reverse ↔ ∀ i, i < xs.length → xs.length ≤ i + N → v[i % N]? = xs[i]? := by
  rw [InRing, List.length_reverse]
  constructor
  · intro h i hi hlast
    have hslot := h (xs.length - 1 - i) (by omega) (by omega)
    rw [List.getElem?_reverse (by omega)] at hslot
    have hback : xs.length - 1 - (xs.length - 1 - i) = i := by omega
    rwa [hback] at hslot
  · intro h i hN hi
    rw [List.getElem?_reverse hi]
    exact h _ (by omega) (by omega)

/-! ### Order statistics -/

variable [LinearOrder α] {a b t : α} {l : List α}

/-- The value is the `k`-th smallest of the list, counted from one. -/
def IsKthSmallest (k : ℕ) (a : α) (l : List α) : Prop :=
  l.countP (· < a) < k ∧ k ≤ l.countP (· ≤ a)

/-- The order of the values does not matter. -/
lemma isKthSmallest_congr {k : ℕ} {l' : List α} (h : l.Perm l') :
    IsKthSmallest k a l ↔ IsKthSmallest k a l' := by
  rw [IsKthSmallest, IsKthSmallest, h.countP_eq, h.countP_eq]

/-- A value of a sorted list keeps its rank when one more value comes in, unless that value is
smaller and the one before it is too.

**Proof sketch.** Count what is less than the value and what is not greater. In the sorted list the
values behind are not less, and those in front are not greater; the new value and the one before
decide the rest. -/
lemma isKthSmallest_append_iff {ys zs : List α} (h : (ys ++ b :: a :: zs).Pairwise (· ≤ ·)) :
    IsKthSmallest (ys.length + 2) a (t :: (ys ++ b :: a :: zs)) ↔ a ≤ t ∨ b = a := by
  obtain ⟨-, htail, hys⟩ := List.pairwise_append.mp h
  obtain ⟨hb, htail⟩ := List.pairwise_cons.mp htail
  obtain ⟨ha, -⟩ := List.pairwise_cons.mp htail
  have hba : b ≤ a := hb a (by simp)
  have hzs : zs.countP (· < a) = 0 := by
    rw [List.countP_eq_zero]
    intro z hz
    simpa using ha z hz
  have hle : ys.countP (· ≤ a) = ys.length := by
    rw [List.countP_eq_length]
    intro y hy
    simpa using hys y hy a (by simp)
  have hlt : ys.countP (· < a) ≤ ys.length := List.countP_le_length
  have hlt' : b < a → ys.countP (· < a) = ys.length := by
    intro hba
    rw [List.countP_eq_length]
    intro y hy
    simpa using lt_of_le_of_lt (hys y hy b (by simp)) hba
  simp only [IsKthSmallest, List.countP_cons, List.countP_append, hzs, hle]
  rcases lt_or_eq_of_le hba with hlt_ba | heq
  · have hfull := hlt' hlt_ba
    by_cases hta : t < a
    · simp [hta, hlt_ba, hlt_ba.ne, hba, hfull, not_le.mpr hta]
    · simp [hta, hlt_ba, hba, hfull, not_lt.mp hta]
      omega
  · subst heq
    by_cases hta : t < b
    · simp [hta]
      omega
    · simp [hta, not_lt.mp hta]
      omega

/-- **An order statistic of a sorted list and one more value.** -/
theorem isKthSmallest_cons_iff (h : l.Pairwise (· ≤ ·)) {i : ℕ} (hb : l[i]? = some b)
    (ha : l[i + 1]? = some a) : IsKthSmallest (i + 2) a (t :: l) ↔ a ≤ t ∨ b = a := by
  obtain ⟨hi, rfl⟩ := List.getElem?_eq_some_iff.mp hb
  obtain ⟨hi', rfl⟩ := List.getElem?_eq_some_iff.mp ha
  have hsplit : l = l.take i ++ l[i] :: l[i + 1] :: l.drop (i + 2) := by
    rw [List.getElem_cons_drop, List.getElem_cons_drop, List.take_append_drop]
  have hlen : (l.take i).length = i := List.length_take_of_le hi.le
  have hiff := isKthSmallest_append_iff (t := t) (hsplit ▸ h)
  rwa [hlen, ← hsplit] at hiff

/-- **Sorting leaves all but the last value in place only where they are sorted.**

**Proof sketch.** If all but the last value are in place, then the last value of the sorted list is
the one that is left, since the lists are permutations of each other. Conversely a sorted list is
its own sorting. -/
theorem mergeSort_eq_iff (xs : List α) (x : α) :
    (∀ i < xs.length, ((xs ++ [x]).mergeSort fun a b => decide (a ≤ b))[i]? = xs[i]?) ↔
      (xs ++ [x]).Pairwise (· ≤ ·) := by
  have hperm := List.mergeSort_perm (xs ++ [x]) fun a b => decide (a ≤ b)
  have hsorted : ((xs ++ [x]).mergeSort fun a b => decide (a ≤ b)).Pairwise (· ≤ ·) :=
    List.pairwise_mergeSort' (· ≤ ·) (xs ++ [x])
  generalize ((xs ++ [x]).mergeSort fun a b => decide (a ≤ b)) = sorted at hperm hsorted ⊢
  constructor
  · intro h
    have hlen : sorted.length = xs.length + 1 := by simpa using hperm.length_eq
    obtain ⟨init, y, hcat⟩ := (List.eq_nil_or_concat sorted).resolve_left (by
      rintro rfl
      simp at hlen)
    rw [List.concat_eq_append] at hcat
    subst hcat
    have hinit : init.length = xs.length := by simpa using hlen
    have heq : init = xs := by
      refine List.ext_getElem? fun i => ?_
      by_cases hi : i < xs.length
      · rw [← h i hi, List.getElem?_append_left (by omega)]
      · rw [List.getElem?_eq_none (by omega), List.getElem?_eq_none (by omega)]
    subst heq
    have hxy : [y].Perm [x] := (List.perm_append_left_iff init).mp hperm
    obtain rfl : y = x := by simpa using hxy
    exact hsorted
  · intro h i hi
    rw [hperm.eq_of_pairwise (fun _ _ _ _ => le_antisymm) hsorted h,
      List.getElem?_append_left hi]

end Samples
