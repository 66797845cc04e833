import Mathlib.Data.List.Basic
import Mathlib.Data.List.Infix

set_option relaxedAutoImplicit false
set_option autoImplicit false

/-!
# Separators and pairs in words

A word that is put together from pieces around a separator: how often the separator occurs in it,
what splitting at the separator gives back, and where a pair of letters can occur. A separator may
also be a word of its own.

## Main definitions

* `List.splitOnWord` — the pieces of a word around a separator that is a word.

## Main results

* `List.length_splitOn`, `List.notMem_of_mem_splitOn` — how many pieces there are, and none of them
  has the separator.
* `List.splitOn_eq_pair_iff` — the words in two pieces.
* `List.splitOn_append_cons_append` — three pieces without the separator are given back.
* `List.append_cons_inj` — what is before the first separator, and what is after it.
* `List.pair_infix_append` — where a pair of letters occurs in a concatenation.
* `List.splitOnWord_of_not_infix`, `List.splitOnWord_append` — a word without the separator is one
  piece, and a separator at the beginning is cut off.
-/

namespace List

variable {α : Type*} [BEq α] [LawfulBEq α] {a b : α} {l t : List α}

omit [LawfulBEq α] in
/-- There is one piece more than there are separators. -/
lemma length_splitOn (a : α) (l : List α) : (l.splitOn a).length = l.count a + 1 := by
  induction l with
  | nil => rfl
  | cons x l ih =>
    rw [splitOn_cons_eq_if_modifyHead, count_cons]
    split
    · rw [length_cons, ih]
    · rw [length_modifyHead, ih]

/-- No piece has the separator.

**Proof sketch.** Induct on the word. At a separator an empty piece is put in front; any other
letter is put in front of the first piece, and is not the separator. -/
lemma notMem_of_mem_splitOn {p : List α} (hp : p ∈ l.splitOn a) : a ∉ p := by
  induction l generalizing p with
  | nil =>
    obtain rfl : p = [] := by simpa using hp
    exact not_mem_nil
  | cons x l ih =>
    rw [splitOn_cons_eq_if_modifyHead] at hp
    split at hp
    · rcases mem_cons.mp hp with rfl | hp
      · exact not_mem_nil
      · exact ih hp
    · next hx =>
      obtain ⟨q, qs, hq⟩ := exists_cons_of_ne_nil (splitOn_ne_nil a l)
      rw [hq, modifyHead_cons] at hp
      rcases mem_cons.mp hp with rfl | hp
      · have hqa : a ∉ q := ih (by rw [hq]; exact mem_cons_self)
        rintro (_ | ⟨_, ha⟩)
        · exact hx BEq.rfl
        · exact hqa ha
      · exact ih (by rw [hq]; exact mem_cons_of_mem _ hp)

/-- A word is in two pieces when it has the separator once. -/
lemma splitOn_eq_pair_iff {x y : List α} :
    l.splitOn a = [x, y] ↔ l = x ++ a :: y ∧ a ∉ x ∧ a ∉ y := by
  constructor
  · intro hsplit
    have hjoin : [a].intercalate (l.splitOn a) = l := intercalate_splitOn a
    refine ⟨?_, notMem_of_mem_splitOn (l := l) ?_, notMem_of_mem_splitOn (l := l) ?_⟩
    · rw [← hjoin, hsplit]
      simp [intercalate]
    · rw [hsplit]
      exact mem_cons_self
    · rw [hsplit]
      exact mem_cons_of_mem _ mem_cons_self
  · rintro ⟨rfl, hx, hy⟩
    rw [splitOn_append_cons_self_of_not_mem hx, splitOn_eq_singleton hy]

/-- Three pieces without the separator are given back. -/
lemma splitOn_append_cons_append {x y z : List α} (hx : a ∉ x) (hy : a ∉ y) (hz : a ∉ z) :
    (x ++ a :: (y ++ a :: z)).splitOn a = [x, y, z] := by
  rw [splitOn_append_cons_self_of_not_mem hx, splitOn_append_cons_self_of_not_mem hy,
    splitOn_eq_singleton hz]

omit [BEq α] [LawfulBEq α] in
/-- A word determines what is before its first separator, and what is after it. -/
lemma append_cons_inj {x y s t : List α} (hx : a ∉ x) (hy : a ∉ y) :
    x ++ a :: s = y ++ a :: t ↔ x = y ∧ s = t := by
  induction x generalizing y with
  | nil =>
    cases y with
    | nil => simp
    | cons c y => simp [ne_of_not_mem_cons hy]
  | cons b x ih =>
    cases y with
    | nil => simp [(ne_of_not_mem_cons hx).symm]
    | cons c y =>
      rw [cons_append, cons_append, cons.injEq, cons.injEq,
        ih (not_mem_of_not_mem_cons hx) (not_mem_of_not_mem_cons hy), and_assoc]

omit [BEq α] [LawfulBEq α] in
/-- A pair of letters occurs in a concatenation when it occurs in one of the two parts, unless the
second part begins with the second letter.

**Proof sketch.** Induct on the first part. A pair that begins with its last letter would end with
the first letter of the second part. -/
lemma pair_infix_append (ht : t.head? ≠ some b) :
    [a, b] <:+: l ++ t ↔ [a, b] <:+: l ∨ [a, b] <:+: t := by
  induction l with
  | nil => simp
  | cons x l ih =>
    rw [cons_append, infix_cons_iff, infix_cons_iff, ih, or_assoc]
    refine or_congr_left ?_
    rw [cons_prefix_cons, cons_prefix_cons]
    refine and_congr_right fun _ => ?_
    cases l with
    | nil =>
      cases t with
      | nil => rfl
      | cons y t =>
        have hne : ¬ b = y := fun heq => ht (by rw [heq]; rfl)
        simp [hne]
    | cons y l => rw [cons_append, cons_prefix_cons, cons_prefix_cons]; simp

/-! ### Separators that are words -/

/-- The pieces of a word around a separator that is a word, which is looked for from the left. The
empty separator stands between any two letters. -/
def splitOnWord (sep l : List α) : List (List α) :=
  if _hsep : sep = [] then l.map fun a => [a]
  else
    match _h : l.dropInfix? sep with
    | none => [l]
    | some (p, rest) => p :: splitOnWord sep rest
termination_by l.length
decreasing_by
  obtain ⟨⟨i, rfl, hi⟩, -⟩ := dropInfix?_eq_some_iff.mp _h
  have hne : i ≠ [] := by
    rintro rfl
    cases sep with
    | nil => exact _hsep rfl
    | cons a sep => cases hi
  have hpos := length_pos_iff.mpr hne
  simp only [length_append]
  omega

/-- A word without the separator is one piece. -/
lemma splitOnWord_of_not_infix {sep : List α} (h : ¬ sep <:+: l) : splitOnWord sep l = [l] := by
  have hsep : sep ≠ [] := fun hnil => h (hnil ▸ nil_infix)
  have hdrop : l.dropInfix? sep = none := by
    rw [Option.eq_none_iff_forall_ne_some]
    rintro ⟨p, rest⟩ hsome
    obtain ⟨⟨i, hl, hi⟩, -⟩ := dropInfix?_eq_some_iff.mp hsome
    exact h ⟨p, rest, by rw [hl, eq_of_beq hi]⟩
  rw [splitOnWord, dif_neg hsep]
  split
  · rfl
  · next hsome =>
    rw [hdrop] at hsome
    cases hsome

/-- A separator at the beginning is cut off. -/
lemma splitOnWord_append {sep : List α} (hsep : sep ≠ []) (l : List α) :
    splitOnWord sep (sep ++ l) = [] :: splitOnWord sep l := by
  have hdrop : (sep ++ l).dropInfix? sep = some ([], l) :=
    dropInfix?_eq_some_iff.mpr ⟨⟨sep, rfl, BEq.rfl⟩, fun _ _ _ _ _ => Nat.zero_le _⟩
  rw [splitOnWord, dif_neg hsep]
  split
  · next hnone =>
    rw [hdrop] at hnone
    cases hnone
  · next p rest hsome =>
    rw [hdrop] at hsome
    cases hsome
    rfl

end List
