import Mathlib.Data.List.AList
import Mathlib.Data.List.Induction

set_option relaxedAutoImplicit false
set_option autoImplicit false

/-!
# Counting the entries of an association list

How many entries of an `AList` satisfy a predicate, and how that number moves when an entry is
inserted or erased.

## Main results

* `AList.lookup_of_lookup_erase` — erasing adds no entries.
* `AList.count_erase_of_lookup` — erasing an entry that is there takes it out of the count.
* `AList.count_insert` — inserting adds the new entry to what is left without the old one.
* `AList.lookup_foldl_insert` — of the pairs that are inserted one after the other the last one
  counts.
-/

namespace AList

variable {α : Type*} {β : α → Type*}

/-- The number of entries that satisfy `p`. -/
def count (p : Sigma β → Bool) (s : AList β) : ℕ := s.entries.countP p

/-- No entry of the empty map satisfies anything. -/
@[simp] lemma count_empty (p : Sigma β → Bool) : (∅ : AList β).count p = 0 := rfl

variable [DecidableEq α] {p : Sigma β → Bool} {s : AList β} {a : α} {b : β a}

/-- The entry of a key is counted once, beside those that are left without it. -/
lemma countP_kerase_of_dlookup {l : List (Sigma β)} (h : l.dlookup a = some b) :
    l.countP p = (l.kerase a).countP p + (if p ⟨a, b⟩ then 1 else 0) := by
  induction l with
  | nil => simp at h
  | cons c l ih =>
    by_cases hc : a = c.1
    · obtain ⟨c, d⟩ := c
      obtain rfl : a = c := hc
      obtain rfl : d = b := by simpa using h
      have herase : List.kerase a (⟨a, d⟩ :: l) = l := List.kerase_cons_eq rfl
      rw [herase, List.countP_cons]
    · rw [List.dlookup_cons_ne _ _ hc] at h
      rw [List.kerase_cons_ne hc, List.countP_cons, List.countP_cons, ih h]
      omega

/-- Erasing never adds to the count. -/
lemma count_erase_le : (s.erase a).count p ≤ s.count p :=
  (List.kerase_sublist a s.entries).countP_le

/-- Erasing an entry that is there takes it out of the count. -/
lemma count_erase_of_lookup (h : s.lookup a = some b) :
    s.count p = (s.erase a).count p + (if p ⟨a, b⟩ then 1 else 0) :=
  countP_kerase_of_dlookup h

/-- Erasing a key that is absent changes nothing. -/
lemma erase_of_lookup_eq_none (h : s.lookup a = none) : s.erase a = s := by
  apply AList.ext
  exact List.kerase_of_notMem_keys (List.dlookup_eq_none.mp h)

/-- What is found once a key is erased was there before. -/
lemma lookup_of_lookup_erase {c : α} {d : β c} (h : (s.erase a).lookup c = some d) :
    s.lookup c = some d := by
  by_cases hc : c = a
  · subst hc
    rw [lookup_erase] at h
    cases h
  · rwa [lookup_erase_ne hc] at h

/-- Inserting adds the new entry to what is left without the old one. -/
lemma count_insert :
    (s.insert a b).count p = (s.erase a).count p + (if p ⟨a, b⟩ then 1 else 0) := by
  rw [count, entries_insert, List.countP_cons]
  rfl

/-- Inserting adds at most the new entry to the count. -/
lemma count_insert_le : (s.insert a b).count p ≤ s.count p + (if p ⟨a, b⟩ then 1 else 0) := by
  rw [count_insert]
  exact Nat.add_le_add_right count_erase_le _

/-- An entry that satisfies `p` is counted. -/
lemma count_pos_of_lookup (h : s.lookup a = some b) (hp : p ⟨a, b⟩ = true) : 0 < s.count p := by
  rw [count_erase_of_lookup h, if_pos hp]
  omega

/-! ### Many pairs -/

/-- **The last pair of a key counts** when pairs are inserted one after the other. -/
lemma lookup_foldl_insert [BEq α] [LawfulBEq α] {V : Type*} (l : List (α × V))
    (m : AList fun _ : α => V) (k : α) :
    (l.foldl (fun m r => m.insert r.1 r.2) m).lookup k = (l.reverse.lookup k).or (m.lookup k) := by
  induction l generalizing m with
  | nil => rfl
  | cons r l ih =>
    obtain ⟨k', v⟩ := r
    rw [List.foldl_cons, ih, List.reverse_cons, List.lookup_append, Option.or_assoc]
    congr 1
    by_cases hk : k = k'
    · subst hk
      simp
    · simp [List.lookup_cons, lookup_insert_ne hk, beq_false_of_ne hk]

/-- Each pair counts when the keys are different.

**Proof sketch.** Induct on the list from its end. The last pair counts for its key, which no pair
before it has; for other keys it does not matter. -/
lemma lookup_foldl_insert_eq_some_iff {V : Type*} {l : List (α × V)}
    (h : (l.map Prod.fst).Nodup) (k : α) (v : V) :
    (l.foldl (fun m r => m.insert r.1 r.2) (∅ : AList fun _ : α => V)).lookup k = some v ↔
      (k, v) ∈ l := by
  induction l using List.reverseRecOn with
  | nil => simp
  | append_singleton l r ih =>
    obtain ⟨k', v'⟩ := r
    rw [List.map_append, List.nodup_append] at h
    rw [List.foldl_append, List.foldl_cons, List.foldl_nil]
    by_cases hk : k = k'
    · subst hk
      have hnew : (k, v) ∉ l := fun hold =>
        h.2.2 k (List.mem_map_of_mem hold) k (by simp) rfl
      simp [hnew, eq_comm]
    · rw [lookup_insert_ne hk, ih h.1]
      simp [hk]

end AList
