import Mathlib.Data.List.AList
import Mathlib.Data.List.Count
import Mathlib.Data.Set.Basic
import Mathlib.Tactic.Common
import Fecore.Data.Files

set_option relaxedAutoImplicit false
set_option autoImplicit false

/-!
# Parts of a tree of files

What lies in a directory, however deep, and the calls that change one path or remove a directory
with all that is in it.

## Main definitions

* `Files.Within` — what lies in a directory, with the directory itself.
* `Files.Tree.put`, `Files.Tree.mkdir`, `Files.Tree.copyFile`, `Files.Tree.removeAll` — the calls.
* `Files.Tree.AgreeOn` — two trees have the same at some paths.

## Main results

* `Files.disjoint_of_count_eq` — directories of the same depth have nothing in common.
* `Files.Tree.AgreeOn.put`, `Files.Tree.AgreeOn.mkdir`, `Files.Tree.AgreeOn.copyFile`,
  `Files.Tree.AgreeOn.removeAll` — a call does the same to trees that have the same where it looks.
-/

namespace Files

/-- The directory, and what lies in it. -/
def Within (dir p : List Char) : Prop := p = dir ∨ dir ++ ['/'] <+: p

/-- Whether a path lies in a directory is a comparison of texts. -/
instance (dir p : List Char) : Decidable (Within dir p) :=
  inferInstanceAs (Decidable (_ ∨ _))

section Within

variable {dir dir' p : List Char}

/-- A directory lies in itself. -/
lemma within_self (dir : List Char) : Within dir dir := .inl rfl

/-- What a path reaches from the directory lies in it. -/
lemma within_append (dir rel : List Char) : Within dir (dir ++ '/' :: rel) :=
  .inr ⟨rel, by simp⟩

/-- What lies in a directory is at least as deep, and is the directory if it is no deeper. -/
lemma Within.count_le (h : Within dir p) :
    p = dir ∨ dir.count '/' + 1 ≤ p.count '/' := by
  rcases h with h | ⟨rest, rfl⟩
  · exact .inl h
  · refine .inr ?_
    simp

/-- **Directories of the same depth have nothing in common.**

**Proof sketch.** Below a directory there is one more slash. Two directories that both contain a
path are prefixes of it, so one is a prefix of the other; of the same depth they are then the
same. -/
theorem disjoint_of_count_eq (hcount : dir.count '/' = dir'.count '/') (hne : dir ≠ dir')
    (h : Within dir p) : ¬ Within dir' p := by
  intro h'
  rcases h with rfl | hpre
  · rcases h'.count_le with heq | hlt
    · exact hne heq
    · omega
  · rcases h' with rfl | hpre'
    · have hlt := hpre.count_le '/'
      simp only [List.count_append, List.count_singleton_self] at hlt
      omega
    · rcases List.prefix_or_prefix_of_prefix hpre hpre' with hle | hle
      · rcases List.prefix_concat_iff.mp hle with heq | hshort
        · exact hne (List.append_cancel_right heq)
        · have hlt := hshort.count_le '/'
          simp only [List.count_append, List.count_singleton_self] at hlt
          omega
      · rcases List.prefix_concat_iff.mp hle with heq | hshort
        · exact hne (List.append_cancel_right heq).symm
        · have hlt := hshort.count_le '/'
          simp only [List.count_append, List.count_singleton_self] at hlt
          omega

end Within

/-- Paths that go on after a name without the separator. -/
lemma append_cons_inj {a : Char} : ∀ {xs xs' rest rest' : List Char}, a ∉ xs → a ∉ xs' →
    xs ++ a :: rest = xs' ++ a :: rest' → xs = xs' ∧ rest = rest'
  | [], [], _, _, _, _, h => by simpa using h
  | [], x :: xs', _, _, _, hxs', h => by
    rw [List.nil_append, List.cons_append, List.cons.injEq] at h
    exact absurd (h.1 ▸ List.mem_cons_self) hxs'
  | x :: xs, [], _, _, hxs, _, h => by
    rw [List.nil_append, List.cons_append, List.cons.injEq] at h
    exact absurd (h.1 ▸ List.mem_cons_self) hxs
  | x :: xs, x' :: xs', _, _, hxs, hxs', h => by
    rw [List.cons_append, List.cons_append, List.cons.injEq] at h
    obtain ⟨rfl, hrest⟩ := append_cons_inj (fun hx => hxs (List.mem_cons_of_mem _ hx))
      (fun hx => hxs' (List.mem_cons_of_mem _ hx)) h.2
    exact ⟨by rw [h.1], hrest⟩

/-- A clean path goes on with a name. -/
lemma clean_append {dir name : List Char} (hdir : Path.clean dir = dir)
    (hne : (Path.steps dir).down ≠ []) (hname : Path.ProperName name) :
    Path.clean (dir ++ '/' :: name) = dir ++ '/' :: name := by
  rw [← Path.join_name hdir hne hname]
  exact Path.clean_join _ (by simp [Path.ne_nil_of_clean hdir])

namespace Tree

/-- What is at a path is replaced, or removed. -/
def put (t : Tree) (p : List Char) (node : Option Node) : Tree :=
  match node with
  | some n => t.insert p n
  | none => t.erase p

/-- `os.Mkdir`; none is an error. -/
def mkdir (t : Tree) (p : List Char) : Option Tree :=
  if t.lookup p = none ∧ t.isDir (parent p) = true then some (t.put p (some .dir)) else none

/-- A file is copied to a path in a directory that is there; none is an error. -/
def copyFile (t : Tree) (src dst : List Char) : Option Tree :=
  match t.lookup src with
  | some (.file data) =>
    if t.lookup dst ≠ some .dir ∧ t.isDir (parent dst) = true then
      some (t.put dst (some (.file data)))
    else none
  | _ => none

/-- `os.RemoveAll` -/
def removeAll (t : Tree) (dir : List Char) : Tree :=
  (t.keys.filter fun p => Within dir p).foldl (fun t p => t.erase p) t

variable {t t' : Tree} {p : List Char}

/-- Setting the node of a path changes what is found at that path only. -/
@[simp] lemma lookup_put (t : Tree) (p : List Char) (node : Option Node) (k : List Char) :
    (t.put p node).lookup k = if k = p then node else t.lookup k := by
  cases node with
  | some n =>
    by_cases hk : k = p
    · subst hk
      rw [put, AList.lookup_insert, if_pos rfl]
    · rw [put, AList.lookup_insert_ne hk, if_neg hk]
  | none =>
    by_cases hk : k = p
    · subst hk
      rw [put, AList.lookup_erase, if_pos rfl]
    · rw [put, AList.lookup_erase_ne hk, if_neg hk]

/-- Some paths are removed. -/
lemma lookup_foldl_erase (ps : List (List Char)) (k : List Char) : ∀ t : Tree,
    (ps.foldl (fun t p => t.erase p) t).lookup k = if k ∈ ps then none else t.lookup k := by
  induction ps with
  | nil => intro t; simp
  | cons p ps ih =>
    intro t
    rw [List.foldl_cons, ih]
    by_cases hk : k = p
    · subst hk
      simp
    · simp [AList.lookup_erase_ne hk, hk]

/-- **What `os.RemoveAll` leaves.** -/
@[simp] theorem lookup_removeAll (t : Tree) (dir k : List Char) :
    (t.removeAll dir).lookup k = if Within dir k then none else t.lookup k := by
  rw [removeAll, lookup_foldl_erase]
  by_cases hk : Within dir k
  · rw [if_pos hk]
    by_cases hmem : k ∈ t.keys
    · rw [if_pos (List.mem_filter.mpr ⟨hmem, decide_eq_true hk⟩)]
    · rw [if_neg fun h => hmem (List.mem_filter.mp h).1]
      exact AList.lookup_eq_none.mpr hmem
  · have hnot : k ∉ t.keys.filter fun p => Within dir p := fun h =>
      hk (by simpa using (List.mem_filter.mp h).2)
    rw [if_neg hk, if_neg hnot]

/-- A directory that has been made. -/
lemma eq_put_of_mkdir (h : t.mkdir p = some t') :
    t.lookup p = none ∧ t' = t.put p (some .dir) := by
  unfold mkdir at h
  split at h
  · next hp => exact ⟨hp.1, (Option.some.inj h).symm⟩
  · cases h

/-- A file that has been copied. -/
lemma eq_put_of_copyFile {src dst : List Char} (h : t.copyFile src dst = some t') :
    ∃ data, t.lookup src = some (.file data) ∧ t' = t.put dst (some (.file data)) := by
  unfold copyFile at h
  split at h
  · next data hsrc =>
    split at h
    · exact ⟨data, hsrc, (Option.some.inj h).symm⟩
    · cases h
  · cases h

/-! ### Trees that agree -/

/-- Two trees have the same at some paths. -/
def AgreeOn (S : Set (List Char)) (t t' : Tree) : Prop := ∀ p ∈ S, t.lookup p = t'.lookup p

namespace AgreeOn

variable {S : Set (List Char)} {t₁ t₁' : Tree}

/-- Setting a node does the same to both trees. -/
lemma put (h : AgreeOn S t t₁) (p : List Char) (node : Option Node) :
    AgreeOn S (t.put p node) (t₁.put p node) := by
  intro k hk
  rw [lookup_put, lookup_put, h k hk]

/-- Removing a directory with all in it does the same to both trees. -/
lemma removeAll (h : AgreeOn S t t₁) (dir : List Char) :
    AgreeOn S (t.removeAll dir) (t₁.removeAll dir) := by
  intro k hk
  rw [lookup_removeAll, lookup_removeAll, h k hk]

/-- A path among those is a directory in both trees or in none. -/
lemma isDir_eq (h : AgreeOn S t t₁) (hp : p ∈ S) : t.isDir p = t₁.isDir p := by
  rw [isDir, isDir, h p hp]

/-- A directory is made in both or in none. -/
lemma mkdir (h : AgreeOn S t t₁) (hp : p ∈ S) (hparent : parent p ∈ S) :
    (t.mkdir p = none ∧ t₁.mkdir p = none) ∨
      ∃ t' t₁', t.mkdir p = some t' ∧ t₁.mkdir p = some t₁' ∧ AgreeOn S t' t₁' := by
  unfold Tree.mkdir
  rw [h p hp, h.isDir_eq hparent]
  by_cases hok : t₁.lookup p = none ∧ t₁.isDir (parent p) = true
  · rw [if_pos hok, if_pos hok]
    exact .inr ⟨_, _, rfl, rfl, h.put p _⟩
  · rw [if_neg hok, if_neg hok]
    exact .inl ⟨rfl, rfl⟩

/-- A file is copied in both or in none.

**Proof sketch.** Both trees have the same at the source, at the destination and at its directory,
so that the same branch is taken; the same file is put into both. -/
lemma copyFile {src dst : List Char} (h : AgreeOn S t t₁) (hsrc : src ∈ S) (hdst : dst ∈ S)
    (hparent : parent dst ∈ S) :
    (t.copyFile src dst = none ∧ t₁.copyFile src dst = none) ∨
      ∃ t' t₁', t.copyFile src dst = some t' ∧ t₁.copyFile src dst = some t₁' ∧
        AgreeOn S t' t₁' := by
  unfold Tree.copyFile
  rw [h src hsrc, h dst hdst, h.isDir_eq hparent]
  cases t₁.lookup src with
  | none => exact .inl ⟨rfl, rfl⟩
  | some node =>
    cases node with
    | dir => exact .inl ⟨rfl, rfl⟩
    | file data =>
      dsimp only
      by_cases hok : t₁.lookup dst ≠ some .dir ∧ t₁.isDir (parent dst) = true
      · rw [if_pos hok, if_pos hok]
        exact .inr ⟨_, _, rfl, rfl, h.put dst _⟩
      · rw [if_neg hok, if_neg hok]
        exact .inl ⟨rfl, rfl⟩

end AgreeOn

end Tree

end Files
