import Mathlib.Data.List.Induction
import Mathlib.Logic.Relation
import Mathlib.Tactic.Common
import Fecore.Data.Words

set_option relaxedAutoImplicit false
set_option autoImplicit false

/-!
# Slash-separated paths

The functions `Clean` and `Join` of Go's package `path`. A path says how many directories to climb
from where it begins and which names to descend through then; cleaning writes this down, and joining
two paths follows the one after the other.

## Main definitions

* `Path.Steps`, `Path.steps` — the way of a path, and `Steps.comp` for one way after another.
* `Path.clean`, `Path.join` — Go's functions.
* `Path.DirectChild` — a directory and something right below it.
* `Path.LeadsBelow` — the relative paths that lead from a directory right below it.
* `Path.Under`, `Path.StaysBelow` — a directory and what lies under it, at any depth; the relative
  paths that lead from a directory to something under it.

## Main results

* `Path.steps_append_cons` — the way of a concatenation.
* `Path.steps_render`, `Path.clean_join` — cleaning changes nothing twice.
* `Path.directChild_join_iff` — what is joined to a directory is a direct child of it exactly when
  it leads right below it.
* `Path.under_join_iff`, `Path.under_append_iff` — what is joined or appended to a directory lies
  under it exactly when it stays below it.
-/

namespace Path

/-- The way of a path: how many directories it climbs, and then the names it descends through, the
last one first. -/
structure Steps where
  up : ℕ := 0
  down : List (List Char) := []
deriving DecidableEq

namespace Steps

/-- A component after the way so far: `..` takes back a name or climbs. -/
def step (s : Steps) (c : List Char) : Steps :=
  if c = [] ∨ c = ['.'] then s
  else if c = ['.', '.'] then
    match s.down with
    | [] => { s with up := s.up + 1 }
    | _ :: rest => { s with down := rest }
  else { s with down := c :: s.down }

/-- One way after the other. -/
def comp (s t : Steps) : Steps :=
  ⟨s.up + (t.up - s.down.length), t.down ++ s.down.drop t.up⟩

/-- To go nowhere after a way is that way. -/
@[simp] lemma comp_empty (s : Steps) : s.comp {} = s := by simp [comp]

/-- A way after going nowhere is that way. -/
@[simp] lemma empty_comp (t : Steps) : comp {} t = t := by simp [comp]

end Steps

/-- The way of a path. -/
def steps (p : List Char) : Steps := (p.splitOn '/').foldl Steps.step {}

/-- The path begins at the root. -/
def rooted (p : List Char) : Bool := p.head? = some '/'

/-- A way as a path: at the root there is nothing to climb. -/
def render (root : Bool) (s : Steps) : List Char :=
  if root then '/' :: ['/'].intercalate s.down.reverse
  else if s.up = 0 ∧ s.down = [] then ['.']
  else ['/'].intercalate (List.replicate s.up ['.', '.'] ++ s.down.reverse)

/-- `path.Clean`. -/
def clean (p : List Char) : List Char := render (rooted p) (steps p)

/-- `path.Join`. -/
def join (elem : List (List Char)) : List Char :=
  let elem := elem.filter (· ≠ [])
  if elem = [] then [] else clean (['/'].intercalate elem)

/-- A name of a file or directory. -/
structure ProperName (name : List Char) : Prop where
  ne_nil : name ≠ []
  ne_dot : name ≠ ['.']
  ne_dotdot : name ≠ ['.', '.']
  noSlash : '/' ∉ name

/-- The path is that of the directory with one name more. -/
def DirectChild (dir path : List Char) : Prop :=
  ∃ name, ProperName name ∧ path = dir ++ '/' :: name

/-- The relative path leads from the directory right below it: it comes back down through the
directories that it climbs from, and descends to one more name. -/
def LeadsBelow (dir rel : List Char) : Prop :=
  (rooted dir = true ∨ (steps rel).up ≤ (steps dir).down.length) ∧
    (steps rel).down ≠ [] ∧ (steps rel).down.tail = (steps dir).down.take (steps rel).up

/-- Whether a path leads right below a directory is computed from both ways. -/
instance (dir rel : List Char) : Decidable (LeadsBelow dir rel) :=
  inferInstanceAs (Decidable (_ ∧ _ ∧ _))

/-- The path is that of the directory or of something under it, once both are clean. -/
def Under (dir path : List Char) : Prop :=
  Relation.ReflTransGen DirectChild (clean dir) (clean path)

/-- The relative path comes back down through the directories that it climbs from. -/
def StaysBelow (dir rel : List Char) : Prop :=
  (steps dir).down.take (steps rel).up <:+ (steps rel).down

/-- Whether a path stays below a directory is computed from both ways. -/
instance (dir rel : List Char) : Decidable (StaysBelow dir rel) :=
  inferInstanceAs (Decidable (_ <:+ _))

/-! ### The way of a path -/

/-- The empty path goes nowhere. -/
@[simp] lemma steps_nil : steps [] = {} := rfl

/-- A path without a separator is one component. -/
lemma steps_of_notMem {name : List Char} (h : '/' ∉ name) : steps name = Steps.step {} name := by
  rw [steps, List.splitOn_eq_singleton h]
  rfl

/-- A name goes down by one directory. -/
lemma ProperName.step {name : List Char} (h : ProperName name) (s : Steps) :
    s.step name = { s with down := name :: s.down } := by
  simp [Steps.step, h.ne_nil, h.ne_dot, h.ne_dotdot]

/-- A component after one way and then another.

**Proof sketch.** Only the two dots ask for an argument. They take back a name of the second way if
it has one; otherwise they take one of the first way or climb. -/
lemma Steps.step_comp (s t : Steps) (c : List Char) : (s.comp t).step c = s.comp (t.step c) := by
  unfold step
  split
  · rfl
  · split
    · obtain ⟨up, down⟩ := t
      cases down with
      | cons name rest => rfl
      | nil =>
        -- all names of the second way are taken back, so the component takes one of the first
        simp only [comp, List.nil_append]
        cases hdrop : s.down.drop up with
        | nil =>
          have hlen := List.drop_eq_nil_iff.mp hdrop
          rw [List.drop_eq_nil_of_le (Nat.le_succ_of_le hlen)]
          simp only [mk.injEq, and_true]
          omega
        | cons name rest =>
          have hlt : up < s.down.length := by
            by_contra hge
            rw [List.drop_eq_nil_of_le (not_lt.mp hge)] at hdrop
            cases hdrop
          have hrest : s.down.drop (up + 1) = rest := by
            rw [← List.drop_drop, hdrop]
            rfl
          rw [hrest]
          simp only [mk.injEq, and_true]
          omega
    · rfl

/-- Components after a way. -/
lemma foldl_step (s : Steps) (cs : List (List Char)) :
    cs.foldl Steps.step s = s.comp (cs.foldl Steps.step {}) := by
  induction cs using List.reverseRecOn with
  | nil => simp
  | append_singleton cs c ih => simp only [List.foldl_append, List.foldl_cons, List.foldl_nil, ih,
      Steps.step_comp]

/-- **The way of a concatenation** is the one way after the other. -/
theorem steps_append_cons (p q : List Char) :
    steps (p ++ '/' :: q) = (steps p).comp (steps q) := by
  rw [steps, List.splitOn_append_cons_self, List.foldl_append, foldl_step]
  rfl

/-- The names that a path descends through are proper.

**Proof sketch.** Induct on the components. A name is added only when it is none of the empty one,
the dot and the two dots, and as a component it has no slash. -/
lemma properName_of_mem_steps {p name : List Char} (h : name ∈ (steps p).down) :
    ProperName name := by
  have hfold : ∀ cs : List (List Char), (∀ c ∈ cs, '/' ∉ c) → ∀ s : Steps,
      (∀ n ∈ s.down, ProperName n) → ∀ n ∈ (cs.foldl Steps.step s).down, ProperName n := by
    intro cs
    induction cs with
    | nil => exact fun _ s hs => hs
    | cons c cs ih =>
      intro hcs s hs
      refine ih (fun c' hc' => hcs c' (List.mem_cons_of_mem _ hc')) _ ?_
      unfold Steps.step
      split
      · exact hs
      · next hdot =>
        split
        · split
          · exact hs
          · next hdown => exact fun n hn => hs n (by rw [hdown]; exact List.mem_cons_of_mem _ hn)
        · next hdotdot =>
          intro n hn
          rcases List.mem_cons.mp hn with rfl | hn
          · exact ⟨fun h => hdot (.inl h), fun h => hdot (.inr h), hdotdot,
              hcs n List.mem_cons_self⟩
          · exact hs n hn
  exact hfold _ (fun c hc => List.notMem_of_mem_splitOn hc) {} (by simp) name h

/-! ### Clean paths -/

/-- The way of a list of components. -/
lemma steps_intercalate {cs : List (List Char)} (h : ∀ c ∈ cs, '/' ∉ c) :
    steps (['/'].intercalate cs) = cs.foldl Steps.step {} := by
  by_cases hcs : cs = []
  · rw [hcs]
    rfl
  · rw [steps, List.splitOn_intercalate '/' h hcs]

/-- Proper names are descended through. -/
lemma foldl_step_names (s : Steps) {names : List (List Char)} (h : ∀ n ∈ names, ProperName n) :
    names.reverse.foldl Steps.step s = { s with down := names ++ s.down } := by
  induction names with
  | nil => rfl
  | cons name names ih =>
    rw [List.reverse_cons, List.foldl_append, ih fun n hn => h n (List.mem_cons_of_mem _ hn)]
    exact (h name List.mem_cons_self).step _

/-- Components `..` climb. -/
lemma foldl_step_up (n : ℕ) :
    (List.replicate n ['.', '.']).foldl Steps.step {} = { up := n } := by
  induction n with
  | zero => rfl
  | succ n ih =>
    rw [List.replicate_succ', List.foldl_append, ih]
    rfl

/-- **The way of a way written down**: at the root there is nothing to climb.

**Proof sketch.** The text of the names is split at its slashes again (`steps_intercalate`), and a
proper name adds itself (`foldl_step_names`). Not at the root, the climbs come first
(`foldl_step_up`). -/
theorem steps_render (root : Bool) {s : Steps} (h : ∀ n ∈ s.down, ProperName n) :
    steps (render root s) = { s with up := if root then 0 else s.up } := by
  have hslash : ∀ c ∈ s.down.reverse, '/' ∉ c :=
    fun c hc => (h c (List.mem_reverse.mp hc)).noSlash
  cases root with
  | true =>
    have hcons : '/' :: ['/'].intercalate s.down.reverse =
        [] ++ '/' :: ['/'].intercalate s.down.reverse := rfl
    rw [render, if_pos rfl, hcons, steps_append_cons, steps_intercalate hslash,
      foldl_step_names _ h]
    simp
  | false =>
    rw [render, if_neg Bool.false_ne_true]
    split
    · next hempty =>
      obtain ⟨up, down⟩ := s
      obtain ⟨rfl, rfl⟩ := hempty
      rfl
    · rw [steps_intercalate, List.foldl_append, foldl_step_up, foldl_step_names _ h]
      · simp
      · intro c hc
        rcases List.mem_append.mp hc with hc | hc
        · rw [List.eq_of_mem_replicate hc]
          decide
        · exact hslash c hc

/-- A way written down begins at the root where it is to.

**Proof sketch.** Not at the root, the text begins with its first component, which has no slash and
is not empty. -/
lemma rooted_render (root : Bool) {s : Steps} (h : ∀ n ∈ s.down, ProperName n) :
    rooted (render root s) = root := by
  cases root with
  | true => simp [rooted, render]
  | false =>
    have hfirst : ∀ cs : List (List Char), (∀ c ∈ cs, c ≠ [] ∧ '/' ∉ c) →
        rooted (['/'].intercalate cs) = false := by
      intro cs hcs
      match cs, hcs with
      | [], _ => rfl
      | [] :: _, hcs => exact absurd rfl (hcs [] List.mem_cons_self).1
      | (x :: c) :: cs, hcs =>
        have hx : x ≠ '/' := fun heq =>
          (hcs _ List.mem_cons_self).2 (by rw [heq]; exact List.mem_cons_self)
        cases cs <;> simp [rooted, hx]
    rw [render, if_neg Bool.false_ne_true]
    split
    · rfl
    · refine hfirst _ fun c hc => ?_
      rcases List.mem_append.mp hc with hc | hc
      · rw [List.eq_of_mem_replicate hc]
        decide
      · have hname := h c (List.mem_reverse.mp hc)
        exact ⟨hname.ne_nil, hname.noSlash⟩

/-- What there is to climb from the root is not written down. -/
lemma render_congr {root : Bool} {s t : Steps} (hdown : s.down = t.down)
    (hup : root = false → s.up = t.up) : render root s = render root t := by
  obtain ⟨up, down⟩ := s
  obtain ⟨up', down'⟩ := t
  obtain rfl : down = down' := hdown
  cases root with
  | true => rfl
  | false =>
    obtain rfl : up = up' := hup rfl
    rfl

/-- One name more.

**Proof sketch.** The names are written in the reverse order, so that the new one comes last; induct
on the components in front of it. -/
lemma render_cons (root : Bool) (up : ℕ) (name : List Char) {down : List (List Char)}
    (h : down ≠ []) : render root ⟨up, name :: down⟩ = render root ⟨up, down⟩ ++ '/' :: name := by
  have hsnoc : ∀ cs : List (List Char), cs ≠ [] →
      ['/'].intercalate (cs ++ [name]) = ['/'].intercalate cs ++ '/' :: name := by
    intro cs hcs
    induction cs with
    | nil => exact absurd rfl hcs
    | cons c cs ih =>
      cases cs with
      | nil => simp
      | cons d cs =>
        rw [List.cons_append, List.intercalate_cons_of_ne_nil (List.append_ne_nil_of_left_ne_nil
          (List.cons_ne_nil d cs) _), ih (List.cons_ne_nil d cs),
          List.intercalate_cons_of_ne_nil (List.cons_ne_nil d cs)]
        simp only [List.append_assoc]
  have hrev : down.reverse ≠ [] := by simpa using h
  cases root with
  | true => simp [render, hsnoc _ hrev]
  | false =>
    have happ : List.replicate up ['.', '.'] ++ down.reverse ≠ [] := by simp [h]
    simp only [render, Bool.false_eq_true, if_false, h, and_false, reduceCtorEq,
      List.reverse_cons, ← List.append_assoc, hsnoc _ happ]

/-- A clean path. -/
lemma clean_render (root : Bool) {s : Steps} (h : ∀ n ∈ s.down, ProperName n) :
    clean (render root s) = render root s := by
  rw [clean, rooted_render root h, steps_render root h]
  refine render_congr rfl ?_
  rintro rfl
  rfl

/-- Joining a path to one that is not empty. -/
lemma join_pair {p : List Char} (hp : p ≠ []) (q : List Char) :
    join [p, q] = render (rooted p) ((steps p).comp (steps q)) := by
  have hroot : ∀ r, rooted (p ++ r) = rooted p := by
    intro r
    cases p with
    | nil => exact absurd rfl hp
    | cons c p => rfl
  by_cases hq : q = []
  · subst hq
    simp [join, hp, clean]
  · rw [← steps_append_cons]
    simp [join, hp, hq, clean, hroot]

/-- **Joined paths are clean.** -/
theorem clean_join (elem : List (List Char)) (h : elem.filter (· ≠ []) ≠ []) :
    clean (join elem) = join elem := by
  rw [join, if_neg h]
  exact clean_render _ fun n hn => properName_of_mem_steps hn

/-! ### Direct children -/

/-- A clean path is not empty. -/
lemma ne_nil_of_clean {p : List Char} (h : clean p = p) : p ≠ [] := by
  rintro rfl
  exact absurd h (by decide)

/-- A way that comes back to the directory and descends to one more name.

**Proof sketch.** Case split on the names of the second way. The last one stands on top, and the
others have to be those that the climb has taken away. -/
lemma comp_down_iff (s t : Steps) :
    (∃ name, (s.comp t).down = name :: s.down) ↔
      t.down ≠ [] ∧ t.down.tail = s.down.take t.up := by
  simp only [Steps.comp]
  cases t.down with
  | nil =>
    refine iff_of_false ?_ fun h => h.1 rfl
    rintro ⟨name, h⟩
    have hlen := congrArg List.length h
    simp only [List.nil_append, List.length_drop, List.length_cons] at hlen
    omega
  | cons name rest =>
    have hcancel : rest ++ s.down.drop t.up = s.down ↔ rest = s.down.take t.up := by
      have hsplit := List.take_append_drop t.up s.down
      constructor
      · intro heq
        exact List.append_cancel_right (heq.trans hsplit.symm)
      · rintro rfl
        exact hsplit
    simp only [List.cons_append, List.cons.injEq, exists_and_right, exists_eq', true_and, hcancel,
      ne_eq, reduceCtorEq, not_false_eq_true, List.tail_cons]

/-- **What is joined to a directory** is a direct child of it exactly when it leads right below it.

**Proof sketch.** The joined path is the way of the directory followed by the relative one. Adding
one name to a clean path adds it to its way, so the path is a direct child when this way has one
name more than that of the directory; cancelling what the two have in common leaves the condition
on the relative path. -/
theorem directChild_join_iff {dir : List Char} (hdir : clean dir = dir)
    (hne : (steps dir).down ≠ []) (rel : List Char) :
    DirectChild dir (join [dir, rel]) ↔ LeadsBelow dir rel := by
  set s := steps dir with hs
  set t := steps rel with ht
  have hproper : ∀ n ∈ (s.comp t).down, ProperName n := by
    rw [hs, ht, ← steps_append_cons]
    exact fun n hn => properName_of_mem_steps hn
  rw [join_pair (ne_nil_of_clean hdir), ← hs, ← ht, LeadsBelow, ← hs, ← ht, ← comp_down_iff]
  constructor
  · rintro ⟨name, hname, heq⟩
    have hway := congrArg steps heq
    rw [steps_render _ hproper, steps_append_cons, steps_of_notMem hname.noSlash, hname.step,
      ← hs] at hway
    obtain ⟨hup, hdown⟩ := Steps.mk.inj hway
    refine ⟨?_, name, by simpa [Steps.comp] using hdown⟩
    cases hroot : rooted dir with
    | true => exact .inl rfl
    | false =>
      rw [hroot] at hup
      simp only [Steps.comp, Bool.false_eq_true, if_false] at hup
      exact .inr (by omega)
  · rintro ⟨hup, name, hdown⟩
    refine ⟨name, hproper name (by rw [hdown]; exact List.mem_cons_self), ?_⟩
    have hcongr : render (rooted dir) (s.comp t) = render (rooted dir) ⟨s.up, name :: s.down⟩ := by
      refine render_congr hdown fun hroot => ?_
      have hle := hup.resolve_left (by rw [hroot]; exact Bool.false_ne_true)
      simp only [Steps.comp]
      omega
    rw [hcongr, render_cons _ _ _ hne]
    exact congrArg (· ++ '/' :: name) hdir

/-- A direct child has a name on its way. -/
lemma DirectChild.steps_ne_nil {dir path : List Char} (h : DirectChild dir path) :
    (steps path).down ≠ [] := by
  obtain ⟨name, hname, rfl⟩ := h
  rw [steps_append_cons, steps_of_notMem hname.noSlash, hname.step]
  simp [Steps.comp]

/-- A name that is joined to a clean path is appended to it. -/
lemma join_name {dir name : List Char} (hdir : clean dir = dir) (hne : (steps dir).down ≠ [])
    (hname : ProperName name) : join [dir, name] = dir ++ '/' :: name := by
  have hcomp : (steps dir).comp { down := [name] } =
      ⟨(steps dir).up, name :: (steps dir).down⟩ := by
    simp [Steps.comp]
  rw [join_pair (ne_nil_of_clean hdir), steps_of_notMem hname.noSlash, hname.step, hcomp,
    render_cons _ _ _ hne]
  exact congrArg (· ++ '/' :: name) hdir

/-- A single component leads right below a directory when it is a proper name.

**Proof sketch.** The steps of a single component are one step: the empty name and the dot go
nowhere, two dots go up, and any other name goes down by itself. -/
lemma leadsBelow_iff_of_notMem {name : List Char} (h : '/' ∉ name) (dir : List Char) :
    LeadsBelow dir name ↔ ProperName name := by
  constructor
  · rintro ⟨-, hdown, -⟩
    rw [steps_of_notMem h, Steps.step] at hdown
    split at hdown
    · exact absurd rfl hdown
    · next hdot =>
      split at hdown
      · exact absurd rfl hdown
      · next hdotdot =>
        exact ⟨fun h => hdot (.inl h), fun h => hdot (.inr h), hdotdot, h⟩
  · intro hname
    have hway : steps name = { down := [name] } := by
      rw [steps_of_notMem h, hname.step]
    rw [LeadsBelow, hway]
    exact ⟨.inr (Nat.zero_le _), List.cons_ne_nil _ _, rfl⟩

/-! ### What lies under a directory -/

/-- One more name. -/
lemma steps_append_name (p : List Char) {name : List Char} (h : ProperName name) :
    steps (p ++ '/' :: name) = { steps p with down := name :: (steps p).down } := by
  rw [steps_append_cons, steps_of_notMem h.noSlash, h.step]
  simp [Steps.comp]

/-- A path begins where its first part does. -/
lemma rooted_append {p : List Char} (h : p ≠ []) (q : List Char) :
    rooted (p ++ q) = rooted p := by
  cases p with
  | nil => exact absurd rfl h
  | cons c p => rfl

/-- The way of a clean path. -/
lemma steps_clean (p : List Char) :
    steps (clean p) = { steps p with up := if rooted p then 0 else (steps p).up } :=
  steps_render _ fun _ hn => properName_of_mem_steps hn

/-- Cleaning a path does not change where it begins. -/
@[simp] lemma rooted_clean (p : List Char) : rooted (clean p) = rooted p :=
  rooted_render _ fun _ hn => properName_of_mem_steps hn

/-- A path under a directory descends through the names of the directory. -/
lemma suffix_of_directChildren {p q : List Char} (hp : p ≠ [])
    (h : Relation.ReflTransGen DirectChild p q) :
    q ≠ [] ∧ rooted q = rooted p ∧ (steps p).down <:+ (steps q).down := by
  induction h with
  | refl => exact ⟨hp, rfl, List.suffix_rfl⟩
  | tail _ hchild ih =>
    obtain ⟨hne, hroot, hsuffix⟩ := ih
    obtain ⟨name, hname, rfl⟩ := hchild
    refine ⟨by simp, by rw [rooted_append hne, hroot], hsuffix.trans ?_⟩
    rw [steps_append_name _ hname]
    exact List.suffix_cons _ _

/-- **What lies under a directory**: the paths from the root that descend through its names.

**Proof sketch.** A clean path from the root is the text of its names. Below, each child adds a name
in front (`suffix_of_directChildren`); conversely induct on the names that are added, each of which
is proper since it comes from a path. -/
theorem under_iff {dir : List Char} (hroot : rooted dir = true) (hne : (steps dir).down ≠ [])
    (path : List Char) :
    Under dir path ↔ rooted path = true ∧ (steps dir).down <:+ (steps path).down := by
  have hclean : ∀ p, rooted p = true → clean p = render true ⟨0, (steps p).down⟩ := by
    intro p hp
    rw [clean, hp]
    exact render_congr rfl fun h => absurd h (by decide)
  constructor
  · intro h
    have hdir : clean dir ≠ [] := by
      rw [hclean dir hroot]
      simp [render]
    obtain ⟨-, hrooted, hsuffix⟩ := suffix_of_directChildren hdir h
    rw [steps_clean, steps_clean] at hsuffix
    rw [rooted_clean, rooted_clean, hroot] at hrooted
    exact ⟨hrooted, hsuffix⟩
  · rintro ⟨hpath, names, hdown⟩
    have hproper : ∀ n ∈ names, ProperName n := fun n hn =>
      properName_of_mem_steps (hdown ▸ List.mem_append_left _ hn)
    rw [Under, hclean dir hroot, hclean path hpath, ← hdown]
    clear hdown hclean
    induction names with
    | nil => exact .refl
    | cons name names ih =>
      refine .tail (ih fun n hn => hproper n (List.mem_cons_of_mem _ hn))
        ⟨name, hproper name List.mem_cons_self, ?_⟩
      rw [List.cons_append, render_cons _ _ _ (List.append_ne_nil_of_right_ne_nil _ hne)]

/-- **What is appended to a directory** lies under it exactly when it stays below it. -/
theorem under_append_iff {dir : List Char} (hroot : rooted dir = true)
    (hne : (steps dir).down ≠ []) (rel : List Char) :
    Under dir (dir ++ '/' :: rel) ↔ StaysBelow dir rel := by
  have hnil : dir ≠ [] := by
    rintro rfl
    exact absurd hroot (by decide)
  have hcancel : (steps dir).down.take (steps rel).up ++ (steps dir).down.drop (steps rel).up <:+
      (steps rel).down ++ (steps dir).down.drop (steps rel).up ↔ StaysBelow dir rel :=
    List.suffix_append_self_iff
  rw [List.take_append_drop] at hcancel
  rw [under_iff hroot hne, rooted_append hnil, hroot, steps_append_cons]
  simpa only [Steps.comp, true_and] using hcancel

/-- What is joined to a directory lies under it exactly when it stays below it. -/
theorem under_join_iff {dir : List Char} (hroot : rooted dir = true)
    (hne : (steps dir).down ≠ []) (rel : List Char) :
    Under dir (join [dir, rel]) ↔ StaysBelow dir rel := by
  have hnil : dir ≠ [] := by
    rintro rfl
    exact absurd hroot (by decide)
  have hjoin : join [dir, rel] = clean (dir ++ '/' :: rel) := by
    rw [join_pair hnil, clean, rooted_append hnil, steps_append_cons]
  have hclean : clean (join [dir, rel]) = clean (dir ++ '/' :: rel) := by
    rw [clean_join _ (by simp [hnil]), hjoin]
  rw [← under_append_iff hroot hne, Under, Under, hclean]

/-- What is in a directory under another one lies under the latter. -/
lemma Under.append_name {dir path name : List Char} (hroot : rooted dir = true)
    (hne : (steps dir).down ≠ []) (h : Under dir path) (hname : ProperName name) :
    Under dir (path ++ '/' :: name) := by
  obtain ⟨hpath, hsuffix⟩ := (under_iff hroot hne path).mp h
  have hnil : path ≠ [] := by
    rintro rfl
    exact absurd hpath (by decide)
  refine (under_iff hroot hne _).mpr ⟨by rw [rooted_append hnil, hpath], hsuffix.trans ?_⟩
  rw [steps_append_name _ hname]
  exact List.suffix_cons _ _

/-- A name more does not matter unless the directory has it on its way.

**Proof sketch.** A name goes one step down. What is left of the directory is a suffix of that way
exactly when it is one of the way without the name, unless it begins with the name, which the
directory does not have. -/
lemma staysBelow_append_name_iff {dir rel name : List Char} (hname : ProperName name)
    (hnot : name ∉ (steps dir).down) :
    StaysBelow dir (rel ++ '/' :: name) ↔ StaysBelow dir rel := by
  rw [StaysBelow, StaysBelow, steps_append_name _ hname]
  constructor
  · rintro ⟨l, hl⟩
    cases l with
    | nil =>
      refine absurd (List.mem_of_mem_take (i := (steps rel).up) ?_) hnot
      rw [List.nil_append] at hl
      simp only at hl
      rw [hl]
      exact List.mem_cons_self
    | cons x l =>
      simp only [List.cons_append, List.cons.injEq] at hl
      exact ⟨l, hl.2⟩
  · intro h
    exact h.trans (List.suffix_cons _ _)

end Path
