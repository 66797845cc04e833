import Mathlib.Algebra.Order.Group.Nat
import Mathlib.Data.List.MinMax
import Mathlib.Tactic.Common
import Fecore.Concurrency.Interleaving

set_option relaxedAutoImplicit false
set_option autoImplicit false

/-!
# Locks that are taken in an order

Threads over readers-writer locks and a bounded channel. A writer first keeps new readers away and
then waits for those that are left, so a waiting writer goes before a new reader. A thread of the
channel's other end receives in a loop and does something for every item.

Every lock has a rank. A thread is disciplined when it takes locks in the order of their ranks,
gives back what it holds, and holds nothing when it sends or receives. A thread that waits has a
level, and what it waits for is held by a thread of a higher level. So where no thread can go on,
none waits: all have ended, and those that receive have nothing to do.

## Main definitions

* `LockOrder.Op`, `Thread`, `Shared` — what a thread does, a thread, and what the threads share.
* `LockOrder.program` — the interleavings of the threads.
* `LockOrder.Disciplined`, `Balanced` — threads that keep to the ranks, and parts of them.
* `LockOrder.heldAfter` — what a thread holds after a part of it.
* `LockOrder.Orderly` — the invariant: the locks that are taken are those that the threads hold.
* `LockOrder.Quiet` — nothing is left to do.
* `LockOrder.work` — what is left to do.

## Main results

* `LockOrder.quiet_of_stuck` — where no thread can go on, nothing is left to do.
* `LockOrder.length_le_work`, `exists_quiet` — the threads go on as often as there is work, at most,
  and can go on until there is none.
* `LockOrder.Balanced.append`, `Balanced.around` — disciplined threads, part by part.
* `LockOrder.Disciplined.cut` — a disciplined thread may break off when it gives back what it holds.
-/

namespace LockOrder

open Interleaving (Config Move Program)

variable {ι α : Type*}

/-- What a thread does next. -/
inductive Op (ι α : Type*)
  /-- the first half of taking a lock for writing: other writers and new readers are kept away -/
  | lock (l : ι)
  /-- the second half: the readers that are left have finished -/
  | drain (l : ι)
  | unlock (l : ι)
  | rLock (l : ι)
  | rUnlock (l : ι)
  /-- takes the lock for writing when it is free; otherwise the thread ends -/
  | tryLock (l : ι)
  | send (a : α)
  /-- receives an item, does what is to be done for it, and comes back -/
  | receive

/-- One thread's share in a lock. -/
inductive Hold (ι : Type*)
  | writing (l : ι)
  | reading (l : ι)
deriving DecidableEq

/-- The lock that is held. -/
def Hold.of : Hold ι → ι
  | .writing l => l
  | .reading l => l

/-- Taking the lock. -/
def Hold.take : Hold ι → Op ι α
  | .writing l => .lock l
  | .reading l => .rLock l

/-- Giving it back. -/
def Hold.give : Hold ι → Op ι α
  | .writing l => .unlock l
  | .reading l => .rUnlock l

/-- Something under a lock. -/
def Hold.around (k : Hold ι) (ops : List (Op ι α)) : List (Op ι α) :=
  k.take :: (ops ++ [k.give])

/-- What is held after something has been done. -/
def Op.effect [DecidableEq ι] (held : List (Hold ι)) : Op ι α → List (Hold ι)
  | .lock l | .tryLock l => .writing l :: held
  | .rLock l => .reading l :: held
  | .unlock l => held.erase (.writing l)
  | .rUnlock l => held.erase (.reading l)
  | .drain _ | .send _ | .receive => held

/-- What is held after several things have been done. -/
def heldAfter [DecidableEq ι] (held : List (Hold ι)) (ops : List (Op ι α)) : List (Hold ι) :=
  ops.foldl Op.effect held

/-- A thread: what it has to do, and what it holds. -/
structure Thread (ι α : Type*) where
  ops : List (Op ι α)
  held : List (Hold ι) := []

/-- The locks that are taken, and the items in the channel. -/
structure Shared (ι α : Type*) where
  taken : List (Hold ι) := []
  buffer : List α := []

section Program

variable [DecidableEq ι] (cap : ℕ) (body : α → List (Op ι α))

/-- The next section of a thread; `cap` is the capacity of the channel, and `body` is what is to be
done for an item. -/
def next (s : Shared ι α) (t : Thread ι α) : Option (Shared ι α × Thread ι α) :=
  match t.ops with
  | [] => none
  | .lock l :: ops =>
    if .writing l ∈ s.taken then none
    else some ({ s with taken := .writing l :: s.taken }, ⟨.drain l :: ops, .writing l :: t.held⟩)
  | .drain l :: ops => if .reading l ∈ s.taken then none else some (s, ⟨ops, t.held⟩)
  | .unlock l :: ops =>
    some ({ s with taken := s.taken.erase (.writing l) }, ⟨ops, t.held.erase (.writing l)⟩)
  | .rLock l :: ops =>
    if .writing l ∈ s.taken then none
    else some ({ s with taken := .reading l :: s.taken }, ⟨ops, .reading l :: t.held⟩)
  | .rUnlock l :: ops =>
    some ({ s with taken := s.taken.erase (.reading l) }, ⟨ops, t.held.erase (.reading l)⟩)
  | .tryLock l :: ops =>
    if .writing l ∈ s.taken ∨ .reading l ∈ s.taken then some (s, ⟨[], t.held⟩)
    else some ({ s with taken := .writing l :: s.taken }, ⟨ops, .writing l :: t.held⟩)
  | .send a :: ops =>
    if s.buffer.length < cap then some ({ s with buffer := s.buffer ++ [a] }, ⟨ops, t.held⟩)
    else none
  | .receive :: ops =>
    match s.buffer with
    | [] => none
    | a :: buffer => some ({ s with buffer := buffer }, ⟨body a ++ .receive :: ops, t.held⟩)

/-- The interleavings: threads that hold nothing may arrive. -/
def program : Program (Shared ι α) (Thread ι α) Unit where
  entry t := t.held.isEmpty
  next s t _ := (next cap body s t).map fun st => (st.1, st.2, [])

/-- Everything that a section can do. -/
inductive Section (s : Shared ι α) : Thread ι α → Shared ι α → Thread ι α → Prop
  | lock {l : ι} {ops : List (Op ι α)} {held : List (Hold ι)} (hfree : .writing l ∉ s.taken) :
      Section s ⟨.lock l :: ops, held⟩ { s with taken := .writing l :: s.taken }
        ⟨.drain l :: ops, .writing l :: held⟩
  | drain {l : ι} {ops : List (Op ι α)} {held : List (Hold ι)} (hfree : .reading l ∉ s.taken) :
      Section s ⟨.drain l :: ops, held⟩ s ⟨ops, held⟩
  | unlock {l : ι} {ops : List (Op ι α)} {held : List (Hold ι)} :
      Section s ⟨.unlock l :: ops, held⟩ { s with taken := s.taken.erase (.writing l) }
        ⟨ops, held.erase (.writing l)⟩
  | rLock {l : ι} {ops : List (Op ι α)} {held : List (Hold ι)} (hfree : .writing l ∉ s.taken) :
      Section s ⟨.rLock l :: ops, held⟩ { s with taken := .reading l :: s.taken }
        ⟨ops, .reading l :: held⟩
  | rUnlock {l : ι} {ops : List (Op ι α)} {held : List (Hold ι)} :
      Section s ⟨.rUnlock l :: ops, held⟩ { s with taken := s.taken.erase (.reading l) }
        ⟨ops, held.erase (.reading l)⟩
  | tryFailed {l : ι} {ops : List (Op ι α)} {held : List (Hold ι)} :
      Section s ⟨.tryLock l :: ops, held⟩ s ⟨[], held⟩
  | tryLock {l : ι} {ops : List (Op ι α)} {held : List (Hold ι)} :
      Section s ⟨.tryLock l :: ops, held⟩ { s with taken := .writing l :: s.taken }
        ⟨ops, .writing l :: held⟩
  | send {a : α} {ops : List (Op ι α)} {held : List (Hold ι)} :
      Section s ⟨.send a :: ops, held⟩ { s with buffer := s.buffer ++ [a] } ⟨ops, held⟩
  | receive {a : α} {buffer : List α} {ops : List (Op ι α)} {held : List (Hold ι)}
      (hbuffer : s.buffer = a :: buffer) :
      Section s ⟨.receive :: ops, held⟩ { s with buffer := buffer }
        ⟨body a ++ .receive :: ops, held⟩

variable {cap body}

/-- **What a section does.**

**Proof sketch.** Case split on the first operation of the thread and on whether its lock is
free. -/
theorem next_cases {s s' : Shared ι α} {t t' : Thread ι α}
    (h : next cap body s t = some (s', t')) : Section body s t s' t' := by
  obtain ⟨ops, held⟩ := t
  cases ops with
  | nil => cases h
  | cons op ops =>
    cases op with
    | lock l =>
      simp only [next] at h
      split at h
      · cases h
      · next hfree =>
        cases h
        exact .lock hfree
    | drain l =>
      simp only [next] at h
      split at h
      · cases h
      · next hfree =>
        cases h
        exact .drain hfree
    | unlock l =>
      cases h
      exact .unlock
    | rLock l =>
      simp only [next] at h
      split at h
      · cases h
      · next hfree =>
        cases h
        exact .rLock hfree
    | rUnlock l =>
      cases h
      exact .rUnlock
    | tryLock l =>
      simp only [next] at h
      split at h
      · cases h
        exact .tryFailed
      · cases h
        exact .tryLock
    | send a =>
      simp only [next] at h
      split at h
      · cases h
        exact .send
      · cases h
    | receive =>
      simp only [next] at h
      split at h
      · cases h
      · next hbuffer =>
        cases h
        exact .receive hbuffer

end Program

/-! ### Discipline -/

section Discipline

variable [DecidableEq ι] (rank : ι → ℕ)

/-- A thread that holds `held` keeps to the ranks, gives back what it holds, and holds nothing when
it sends, receives or ends. -/
def Disciplined : List (Hold ι) → List (Op ι α) → Prop
  | held, [] => held = []
  | held, .lock l :: ops =>
    (∀ h ∈ held, rank h.of < rank l) ∧ Disciplined (.writing l :: held) ops
  | held, .drain l :: ops =>
    (∀ h ∈ held, h = .writing l ∨ rank h.of < rank l) ∧ Disciplined held ops
  | held, .unlock l :: ops => .writing l ∈ held ∧ Disciplined (held.erase (.writing l)) ops
  | held, .rLock l :: ops =>
    (∀ h ∈ held, rank h.of < rank l) ∧ Disciplined (.reading l :: held) ops
  | held, .rUnlock l :: ops => .reading l ∈ held ∧ Disciplined (held.erase (.reading l)) ops
  | held, .tryLock l :: ops => held = [] ∧ Disciplined [.writing l] ops
  | held, .send _ :: ops => held = [] ∧ Disciplined held ops
  | held, .receive :: ops => held = [] ∧ Disciplined held ops

/-- A part of a thread that leaves the locks as it finds them and takes none of a rank below `m`. -/
def Balanced (m : ℕ) (ops : List (Op ι α)) : Prop :=
  ∀ (held : List (Hold ι)) (rest : List (Op ι α)), (∀ h ∈ held, rank h.of < m) →
    Disciplined rank held rest → Disciplined rank held (ops ++ rest)

variable {rank} {m n : ℕ} {ops ops' : List (Op ι α)} {l : ι}

/-- No operation is balanced. -/
lemma balanced_nil : Balanced rank m ([] : List (Op ι α)) := fun _ _ _ h => h

/-- One part after another. -/
lemma Balanced.append (h : Balanced rank m ops) (h' : Balanced rank m ops') :
    Balanced rank m (ops ++ ops') := by
  intro held rest hheld hrest
  rw [List.append_assoc]
  exact h held _ hheld (h' held rest hheld hrest)

/-- A part that takes no locks of a low rank takes none of a lower one. -/
lemma Balanced.mono (h : Balanced rank m ops) (hle : n ≤ m) : Balanced rank n ops :=
  fun held rest hheld => h held rest fun k hk => (hheld k hk).trans_le hle

/-- **A lock around a part** that takes locks of higher ranks.

**Proof sketch.** Take the definition apart for any locks that are held: they are all below the new
one, so the part inside is disciplined with the lock on top, and giving it back takes it off the
top. -/
lemma Balanced.around {k : Hold ι} (h : Balanced rank (rank k.of + 1) ops) (hm : m ≤ rank k.of) :
    Balanced rank m (k.around ops) := by
  intro held rest hheld hrest
  have hbelow : ∀ h ∈ held, rank h.of < rank k.of := fun j hj => (hheld j hj).trans_le hm
  have hgive : Disciplined rank (k :: held) (k.give :: rest) := by
    cases k with
    | writing l => exact ⟨List.mem_cons_self, by rwa [List.erase_cons_head]⟩
    | reading l => exact ⟨List.mem_cons_self, by rwa [List.erase_cons_head]⟩
  have hinner : Disciplined rank (k :: held) ((ops ++ [k.give]) ++ rest) := by
    rw [List.append_assoc]
    refine h _ _ (fun j hj => ?_) hgive
    rcases List.mem_cons.mp hj with rfl | hj
    · exact Nat.lt_succ_self _
    · exact (hbelow j hj).trans (Nat.lt_succ_self _)
  cases k with
  | writing l => exact ⟨hbelow, hinner⟩
  | reading l => exact ⟨hbelow, hinner⟩

/-- Items are sent while nothing is held. -/
lemma balanced_send : ∀ items : List α, Balanced rank 0 (items.map (Op.send (ι := ι)))
  | [] => balanced_nil
  | a :: items => by
    intro held rest hheld hrest
    have hnil : held = [] := List.eq_nil_iff_forall_not_mem.mpr fun h hh =>
      absurd (hheld h hh) (Nat.not_lt_zero _)
    exact ⟨hnil, balanced_send items held rest hheld hrest⟩

/-- Giving back all that is held. -/
lemma disciplined_give : ∀ held : List (Hold ι),
    Disciplined rank held (held.map (Hold.give (α := α)))
  | [] => rfl
  | .writing l :: held => ⟨List.mem_cons_self, by
      rw [List.erase_cons_head]
      exact disciplined_give held⟩
  | .reading l :: held => ⟨List.mem_cons_self, by
      rw [List.erase_cons_head]
      exact disciplined_give held⟩

/-- **A disciplined thread may break off** when it gives back what it holds. -/
lemma Disciplined.cut {held : List (Hold ι)} (h : Disciplined rank held ops) (k : ℕ) :
    Disciplined rank held (ops.take k ++ (heldAfter held (ops.take k)).map Hold.give) := by
  induction ops generalizing held k with
  | nil =>
    rw [List.take_nil]
    exact disciplined_give held
  | cons op ops ih =>
    cases k with
    | zero => exact disciplined_give held
    | succ k =>
      cases op with
      | tryLock l =>
        obtain ⟨rfl, h⟩ := h
        exact ⟨rfl, ih h k⟩
      | _ => exact ⟨h.1, ih h.2 k⟩

/-- A balanced part is disciplined as a whole. -/
lemma Balanced.disciplined (h : Balanced rank m ops) : Disciplined rank [] ops := by
  have := h [] [] (fun _ hh => absurd hh List.not_mem_nil) rfl
  rwa [List.append_nil] at this

end Discipline

/-! ### The invariant -/

section Invariant

variable [DecidableEq ι] {rank : ι → ℕ} {cap : ℕ} {body : α → List (Op ι α)}

/-- Nothing but taking locks and giving them back. -/
def Op.plain : Op ι α → Bool
  | .tryLock _ => false
  | .send _ => false
  | .receive => false
  | _ => true

/-- A thread that receives, and does what is to be done for an item. -/
def Thread.Serves (t : Thread ι α) : Prop :=
  ∃ ops : List (Op ι α), t.ops = ops ++ [.receive] ∧ ∀ op ∈ ops, op.plain

/-- What is to be done for an item keeps to the ranks, sends nothing and receives nothing. -/
structure Serving (rank : ι → ℕ) (body : α → List (Op ι α)) : Prop where
  balanced : ∀ a, Balanced rank 0 (body a)
  plain : ∀ a, ∀ op ∈ body a, op.plain

/-- The locks that are taken are those that the threads hold, all threads are disciplined, and one
of them receives. -/
structure Orderly (rank : ι → ℕ) (c : Config (Shared ι α) (Thread ι α)) : Prop where
  taken : ∀ k, c.shared.taken.count k = (c.threads.map fun t => t.held.count k).sum
  disciplined : ∀ t ∈ c.threads, Disciplined rank t.held t.ops
  served : ∃ t ∈ c.threads, t.Serves

section Sections

variable {s s' : Shared ι α} {t t' : Thread ι α}

/-- **One section keeps the locks that are taken in step with those that are held.**

**Proof sketch.** Case split on the section. One that takes a lock adds one to both counts; one that
gives it back erases one from both, which is there because the thread holds it. -/
lemma section_count (hsec : Section body s t s' t') (hd : Disciplined rank t.held t.ops)
    (hle : ∀ k, t.held.count k ≤ s.taken.count k) (k : Hold ι) :
    s'.taken.count k + t.held.count k = s.taken.count k + t'.held.count k := by
  -- giving back what is held
  have hgive : ∀ {j : Hold ι}, j ∈ t.held →
      (s.taken.erase j).count k + t.held.count k =
        s.taken.count k + (t.held.erase j).count k := by
    intro j hj
    have hone : j = k → 1 ≤ t.held.count k := fun heq => List.count_pos_iff.mpr (heq ▸ hj)
    have hk := hle k
    rw [List.count_erase, List.count_erase]
    by_cases heq : j = k
    · have := hone heq
      simp only [heq, beq_self_eq_true, if_true]
      omega
    · simp [heq]
  cases hsec with
  | lock =>
    simp only [List.count_cons]
    omega
  | unlock => exact hgive hd.1
  | rLock =>
    simp only [List.count_cons]
    omega
  | rUnlock => exact hgive hd.1
  | tryLock =>
    simp only [List.count_cons]
    omega
  | _ => rfl

/-- **One section keeps its thread disciplined.**

**Proof sketch.** Case split on the section. Each takes the first operation off, whose condition is
the head of the discipline; for a lock that is waited for the order stays, and a receipt puts the
body in front, which is balanced. -/
lemma section_disciplined (hbody : Serving rank body) (hsec : Section body s t s' t')
    (hd : Disciplined rank t.held t.ops) : Disciplined rank t'.held t'.ops := by
  cases hsec with
  | lock =>
    refine ⟨fun k hk => ?_, hd.2⟩
    rcases List.mem_cons.mp hk with rfl | hk
    · exact .inl rfl
    · exact .inr (hd.1 k hk)
  | drain => exact hd.2
  | unlock => exact hd.2
  | rLock => exact hd.2
  | rUnlock => exact hd.2
  | tryFailed => exact hd.1
  | tryLock =>
    obtain ⟨rfl, hd⟩ := hd
    exact hd
  | send => exact hd.2
  | receive =>
    obtain ⟨rfl, hd⟩ := hd
    exact hbody.balanced _ [] _ (fun _ hk => absurd hk List.not_mem_nil) ⟨rfl, hd⟩

/-- **One section of the thread that receives leaves it one.**

**Proof sketch.** Case split on the operations before the receive. At the receive the thread goes on
with the body, which serves; before it, every operation of the prefix is plain and is dropped. -/
lemma section_serves (hbody : Serving rank body) (hsec : Section body s t s' t')
    (ht : t.Serves) : t'.Serves := by
  obtain ⟨pre, hops, hplain⟩ := ht
  cases pre with
  | nil =>
    cases hsec with
    | receive =>
      obtain rfl : _ = [] := (List.cons.inj hops).2
      exact ⟨_, rfl, hbody.plain _⟩
    | _ => cases hops
  | cons op pre =>
    have hop := hplain op List.mem_cons_self
    have hrest := fun o ho => hplain o (List.mem_cons_of_mem op ho)
    cases hsec with
    | lock =>
      obtain ⟨rfl, rfl⟩ := List.cons.inj hops
      exact ⟨.drain _ :: pre, rfl, fun o ho => by
        rcases List.mem_cons.mp ho with rfl | ho
        · rfl
        · exact hrest o ho⟩
    | tryFailed =>
      obtain ⟨rfl, rfl⟩ := List.cons.inj hops
      cases hop
    | tryLock =>
      obtain ⟨rfl, rfl⟩ := List.cons.inj hops
      cases hop
    | send =>
      obtain ⟨rfl, rfl⟩ := List.cons.inj hops
      cases hop
    | receive =>
      obtain ⟨rfl, rfl⟩ := List.cons.inj hops
      cases hop
    | _ =>
      obtain ⟨rfl, rfl⟩ := List.cons.inj hops
      exact ⟨pre, rfl, hrest⟩

end Sections

/-- What a section of a thread of the program is. -/
lemma program_next {s s' : Shared ι α} {t t' : Thread ι α} {e : Unit} {new : List (Thread ι α)} :
    (program cap body).next s t e = some (s', t', new) ↔
      next cap body s t = some (s', t') ∧ new = [] := by
  simp only [program, Option.map_eq_some_iff, Prod.mk.injEq, Prod.exists]
  constructor
  · rintro ⟨s₁, t₁, h, rfl, rfl, rfl⟩
    exact ⟨h, rfl⟩
  · rintro ⟨h, rfl⟩
    exact ⟨s', t', h, rfl, rfl, rfl⟩

/-- What one thread holds is taken. -/
lemma Orderly.count_le {c : Config (Shared ι α) (Thread ι α)} (h : Orderly rank c)
    {t : Thread ι α} (ht : t ∈ c.threads) (k : Hold ι) :
    t.held.count k ≤ c.shared.taken.count k := by
  rw [h.taken k]
  exact List.single_le_sum (fun _ _ => Nat.zero_le _) _
    (List.mem_map_of_mem (f := fun t : Thread ι α => t.held.count k) ht)

/-- **One move keeps the invariant**, when the threads that arrive are disciplined.

**Proof sketch.** Use `next_cases` for the section. The counts move together (`section_count`), the
discipline is that of the thread that steps (`section_disciplined`), and the thread that serves
stays in the list, whether it steps itself or not (`section_serves`). -/
theorem step_orderly (hbody : Serving rank body) {c c' : Config (Shared ι α) (Thread ι α)}
    {m : Move (Thread ι α) Unit} (h : Orderly rank c)
    (harrive : ∀ t, m = .arrive t → Disciplined rank [] t.ops)
    (hstep : (program cap body).step c m = some c') : Orderly rank c' := by
  obtain ⟨t, rfl, hent, rfl⟩ | ⟨i, e, t, s', t', new, rfl, ht, hn, rfl⟩ :=
    Program.step_cases hstep
  · have hheld : t.held = [] := List.isEmpty_iff.mp hent
    refine ⟨fun k => ?_, fun u hu => ?_, ?_⟩
    · simp [h.taken k, hheld]
    · rcases List.mem_append.mp hu with hu | hu
      · exact h.disciplined u hu
      · rw [List.mem_singleton.mp hu, hheld]
        exact harrive t rfl
    · obtain ⟨u, hu, hserves⟩ := h.served
      exact ⟨u, List.mem_append_left _ hu, hserves⟩
  · obtain ⟨hnext, rfl⟩ := program_next.mp hn
    have hsec := next_cases hnext
    have hmem := List.mem_of_getElem? ht
    have hd := h.disciplined t hmem
    refine ⟨fun k => ?_, fun u hu => ?_, ?_⟩
    · have hsum := Interleaving.sum_map_set_add (fun t : Thread ι α => t.held.count k) t' ht
      have hcount := section_count hsec hd (h.count_le hmem) k
      have htaken := h.taken k
      simp only [List.append_nil]
      omega
    · obtain ⟨j, -, hj⟩ | rfl | hu := Interleaving.mem_set_append hu
      · exact h.disciplined u (List.mem_of_getElem? hj)
      · exact section_disciplined hbody hsec hd
      · cases hu
    · obtain ⟨u, hu, hserves⟩ := h.served
      obtain ⟨j, hj⟩ := List.mem_iff_getElem?.mp hu
      by_cases hij : j = i
      · subst hij
        obtain rfl := Option.some.inj (ht.symm.trans hj)
        exact ⟨t', List.mem_of_getElem? (Interleaving.getElem?_section t' [] ht),
          section_serves hbody hsec hserves⟩
      · refine ⟨u, List.mem_of_getElem? (i := j) ?_, hserves⟩
        rw [List.append_nil, List.getElem?_set_ne (Ne.symm hij), hj]

/-! ### Where no thread can go on -/

/-- The thread has ended, or it has come back to receive. -/
def Thread.Idle (t : Thread ι α) : Prop := t.ops = [] ∨ ∃ ops, t.ops = .receive :: ops

/-- Nothing is left to do: the threads have ended or wait for items, there are none, and no lock is
taken. -/
structure Quiet (c : Config (Shared ι α) (Thread ι α)) : Prop where
  idle : ∀ t ∈ c.threads, t.Idle
  taken : c.shared.taken = []
  buffer : c.shared.buffer = []

/-- No thread can go on. -/
def Stuck (cap : ℕ) (body : α → List (Op ι α)) (c : Config (Shared ι α) (Thread ι α)) : Prop :=
  ∀ i, (program cap body).step c (.step i ()) = none

/-- The level of a thread that waits: above what the lock's rank is, and for the readers to leave
above that. -/
def Op.level (rank : ι → ℕ) : Op ι α → ℕ
  | .lock l => 2 * rank l + 1
  | .rLock l => 2 * rank l + 1
  | .drain l => 2 * rank l + 2
  | _ => 0

/-- The level of a thread. -/
def Thread.level (rank : ι → ℕ) (t : Thread ι α) : ℕ :=
  match t.ops with
  | [] => 0
  | op :: _ => op.level rank

/-- **A thread that waits has a level above what it holds.**

**Proof sketch.** Case split on the operation that the thread waits at. A lock is above all that is
held by the discipline, a read lock leaves room for the one being drained, and the other operations
hold nothing or do not wait. -/
lemma level_of_held {s : Shared ι α} {t : Thread ι α} {k : Hold ι}
    (hd : Disciplined rank t.held t.ops) (hk : k ∈ t.held) (hwaits : next cap body s t = none) :
    (∃ op ops, t.ops = op :: ops ∧ op ≠ .receive) ∧ 2 * rank k.of + 2 ≤ t.level rank ∧
      ((∃ l, k = .reading l) → 2 * rank k.of + 3 ≤ t.level rank) := by
  obtain ⟨ops, held⟩ := t
  cases ops with
  | nil =>
    obtain rfl : held = [] := hd
    cases hk
  | cons op ops =>
    cases op with
    | lock l =>
      have := hd.1 k hk
      exact ⟨⟨_, _, rfl, by simp⟩, by simp only [Thread.level, Op.level]; omega,
        fun _ => by simp only [Thread.level, Op.level]; omega⟩
    | drain l =>
      refine ⟨⟨_, _, rfl, by simp⟩, ?_, ?_⟩
      · simp only [Thread.level, Op.level]
        rcases hd.1 k hk with rfl | hlt
        · exact le_rfl
        · omega
      · rintro ⟨l', rfl⟩
        simp only [Thread.level, Op.level]
        rcases hd.1 _ hk with heq | hlt
        · cases heq
        · omega
    | unlock l => cases hwaits
    | rLock l =>
      have := hd.1 k hk
      exact ⟨⟨_, _, rfl, by simp⟩, by simp only [Thread.level, Op.level]; omega,
        fun _ => by simp only [Thread.level, Op.level]; omega⟩
    | rUnlock l => cases hwaits
    | tryLock l =>
      obtain ⟨rfl, -⟩ := hd
      cases hk
    | send a =>
      obtain ⟨rfl, -⟩ := hd
      cases hk
    | receive =>
      obtain ⟨rfl, -⟩ := hd
      cases hk

/-- What is taken is held by a thread. -/
lemma Orderly.exists_holder {c : Config (Shared ι α) (Thread ι α)} (h : Orderly rank c)
    {k : Hold ι} (hk : k ∈ c.shared.taken) : ∃ t ∈ c.threads, k ∈ t.held := by
  by_contra hnone
  push Not at hnone
  have hzero : (c.threads.map fun t => t.held.count k).sum = 0 := by
    refine List.sum_eq_zero fun x hx => ?_
    obtain ⟨t, ht, rfl⟩ := List.mem_map.mp hx
    exact List.count_eq_zero.mpr (hnone t ht)
  have hpos := List.count_pos_iff.mpr hk
  rw [h.taken k, hzero] at hpos
  exact absurd hpos (lt_irrefl 0)

/-- Where all is stuck, no thread has a next step. -/
lemma Stuck.next_eq_none {c : Config (Shared ι α) (Thread ι α)} (h : Stuck cap body c)
    {t : Thread ι α} (ht : t ∈ c.threads) : next cap body c.shared t = none := by
  obtain ⟨i, hi⟩ := List.mem_iff_getElem?.mp ht
  have hnone := h i
  simp only [Program.step, hi, program] at hnone
  cases hnext : next cap body c.shared t with
  | none => rfl
  | some r => simp [hnext] at hnone

/-- **Where no thread can go on, a thread that waits is outdone** by one of a higher level.

**Proof sketch.** The lock that it waits for is held by a thread that waits for one of a higher
rank, or for the readers of the lock to leave. A thread that waits to send is outdone by the one
that receives, which has not come back yet. -/
lemma exists_higher (hcap : 0 < cap) {c : Config (Shared ι α) (Thread ι α)} (h : Orderly rank c)
    (hstuck : Stuck cap body c) {t : Thread ι α} (ht : t ∈ c.threads) (hwaits : ¬ t.Idle) :
    ∃ u ∈ c.threads, ¬ u.Idle ∧ t.level rank < u.level rank := by
  have hnone := hstuck.next_eq_none ht
  -- a thread that holds something
  have hholder : ∀ {k : Hold ι}, k ∈ c.shared.taken → ∃ u ∈ c.threads, ¬ u.Idle ∧
      2 * rank k.of + 2 ≤ u.level rank ∧
        ((∃ l, k = .reading l) → 2 * rank k.of + 3 ≤ u.level rank) := by
    intro k hk
    obtain ⟨u, hu, hheld⟩ := h.exists_holder hk
    obtain ⟨⟨op, ops, hops, hop⟩, hlevel⟩ :=
      level_of_held (h.disciplined u hu) hheld (hstuck.next_eq_none hu)
    refine ⟨u, hu, ?_, hlevel⟩
    rintro (hnil | ⟨rest, hrest⟩)
    · rw [hops] at hnil
      cases hnil
    · rw [hops] at hrest
      exact hop (List.cons.inj hrest).1
  obtain ⟨ops, held⟩ := t
  cases ops with
  | nil => exact absurd (.inl rfl) hwaits
  | cons op ops =>
    cases op with
    | lock l =>
      simp only [next, ite_eq_left_iff, reduceCtorEq, imp_false, not_not] at hnone
      obtain ⟨u, hu, hidle, hlevel, -⟩ := hholder hnone
      exact ⟨u, hu, hidle, by simp only [Thread.level, Op.level, Hold.of] at hlevel ⊢; omega⟩
    | drain l =>
      simp only [next, ite_eq_left_iff, reduceCtorEq, imp_false, not_not] at hnone
      obtain ⟨u, hu, hidle, -, hlevel⟩ := hholder hnone
      have := hlevel ⟨l, rfl⟩
      exact ⟨u, hu, hidle, by simp only [Thread.level, Op.level, Hold.of] at this ⊢; omega⟩
    | unlock l => cases hnone
    | rLock l =>
      simp only [next, ite_eq_left_iff, reduceCtorEq, imp_false, not_not] at hnone
      obtain ⟨u, hu, hidle, hlevel, -⟩ := hholder hnone
      exact ⟨u, hu, hidle, by simp only [Thread.level, Op.level, Hold.of] at hlevel ⊢; omega⟩
    | rUnlock l => cases hnone
    | tryLock l =>
      simp only [next] at hnone
      split at hnone <;> cases hnone
    | send a =>
      have hfull : c.shared.buffer ≠ [] := by
        intro hnil
        simp [next, hnil, hcap] at hnone
      obtain ⟨u, hu, pre, hops, hplain⟩ := h.served
      have hunone := hstuck.next_eq_none hu
      obtain ⟨uops, uheld⟩ := u
      obtain rfl : uops = pre ++ [.receive] := hops
      cases pre with
      | nil =>
        obtain ⟨a, buffer, hbuffer⟩ := List.exists_cons_of_ne_nil hfull
        simp [next, hbuffer] at hunone
      | cons op' pre =>
        have hop := hplain op' List.mem_cons_self
        refine ⟨_, hu, ?_, ?_⟩
        · rintro (hnil | ⟨rest, hrest⟩)
          · cases hnil
          · rw [(List.cons.inj hrest).1] at hop
            cases hop
        · cases op' with
          | lock l => exact Nat.succ_pos _
          | drain l => exact Nat.succ_pos _
          | rLock l => exact Nat.succ_pos _
          | unlock l => cases hunone
          | rUnlock l => cases hunone
          | _ => cases hop
    | receive => exact absurd (.inr ⟨ops, rfl⟩) hwaits

/-- **Where no thread can go on, nothing is left to do.**

**Proof sketch.** Of the threads that wait, take one of the highest level (`exists_higher`): there
is none. So all have ended or come back to receive, none holds a lock, and an item would be
received. -/
theorem quiet_of_stuck (hcap : 0 < cap) {c : Config (Shared ι α) (Thread ι α)}
    (h : Orderly rank c) (hstuck : Stuck cap body c) : Quiet c := by
  classical
  have hidle : ∀ t ∈ c.threads, t.Idle := by
    by_contra hnot
    push Not at hnot
    obtain ⟨t, ht, hwaits⟩ := hnot
    have hmem : t ∈ c.threads.filter fun t => ¬ t.Idle := by simp [ht, hwaits]
    obtain ⟨m, hm⟩ : ∃ m, m ∈ (c.threads.filter fun t => ¬ t.Idle).argmax (Thread.level rank) :=
      Option.ne_none_iff_exists'.mp fun hnone => by
        rw [List.argmax_eq_none.mp hnone] at hmem
        cases hmem
    obtain ⟨hmthreads, hmwaits⟩ := List.mem_filter.mp (List.argmax_mem hm)
    obtain ⟨u, hu, huwaits, hlt⟩ := exists_higher hcap h hstuck hmthreads (by simpa using hmwaits)
    have hle := List.le_of_mem_argmax (List.mem_filter.mpr ⟨hu, by simpa using huwaits⟩) hm
    exact absurd hlt (not_lt.mpr hle)
  have hheld : ∀ t ∈ c.threads, t.held = [] := by
    intro t ht
    have hd := h.disciplined t ht
    rcases hidle t ht with hnil | ⟨ops, hops⟩
    · rwa [hnil] at hd
    · rw [hops] at hd
      exact hd.1
  refine ⟨hidle, ?_, ?_⟩
  · by_contra hne
    obtain ⟨k, hk⟩ := List.exists_mem_of_ne_nil _ hne
    obtain ⟨t, ht, hkt⟩ := h.exists_holder hk
    rw [hheld t ht] at hkt
    cases hkt
  · obtain ⟨u, hu, pre, hops, hplain⟩ := h.served
    have hunone := hstuck.next_eq_none hu
    cases pre with
    | nil =>
      simp only [List.nil_append] at hops
      by_contra hne
      obtain ⟨a, buffer, hbuffer⟩ := List.exists_cons_of_ne_nil hne
      simp [next, hops, hbuffer] at hunone
    | cons op pre =>
      rcases hidle u hu with hnil | ⟨ops, hrest⟩
      · rw [hops] at hnil
        cases hnil
      · rw [hops] at hrest
        have hop := hplain op List.mem_cons_self
        rw [(List.cons.inj hrest).1] at hop
        cases hop

end Invariant

/-! ### How long the threads go on -/

section Work

variable (body : α → List (Op ι α))

/-- The steps that an item takes, once it is received. -/
def itemWork (a : α) : ℕ :=
  ((body a).map fun op : Op ι α => match op with | .lock _ => 2 | _ => 1).sum

/-- The steps that are left, with those that an item will take. -/
def Op.work : Op ι α → ℕ
  | .lock _ => 2
  | .send a => itemWork body a + 2
  | .receive => 0
  | _ => 1

/-- The steps that a thread has left. -/
def Thread.work (t : Thread ι α) : ℕ := (t.ops.map (Op.work body)).sum

/-- The steps that the items in the channel will take. -/
def Shared.work (s : Shared ι α) : ℕ := (s.buffer.map fun a => itemWork body a + 1).sum

/-- What is left to do. -/
def work (c : Config (Shared ι α) (Thread ι α)) : ℕ :=
  c.ledger (Shared.work body) (Thread.work body)

variable {body} [DecidableEq ι] {rank : ι → ℕ} {cap : ℕ}

/-- What is to be done for an item is work. -/
lemma sum_work_body (hbody : Serving rank body) (a : α) :
    ((body a).map (Op.work body)).sum = itemWork body a := by
  refine congrArg List.sum (List.map_congr_left fun op hop => ?_)
  have hplain := hbody.plain a op hop
  cases op with
  | tryLock l => cases hplain
  | send b => cases hplain
  | receive => cases hplain
  | _ => rfl

/-- **Every section does some of the work.** -/
lemma section_work (hbody : Serving rank body) {s s' : Shared ι α} {t t' : Thread ι α}
    (hsec : Section body s t s' t') : s'.work body + t'.work body < s.work body + t.work body := by
  cases hsec with
  | receive hbuffer =>
    simp only [Shared.work, Thread.work, hbuffer, List.map_cons, List.sum_cons, List.map_append,
      List.sum_append, sum_work_body hbody, Op.work]
    omega
  | send =>
    simp only [Shared.work, Thread.work, List.map_cons, List.sum_cons, List.map_append,
      List.sum_append, List.map_nil, List.sum_nil, Op.work]
    omega
  | _ =>
    simp only [Shared.work, Thread.work, List.map_cons, List.sum_cons, List.map_nil, List.sum_nil,
      Op.work]
    omega

/-- Every step of a thread leaves less to do. -/
lemma step_work (hbody : Serving rank body) {c c' : Config (Shared ι α) (Thread ι α)} {i : ℕ}
    (hstep : (program cap body).step c (.step i ()) = some c') : work body c' < work body c := by
  obtain ⟨t, s', t', new, ht, hn, rfl⟩ := Program.step_section.mp hstep
  obtain ⟨hnext, rfl⟩ := program_next.mp hn
  have hsec := section_work hbody (next_cases hnext)
  have hledger := Interleaving.ledger_section (Shared.work body) (Thread.work body) s' t' [] ht
  simp only [work, List.map_nil, List.sum_nil] at hledger ⊢
  omega

/-- The threads go on in some order. -/
def schedule (is : List ℕ) : List (Move (Thread ι α) Unit) := is.map fun i => .step i ()

/-- **The threads go on as often as there is work, at most.** -/
theorem length_le_work (hbody : Serving rank body) : ∀ {c c' : Config (Shared ι α) (Thread ι α)}
    {is : List ℕ}, Runs.run (program cap body).step c (schedule is) = some c' →
      is.length + work body c' ≤ work body c
  | c, c', [], hrun => by
    obtain rfl : c = c' := by simpa [schedule] using hrun
    simp
  | c, c', i :: is, hrun => by
    obtain ⟨c₁, hstep, hrun⟩ := Runs.run_cons_eq_some.mp hrun
    have hlt := step_work hbody hstep
    have hle := length_le_work hbody hrun
    rw [List.length_cons]
    omega

/-- The invariant is kept while every thread that arrives takes the locks in their order. -/
lemma Orderly.of_run (hbody : Serving rank body) {c c' : Config (Shared ι α) (Thread ι α)}
    {events : List (Move (Thread ι α) Unit)} (h : Orderly rank c)
    (harrive : ∀ t, .arrive t ∈ events → Disciplined rank [] t.ops)
    (hrun : Runs.run (program cap body).step c events = some c') : Orderly rank c' := by
  have hstep : ∀ c m c', Orderly rank c → (∀ t, m = .arrive t → Disciplined rank [] t.ops) →
      (program cap body).step c m = some c' → Orderly rank c' :=
    fun _ _ _ hI hok hstep => step_orderly hbody hI hok hstep
  exact Runs.invariant_of_along hstep h
    (Runs.along_of_forall fun m hm t hmt => harrive t (hmt ▸ hm)) hrun

/-- The invariant is kept in whichever order the threads go on. -/
lemma Orderly.of_schedule (hbody : Serving rank body) {c c' : Config (Shared ι α) (Thread ι α)}
    {is : List ℕ} (h : Orderly rank c)
    (hrun : Runs.run (program cap body).step c (schedule is) = some c') : Orderly rank c' := by
  refine h.of_run hbody (fun t ht => ?_) hrun
  obtain ⟨i, -, hmove⟩ := List.mem_map.mp ht
  cases hmove

/-- **The threads can go on until nothing is left to do.** -/
theorem exists_quiet (hcap : 0 < cap) (hbody : Serving rank body)
    {c : Config (Shared ι α) (Thread ι α)} (h : Orderly rank c) :
    ∃ is c', Runs.run (program cap body).step c (schedule is) = some c' ∧ Quiet c' := by
  induction hn : work body c using Nat.strong_induction_on generalizing c with
  | _ n ih =>
    by_cases hstuck : Stuck cap body c
    · exact ⟨[], c, rfl, quiet_of_stuck hcap h hstuck⟩
    · obtain ⟨i, hi⟩ := not_forall.mp hstuck
      obtain ⟨c₁, hstep⟩ := Option.ne_none_iff_exists'.mp hi
      have hlt := step_work hbody hstep
      have h₁ := step_orderly hbody h (fun t ht => by cases ht) hstep
      obtain ⟨is, c', hrun, hquiet⟩ := ih _ (hn ▸ hlt) h₁ rfl
      exact ⟨i :: is, c', Runs.run_cons_eq_some.mpr ⟨c₁, hstep, hrun⟩, hquiet⟩

end Work

end LockOrder
