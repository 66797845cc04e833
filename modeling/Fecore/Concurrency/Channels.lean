import Mathlib.Data.List.Perm.Basic
import Mathlib.Tactic.Common
import Fecore.Concurrency.Interleaving

set_option relaxedAutoImplicit false
set_option autoImplicit false

/-!
# Bounded channels

Many senders write to one channel, whose buffer has a capacity; a sender waits while the buffer is
full. One receiver takes what has been sent into a state of its own; some items keep it at work for
a while. Others may change that state, too, but not the channel; a change that breaks the work on an
item is the end of all.

## Main definitions

* `Channels.Merge` — a list is put together from others, each in its order.
* `Channels.Effects` — what the items and the changes do to the state.
* `Channels.Link`, `Channels.Party`, `Channels.program` — the channel, its parties and their steps.
* `Channels.Undisturbed` — a step that does not break the work on an item.
* `Channels.Sound` — nothing is lost, repeated or overtaken.

## Main results

* `Channels.Merge.perm`, `Channels.Merge.filter` — merges of lists.
* `Channels.sound_of_run` — the channel is sound after every run.
* `Channels.drains` — from everywhere the senders can come to their ends and the buffer can be
  emptied.
-/

namespace Channels

open Interleaving

/-! ### Merges -/

/-- **A list is a merge** of others: it has been put together by adding one item at a time to its
end and to the end of one of the others. -/
inductive Merge {α : Type*} : List (List α) → List α → Prop
  | nil : Merge [] []
  | new {ls : List (List α)} {l : List α} (h : Merge ls l) : Merge (ls ++ [[]]) l
  | snoc {ls : List (List α)} {l xs : List α} {i : ℕ} (h : Merge ls l) (hi : ls[i]? = some xs)
      (a : α) : Merge (ls.set i (xs ++ [a])) (l ++ [a])

namespace Merge

variable {α β : Type*} {ls : List (List α)} {l xs : List α}

/-- One of several lists grows. -/
lemma flatten_set_perm (a : α) : ∀ {ls : List (List α)} {i : ℕ} {xs : List α}, ls[i]? = some xs →
    (ls.set i (xs ++ [a])).flatten.Perm (ls.flatten ++ [a])
  | [], _, _, hi => by simp at hi
  | ys :: ls, 0, xs, hi => by
    obtain rfl : ys = xs := by simpa using hi
    rw [List.set_cons_zero, List.flatten_cons, List.flatten_cons, List.append_assoc,
      List.append_assoc]
    exact List.perm_append_comm.append_left ys
  | ys :: ls, i + 1, xs, hi => by
    rw [List.set_cons_succ, List.flatten_cons, List.flatten_cons, List.append_assoc]
    exact (flatten_set_perm a (by simpa using hi)).append_left ys

/-- **A merge has the items of all lists**, as often as they have them together. -/
theorem perm (h : Merge ls l) : l.Perm ls.flatten := by
  induction h with
  | nil => exact .refl _
  | new _ ih => simpa using ih
  | snoc _ hi a ih => exact (ih.append_right [a]).trans (flatten_set_perm a hi).symm

/-- What is picked out of a merge is a merge of what is picked out of the lists. -/
theorem filter (p : α → Bool) (h : Merge ls l) : Merge (ls.map (List.filter p)) (l.filter p) := by
  induction h with
  | nil => exact .nil
  | new _ ih => simpa using ih.new
  | @snoc ls l xs i _ hi a ih =>
    have hi' : (ls.map (List.filter p))[i]? = some (xs.filter p) := by simp [hi]
    rw [List.map_set, List.filter_append, List.filter_append]
    by_cases ha : p a = true
    · rw [List.filter_cons_of_pos ha, List.filter_nil]
      exact ih.snoc hi' a
    · rw [List.filter_cons_of_neg ha, List.filter_nil, List.append_nil, List.append_nil]
      have hsame : (ls.map (List.filter p)).set i (xs.filter p) = ls.map (List.filter p) := by
        obtain ⟨hlt, heq⟩ := List.getElem?_eq_some_iff.mp hi'
        rw [← heq, List.set_getElem_self]
      rwa [hsame]

/-- The sum of a quantity over a merge is that over all lists. -/
lemma sum_map {M : Type*} [AddCommMonoid M] (h : Merge ls l) (f : α → M) :
    (l.map f).sum = (ls.map fun xs => (xs.map f).sum).sum := by
  rw [(h.perm.map f).sum_eq, List.map_flatten, List.sum_flatten, List.map_map]
  rfl

/-- A merge has as many elements as the lists together. -/
lemma length_eq (h : Merge ls l) : l.length = (ls.map List.length).sum := by
  rw [h.perm.length_eq, List.length_flatten]

end Merge

/-! ### The channel and its parties -/

section Program

variable {α β σ : Type*}

/-- What an item or a change does to the state; whether an item keeps the receiver at work; and
whether a change breaks the work on an item. -/
structure Effects (α β σ : Type*) where
  apply : σ → α ⊕ β → σ
  works : σ → α → Bool
  breaks : α → β → Bool

/-- A channel with its buffer, the item the receiver works on, all that has been sent, and the state
of the receiver, with all that it is done with and all that others have done to the state. -/
structure Link (α β σ : Type*) where
  alive : Bool := true
  buffer : List α := []
  hand : Option α := none
  sent : List α := []
  log : List (α ⊕ β) := []
  state : σ

/-- A sender, with what it has sent and what is left; the receiver; or another who changes the
state once. -/
inductive Party (α β : Type*)
  | sender (sent left : List α)
  | receiver
  | outside (change : Option β)

/-- What has been received. -/
def received (log : List (α ⊕ β)) : List α := log.filterMap Sum.getLeft?

/-- What others have done to the state. -/
def changes (log : List (α ⊕ β)) : List β := log.filterMap Sum.getRight?

/-- What a party has sent. -/
def Party.sentBy : Party α β → List α
  | .sender sent _ => sent
  | _ => []

/-- All that a party has sent or is going to send. -/
def Party.all : Party α β → List α
  | .sender sent left => sent ++ left
  | _ => []

/-- The change that a party is going to make. -/
def Party.toChange : Party α β → Option β
  | .outside change => change
  | _ => none

/-- A step of the receiver: it is done with the item that it works on, or it takes one from the
buffer, with which it may be done at once. -/
def Link.receive (effects : Effects α β σ) (s : Link α β σ) : Option (Link α β σ) :=
  match s.hand, s.buffer with
  | some a, _ =>
    some { s with
      hand := none, log := s.log ++ [.inl a], state := effects.apply s.state (.inl a) }
  | none, [] => none
  | none, a :: buffer =>
    if effects.works s.state a then some { s with buffer := buffer, hand := some a }
    else
      some { s with
        buffer := buffer, log := s.log ++ [.inl a], state := effects.apply s.state (.inl a) }

/-- A change of the state from outside, which may break what the receiver works on. -/
def Link.change (effects : Effects α β σ) (s : Link α β σ) (b : β) : Link α β σ :=
  if s.hand.any (effects.breaks · b) then { s with alive := false }
  else { s with log := s.log ++ [.inr b], state := effects.apply s.state (.inr b) }

/-- A step of a party: a send waits while the buffer is full, and there are none after a change that
broke something. -/
def Party.next (cap : ℕ) (effects : Effects α β σ) (s : Link α β σ) (t : Party α β) :
    Option (Link α β σ × Party α β) :=
  if s.alive then
    match t with
    | .sender sent (a :: left) =>
      if s.buffer.length < cap then
        some ({ s with buffer := s.buffer ++ [a], sent := s.sent ++ [a] },
          .sender (sent ++ [a]) left)
      else none
    | .sender _ [] => none
    | .receiver => (s.receive effects).map fun s => (s, .receiver)
    | .outside (some b) => some (s.change effects b, .outside none)
    | .outside none => none
  else none

/-- The channel with its parties; senders and others arrive at any time. -/
def program (cap : ℕ) (effects : Effects α β σ) : Program (Link α β σ) (Party α β) Unit where
  entry
    | .sender sent _ => sent.isEmpty
    | .receiver => false
    | .outside change => change.isSome
  next s t _ := (t.next cap effects s).map fun r => (r.1, r.2, [])

/-- The channel before anything has been sent, with its receiver. -/
def start (init : σ) : Config (Link α β σ) (Party α β) := ⟨{ state := init }, [.receiver]⟩

/-- **A step does not break anything**: it is no change that breaks the work on an item. -/
def Undisturbed (effects : Effects α β σ) (c : Config (Link α β σ) (Party α β)) :
    Move (Party α β) Unit → Prop
  | .arrive _ => True
  | .step i _ => ∀ b ∈ (c.threads[i]?).bind Party.toChange,
      c.shared.hand.any (effects.breaks · b) = false

variable {cap : ℕ} {effects : Effects α β σ} {init : σ} {c c' : Config (Link α β σ) (Party α β)}

/-- What is received in one part and then in another. -/
@[simp] lemma received_append (l l' : List (α ⊕ β)) :
    received (l ++ l') = received l ++ received l' := List.filterMap_append

/-- The changes in one part and then in another. -/
@[simp] lemma changes_append (l l' : List (α ⊕ β)) :
    changes (l ++ l') = changes l ++ changes l' := List.filterMap_append

/-- A receipt is one. -/
@[simp] lemma received_inl (a : α) : received [(.inl a : α ⊕ β)] = [a] := rfl

/-- A change is no receipt. -/
@[simp] lemma received_inr (b : β) : received [(.inr b : α ⊕ β)] = [] := rfl

/-- A receipt is no change. -/
@[simp] lemma changes_inl (a : α) : changes [(.inl a : α ⊕ β)] = [] := rfl

/-- A change is one. -/
@[simp] lemma changes_inr (b : β) : changes [(.inr b : α ⊕ β)] = [b] := rfl

/-- Whether a move is undisturbed is read off the change that it makes, if any. -/
instance decidableUndisturbed (effects : Effects α β σ) (c : Config (Link α β σ) (Party α β)) :
    ∀ m, Decidable (Undisturbed effects c m)
  | .arrive _ => .isTrue trivial
  | .step i _ => inferInstanceAs (Decidable (∀ b ∈ (c.threads[i]?).bind Party.toChange,
      c.shared.hand.any (effects.breaks · b) = false))

/-! ### Soundness -/

/-- What has been sent and the receiver is not yet done with. -/
def Link.pending (s : Link α β σ) : List α := s.hand.toList ++ s.buffer

/-- **The channel is sound**: what has been sent is a merge of what the senders have sent; it is
what the receiver is done with, in the same order, with what it works on and what is in the buffer;
the buffer is within its capacity; and the state has come from what has been received and done. -/
structure Sound (cap : ℕ) (effects : Effects α β σ) (init : σ)
    (c : Config (Link α β σ) (Party α β)) : Prop where
  alive : c.shared.alive = true
  merge : Merge (c.threads.map Party.sentBy) c.shared.sent
  order : c.shared.sent = received c.shared.log ++ c.shared.pending
  bounded : c.shared.buffer.length ≤ cap
  state : c.shared.state = c.shared.log.foldl effects.apply init
  receiver : c.threads[0]? = some .receiver

/-- At the start nothing has been sent. -/
lemma sound_start (cap : ℕ) (effects : Effects α β σ) (init : σ) :
    Sound cap effects init (start init) where
  alive := rfl
  merge := Merge.nil.new
  order := rfl
  bounded := Nat.zero_le _
  state := rfl
  receiver := rfl

/-- Replacing a party by one of the same measure. -/
lemma map_set_of_eq {γ : Type*} (f : Party α β → γ) {ts : List (Party α β)} {i : ℕ}
    {t t' : Party α β} (ht : ts[i]? = some t) (heq : f t' = f t) :
    (ts.set i t').map f = ts.map f := by
  obtain ⟨hlt, rfl⟩ := List.getElem?_eq_some_iff.mp ht
  rw [List.map_set, heq, ← List.getElem_map f (h := by simpa using hlt), List.set_getElem_self]

/-- **What the receiver does**: it takes an item to work on, or it is done with the first of those
that it has not been done with.

**Proof sketch.** Case split on the item in the hand, on the buffer and on whether the first item is
worked on. -/
lemma Link.receive_cases {s s' : Link α β σ} (h : s.receive effects = some s') :
    (∃ a buffer, s.hand = none ∧ s.buffer = a :: buffer ∧
      s' = { s with buffer := buffer, hand := some a }) ∨
    ∃ a buffer, s.pending = a :: buffer ∧ buffer.length ≤ s.buffer.length ∧
      s' = { s with
        hand := none, buffer := buffer, log := s.log ++ [.inl a],
        state := effects.apply s.state (.inl a) } := by
  obtain ⟨alive, buffer, hand, sent, log, state⟩ := s
  cases hand with
  | some a =>
    cases h
    exact .inr ⟨a, buffer, rfl, le_rfl, rfl⟩
  | none =>
    cases buffer with
    | nil => cases h
    | cons a buffer =>
      by_cases hworks : effects.works state a = true
      · simp only [Link.receive, if_pos hworks] at h
        cases h
        exact .inl ⟨a, buffer, rfl, rfl, rfl⟩
      · simp only [Link.receive, if_neg hworks] at h
        cases h
        exact .inr ⟨a, buffer, rfl, Nat.le_succ _, rfl⟩

/-- **What a step does**: a sender sends one item, the receiver goes on, or another changes the
state.

**Proof sketch.** Nothing is done once the link is dead. Otherwise case split on the party: a sender
needs an item and room in the buffer, the receiver steps as `Link.receive`, and another has its
change. -/
lemma next_cases {s s' : Link α β σ} {t t' : Party α β}
    (h : t.next cap effects s = some (s', t')) : s.alive = true ∧
    ((∃ sent left a, t = .sender sent (a :: left) ∧ s.buffer.length < cap ∧
      t' = .sender (sent ++ [a]) left ∧
      s' = { s with buffer := s.buffer ++ [a], sent := s.sent ++ [a] }) ∨
    (t = .receiver ∧ t' = .receiver ∧ s.receive effects = some s') ∨
    ∃ b, t = .outside (some b) ∧ t' = .outside none ∧ s' = s.change effects b) := by
  by_cases halive : s.alive = true
  · refine ⟨halive, ?_⟩
    simp only [Party.next, if_pos halive] at h
    cases t with
    | sender sent left =>
      cases left with
      | nil => cases h
      | cons a left =>
        by_cases hlt : s.buffer.length < cap
        · simp only [if_pos hlt] at h
          cases h
          exact .inl ⟨sent, left, a, rfl, hlt, rfl, rfl⟩
        · simp only [if_neg hlt] at h
          cases h
    | receiver =>
      obtain ⟨s₁, hs₁, heq⟩ := Option.map_eq_some_iff.mp h
      cases heq
      exact .inr (.inl ⟨rfl, rfl, hs₁⟩)
    | outside change =>
      cases change with
      | none => cases h
      | some b =>
        cases h
        exact .inr (.inr ⟨b, rfl, rfl, rfl⟩)
  · simp only [Party.next, if_neg halive] at h
    cases h

/-- What a party says in all stays the same. -/
lemma all_of_next {s s' : Link α β σ} {t t' : Party α β}
    (h : t.next cap effects s = some (s', t')) : t'.all = t.all := by
  obtain ⟨-, ⟨sent, left, a, rfl, -, rfl, -⟩ | ⟨rfl, rfl, -⟩ | ⟨b, rfl, rfl, -⟩⟩ := next_cases h
  · simp [Party.all]
  · rfl
  · rfl

/-- **A step of the receiver** leaves what has been sent, in its order.

**Proof sketch.** Case split with `Link.receive_cases`: a value moves from the buffer to the hand,
and the sequence of what is pending stays the same, or the value in the hand is done with and moves
to the log. -/
lemma Link.receive_sound {s s' : Link α β σ} (horder : s.sent = received s.log ++ s.pending)
    (hbounded : s.buffer.length ≤ cap) (hstate : s.state = s.log.foldl effects.apply init)
    (h : s.receive effects = some s') :
    s'.alive = s.alive ∧ s'.sent = s.sent ∧ s'.sent = received s'.log ++ s'.pending ∧
      s'.buffer.length ≤ cap ∧ s'.state = s'.log.foldl effects.apply init := by
  obtain ⟨a, buffer, hhand, hbuffer, rfl⟩ | ⟨a, buffer, hpending, hle, rfl⟩ :=
    Link.receive_cases h
  · refine ⟨rfl, rfl, ?_, ?_, hstate⟩
    · have hsame : s.pending = a :: buffer := by rw [pending, hhand, hbuffer]; rfl
      rw [hsame] at horder
      exact horder
    · rw [hbuffer] at hbounded
      exact Nat.le_of_succ_le hbounded
  · refine ⟨rfl, rfl, ?_, hle.trans hbounded, ?_⟩
    · rw [hpending] at horder
      simpa [pending] using horder
    · rw [List.foldl_append, ← hstate]
      rfl

/-- **A step that breaks nothing keeps the channel sound.**

**Proof sketch.** A new party has sent nothing. A send adds the item to the ends of what its sender
has sent, of what has been sent and of the buffer; the receiver moves the first item on; and a
change of the state that breaks nothing is the last event of the log. -/
theorem Sound.step {m : Move (Party α β) Unit} (h : Sound cap effects init c)
    (hquiet : Undisturbed effects c m) (hstep : (program cap effects).step c m = some c') :
    Sound cap effects init c' := by
  obtain ⟨t, rfl, hent, rfl⟩ | ⟨i, e, t, s', t', new, rfl, ht, hn, rfl⟩ := Program.step_cases hstep
  · refine ⟨h.alive, ?_, h.order, h.bounded, h.state, ?_⟩
    · have hnone : Party.sentBy t = [] := by
        cases t with
        | sender sent left => exact List.isEmpty_iff.mp hent
        | receiver => rfl
        | outside change => rfl
      rw [List.map_append, List.map_singleton, hnone]
      exact h.merge.new
    · rw [List.getElem?_append_left (List.getElem?_eq_some_iff.mp h.receiver).1]
      exact h.receiver
  · obtain ⟨r, hr, heq⟩ := Option.map_eq_some_iff.mp hn
    cases heq
    rw [List.append_nil]
    have hreceiver : (t = .receiver → r.2 = .receiver) →
        (c.threads.set i r.2)[0]? = some .receiver := by
      intro hkeep
      by_cases hi : i = 0
      · subst hi
        have hmine : t = .receiver := Option.some.inj (ht.symm.trans h.receiver)
        have hlt := (List.getElem?_eq_some_iff.mp ht).1
        rw [List.getElem?_set_self hlt, hkeep hmine]
      · rw [List.getElem?_set_ne hi]
        exact h.receiver
    obtain ⟨s', t'⟩ := r
    obtain ⟨-, ⟨sent, left, a, rfl, hlt, rfl, rfl⟩ | ⟨rfl, rfl, hreceive⟩ | ⟨b, rfl, rfl, rfl⟩⟩ :=
      next_cases hr
    · refine ⟨h.alive, ?_, ?_, ?_, h.state, hreceiver fun heq => by cases heq⟩
      · have hi : (c.threads.map Party.sentBy)[i]? = some sent := by simp [ht, Party.sentBy]
        rw [List.map_set]
        exact h.merge.snoc hi a
      · have horder := congrArg (· ++ [a]) h.order
        simpa [Link.pending] using horder
      · rw [List.length_append]
        exact hlt
    · have hsame := map_set_of_eq Party.sentBy ht (rfl : Party.sentBy Party.receiver = _)
      obtain ⟨halive, hsent, horder, hbounded, hstate⟩ :=
        Link.receive_sound h.order h.bounded h.state hreceive
      refine ⟨halive.trans h.alive, ?_, horder, hbounded, hstate, hreceiver fun _ => rfl⟩
      dsimp only
      rw [hsame, hsent]
      exact h.merge
    · have hfree : c.shared.hand.any (effects.breaks · b) = false :=
        hquiet b (by simp [ht, Party.toChange])
      have hchange : c.shared.change effects b =
          { c.shared with
            log := c.shared.log ++ [.inr b], state := effects.apply c.shared.state (.inr b) } := by
        rw [Link.change, if_neg (by rw [hfree]; exact Bool.false_ne_true)]
      rw [hchange]
      refine ⟨h.alive, ?_, ?_, h.bounded, ?_, hreceiver fun heq => by cases heq⟩
      · have hsame := map_set_of_eq Party.sentBy ht (rfl : Party.sentBy (Party.outside none) = _)
        dsimp only
        rw [hsame]
        exact h.merge
      · simpa [Link.pending] using h.order
      · rw [List.foldl_append, ← h.state]
        rfl

/-- **The channel is sound after every run** in which no change breaks anything. -/
theorem sound_of_run {ms : List (Move (Party α β) Unit)}
    (hquiet : Runs.Along (program cap effects).step (Undisturbed effects) (start init) ms)
    (hrun : Runs.run (program cap effects).step (start init) ms = some c) :
    Sound cap effects init c :=
  Runs.invariant_of_along (fun _ _ _ h hok hstep => h.step hok hstep) (sound_start cap effects init)
    hquiet hrun

/-! ### Progress -/

/-- What is left to be sent and to be received. -/
def toDo (c : Config (Link α β σ) (Party α β)) : ℕ :=
  c.ledger (fun s => 2 * s.buffer.length + s.hand.toList.length) fun t =>
    3 * (t.all.length - t.sentBy.length)

/-- A state that steps of the senders and the receiver lead to. -/
structure Ahead (cap : ℕ) (effects : Effects α β σ) (init : σ)
    (c c' : Config (Link α β σ) (Party α β)) : Prop where
  sound : Sound cap effects init c'
  all : c'.threads.map Party.all = c.threads.map Party.all
  log : ∃ more : List α, c'.shared.log = c.shared.log ++ more.map .inl

/-- The receiver can go on while something is pending. -/
lemma Link.exists_receive {s : Link α β σ} (effects : Effects α β σ) (h : s.pending ≠ []) :
    ∃ s', s.receive effects = some s' := by
  obtain ⟨alive, buffer, hand, sent, log, state⟩ := s
  cases hand with
  | some a => exact ⟨_, rfl⟩
  | none =>
    cases buffer with
    | nil => exact absurd rfl h
    | cons a buffer =>
      by_cases hworks : effects.works state a = true
      · exact ⟨_, by simp only [Link.receive, if_pos hworks]; rfl⟩
      · exact ⟨_, by simp only [Link.receive, if_neg hworks]; rfl⟩

/-- A step of a party that makes no change breaks nothing. -/
lemma undisturbed_of_toChange {i : ℕ} {t : Party α β} (hi : c.threads[i]? = some t)
    (ht : t.toChange = none) : Undisturbed effects c (.step i ()) := by
  intro b hb
  rw [hi, Option.bind_some, ht] at hb
  cases hb

/-- The receiver goes on with what is pending.

**Proof sketch.** With something pending the receiver has a step (`Link.exists_receive`), which
takes an item out of the buffer into the hand or out of the hand into the log; either lowers what is
left to do. -/
lemma Ahead.receive {c₀ : Config (Link α β σ) (Party α β)} (h : Ahead cap effects init c₀ c)
    (hpending : c.shared.pending ≠ []) :
    ∃ c', (program cap effects).step c (.step 0 ()) = some c' ∧ Ahead cap effects init c₀ c' ∧
      toDo c' < toDo c := by
  obtain ⟨s', hs'⟩ := Link.exists_receive effects hpending
  have hn : (program cap effects).next c.shared .receiver () = some (s', .receiver, []) := by
    simp only [program, Party.next, if_pos h.sound.alive, hs', Option.map_some]
  have hsame : c.threads.set 0 .receiver = c.threads := by
    obtain ⟨hlt, heq⟩ := List.getElem?_eq_some_iff.mp h.sound.receiver
    rw [← heq, List.set_getElem_self]
  have hstep : (program cap effects).step c (.step 0 ()) = some ⟨s', c.threads⟩ :=
    Program.step_section.mpr ⟨_, _, _, _, h.sound.receiver, hn, by rw [hsame, List.append_nil]⟩
  have hsound := h.sound.step (undisturbed_of_toChange h.sound.receiver rfl) hstep
  obtain ⟨more, hmore⟩ := h.log
  refine ⟨_, hstep, ?_⟩
  obtain ⟨a, buffer, hhand, hbuffer, rfl⟩ | ⟨a, buffer, hpending, -, rfl⟩ :=
    Link.receive_cases hs'
  · refine ⟨⟨hsound, h.all, more, hmore⟩, ?_⟩
    simp only [toDo, Config.ledger, hhand, hbuffer, List.length_cons, Option.toList_some,
      Option.toList_none, List.length_nil]
    omega
  · refine ⟨⟨hsound, h.all, more ++ [a], ?_⟩, ?_⟩
    · dsimp only
      rw [hmore, List.map_append, List.append_assoc]
      rfl
    · have hlength := congrArg List.length hpending
      simp only [Link.pending, List.length_append, List.length_cons] at hlength
      have hhand : c.shared.hand.toList.length ≤ 1 := by cases c.shared.hand <;> simp
      simp only [toDo, Config.ledger, Option.toList_none, List.length_nil]
      omega

/-- A sender sends while nothing is pending.

**Proof sketch.** With nothing pending there is room in the buffer. The item costs three units with
its sender and two in the buffer. -/
lemma Ahead.send {c₀ : Config (Link α β σ) (Party α β)} (hcap : 0 < cap)
    (h : Ahead cap effects init c₀ c) (hpending : c.shared.pending = []) {i : ℕ}
    {sent left : List α} {a : α} (hi : c.threads[i]? = some (.sender sent (a :: left))) :
    ∃ c', (program cap effects).step c (.step i ()) = some c' ∧ Ahead cap effects init c₀ c' ∧
      toDo c' < toDo c := by
  obtain ⟨-, hbuffer⟩ := List.append_eq_nil_iff.mp hpending
  have hn : (program cap effects).next c.shared (.sender sent (a :: left)) () = some
      ({ c.shared with buffer := c.shared.buffer ++ [a], sent := c.shared.sent ++ [a] },
        .sender (sent ++ [a]) left, []) := by
    have hlt : c.shared.buffer.length < cap := by rwa [hbuffer]
    simp only [program, Party.next, if_pos h.sound.alive, if_pos hlt, Option.map_some]
  have hstep := Program.step_section.mpr ⟨_, _, _, _, hi, hn, rfl⟩
  have hsound := h.sound.step (undisturbed_of_toChange hi rfl) hstep
  refine ⟨_, hstep, ⟨hsound, ?_, h.log⟩, ?_⟩
  · rw [List.append_nil, map_set_of_eq _ hi (by simp [Party.all])]
    exact h.all
  · have hsum := sum_map_set_add (fun t : Party α β => 3 * (t.all.length - t.sentBy.length))
      (Party.sender (sent ++ [a]) left) hi
    simp only [Party.all, Party.sentBy, List.length_append, List.length_cons, List.length_nil]
      at hsum
    simp only [toDo, Config.ledger, hbuffer, List.append_nil, List.nil_append, List.length_cons,
      List.length_nil]
    simp only [Party.all, Party.sentBy]
    omega

/-- When no sender has anything left, all has been sent. -/
lemma sentBy_eq_all {ts : List (Party α β)}
    (h : ∀ (i : ℕ) sent a left, ts[i]? ≠ some (Party.sender sent (a :: left))) :
    ts.map Party.sentBy = ts.map Party.all := by
  refine List.map_congr_left fun t ht => ?_
  obtain ⟨i, hi⟩ := List.mem_iff_getElem?.mp ht
  cases t with
  | sender sent left =>
    cases left with
    | nil => exact (List.append_nil sent).symm
    | cons a left => exact absurd hi (h i sent a left)
  | receiver => rfl
  | outside change => rfl

/-- **The channel drains**: from everywhere, steps of the senders and the receiver alone lead to
where all has been sent and nothing is pending.

**Proof sketch.** While something is pending the receiver can go on, and while nothing is there is
room for a sender that has something left; each of these steps makes less of what is left to do. -/
theorem drains (hcap : 0 < cap) (h : Sound cap effects init c) :
    ∃ ms c', (∀ m ∈ ms, ∃ i, m = .step i ()) ∧
      Runs.run (program cap effects).step c ms = some c' ∧ Ahead cap effects init c c' ∧
      c'.shared.pending = [] ∧ c'.threads.map Party.sentBy = c.threads.map Party.all := by
  have hprogress : ∀ d : Config (Link α β σ) (Party α β), Ahead cap effects init c d →
      ¬ (Ahead cap effects init c d ∧ d.shared.pending = [] ∧
        d.threads.map Party.sentBy = c.threads.map Party.all) →
        ∃ m d', (∃ i, m = Move.step i ()) ∧ (program cap effects).step d m = some d' ∧
          Ahead cap effects init c d' ∧ toDo d' < toDo d := by
    intro d hd hgoal
    by_cases hpending : d.shared.pending = []
    · have hleft : ¬ ∀ (i : ℕ) sent a left,
          d.threads[i]? ≠ some (Party.sender sent (a :: left)) :=
        fun hall => hgoal ⟨hd, hpending, (sentBy_eq_all hall).trans hd.all⟩
      push Not at hleft
      obtain ⟨i, sent, a, left, hi⟩ := hleft
      obtain ⟨d', hstep, hd', hlt⟩ := hd.send hcap hpending hi
      exact ⟨_, d', ⟨i, rfl⟩, hstep, hd', hlt⟩
    · obtain ⟨d', hstep, hd', hlt⟩ := hd.receive hpending
      exact ⟨_, d', ⟨0, rfl⟩, hstep, hd', hlt⟩
  obtain ⟨ms, c', hms, hrun, hc'⟩ :=
    Runs.exists_run_to toDo hprogress ⟨h, rfl, [], (List.append_nil _).symm⟩
  exact ⟨ms, c', hms, hrun, hc'⟩

/-- What all parties are going to send is what those say who have arrived.

**Proof sketch.** An invariant of the run: a party that arrives has the property by assumption, and
a section of a party does not change all that it sends (`all_of_next`). -/
lemma all_of_run {P : List α → Prop} (hnil : P []) {ms : List (Move (Party α β) Unit)}
    (harrivals : ∀ t, .arrive t ∈ ms → P t.all)
    (hrun : Runs.run (program cap effects).step (start init) ms = some c) :
    ∀ t ∈ c.threads, P t.all := by
  have hinv : c.All fun _ t => P t.all := by
    have halong : Runs.Along (program cap effects).step (fun _ m => ∀ t, m = .arrive t → P t.all)
        (start init) ms := Runs.along_of_forall fun m hm t heq => harrivals t (heq ▸ hm)
    refine Runs.invariant_of_along (fun d m d' hall hm hstep => ?_) ?_ halong hrun
    · refine all_step hall hstep (fun t heq _ => hm t heq) fun i e t s' t' new _ hi hn => ?_
      obtain ⟨r, hr, heq⟩ := Option.map_eq_some_iff.mp hn
      cases heq
      refine ⟨?_, fun _ hu => absurd hu List.not_mem_nil, fun _ _ _ _ hu => hu⟩
      rw [all_of_next hr]
      exact hall t (List.mem_of_getElem? hi)
    · intro t ht
      rw [List.mem_singleton.mp ht]
      exact hnil
  exact hinv

end Program

end Channels
