import Mathlib.Data.Bool.Basic
import Mathlib.Tactic.Common
import Fecore.Concurrency.Runs

set_option relaxedAutoImplicit false
set_option autoImplicit false

/-!
# Relays between two connections

A relay stands between two connections. Two copiers run side by side, one for each direction: a
copier reads a chunk from one connection and writes it to the other, over and over, and closes the
connection that it writes to when it comes to the end of the one that it reads, or when a read or a
write fails.

## Main definitions

* `Relays.Endpoint` — one end of a connection, as the relay holds it.
* `Relays.Copier`, `Relays.Copier.next` — a copier, and what it does next.
* `Relays.Relay`, `Relays.Relay.step` — the two connections, their peers and the two copiers, in any
  order of their steps.
* `Relays.Relay.Sound` — what every step of a relay keeps.

## Main results

* `Relays.Relay.step_sound` — a relay keeps what it should.
* `Relays.Relay.Sound.outgoing_prefix` — nothing is invented, lost or swapped on the way.
* `Relays.Relay.Sound.finished` — unless a connection breaks, a relay ends after all of one side has
  been delivered.
* `Relays.Relay.outgoing_of_closed` — after the end of one direction the other one delivers what it
  has in its hands, and no more.
* `Relays.Relay.Sound.exists_run_to_closed` — after the end of one direction the other one can end.
-/

namespace Relays

variable {α : Type*}

/-! ### One direction -/

/-- One end of a connection. -/
structure Endpoint (α : Type*) where
  /-- what the peer has sent -/
  incoming : List α := []
  /-- how much of it has been read -/
  taken : ℕ := 0
  /-- the peer sends nothing more -/
  ended : Bool := false
  /-- the connection is broken: what is not read yet may be lost, and writes fail -/
  broken : Bool := false
  /-- this end has been closed, for reads and for writes -/
  closed : Bool := false
  /-- what has been written -/
  outgoing : List α := []
deriving DecidableEq

/-- What the peer of a connection does. -/
inductive PeerEvent (α : Type*)
  | send (items : List α)
  | finish
  | reset

/-- The end of a connection after its peer has done something. -/
def Endpoint.peer (x : Endpoint α) : PeerEvent α → Option (Endpoint α)
  | .send items =>
    if x.ended = true ∨ x.broken = true then none
    else some { x with incoming := x.incoming ++ items }
  | .finish => some { x with ended := true }
  | .reset => some { x with broken := true }

/-- Where a copier stands. -/
inductive Copier (α : Type*)
  | read
  /-- the chunk, or what is left of it, is to be written -/
  | write (chunk : List α)
  /-- the copy is over, and the connection that it wrote to is to be closed -/
  | close
  | done
deriving DecidableEq

/-- How the next call of a copier ends. -/
inductive CopyEvent
  | read (n : ℕ)
  | eof
  | write (n : ℕ)
  | fail
  | close

/-- What a copier from `src` to `dst` does next. -/
def Copier.next (src dst : Endpoint α) :
    Copier α → CopyEvent → Option (Endpoint α × Endpoint α × Copier α)
  | .read, .read n =>
    if src.closed = false ∧ 0 < n ∧ src.taken + n ≤ src.incoming.length then
      some ({ src with taken := src.taken + n }, dst,
        .write ((src.incoming.drop src.taken).take n))
    else none
  | .read, .eof =>
    if src.closed = false ∧ src.ended = true ∧ src.taken = src.incoming.length then
      some (src, dst, .close)
    else none
  | .read, .fail =>
    if src.closed = true ∨ src.broken = true then some (src, dst, .close) else none
  | .write chunk, .write n =>
    if dst.closed = false ∧ dst.broken = false ∧ 0 < n ∧ n ≤ chunk.length then
      some (src, { dst with outgoing := dst.outgoing ++ chunk.take n },
        if n = chunk.length then .read else .write (chunk.drop n))
    else none
  | .write _, .fail =>
    if dst.closed = true ∨ dst.broken = true then some (src, dst, .close) else none
  | .close, .close => some (src, { dst with closed := true }, .done)
  | _, _ => none

/-- What a copier has read and not written. -/
def Copier.held : Copier α → List α
  | .write chunk => chunk
  | .read | .close | .done => []

/-- The copy goes on. -/
def Copier.Copying : Copier α → Prop
  | .read | .write _ => True
  | .close | .done => False

/-- **What one direction keeps.** -/
structure Conveys (src dst : Endpoint α) (pc : Copier α) : Prop where
  taken_le : src.taken ≤ src.incoming.length
  /-- what has been read has been written, or is held -/
  copied : pc.Copying → dst.outgoing ++ pc.held = src.incoming.take src.taken
  delivered : dst.outgoing <+: src.incoming.take src.taken
  closed : dst.closed = true ↔ pc = .done
  nonempty : pc ≠ .write []

/-- **What a copier does**: it reads what it writes next, writes of what it holds, comes to the end
of the copy, with everything copied or after a failure, or closes the connection that it wrote
to.

**Proof sketch.** Case split along the definition of the step: each of its branches gives one of the
four cases, and a guard that fails gives no step. -/
theorem Copier.next_cases {src dst src' dst' : Endpoint α} {pc pc' : Copier α} {e : CopyEvent}
    (h : pc.next src dst e = some (src', dst', pc')) :
    (∃ n, pc = .read ∧ src.closed = false ∧ 0 < n ∧ src.taken + n ≤ src.incoming.length ∧
      src' = { src with taken := src.taken + n } ∧ dst' = dst ∧
      pc' = .write ((src.incoming.drop src.taken).take n)) ∨
    (∃ chunk n, pc = .write chunk ∧ n ≤ chunk.length ∧ src' = src ∧
      dst' = { dst with outgoing := dst.outgoing ++ chunk.take n } ∧
      pc'.Copying ∧ pc' ≠ .write [] ∧ pc'.held = chunk.drop n) ∨
    (pc.Copying ∧ src' = src ∧ dst' = dst ∧ pc' = .close ∧
      (src.closed = true ∨ dst.closed = true ∨ src.broken = true ∨ dst.broken = true ∨
        pc = .read ∧ src.ended = true ∧ src.taken = src.incoming.length)) ∨
    (pc = .close ∧ src' = src ∧ dst' = { dst with closed := true } ∧ pc' = .done) := by
  unfold Copier.next at h
  split at h
  next n =>
    split at h
    next hok =>
      obtain ⟨rfl, rfl, rfl⟩ : _ = src' ∧ _ = dst' ∧ _ = pc' := by simpa using h
      exact .inl ⟨n, rfl, hok.1, hok.2.1, hok.2.2, rfl, rfl, rfl⟩
    next => cases h
  next =>
    split at h
    next hok =>
      obtain ⟨rfl, rfl, rfl⟩ : _ = src' ∧ _ = dst' ∧ _ = pc' := by simpa using h
      exact .inr (.inr (.inl ⟨trivial, rfl, rfl, rfl,
        .inr (.inr (.inr (.inr ⟨rfl, hok.2.1, hok.2.2⟩)))⟩))
    next => cases h
  next =>
    split at h
    next hok =>
      obtain ⟨rfl, rfl, rfl⟩ : _ = src' ∧ _ = dst' ∧ _ = pc' := by simpa using h
      exact .inr (.inr (.inl ⟨trivial, rfl, rfl, rfl,
        hok.imp_right fun hbroken => .inr (.inl hbroken)⟩))
    next => cases h
  next chunk n =>
    split at h
    next hok =>
      obtain ⟨rfl, rfl, rfl⟩ : _ = src' ∧ _ = dst' ∧ _ = pc' := by simpa using h
      refine .inr (.inl ⟨chunk, n, rfl, hok.2.2.2, rfl, rfl, ?_⟩)
      split
      next hall => exact ⟨trivial, nofun, by rw [hall, List.drop_length]; rfl⟩
      next hsome =>
        refine ⟨trivial, fun hnil => ?_, rfl⟩
        rw [Copier.write.injEq, List.drop_eq_nil_iff] at hnil
        exact hsome (Nat.le_antisymm hok.2.2.2 hnil)
    next => cases h
  next =>
    split at h
    next hok =>
      obtain ⟨rfl, rfl, rfl⟩ : _ = src' ∧ _ = dst' ∧ _ = pc' := by simpa using h
      exact .inr (.inr (.inl ⟨trivial, rfl, rfl, rfl,
        .inr (hok.imp_right fun hbroken => .inr (.inl hbroken))⟩))
    next => cases h
  next =>
    obtain ⟨rfl, rfl, rfl⟩ : _ = src' ∧ _ = dst' ∧ _ = pc' := by simpa using h
    exact .inr (.inr (.inr ⟨rfl, rfl, rfl, rfl⟩))
  next => cases h

/-- A direction depends on what its source has received and its destination has sent. -/
lemma Conveys.congr {src dst src' dst' : Endpoint α} {pc : Copier α} (h : Conveys src dst pc)
    (hincoming : src'.incoming = src.incoming) (htaken : src'.taken = src.taken)
    (houtgoing : dst'.outgoing = dst.outgoing) (hclosed : dst'.closed = dst.closed) :
    Conveys src' dst' pc where
  taken_le := by rw [hincoming, htaken]; exact h.taken_le
  copied := by rw [hincoming, htaken, houtgoing]; exact h.copied
  delivered := by rw [hincoming, htaken, houtgoing]; exact h.delivered
  closed := by rw [hclosed]; exact h.closed
  nonempty := h.nonempty

/-- The source receives more. -/
lemma Conveys.receive {src dst : Endpoint α} {pc : Copier α} (h : Conveys src dst pc)
    (items : List α) : Conveys { src with incoming := src.incoming ++ items } dst pc := by
  have htake : (src.incoming ++ items).take src.taken = src.incoming.take src.taken :=
    List.take_append_of_le_length h.taken_le
  refine ⟨?_, fun hpc => ?_, ?_, h.closed, h.nonempty⟩
  · exact Nat.le_trans h.taken_le (by rw [List.length_append]; exact Nat.le_add_right _ _)
  · exact (h.copied hpc).trans htake.symm
  · exact h.delivered.trans (htake ▸ List.prefix_rfl)

/-- **A step of the copier.**

**Proof sketch.** Case split with `Copier.next_cases`. A read moves items from the front of what is
left into the hand and a write from the hand to the other side, so that what is written and what is
held are together the part that has been taken. -/
lemma Conveys.next {src dst src' dst' : Endpoint α} {pc pc' : Copier α} {e : CopyEvent}
    (h : Conveys src dst pc) (hnext : pc.next src dst e = some (src', dst', pc')) :
    Conveys src' dst' pc' := by
  have hopen : pc ≠ .done → pc' ≠ .done → (dst.closed = true ↔ pc' = .done) :=
    fun hpc hpc' => h.closed.trans (iff_of_false hpc hpc')
  obtain ⟨n, rfl, -, hpos, hle, rfl, rfl, rfl⟩ | ⟨chunk, n, rfl, -, rfl, rfl, hpc', hne, hheld⟩ |
    ⟨hpc, rfl, rfl, rfl, -⟩ | ⟨rfl, rfl, rfl, rfl⟩ := Copier.next_cases hnext
  · have hcopied : dst'.outgoing = src.incoming.take src.taken := by
      simpa [Copier.held] using h.copied trivial
    refine ⟨hle, fun _ => ?_, ?_, hopen nofun nofun, fun hnil => ?_⟩
    · simp only [Copier.held, hcopied, List.take_add]
    · simp only [hcopied, List.take_add]
      exact List.prefix_append _ _
    · have hlen := congrArg List.length (Copier.write.inj hnil)
      rw [List.length_take, List.length_drop, List.length_nil] at hlen
      omega
  · have hcopied : dst.outgoing ++ chunk = src'.incoming.take src'.taken := h.copied trivial
    refine ⟨h.taken_le, fun _ => ?_, ?_, hopen nofun (by rintro rfl; exact hpc'), hne⟩
    · rw [hheld, ← hcopied, List.append_assoc, List.take_append_drop]
    · rw [← hcopied, List.prefix_append_right_inj]
      exact List.take_prefix n chunk
  · exact ⟨h.taken_le, False.elim, h.delivered, hopen (by rintro rfl; exact hpc) nofun, nofun⟩
  · exact ⟨h.taken_le, False.elim, h.delivered, iff_of_true rfl rfl, nofun⟩

/-- A copier leaves to the connections what their peers have done, to the source what has been
written to it, and to the destination what has been read of it. -/
lemma Copier.next_frame {src dst src' dst' : Endpoint α} {pc pc' : Copier α} {e : CopyEvent}
    (h : pc.next src dst e = some (src', dst', pc')) :
    (src'.incoming = src.incoming ∧ src'.ended = src.ended ∧ src'.broken = src.broken ∧
      src'.outgoing = src.outgoing ∧ src'.closed = src.closed) ∧
    dst'.incoming = dst.incoming ∧ dst'.ended = dst.ended ∧ dst'.broken = dst.broken ∧
      dst'.taken = dst.taken := by
  obtain ⟨n, -, -, -, -, rfl, rfl, -⟩ | ⟨chunk, n, -, -, rfl, rfl, -⟩ | ⟨-, rfl, rfl, -⟩ |
    ⟨-, rfl, rfl, -⟩ := Copier.next_cases h
  all_goals exact ⟨⟨rfl, rfl, rfl, rfl, rfl⟩, rfl, rfl, rfl, rfl⟩

/-- A peer adds to what it has sent, unless it is through. -/
lemma Endpoint.peer_frame {x x' : Endpoint α} {e : PeerEvent α} (h : x.peer e = some x') :
    (x'.taken = x.taken ∧ x'.outgoing = x.outgoing ∧ x'.closed = x.closed) ∧
    (∃ items, x'.incoming = x.incoming ++ items) ∧
    (x.ended = true → x'.ended = true ∧ x'.incoming = x.incoming) ∧
    (x.broken = true → x'.broken = true) := by
  cases e with
  | send items =>
    simp only [peer, Option.ite_none_left_eq_some, Option.some.injEq, not_or] at h
    obtain ⟨⟨hended, -⟩, rfl⟩ := h
    exact ⟨⟨rfl, rfl, rfl⟩, ⟨items, rfl⟩, fun h => absurd h hended, id⟩
  | finish =>
    obtain rfl := Option.some.inj h
    exact ⟨⟨rfl, rfl, rfl⟩, ⟨[], (List.append_nil _).symm⟩, fun _ => ⟨rfl, rfl⟩, id⟩
  | reset =>
    obtain rfl := Option.some.inj h
    exact ⟨⟨rfl, rfl, rfl⟩, ⟨[], (List.append_nil _).symm⟩, fun h => ⟨h, rfl⟩, fun _ => rfl⟩

/-! ### Both directions -/

/-- Two connections and the copiers between them. The copier `b` writes to the connection `b`, and
reads from the other one. -/
structure Relay (α : Type*) where
  ends : Bool → Endpoint α
  copiers : Bool → Copier α

/-- What happens next. -/
inductive Event (α : Type*)
  | copy (b : Bool) (e : CopyEvent)
  | peer (b : Bool) (e : PeerEvent α)

namespace Relay

/-- The connections after a step of the copier `b`. -/
def endsOf (b : Bool) (src dst : Endpoint α) : Bool → Endpoint α :=
  fun d => if d = b then dst else src

/-- One step. -/
def step (r : Relay α) : Event α → Option (Relay α)
  | .copy b e =>
    ((r.copiers b).next (r.ends !b) (r.ends b) e).map fun (src, dst, pc) =>
      ⟨endsOf b src dst, Function.update r.copiers b pc⟩
  | .peer b e => ((r.ends b).peer e).map fun x => { r with ends := Function.update r.ends b x }

/-- The end that bytes come to. -/
@[simp] lemma endsOf_self (b : Bool) (src dst : Endpoint α) : endsOf b src dst b = dst := if_pos rfl

/-- The end that bytes come from. -/
@[simp] lemma endsOf_not (b : Bool) (src dst : Endpoint α) : endsOf b src dst (!b) = src :=
  if_neg (Bool.not_ne_self b)

/-- The same, for the other direction. -/
lemma endsOf_of_not (b : Bool) (src dst : Endpoint α) : endsOf (!b) src dst b = src :=
  if_neg (Bool.not_ne_self b).symm

/-- **What a step does**: a copier takes its next step, or a peer does something. -/
theorem step_cases {r r' : Relay α} {e : Event α} (h : r.step e = some r') :
    (∃ b ce src dst pc, e = .copy b ce ∧
      (r.copiers b).next (r.ends !b) (r.ends b) ce = some (src, dst, pc) ∧
      r' = ⟨endsOf b src dst, Function.update r.copiers b pc⟩) ∨
    (∃ b pe x, e = .peer b pe ∧ (r.ends b).peer pe = some x ∧
      r' = { r with ends := Function.update r.ends b x }) := by
  cases e with
  | copy b ce =>
    obtain ⟨⟨src, dst, pc⟩, hnext, rfl⟩ := Option.map_eq_some_iff.mp h
    exact .inl ⟨b, ce, src, dst, pc, rfl, hnext, rfl⟩
  | peer b pe =>
    obtain ⟨x, hx, rfl⟩ := Option.map_eq_some_iff.mp h
    exact .inr ⟨b, pe, x, rfl, hx, rfl⟩

/-- A connection of the relay is broken. -/
def Broken (r : Relay α) : Prop := ∃ b, (r.ends b).broken = true

/-- The copier `b` has come to the end of the copy, and all has been delivered. -/
def Complete (r : Relay α) (b : Bool) : Prop :=
  ¬ (r.copiers b).Copying ∧ (r.ends !b).ended = true ∧ (r.ends b).outgoing = (r.ends !b).incoming

/-- **What a relay keeps.** -/
structure Sound (r : Relay α) : Prop where
  sides : ∀ b, Conveys (r.ends !b) (r.ends b) (r.copiers b)
  complete : ∀ b, ¬ (r.copiers b).Copying → r.Broken ∨ ∃ d, r.Complete d

/-- A connection that is broken stays so. -/
lemma Broken.step {r r' : Relay α} {e : Event α} (h : r.Broken) (hstep : r.step e = some r') :
    r'.Broken := by
  obtain ⟨d, hd⟩ := h
  obtain ⟨b, ce, src, dst, pc, rfl, hnext, rfl⟩ | ⟨b, pe, x, rfl, hx, rfl⟩ := step_cases hstep
  · obtain ⟨⟨-, -, hsrc, -⟩, -, -, hdst, -⟩ := Copier.next_frame hnext
    obtain rfl | rfl := Bool.eq_or_eq_not d b
    · exact ⟨d, by simp only [endsOf_self, hdst, hd]⟩
    · exact ⟨!b, by simp only [endsOf_not, hsrc, hd]⟩
  · refine ⟨d, ?_⟩
    by_cases hdb : d = b
    · subst hdb
      simpa only [Function.update_self] using (Endpoint.peer_frame hx).2.2.2 hd
    · simpa only [Function.update_of_ne hdb] using hd

/-- **What is complete stays so.**

**Proof sketch.** A step changes one copier and its two ends, or one end from outside. The copier of
a complete side can only close (`Copier.next_cases`); all the others leave the two sequences of the
side alone, since its peer has ended. -/
lemma Complete.step {r r' : Relay α} {e : Event α} {d : Bool} (h : r.Complete d)
    (hstep : r.step e = some r') : r'.Complete d := by
  obtain ⟨hpc, hended, hall⟩ := h
  obtain ⟨b, ce, src, dst, pc, rfl, hnext, rfl⟩ | ⟨b, pe, x, rfl, hx, rfl⟩ := step_cases hstep
  · obtain ⟨⟨hinc, hend, -, hout, -⟩, hinc', hend', -⟩ := Copier.next_frame hnext
    obtain rfl | rfl := Bool.eq_or_eq_not b d
    · -- its own copier has only the connection left to close
      obtain ⟨n, hread, -⟩ | ⟨chunk, n, hwrite, -⟩ | ⟨hcopying, -⟩ | ⟨-, -, rfl, rfl⟩ :=
        Copier.next_cases hnext
      · exact absurd (hread ▸ trivial) hpc
      · exact absurd (hwrite ▸ trivial) hpc
      · exact absurd hcopying hpc
      · refine ⟨?_, ?_, ?_⟩
        · simp only [Function.update_self]
          exact id
        · simp only [endsOf_not, hend, hended]
        · simp only [endsOf_self, endsOf_not, hinc, hall]
    · rw [Bool.not_not] at hout
      refine ⟨?_, ?_, ?_⟩
      · simpa only [Function.update_of_ne (Bool.not_ne_self d).symm] using hpc
      · simp only [endsOf_self, hend', hended]
      · simp only [endsOf_self, endsOf_of_not, hinc', hout, hall]
  · obtain ⟨⟨-, hout, -⟩, -, hthrough, -⟩ := Endpoint.peer_frame hx
    refine ⟨hpc, ?_⟩
    obtain rfl | rfl := Bool.eq_or_eq_not b d
    · simp only [Function.update_self, Function.update_of_ne (Bool.not_ne_self b), hout]
      exact ⟨hended, hall⟩
    · obtain ⟨hended', hinc⟩ := hthrough hended
      simp only [Function.update_self, Function.update_of_ne (Bool.not_ne_self d).symm, hinc]
      exact ⟨hended', hall⟩

/-- A relay that has not begun. -/
structure Fresh (r : Relay α) : Prop where
  copiers : ∀ b, r.copiers b = .read
  taken : ∀ b, (r.ends b).taken = 0
  outgoing : ∀ b, (r.ends b).outgoing = []
  closed : ∀ b, (r.ends b).closed = false

/-- A relay that has copied nothing is sound. -/
lemma Fresh.sound {r : Relay α} (h : r.Fresh) : r.Sound where
  sides b :=
    { taken_le := by rw [h.taken]; exact Nat.zero_le _
      copied := fun _ => by rw [h.taken, h.outgoing, h.copiers]; rfl
      delivered := by rw [h.outgoing]; exact List.nil_prefix
      closed := by rw [h.closed, h.copiers]; exact iff_of_false nofun nofun
      nonempty := by rw [h.copiers]; exact nofun }
  complete b hb := by
    rw [h.copiers] at hb
    exact absurd trivial hb

/-- **A copier stops for a reason**: one side is delivered in full, or a connection is broken.

**Proof sketch.** The step is one of the copier, and `Copier.next_cases` gives why it stops. If its
source is closed, the other copier has done it, which has stopped before; if a connection is broken,
so is the relay; otherwise all has been read and nothing is held, so the side is complete. -/
lemma Sound.stop {r r' : Relay α} {b : Bool} {ce : CopyEvent} (h : r.Sound)
    (hcopying : (r.copiers b).Copying) (hstep : r.step (.copy b ce) = some r')
    (hstop : r'.copiers b = .close) : r'.Broken ∨ ∃ d, r'.Complete d := by
  obtain ⟨b', ce', src, dst, pc, heq, hnext, rfl⟩ | ⟨b', pe, x, heq, -⟩ := step_cases hstep
  · cases heq
    obtain rfl : pc = .close := by simpa only [Function.update_self] using hstop
    have hside := h.sides b
    obtain ⟨n, -, -, -, -, -, -, hpc⟩ | ⟨chunk, n, -, -, -, -, hpc, -⟩ | ⟨-, rfl, rfl, -, hwhy⟩ |
      ⟨-, -, -, hpc⟩ := Copier.next_cases hnext
    · cases hpc
    · exact hpc.elim
    · rcases hwhy with hclosed | hclosed | hbroken | hbroken | ⟨hread, hended, htaken⟩
      · -- the other copier has closed the connection
        have hdone : r.copiers (!b) = .done := (h.sides (!b)).closed.mp hclosed
        refine (h.complete (!b) (by rw [hdone]; exact id)).imp (fun hb => hb.step hstep) ?_
        exact fun ⟨d, hd⟩ => ⟨d, hd.step hstep⟩
      · have hdone := hside.closed.mp hclosed
        rw [hdone] at hcopying
        exact hcopying.elim
      · exact .inl ⟨!b, by simpa only [endsOf_not] using hbroken⟩
      · exact .inl ⟨b, by simpa only [endsOf_self] using hbroken⟩
      · have hcopied := hside.copied hcopying
        rw [hread, htaken, List.take_length, Copier.held, List.append_nil] at hcopied
        refine .inr ⟨b, ?_, ?_, ?_⟩
        · simp only [Function.update_self]
          exact id
        · simpa only [endsOf_not] using hended
        · simpa only [endsOf_self, endsOf_not] using hcopied
    · cases hpc
  · cases heq

/-- **One step keeps what a relay keeps.**

**Proof sketch.** The side of the copier that steps is kept by `Conveys.next`, and the other one
sees nothing of it (`Conveys.congr`). A copier that stops does so for a reason (`Sound.stop`), and
what was broken or complete before stays so. Items that arrive from outside are appended
(`Conveys.receive`). -/
theorem step_sound {r r' : Relay α} {e : Event α} (h : r.Sound) (hstep : r.step e = some r') :
    r'.Sound := by
  have hkeep : r.Broken ∨ (∃ d, r.Complete d) → r'.Broken ∨ ∃ d, r'.Complete d :=
    Or.imp (fun hb => hb.step hstep) fun ⟨d, hd⟩ => ⟨d, hd.step hstep⟩
  obtain ⟨b, ce, src, dst, pc, rfl, hnext, rfl⟩ | ⟨b, pe, x, rfl, hx, rfl⟩ := step_cases hstep
  · obtain ⟨⟨-, -, -, hout, hclosed⟩, hinc, -, -, htaken⟩ := Copier.next_frame hnext
    refine ⟨fun d => ?_, fun d hd => ?_⟩
    · obtain rfl | rfl := Bool.eq_or_eq_not d b
      · simpa only [endsOf_self, endsOf_not, Function.update_self] using (h.sides d).next hnext
      · have hside := h.sides (!b)
        rw [Bool.not_not] at hside
        simp only [Bool.not_not, endsOf_self, endsOf_not,
          Function.update_of_ne (Bool.not_ne_self b)]
        exact hside.congr hinc htaken hout hclosed
    · by_cases hcopying : (r.copiers d).Copying
      · obtain rfl : d = b := by
          by_contra hne
          simp only [Function.update_of_ne hne] at hd
          exact hd hcopying
        simp only [Function.update_self] at hd
        refine h.stop hcopying hstep ?_
        obtain ⟨n, -, -, -, -, -, -, rfl⟩ | ⟨chunk, n, -, -, -, -, hpc, -⟩ | ⟨-, -, -, rfl, -⟩ |
          ⟨hclose, -⟩ := Copier.next_cases hnext
        · exact absurd trivial hd
        · exact absurd hpc hd
        · exact Function.update_self _ _ _
        · rw [hclose] at hcopying
          exact hcopying.elim
      · exact hkeep (h.complete d hcopying)
  · obtain ⟨⟨htaken, hout, hclosed⟩, ⟨items, hinc⟩, -⟩ := Endpoint.peer_frame hx
    refine ⟨fun d => ?_, fun d hd => hkeep (h.complete d hd)⟩
    obtain rfl | rfl := Bool.eq_or_eq_not d b
    · simp only [Function.update_self, Function.update_of_ne (Bool.not_ne_self d)]
      exact (h.sides d).congr rfl rfl hout hclosed
    · have hside := (h.sides (!b)).receive items
      rw [Bool.not_not] at hside
      simp only [Bool.not_not, Function.update_self, Function.update_of_ne (Bool.not_ne_self b)]
      exact hside.congr hinc htaken rfl rfl

/-- **Nothing is invented, lost or swapped on the way.** -/
lemma Sound.outgoing_prefix {r : Relay α} (h : r.Sound) (b : Bool) :
    (r.ends b).outgoing <+: (r.ends !b).incoming :=
  (h.sides b).delivered.trans (List.take_prefix _ _)

/-- **A relay ends after one side has been delivered in full**, unless a connection breaks. -/
lemma Sound.finished {r : Relay α} (h : r.Sound) {b : Bool} (hclosed : (r.ends b).closed = true) :
    r.Broken ∨ ∃ d, r.Complete d :=
  h.complete b (by rw [(h.sides b).closed.mp hclosed]; exact id)

/-! ### After the end of one direction -/

/-- A connection that has been closed stays so. -/
lemma closed_of_step {r r' : Relay α} {e : Event α} (hstep : r.step e = some r') {d : Bool}
    (h : (r.ends d).closed = true) : (r'.ends d).closed = true := by
  obtain ⟨b, ce, src, dst, pc, rfl, hnext, rfl⟩ | ⟨b, pe, x, rfl, hx, rfl⟩ := step_cases hstep
  · obtain rfl | rfl := Bool.eq_or_eq_not d b
    · obtain ⟨n, -, -, -, -, -, rfl, -⟩ | ⟨chunk, n, -, -, -, rfl, -⟩ | ⟨-, -, rfl, -⟩ |
        ⟨-, -, rfl, -⟩ := Copier.next_cases hnext
      all_goals simp only [endsOf_self, h]
    · simp only [endsOf_not, (Copier.next_frame hnext).1.2.2.2.2, h]
  · by_cases hd : d = b
    · subst hd
      simp only [Function.update_self, (Endpoint.peer_frame hx).1.2.2, h]
    · simpa only [Function.update_of_ne hd] using h

/-- What has been written, and what is still held. -/
def reach (r : Relay α) (b : Bool) : List α := (r.ends b).outgoing ++ (r.copiers b).held

/-- A copier whose source is closed reads nothing more.

**Proof sketch.** A step of the copier writes what it holds or drops it (`Copier.next_cases`), and
it cannot read; every other step leaves what it holds and what has been written. -/
lemma reach_of_step {r r' : Relay α} {e : Event α} (hstep : r.step e = some r') {d : Bool}
    (h : (r.ends !d).closed = true) : r'.reach d <+: r.reach d := by
  unfold reach
  obtain ⟨b, ce, src, dst, pc, rfl, hnext, rfl⟩ | ⟨b, pe, x, rfl, hx, rfl⟩ := step_cases hstep
  · obtain rfl | rfl := Bool.eq_or_eq_not d b
    · simp only [endsOf_self, Function.update_self]
      obtain ⟨n, -, hopen, -⟩ | ⟨chunk, n, hpc, -, -, rfl, -, -, hheld⟩ | ⟨-, -, rfl, rfl, -⟩ |
        ⟨-, -, rfl, rfl⟩ := Copier.next_cases hnext
      · rw [hopen] at h
        cases h
      · rw [hpc, hheld, List.append_assoc, List.take_append_drop]
        exact List.prefix_rfl
      · rw [Copier.held, List.append_nil]
        exact List.prefix_append _ _
      · rw [Copier.held, List.append_nil]
        exact List.prefix_append _ _
    · simp only [endsOf_not, Function.update_of_ne (Bool.not_ne_self b),
        (Copier.next_frame hnext).1.2.2.2.1]
      exact List.prefix_rfl
  · by_cases hd : d = b
    · subst hd
      simp only [Function.update_self, (Endpoint.peer_frame hx).1.2.1]
      exact List.prefix_rfl
    · simp only [Function.update_of_ne hd]
      exact List.prefix_rfl

/-- **After the end of one direction** the other one delivers what it has in its hands, and no
more. -/
theorem outgoing_of_closed {r r' : Relay α} {events : List (Event α)} {d : Bool}
    (h : (r.ends !d).closed = true) (hrun : Runs.run step r events = some r') :
    (r'.ends d).outgoing <+: (r.ends d).outgoing ++ (r.copiers d).held := by
  have hinv : (r'.ends !d).closed = true ∧ r'.reach d <+: r.reach d :=
    Runs.invariant (I := fun s => (s.ends !d).closed = true ∧ s.reach d <+: r.reach d)
      (fun _ _ _ ⟨hclosed, hreach⟩ hstep =>
        ⟨closed_of_step hstep hclosed, (reach_of_step hstep hclosed).trans hreach⟩)
      ⟨h, List.prefix_rfl⟩ hrun
  exact (List.prefix_append _ _).trans hinv.2

/-- How many steps a copier takes at most when its source is closed. -/
def work : Copier α → ℕ
  | .write _ => 3
  | .read => 2
  | .close => 1
  | .done => 0

/-- A copier whose source is closed goes on until it has closed the connection that it writes to.

**Proof sketch.** Case split on where the copier is. A read fails since the source is closed; what
is held is written as a whole, unless the connection is broken; and a copier that is to close
closes. -/
lemma Sound.progress {r : Relay α} {b : Bool} (h : r.Sound) (hclosed : (r.ends !b).closed = true)
    (hopen : ¬ (r.ends b).closed = true) :
    ∃ e r', r.step (.copy b e) = some r' ∧ work (r'.copiers b) < work (r.copiers b) := by
  have hside := h.sides b
  have hdst : (r.ends b).closed = false := Bool.eq_false_iff.mpr hopen
  have hgo : ∀ {e : CopyEvent} {src dst : Endpoint α} {pc : Copier α},
      (r.copiers b).next (r.ends !b) (r.ends b) e = some (src, dst, pc) →
        work pc < work (r.copiers b) →
          ∃ e r', r.step (.copy b e) = some r' ∧ work (r'.copiers b) < work (r.copiers b) := by
    intro e src dst pc hnext hlt
    refine ⟨e, ⟨endsOf b src dst, Function.update r.copiers b pc⟩, ?_, ?_⟩
    · simp only [step, hnext, Option.map_some]
    · simpa only [Function.update_self] using hlt
  cases hpc : r.copiers b with
  | read =>
    have hnext : (r.copiers b).next (r.ends !b) (r.ends b) .fail =
        some (r.ends !b, r.ends b, .close) := by
      simp only [hpc, Copier.next, if_pos (Or.inl hclosed)]
    exact hpc ▸ hgo hnext (by simp [hpc, work])
  | write chunk =>
    by_cases hbroken : (r.ends b).broken = true
    · have hnext : (r.copiers b).next (r.ends !b) (r.ends b) .fail =
          some (r.ends !b, r.ends b, .close) := by
        simp only [hpc, Copier.next, if_pos (Or.inr hbroken)]
      exact hpc ▸ hgo hnext (by simp [hpc, work])
    · have hpos : 0 < chunk.length :=
        List.length_pos_iff.mpr fun hnil => hside.nonempty (by rw [hpc, hnil])
      have hnext : (r.copiers b).next (r.ends !b) (r.ends b) (.write chunk.length) =
          some (r.ends !b, { r.ends b with outgoing := (r.ends b).outgoing ++ chunk }, .read) := by
        have hok : (r.ends b).closed = false ∧ (r.ends b).broken = false ∧ 0 < chunk.length ∧
            chunk.length ≤ chunk.length :=
          ⟨hdst, Bool.eq_false_iff.mpr hbroken, hpos, Nat.le_refl _⟩
        simp only [hpc, Copier.next, if_pos hok, if_true, List.take_length]
      exact hpc ▸ hgo hnext (by simp [hpc, work])
  | close =>
    have hnext : (r.copiers b).next (r.ends !b) (r.ends b) .close =
        some (r.ends !b, { r.ends b with closed := true }, .done) := by
      simp only [hpc, Copier.next]
    exact hpc ▸ hgo hnext (by simp [hpc, work])
  | done => exact absurd (hside.closed.mpr hpc) hopen

/-- **After the end of one direction** the other one can end, by its own steps. -/
theorem Sound.exists_run_to_closed {r : Relay α} {b : Bool} (h : r.Sound)
    (hclosed : (r.ends !b).closed = true) :
    ∃ events r', (∀ e ∈ events, ∃ ce, e = .copy b ce) ∧ Runs.run step r events = some r' ∧
      (r'.ends b).closed = true := by
  have hstep : ∀ r : Relay α, r.Sound ∧ (r.ends !b).closed = true → ¬ (r.ends b).closed = true →
      ∃ e r', (∃ ce, e = .copy b ce) ∧ r.step e = some r' ∧
        (r'.Sound ∧ (r'.ends !b).closed = true) ∧ work (r'.copiers b) < work (r.copiers b) := by
    intro r hr hopen
    obtain ⟨ce, r', hstep, hlt⟩ := hr.1.progress hr.2 hopen
    exact ⟨_, r', ⟨ce, rfl⟩, hstep, ⟨step_sound hr.1 hstep, closed_of_step hstep hr.2⟩, hlt⟩
  exact Runs.exists_run_to (fun r => work (r.copiers b)) hstep ⟨h, hclosed⟩

end Relay

end Relays
