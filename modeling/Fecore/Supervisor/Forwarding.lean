import Mathlib.Tactic.Common
import Fecore.Concurrency.Relays
import Fecore.Concurrency.Writes
import Fecore.Handlers.Functions

set_option relaxedAutoImplicit false
set_option autoImplicit false

/-!
# Forwarding of connections

Past the look-up of its upstream, `Proxy.Start` (`pkg/proxy.go`) accepts connections in a loop,
dials the upstream for each, and starts two goroutines that `pipe` the one connection to the other
and back.

## Main definitions

* `Fecore.Forwarding.proxy` — the loop of `Start` and the goroutines that it starts, over the
  connections that the process has open.
* `Fecore.Forwarding.peer` — the clients and the upstream at the other ends.
* `Fecore.Forwarding.Forwards` — a connection, that of the upstream, and the goroutines between
  them are a relay.

## Main results

* `Fecore.Forwarding.forwards_step` — each pair of connections is a relay of its own, whatever
  happens to the others.
* `Fecore.Forwarding.forwards_delivers` — what is delivered to whom, and when connections are
  closed.
* `Fecore.Forwarding.unserved_stays` — a connection is left behind when its upstream is not reached.

## Design

A connection is named by the order of its opening. What `io.Copy` moves between two reads is a
chunk of any size.
-/

namespace Fecore

/-- A `net.Conn` of the process. -/
abbrev Conn := Relays.Endpoint UInt8

/-- A connection that has just been opened. -/
def Conn.opened : Conn := {}

namespace Forwarding

open Interleaving (Program Move)
open Relays (Relay Copier CopyEvent PeerEvent)

/-! ### The proxy -/

/-- A goroutine. -/
inductive Goroutine
  /-- `Start`, at `l.Accept` -/
  | accept
  /-- `Start`, at `net.Dial`, with the connection that it has accepted -/
  | dial (conn : Ref)
  /-- `Start` has returned -/
  | returned
  /-- `pipe(from, to)` -/
  | pipe (fromConn toConn : Ref) (pc : Copier UInt8)
deriving DecidableEq

/-- How the next call of a goroutine ends. -/
inductive Event
  | ok
  | failed
  | copy (e : CopyEvent)

/-- What a goroutine does next. `pipe(from, to)` reads from `to` and writes to `from`, which it
closes. -/
def next (conns : List Conn) :
    Goroutine → Event → Option (List Conn × Goroutine × List Goroutine)
  | .accept, .ok => some (conns ++ [Conn.opened], .dial conns.length, [])
  | .accept, .failed => some (conns, .returned, [])
  | .dial conn, .ok =>
    let upstream := conns.length
    some (conns ++ [Conn.opened], .accept, [.pipe conn upstream .read, .pipe upstream conn .read])
  | .dial _, .failed => some (conns, .returned, [])
  | .pipe fromConn toConn pc, .copy e =>
    match conns[toConn]?, conns[fromConn]? with
    | some src, some dst =>
      (pc.next src dst e).map fun (src, dst, pc) =>
        ((conns.set toConn src).set fromConn dst, .pipe fromConn toConn pc, [])
    | _, _ => none
  | _, _ => none

/-- The goroutines of one call of `Start`. -/
def proxy : Program (List Conn) Goroutine Event := ⟨fun _ => false, next⟩

/-- The peer of a connection does something. -/
def peer (conns : List Conn) (w : Ref × PeerEvent UInt8) : Option (List Conn) :=
  (conns[w.1]?).bind fun x => (x.peer w.2).map fun x => conns.set w.1 x

/-- The connections and the goroutines. -/
abbrev State := Interleaving.Config (List Conn) Goroutine

/-- A step of a goroutine, or of the peer of a connection. -/
abbrev step : State → Move Goroutine Event ⊕ (Ref × PeerEvent UInt8) → Option State :=
  proxy.stepWith peer

/-- `Start` listens. -/
def start : State := ⟨[], [.accept]⟩

/-! ### Pairs of connections -/

/-- The connection of the client, and that of the upstream. -/
def conn (k : ℕ) (b : Bool) : ℕ := 2 * k + b.toNat

/-- **The pair `k` is a relay**: the connections that were opened as numbers `2 * k` and
`2 * k + 1`, and the goroutines that were started for them. -/
structure Forwards (s : State) (k : ℕ) (r : Relay UInt8) : Prop where
  ends : ∀ b, s.shared[conn k b]? = some (r.ends b)
  copiers : ∀ b, s.threads[conn k b + 1]? = some (.pipe (conn k b) (conn k !b) (r.copiers b))

/-- **What the proxy keeps.** -/
structure Wired (s : State) : Prop where
  start : ∃ g, s.threads[0]? = some g ∧ ∀ f t pc, g ≠ .pipe f t pc
  accept : s.threads[0]? = some .accept → s.shared.length + 1 = s.threads.length
  dial : ∀ c, s.threads[0]? = some (.dial c) →
    c + 1 = s.shared.length ∧ s.shared.length = s.threads.length
  length : s.threads.length ≤ s.shared.length + 1 ∧ s.shared.length ≤ s.threads.length
  odd : s.threads.length % 2 = 1
  pipes : ∀ k b g, s.threads[conn k b + 1]? = some g → ∃ pc, g = .pipe (conn k b) (conn k !b) pc
  /-- nothing has been done with a connection that has no goroutines -/
  unserved : ∀ i x, s.shared[i]? = some x → s.threads.length ≤ i + 1 →
    x.taken = 0 ∧ x.outgoing = [] ∧ x.closed = false

/-- Different ends of different connections are different. -/
lemma conn_inj {k l : ℕ} {b d : Bool} : conn k b = conn l d ↔ k = l ∧ b = d := by
  cases b <;> cases d <;> simp [conn] <;> omega

/-- Every endpoint is the end of a connection. -/
lemma exists_conn (i : ℕ) : ∃ k b, i = conn k b :=
  ⟨i / 2, decide (i % 2 = 1), by
    rcases Nat.mod_two_eq_zero_or_one i with h | h <;> simp [conn, h] <;> omega⟩

/-- **What a goroutine does**: `Start` accepts a connection, dials for it, or returns, and a `pipe`
takes a step of its copy.

**Proof sketch.** Case split along the definition of a step, by the goroutine and the event. -/
theorem next_cases {conns conns' : List Conn} {g g' : Goroutine} {e : Event}
    {new : List Goroutine} (h : next conns g e = some (conns', g', new)) :
    (g = .accept ∧ conns' = conns ++ [Conn.opened] ∧ g' = .dial conns.length ∧ new = []) ∨
    (∃ c, g = .dial c ∧ conns' = conns ++ [Conn.opened] ∧ g' = .accept ∧
      new = [.pipe c conns.length .read, .pipe conns.length c .read]) ∨
    ((∀ f t pc, g ≠ .pipe f t pc) ∧ conns' = conns ∧ g' = .returned ∧ new = []) ∨
    (∃ f t pc ce src dst src' dst' pc', g = .pipe f t pc ∧ conns[t]? = some src ∧
      conns[f]? = some dst ∧ pc.next src dst ce = some (src', dst', pc') ∧
      conns' = (conns.set t src').set f dst' ∧ g' = .pipe f t pc' ∧ new = []) := by
  unfold next at h
  split at h
  next =>
    simp only [Option.some.injEq, Prod.mk.injEq] at h
    obtain ⟨rfl, rfl, rfl⟩ := h
    exact .inl ⟨rfl, rfl, rfl, rfl⟩
  next =>
    simp only [Option.some.injEq, Prod.mk.injEq] at h
    obtain ⟨rfl, rfl, rfl⟩ := h
    exact .inr (.inr (.inl ⟨nofun, rfl, rfl, rfl⟩))
  next c =>
    simp only [Option.some.injEq, Prod.mk.injEq] at h
    obtain ⟨rfl, rfl, rfl⟩ := h
    exact .inr (.inl ⟨c, rfl, rfl, rfl, rfl⟩)
  next =>
    simp only [Option.some.injEq, Prod.mk.injEq] at h
    obtain ⟨rfl, rfl, rfl⟩ := h
    exact .inr (.inr (.inl ⟨nofun, rfl, rfl, rfl⟩))
  next f t pc ce =>
    split at h
    next src dst hsrc hdst =>
      obtain ⟨⟨src', dst', pc'⟩, hnext, heq⟩ := Option.map_eq_some_iff.mp h
      simp only [Prod.mk.injEq] at heq
      obtain ⟨rfl, rfl, rfl⟩ := heq
      exact .inr (.inr (.inr ⟨f, t, pc, ce, src, dst, src', dst', pc', rfl, hsrc, hdst, hnext, rfl,
        rfl, rfl⟩))
    next => cases h
  next => cases h

/-- The pair is the same where its connections and goroutines are. -/
lemma Forwards.congr {s s' : State} {k : ℕ} {r : Relay UInt8} (h : Forwards s k r)
    (hends : ∀ b x, s.shared[conn k b]? = some x → s'.shared[conn k b]? = some x)
    (hcopiers : ∀ b g, s.threads[conn k b + 1]? = some g → s'.threads[conn k b + 1]? = some g) :
    Forwards s' k r where
  ends b := hends b _ (h.ends b)
  copiers b := hcopiers b _ (h.copiers b)

/-- A pair is one relay. -/
lemma Forwards.unique {s : State} {k : ℕ} {r r' : Relay UInt8} (h : Forwards s k r)
    (h' : Forwards s k r') : r = r' := by
  have hends : r.ends = r'.ends := funext fun b => by
    simpa [h.ends b] using h'.ends b
  have hcopiers : r.copiers = r'.copiers := funext fun b => by
    simpa [h.copiers b] using h'.copiers b
  cases r
  cases r'
  exact congrArg₂ Relay.mk hends hcopiers

/-- A `pipe` of the pair takes a step.

**Proof sketch.** The copier of the relay takes the same step, and writes to the same two ends; the
goroutine is the one of this direction, so the other copier stands still. -/
lemma Forwards.copy {s : State} {k : ℕ} {r : Relay UInt8} {b : Bool} {ce : CopyEvent}
    {src dst : Conn} {pc : Copier UInt8} (h : Forwards s k r)
    (hnext : (r.copiers b).next (r.ends !b) (r.ends b) ce = some (src, dst, pc)) :
    ∃ r', r.step (.copy b ce) = some r' ∧
      Forwards ⟨(s.shared.set (conn k !b) src).set (conn k b) dst,
        s.threads.set (conn k b + 1) (.pipe (conn k b) (conn k !b) pc) ++ []⟩ k r' := by
  have hlt : ∀ d, conn k d < s.shared.length :=
    fun d => (List.getElem?_eq_some_iff.mp (h.ends d)).1
  have hne : conn k b ≠ conn k !b := fun heq => Bool.self_ne_not b (conn_inj.mp heq).2
  have hne' : conn k b + 1 ≠ conn k (!b) + 1 := fun heq => hne (Nat.succ.inj heq)
  refine ⟨⟨Relay.endsOf b src dst, Function.update r.copiers b pc⟩, ?_, fun d => ?_, fun d => ?_⟩
  · simp only [Relay.step, hnext, Option.map_some]
  · obtain rfl | rfl := Bool.eq_or_eq_not d b
    · simp only [Relay.endsOf_self]
      exact List.getElem?_set_self (by rw [List.length_set]; exact hlt d)
    · simp only [Relay.endsOf_not]
      rw [List.getElem?_set_ne hne, List.getElem?_set_self (hlt _)]
  · obtain rfl | rfl := Bool.eq_or_eq_not d b
    · simp only [Function.update_self]
      exact Interleaving.getElem?_section _ [] (h.copiers d)
    · simp only [Function.update_of_ne (Bool.not_ne_self b), List.append_nil]
      rw [List.getElem?_set_ne hne']
      exact h.copiers (!b)

/-- The thread of a `pipe` is that of its pair. -/
lemma Wired.pipe {s : State} (hw : Wired s) {i f t : ℕ} {pc : Copier UInt8}
    (ht : s.threads[i]? = some (.pipe f t pc)) :
    ∃ k b, i = conn k b + 1 ∧ f = conn k b ∧ t = conn k !b := by
  obtain ⟨g, hg, hloop⟩ := hw.start
  cases i with
  | zero => exact absurd (Option.some.inj (hg.symm.trans ht)) (hloop f t pc)
  | succ j =>
    obtain ⟨k, b, rfl⟩ := exists_conn j
    obtain ⟨pc', hpc⟩ := hw.pipes k b _ ht
    rw [Goroutine.pipe.injEq] at hpc
    exact ⟨k, b, rfl, hpc.1, hpc.2.1⟩

/-- A section of another goroutine than those of the pair. -/
lemma Forwards.of_section {s s' : State} {k : ℕ} {r : Relay UInt8} {i : ℕ} {e : Event}
    (h : Forwards s k r) (hstep : proxy.step s (.step i e) = some s')
    (hi : ∀ b, conn k b + 1 ≠ i)
    (hends : ∀ b x, s.shared[conn k b]? = some x → s'.shared[conn k b]? = some x) :
    Forwards s' k r :=
  h.congr hends fun b _ hg => Interleaving.getElem?_of_step hstep
    (fun _ heq => hi b (Move.step.inj heq).1.symm) hg

/-- **Each pair is a relay of its own**: whatever happens, it takes a step as a relay or stays as it
is.

**Proof sketch.** The goroutines of another pair have other connections, and `Start` and a peer
leave the goroutines alone. -/
theorem forwards_step {s s' : State} {k : ℕ} {r : Relay UInt8}
    {m : Move Goroutine Event ⊕ (Ref × PeerEvent UInt8)} (hw : Wired s) (h : Forwards s k r)
    (hstep : step s m = some s') :
    ∃ r', Forwards s' k r' ∧ (r' = r ∨ ∃ e, r.step e = some r') := by
  cases m with
  | inl m =>
    replace hstep : proxy.step s m = some s' := hstep
    obtain ⟨g, -, hent, -⟩ | ⟨i, e, g, conns', g', new, rfl, hg, hnext, rfl⟩ :=
      Program.step_cases hstep
    · cases hent
    · -- the goroutines of the pair are no calls of `Start`
      have hloop : (∀ f t pc, g ≠ .pipe f t pc) → ∀ b, conn k b + 1 ≠ i := by
        rintro hne b rfl
        exact hne _ _ _ (Option.some.inj (hg.symm.trans (h.copiers b)))
      have hgrow : ∀ x : Conn, ∀ b y, s.shared[conn k b]? = some y →
          (s.shared ++ [x])[conn k b]? = some y := by
        intro x b y hy
        rw [List.getElem?_append_left (List.getElem?_eq_some_iff.mp hy).1, hy]
      obtain ⟨rfl, rfl, -⟩ | ⟨c, rfl, rfl, -⟩ | ⟨hne, rfl, -⟩ |
        ⟨f, t, pc, ce, src, dst, src', dst', pc', rfl, hsrc, hdst, hcopy, rfl, rfl, rfl⟩ :=
        next_cases hnext
      · exact ⟨r, h.of_section hstep (hloop nofun) (hgrow _), .inl rfl⟩
      · exact ⟨r, h.of_section hstep (hloop nofun) (hgrow _), .inl rfl⟩
      · exact ⟨r, h.of_section hstep (hloop hne) fun _ _ hx => hx, .inl rfl⟩
      · obtain ⟨l, b, rfl, rfl, rfl⟩ := hw.pipe hg
        by_cases hkl : l = k
        · subst hkl
          obtain rfl : r.copiers b = pc := by simpa [h.copiers b] using hg
          obtain rfl : r.ends (!b) = src := by simpa [h.ends !b] using hsrc
          obtain rfl : r.ends b = dst := by simpa [h.ends b] using hdst
          obtain ⟨r', hr', hfwd⟩ := h.copy hcopy
          exact ⟨r', hfwd, .inr ⟨_, hr'⟩⟩
        · have hne : ∀ b d, conn k b ≠ conn l d := fun b d heq => hkl (conn_inj.mp heq).1.symm
          refine ⟨r, h.of_section hstep (fun d heq => hne d b (Nat.succ.inj heq)) ?_, .inl rfl⟩
          intro d x hx
          rw [List.getElem?_set_ne (hne d b).symm, List.getElem?_set_ne (hne d _).symm, hx]
  | inr w =>
    obtain ⟨conns', hpeer, rfl⟩ := Option.map_eq_some_iff.mp hstep
    obtain ⟨x, hx, hmap⟩ := Option.bind_eq_some_iff.mp hpeer
    obtain ⟨x', hx', rfl⟩ := Option.map_eq_some_iff.mp hmap
    by_cases hw' : ∃ b, conn k b = w.1
    · obtain ⟨b, hb⟩ := hw'
      rw [← hb] at hx ⊢
      obtain rfl : r.ends b = x := by simpa [h.ends b] using hx
      refine ⟨{ r with ends := Function.update r.ends b x' }, ⟨fun d => ?_, h.copiers⟩,
        .inr ⟨.peer b w.2, by simp only [Relay.step, hx', Option.map_some]⟩⟩
      by_cases hd : d = b
      · subst hd
        simp only [Function.update_self]
        exact List.getElem?_set_self (List.getElem?_eq_some_iff.mp hx).1
      · simp only [Function.update_of_ne hd]
        rw [List.getElem?_set_ne fun heq => hd (conn_inj.mp heq).2.symm]
        exact h.ends d
    · refine ⟨r, h.congr (fun b y hy => ?_) fun _ _ hg => hg, .inl rfl⟩
      rw [List.getElem?_set_ne fun heq => hw' ⟨b, heq.symm⟩, hy]

/-! ### What the proxy keeps -/

/-- A call of `Start` is the first goroutine. -/
lemma Wired.eq_zero {s : State} (hw : Wired s) {i : ℕ} {g : Goroutine}
    (hg : s.threads[i]? = some g) (hloop : ∀ f t pc, g ≠ .pipe f t pc) : i = 0 := by
  cases i with
  | zero => rfl
  | succ j =>
    obtain ⟨k, b, rfl⟩ := exists_conn j
    obtain ⟨pc, rfl⟩ := hw.pipes k b g hg
    exact absurd rfl (hloop _ _ _)

/-- Before the first connection all is wired. -/
lemma wired_start : Wired start where
  start := ⟨.accept, rfl, nofun⟩
  accept _ := rfl
  dial c h := by cases h
  length := ⟨Nat.le_refl 1, Nat.zero_le 1⟩
  odd := rfl
  pipes k b g h := by simp [start] at h
  unserved i x h := by simp [start] at h

/-- `Start` goes on with the same connections and goroutines. -/
lemma Wired.set_start {s : State} (hw : Wired s) {g : Goroutine} (hg : s.threads[0]? = some g)
    {g' : Goroutine} (hloop : ∀ f t pc, g' ≠ .pipe f t pc) (haccept : g' ≠ .accept)
    (hdial : ∀ c, g' ≠ .dial c) : Wired ⟨s.shared, s.threads.set 0 g'⟩ := by
  have hself : (s.threads.set 0 g')[0]? = some g' :=
    List.getElem?_set_self (List.getElem?_eq_some_iff.mp hg).1
  refine ⟨⟨g', hself, hloop⟩, fun h => ?_, fun c h => ?_, ?_, ?_, fun k b u hu => ?_, ?_⟩
  · exact absurd (Option.some.inj (hself.symm.trans h)) haccept
  · exact absurd (Option.some.inj (hself.symm.trans h)) (hdial c)
  · simpa only [List.length_set] using hw.length
  · simpa only [List.length_set] using hw.odd
  · exact hw.pipes k b u (by rwa [List.getElem?_set_ne (Nat.succ_ne_zero _).symm] at hu)
  · simpa only [List.length_set] using hw.unserved

/-- `Start` accepts a connection.

**Proof sketch.** The new connection is the last one and is not served yet; the pipes are as they
were. -/
lemma Wired.accepted {s : State} (hw : Wired s) (hg : s.threads[0]? = some .accept) :
    Wired ⟨s.shared ++ [Conn.opened], s.threads.set 0 (.dial s.shared.length)⟩ := by
  have hlen := hw.accept hg
  have hself : (s.threads.set 0 (.dial s.shared.length))[0]? = some (.dial s.shared.length) :=
    List.getElem?_set_self (List.getElem?_eq_some_iff.mp hg).1
  refine ⟨⟨_, hself, nofun⟩, fun h => ?_, fun c h => ?_, ?_, ?_, fun k b u hu => ?_,
    fun i x hx hi => ?_⟩
  · cases hself.symm.trans h
  · cases hself.symm.trans h
    simp only [List.length_append, List.length_set, List.length_singleton]
    exact ⟨trivial, hlen⟩
  · simp only [List.length_append, List.length_set, List.length_singleton]
    omega
  · simpa only [List.length_set] using hw.odd
  · exact hw.pipes k b u (by rwa [List.getElem?_set_ne (Nat.succ_ne_zero _).symm] at hu)
  · rw [List.length_set] at hi
    rcases List.mem_append.mp (List.mem_of_getElem? hx) with hmem | hmem
    · by_cases hlt : i < s.shared.length
      · rw [List.getElem?_append_left hlt] at hx
        exact hw.unserved i x hx hi
      · rw [List.getElem?_append_right (Nat.le_of_not_lt hlt)] at hx
        obtain rfl := List.mem_singleton.mp (List.mem_of_getElem? hx)
        exact ⟨rfl, rfl, rfl⟩
    · obtain rfl := List.mem_singleton.mp hmem
      exact ⟨rfl, rfl, rfl⟩

/-- The numbers of the connections and of the goroutines when `Start` dials. -/
lemma Wired.dialing {s : State} (hw : Wired s) {c : ℕ} (hg : s.threads[0]? = some (.dial c)) :
    ∃ l, s.threads.length = 2 * l + 1 ∧ c = conn l false ∧ s.shared.length = conn l true := by
  obtain ⟨hc, hlen⟩ := hw.dial c hg
  have hodd := hw.odd
  refine ⟨s.threads.length / 2, ?_, ?_, ?_⟩
  · omega
  · simp only [conn, Bool.toNat_false]
    omega
  · simp only [conn, Bool.toNat_true]
    omega

/-- The goroutines of a pair that has just been connected. -/
lemma getElem?_dialed {gs : List Goroutine} {l : ℕ} (hlen : gs.length = 2 * l + 1) (b : Bool) :
    (gs.set 0 .accept ++ [.pipe (conn l false) (conn l true) .read,
      .pipe (conn l true) (conn l false) .read])[conn l b + 1]? =
        some (.pipe (conn l b) (conn l !b) .read) := by
  have hge : (gs.set 0 Goroutine.accept).length ≤ conn l b + 1 := by
    rw [List.length_set, hlen, conn]
    omega
  rw [List.getElem?_append_right hge, List.length_set, hlen]
  cases b with
  | false =>
    rw [show conn l false + 1 - (2 * l + 1) = 0 by simp [conn]]
    rfl
  | true =>
    rw [show conn l true + 1 - (2 * l + 1) = 1 by simp [conn]]
    rfl

/-- `Start` reaches the upstream of the connection that it has accepted.

**Proof sketch.** The connection that was accepted last and the one to the upstream make a new pair,
the last one, for which the two new pipes copy. -/
lemma Wired.dialed {s : State} (hw : Wired s) {c : ℕ} (hg : s.threads[0]? = some (.dial c)) :
    Wired ⟨s.shared ++ [Conn.opened], s.threads.set 0 .accept ++
      [.pipe c s.shared.length .read, .pipe s.shared.length c .read]⟩ := by
  obtain ⟨hc, hlen⟩ := hw.dial c hg
  obtain ⟨l, hl, rfl, hup⟩ := hw.dialing hg
  have hself : (s.threads.set 0 Goroutine.accept ++ [.pipe (conn l false) s.shared.length .read,
      .pipe s.shared.length (conn l false) .read])[0]? = some .accept := by
    rw [List.getElem?_append_left (by rw [List.length_set]; omega),
      List.getElem?_set_self (by omega)]
  refine ⟨⟨_, hself, nofun⟩, fun _ => ?_, fun d h => ?_, ?_, ?_, fun k b u hu => ?_,
    fun i x hx hi => ?_⟩
  · simp only [List.length_append, List.length_set, List.length_cons, List.length_nil]
    omega
  · cases hself.symm.trans h
  · simp only [List.length_append, List.length_set, List.length_cons, List.length_nil]
    omega
  · simp only [List.length_append, List.length_set, List.length_cons, List.length_nil]
    omega
  · by_cases hlt : conn k b + 1 < s.threads.length
    · rw [List.getElem?_append_left (by rwa [List.length_set]),
        List.getElem?_set_ne (Nat.succ_ne_zero _).symm] at hu
      exact hw.pipes k b u hu
    · have hlt' := (List.getElem?_eq_some_iff.mp hu).1
      simp only [List.length_append, List.length_set, List.length_cons, List.length_nil] at hlt'
      obtain rfl : k = l := by
        cases b <;> simp only [conn, Bool.toNat_false, Bool.toNat_true] at hlt hlt' <;> omega
      rw [hup, getElem?_dialed hl] at hu
      exact ⟨.read, (Option.some.inj hu).symm⟩
  · have hlt := (List.getElem?_eq_some_iff.mp hx).1
    simp only [List.length_append, List.length_set, List.length_cons, List.length_nil] at hlt hi
    omega

/-- A pair that has just been connected is fresh.

**Proof sketch.** The pair is the last one. Its two goroutines are the new ones, which have read
nothing, and nothing has been taken from or written to its connections. -/
lemma Wired.fresh {s : State} (hw : Wired s) {c : ℕ} (hg : s.threads[0]? = some (.dial c)) {k : ℕ}
    {r : Relay UInt8}
    (h : Forwards ⟨s.shared ++ [Conn.opened], s.threads.set 0 .accept ++
      [.pipe c s.shared.length .read, .pipe s.shared.length c .read]⟩ k r)
    (hnew : s.threads.length ≤ conn k true + 1) : r.Fresh := by
  obtain ⟨hc, hlen⟩ := hw.dial c hg
  obtain ⟨l, hl, rfl, hup⟩ := hw.dialing hg
  have hlt := (List.getElem?_eq_some_iff.mp (h.copiers true)).1
  simp only [List.length_append, List.length_set, List.length_cons, List.length_nil, conn,
    Bool.toNat_true] at hlt hnew
  obtain rfl : k = l := by omega
  have hcopiers : ∀ b, r.copiers b = .read := by
    intro b
    have hb := h.copiers b
    simp only [hup, getElem?_dialed hl, Option.some.injEq, Goroutine.pipe.injEq, true_and] at hb
    exact hb.symm
  have hends : ∀ b, (r.ends b).taken = 0 ∧ (r.ends b).outgoing = [] ∧
      (r.ends b).closed = false := by
    intro b
    have hb := h.ends b
    cases b with
    | false =>
      rw [List.getElem?_append_left (by omega)] at hb
      exact hw.unserved _ _ hb (by omega)
    | true =>
      rw [← hup, List.getElem?_append_right (Nat.le_refl _), Nat.sub_self] at hb
      rw [List.mem_singleton.mp (List.mem_of_getElem? hb)]
      exact ⟨rfl, rfl, rfl⟩
  exact ⟨hcopiers, fun b => (hends b).1, fun b => (hends b).2.1, fun b => (hends b).2.2⟩

/-- A `pipe` takes a step of its copy.

**Proof sketch.** Only the two connections of the pair change, and only the goroutine that copies;
which pair a goroutine copies for stays as it is. -/
lemma Wired.copied {s : State} (hw : Wired s) {k : ℕ} {b : Bool} {pc : Copier UInt8}
    (hg : s.threads[conn k b + 1]? = some (.pipe (conn k b) (conn k !b) pc)) (src dst : Conn)
    (pc' : Copier UInt8) :
    Wired ⟨(s.shared.set (conn k !b) src).set (conn k b) dst,
      s.threads.set (conn k b + 1) (.pipe (conn k b) (conn k !b) pc')⟩ := by
  have hzero : ∀ g, (s.threads.set (conn k b + 1) g)[0]? = s.threads[0]? :=
    fun g => List.getElem?_set_ne (Nat.succ_ne_zero _)
  refine ⟨?_, fun h => ?_, fun c h => ?_, ?_, ?_, fun l d u hu => ?_, fun i x hx hi => ?_⟩
  · simpa only [hzero] using hw.start
  · simpa only [List.length_set] using hw.accept (by rwa [hzero] at h)
  · simpa only [List.length_set] using hw.dial c (by rwa [hzero] at h)
  · simpa only [List.length_set] using hw.length
  · simpa only [List.length_set] using hw.odd
  · by_cases heq : conn l d = conn k b
    · obtain ⟨rfl, rfl⟩ := conn_inj.mp heq
      rw [List.getElem?_set_self (List.getElem?_eq_some_iff.mp hg).1] at hu
      exact ⟨pc', (Option.some.inj hu).symm⟩
    · exact hw.pipes l d u (by rwa [List.getElem?_set_ne fun h => heq (Nat.succ.inj h).symm] at hu)
  · have hlt := (List.getElem?_eq_some_iff.mp hg).1
    have hodd := hw.odd
    rw [List.length_set] at hi
    have hne : ∀ d, conn k d ≠ i := by
      rintro d rfl
      cases b <;> cases d <;> simp only [conn, Bool.toNat_false, Bool.toNat_true] at hlt hi <;>
        omega
    rw [List.getElem?_set_ne (hne b), List.getElem?_set_ne (hne _)] at hx
    exact hw.unserved i x hx hi

/-- The peer of a connection does something. -/
lemma Wired.peer {s : State} (hw : Wired s) {i : ℕ} {x x' : Conn} {e : PeerEvent UInt8}
    (hx : s.shared[i]? = some x) (hpeer : x.peer e = some x') :
    Wired ⟨s.shared.set i x', s.threads⟩ := by
  refine ⟨hw.start, fun h => ?_, fun c h => ?_, ?_, hw.odd, hw.pipes, fun j y hy hj => ?_⟩
  · simpa only [List.length_set] using hw.accept h
  · simpa only [List.length_set] using hw.dial c h
  · simpa only [List.length_set] using hw.length
  · by_cases hij : i = j
    · subst hij
      rw [List.getElem?_set_self (List.getElem?_eq_some_iff.mp hx).1] at hy
      obtain rfl := Option.some.inj hy
      obtain ⟨⟨htaken, hout, hclosed⟩, -⟩ := Relays.Endpoint.peer_frame hpeer
      rw [htaken, hout, hclosed]
      exact hw.unserved i x hx hj
    · rw [List.getElem?_set_ne hij] at hy
      exact hw.unserved j y hy hj

/-- **One step keeps what the proxy keeps.**

**Proof sketch.** Case split with `next_cases`. A connection that is accepted or dialed is added at
the end, with two pipes to it once there are both; a pipe that copies changes its own two
connections, and so does a peer. -/
theorem step_wired {s s' : State} {m : Move Goroutine Event ⊕ (Ref × PeerEvent UInt8)}
    (hw : Wired s) (hstep : step s m = some s') : Wired s' := by
  cases m with
  | inl m =>
    replace hstep : proxy.step s m = some s' := hstep
    obtain ⟨g, -, hent, -⟩ | ⟨i, e, g, conns', g', new, rfl, hg, hnext, rfl⟩ :=
      Program.step_cases hstep
    · cases hent
    · obtain ⟨rfl, rfl, rfl, rfl⟩ | ⟨c, rfl, rfl, rfl, rfl⟩ | ⟨hne, rfl, rfl, rfl⟩ |
        ⟨f, t, pc, ce, src, dst, src', dst', pc', rfl, -, -, -, rfl, rfl, rfl⟩ := next_cases hnext
      · obtain rfl := hw.eq_zero hg nofun
        rw [List.append_nil]
        exact hw.accepted hg
      · obtain rfl := hw.eq_zero hg nofun
        exact hw.dialed hg
      · obtain rfl := hw.eq_zero hg hne
        rw [List.append_nil]
        exact hw.set_start hg nofun nofun nofun
      · obtain ⟨k, b, rfl, rfl, rfl⟩ := hw.pipe hg
        rw [List.append_nil]
        exact hw.copied hg src' dst' pc'
  | inr w =>
    obtain ⟨conns', hpeer, rfl⟩ := Option.map_eq_some_iff.mp hstep
    obtain ⟨x, hx, hmap⟩ := Option.bind_eq_some_iff.mp hpeer
    obtain ⟨x', hx', rfl⟩ := Option.map_eq_some_iff.mp hmap
    exact hw.peer hx hx'

/-- Where both goroutines of a pair have been started, it is a relay. -/
lemma Wired.forwards {s : State} (hw : Wired s) {k : ℕ} (hlt : conn k true + 1 < s.threads.length) :
    ∃ r, Forwards s k r := by
  have hlen := hw.length
  have hpipe : ∀ b, ∃ x pc, s.shared[conn k b]? = some x ∧
      s.threads[conn k b + 1]? = some (.pipe (conn k b) (conn k !b) pc) := by
    intro b
    have hle : conn k b ≤ conn k true := by cases b <;> simp [conn]
    have hltb : conn k b + 1 < s.threads.length := by omega
    obtain ⟨pc, hpc⟩ := hw.pipes k b _ (List.getElem?_eq_getElem hltb)
    exact ⟨_, pc, List.getElem?_eq_getElem (by omega), by rw [List.getElem?_eq_getElem hltb, hpc]⟩
  choose ends copiers hends hcopiers using hpipe
  exact ⟨⟨ends, copiers⟩, hends, hcopiers⟩

/-- **Every pair keeps what a relay keeps.** -/
structure Served (s : State) : Prop where
  wired : Wired s
  sound : ∀ k r, Forwards s k r → r.Sound

/-- Before the first connection all is served. -/
lemma served_start : Served start where
  wired := wired_start
  sound k r h := by
    have h0 := h.ends false
    simp [start] at h0

/-- A pair was there before the step, or it is fresh.

**Proof sketch.** A pair whose second goroutine was there before was a pair before
(`Wired.forwards`). Otherwise goroutines have been started in the step, so it is the one of the dial
(`Wired.fresh`). -/
lemma forwards_before {s s' : State} {m : Move Goroutine Event ⊕ (Ref × PeerEvent UInt8)} {k : ℕ}
    {r' : Relay UInt8} (hw : Wired s) (hstep : step s m = some s') (h : Forwards s' k r') :
    (∃ r, Forwards s k r) ∨ r'.Fresh := by
  by_cases hlt : conn k true + 1 < s.threads.length
  · exact .inl (hw.forwards hlt)
  · right
    have hge := Nat.le_of_not_lt hlt
    have hlen := (List.getElem?_eq_some_iff.mp (h.copiers true)).1
    cases m with
    | inl m =>
      replace hstep : proxy.step s m = some s' := hstep
      obtain ⟨g, -, hent, -⟩ | ⟨i, e, g, conns', g', new, rfl, hg, hnext, rfl⟩ :=
        Program.step_cases hstep
      · cases hent
      · have hnil : new ≠ [] := by
          rintro rfl
          rw [List.append_nil, List.length_set] at hlen
          omega
        obtain ⟨-, -, -, hnew⟩ | ⟨c, rfl, rfl, rfl, rfl⟩ | ⟨-, -, -, hnew⟩ |
          ⟨f, t, pc, ce, src, dst, src', dst', pc', -, -, -, -, -, -, hnew⟩ := next_cases hnext
        · exact absurd hnew hnil
        · obtain rfl := hw.eq_zero hg nofun
          exact hw.fresh hg h hge
        · exact absurd hnew hnil
        · exact absurd hnew hnil
    | inr w =>
      obtain ⟨conns', -, rfl⟩ := Option.map_eq_some_iff.mp hstep
      exact absurd hlen hlt

/-- **Step theorem.** Every move leaves all pairs served: a new pair begins with its first bytes,
and a pair that is there moves as its relay does. -/
theorem step_served {s s' : State} {m : Move Goroutine Event ⊕ (Ref × PeerEvent UInt8)}
    (hs : Served s) (hstep : step s m = some s') : Served s' where
  wired := step_wired hs.wired hstep
  sound k r' h' := by
    obtain ⟨r, h⟩ | hfresh := forwards_before hs.wired hstep h'
    · obtain ⟨r₁, h₁, hr₁⟩ := forwards_step hs.wired h hstep
      obtain rfl := h'.unique h₁
      obtain rfl | ⟨e, he⟩ := hr₁
      · exact hs.sound k r' h
      · exact Relay.step_sound (hs.sound k r h) he
    · exact hfresh.sound

/-- **Run lemma.** So all pairs are served after every run. -/
lemma served_of_run {s : State} {moves : List (Move Goroutine Event ⊕ (Ref × PeerEvent UInt8))}
    (hrun : Runs.run step start moves = some s) : Served s :=
  Runs.invariant (fun _ _ _ hs hstep => step_served hs hstep) served_start hrun

/-- **A run takes each pair along a run of its relay.** -/
lemma forwards_of_run : ∀ {moves : List (Move Goroutine Event ⊕ (Ref × PeerEvent UInt8))}
    {s s' : State} {k : ℕ} {r : Relay UInt8}, Wired s → Forwards s k r →
      Runs.run step s moves = some s' →
        ∃ r' events, Forwards s' k r' ∧ Runs.run Relay.step r events = some r'
  | [], s, s', k, r, _, h, hrun => by
    obtain rfl := Option.some.inj hrun
    exact ⟨r, [], h, rfl⟩
  | m :: moves, s, s', k, r, hw, h, hrun => by
    obtain ⟨s₁, hstep, hrun⟩ := Runs.run_cons_eq_some.mp hrun
    obtain ⟨r₁, h₁, hr₁⟩ := forwards_step hw h hstep
    obtain ⟨r', events, h', hrun'⟩ := forwards_of_run (step_wired hw hstep) h₁ hrun
    obtain rfl | ⟨e, he⟩ := hr₁
    · exact ⟨r', events, h', hrun'⟩
    · exact ⟨r', e :: events, h', Runs.run_cons_eq_some.mpr ⟨r₁, he, hrun'⟩⟩

/-- The goroutines of a pair can do what the copiers of the relay can. -/
lemma Forwards.lift {s : State} {k : ℕ} {r r' : Relay UInt8} {b : Bool} {ce : CopyEvent}
    (h : Forwards s k r) (hstep : r.step (.copy b ce) = some r') :
    ∃ s', step s (.inl (.step (conn k b + 1) (.copy ce))) = some s' ∧ Forwards s' k r' := by
  obtain ⟨⟨src, dst, pc⟩, hnext, rfl⟩ := Option.map_eq_some_iff.mp hstep
  have hg := h.copiers b
  have hsection : next s.shared (.pipe (conn k b) (conn k !b) (r.copiers b)) (.copy ce) =
      some ((s.shared.set (conn k !b) src).set (conn k b) dst, .pipe (conn k b) (conn k !b) pc,
        []) := by
    simp only [next, h.ends, hnext, Option.map_some]
  refine ⟨⟨_, _⟩, Program.step_section.mpr ⟨_, _, _, _, hg, hsection, rfl⟩, ?_⟩
  obtain ⟨r₁, hr₁, h₁⟩ := h.copy hnext
  obtain rfl := Option.some.inj (hstep.symm.trans hr₁)
  exact h₁

/-- **The other direction can end** once one has. -/
lemma Forwards.exists_run_to_closed {k : ℕ} {b : Bool} :
    ∀ {events : List (Relays.Event UInt8)} {s : State} {r r' : Relay UInt8}, Forwards s k r →
      (∀ e ∈ events, ∃ ce, e = .copy b ce) → Runs.run Relay.step r events = some r' →
        ∃ moves s', (∀ m ∈ moves, ∃ ce, m = .inl (.step (conn k b + 1) (.copy ce))) ∧
          Runs.run step s moves = some s' ∧ Forwards s' k r'
  | [], s, r, r', h, _, hrun => by
    obtain rfl := Option.some.inj hrun
    exact ⟨[], s, fun _ hm => absurd hm List.not_mem_nil, rfl, h⟩
  | e :: events, s, r, r', h, hevents, hrun => by
    obtain ⟨ce, rfl⟩ := hevents e List.mem_cons_self
    obtain ⟨r₁, hstep, hrest⟩ := Runs.run_cons_eq_some.mp hrun
    obtain ⟨s₁, hs₁, h₁⟩ := h.lift hstep
    obtain ⟨moves, s', hmoves, hrun', h'⟩ := h₁.exists_run_to_closed
      (fun e he => hevents e (List.mem_cons_of_mem _ he)) hrest
    exact ⟨_ :: moves, s', List.forall_mem_cons.mpr ⟨⟨ce, rfl⟩, hmoves⟩,
      Runs.run_cons_eq_some.mpr ⟨s₁, hs₁, hrun'⟩, h'⟩

/-- **What is delivered to whom.** After any steps of `Start`, of the goroutines that it has
started, of the clients and of the upstream, only a connection that is one of a pair has been
written to or closed. What has been written to one of a pair is what was first received from the
other; a connection of the pair is closed when one of them is broken, or after all that one side has
sent until its end has been delivered to the other. From then on the other direction writes of the
chunk that it has read, and no more; and it can come to its end, by itself.

**Proof sketch.** Each pair takes the steps of a relay (`forwards_step`), and what a relay keeps. -/
theorem forwards_delivers {s : State}
    {moves : List (Move Goroutine Event ⊕ (Ref × PeerEvent UInt8))}
    (hrun : Runs.run step start moves = some s) :
    (∀ i x, s.shared[i]? = some x → x.outgoing ≠ [] ∨ x.closed = true →
      ∃ k b r, i = conn k b ∧ Forwards s k r) ∧
    ∀ k r, Forwards s k r →
      (∀ b, (r.ends b).outgoing <+: (r.ends !b).incoming) ∧
      (∀ b, (r.ends b).closed = true → r.Broken ∨ ∃ d, r.Complete d) ∧
      ∀ b, (r.ends !b).closed = true →
        (∀ moves' s', Runs.run step s moves' = some s' → ∃ r', Forwards s' k r' ∧
          (r'.ends b).outgoing <+: (r.ends b).outgoing ++ (r.copiers b).held) ∧
        ∃ moves' s' r', (∀ m ∈ moves', ∃ ce, m = .inl (.step (conn k b + 1) (.copy ce))) ∧
          Runs.run step s moves' = some s' ∧ Forwards s' k r' ∧ (r'.ends b).closed = true := by
  have hs := served_of_run hrun
  refine ⟨fun i x hx hused => ?_, fun k r h => ?_⟩
  · obtain ⟨k, b, rfl⟩ := exists_conn i
    have hodd := hs.wired.odd
    have hlt : conn k b + 1 < s.threads.length := by
      by_contra hge
      obtain ⟨-, hout, hclosed⟩ := hs.wired.unserved _ _ hx (Nat.le_of_not_lt hge)
      rcases hused with hne | hclosed'
      · exact hne hout
      · rw [hclosed] at hclosed'
        cases hclosed'
    have hlt' : conn k true + 1 < s.threads.length := by
      cases b <;> simp only [conn, Bool.toNat_false, Bool.toNat_true] at hlt ⊢ <;> omega
    obtain ⟨r, hr⟩ := hs.wired.forwards hlt'
    exact ⟨k, b, r, rfl, hr⟩
  · have hsound := hs.sound k r h
    refine ⟨hsound.outgoing_prefix, fun b hclosed => hsound.finished hclosed, fun b hclosed =>
      ⟨fun moves' s' hrun' => ?_, ?_⟩⟩
    · obtain ⟨r', events, h', hrun'⟩ := forwards_of_run hs.wired h hrun'
      exact ⟨r', h', Relay.outgoing_of_closed hclosed hrun'⟩
    · obtain ⟨events, r', hevents, hrun', hclosed'⟩ := hsound.exists_run_to_closed hclosed
      obtain ⟨moves', s', hmoves, hrun'', h'⟩ := h.exists_run_to_closed hevents hrun'
      exact ⟨moves', s', r', hmoves, hrun'', h', hclosed'⟩

/-- A client sends a request and closes its side; the request is delivered, and the connection to
the upstream is closed before the answer. -/
def halfClosed : List (Move Goroutine Event ⊕ (Ref × PeerEvent UInt8)) :=
  [.inl (.step 0 .ok), .inr (0, .send [71, 69, 84]), .inl (.step 0 .ok), .inr (0, .finish),
    .inl (.step 2 (.copy (.read 3))), .inl (.step 2 (.copy (.write 3))),
    .inl (.step 2 (.copy .eof)), .inl (.step 2 (.copy .close)), .inr (1, .send [79, 75])]

/-- The state after `halfClosed`. -/
def afterHalfClosed : State := (Runs.run step start halfClosed).get rfl

/-- The request has been delivered, and the answer is not. -/
theorem forwards_delivers_halfClosed :
    (∀ i x, afterHalfClosed.shared[i]? = some x → x.outgoing ≠ [] ∨ x.closed = true →
      ∃ k b r, i = conn k b ∧ Forwards afterHalfClosed k r) ∧
    ∀ k r, Forwards afterHalfClosed k r →
      (∀ b, (r.ends b).outgoing <+: (r.ends !b).incoming) ∧
      (∀ b, (r.ends b).closed = true → r.Broken ∨ ∃ d, r.Complete d) ∧
      ∀ b, (r.ends !b).closed = true →
        (∀ moves' s', Runs.run step afterHalfClosed moves' = some s' → ∃ r', Forwards s' k r' ∧
          (r'.ends b).outgoing <+: (r.ends b).outgoing ++ (r.copiers b).held) ∧
        ∃ moves' s' r', (∀ m ∈ moves', ∃ ce, m = .inl (.step (conn k b + 1) (.copy ce))) ∧
          Runs.run step afterHalfClosed moves' = some s' ∧ Forwards s' k r' ∧
            (r'.ends b).closed = true :=
  forwards_delivers (Option.some_get rfl).symm

example : afterHalfClosed.shared.map (fun x => (x.outgoing, x.closed)) =
    [([], false), ([71, 69, 84], true)] := by decide

/-! ### A connection without an upstream -/

/-- A call of `Start` that has returned opens no connection and starts no goroutine.

**Proof sketch.** Only `Start` itself opens connections and starts goroutines (`next_cases`), and it
has no step any more. -/
lemma returned_of_step {s s' : State} {m : Move Goroutine Event ⊕ (Ref × PeerEvent UInt8)}
    (hw : Wired s) (hret : s.threads[0]? = some .returned) (hstep : step s m = some s') :
    s'.threads[0]? = some .returned ∧ s'.threads.length = s.threads.length ∧
      s'.shared.length = s.shared.length := by
  cases m with
  | inl m =>
    replace hstep : proxy.step s m = some s' := hstep
    obtain ⟨g, -, hent, -⟩ | ⟨i, e, g, conns', g', new, rfl, hg, hnext, rfl⟩ :=
      Program.step_cases hstep
    · cases hent
    · by_cases hi : i = 0
      · subst hi
        obtain rfl := Option.some.inj (hret.symm.trans hg)
        cases hnext
      · obtain ⟨rfl, -⟩ | ⟨c, rfl, -⟩ | ⟨hne, -⟩ |
          ⟨f, t, pc, ce, src, dst, src', dst', pc', rfl, -, -, -, rfl, rfl, rfl⟩ := next_cases hnext
        · exact absurd (hw.eq_zero hg nofun) hi
        · exact absurd (hw.eq_zero hg nofun) hi
        · exact absurd (hw.eq_zero hg hne) hi
        · simp only [List.append_nil, List.length_set, List.getElem?_set_ne hi]
          exact ⟨hret, trivial, trivial⟩
  | inr w =>
    obtain ⟨conns', hpeer, rfl⟩ := Option.map_eq_some_iff.mp hstep
    obtain ⟨x, hx, hmap⟩ := Option.bind_eq_some_iff.mp hpeer
    obtain ⟨x', hx', rfl⟩ := Option.map_eq_some_iff.mp hmap
    exact ⟨hret, rfl, List.length_set⟩

/-- **A connection is left behind when its upstream is not reached**: `Start` returns, and for good;
no connection is accepted any more, and the one that has been accepted last is never read, written
to or closed.

**Proof sketch.** The invariant is that `Start` has returned, and that no goroutine or
connection has been added. A step keeps it (`returned_of_step`), and one that is not served has
no goroutine. -/
theorem unserved_stays {s s' : State}
    {moves moves' : List (Move Goroutine Event ⊕ (Ref × PeerEvent UInt8))}
    (hrun : Runs.run step start moves = some s) (hret : s.threads[0]? = some .returned)
    (hrun' : Runs.run step s moves' = some s') :
    s'.shared.length = s.shared.length ∧
      ∀ i x, s'.shared[i]? = some x → s.threads.length ≤ i + 1 →
        x.taken = 0 ∧ x.outgoing = [] ∧ x.closed = false := by
  have hinv : Wired s' ∧ s'.threads[0]? = some .returned ∧
      s'.threads.length = s.threads.length ∧ s'.shared.length = s.shared.length :=
    Runs.invariant (I := fun u => Wired u ∧ u.threads[0]? = some .returned ∧
        u.threads.length = s.threads.length ∧ u.shared.length = s.shared.length)
      (fun u m u' ⟨hw, hret, hthreads, hshared⟩ hstep => by
        obtain ⟨hret', hthreads', hshared'⟩ := returned_of_step hw hret hstep
        exact ⟨step_wired hw hstep, hret', hthreads'.trans hthreads, hshared'.trans hshared⟩)
      ⟨(served_of_run hrun).wired, hret, rfl, rfl⟩ hrun'
  obtain ⟨hw, -, hthreads, hshared⟩ := hinv
  exact ⟨hshared, fun i x hx hi => hw.unserved i x hx (hthreads ▸ hi)⟩

end Forwarding

end Fecore
