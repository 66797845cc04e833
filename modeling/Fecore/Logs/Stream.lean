import Mathlib.Tactic.Common
import Fecore.Concurrency.Runs
import Fecore.Logs.Journal

set_option relaxedAutoImplicit false
set_option autoImplicit false

/-!
# The stream of log messages

`Query` of `pkg/logs/requestor.go` starts `journalctl` and returns a channel, to which `streamLogs`
sends what `journalctl` prints, entry by entry; a second goroutine waits for the command and closes
the pipe when it has exited, whether or not all of it has been read.

## Main definitions

* `Fecore.JournalValue`, `Fecore.messages` — what `journalctl` prints, and the messages in it up to
  the first value that is none.
* `Fecore.LogStream`, `Fecore.LogStream.step` — the command, the pipe, the goroutines and the reader
  of the channel, in any order of their steps.

## Main results

* `Fecore.LogStream.step_streaming` — what has been decoded is what has been delivered, and what
  waits to be.
* `Fecore.LogStream.streamLogs_delivers` — the messages are delivered in their order and once, and
  all of them unless the request is cancelled or the pipe is closed too early; the stream ends.
* `Fecore.LogStream.send_waits` — a reader that is gone leaves `streamLogs` behind.

## Design

A value counts as read when the decoder has all of it. The channel has no buffer, so a message is
sent when it is received.
-/

namespace Fecore

/-! ### The output of `journalctl` -/

/-- A value in the output, as the decoder finds it. -/
inductive JournalValue
  /-- an object of strings -/
  | entry (fields : GoMap Str)
  /-- anything else, for which `Decode` returns an error -/
  | malformed
  /-- a closing bracket, for which `More` returns false -/
  | bracket

/-- The message of an entry. -/
def JournalValue.message? : JournalValue → Option LogsMessage
  | .entry fields =>
    match parseEntry fields with
    | .error _ => none
    | .ok msg => some msg
  | .malformed | .bracket => none

/-- The messages up to the first value that is none. -/
def messages : List JournalValue → List LogsMessage
  | [] => []
  | v :: vs =>
    match v.message? with
    | none => []
    | some msg => msg :: messages vs

/-- Values that are all messages come first. -/
lemma messages_append {vs : List JournalValue} {msgs : List LogsMessage}
    (h : vs.map JournalValue.message? = msgs.map some) (rest : List JournalValue) :
    messages (vs ++ rest) = msgs ++ messages rest := by
  induction vs generalizing msgs with
  | nil =>
    obtain rfl : msgs = [] := by simpa using h.symm
    rfl
  | cons v vs ih =>
    cases msgs with
    | nil => simp at h
    | cons msg msgs =>
      simp only [List.map_cons, List.cons.injEq] at h
      simp only [List.cons_append, messages, h.1, ih h.2]

/-- Nothing behind a value that is no message is one. -/
lemma messages_of_message?_eq_none {v : JournalValue} (h : v.message? = none)
    (rest : List JournalValue) : messages (v :: rest) = [] := by
  simp only [messages, h]

/-! ### The stream -/

/-- Where `streamLogs` stands. -/
inductive StreamPc
  /-- `dec.More` is next -/
  | more
  /-- `ctx.Err` is next -/
  | check
  /-- `dec.Decode` and `parseEntry` are next -/
  | decode
  /-- `msgs <- msg` is next -/
  | send (msg : LogsMessage)
  /-- `streamLogs` has returned, and the channel is closed -/
  | closed
deriving DecidableEq

/-- A request for logs after `Query` has returned. -/
structure LogStream where
  /-- all that `journalctl` has printed -/
  printed : List JournalValue := []
  /-- how many values have been read from the pipe -/
  read : ℕ := 0
  /-- how many values have been decoded -/
  decoded : ℕ := 0
  /-- `journalctl` has exited -/
  exited : Bool := false
  /-- `cmd.Wait` has returned, and the pipe is closed -/
  waited : Bool := false
  cancelled : Bool := false
  pc : StreamPc := .more
  /-- what the reader of the channel has received -/
  delivered : List LogsMessage := []

/-- What happens next. -/
inductive StreamEvent
  /-- `journalctl` prints a value -/
  | print (v : JournalValue)
  | exit
  /-- `cmd.Wait` returns -/
  | wait
  /-- the context of the request is cancelled -/
  | cancel
  /-- the decoder reads values from the pipe -/
  | fill (n : ℕ)
  /-- `streamLogs` goes on -/
  | next
  /-- the reader receives a message -/
  | receive

namespace LogStream

/-- `streamLogs` goes on, where it does not wait. -/
def next (s : LogStream) : Option LogStream :=
  match s.pc with
  | .more =>
    if s.decoded < s.read then
      match s.printed[s.decoded]? with
      | none | some .bracket => some { s with pc := .closed }
      | some _ => some { s with pc := .check }
    else if s.waited ∨ s.exited ∧ s.read = s.printed.length then some { s with pc := .closed }
    else none
  | .check => if s.cancelled then some { s with pc := .closed } else some { s with pc := .decode }
  | .decode =>
    match s.printed[s.decoded]?.bind JournalValue.message? with
    | none => some { s with pc := .closed }
    | some msg => some { s with decoded := s.decoded + 1, pc := .send msg }
  | .send _ | .closed => none

/-- One step. The decoder reads when it has decoded all that it has read. -/
def step (s : LogStream) : StreamEvent → Option LogStream
  | .print v => if s.exited then none else some { s with printed := s.printed ++ [v] }
  | .exit => some { s with exited := true }
  | .wait => if s.exited then some { s with waited := true } else none
  | .cancel => some { s with cancelled := true }
  | .fill n =>
    if s.pc = .more ∧ s.decoded = s.read ∧ s.waited = false ∧ 0 < n ∧
        s.read + n ≤ s.printed.length then
      some { s with read := s.read + n }
    else none
  | .next => s.next
  | .receive =>
    match s.pc with
    | .send msg => some { s with pc := .more, delivered := s.delivered ++ [msg] }
    | _ => none

/-! ### What has been delivered -/

/-- The message that waits to be received. -/
def pending (s : LogStream) : List LogsMessage :=
  match s.pc with
  | .send msg => [msg]
  | _ => []

/-- Why a stream has ended: it was cancelled, the next value is no message, or the pipe is read to
its end or closed. -/
def Ended (s : LogStream) : Prop :=
  s.cancelled = true ∨ (∃ v, s.printed[s.decoded]? = some v ∧ v.message? = none) ∨
    s.exited = true ∧ s.decoded = s.read ∧ (s.read = s.printed.length ∨ s.waited = true)

/-- **What a stream keeps.** -/
structure Streaming (s : LogStream) : Prop where
  decoded_le : s.decoded ≤ s.read
  read_le : s.read ≤ s.printed.length
  exited : s.waited = true → s.exited = true
  values : (s.printed.take s.decoded).map JournalValue.message? =
    (s.delivered ++ s.pending).map some
  available : s.pc = .check ∨ s.pc = .decode → s.decoded < s.read
  ended : s.pc = .closed → s.Ended

/-- The first values of a longer output are the same. -/
lemma take_append_decoded {s : LogStream} (h : s.Streaming) (vs : List JournalValue) :
    (s.printed ++ vs).take s.decoded = s.printed.take s.decoded :=
  List.take_append_of_le_length (h.decoded_le.trans h.read_le)

/-- **The output goes on** while the command runs. -/
lemma Streaming.print {s : LogStream} (h : s.Streaming) (hexit : s.exited = false)
    (v : JournalValue) : Streaming { s with printed := s.printed ++ [v] } where
  decoded_le := h.decoded_le
  read_le := h.read_le.trans (by rw [List.length_append]; exact Nat.le_add_right _ _)
  exited := h.exited
  values := by
    rw [take_append_decoded h]
    exact h.values
  available := h.available
  ended hpc := by
    rcases h.ended hpc with hcancel | ⟨u, hu, hbad⟩ | ⟨hexit', -⟩
    · exact .inl hcancel
    · have hlt := (List.getElem?_eq_some_iff.mp hu).1
      exact .inr (.inl ⟨u, by rw [List.getElem?_append_left hlt, hu], hbad⟩)
    · rw [hexit] at hexit'
      cases hexit'

/-- A stream that stays where it is, with more known about it. -/
lemma Ended.mono {s s' : LogStream} (h : s.Ended) (hprinted : s'.printed = s.printed)
    (hdecoded : s'.decoded = s.decoded) (hread : s'.read = s.read)
    (hexited : s.exited = true → s'.exited = true) (hwaited : s.waited = true → s'.waited = true)
    (hcancelled : s.cancelled = true → s'.cancelled = true) : s'.Ended := by
  unfold Ended at h ⊢
  rw [hprinted, hdecoded, hread]
  exact h.imp hcancelled (.imp_right fun ⟨hexit, heq, hend⟩ =>
    ⟨hexited hexit, heq, hend.imp_right hwaited⟩)

/-- `streamLogs` goes on without a message in its hands. -/
lemma Streaming.goto {s : LogStream} (h : s.Streaming) (hnone : s.pending = []) {pc : StreamPc}
    (hpc : ∀ msg, pc ≠ .send msg) (havail : pc = .check ∨ pc = .decode → s.decoded < s.read)
    (hended : pc = .closed → s.Ended) : Streaming { s with pc := pc } where
  decoded_le := h.decoded_le
  read_le := h.read_le
  exited := h.exited
  values := by
    have hnone' : pending { s with pc := pc } = [] := by
      cases pc with
      | send msg => exact absurd rfl (hpc msg)
      | _ => rfl
    rw [h.values, hnone, hnone']
  available := havail
  ended := hended

/-- `streamLogs` returns. -/
lemma Streaming.close {s : LogStream} (h : s.Streaming) (hnone : s.pending = [])
    (hended : s.Ended) : Streaming { s with pc := .closed } :=
  h.goto hnone (fun _ hpc => by cases hpc) (fun hpc => by rcases hpc with hpc | hpc <;> cases hpc)
    fun _ => hended

/-- **`streamLogs` goes on.**

**Proof sketch.** Case split on where `streamLogs` is. It moves on from an entry that has been read,
and takes a message exactly when it decodes one; where it closes the channel there is a reason. -/
lemma Streaming.next {s s' : LogStream} (h : s.Streaming) (hstep : s.next = some s') :
    s'.Streaming := by
  unfold LogStream.next at hstep
  split at hstep
  next hpc =>
    have hnone : s.pending = [] := by rw [pending, hpc]
    split at hstep
    next hlt =>
      split at hstep
      next hv =>
        have hlen := hlt.trans_le h.read_le
        rw [List.getElem?_eq_none_iff] at hv
        omega
      next hv =>
        obtain rfl := Option.some.inj hstep
        exact h.close hnone (.inr (.inl ⟨_, hv, rfl⟩))
      next =>
        obtain rfl := Option.some.inj hstep
        exact h.goto hnone (fun _ hpc => by cases hpc) (fun _ => hlt) fun hpc => by cases hpc
    next hge =>
      have heq : s.decoded = s.read := le_antisymm h.decoded_le (Nat.le_of_not_lt hge)
      split at hstep
      next hend =>
        obtain rfl := Option.some.inj hstep
        refine h.close hnone (.inr (.inr ?_))
        rcases hend with hwait | ⟨hexit, hread⟩
        · exact ⟨h.exited hwait, heq, .inr hwait⟩
        · exact ⟨hexit, heq, .inl hread⟩
      next => cases hstep
  next hpc =>
    have hnone : s.pending = [] := by rw [pending, hpc]
    split at hstep
    next hcancel =>
      obtain rfl := Option.some.inj hstep
      exact h.close hnone (.inl hcancel)
    next =>
      obtain rfl := Option.some.inj hstep
      exact h.goto hnone (fun _ hpc => by cases hpc) (fun _ => h.available (.inl hpc))
        fun hpc => by cases hpc
  next hpc =>
    have hnone : s.pending = [] := by rw [pending, hpc]
    have havail := h.available (.inr hpc)
    have hlt := havail.trans_le h.read_le
    have hv : s.printed[s.decoded]? = some s.printed[s.decoded] := List.getElem?_eq_getElem hlt
    rw [hv, Option.bind_some] at hstep
    split at hstep
    next hbad =>
      obtain rfl := Option.some.inj hstep
      exact h.close hnone (.inr (.inl ⟨_, hv, hbad⟩))
    next msg hmsg =>
      obtain rfl := Option.some.inj hstep
      have hvalues := h.values
      rw [hnone, List.append_nil] at hvalues
      refine ⟨havail, h.read_le, h.exited, ?_, fun hpc => ?_, fun hpc => by cases hpc⟩
      · simp only [pending, List.take_add_one, hv, Option.toList_some, List.map_append, hvalues,
          List.map_cons, List.map_nil, hmsg]
      · rcases hpc with hpc | hpc <;> cases hpc
  next => cases hstep
  next => cases hstep

/-- **One step keeps what a stream keeps.**

**Proof sketch.** Case split on the event. What the command prints, the exit and the wait only add
to what holds; a fill reads no further than what is printed, and the steps of `streamLogs` are
`Streaming.next`. -/
theorem step_streaming {s s' : LogStream} {e : StreamEvent} (h : s.Streaming)
    (hstep : s.step e = some s') : s'.Streaming := by
  cases e with
  | print v =>
    simp only [step] at hstep
    split at hstep
    · cases hstep
    next hexit =>
      obtain rfl := Option.some.inj hstep
      exact h.print (Bool.eq_false_iff.mpr hexit) v
  | exit =>
    obtain rfl := Option.some.inj hstep
    exact ⟨h.decoded_le, h.read_le, fun _ => rfl, h.values, h.available,
      fun hpc => (h.ended hpc).mono rfl rfl rfl (fun _ => rfl) id id⟩
  | wait =>
    simp only [step] at hstep
    split at hstep
    next hexit =>
      obtain rfl := Option.some.inj hstep
      exact ⟨h.decoded_le, h.read_le, fun _ => hexit, h.values, h.available,
        fun hpc => (h.ended hpc).mono rfl rfl rfl id (fun _ => rfl) id⟩
    · cases hstep
  | cancel =>
    obtain rfl := Option.some.inj hstep
    exact ⟨h.decoded_le, h.read_le, h.exited, h.values, h.available,
      fun hpc => (h.ended hpc).mono rfl rfl rfl id id fun _ => rfl⟩
  | fill n =>
    simp only [step] at hstep
    split at hstep
    next hfill =>
      obtain rfl := Option.some.inj hstep
      obtain ⟨hpc, heq, -, -, hle⟩ := hfill
      exact ⟨h.decoded_le.trans (Nat.le_add_right _ _), hle, h.exited, h.values,
        fun hpc' => (h.available hpc').trans_le (Nat.le_add_right _ _),
        fun hpc' => by rw [hpc] at hpc'; cases hpc'⟩
    · cases hstep
  | next => exact h.next hstep
  | receive =>
    simp only [step] at hstep
    split at hstep
    next msg hpc =>
      obtain rfl := Option.some.inj hstep
      refine ⟨h.decoded_le, h.read_le, h.exited, ?_, fun hpc => ?_, fun hpc => by cases hpc⟩
      · rw [h.values, pending, hpc, pending, List.append_nil]
      · rcases hpc with hpc | hpc <;> cases hpc
    · cases hstep

/-- Before the request all of it holds. -/
lemma streaming_start : Streaming {} where
  decoded_le := le_rfl
  read_le := le_rfl
  exited h := h
  values := rfl
  available h := by rcases h with h | h <;> cases h
  ended h := by cases h

/-- **Run lemma.** It holds after every run. -/
lemma streaming_of_run {s : LogStream} {events : List StreamEvent}
    (hrun : Runs.run step {} events = some s) : s.Streaming :=
  Runs.invariant (fun _ _ _ h hstep => step_streaming h hstep) streaming_start hrun

/-- The messages are those delivered, the one that waits, and those still to be decoded. -/
lemma Streaming.messages_eq {s : LogStream} (h : s.Streaming) :
    messages s.printed = s.delivered ++ s.pending ++ messages (s.printed.drop s.decoded) := by
  have happend := messages_append h.values (s.printed.drop s.decoded)
  rwa [List.take_append_drop] at happend

/-- A stream that has ended, and not before its time, has delivered all messages. -/
lemma Streaming.delivered_eq {s : LogStream} (h : s.Streaming) (hclosed : s.pc = .closed)
    (hcancel : s.cancelled = false) (hwait : s.waited = true → s.read = s.printed.length) :
    s.delivered = messages s.printed := by
  have hnone : s.pending = [] := by rw [pending, hclosed]
  have hrest : messages (s.printed.drop s.decoded) = [] := by
    rcases h.ended hclosed with hcancel' | ⟨v, hv, hbad⟩ | ⟨-, heq, hend⟩
    · rw [hcancel] at hcancel'
      cases hcancel'
    · obtain ⟨hlt, rfl⟩ := List.getElem?_eq_some_iff.mp hv
      rw [List.drop_eq_getElem_cons hlt]
      exact messages_of_message?_eq_none hbad _
    · rw [heq, hend.elim id hwait, List.drop_length]
      rfl
  rw [h.messages_eq, hnone, hrest, List.append_nil, List.append_nil]

/-! ### The end of the stream -/

/-- How many steps `streamLogs` and its reader take at most until the next message. -/
def rank : StreamPc → ℕ
  | .send _ => 4
  | .more => 3
  | .check => 2
  | .decode => 1
  | .closed => 0

/-- How many steps are left at most when nothing more is printed. -/
def work (s : LogStream) : ℕ :=
  5 * (s.printed.length - s.decoded) + (s.printed.length - s.read) + rank s.pc

end LogStream

/-- The step is one of `streamLogs` or of its reader. -/
def StreamEvent.ofStream : StreamEvent → Prop
  | .fill _ | .next | .receive => True
  | _ => False

namespace LogStream

/-- **A stream goes on** while it has not ended, once the command has exited.

**Proof sketch.** Case split on where `streamLogs` is. A message waits for the reader; at an entry
that has been read the loop goes on; at the end of those the pipe is closed, or there is more to
read. -/
lemma Streaming.progress {s : LogStream} (h : s.Streaming) (hexit : s.exited = true)
    (hopen : s.pc ≠ .closed) : ∃ e s', e.ofStream ∧ s.step e = some s' ∧
      (s'.Streaming ∧ s'.exited = true) ∧ s'.work < s.work := by
  have hgo : ∀ {e s'}, s.step e = some s' → e.ofStream → s'.exited = s.exited →
      s'.work < s.work → ∃ e s', e.ofStream ∧ s.step e = some s' ∧
        (s'.Streaming ∧ s'.exited = true) ∧ s'.work < s.work :=
    fun hstep he hsame hlt => ⟨_, _, he, hstep, ⟨step_streaming h hstep, hsame.trans hexit⟩, hlt⟩
  have hdec := h.decoded_le
  have hread := h.read_le
  cases hpc : s.pc with
  | closed => exact absurd hpc hopen
  | send msg =>
    have hstep : s.step .receive =
        some { s with pc := .more, delivered := s.delivered ++ [msg] } := by
      simp only [step, hpc]
    refine hgo hstep trivial rfl ?_
    simp only [work, hpc, rank]
    omega
  | check =>
    by_cases hcancel : s.cancelled = true
    · have hstep : s.step .next = some { s with pc := .closed } := by
        simp only [step, LogStream.next, hpc, if_pos hcancel]
      refine hgo hstep trivial rfl ?_
      simp only [work, hpc, rank]
      omega
    · have hstep : s.step .next = some { s with pc := .decode } := by
        simp only [step, LogStream.next, hpc, if_neg hcancel]
      refine hgo hstep trivial rfl ?_
      simp only [work, hpc, rank]
      omega
  | decode =>
    have havail := h.available (.inr hpc)
    cases hv : s.printed[s.decoded]?.bind JournalValue.message? with
    | none =>
      have hstep : s.step .next = some { s with pc := .closed } := by
        simp only [step, LogStream.next, hpc, hv]
      refine hgo hstep trivial rfl ?_
      simp only [work, hpc, rank]
      omega
    | some msg =>
      have hstep : s.step .next = some { s with decoded := s.decoded + 1, pc := .send msg } := by
        simp only [step, LogStream.next, hpc, hv]
      refine hgo hstep trivial rfl ?_
      simp only [work, hpc, rank]
      omega
  | more =>
    by_cases hlt : s.decoded < s.read
    · have hv : s.printed[s.decoded]? = some s.printed[s.decoded] :=
        List.getElem?_eq_getElem (hlt.trans_le hread)
      by_cases hbracket : s.printed[s.decoded] = .bracket
      · have hstep : s.step .next = some { s with pc := .closed } := by
          simp only [step, LogStream.next, hpc, if_pos hlt, hv, hbracket]
        refine hgo hstep trivial rfl ?_
        simp only [work, hpc, rank]
        omega
      · have hstep : s.step .next = some { s with pc := .check } := by
          simp only [step, LogStream.next, hpc, if_pos hlt, hv]
        refine hgo hstep trivial rfl ?_
        simp only [work, hpc, rank]
        omega
    · by_cases hend : s.waited = true ∨ s.exited = true ∧ s.read = s.printed.length
      · have hstep : s.step .next = some { s with pc := .closed } := by
          simp only [step, LogStream.next, hpc, if_neg hlt, if_pos hend]
        refine hgo hstep trivial rfl ?_
        simp only [work, hpc, rank]
        omega
      · -- the pipe is open, and there is more to read
        rw [not_or, not_and] at hend
        have hmore : s.read < s.printed.length := lt_of_le_of_ne hread (hend.2 hexit)
        have hfill : s.pc = .more ∧ s.decoded = s.read ∧ s.waited = false ∧ 0 < 1 ∧
            s.read + 1 ≤ s.printed.length :=
          ⟨hpc, le_antisymm hdec (Nat.le_of_not_lt hlt), Bool.eq_false_iff.mpr hend.1, one_pos,
            hmore⟩
        have hstep : s.step (.fill 1) = some { s with read := s.read + 1 } := by
          simp only [step, if_pos hfill]
        refine hgo hstep trivial rfl ?_
        simp only [work, hpc]
        omega

/-- **What the reader of the channel gets.** After any steps of the command, of `streamLogs`, of the
wait for the command and of the reader, with or without a cancellation: the messages received are
those printed, in their order, up to a point before the first entry that is none. When the channel
is closed they are all of these, unless the request was cancelled, or the pipe was closed before all
of it had been read. Once the command has exited, `streamLogs` and a reader that goes on come to the
end.

**Proof sketch.** What has been decoded is what has been received, and the message that waits
(`step_streaming`); the rule for progress, with the values that are left as the measure. -/
theorem streamLogs_delivers {events : List StreamEvent} {s : LogStream}
    (hrun : Runs.run step {} events = some s) :
    s.delivered <+: messages s.printed ∧
      (s.pc = .closed → s.cancelled = false → (s.waited = true → s.read = s.printed.length) →
        s.delivered = messages s.printed) ∧
      (s.exited = true → ∃ es s', (∀ e ∈ es, StreamEvent.ofStream e) ∧
        Runs.run step s es = some s' ∧ s'.pc = .closed) := by
  have h := streaming_of_run hrun
  refine ⟨?_, h.delivered_eq, fun hexit => ?_⟩
  · rw [h.messages_eq, List.append_assoc]
    exact List.prefix_append _ _
  · have hprogress : ∀ s : LogStream, s.Streaming ∧ s.exited = true → ¬ s.pc = .closed →
        ∃ e s', StreamEvent.ofStream e ∧ s.step e = some s' ∧
          (s'.Streaming ∧ s'.exited = true) ∧ s'.work < s.work :=
      fun s h hopen => h.1.progress h.2 hopen
    exact Runs.exists_run_to work hprogress ⟨h, hexit⟩

/-- An entry of the function `f`. -/
def entryOfF : GoMap Str :=
  ((∅ : GoMap Str).insert syslogIdentifier "faasedge-fn:f".toList).insert
    "__REALTIME_TIMESTAMP".toList "1".toList

/-- `journalctl` prints an entry of `f` and one that is malformed; the first is received. -/
def oneEntry : List StreamEvent :=
  [.print (.entry entryOfF), .fill 1, .next, .print .malformed, .next, .next, .exit, .receive,
    .fill 1, .next, .next, .next, .wait]

/-- The stream after `oneEntry`. -/
def afterEntry : LogStream := (Runs.run step {} oneEntry).get rfl

/-- The stream has ended, and the reader has the one message. -/
theorem streamLogs_delivers_oneEntry :
    afterEntry.delivered <+: messages afterEntry.printed ∧
      (afterEntry.pc = .closed → afterEntry.cancelled = false →
        (afterEntry.waited = true → afterEntry.read = afterEntry.printed.length) →
        afterEntry.delivered = messages afterEntry.printed) ∧
      (afterEntry.exited = true → ∃ es s', (∀ e ∈ es, StreamEvent.ofStream e) ∧
        Runs.run step afterEntry es = some s' ∧ s'.pc = .closed) :=
  streamLogs_delivers (Option.some_get rfl).symm

example : afterEntry.pc = .closed ∧ afterEntry.delivered.map (·.name) = ["f".toList] := by decide

/-- Only `streamLogs` and its reader move `streamLogs`.

**Proof sketch.** Case split on the event; the others write the channel or the reader. -/
lemma step_pc {s s' : LogStream} {e : StreamEvent} (hnext : e ≠ .next) (hreceive : e ≠ .receive)
    (hstep : s.step e = some s') : s'.pc = s.pc := by
  cases e with
  | next => exact absurd rfl hnext
  | receive => exact absurd rfl hreceive
  | print v =>
    simp only [step, Option.ite_none_left_eq_some, Option.some.injEq] at hstep
    rw [← hstep.2]
  | wait =>
    simp only [step, Option.ite_none_right_eq_some, Option.some.injEq] at hstep
    rw [← hstep.2]
  | fill n =>
    simp only [step, Option.ite_none_right_eq_some, Option.some.injEq] at hstep
    rw [← hstep.2]
  | exit =>
    obtain rfl := Option.some.inj hstep
    rfl
  | cancel =>
    obtain rfl := Option.some.inj hstep
    rfl

/-- **A reader that is gone leaves `streamLogs` behind**: while nothing is received, it waits to
send its message, also when the request is cancelled. -/
theorem send_waits {s s' : LogStream} {msg : LogsMessage} {events : List StreamEvent}
    (hpc : s.pc = .send msg) (hgone : StreamEvent.receive ∉ events)
    (hrun : Runs.run step s events = some s') : s'.pc = .send msg := by
  have hstep : ∀ (s : LogStream) (e : StreamEvent) (s' : LogStream), s.pc = .send msg →
      e ≠ .receive → s.step e = some s' → s'.pc = .send msg := by
    intro s e s' hpc he hstep
    by_cases hnext : e = .next
    · subst hnext
      simp [step, LogStream.next, hpc] at hstep
    · exact (step_pc hnext he hstep).trans hpc
  exact Runs.invariant_of_along hstep hpc
    (Runs.along_of_forall fun e he heq => hgone (heq ▸ he)) hrun

end LogStream

end Fecore
