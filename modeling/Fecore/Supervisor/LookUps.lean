import Mathlib.Tactic.Common
import Fecore.Concurrency.Interleaving
import Fecore.Logs.Journal
import Fecore.Supervisor.LocalResolver

set_option relaxedAutoImplicit false
set_option autoImplicit false

/-!
# Looking up an upstream

`Proxy.Start` of `pkg/proxy.go` up to the address of its upstream: it starts `LocalResolver.Get`
with a channel of its own and waits for one value. `Get` looks at the map of the resolver until it
finds an address or its time is over, while the map is built again.

## Main definitions

* `Fecore.Chan` — a channel of strings with a buffer for one.
* `Fecore.GetCall`, `Fecore.LookUp` — a call of `Get`, and a call of `Proxy.Start` with its channel
  and its call of `Get`.
* `Fecore.lookUpProgram` — the resolver and the calls, in any order of their steps.
* `Fecore.LookUp.Answers` — the call of `Get` delivers one value, and `Proxy.Start` goes on.

## Main results

* `Fecore.LookUp.Stage.next` — the stages of a look-up.
* `Fecore.lookUps_answer_iff` — the look-ups answer as long as no call of `Get` runs out of time.
* `Fecore.waits_forever` — a look-up that has run out of time waits for ever.

## Design

The channel is a local variable of `Proxy.Start` and an argument of its one call of `Get`, so the
two goroutines and the channel are one thread of the program here, and a step says whose it is. The
wait of 250 milliseconds between two looks is any number of steps of others.
-/

namespace Fecore

open Interleaving

/-! ### Channels -/

/-- A channel of strings with a buffer for one, with all that has been sent on it. -/
structure Chan where
  sent : List Str := []
  received : ℕ := 0
  closed : Bool := false
deriving DecidableEq

/-- `ch <- val` on an open channel, when there is room. -/
def Chan.send (ch : Chan) (val : Str) : Option Chan :=
  if ch.sent.length - ch.received < 1 then some { ch with sent := ch.sent ++ [val] } else none

/-- `<-ch`, when there is a value or the channel is closed. -/
def Chan.receive (ch : Chan) : Option (Str × Chan) :=
  match ch.sent[ch.received]? with
  | some val => some (val, { ch with received := ch.received + 1 })
  | none => if ch.closed then some ([], ch) else none

/-! ### `Get` -/

/-- Where a call of `Get` stands. -/
inductive GetPc
  | called
  | looking (start : Time)
  | sending (val : Str)
  /-- no address has been found -/
  | checking (start : Time)
  | returned
  /-- a send on a closed channel -/
  | panicked
deriving DecidableEq

/-- A call of `LocalResolver.Get`. -/
structure GetCall where
  upstream : Str
  timeout : Time
  pc : GetPc := .called
deriving DecidableEq

/-- A step of `Get`, with its channel. -/
def GetCall.next (l : LocalResolver) (got : Chan) (call : GetCall) (now : Time) :
    Option (GetCall × Chan) :=
  match call.pc with
  | .called => some ({ call with pc := .looking now }, got)
  | .looking start =>
    let val := l.get call.upstream
    some ({ call with pc := if 0 < val.length then .sending val else .checking start }, got)
  | .sending val =>
    if got.closed then some ({ call with pc := .panicked }, got)
    else (got.send val).map fun got => ({ call with pc := .returned }, got)
  | .checking start =>
    -- the time is over: nothing is sent
    if start + call.timeout < now then some ({ call with pc := .returned }, got)
    else some ({ call with pc := .looking start }, got)
  | .returned => none
  | .panicked => none

/-- The call has not ended. -/
def GetPc.running : GetPc → Bool
  | .returned => false
  | .panicked => false
  | _ => true

/-! ### `Proxy.Start` -/

/-- `strconv.ParseInt(s, 10, 32)` -/
def parseInt32 (s : Str) : Except NumError ℤ :=
  (parseInt s).bind fun n =>
    if -2147483648 ≤ n ∧ n ≤ 2147483647 then .ok n else .error ⟨"ParseInt".toList, s, true⟩

/-- `getUpstream` -/
def getUpstream (val : Str) (defaultPort : ℕ) : Except NumError (Str × ℕ) :=
  let in_ := val.idxOf ':'
  if ':' ∈ val then
    (parseInt32 (val.drop (in_ + 1))).map fun port =>
      (val.take in_, (port % 4294967296).toNat)
  else .ok (val, defaultPort)

/-- Where a call of `Proxy.Start` stands. -/
inductive ProxyPc
  | start (upstream : Str) (port : ℕ)
  | lookUp (upstreamHost : Str) (upstreamPort : ℕ) (timeout : Time)
  /-- at `<-got` -/
  | waiting (upstreamPort : ℕ)
  | received (upstreamPort : ℕ) (ipAddress : Str)
  /-- past the look-up -/
  | listening (upstreamAddr : Str)
  | failed (err : NumError)
deriving DecidableEq

/-- A call of `Proxy.Start`, the call of `Get` that it has started, and their channel. -/
structure LookUp where
  proxy : ProxyPc
  get : Option GetCall := none
  got : Chan := {}
deriving DecidableEq

/-- `time.Second * 5`, in nanoseconds. -/
def lookUpTimeout : Time := 5000000000

/-- A step of `Proxy.Start`. -/
def LookUp.proxyNext (lu : LookUp) : Option LookUp :=
  match lu.proxy with
  | .start upstream port =>
    match getUpstream upstream port with
    | .error err => some { lu with proxy := .failed err }
    | .ok (upstreamHost, upstreamPort) =>
      some { lu with proxy := .lookUp upstreamHost upstreamPort lookUpTimeout }
  | .lookUp upstreamHost upstreamPort timeout =>
    some ⟨.waiting upstreamPort, some { upstream := upstreamHost, timeout := timeout }, {}⟩
  | .waiting upstreamPort =>
    lu.got.receive.map fun r => { lu with proxy := .received upstreamPort r.1, got := r.2 }
  | .received upstreamPort ipAddress =>
    some { lu with
      proxy := .listening (ipAddress ++ ':' :: (toString upstreamPort).toList)
      got := { lu.got with closed := true } }
  | .listening _ => none
  | .failed _ => none

/-! ### The program -/

/-- The goroutine of a look-up that takes a step. -/
inductive Goroutine
  | proxy
  | get
deriving DecidableEq

/-- What a step meets: the goroutine whose it is, the time, and what the resolver finds. -/
structure LookUpEnv where
  who : Goroutine := .get
  now : Time := 0
  poll : LocalResolver.Poll := ⟨none, none⟩

/-- A step of a look-up, at a map of the resolver. -/
def LookUp.next (l : LocalResolver) (lu : LookUp) (e : LookUpEnv) : Option LookUp :=
  match e.who with
  | .proxy => lu.proxyNext
  | .get => lu.get.bind fun call => (call.next l lu.got e.now).map fun r =>
      { lu with get := some r.1, got := r.2 }

/-- The loop of `LocalResolver.Start`, or a look-up. -/
inductive LookUpThread
  | resolver (lastStat : Option ℤ)
  | lookUp (lu : LookUp)

/-- A call of `Proxy.Start`, or of another caller that waits for one value in the same way, with a
timeout of its own. -/
def ProxyPc.begins : ProxyPc → Bool
  | .start _ _ => true
  | .lookUp _ _ _ => true
  | _ => false

/-- The resolver and the look-ups. -/
def lookUpProgram : Program LocalResolver LookUpThread LookUpEnv where
  entry
    | .resolver lastStat => lastStat.isNone
    | .lookUp lu => lu.proxy.begins && decide (lu.get = none) && decide (lu.got = {})
  next l t e :=
    match t with
    | .resolver lastStat =>
      let r := LocalResolver.poll lastStat l e.poll
      some (r.2, .resolver r.1, [])
    | .lookUp lu => (lu.next l e).map fun lu' => (l, .lookUp lu', [])

/-- The resolver and the look-ups of a run. -/
abbrev LookUps := Interleaving.Config LocalResolver LookUpThread

/-- A new resolver, and no calls. -/
def startLookUps (path : Str) : LookUps := ⟨LocalResolver.new path, []⟩

/-! ### The stages of a look-up -/

/-- **The stages of a look-up.** -/
inductive LookUp.Stage : LookUp → Prop
  | begins {pc : ProxyPc} (h : pc.begins = true) : Stage ⟨pc, none, {}⟩
  | failed (err : NumError) : Stage ⟨.failed err, none, {}⟩
  | running (port : ℕ) {call : GetCall} (h : call.pc.running = true) :
      Stage ⟨.waiting port, some call, {}⟩
  | delivered (port : ℕ) (val : Str) {call : GetCall} (h : call.pc = .returned) :
      Stage ⟨.waiting port, some call, { sent := [val] }⟩
  | timedOut (port : ℕ) {call : GetCall} (h : call.pc = .returned) :
      Stage ⟨.waiting port, some call, {}⟩
  | received (port : ℕ) (val : Str) {call : GetCall} (h : call.pc = .returned) :
      Stage ⟨.received port val, some call, { sent := [val], received := 1 }⟩
  | listening (addr val : Str) {call : GetCall} (h : call.pc = .returned) :
      Stage ⟨.listening addr, some call, { sent := [val], received := 1, closed := true }⟩

/-- What a step of `Get` does while nothing has been sent: it goes on, or it delivers a value, or
its time is over.

**Proof sketch.** Case split on where the call is. Only the check of the time can end it without a
value. -/
lemma GetCall.next_cases {l : LocalResolver} {call call' : GetCall} {got : Chan} {now : Time}
    (h : call.next l {} now = some (call', got)) :
    (call'.pc.running = true ∧ got = {} ∧
      ¬ ∃ start, call.pc = .checking start ∧ start + call.timeout < now) ∨
    (call'.pc = .returned ∧ (∃ val, call.pc = .sending val ∧ got = { sent := [val] })) ∨
    (call'.pc = .returned ∧ got = {} ∧
      ∃ start, call.pc = .checking start ∧ start + call.timeout < now) := by
  unfold GetCall.next at h
  cases hpc : call.pc with
  | called =>
    rw [hpc] at h
    cases h
    exact .inl ⟨rfl, rfl, nofun⟩
  | looking start =>
    rw [hpc] at h
    cases h
    refine .inl ⟨?_, rfl, nofun⟩
    dsimp only
    split <;> rfl
  | sending val =>
    rw [hpc] at h
    cases h
    exact .inr (.inl ⟨rfl, val, rfl, rfl⟩)
  | checking start =>
    rw [hpc] at h
    dsimp only at h
    split at h
    · next hover =>
      cases h
      exact .inr (.inr ⟨rfl, rfl, start, rfl, hover⟩)
    · next hover =>
      cases h
      refine .inl ⟨rfl, rfl, ?_⟩
      rintro ⟨_, hpc', hover'⟩
      cases hpc'
      exact hover hover'
  | returned =>
    rw [hpc] at h
    cases h
  | panicked =>
    rw [hpc] at h
    cases h

/-- A call that has returned takes no step. -/
lemma GetCall.next_of_returned {l : LocalResolver} {call : GetCall} {got : Chan} {now : Time}
    (h : call.pc = .returned) : call.next l got now = none := by
  unfold GetCall.next
  rw [h]

namespace LookUp

/-- The step of the look-up is one in which its call of `Get` finds that its time is over. -/
def TimesOut (lu : LookUp) (e : LookUpEnv) : Prop :=
  e.who = .get ∧ ∃ call ∈ lu.get, ∃ start, call.pc = .checking start ∧ start + call.timeout < e.now

/-- The call of `Get` has returned, and has sent nothing. -/
def TimedOut (lu : LookUp) : Prop :=
  lu.got = {} ∧ ∃ call ∈ lu.get, call.pc = .returned

/-- A step of a look-up whose call of `Get` has returned is one of `Proxy.Start`. -/
lemma next_of_returned {l : LocalResolver} {lu : LookUp} {e : LookUpEnv} {call : GetCall}
    (hget : lu.get = some call) (h : call.pc = .returned) :
    lu.next l e = if e.who = .proxy then lu.proxyNext else none := by
  unfold LookUp.next
  cases e.who with
  | proxy => rfl
  | get =>
    rw [hget, Option.bind_some, GetCall.next_of_returned h]
    rfl

/-- A step of a look-up before it has called `Get`.

**Proof sketch.** The call of `Get` has not been made, so that only the proxy has a step: it splits
the upstream, or calls. -/
lemma Stage.next_of_begins {l : LocalResolver} {pc : ProxyPc} {lu' : LookUp} {e : LookUpEnv}
    (h : pc.begins = true) (hstep : (⟨pc, none, {}⟩ : LookUp).next l e = some lu') :
    e.who = .proxy ∧ lu'.Stage ∧ ¬ lu'.TimedOut := by
  unfold LookUp.next at hstep
  cases hwho : e.who with
  | get =>
    rw [hwho] at hstep
    cases hstep
  | proxy =>
    rw [hwho] at hstep
    refine ⟨rfl, ?_⟩
    cases pc with
    | start upstream port =>
      unfold proxyNext at hstep
      cases hup : getUpstream upstream port with
      | error err =>
        simp only [hup, Option.some.injEq] at hstep
        subst hstep
        exact ⟨.failed err, fun ⟨_, _, hcall, _⟩ => nomatch hcall⟩
      | ok host =>
        simp only [hup, Option.some.injEq] at hstep
        subst hstep
        exact ⟨.begins rfl, fun ⟨_, _, hcall, _⟩ => nomatch hcall⟩
    | lookUp host port timeout =>
      cases hstep
      refine ⟨.running _ rfl, ?_⟩
      rintro ⟨-, call, hcall, hret⟩
      cases hcall
      cases hret
    | waiting port => cases h
    | received port ip => cases h
    | listening addr => cases h
    | failed err => cases h

/-- A step of a look-up whose call of `Get` is under way.

**Proof sketch.** The proxy waits, so the step is one of `Get`, and `GetCall.next_cases` gives the
stage to which it leads. -/
lemma Stage.next_of_running {l : LocalResolver} {port : ℕ} {call : GetCall} {lu' : LookUp}
    {e : LookUpEnv}
    (hstep : (⟨.waiting port, some call, {}⟩ : LookUp).next l e = some lu') :
    lu'.Stage ∧ (lu'.TimedOut ↔ LookUp.TimesOut ⟨.waiting port, some call, {}⟩ e) := by
  unfold LookUp.next at hstep
  cases hwho : e.who with
  | proxy =>
    rw [hwho] at hstep
    cases hstep
  | get =>
    rw [hwho] at hstep
    obtain ⟨r, hr, rfl⟩ := Option.map_eq_some_iff.mp hstep
    obtain ⟨call', got⟩ := r
    have htimes : LookUp.TimesOut ⟨.waiting port, some call, {}⟩ e ↔
        ∃ start, call.pc = .checking start ∧ start + call.timeout < e.now := by
      unfold TimesOut
      simp [hwho]
    rw [htimes]
    rcases GetCall.next_cases hr with ⟨hrun, rfl, hno⟩ | ⟨hret, val, hpc, rfl⟩ |
      ⟨hret, rfl, hover⟩
    · refine ⟨.running port hrun, iff_of_false ?_ hno⟩
      rintro ⟨-, _, hcall, hret⟩
      cases hcall
      rw [hret] at hrun
      cases hrun
    · refine ⟨.delivered port val hret, iff_of_false (fun hout => ?_) ?_⟩
      · cases hout.1
      · rintro ⟨start, hpc', -⟩
        rw [hpc] at hpc'
        cases hpc'
    · exact ⟨.timedOut port hret, iff_of_true ⟨rfl, call', rfl, hret⟩ hover⟩

/-- No time is found to be over once the call of `Get` has returned. -/
lemma not_timesOut_of_returned {lu : LookUp} {e : LookUpEnv} {call : GetCall}
    (hget : lu.get = some call) (h : call.pc = .returned) : ¬ lu.TimesOut e := by
  rintro ⟨-, call', hcall, start, hpc, -⟩
  rw [hget] at hcall
  cases hcall
  rw [h] at hpc
  cases hpc

/-- **A step leads to a stage.** It leads to the time-out exactly when the time is found to be
over.

**Proof sketch.** Case split on the stage. Only a running call may find its time to be over
(`Stage.next_of_running`); one that has returned goes on to the address, and the others stand
still. -/
lemma Stage.next {l : LocalResolver} {lu lu' : LookUp} {e : LookUpEnv} (h : lu.Stage)
    (hstep : lu.next l e = some lu') (hno : ¬ lu.TimedOut) :
    lu'.Stage ∧ (lu'.TimedOut ↔ lu.TimesOut e) := by
  cases h with
  | begins hb =>
    obtain ⟨hwho, hstage, hout⟩ := Stage.next_of_begins hb hstep
    exact ⟨hstage, iff_of_false hout fun ⟨_, _, hcall, _⟩ => nomatch hcall⟩
  | failed err =>
    unfold LookUp.next at hstep
    cases hwho : e.who <;> rw [hwho] at hstep <;> cases hstep
  | running port hr => exact Stage.next_of_running hstep
  | timedOut port hret => exact absurd ⟨rfl, _, rfl, hret⟩ hno
  | delivered port val hret =>
    rw [next_of_returned rfl hret] at hstep
    split at hstep
    · cases hstep
      exact ⟨.received port val hret,
        iff_of_false (fun hout => nomatch hout.1) (not_timesOut_of_returned rfl hret)⟩
    · cases hstep
  | received port val hret =>
    rw [next_of_returned rfl hret] at hstep
    split at hstep
    · cases hstep
      exact ⟨.listening _ val hret,
        iff_of_false (fun hout => nomatch hout.1) (not_timesOut_of_returned rfl hret)⟩
    · cases hstep
  | listening addr val hret =>
    rw [next_of_returned rfl hret] at hstep
    split at hstep <;> cases hstep

/-- A look-up that has run out of time takes no step. -/
lemma TimedOut.next {l : LocalResolver} {lu : LookUp} {e : LookUpEnv} (h : lu.Stage)
    (hout : lu.TimedOut) : lu.next l e = none := by
  obtain ⟨hgot, call, hcall, hret⟩ := hout
  rw [next_of_returned hcall hret]
  split
  · cases h with
    | begins hb => cases hcall
    | failed err => cases hcall
    | running port hr => rfl
    | timedOut port _ => rfl
    | delivered port val _ => cases hgot
    | received port val _ => cases hgot
    | listening addr val _ => cases hgot
  · rfl

/-- `Proxy.Start` is at `<-got`. -/
def waits (lu : LookUp) : Bool :=
  match lu.proxy with
  | .waiting _ => true
  | _ => false

/-- **The look-up answers**: a call of `Get` that has returned has sent exactly one value, and where
`Proxy.Start` waits, a value is there or the call is still under way. -/
def Answers (lu : LookUp) : Prop :=
  (∀ call ∈ lu.get, call.pc = .returned → lu.got.sent.length = 1) ∧
    (lu.waits = true → lu.got.received < lu.got.sent.length ∨
      ∃ call ∈ lu.get, call.pc.running = true)

/-- Whether a look-up answers is read off where it stands. -/
instance (lu : LookUp) : Decidable lu.Answers :=
  inferInstanceAs (Decidable (_ ∧ _))

/-- A call of `Get` that is under way has not returned. -/
lemma not_returned_of_running {pc : GetPc} (h : pc.running = true) : pc ≠ .returned := by
  rintro rfl
  cases h

/-- The look-up answers unless it has run out of time.

**Proof sketch.** Case split on the stage. In the one of the time-out nothing has been sent by a
call that has returned; in each of the others the value is there or is still to come. -/
lemma Stage.answers_iff {lu : LookUp} (h : lu.Stage) : lu.Answers ↔ ¬ lu.TimedOut := by
  cases h with
  | begins hb =>
    rename_i pc
    refine iff_of_true ⟨nofun, fun hwaits => ?_⟩ fun ⟨_, _, hcall, _⟩ => nomatch hcall
    cases pc with
    | waiting port => cases hb
    | _ => cases hwaits
  | failed err => exact iff_of_true ⟨nofun, nofun⟩ fun ⟨_, _, hcall, _⟩ => nomatch hcall
  | running port hr =>
    refine iff_of_true ⟨fun _ hcall hret => ?_, fun _ => .inr ⟨_, rfl, hr⟩⟩ ?_
    · cases hcall
      exact absurd hret (not_returned_of_running hr)
    · rintro ⟨-, _, hcall, hret⟩
      cases hcall
      exact not_returned_of_running hr hret
  | timedOut port hret =>
    refine iff_of_false (fun hanswers => ?_) (not_not.mpr ⟨rfl, _, rfl, hret⟩)
    exact absurd (hanswers.1 _ rfl hret) Nat.zero_ne_one
  | delivered port val hret =>
    exact iff_of_true ⟨fun _ _ _ => rfl, fun _ => .inl Nat.zero_lt_one⟩ fun hout => nomatch hout.1
  | received port val hret =>
    exact iff_of_true ⟨fun _ _ _ => rfl, nofun⟩ fun hout => nomatch hout.1
  | listening addr val hret =>
    exact iff_of_true ⟨fun _ _ _ => rfl, nofun⟩ fun hout => nomatch hout.1

end LookUp

/-! ### All look-ups -/

/-- What is known of a thread: a look-up is at a stage. -/
def LookUpThread.Staged : LookUpThread → Prop
  | .resolver _ => True
  | .lookUp lu => lu.Stage

/-- The thread is not a look-up, or it answers. -/
def LookUpThread.Answers : LookUpThread → Prop
  | .resolver _ => True
  | .lookUp lu => lu.Answers

/-- Whether a goroutine answers is read off its look-up. -/
instance : DecidablePred LookUpThread.Answers
  | .resolver _ => inferInstanceAs (Decidable True)
  | .lookUp lu => inferInstanceAs (Decidable lu.Answers)

/-- **All look-ups answer.** -/
def LookUps.AllAnswer (c : LookUps) : Prop := ∀ t ∈ c.threads, t.Answers

/-- Whether all look-ups answer is read off one after the other. -/
instance (c : LookUps) : Decidable c.AllAnswer := inferInstanceAs (Decidable (∀ _ ∈ _, _))

/-- The step is not one in which a call of `Get` finds that its time is over. -/
def LookUps.InTime (c : LookUps) (m : Move LookUpThread LookUpEnv) : Prop :=
  ∀ i e lu, m = .step i e → c.threads[i]? = some (.lookUp lu) → ¬ lu.TimesOut e

/-- What is known of all threads. -/
def LookUps.Staged (c : LookUps) : Prop := ∀ t ∈ c.threads, t.Staged

/-- A thread that arrives is at a stage, and answers. -/
lemma LookUpThread.of_entry {t : LookUpThread} (h : lookUpProgram.entry t = true) :
    t.Staged ∧ t.Answers := by
  cases t with
  | resolver lastStat => exact ⟨trivial, trivial⟩
  | lookUp lu =>
    obtain ⟨proxy, get, got⟩ := lu
    simp only [lookUpProgram, Bool.and_eq_true, decide_eq_true_eq] at h
    obtain ⟨⟨hb, rfl⟩, rfl⟩ := h
    have hstage := LookUp.Stage.begins hb
    exact ⟨hstage, hstage.answers_iff.mpr fun ⟨_, _, hcall, _⟩ => nomatch hcall⟩

/-- A thread after a move was there before, or has arrived or is the resolver, or it is the look-up
that has taken the step.

**Proof sketch.** Case split on the move. One that arrives is at its beginning, the resolver starts
nothing, and a look-up that steps changes no other thread. -/
lemma LookUps.mem_cases {c c' : LookUps} {m : Move LookUpThread LookUpEnv}
    (h : lookUpProgram.step c m = some c') {u : LookUpThread} (hu : u ∈ c'.threads) :
    u ∈ c.threads ∨ (u.Staged ∧ u.Answers) ∨ ∃ i e lu lu', m = .step i e ∧
      c.threads[i]? = some (.lookUp lu) ∧ lu.next c.shared e = some lu' ∧ u = .lookUp lu' := by
  obtain ⟨t, rfl, hent, rfl⟩ | ⟨i, e, t, s', t', new, rfl, ht, hn, rfl⟩ := Program.step_cases h
  · rcases List.mem_append.mp hu with hu | hu
    · exact .inl hu
    · obtain rfl := List.mem_singleton.mp hu
      exact .inr (.inl (LookUpThread.of_entry hent))
  · cases t with
    | resolver lastStat =>
      cases hn
      obtain ⟨j, -, hj⟩ | rfl | hu := mem_set_append hu
      · exact .inl (List.mem_of_getElem? hj)
      · exact .inr (.inl ⟨trivial, trivial⟩)
      · cases hu
    | lookUp lu =>
      obtain ⟨lu', hnext, heq⟩ := Option.map_eq_some_iff.mp hn
      cases heq
      obtain ⟨j, -, hj⟩ | rfl | hu := mem_set_append hu
      · exact .inl (List.mem_of_getElem? hj)
      · exact .inr (.inr ⟨i, e, lu, lu', rfl, ht, hnext, rfl⟩)
      · cases hu

/-- A look-up after its own step. -/
lemma LookUps.mem_of_step {c c' : LookUps} {i : ℕ} {e : LookUpEnv} {lu : LookUp}
    (h : lookUpProgram.step c (.step i e) = some c') (ht : c.threads[i]? = some (.lookUp lu)) :
    ∃ lu', lu.next c.shared e = some lu' ∧ LookUpThread.lookUp lu' ∈ c'.threads := by
  obtain ⟨s', t', new, hn, rfl⟩ := step_of_getElem? h ht
  obtain ⟨lu', hnext, heq⟩ := Option.map_eq_some_iff.mp hn
  cases heq
  exact ⟨lu', hnext, List.mem_of_getElem? (getElem?_section _ _ ht)⟩

/-- What a step of a look-up that answers leads to. -/
lemma LookUps.next_of_step {c : LookUps} (hc : c.Staged) (ha : c.AllAnswer) {i : ℕ}
    {e : LookUpEnv} {lu lu' : LookUp} (ht : c.threads[i]? = some (.lookUp lu))
    (hnext : lu.next c.shared e = some lu') : lu'.Stage ∧ (lu'.Answers ↔ ¬ lu.TimesOut e) := by
  have hmem := List.mem_of_getElem? ht
  have hstage : lu.Stage := hc _ hmem
  obtain ⟨hstage', hout⟩ := hstage.next hnext (hstage.answers_iff.mp (ha _ hmem))
  exact ⟨hstage', by rw [hstage'.answers_iff, hout]⟩

/-- **Step lemma.** Every move keeps the look-ups in their stages. -/
lemma LookUps.staged_step {c c' : LookUps} {m : Move LookUpThread LookUpEnv} (hc : c.Staged)
    (ha : c.AllAnswer) (h : lookUpProgram.step c m = some c') : c'.Staged := by
  intro u hu
  rcases LookUps.mem_cases h hu with hu | ⟨hstaged, -⟩ | ⟨i, e, lu, lu', -, ht, hnext, rfl⟩
  · exact hc u hu
  · exact hstaged
  · exact (LookUps.next_of_step hc ha ht hnext).1

/-- **A step keeps the look-ups answering** exactly when it is in time. -/
lemma LookUps.allAnswer_step_iff {c c' : LookUps} {m : Move LookUpThread LookUpEnv}
    (hc : c.Staged) (ha : c.AllAnswer) (h : lookUpProgram.step c m = some c') :
    c'.AllAnswer ↔ c.InTime m := by
  constructor
  · intro hall i e lu hm ht
    subst hm
    obtain ⟨lu', hnext, hmem⟩ := LookUps.mem_of_step h ht
    exact (LookUps.next_of_step hc ha ht hnext).2.mp (hall _ hmem)
  · intro hin u hu
    rcases LookUps.mem_cases h hu with hu | ⟨-, hanswers⟩ | ⟨i, e, lu, lu', rfl, ht, hnext, rfl⟩
    · exact ha u hu
    · exact hanswers
    · exact (LookUps.next_of_step hc ha ht hnext).2.mpr (hin i e lu rfl ht)

/-- **When the look-ups answer.** In every run of the resolver and of any number of calls, whatever
their timeouts: throughout the run each call of `Get` that has returned has sent exactly one value
and no call of `Proxy.Start` waits in vain, exactly when no call of `Get` finds that its time is
over.

**Proof sketch.** The stages of a look-up are kept by its steps (`LookUp.Stage.next`) and do not
depend on the map; one step leads to the time-out exactly when the time is found to be over. -/
theorem lookUps_answer_iff (path : Str) (ms : List (Move LookUpThread LookUpEnv)) :
    Runs.Throughout lookUpProgram.step LookUps.AllAnswer (startLookUps path) ms ↔
      Runs.Along lookUpProgram.step LookUps.InTime (startLookUps path) ms :=
  Runs.throughout_iff_along_of_invariant (J := LookUps.Staged)
    (fun _ _ _ hc ha h => LookUps.allAnswer_step_iff hc ha h)
    (fun _ _ _ hc ha _ h => LookUps.staged_step hc ha h) nofun nofun

/-- A host that never gets an address: the call of `Get` looks once, and then its time is over. -/
def neverFound : List (Move LookUpThread LookUpEnv) :=
  [.arrive (.lookUp { proxy := .start "echo:8080".toList 80 }), .step 0 { who := .proxy },
    .step 0 { who := .proxy }, .step 0 { now := 0 }, .step 0 {}, .step 0 { now := 6000000000 }]

/-- **The look-ups do not answer in general**: a call of `Get` whose time is over returns without a
value. -/
theorem not_lookUps_answer : ¬ ∀ path ms,
    Runs.Throughout lookUpProgram.step LookUps.AllAnswer (startLookUps path) ms := fun h =>
  Runs.not_throughout (by decide) (h [] neverFound)

/-- **A look-up that has run out of time waits for ever**: its thread never moves again. -/
theorem waits_forever {c c' : LookUps} {ms : List (Move LookUpThread LookUpEnv)} {i : ℕ}
    {lu : LookUp} (hrun : Runs.run lookUpProgram.step c ms = some c')
    (ht : c.threads[i]? = some (.lookUp lu)) (hstage : lu.Stage) (hout : lu.TimedOut) :
    c'.threads[i]? = some (.lookUp lu) := by
  refine Runs.invariant (I := fun c : LookUps => c.threads[i]? = some (.lookUp lu))
    (fun c m c' ht hstep => getElem?_of_step hstep (fun e hm => ?_) ht) ht hrun
  subst hm
  obtain ⟨s', t', new, hnext, -⟩ := step_of_getElem? hstep ht
  obtain ⟨lu', hlu, -⟩ := Option.map_eq_some_iff.mp hnext
  rw [hout.next hstage] at hlu
  cases hlu

end Fecore
