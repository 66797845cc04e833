import Mathlib.Data.Int.Notation
import Mathlib.Data.Nat.Notation
import Mathlib.Tactic.Common

set_option relaxedAutoImplicit false
set_option autoImplicit false

/-!
# The retrying HTTP client

`Client.Do`, `DefaultRetryPolicy` and `baseRetryPolicy` of the vendored
`github.com/hashicorp/go-retryablehttp`, as `NewHandlerFunc`
(`pkg/provider/proxy/function_proxy.go`) configures them: at most `RetryMax = 632` retries and
the default `CheckRetry`. One attempt is one call of `c.HTTPClient.Do(req.Request)`, a
`net/http` client with the default `CheckRedirect`: its first request goes to the replica, and
it follows redirects by itself, up to ten requests an attempt.

## Main definitions

* `Fecore.Hop`, `Fecore.Attempt`, `Fecore.Exchange` — what one request, one attempt, and all the
  attempts of one invocation, meet outside.
* `Fecore.httpClientDo` — one attempt, with its redirects.
* `Fecore.doFrom`, `Fecore.proxyClientDo` — the retry loop and the client of the proxy.
* `Fecore.SentOnce` — the replica is sent nothing more once it has answered.

## Main results

* `Fecore.httpClientDo_eq_cons`, `Fecore.retried_httpClientDo_iff` — which attempts come back
  to the replica, and which end in something that is retried.
* `Fecore.sentOnce_iff` — the replica is sent nothing more once it has answered exactly when
  the redirects from its first answer never lead back to it, and the attempt of that answer is
  the last one.

## Design

Where a redirect leads (to the replica or elsewhere) is told by the environment, as are all
answers. The `http.Client` around the retrying one follows no redirect of its own: what comes
back to it with a status of a redirect has no `Location`, or is a 307 or 308 to a request whose
body is not empty. A request that the transport itself sends again on a connection that broke
before an answer is one request here.
-/

namespace Fecore

/-- How an attempt fails before a response. -/
inductive DoError
  /-- `redirectsErrorRe` matches: stopped after some number of redirects -/
  | redirects
  /-- `schemeErrorRe` matches: unsupported protocol scheme -/
  | scheme
  /-- `notTrustedErrorRe` matches, or the certificate's authority is unknown -/
  | notTrusted
  /-- connection refused, reset, timed out and the like -/
  | other
deriving DecidableEq

/-- What an attempt returns: an error or a response with a status code. -/
inductive Outcome
  | err (e : DoError)
  | response (statusCode : ℤ)
deriving DecidableEq

/-- The `Location` of a response, resolved against the URL of its request. -/
inductive Location
  /-- no such header, or an empty one -/
  | absent
  /-- `req.URL.Parse` fails -/
  | invalid (e : DoError)
  | replica
  | elsewhere
deriving DecidableEq

/-- What one request meets: an error, or a response with its status code and `Location`. -/
inductive Hop
  | err (e : DoError)
  | response (statusCode : ℤ) (location : Location)
deriving DecidableEq

/-- What the client does after a request: it returns, or goes on to another one. -/
inductive AfterHop
  | returned (outcome : Outcome)
  | redirected (toReplica : Bool)
deriving DecidableEq

/-- `redirectBehavior`: whether a response of this status is followed. A 307 or 308 sends the
body again, and the request of the proxy has no `GetBody`. -/
def redirectBehavior (hasBody : Bool) (statusCode : ℤ) : Bool :=
  if statusCode = 301 ∨ statusCode = 302 ∨ statusCode = 303 then true
  else if statusCode = 307 ∨ statusCode = 308 then !hasBody
  else false

/-- What the client does with the answer to a request. -/
def Hop.after (hasBody : Bool) : Hop → AfterHop
  | .err e => .returned (.err e)
  | .response code location =>
    if redirectBehavior hasBody code then
      match location with
      | .absent => .returned (.response code)
      | .invalid e => .returned (.err e)
      | .replica => .redirected true
      | .elsewhere => .redirected false
    else .returned (.response code)

/-- The request is answered by a response. -/
def Hop.answered : Hop → Bool
  | .err _ => false
  | .response _ _ => true

/-- A request that was sent: whether to the replica, and whether a response came back. -/
structure Sent where
  toReplica : Bool
  answered : Bool
deriving DecidableEq

/-- The requests of one attempt from the one with the answer `hop i` on, with `left` of them
allowed, and what the attempt returns. -/
def httpClientDoFrom (hasBody : Bool) (hop : ℕ → Hop) : ℕ → ℕ → Bool → List Sent × Outcome
  -- `defaultCheckRedirect`: stopped after 10 redirects
  | _, 0, _ => ([], .err .redirects)
  | i, left + 1, toReplica =>
    match (hop i).after hasBody with
    | .returned outcome => ([⟨toReplica, (hop i).answered⟩], outcome)
    | .redirected back =>
      let (sent, outcome) := httpClientDoFrom hasBody hop (i + 1) left back
      (⟨toReplica, (hop i).answered⟩ :: sent, outcome)

/-- How many requests one attempt may send. -/
def maxRequests : ℕ := 10

/-- `c.HTTPClient.Do`: the first request goes to the replica. -/
def httpClientDo (hasBody : Bool) (hop : ℕ → Hop) : List Sent × Outcome :=
  httpClientDoFrom hasBody hop 0 maxRequests true

/-- One attempt: the answers to its requests, whether the client's context is over when
`CheckRetry` asks, and whether it is over before the wait for the next attempt ends. -/
structure Attempt where
  hop : ℕ → Hop
  ctxErr : Bool := false
  ctxDone : Bool := false

/-- `baseRetryPolicy`: errors that may go away, 429, 0 and the 500-range but 501 are retried. -/
def baseRetryPolicy : Outcome → Bool
  | .err .other => true
  | .err _ => false
  | .response code => code = 429 || code = 0 || (500 ≤ code && code ≠ 501)

/-- `DefaultRetryPolicy`: whether to retry, and whether it reports the error of the context. -/
def defaultRetryPolicy (ctxErr : Bool) (outcome : Outcome) : Bool × Bool :=
  if ctxErr then (false, true) else (baseRetryPolicy outcome, false)

/-- What `Do` leaves: the requests that were sent, oldest first, and the status code of the
response it returns; an error comes with no response. -/
structure Reply where
  sent : List Sent
  response : Option ℤ
deriving DecidableEq

/-- The end of `Do`: the response is returned only when nothing failed and no retry is due. -/
def finishDo (outcome : Outcome) (shouldRetry checkErr : Bool) : Option ℤ :=
  match outcome with
  | .response code => if checkErr = false ∧ shouldRetry = false then some code else none
  | .err _ => none

/-- `Do` from attempt `i` on, with `remain` retries left. -/
def doFrom (hasBody : Bool) (attempt : ℕ → Attempt) : ℕ → ℕ → Reply
  | i, remain =>
    let a := attempt i
    let (sent, outcome) := httpClientDo hasBody a.hop
    let (shouldRetry, checkErr) := defaultRetryPolicy a.ctxErr outcome
    if shouldRetry = false then ⟨sent, finishDo outcome shouldRetry checkErr⟩
    else match remain with
      | 0 => ⟨sent, finishDo outcome shouldRetry checkErr⟩
      | r + 1 =>
        -- the wait: req.Context().Done() or the timer
        if a.ctxDone then ⟨sent, none⟩
        else
          let rest := doFrom hasBody attempt (i + 1) r
          { rest with sent := sent ++ rest.sent }

/-- `retryClient.RetryMax`. -/
def retryMax : ℕ := 632

/-- All that one invocation meets outside: whether the body of the client's request can be read,
whether it holds any bytes, and the attempts. -/
structure Exchange where
  bodyErr : Bool := false
  hasBody : Bool := false
  attempt : ℕ → Attempt

/-- Every request is answered with this status, and no redirect. -/
def answersAlways (statusCode : ℤ) : Exchange :=
  { attempt := fun _ => { hop := fun _ => .response statusCode .absent } }

/-- `proxyClient.Do`: `RoundTrip` reads the body, then calls `Do`. -/
def proxyClientDo (x : Exchange) : Reply :=
  if x.bodyErr then ⟨[], none⟩ else doFrom x.hasBody x.attempt 0 retryMax

/-! ### One attempt -/

/-- The first `n` answers, from the one at `i` on, are redirects that are followed. -/
def Follows (hasBody : Bool) (hop : ℕ → Hop) (i n : ℕ) : Prop :=
  ∀ j < n, ∃ back, (hop (i + j)).after hasBody = .redirected back

/-- One more redirect, at the front. -/
lemma follows_succ {hasBody : Bool} {hop : ℕ → Hop} {i n : ℕ} :
    Follows hasBody hop i (n + 1) ↔
      (∃ back, (hop i).after hasBody = .redirected back) ∧ Follows hasBody hop (i + 1) n := by
  constructor
  · intro h
    refine ⟨h 0 (by omega), fun j hj => ?_⟩
    have := h (j + 1) (by omega)
    rwa [show i + (j + 1) = i + 1 + j by omega] at this
  · rintro ⟨hi, h⟩ j hj
    cases j with
    | zero => exact hi
    | succ j =>
      rw [show i + (j + 1) = i + 1 + j by omega]
      exact h j (by omega)

/-- None of the requests goes to the replica. -/
def Quiet (sent : List Sent) : Prop := ∀ s ∈ sent, s.toReplica = false

/-- **Which attempts come back to the replica**: after its first request, an attempt stays away
from the replica exactly when no redirect that is followed leads there.

**Proof sketch.** Induction on the requests that are left, one answer at a time. -/
lemma httpClientDoFrom_eq_cons (hasBody : Bool) (hop : ℕ → Hop) (left : ℕ) :
    ∀ i toReplica, ∃ rest, (httpClientDoFrom hasBody hop i (left + 1) toReplica).1 =
        ⟨toReplica, (hop i).answered⟩ :: rest ∧
      (Quiet rest ↔ ∀ n < left, Follows hasBody hop i n →
        (hop (i + n)).after hasBody ≠ .redirected true) := by
  induction left with
  | zero =>
    intro i toReplica
    refine ⟨[], ?_, by simp [Quiet]⟩
    rw [httpClientDoFrom]
    cases (hop i).after hasBody <;> rfl
  | succ left ih =>
    intro i toReplica
    rw [httpClientDoFrom]
    cases hafter : (hop i).after hasBody with
    | returned outcome =>
      refine ⟨[], rfl, ⟨fun _ n hn hfollows => ?_, fun _ => by simp [Quiet]⟩⟩
      cases n with
      | zero => simp [hafter]
      | succ n =>
        obtain ⟨back, hback⟩ := (follows_succ.mp hfollows).1
        simp [hafter] at hback
    | redirected back =>
      obtain ⟨rest, hrest, hquiet⟩ := ih (i + 1) back
      refine ⟨_, rfl, ?_⟩
      simp only [hrest, Quiet, List.forall_mem_cons] at hquiet ⊢
      rw [hquiet]
      constructor
      · rintro ⟨hback, hall⟩ n hn hfollows
        cases n with
        | zero => simp [hafter, hback]
        | succ n =>
          rw [show i + (n + 1) = i + 1 + n by omega]
          exact hall n (by omega) (follows_succ.mp hfollows).2
      · intro hall
        refine ⟨?_, fun n hn hfollows => ?_⟩
        · have := hall 0 (by omega) (fun j hj => absurd hj (by omega))
          simpa [hafter] using this
        · have := hall (n + 1) (by omega) (follows_succ.mpr ⟨⟨back, hafter⟩, hfollows⟩)
          rwa [show i + (n + 1) = i + 1 + n by omega] at this

/-- **Which attempts end in something that is retried**: one whose redirects lead to an answer
that is.

**Proof sketch.** Induction on the requests that are left; running out of them is not retried. -/
lemma retried_httpClientDo_iff (hasBody : Bool) (hop : ℕ → Hop) (left : ℕ) :
    ∀ i toReplica, baseRetryPolicy (httpClientDoFrom hasBody hop i left toReplica).2 = true ↔
      ∃ n < left, Follows hasBody hop i n ∧
        ∃ outcome, (hop (i + n)).after hasBody = .returned outcome ∧
          baseRetryPolicy outcome = true := by
  induction left with
  | zero => intro i toReplica; simp [httpClientDoFrom, baseRetryPolicy]
  | succ left ih =>
    intro i toReplica
    rw [httpClientDoFrom]
    cases hafter : (hop i).after hasBody with
    | returned outcome =>
      constructor
      · intro h
        exact ⟨0, by omega, fun j hj => absurd hj (by omega), outcome, hafter, h⟩
      · rintro ⟨n, -, hfollows, o, ho, hretry⟩
        cases n with
        | zero =>
          rw [Nat.add_zero, hafter] at ho
          cases ho
          exact hretry
        | succ n =>
          obtain ⟨back, hback⟩ := (follows_succ.mp hfollows).1
          simp [hafter] at hback
    | redirected back =>
      refine (ih (i + 1) back).trans ⟨?_, ?_⟩
      · rintro ⟨n, hn, hfollows, hend⟩
        rw [show i + 1 + n = i + (n + 1) by omega] at hend
        exact ⟨n + 1, by omega, follows_succ.mpr ⟨⟨back, hafter⟩, hfollows⟩, hend⟩
      · rintro ⟨n, hn, hfollows, hend⟩
        cases n with
        | zero =>
          obtain ⟨o, ho, -⟩ := hend
          simp [hafter] at ho
        | succ n =>
          rw [show i + (n + 1) = i + 1 + n by omega] at hend
          exact ⟨n, by omega, (follows_succ.mp hfollows).2, hend⟩

/-- The redirects of an attempt never lead back to the replica. -/
def StaysAway (hasBody : Bool) (a : Attempt) : Prop :=
  ∀ n, n + 1 < maxRequests → Follows hasBody a.hop 0 n →
    (a.hop n).after hasBody ≠ .redirected true

/-- The redirects of an attempt do not lead to an answer that is retried. -/
def EndsFinal (hasBody : Bool) (a : Attempt) : Prop :=
  ∀ n < maxRequests, Follows hasBody a.hop 0 n →
    ∀ outcome, (a.hop n).after hasBody = .returned outcome → baseRetryPolicy outcome = false

/-- An attempt: its first request goes to the replica, and the rest as its redirects say. -/
lemma httpClientDo_eq_cons (hasBody : Bool) (a : Attempt) :
    ∃ rest, (httpClientDo hasBody a.hop).1 = ⟨true, (a.hop 0).answered⟩ :: rest ∧
      (Quiet rest ↔ StaysAway hasBody a) := by
  obtain ⟨rest, hcons, hquiet⟩ := httpClientDoFrom_eq_cons hasBody a.hop 9 0 true
  refine ⟨rest, hcons, hquiet.trans ?_⟩
  simp only [Nat.zero_add, StaysAway, maxRequests]
  exact ⟨fun h n hn => h n (by omega), fun h n hn => h n (by omega)⟩

/-- An attempt is not retried for its outcome exactly when its redirects say so. -/
lemma retried_httpClientDo_eq_false_iff (hasBody : Bool) (a : Attempt) :
    baseRetryPolicy (httpClientDo hasBody a.hop).2 = false ↔ EndsFinal hasBody a := by
  rw [← Bool.not_eq_true, httpClientDo, retried_httpClientDo_iff]
  simp only [Nat.zero_add, EndsFinal, not_exists, not_and, Bool.not_eq_true]

/-- The first request of an attempt without an answer is its only one. -/
lemma httpClientDo_of_err {hasBody : Bool} {a : Attempt} {e : DoError} (h : a.hop 0 = .err e) :
    httpClientDo hasBody a.hop = ([⟨true, false⟩], .err e) := by
  rw [httpClientDo, maxRequests, httpClientDoFrom, h]
  rfl

/-! ### The loop -/

/-- The loop goes on after the attempt, as far as the attempt itself decides. -/
def Retried (hasBody : Bool) (a : Attempt) : Prop :=
  a.ctxErr = false ∧ a.ctxDone = false ∧ ¬ EndsFinal hasBody a

/-- **One round of the loop**: it goes on when the attempt is retried and retries are left, and
is over after this attempt otherwise.

**Proof sketch.** Case split on the two tests of the policy and on the retries that are left. The
answer of the client is retried exactly when the attempt does not end for good
(`retried_httpClientDo_eq_false_iff`). -/
lemma doFrom_sent (hasBody : Bool) (attempt : ℕ → Attempt) (i remain : ℕ) :
    (Retried hasBody (attempt i) ∧ ∃ r, remain = r + 1 ∧
      (doFrom hasBody attempt i remain).sent =
        (httpClientDo hasBody (attempt i).hop).1 ++ (doFrom hasBody attempt (i + 1) r).sent) ∨
    (¬ (Retried hasBody (attempt i) ∧ 0 < remain) ∧
      (doFrom hasBody attempt i remain).sent = (httpClientDo hasBody (attempt i).hop).1) := by
  rw [doFrom]
  cases hctx : (attempt i).ctxErr with
  | true => exact .inr ⟨by simp [Retried, hctx], by simp [defaultRetryPolicy]⟩
  | false =>
    cases hretry : baseRetryPolicy (httpClientDo hasBody (attempt i).hop).2 with
    | false =>
      have hfinal := (retried_httpClientDo_eq_false_iff hasBody (attempt i)).mp hretry
      exact .inr ⟨by simp [Retried, hfinal], by simp [defaultRetryPolicy, hretry]⟩
    | true =>
      have hfinal : ¬ EndsFinal hasBody (attempt i) := by
        rw [← retried_httpClientDo_eq_false_iff, hretry]
        simp
      cases remain with
      | zero => exact .inr ⟨by simp, by simp [defaultRetryPolicy, hretry]⟩
      | succ r =>
        cases hdone : (attempt i).ctxDone with
        | true =>
          exact .inr ⟨by simp [Retried, hdone], by simp [defaultRetryPolicy, hretry]⟩
        | false =>
          exact .inl ⟨⟨hctx, hdone, hfinal⟩, r, rfl, by simp [defaultRetryPolicy, hretry]⟩

/-- Every run of the loop sends something to the replica. -/
lemma not_quiet_doFrom (hasBody : Bool) (attempt : ℕ → Attempt) (i remain : ℕ) :
    ¬ Quiet (doFrom hasBody attempt i remain).sent := by
  obtain ⟨rest, hcons, -⟩ := httpClientDo_eq_cons hasBody (attempt i)
  intro hquiet
  have hmem : ⟨true, ((attempt i).hop 0).answered⟩ ∈ (doFrom hasBody attempt i remain).sent := by
    rcases doFrom_sent hasBody attempt i remain with ⟨-, r, -, hsent⟩ | ⟨-, hsent⟩ <;>
      simp [hsent, hcons]
  simpa using hquiet _ hmem

/-- No request to the replica comes after one that the replica answered. -/
def Once (sent : List Sent) : Prop :=
  sent.Pairwise fun s t => s.toReplica = true → s.answered = true → t.toReplica = false

/-- A first request with an answer: all that follows stays away from the replica. -/
lemma once_answered_cons {rest : List Sent} : Once (⟨true, true⟩ :: rest) ↔ Quiet rest := by
  refine ⟨fun h t ht => (List.pairwise_cons.mp h).1 t ht rfl rfl, fun h => ?_⟩
  refine List.pairwise_cons.mpr ⟨fun t ht _ _ => h t ht, ?_⟩
  exact List.pairwise_of_forall_mem_list fun s hs t _ htrue => by simp [h s hs] at htrue

/-- A first request without an answer does not count. -/
lemma once_unanswered_cons {rest : List Sent} : Once (⟨true, false⟩ :: rest) ↔ Once rest := by
  simp [Once, List.pairwise_cons]

/-- The attempt is the last one: no retries are left, the client's context is over, or the
redirects lead to nothing that is retried. -/
def IsLast (hasBody : Bool) (remain : ℕ) (a : Attempt) : Prop :=
  remain = 0 ∨ a.ctxErr = true ∨ a.ctxDone = true ∨ EndsFinal hasBody a

/-- The attempt fails before an answer, and is retried. -/
def Unanswered (a : Attempt) : Prop :=
  a.hop 0 = .err .other ∧ a.ctxErr = false ∧ a.ctxDone = false

/-- An attempt is the last one or another one follows. -/
lemma isLast_iff {hasBody : Bool} {remain : ℕ} {a : Attempt} :
    IsLast hasBody remain a ↔ ¬ (Retried hasBody a ∧ 0 < remain) := by
  simp only [IsLast, Retried, Nat.pos_iff_ne_zero]
  cases a.ctxErr <;> cases a.ctxDone <;> simp
  tauto

/-- Of the attempts without an answer, those that fail with an error that may go away are
retried. -/
lemma retried_iff_unanswered {hasBody : Bool} {a : Attempt} {e : DoError}
    (h : a.hop 0 = .err e) : Retried hasBody a ↔ Unanswered a := by
  have hfinal : EndsFinal hasBody a ↔ e ≠ .other := by
    rw [← retried_httpClientDo_eq_false_iff, httpClientDo_of_err h]
    cases e <;> simp [baseRetryPolicy]
  simp [Retried, Unanswered, hfinal, h]
  tauto

/-- What must hold of the attempts from `i` on: the first one that the replica answers stays
away from it afterwards, and is the last one. -/
def FirstAnswerFinal (hasBody : Bool) (attempt : ℕ → Attempt) (i remain : ℕ) : Prop :=
  ∀ k ≤ remain, (∀ j < k, Unanswered (attempt (i + j))) →
    ((attempt (i + k)).hop 0).answered = true →
      StaysAway hasBody (attempt (i + k)) ∧ IsLast hasBody (remain - k) (attempt (i + k))

/-- The first attempt has an answer. -/
lemma firstAnswerFinal_of_answered {hasBody : Bool} {attempt : ℕ → Attempt} {i remain : ℕ}
    (h : ((attempt i).hop 0).answered = true) :
    FirstAnswerFinal hasBody attempt i remain ↔
      StaysAway hasBody (attempt i) ∧ IsLast hasBody remain (attempt i) := by
  constructor
  · intro hall
    exact hall 0 (by omega) (fun j hj => absurd hj (by omega)) h
  · intro hfirst k hk hbefore hanswered
    cases k with
    | zero => exact hfirst
    | succ k =>
      have herr := (hbefore 0 (by omega)).1
      rw [Nat.add_zero] at herr
      simp [herr, Hop.answered] at h

/-- The first attempt has no answer: it is the attempts after it that count, if there are any.

**Proof sketch.** The attempts after the first one are those of the shorter loop, shifted by one;
the first one itself is not answered. -/
lemma firstAnswerFinal_of_err {hasBody : Bool} {attempt : ℕ → Attempt} {i remain : ℕ}
    {e : DoError} (h : (attempt i).hop 0 = .err e) :
    FirstAnswerFinal hasBody attempt i remain ↔
      ∀ r, remain = r + 1 → Unanswered (attempt i) →
        FirstAnswerFinal hasBody attempt (i + 1) r := by
  constructor
  · rintro hall r rfl hi k hk hbefore hanswered
    have := hall (k + 1) (by omega)
    rw [show i + (k + 1) = i + 1 + k by omega, show r + 1 - (k + 1) = r - k by omega] at this
    refine this (fun j hj => ?_) hanswered
    cases j with
    | zero => exact hi
    | succ j =>
      rw [show i + (j + 1) = i + 1 + j by omega]
      exact hbefore j (by omega)
  · intro hnext k hk hbefore hanswered
    cases k with
    | zero => simp [h, Hop.answered] at hanswered
    | succ k =>
      have hi := hbefore 0 (by omega)
      have := hnext (remain - 1) (by omega) hi k (by omega) (fun j hj => by
        have := hbefore (j + 1) (by omega)
        rwa [show i + (j + 1) = i + 1 + j by omega] at this)
      rw [show i + 1 + k = i + (k + 1) by omega,
        show remain - 1 - k = remain - (k + 1) by omega] at this
      exact this hanswered

/-- **The loop sends nothing to the replica after an answer** exactly when the first attempt
that has one stays away from it and is the last.

**Proof sketch.** Induction on the retries left. An attempt with an answer settles the matter: a
further attempt starts at the replica. One without an answer counts for nothing. -/
lemma once_doFrom_iff (hasBody : Bool) (attempt : ℕ → Attempt) (remain : ℕ) :
    ∀ i, Once (doFrom hasBody attempt i remain).sent ↔
      FirstAnswerFinal hasBody attempt i remain := by
  induction remain using Nat.strongRecOn with
  | _ remain ih =>
    intro i
    cases hhop : (attempt i).hop 0 with
    | err e =>
      rw [firstAnswerFinal_of_err hhop, ← retried_iff_unanswered hhop]
      rcases doFrom_sent hasBody attempt i remain with
        ⟨hretried, r, rfl, hsent⟩ | ⟨hstops, hsent⟩
      · rw [hsent, httpClientDo_of_err hhop, List.singleton_append, once_unanswered_cons,
          ih r (by omega)]
        exact ⟨fun h r' hr' _ => by rwa [show r' = r by omega], fun h => h r rfl hretried⟩
      · rw [hsent, httpClientDo_of_err hhop]
        refine iff_of_true (by simp [Once]) fun r hr hretried => ?_
        exact absurd ⟨hretried, by omega⟩ hstops
    | response code location =>
      obtain ⟨rest, hcons, hquiet⟩ := httpClientDo_eq_cons hasBody (attempt i)
      have hanswered : ((attempt i).hop 0).answered = true := by rw [hhop]; rfl
      rw [firstAnswerFinal_of_answered hanswered, isLast_iff]
      rcases doFrom_sent hasBody attempt i remain with
        ⟨hretried, r, rfl, hsent⟩ | ⟨hstops, hsent⟩
      · rw [hsent, hcons, hanswered, List.cons_append, once_answered_cons]
        refine iff_of_false (fun hq => ?_) fun h => h.2 ⟨hretried, by omega⟩
        exact not_quiet_doFrom hasBody attempt (i + 1) r fun s hs =>
          hq s (List.mem_append_right _ hs)
      · rw [hsent, hcons, hanswered, once_answered_cons, hquiet]
        exact ⟨fun h => ⟨h, hstops⟩, fun h => h.1⟩

/-! ### The invocation -/

/-- The replica is sent nothing more once it has answered a request with a response: the
function is executed at most once for the invocation. -/
def SentOnce (x : Exchange) : Prop := Once (proxyClientDo x).sent

/-- After attempts that all fail before an answer with an error that is retried, the first
attempt that the replica answers follows no redirect back to the replica, and is the last one:
its redirects lead to nothing that `CheckRetry` retries, or no retries are left, or the client's
context is over. -/
def FirstResponseFinal (x : Exchange) : Prop :=
  x.bodyErr = false → ∀ i ≤ retryMax, (∀ j < i, Unanswered (x.attempt j)) →
    ((x.attempt i).hop 0).answered = true →
      StaysAway x.hasBody (x.attempt i) ∧ IsLast x.hasBody (retryMax - i) (x.attempt i)

/-- **When the replica is sent nothing more after an answer.**

**Proof sketch.** What the client sends is what the loop sends from its first attempt on
(`once_doFrom_iff`); without a body that can be read, nothing is sent. -/
theorem sentOnce_iff (x : Exchange) : SentOnce x ↔ FirstResponseFinal x := by
  cases hbody : x.bodyErr with
  | true => simp [SentOnce, Once, FirstResponseFinal, proxyClientDo, hbody]
  | false =>
    have hloop := once_doFrom_iff x.hasBody x.attempt retryMax 0
    simp only [FirstAnswerFinal, Nat.zero_add] at hloop
    simpa [SentOnce, FirstResponseFinal, proxyClientDo, hbody] using hloop

/-- A replica that answers the first attempt with 500 and the second with 200. -/
def failsOnce : Exchange :=
  { attempt := fun i => { hop := fun _ => .response (if i = 0 then 500 else 200) .absent } }

/-- The request that was answered with 500 is sent a second time. -/
theorem not_sentOnce_failsOnce : ¬ SentOnce failsOnce := by
  intro h
  have hsent : (proxyClientDo failsOnce).sent = [⟨true, true⟩, ⟨true, true⟩] := by decide
  rw [SentOnce, Once, hsent] at h
  exact absurd h (by decide)

/-- A replica that answers with a redirect to itself is asked again within the one attempt. -/
example : (proxyClientDo { attempt := fun _ =>
    { hop := fun n => if n = 0 then .response 302 .replica else .response 200 .absent } }).sent =
      [⟨true, true⟩, ⟨true, true⟩] := by decide

end Fecore
