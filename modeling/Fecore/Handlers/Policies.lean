import Mathlib.Tactic.Common
import Mathlib.Tactic.NormNum
import Fecore.Data.Decimal
import Fecore.Handlers.Hybrids
import Fecore.Handlers.Stats

set_option relaxedAutoImplicit false
set_option autoImplicit false

/-!
# The policy of a hybrid function

The writers of `fs.deployedFunctions[fn].policy` (`pkg/provider/handlers/policy.go`): the update
requests, whose values are the strings of a query, and the evaluations that the statistics launch.
Each of them changes the record by its own rules.

## Main definitions

* `Fecore.PolicyQuery`, `Fecore.World.evalSpawnAddlCtrs`, `World.evalColdStartPolicy`,
  `World.evalWarmStartPolicy` — the writers.
* `Fecore.PolicyCall`, `Fecore.World.policyStep` — one call of one of them.
* `Fecore.Policy.InRange` — the container types and the numbers that a policy may have.
* `Fecore.PolicyCall.keepsInRange` — the calls that keep it there.

## Main results

* `Fecore.atoi_eq_some_iff` — which words are read as which numbers.
* `Fecore.PolicyCall.run_eq` — a call writes the policy of one function.
* `Fecore.policyInRange_throughout_iff` — the sequences of calls throughout which the policy stays
  in range.
-/

namespace Fecore

/-! ### Numbers -/

/-- `strconv.Atoi`: none is an error. -/
def atoi (s : Str) : Option ℤ :=
  let (sign, digits) : ℤ × Str :=
    match s with
    | '-' :: rest => (-1, rest)
    | '+' :: rest => (1, rest)
    | _ => (1, s)
  if digits = [] ∨ digits.any (fun c => !c.isDigit) then none
  else
    let n := sign * digits.foldl (fun (n : ℤ) c => 10 * n + (c.toNat - '0'.toNat : ℕ)) 0
    if -2 ^ 63 ≤ n ∧ n < 2 ^ 63 then some n else none

/-- The value of the digits is the number that they stand for. -/
lemma foldl_digits (digits : Str) (n : ℕ) :
    digits.foldl (fun (n : ℤ) c => 10 * n + (c.toNat - '0'.toNat : ℕ)) n =
      Nat.ofDigitChars 10 digits n := by
  induction digits generalizing n with
  | nil => rfl
  | cons c digits ih =>
    rw [List.foldl_cons, Nat.ofDigitChars_cons, ← ih]
    push_cast
    rfl

/-- What `strconv.Atoi` makes of the digits behind a sign.

**Proof sketch.** The digits are all digits, and there is one at least; then the fold is their
number (`foldl_digits`), and the range is tested. -/
lemma signed_eq_some_iff {digits : Str} {sign n : ℤ} :
    (if digits = [] ∨ digits.any (fun c => !c.isDigit) then none
      else
        let n := sign * digits.foldl (fun (n : ℤ) c => 10 * n + (c.toNat - '0'.toNat : ℕ)) 0
        if -2 ^ 63 ≤ n ∧ n < 2 ^ 63 then some n else none) = some n ↔
      (Decimal.Digits digits ∧ n = sign * (Nat.ofDigitChars 10 digits 0 : ℕ)) ∧
        -2 ^ 63 ≤ n ∧ n < 2 ^ 63 := by
  have hdigits : Decimal.Digits digits ↔ ¬ (digits = [] ∨ digits.any fun c => !c.isDigit) := by
    constructor
    · rintro ⟨hne, hall⟩ (hnil | hany)
      · exact hne hnil
      · obtain ⟨c, hc, hnot⟩ := List.any_eq_true.mp hany
        rw [hall c hc] at hnot
        cases hnot
    · intro h
      refine ⟨fun hnil => h (.inl hnil), fun c hc => ?_⟩
      by_contra hnot
      exact h (.inr (List.any_eq_true.mpr ⟨c, hc, by simpa using hnot⟩))
  have hvalue : digits.foldl (fun (n : ℤ) c => 10 * n + (c.toNat - '0'.toNat : ℕ)) 0 =
      Nat.ofDigitChars 10 digits 0 := foldl_digits digits 0
  rw [hvalue, hdigits]
  split
  next hnone => exact iff_of_false (by simp) fun h => h.1.1 hnone
  next hsome =>
    dsimp only
    split
    next hrange =>
      simp only [hsome, Option.some.injEq]
      constructor
      · rintro rfl
        exact ⟨⟨not_false, rfl⟩, hrange⟩
      · rintro ⟨⟨-, rfl⟩, -⟩
        rfl
    next hrange =>
      refine iff_of_false (by simp) ?_
      rintro ⟨⟨-, rfl⟩, h⟩
      exact hrange h

/-- **Which words `strconv.Atoi` reads**: the numbers of 64 bits. -/
lemma atoi_eq_some_iff {s : Str} {n : ℤ} :
    atoi s = some n ↔ Decimal.Numeral s n ∧ -2 ^ 63 ≤ n ∧ n < 2 ^ 63 := by
  unfold atoi
  split
  next sign digits hsign =>
    rw [signed_eq_some_iff]
    refine and_congr_left fun _ => ?_
    split at hsign
    · cases hsign
      rw [Decimal.numeral_minus_iff, neg_one_mul]
    · cases hsign
      rw [Decimal.numeral_plus_iff, one_mul]
    · next hminus hplus =>
      cases hsign
      rw [Decimal.numeral_iff_of_ne_cons hplus hminus, one_mul]

/-! ### Update requests -/

/-- The query of an update request; a value that is absent is empty. -/
structure PolicyQuery where
  fname : Str
  coldStartCtrType : Str := []
  warmStartCtrType : Str := []
  spawnAddlCtrs : Str := []
  keepaliveColdStartCtr : Str := []

/-- A number in the query: -1 when it is absent or no number. -/
def intValue (v : Str) : ℤ := if v ≠ [] then (atoi v).getD (-1) else -1

/-- `updatedPolicy` of `MakePolicyHandler`. -/
def PolicyQuery.updatedPolicy (q : PolicyQuery) : Policy :=
  { coldStartCtrType := q.coldStartCtrType
    warmStartCtrType := q.warmStartCtrType
    spawnAddlCtrs := intValue q.spawnAddlCtrs
    keepaliveColdStartCtr := intValue q.keepaliveColdStartCtr }

/-! ### Evaluations -/

/-- A value of type `float32`. -/
inductive Float32Value
  | nan
  | inf (negative : Bool)
  | finite (q : ℚ)

/-- `x <= bound`. -/
def Float32Value.atMost : Float32Value → ℚ → Bool
  | nan, _ => false
  | inf negative, _ => negative
  | finite q, bound => q ≤ bound

/-- `x >= bound`. -/
def Float32Value.atLeast : Float32Value → ℚ → Bool
  | nan, _ => false
  | inf negative, _ => !negative
  | finite q, bound => bound ≤ q

/-- `COLD_RATIO_LOW`. -/
def coldRatioLow : ℚ := float32 (1 / 10)

/-- `COLD_RATIO_HIGH`. -/
def coldRatioHigh : ℚ := float32 (1 / 4)

namespace World

/-- `EvalSpawnAddlCtrs`; its `utilizationRatio` is not read. -/
def evalSpawnAddlCtrs (w : World) (fn : Str) (coldRatio : Float32Value) : Except Fault World :=
  let spawnAddlCtrs : ℤ :=
    if coldRatio.atMost coldRatioLow then -1 -- cold starts are low
    else if coldRatio.atLeast coldRatioHigh then 1 -- lots of cold starts
    else 0
  match w.fn? fn with
  | none => .error .absentFunction
  | some (o, f) =>
    let policy := { f.policy with spawnAddlCtrs := f.policy.spawnAddlCtrs + spawnAddlCtrs }
    .ok (w.setFn o { f with policy := policy })

/-- The stats of the sandboxes of a hybrid function, the native one first. For any other function
the names of the sandboxes are empty. -/
def sandboxStats (functionStats : GoMap FunctionStats) (f : Function) :
    Except Fault (FunctionStats × FunctionStats) :=
  let nativeDeployment := if f.isHybrid then index f.sandboxes native else []
  let wasmDeployment := if f.isHybrid then index f.sandboxes wasm else []
  match functionStats.lookup nativeDeployment with
  | none => .error .absentStats
  | some nativeStats =>
    match functionStats.lookup wasmDeployment with
    | none => .error .absentStats
    | some wasmStats => .ok (nativeStats, wasmStats)

/-- `EvalColdStartPolicy` on the records of `functionStats`. -/
def evalColdStartPolicy (w : World) (functionStats : GoMap FunctionStats) (fn : Str) :
    Except Fault World :=
  match w.fn? fn with
  | none => .error .absentFunction
  | some (o, f) =>
    match sandboxStats functionStats f with
    | .error fault => .error fault
    | .ok (nativeStats, wasmStats) =>
      let (coldStartCtrType, spawnAddlCtrs) : Str × ℤ :=
        if nativeStats.avgSvcCold < wasmStats.avgSvcCold then (native, 0) else (wasm, 1)
      let policy :=
        { f.policy with
          coldStartCtrType := coldStartCtrType
          spawnAddlCtrs := spawnAddlCtrs
          keepaliveColdStartCtr :=
            if coldStartCtrType = f.policy.warmStartCtrType then 60
            else f.policy.keepaliveColdStartCtr }
      .ok (w.setFn o { f with policy := policy })

/-- `EvalWarmStartPolicy` on the records of `functionStats`. -/
def evalWarmStartPolicy (w : World) (functionStats : GoMap FunctionStats) (fn : Str) :
    Except Fault World :=
  match w.fn? fn with
  | none => .error .absentFunction
  | some (o, f) =>
    match sandboxStats functionStats f with
    | .error fault => .error fault
    | .ok (nativeStats, wasmStats) =>
      let warmStartCtrType :=
        if nativeStats.avgSvcWarm < wasmStats.avgSvcWarm then native else wasm
      .ok (w.setFn o { f with policy := { f.policy with warmStartCtrType := warmStartCtrType } })

end World

/-! ### Calls -/

/-- A call of a writer. An evaluation finds the records of `functionStats` as they are then. -/
inductive PolicyCall
  | updatePolicy (query : PolicyQuery)
  | evalSpawnAddlCtrs (fn : Str) (coldRatio : Float32Value)
  | evalColdStartPolicy (functionStats : GoMap FunctionStats) (fn : Str)
  | evalWarmStartPolicy (functionStats : GoMap FunctionStats) (fn : Str)

/-- The function whose policy the call writes. -/
def PolicyCall.fname : PolicyCall → Str
  | updatePolicy query => query.fname
  | evalSpawnAddlCtrs fn _ => fn
  | evalColdStartPolicy _ fn => fn
  | evalWarmStartPolicy _ fn => fn

/-- What the call does to the store. -/
def PolicyCall.run (w : World) : PolicyCall → Except Fault World
  | updatePolicy query => w.updatePolicy query.fname query.updatedPolicy
  | evalSpawnAddlCtrs fn coldRatio => w.evalSpawnAddlCtrs fn coldRatio
  | evalColdStartPolicy functionStats fn => w.evalColdStartPolicy functionStats fn
  | evalWarmStartPolicy functionStats fn => w.evalWarmStartPolicy functionStats fn

/-- One call; where it panics, the store stays as it is. -/
def World.policyStep (w : World) (call : PolicyCall) : Option World :=
  match call.run w with
  | .ok w' => some w'
  | .error _ => some w

/-- The policy that the call gives a deployed function. -/
def PolicyCall.newPolicy (f : Function) : PolicyCall → Except Fault Policy
  | updatePolicy query => .ok (World.updatedPolicy f.policy query.updatedPolicy)
  | evalSpawnAddlCtrs _ coldRatio =>
    .ok { f.policy with
      spawnAddlCtrs := f.policy.spawnAddlCtrs +
        if coldRatio.atMost coldRatioLow then -1
        else if coldRatio.atLeast coldRatioHigh then 1
        else 0 }
  | evalColdStartPolicy functionStats _ =>
    (World.sandboxStats functionStats f).map fun (nativeStats, wasmStats) =>
      if nativeStats.avgSvcCold < wasmStats.avgSvcCold then
        { f.policy with
          coldStartCtrType := native
          spawnAddlCtrs := 0
          keepaliveColdStartCtr :=
            if native = f.policy.warmStartCtrType then 60 else f.policy.keepaliveColdStartCtr }
      else
        { f.policy with
          coldStartCtrType := wasm
          spawnAddlCtrs := 1
          keepaliveColdStartCtr :=
            if wasm = f.policy.warmStartCtrType then 60 else f.policy.keepaliveColdStartCtr }
  | evalWarmStartPolicy functionStats _ =>
    (World.sandboxStats functionStats f).map fun (nativeStats, wasmStats) =>
      { f.policy with
        warmStartCtrType :=
          if nativeStats.avgSvcWarm < wasmStats.avgSvcWarm then native else wasm }

/-- **A call writes the policy of one function**, when that function is deployed.

**Proof sketch.** Case split on the call, and on whether the function and its stats are found. -/
theorem PolicyCall.run_eq (w : World) (call : PolicyCall) :
    call.run w =
      match w.fn? call.fname with
      | none => .error .absentFunction
      | some (o, f) =>
        (call.newPolicy f).map fun policy => w.setFn o { f with policy := policy } := by
  cases call with
  | updatePolicy query => rfl
  | evalSpawnAddlCtrs fn coldRatio => rfl
  | evalColdStartPolicy functionStats fn =>
    simp only [run, World.evalColdStartPolicy, fname, newPolicy]
    split
    · rfl
    · split
      · next hstats => rw [hstats]; rfl
      · next hstats =>
        rw [hstats]
        simp only [Except.map]
        split <;> rfl
  | evalWarmStartPolicy functionStats fn =>
    simp only [run, World.evalWarmStartPolicy, fname, newPolicy]
    split
    · rfl
    · split
      · next hstats => rw [hstats]; rfl
      · next hstats => rw [hstats]; rfl

/-! ### The range -/

/-- **The policy is in range.** -/
structure Policy.InRange (p : Policy) : Prop where
  coldStart : p.coldStartCtrType = native ∨ p.coldStartCtrType = wasm
  warmStart : p.warmStartCtrType = native ∨ p.warmStartCtrType = wasm
  spawn : 0 ≤ p.spawnAddlCtrs ∧ p.spawnAddlCtrs < World.maxAddlCtrs
  keepalive : 0 ≤ p.keepaliveColdStartCtr ∧ p.keepaliveColdStartCtr < World.maxKeepaliveTime

/-- The policy of the function is in range as long as it is deployed. -/
def World.PolicyInRange (fn : Str) (w : World) : Prop :=
  ∀ o f, w.fn? fn = some (o, f) → f.policy.InRange

/-- The call keeps the policy of the deployed function in range: an update has no number of
containers below -1, an evaluation of the cold starts has room for one container less or one more,
and a comparison for cold starts does not pick the type of the warm starts. -/
def PolicyCall.keepsInRange (f : Function) : PolicyCall → Bool
  | updatePolicy query => -1 ≤ intValue query.spawnAddlCtrs
  | evalSpawnAddlCtrs _ coldRatio =>
    if coldRatio.atMost coldRatioLow then 0 < f.policy.spawnAddlCtrs
    else if coldRatio.atLeast coldRatioHigh then
      f.policy.spawnAddlCtrs + 1 < World.maxAddlCtrs
    else true
  | evalColdStartPolicy functionStats _ =>
    match World.sandboxStats functionStats f with
    | .error _ => true
    | .ok (nativeStats, wasmStats) =>
      if nativeStats.avgSvcCold < wasmStats.avgSvcCold then
        native ≠ f.policy.warmStartCtrType
      else wasm ≠ f.policy.warmStartCtrType
  | evalWarmStartPolicy _ _ => true

/-- The call keeps the policy of the function `fn` in range. -/
def World.keepsInRange (fn : Str) (w : World) (call : PolicyCall) : Bool :=
  decide (call.fname ≠ fn) || (w.fn? fn).all fun of => call.keepsInRange of.2

/-- The default policy is in range. -/
lemma inRange_defaultPolicy : defaultPolicy.InRange where
  coldStart := .inr rfl
  warmStart := .inl rfl
  spawn := by decide
  keepalive := by decide

namespace Policy.InRange

variable {p : Policy}

/-- `UpdatePolicy` takes any number of containers below the maximum that is not -1.

**Proof sketch.** Each part of the policy is set only to a value that is tested, but the number of
containers is tested for not being -1 instead of for its sign. -/
lemma updatedPolicy_iff (h : p.InRange) (updated : Policy) :
    (World.updatedPolicy p updated).InRange ↔ -1 ≤ updated.spawnAddlCtrs := by
  constructor
  · intro hnew
    have hspawn := hnew.spawn.1
    simp only [World.updatedPolicy] at hspawn
    by_contra hlt
    have hmax : updated.spawnAddlCtrs < World.maxAddlCtrs := by
      unfold World.maxAddlCtrs
      omega
    rw [if_pos ⟨by omega, hmax⟩] at hspawn
    omega
  · intro hge
    refine ⟨?_, ?_, ?_, ?_⟩ <;> simp only [World.updatedPolicy]
    · split
      · assumption
      · exact h.coldStart
    · split
      · assumption
      · exact h.warmStart
    · split
      · next hspawn => exact ⟨by omega, hspawn.2⟩
      · exact h.spawn
    · split
      · assumption
      · exact h.keepalive

/-- A change of the number of containers. -/
lemma addSpawn_iff (h : p.InRange) (d : ℤ) :
    { p with spawnAddlCtrs := p.spawnAddlCtrs + d }.InRange ↔
      0 ≤ p.spawnAddlCtrs + d ∧ p.spawnAddlCtrs + d < World.maxAddlCtrs :=
  ⟨fun hnew => hnew.spawn, fun hspawn => ⟨h.coldStart, h.warmStart, hspawn, h.keepalive⟩⟩

/-- What `EvalColdStartPolicy` writes: 60 is no keepalive time that is in range.

**Proof sketch.** Left to right, the keepalive time is below 60, so it is not the one that is
written. Right to left, the time stays, and each other field is in range. -/
lemma coldStart_iff (h : p.InRange) {type : Str} (htype : type = native ∨ type = wasm) {n : ℤ}
    (hn : 0 ≤ n ∧ n < World.maxAddlCtrs) :
    { p with
      coldStartCtrType := type
      spawnAddlCtrs := n
      keepaliveColdStartCtr :=
        if type = p.warmStartCtrType then 60 else p.keepaliveColdStartCtr }.InRange ↔
      type ≠ p.warmStartCtrType := by
  constructor
  · intro hnew heq
    have hkeep := hnew.keepalive.2
    rw [if_pos heq] at hkeep
    exact absurd hkeep (lt_irrefl 60)
  · intro hne
    refine ⟨htype, h.warmStart, hn, ?_⟩
    rw [if_neg hne]
    exact h.keepalive

end Policy.InRange

/-- **What one call needs to keep a policy in range**, one writer after the other.

**Proof sketch.** Case split on the call. The two that change the number of replicas need its bounds
(`updatedPolicy_iff`, `addSpawn_iff`). The comparison for cold starts writes a keepalive time out of
range just when it picks the type of the warm starts (`coldStart_iff`); the one for warm starts
writes one of the two types and nothing else. -/
lemma PolicyCall.newPolicy_inRange_iff {f : Function} (h : f.policy.InRange) (call : PolicyCall) :
    (∀ policy, call.newPolicy f = .ok policy → policy.InRange) ↔
      call.keepsInRange f = true := by
  cases call with
  | updatePolicy query =>
    simp only [newPolicy, keepsInRange, Except.ok.injEq, forall_eq', decide_eq_true_eq]
    exact h.updatedPolicy_iff _
  | evalSpawnAddlCtrs fn coldRatio =>
    simp only [newPolicy, keepsInRange, Except.ok.injEq, forall_eq', h.addSpawn_iff]
    have hspawn := h.spawn
    split
    · simp only [decide_eq_true_eq]
      omega
    · split
      · simp only [decide_eq_true_eq]
        omega
      · simpa using hspawn
  | evalColdStartPolicy functionStats fn =>
    simp only [newPolicy, keepsInRange]
    cases World.sandboxStats functionStats f with
    | error fault => simp [Except.map]
    | ok stats =>
      simp only [Except.map, Except.ok.injEq, forall_eq']
      split
      · simpa using h.coldStart_iff (Or.inl rfl : native = native ∨ _) (n := 0) (by decide)
      · simpa using h.coldStart_iff (Or.inr rfl : wasm = native ∨ _) (n := 1) (by decide)
  | evalWarmStartPolicy functionStats fn =>
    simp only [newPolicy, keepsInRange, iff_true]
    cases World.sandboxStats functionStats f with
    | error fault => simp [Except.map]
    | ok stats =>
      simp only [Except.map, Except.ok.injEq, forall_eq']
      refine ⟨h.coldStart, ?_, h.spawn, h.keepalive⟩
      dsimp only
      split
      · exact .inl rfl
      · exact .inr rfl

/-! ### Sequences of calls -/

/-- The outcomes of a call: it leaves the store, or it writes the policy of a deployed function.

**Proof sketch.** Case split on the look-up of the function and on what the call makes of its policy
(`PolicyCall.run_eq`). -/
lemma World.policyStep_cases {w w' : World} {call : PolicyCall}
    (hstep : w.policyStep call = some w') :
    (w' = w ∧ ∀ o f, w.fn? call.fname = some (o, f) →
        ∃ fault, call.newPolicy f = .error fault) ∨
      ∃ o f policy, w.fn? call.fname = some (o, f) ∧ call.newPolicy f = .ok policy ∧
        w' = w.setFn o { f with policy := policy } := by
  simp only [World.policyStep, PolicyCall.run_eq] at hstep
  cases hf : w.fn? call.fname with
  | none =>
    rw [hf] at hstep
    exact .inl ⟨(Option.some.inj hstep).symm, fun o f h => by cases h⟩
  | some of =>
    obtain ⟨o, f⟩ := of
    rw [hf] at hstep
    dsimp only at hstep
    cases hnew : call.newPolicy f with
    | error fault =>
      rw [hnew] at hstep
      refine .inl ⟨(Option.some.inj hstep).symm, fun o' f' h => ?_⟩
      obtain ⟨rfl, rfl⟩ := Prod.mk.inj (Option.some.inj h)
      exact ⟨fault, hnew⟩
    | ok policy =>
      rw [hnew] at hstep
      exact .inr ⟨o, f, policy, rfl, hnew, (Option.some.inj hstep).symm⟩

/-- A call keeps a store well formed. -/
lemma World.policyStep_wellFormed {w w' : World} {call : PolicyCall} (hw : w.WellFormed)
    (hstep : w.policyStep call = some w') : w'.WellFormed := by
  obtain ⟨rfl, -⟩ | ⟨o, f, policy, hf, -, rfl⟩ := World.policyStep_cases hstep
  · exact hw
  · have hfw := (hw.function hf).1
    exact hw.setFn (World.heap_of_fn? hf) ⟨hfw.ordered, hfw.stored, hfw.active⟩ rfl

/-- **One call keeps the policy in range** exactly when it meets the condition.

**Proof sketch.** A call that panics writes nothing. One on another function leaves the policy
alone, since two functions do not share an object; one on this function is
`PolicyCall.newPolicy_inRange_iff`. -/
lemma World.policyStep_inRange_iff {w w' : World} {call : PolicyCall} {fn : Str}
    (hw : w.WellFormed) (hin : w.PolicyInRange fn) (hstep : w.policyStep call = some w') :
    w'.PolicyInRange fn ↔ w.keepsInRange fn call = true := by
  simp only [World.keepsInRange, Bool.or_eq_true, decide_eq_true_eq, Option.all_eq_true,
    Prod.forall]
  obtain ⟨rfl, herr⟩ | ⟨o, f, policy, hf, hnew, rfl⟩ := World.policyStep_cases hstep
  · -- the call panics
    refine iff_of_true hin ?_
    by_cases hfn : call.fname = fn
    · refine .inr fun o f hf => (PolicyCall.newPolicy_inRange_iff (hin o f hf) call).mp ?_
      intro policy hnew
      obtain ⟨fault, hfault⟩ := herr o f (by rw [hfn]; exact hf)
      rw [hfault] at hnew
      cases hnew
    · exact .inl hfn
  · by_cases hfn : call.fname = fn
    · subst hfn
      have hlook := World.fn?_setFn_self hf { f with policy := policy }
      have hone : (w.setFn o { f with policy := policy }).PolicyInRange call.fname ↔
          policy.InRange := by
        constructor
        · intro h
          exact h o _ hlook
        · intro h o' f' hf'
          obtain ⟨rfl, rfl⟩ := Prod.mk.inj (Option.some.inj (hlook.symm.trans hf'))
          exact h
      rw [hone]
      have hiff := PolicyCall.newPolicy_inRange_iff (hin o f hf) call
      simp only [hnew, Except.ok.injEq, forall_eq'] at hiff
      rw [hiff]
      simp only [ne_eq, not_true_eq_false, false_or, hf, Option.some.injEq, Prod.mk.injEq]
      constructor
      · rintro h o' f' ⟨rfl, rfl⟩
        exact h
      · intro h
        exact h o f ⟨rfl, rfl⟩
    · -- two functions do not share an object, since an object has one name
      refine iff_of_true (fun o' f' hf' => ?_) (.inl hfn)
      rw [World.fn?_setFn (World.heap_of_fn? hf), Option.map_eq_some_iff] at hf'
      obtain ⟨⟨o₁, f₁⟩, hf₁, heq⟩ := hf'
      have hne : o₁ ≠ o := by
        rintro rfl
        obtain rfl : f₁ = f :=
          Option.some.inj ((World.heap_of_fn? hf₁).symm.trans (World.heap_of_fn? hf))
        exact hfn ((hw.named _ _ _ hf).symm.trans (hw.named _ _ _ hf₁))
      rw [if_neg hne] at heq
      obtain ⟨rfl, rfl⟩ := Prod.mk.inj heq
      exact hin _ _ hf₁

/-- **The sequences of calls throughout which the policy of a function stays in range**, from the
default policy on: every call meets the condition of its writer.

**Proof sketch.** The default policy is in range. A call writes the policy of one function, and
`PolicyCall.newPolicy_inRange_iff` says for each writer when the new policy is in range; exact step
conditions give exact run conditions. -/
theorem policyInRange_throughout_iff {c : State} (hc : Reachable c) {fn : Str} {o : Ref}
    {f : Function} (hf : c.shared.fn? fn = some (o, f)) (hpolicy : f.policy = defaultPolicy)
    (calls : List PolicyCall) :
    Runs.Throughout World.policyStep (World.PolicyInRange fn) c.shared calls ↔
      Runs.Along World.policyStep (fun w call => w.keepsInRange fn call = true) c.shared calls := by
  refine Runs.throughout_iff_along_of_invariant (J := World.WellFormed)
    (fun _ _ _ hw hin hstep => World.policyStep_inRange_iff hw hin hstep)
    (fun _ _ _ hw _ _ hstep => World.policyStep_wellFormed hw hstep) hc.wellFormed.1 ?_
  intro o' f' hf'
  obtain ⟨rfl, rfl⟩ := Prod.mk.inj (Option.some.inj (hf.symm.trans hf'))
  rw [hpolicy]
  exact inRange_defaultPolicy

/-- The records of the sandboxes of `f`, with the averages of their cold starts. -/
def sandboxRecords (nativeCold wasmCold : ℤ) : GoMap FunctionStats :=
  ((∅ : GoMap FunctionStats).insert "f-n".toList { fnStats with avgSvcCold := nativeCold }).insert
    "f-w".toList { fnStats with avgSvcCold := wasmCold }

/-- Updates and evaluations of the policy of `f`. -/
def policyCalls : List PolicyCall :=
  [.updatePolicy { fname := "f".toList, warmStartCtrType := wasm, spawnAddlCtrs := "+3".toList },
    .evalSpawnAddlCtrs "f".toList (.finite (1 / 2)),
    .evalColdStartPolicy (sandboxRecords 1 2) "f".toList,
    .evalWarmStartPolicy (sandboxRecords 1 2) "f".toList]

/-- After the calls the policy of `f` is another one, and it has been in range throughout.

**Proof sketch.** Find the state in the small run in which `f` is deployed, run the calls on it, and
check that each keeps the policy in range. -/
theorem policyInRange_throughout_policyCalls :
    ∃ c, smallRun (deployF hybridLabels) = some c ∧
      ((Runs.run World.policyStep c.shared policyCalls).bind fun w =>
          (w.fn? "f".toList).map fun of => of.2.policy) =
        some ⟨native, wasm, 0, 0⟩ ∧
      Runs.Throughout World.policyStep (World.PolicyInRange "f".toList) c.shared policyCalls := by
  obtain ⟨c, hc, hlook⟩ := (Option.any_eq_true
    (fun c : State => (c.shared.fn? "f".toList).any (fun of =>
        decide (of.2.policy = defaultPolicy)) &&
      decide (((Runs.run World.policyStep c.shared policyCalls).bind fun w =>
          (w.fn? "f".toList).map fun of => of.2.policy) = some ⟨native, wasm, 0, 0⟩) &&
      decide (Runs.Along World.policyStep (fun w call => w.keepsInRange "f".toList call = true)
        c.shared policyCalls))
    (smallRun (deployF hybridLabels))).mp (by decide +kernel)
  simp only [Bool.and_eq_true, decide_eq_true_eq] at hlook
  obtain ⟨⟨hpolicy, hlast⟩, hal⟩ := hlook
  obtain ⟨⟨o, f⟩, hf, hpolicy⟩ := (Option.any_eq_true _ _).mp hpolicy
  exact ⟨c, hc, hlast, (policyInRange_throughout_iff (reachable_of_smallRun hc) hf
    (of_decide_eq_true hpolicy) policyCalls).mpr hal⟩

/-- An update to -2 containers is taken.

**Proof sketch.** The run is evaluated up to the update; after it the number of containers is
negative, which the range excludes. -/
theorem not_policyInRange_update :
    ∃ c o f, Reachable c ∧ c.shared.fn? "f".toList = some (o, f) ∧ f.isHybrid = true ∧
      f.policy = defaultPolicy ∧
      ¬ Runs.Throughout World.policyStep (World.PolicyInRange "f".toList) c.shared
        [.updatePolicy { fname := "f".toList, spawnAddlCtrs := "-2".toList }] := by
  obtain ⟨c, hc, hlook⟩ := (Option.any_eq_true
    (fun c : State => (c.shared.fn? "f".toList).any (fun of =>
        of.2.isHybrid && decide (of.2.policy = defaultPolicy)) &&
      ((c.shared.policyStep
        (.updatePolicy { fname := "f".toList, spawnAddlCtrs := "-2".toList })).any fun w =>
          (w.fn? "f".toList).any fun of => decide (of.2.policy.spawnAddlCtrs < 0)))
    (smallRun (deployF hybridLabels))).mp (by decide +kernel)
  obtain ⟨hbefore, hafter⟩ := Bool.and_eq_true_iff.mp hlook
  obtain ⟨⟨o, f⟩, hf, hpolicy⟩ := (Option.any_eq_true _ _).mp hbefore
  obtain ⟨hhyb, hpolicy⟩ := Bool.and_eq_true_iff.mp hpolicy
  obtain ⟨w', hstep, hafter⟩ := (Option.any_eq_true _ _).mp hafter
  obtain ⟨⟨o', f'⟩, hf', hneg⟩ := (Option.any_eq_true _ _).mp hafter
  refine ⟨c, o, f, reachable_of_smallRun hc, hf, hhyb, of_decide_eq_true hpolicy, fun h => ?_⟩
  have hspawn := ((h.2 w' hstep).head o' f' hf').spawn.1
  have hneg := of_decide_eq_true hneg
  dsimp only at hneg
  omega

end Fecore
