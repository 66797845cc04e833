import Mathlib.Tactic.Common
import Fecore.Concurrency.Clocks
import Fecore.Handlers.PoolSections

set_option relaxedAutoImplicit false
set_option autoImplicit false

/-!
# Idle pools and the clock

While the clock does not go back, the idle pool of every object lists its replicas in the order of
`lastAccess`. Then the two ends that a sweep looks at speak for the whole pool.

## Main definitions

* `Fecore.Event.now`, `Fecore.clockedProvider` — the provider with a clock that does not go back.
* `Fecore.IdleReplicas.InTime` — a pool in the order of `lastAccess`.
* `Fecore.IdleReplicas.Fresh` — a pool in which no replica has expired.
* `Fecore.Config.Due` — a replica that has not been used for the expiration time, to the
  nanosecond; the code compares doubles.

## Main results

* `Fecore.Config.expired_of_due`, `Fecore.Config.lt_of_expired`, `Fecore.Config.expired_iff_due` —
  no replica that is due is missed, none expires a microsecond early, and the comparison is exact
  up to `2 ^ 24` seconds.
* `Fecore.IdleReplicas.fresh_of_sweep_mru` — where the loop of a sweep ends, none has expired.
* `Fecore.inTime_of_run` — in every run with a clock, the pools are in the order of `lastAccess`.
-/

namespace Fecore

/-- When a move is made: a section reads the clock, and an arrival does not. -/
def Event.now : Event → Option Time
  | .arrive _ => none
  | .step _ e => some e.now

/-- The provider with a clock that does not go back. -/
def clockedProvider : State × Time → Event → Option (State × Time) :=
  Clocks.clocked provider.step Event.now

/-! ### Pools in the order of `lastAccess` -/

/-- The older one of two replicas expires first. -/
lemma Config.expired_mono {cfg : Config} {currTs : Time} {r r' : Replica}
    (hle : r.lastAccess ≤ r'.lastAccess) (h : cfg.expired currTs r' = true) :
    cfg.expired currTs r = true := by
  simp only [Config.expired, decide_eq_true_eq] at h ⊢
  exact h.trans (Durations.seconds_mono (Durations.sub_bounds _ _).1 (Durations.sub_anti hle)
    (Durations.sub_bounds _ _).2)

/-- A replica that is used after the sweep has begun does not expire. -/
lemma Config.not_expired_of_le {cfg : Config} (hT : 0 < cfg.containerExpirationTime)
    {currTs : Time} {r : Replica} (hle : currTs ≤ r.lastAccess) :
    cfg.expired currTs r = false := by
  simp only [Config.expired, decide_eq_false_iff_not, not_le]
  calc Durations.seconds (Durations.sub currTs r.lastAccess) ≤ Durations.seconds 0 :=
        Durations.seconds_mono (Durations.sub_bounds _ _).1 (Durations.sub_le_zero hle) (by decide)
    _ = 0 := by decide +kernel
    _ < Durations.one := Floats.one_pos
    _ = Durations.float64 1 := by decide +kernel
    _ ≤ Durations.float64 cfg.containerExpirationTime := Durations.float64_mono hT

/-- The replica has not been used for the expiration time, to the nanosecond. -/
def Config.Due (cfg : Config) (currTs : Time) (r : Replica) : Prop :=
  cfg.containerExpirationTime * Durations.second ≤ currTs - r.lastAccess

/-- Whether a replica is due is a comparison. -/
instance (cfg : Config) (currTs : Time) (r : Replica) : Decidable (cfg.Due currTs r) :=
  inferInstanceAs (Decidable (_ ≤ _))

/-- The expiration time is a duration: at most 9223372036 seconds. -/
def Config.Holds (cfg : Config) : Prop :=
  cfg.containerExpirationTime * Durations.second ≤ Durations.maxDuration

/-- The expiration time that is a duration is exact as a double, and so are its seconds. -/
lemma Config.seconds_expirationTime {cfg : Config} (hT : 0 < cfg.containerExpirationTime)
    (hmax : cfg.Holds) :
    Durations.seconds (cfg.containerExpirationTime * Durations.second) =
        cfg.containerExpirationTime * Durations.one ∧
      Durations.float64 cfg.containerExpirationTime =
        cfg.containerExpirationTime * Durations.one := by
  have hsmall : cfg.containerExpirationTime.natAbs < 2 ^ 53 := by
    simp only [Config.Holds, Durations.second, Durations.maxDuration] at hmax
    omega
  exact ⟨Durations.seconds_whole hsmall, Durations.float64_eq hsmall⟩

/-- **No replica that is due is missed.** -/
lemma Config.expired_of_due {cfg : Config} (hT : 0 < cfg.containerExpirationTime)
    (hmax : cfg.Holds) {currTs : Time} {r : Replica} (h : cfg.Due currTs r) :
    cfg.expired currTs r = true := by
  obtain ⟨hseconds, hfloat⟩ := Config.seconds_expirationTime hT hmax
  have hsub : cfg.containerExpirationTime * Durations.second ≤
      Durations.sub currTs r.lastAccess := le_max_of_le_right (le_min hmax h)
  have hlow : Durations.minDuration ≤ cfg.containerExpirationTime * Durations.second := by
    simp only [Durations.minDuration, Durations.second]
    omega
  simp only [Config.expired, decide_eq_true_eq, hfloat, ← hseconds]
  exact Durations.seconds_mono hlow hsub (Durations.sub_bounds _ _).2

/-- **The comparison is off by what rounding makes of it**: a replica that is short of the
expiration time by more than half the distance of the doubles at its size has not expired.

**Proof sketch.** Otherwise the duration is at most the expiration time less the short part, so that
its seconds (`Durations.seconds_mono`) stay below those of the expiration time
(`Durations.seconds_lt`), and the comparison says that they do not. -/
lemma Config.short_lt_of_expired {cfg : Config} (hT : 0 < cfg.containerExpirationTime)
    (hmax : cfg.Holds) {e : ℕ} (he : cfg.containerExpirationTime ≤ 2 ^ e) (short : ℤ)
    (hshort : 0 < short) (hsecond : short < Durations.second)
    (hround : 2 ^ (Floats.double.scale + e - 53) <
      2 * (Durations.one - Durations.fraction (Durations.second - short)))
    {currTs : Time} {r : Replica} (h : cfg.expired currTs r = true) :
    cfg.containerExpirationTime * Durations.second - short < currTs - r.lastAccess := by
  by_contra hle
  rw [not_lt] at hle
  have hlt := Durations.seconds_lt hT he hmax hshort hsecond hround
  rw [← (Config.seconds_expirationTime hT hmax).2] at hlt
  have hhigh : cfg.containerExpirationTime * Durations.second - short ≤ Durations.maxDuration :=
    (Int.sub_le_self _ hshort.le).trans hmax
  have hlow : Durations.minDuration ≤ cfg.containerExpirationTime * Durations.second - short := by
    simp only [Durations.minDuration, Durations.second] at hsecond ⊢
    omega
  have hsub : Durations.sub currTs r.lastAccess ≤
      cfg.containerExpirationTime * Durations.second - short :=
    max_le hlow (min_le_of_right_le hle)
  have hmono := Durations.seconds_mono (Durations.sub_bounds _ _).1 hsub hhigh
  simp only [Config.expired, decide_eq_true_eq] at h
  exact absurd (h.trans hmono) (not_le.mpr hlt)

/-- **A replica expires less than a microsecond before it is due.**

**Proof sketch.** Doubles of up to `2 ^ 34` seconds are at most `2 ^ -19` seconds apart. An
expiration time that is no duration is longer than any. -/
lemma Config.lt_of_expired {cfg : Config} (hT : 0 < cfg.containerExpirationTime) {currTs : Time}
    {r : Replica} (h : cfg.expired currTs r = true) :
    cfg.containerExpirationTime * Durations.second - 1000 < currTs - r.lastAccess := by
  by_cases hmax : cfg.Holds
  · refine Config.short_lt_of_expired hT hmax (e := 34) ?_ 1000 (by decide) (by decide)
      (by decide +kernel) h
    simp only [Config.Holds, Durations.second, Durations.maxDuration] at hmax
    omega
  · have hlong : 9223372037 ≤ cfg.containerExpirationTime := by
      simp only [Config.Holds, Durations.second, Durations.maxDuration] at hmax
      omega
    simp only [Config.expired, decide_eq_true_eq] at h
    have hmono : Durations.seconds (Durations.sub currTs r.lastAccess) ≤
        Durations.seconds Durations.maxDuration :=
      Durations.seconds_mono (Durations.sub_bounds _ _).1 (Durations.sub_bounds _ _).2 le_rfl
    have hlt : Durations.seconds Durations.maxDuration < Durations.float64 9223372037 := by
      decide +kernel
    exact absurd ((Durations.float64_mono hlong).trans (h.trans hmono)) (not_le.mpr hlt)

/-- **The comparison is exact up to `2 ^ 24` seconds**, where doubles are less than two
nanoseconds apart. -/
lemma Config.expired_iff_due {cfg : Config} (hT : 0 < cfg.containerExpirationTime)
    (hsmall : cfg.containerExpirationTime ≤ 2 ^ 24) {currTs : Time} {r : Replica} :
    cfg.expired currTs r = true ↔ cfg.Due currTs r := by
  have hmax : cfg.Holds := by
    simp only [Config.Holds, Durations.second, Durations.maxDuration]
    omega
  refine ⟨fun h => ?_, Config.expired_of_due hT hmax⟩
  have := Config.short_lt_of_expired hT hmax hsmall 1 (by decide) (by decide)
    (by decide +kernel) h
  exact Int.le_of_sub_one_lt this

/-- How the comparison of the code stands to the expiration time: at the latest when a replica is
due, less than a microsecond before, and up to `2 ^ 24` seconds exactly then. -/
structure Config.ExpiresOnTime (cfg : Config) (currTs : Time) : Prop where
  late : cfg.Holds → ∀ r, cfg.Due currTs r → cfg.expired currTs r = true
  early : ∀ r, cfg.expired currTs r = true →
    cfg.containerExpirationTime * Durations.second - 1000 < currTs - r.lastAccess
  exact : cfg.containerExpirationTime ≤ 2 ^ 24 →
    ∀ r, cfg.expired currTs r = true ↔ cfg.Due currTs r

/-- Replicas expire on time, whatever the expiration time. -/
lemma Config.expiresOnTime {cfg : Config} (hT : 0 < cfg.containerExpirationTime)
    (currTs : Time) : cfg.ExpiresOnTime currTs where
  late hmax _ := Config.expired_of_due hT hmax
  early _ := Config.lt_of_expired hT
  exact hsmall _ := Config.expired_iff_due hT hsmall

namespace IdleReplicas

/-- The replicas are listed in the order of `lastAccess`, and that was before now. -/
structure InTime (p : IdleReplicas) (now : Time) : Prop where
  sorted : p.stored.Pairwise fun r r' => r.lastAccess ≤ r'.lastAccess
  past : ∀ r ∈ p.stored, r.lastAccess ≤ now

/-- No replica in the pool has expired. -/
def Fresh (cfg : Config) (currTs : Time) (p : IdleReplicas) : Prop :=
  ∀ r ∈ p.stored, cfg.expired currTs r = false

/-- The empty pool is in order at any time. -/
lemma inTime_empty (now : Time) : ({} : IdleReplicas).InTime now where
  sorted := List.Pairwise.nil
  past _ hr := absurd hr List.not_mem_nil

/-- Nothing in the empty pool has expired. -/
lemma fresh_empty (cfg : Config) (currTs : Time) : ({} : IdleReplicas).Fresh cfg currTs :=
  fun _ hr => absurd hr List.not_mem_nil

/-- What is added later comes behind. -/
lemma InTime.of_sublist {p p' : IdleReplicas} {now now' : Time} (h : p.InTime now)
    (hle : now ≤ now') {adds : List Replica} (hadds : ∀ r ∈ adds, r.lastAccess = now')
    (hsub : p'.stored.Sublist (p.stored ++ adds)) : p'.InTime now' where
  sorted := by
    refine List.Pairwise.sublist hsub (List.pairwise_append.mpr ⟨h.sorted, ?_, ?_⟩)
    · exact List.pairwise_of_forall_mem_list fun r hr r' hr' =>
        ((hadds r hr).trans (hadds r' hr').symm).le
    · intro r hr r' hr'
      rw [hadds r' hr']
      exact (h.past r hr).trans hle
  past r hr := by
    rcases List.mem_append.mp (hsub.subset hr) with hr | hr
    · exact (h.past r hr).trans hle
    · exact (hadds r hr).le

/-- What has not expired may leave the pool, and more of it may come. -/
lemma Fresh.of_sublist {cfg : Config} {currTs : Time} {p p' : IdleReplicas} {adds : List Replica}
    (h : p.Fresh cfg currTs) (hadds : ∀ r ∈ adds, cfg.expired currTs r = false)
    (hsub : p'.stored.Sublist (p.stored ++ adds)) : p'.Fresh cfg currTs := by
  intro r hr
  rcases List.mem_append.mp (hsub.subset hr) with hr | hr
  · exact h r hr
  · exact hadds r hr

/-- Where the loop ends, the sweep takes out the `MRU` at most. -/
lemma sweep_fst_of_mru {cfg : Config} {currTs : Time} {p : IdleReplicas} {x : Option Replica}
    (h : (p.sweep cfg currTs).2 = .mru x) :
    (p.sweep cfg currTs).1 = if x.isSome then { p with mru := none } else p := by
  unfold sweep at h ⊢
  split at h
  · cases h
  · split at h <;> cases h <;> rfl

/-- **Where the loop of a sweep ends, none has expired** once the `MRU` has been looked at.

**Proof sketch.** The `LRU` has not expired, and is the oldest; or there is none, and then nothing
is stored but the `MRU`. -/
theorem fresh_of_sweep_mru {cfg : Config} {currTs now : Time} {p : IdleReplicas}
    (hord : p.Ordered) (htime : p.InTime now) {x : Option Replica}
    (h : (p.sweep cfg currTs).2 = .mru x) : (p.sweep cfg currTs).1.Fresh cfg currTs := by
  have hsub := stored_sweep_sublist cfg currTs p
  unfold sweep at h
  split at h
  · cases h
  · next hlru =>
    rw [Option.filter_eq_none_iff] at hlru
    cases hl : p.lru with
    | some l =>
      -- all the others are younger
      have hfresh : cfg.expired currTs l = false := by simpa using hlru l hl
      have hhead : p.stored = l :: (p.containers ++ p.mru.toList) := by simp [stored, hl]
      have hsorted := htime.sorted
      rw [hhead, List.pairwise_cons] at hsorted
      intro r hr
      have hmem := hsub.subset hr
      rw [hhead, List.mem_cons] at hmem
      rcases hmem with rfl | hmem
      · exact hfresh
      · cases hexp : cfg.expired currTs r with
        | false => rfl
        | true =>
          rw [Config.expired_mono (hsorted.1 r hmem) hexp] at hfresh
          cases hfresh
    | none =>
      have hcs : p.containers = [] := by
        by_contra hne
        exact hord hne hl
      intro r hr
      unfold sweep at hr
      simp only [hl, Option.filter_none] at hr
      split at hr
      · simp [stored, hcs] at hr
      · next hmru =>
        have hr : p.mru = some r := by simpa [stored, hl, hcs] using hr
        simpa using Option.filter_eq_none_iff.mp hmru r hr

end IdleReplicas

/-! ### What comes in -/

section Sections

variable {w w' : World} {e : Env} {t t' : Thread} {new : List Thread} {o : Ref}

/-- What `AddIdleReplica` puts into a pool has the time stamp of the call. -/
lemma World.lastAccess_of_mem_givenTo {replica r : Replica} {now : Time}
    (hr : r ∈ w.givenTo o replica now) : r.lastAccess = now := by
  unfold World.givenTo at hr
  split at hr
  · rw [List.mem_singleton.mp hr]
    rfl
  · cases hr

/-- A replica that comes into a pool has just been used.

**Proof sketch.** Case split on what the goroutine is about to do: it adds a replica when it gives
one back, or at the end of a creation; both write the time. -/
lemma Thread.lastAccess_of_mem_adds {r : Replica} (hr : r ∈ t.adds w o e) :
    r.lastAccess = e.now := by
  have hcreate : ∀ {setActive : Bool} {pc : CreatePc}, r ∈ pc.adds w o e setActive →
      r.lastAccess = e.now := by
    intro setActive pc hr
    cases pc with
    | add replica =>
      cases setActive with
      | true => cases hr
      | false => exact World.lastAccess_of_mem_givenTo hr
    | _ => cases hr
  cases t with
  | request req pc =>
    cases pc with
    | give replica => exact World.lastAccess_of_mem_givenTo hr
    | create fn pc => exact hcreate hr
    | _ => cases hr
  | spawn call pc => exact hcreate hr
  | _ => cases hr

/-- **The pool of an object after a section**: it had been there, and some of its replicas are left,
with what the section adds; or the object is new, and its pool is empty. -/
lemma section_pool (hsec : Section w e t w' t' new) (ht : t.WellFormed) {f' : Function}
    (hf' : w'.heap[o]? = some f') :
    (∃ f, w.heap[o]? = some f ∧ f'.name = f.name ∧
      f'.idleReplicas.stored.Sublist (f.idleReplicas.stored ++ t.adds w o e)) ∨
    w.heap[o]? = none ∧ f'.idleReplicas = {} := by
  cases hf : w.heap[o]? with
  | none =>
    obtain rfl := section_newObject hsec hf hf'
    exact .inr ⟨rfl, ht.1⟩
  | some f =>
    obtain ⟨f₁, hf₁, hname, hsub⟩ := section_stored hsec hf
    obtain rfl := Option.some.inj (hf'.symm.trans hf₁)
    exact .inl ⟨f, rfl, hname, hsub⟩

end Sections

/-! ### Runs -/

/-- The pools of all objects are in the order of `lastAccess`. -/
def World.InTime (w : World) (now : Time) : Prop :=
  ∀ (o : Ref) (f : Function), w.heap[o]? = some f → f.idleReplicas.InTime now

/-- One section keeps the pools in the order of `lastAccess`. -/
lemma section_inTime {w w' : World} {e : Env} {t t' : Thread} {new : List Thread} {now : Time}
    (hsec : Section w e t w' t' new) (ht : t.WellFormed) (h : w.InTime now) (hle : now ≤ e.now) :
    w'.InTime e.now := by
  intro o f' hf'
  obtain ⟨f, hf, -, hsub⟩ | ⟨-, hempty⟩ := section_pool hsec ht hf'
  · exact (h o f hf).of_sublist hle (fun r hr => Thread.lastAccess_of_mem_adds hr) hsub
  · rw [hempty]
    exact IdleReplicas.inTime_empty _

/-- One move keeps the pools in the order of `lastAccess`. -/
lemma step_inTime {s s' : State × Time} {m : Event} (hwf : State.WellFormed s.1)
    (h : s.1.shared.InTime s.2) (hstep : clockedProvider s m = some s') :
    s'.1.shared.InTime s'.2 := by
  obtain ⟨hstep, hle, hnow⟩ := Clocks.clocked_eq_some.mp hstep
  obtain ⟨t, rfl, -, hc'⟩ | ⟨i, e, t, w', t', new, rfl, ht, hn, hc'⟩ :=
    Interleaving.Program.step_cases hstep
  · have hnow : s'.2 = s.2 := hnow
    rw [hc', hnow]
    exact h
  · have hnow : s'.2 = e.now := hnow
    rw [hc', hnow]
    exact section_inTime (next_cases hn) (hwf.2 t (List.mem_of_getElem? ht)) h (hnow ▸ hle)

/-- **In every run with a clock the pools are in the order of `lastAccess`.** -/
theorem inTime_of_run {cfg : Config} {storage : Storage} {now : Time} {w : World}
    (hstart : startProvider cfg storage now = .ok w) {events : List Event} {s : State × Time}
    (hrun : Runs.run clockedProvider (⟨w, []⟩, now) events = some s) : s.1.shared.InTime s.2 := by
  have hfresh := (startProvider_fresh hstart).1
  have hbegin : World.InTime w now := fun o f hf => by
    rw [(hfresh.pools f (List.mem_of_getElem? hf)).1]
    exact IdleReplicas.inTime_empty now
  have hI := Runs.invariant
    (I := fun s : State × Time => State.WellFormed s.1 ∧ s.1.shared.InTime s.2)
    (fun s m s' hI hstep => ⟨step_wellFormed hI.1 (Clocks.clocked_eq_some.mp hstep).1,
      step_inTime hI.1 hI.2 hstep⟩)
    ⟨⟨hfresh.wellFormed, fun _ ht => absurd ht List.not_mem_nil⟩, hbegin⟩ hrun
  exact hI.2

end Fecore
