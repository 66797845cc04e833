import Fecore.Concurrency.Interleaving
import Fecore.Data.Assoc
import Fecore.Handlers.Secrets

set_option relaxedAutoImplicit false
set_option autoImplicit false

/-!
# Reservations of addresses

The endpoint of `pkg/provider/handlers/ipam.go`: which address each container has, kept in a
`sync.Map`, and the next address to give out. Each request is a thread; each operation on the map
is one atomic section, so that `Reserve` and `ReleaseBy` are two sections each.

## Main definitions

* `Fecore.IPAM`, `Fecore.IPAMThread`, `Fecore.ipamProgram` — the shared data, the requests under way
  and their sections.
* `Fecore.IPAM.heldBy` — the addresses reserved for an id since it was last released.
* `Fecore.IPAM.Exclusive` — an id has one reservation at a time and an address one id.
* `Fecore.IPAM.StoresFree` — a section stores a reservation only for an id that has none, and of an
  address that no id has.

## Main results

* `Fecore.ipam_lookup_eq` — the map holds the latest reservation of each id, over every run.
* `Fecore.ipam_exclusive_iff` — reservations are exclusive over a run exactly when each is stored
  while its id and its address are free.
-/

namespace Fecore

open Interleaving

/-- `net.IP` in its four bytes. -/
structure IPv4 where
  v0 : UInt8
  v1 : UInt8
  v2 : UInt8
  v3 : UInt8
deriving DecidableEq

/-- `ip.String()` -/
def IPv4.string (ip : IPv4) : Str :=
  itoa ip.v0.toNat ++ '.' :: itoa ip.v1.toNat ++ '.' :: itoa ip.v2.toNat ++ '.' :: itoa ip.v3.toNat

/-- `getNextIP(ip, inc)` -/
def getNextIP (ip : IPv4) (inc : ℕ) : IPv4 :=
  let v := (ip.v0.toNat <<< 24) + (ip.v1.toNat <<< 16) + (ip.v2.toNat <<< 8) + ip.v3.toNat
  let v := v + inc
  ⟨.ofNat (v >>> 24 &&& 0xFF), .ofNat (v >>> 16 &&& 0xFF), .ofNat (v >>> 8 &&& 0xFF),
    .ofNat (v &&& 0xFF)⟩

/-- What a request has done that succeeded, at the time it did. -/
inductive Reservation
  /-- a `Reserve` that answers `true`, when it stores -/
  | reserved (id ip : Str)
  /-- a `ReleaseBy` that answers `true`, when it deletes -/
  | released (id : Str)
deriving DecidableEq

/-- The shared data of the endpoint. -/
structure IPAM where
  ipconfigs : GoMap Str := ∅
  nextIP : IPv4 := ⟨10, 62, 0, 1⟩
  /-- what has succeeded, the newest first; no code reads it -/
  succeeded : List Reservation := []
deriving DecidableEq

/-- The headers of a request. -/
structure IPAMRequest where
  action : Str
  id : Str := []
  ip : Str := []
deriving DecidableEq

/-- A request under way. -/
inductive IPAMThread
  /-- the handler of `MakeIPAMHandler` has the request -/
  | received (r : IPAMRequest)
  /-- `Reserve` has found no reservation -/
  | storing (ip id : Str)
  /-- `ReleaseBy` has found a reservation -/
  | deleting (id : Str)
  | answered (retval : Str)
deriving DecidableEq

namespace IPAM

/-- `Reserve(ip, id, fs)` up to the operation on the map that it makes first. -/
def reserve (s : IPAM) (ip id : Str) : IPAMThread :=
  if (s.ipconfigs.lookup id).isNone then .storing ip id else .answered "false".toList

/-- `Reserve(ip, id, fs)` from there on. -/
def store (s : IPAM) (ip id : Str) : IPAM × IPAMThread :=
  ({ s with
      ipconfigs := s.ipconfigs.insert id ip
      succeeded := .reserved id ip :: s.succeeded }, .answered "true".toList)

/-- `LastReservedIP(fs)`, all of which runs under `metricMu`. -/
def lastReservedIP (s : IPAM) : IPAM × IPAMThread :=
  let lastUsed := s.nextIP
  ({ s with nextIP := getNextIP lastUsed 1 }, .answered lastUsed.string)

/-- `FindBy(id, fs)` -/
def findBy (s : IPAM) (id : Str) : Str :=
  if (s.ipconfigs.lookup id).isNone then "false".toList else "true".toList

/-- `ReleaseBy(id, fs)` up to the operation on the map that it makes first. -/
def releaseBy (s : IPAM) (id : Str) : IPAMThread :=
  if (s.ipconfigs.lookup id).isNone then .answered "false".toList else .deleting id

/-- `ReleaseBy(id, fs)` from there on. -/
def delete (s : IPAM) (id : Str) : IPAM × IPAMThread :=
  ({ s with
      ipconfigs := s.ipconfigs.erase id
      succeeded := .released id :: s.succeeded }, .answered "true".toList)

/-- `fs.GetBy(id)` -/
def getBy (s : IPAM) (id : Str) : Str :=
  match s.ipconfigs.lookup id with
  | some reservedIP => reservedIP
  | none => []

/-- `MakeIPAMHandler` -/
def handle (s : IPAM) (r : IPAMRequest) : IPAM × IPAMThread :=
  let id := trimSpace r.id
  if r.action = "Reserve".toList then (s, s.reserve r.ip id)
  else if r.action = "LastReservedIP".toList then s.lastReservedIP
  else if r.action = "FindByKey".toList then (s, .answered (s.findBy id))
  else if r.action = "FindByID".toList then (s, .answered (s.findBy id))
  else if r.action = "ReleaseByKey".toList then (s, s.releaseBy id)
  else if r.action = "ReleaseByID".toList then (s, s.releaseBy id)
  else if r.action = "GetByID".toList then (s, .answered (s.getBy id))
  else (s, .answered "false".toList)

/-- The next section of a request. -/
def next (s : IPAM) : IPAMThread → Option (IPAM × IPAMThread)
  | .received r => some (s.handle r)
  | .storing ip id => some (s.store ip id)
  | .deleting id => some (s.delete id)
  | .answered _ => none

end IPAM

/-- The requests to the endpoint. -/
def ipamProgram : Program IPAM IPAMThread Unit where
  entry
    | .received _ => true
    | _ => false
  next s t _ := (s.next t).map fun (s', t') => (s', t', [])

/-- The endpoint after `InitFunctionStore`. -/
def startIPAM : Interleaving.Config IPAM IPAMThread := ⟨{}, []⟩

namespace IPAM

/-- The addresses reserved for an id since it was last released, the newest first. -/
def heldBy (id : Str) : List Reservation → List Str
  | [] => []
  | .reserved id' ip :: rest => if id' = id then ip :: heldBy id rest else heldBy id rest
  | .released id' :: rest => if id' = id then [] else heldBy id rest

/-- **Reservations are exclusive**: since its last release an id has been reserved at most once,
`GetBy` answers with what it was reserved for, and no two ids have the same address. -/
structure Exclusive (s : IPAM) : Prop where
  once : ∀ id, (heldBy id s.succeeded).length ≤ 1
  kept : ∀ id ip, ip ∈ heldBy id s.succeeded → s.getBy id = ip
  unique : ∀ id id' ip, s.ipconfigs.lookup id = some ip → s.ipconfigs.lookup id' = some ip →
    id = id'

/-- Where a section stores a reservation, the id has none and no id has the address. -/
def StoresFree (c : Interleaving.Config IPAM IPAMThread) (m : Move IPAMThread Unit) : Prop :=
  ∀ i e ip id, m = .step i e → c.threads[i]? = some (.storing ip id) →
    c.shared.ipconfigs.lookup id = none ∧ ∀ id', c.shared.ipconfigs.lookup id' ≠ some ip

/-- The map holds the newest reservation of each id. -/
def Latest (s : IPAM) : Prop := ∀ id, s.ipconfigs.lookup id = (heldBy id s.succeeded).head?

/-! ### Sections -/

/-- **What a section does**: it stores, it deletes, or it leaves the reservations alone.

**Proof sketch.** Case split on what the request is about to do. -/
theorem next_cases {s s' : IPAM} {t t' : IPAMThread} (h : s.next t = some (s', t')) :
    (∃ ip id, t = .storing ip id ∧ s' = (s.store ip id).1) ∨
    (∀ ip id, t ≠ .storing ip id) ∧ ((∃ id, s' = (s.delete id).1) ∨
      s'.ipconfigs = s.ipconfigs ∧ s'.succeeded = s.succeeded) := by
  cases t with
  | storing ip id =>
    obtain rfl : (s.store ip id).1 = s' := congrArg Prod.fst (Option.some.inj h)
    exact .inl ⟨ip, id, rfl, rfl⟩
  | deleting id =>
    obtain rfl : (s.delete id).1 = s' := congrArg Prod.fst (Option.some.inj h)
    exact .inr ⟨by simp, .inl ⟨id, rfl⟩⟩
  | answered retval => exact absurd h (by simp [next])
  | received r =>
    obtain rfl : (s.handle r).1 = s' := congrArg Prod.fst (Option.some.inj h)
    refine .inr ⟨by simp, .inr ?_⟩
    unfold handle
    repeat' split
    all_goals exact ⟨rfl, rfl⟩

/-- A reservation is the latest one of its container. -/
lemma Latest.store {s : IPAM} (h : s.Latest) (ip id : Str) : (s.store ip id).1.Latest := by
  intro id'
  by_cases hid : id = id'
  · subst hid
    simp [IPAM.store, heldBy]
  · simp [IPAM.store, heldBy, hid, AList.lookup_insert_ne (Ne.symm hid), h id']

/-- A release leaves no reservation of its container, and those of others as they were. -/
lemma Latest.delete {s : IPAM} (h : s.Latest) (id : Str) : (s.delete id).1.Latest := by
  intro id'
  by_cases hid : id = id'
  · subst hid
    simp [IPAM.delete, heldBy]
  · simp [IPAM.delete, heldBy, hid, AList.lookup_erase_ne (Ne.symm hid), h id']

/-- The reservations after a move: one is stored, some are deleted, or they stay as they are. -/
lemma move_cases {c c' : Interleaving.Config IPAM IPAMThread} {m : Move IPAMThread Unit}
    (h : ipamProgram.step c m = some c') :
    (∃ i e ip id, m = .step i e ∧ c.threads[i]? = some (.storing ip id) ∧
      c'.shared = (c.shared.store ip id).1) ∨
    StoresFree c m ∧ ((∃ id, c'.shared = (c.shared.delete id).1) ∨
      c'.shared.ipconfigs = c.shared.ipconfigs ∧ c'.shared.succeeded = c.shared.succeeded) := by
  obtain ⟨t, rfl, -, rfl⟩ | ⟨i, e, t, s', t', new, rfl, ht, hn, rfl⟩ := Program.step_cases h
  · exact .inr ⟨fun _ _ _ _ hm => absurd hm (by simp), .inr ⟨rfl, rfl⟩⟩
  · obtain ⟨⟨s', t'⟩, hnext, heq⟩ := Option.map_eq_some_iff.mp hn
    obtain ⟨rfl, rfl, rfl⟩ := heq
    rcases next_cases hnext with ⟨ip, id, rfl, rfl⟩ | ⟨hne, hcases⟩
    · exact .inl ⟨i, e, ip, id, rfl, ht, rfl⟩
    · refine .inr ⟨fun j e' ip id hm hj => ?_, hcases⟩
      obtain ⟨rfl, -⟩ : i = j ∧ e = e' := by simpa using hm
      exact absurd (Option.some.inj (ht.symm.trans hj)) (hne ip id)

/-- The map holds the newest reservation of each id after a move too. -/
lemma latest_step {c c' : Interleaving.Config IPAM IPAMThread} {m : Move IPAMThread Unit}
    (hl : c.shared.Latest) (h : ipamProgram.step c m = some c') : c'.shared.Latest := by
  rcases move_cases h with ⟨i, e, ip, id, -, -, hs⟩ | ⟨-, ⟨id, hs⟩ | ⟨hmap, hsucc⟩⟩
  · rw [hs]
    exact hl.store ip id
  · rw [hs]
    exact hl.delete id
  · intro id
    rw [hmap, hsucc]
    exact hl id

/-- An id without a reservation has none since its last release. -/
lemma Latest.heldBy_eq_nil {s : IPAM} (h : s.Latest) {id : Str}
    (hnone : s.ipconfigs.lookup id = none) : heldBy id s.succeeded = [] := by
  rw [h id] at hnone
  exact List.head?_eq_none_iff.mp hnone

/-- A reservation for an id and of an address that are both free stays exclusive; another one does
not.

**Proof sketch.** A second address for the id, or a second id for the address, shows in the
reservation itself. Otherwise neither has been held, and the reservations of the others stay as they
are. -/
lemma exclusive_store_iff {s : IPAM} (hl : s.Latest) (hx : s.Exclusive) {ip id : Str} :
    (s.store ip id).1.Exclusive ↔
      s.ipconfigs.lookup id = none ∧ ∀ id', s.ipconfigs.lookup id' ≠ some ip := by
  constructor
  · intro hx'
    have hfree : s.ipconfigs.lookup id = none := by
      have honce := hx'.once id
      simp only [store, heldBy, if_true, List.length_cons] at honce
      rw [hl id, List.head?_eq_none_iff]
      exact List.eq_nil_of_length_eq_zero (by omega)
    refine ⟨hfree, fun id' hid' => ?_⟩
    have hne : id' ≠ id := by
      rintro rfl
      rw [hfree] at hid'
      exact absurd hid' (by simp)
    refine hne (hx'.unique id' id ip ?_ (by simp [store]))
    rw [store, AList.lookup_insert_ne hne]
    exact hid'
  · rintro ⟨hfree, hip⟩
    have hheld := hl.heldBy_eq_nil hfree
    refine ⟨fun id' => ?_, fun id' ip' hip' => ?_, fun id₁ id₂ ip' h₁ h₂ => ?_⟩
    · by_cases hid : id = id'
      · subst hid
        simp [store, heldBy, hheld]
      · simpa [store, heldBy, hid] using hx.once id'
    · by_cases hid : id = id'
      · subst hid
        obtain rfl : ip' = ip := by simpa [store, heldBy, hheld] using hip'
        simp [getBy, store]
      · have hold : ip' ∈ heldBy id' s.succeeded := by simpa [store, heldBy, hid] using hip'
        simpa [getBy, store, AList.lookup_insert_ne (Ne.symm hid)] using hx.kept id' ip' hold
    · by_cases hid₁ : id₁ = id <;> by_cases hid₂ : id₂ = id
      · rw [hid₁, hid₂]
      · subst hid₁
        obtain rfl : ip = ip' := by simpa [store] using h₁
        rw [store, AList.lookup_insert_ne hid₂] at h₂
        exact absurd h₂ (hip id₂)
      · subst hid₂
        obtain rfl : ip = ip' := by simpa [store] using h₂
        rw [store, AList.lookup_insert_ne hid₁] at h₁
        exact absurd h₁ (hip id₁)
      · rw [store, AList.lookup_insert_ne hid₁] at h₁
        rw [store, AList.lookup_insert_ne hid₂] at h₂
        exact hx.unique id₁ id₂ ip' h₁ h₂

/-- Releasing keeps the reservations exclusive. -/
lemma Exclusive.delete {s : IPAM} (hx : s.Exclusive) (id : Str) :
    (s.delete id).1.Exclusive := by
  refine ⟨fun id' => ?_, fun id' ip hip => ?_, fun id₁ id₂ ip h₁ h₂ => ?_⟩
  · by_cases hid : id = id'
    · simp [IPAM.delete, heldBy, hid]
    · simpa [IPAM.delete, heldBy, hid] using hx.once id'
  · by_cases hid : id = id'
    · simp [IPAM.delete, heldBy, hid] at hip
    · have hold : ip ∈ heldBy id' s.succeeded := by simpa [IPAM.delete, heldBy, hid] using hip
      simpa [getBy, IPAM.delete, AList.lookup_erase_ne (Ne.symm hid)] using hx.kept id' ip hold
  · exact hx.unique id₁ id₂ ip (AList.lookup_of_lookup_erase h₁) (AList.lookup_of_lookup_erase h₂)

end IPAM

open IPAM

/-- **The map holds the latest reservation of each id**, over every run. -/
theorem ipam_lookup_eq {ms : List (Move IPAMThread Unit)} {c : Interleaving.Config IPAM IPAMThread}
    (h : Runs.run ipamProgram.step startIPAM ms = some c) : c.shared.Latest :=
  Runs.invariant (I := fun c => c.shared.Latest) (fun _ _ _ hl hs => latest_step hl hs)
    (fun _ => rfl) h

/-- **Reservations are exclusive over a run exactly when each is stored while its id and its address
are free**, over every interleaving of the sections of all requests.

**Proof sketch.** Only the section that stores can break exclusiveness. The map holds the latest
reservation of each id, so an id has none in the map exactly when it has none since its last
release. -/
theorem ipam_exclusive_iff (ms : List (Move IPAMThread Unit)) :
    Runs.Throughout ipamProgram.step (fun c => c.shared.Exclusive) startIPAM ms ↔
      Runs.Along ipamProgram.step StoresFree startIPAM ms := by
  refine Runs.throughout_iff_along_of_invariant (J := fun c => c.shared.Latest)
    (fun c m c' hl hx hs => ?_) (fun _ _ _ hl _ _ hs => latest_step hl hs) (fun _ => rfl)
    ⟨by simp [startIPAM, heldBy], by simp [startIPAM, heldBy], by simp [startIPAM]⟩
  rcases move_cases hs with ⟨i, e, ip, id, rfl, ht, hstore⟩ | ⟨hfree, ⟨id, hdel⟩ | ⟨hmap, hsucc⟩⟩
  · rw [hstore, exclusive_store_iff hl hx]
    constructor
    · intro hfree j e' ip' id' hm hj
      obtain ⟨rfl, -⟩ : i = j ∧ e = e' := by simpa using hm
      obtain ⟨rfl, rfl⟩ : ip = ip' ∧ id = id' := by simpa using ht.symm.trans hj
      exact hfree
    · exact fun hfree => hfree i e ip id rfl ht
  · rw [hdel]
    exact iff_of_true (hx.delete id) hfree
  · refine iff_of_true ⟨?_, ?_, ?_⟩ hfree
    · rw [hsucc]
      exact hx.once
    · rw [hsucc]
      intro id ip hip
      rw [getBy, hmap]
      exact hx.kept id ip hip
    · rw [hmap]
      exact hx.unique

/-- A request to reserve an address. -/
def reserveRequest (id ip : String) : Move IPAMThread Unit :=
  .arrive (.received { action := "Reserve".toList, id := id.toList, ip := ip.toList })

/-- Two requests for one container, each of which looks before the other one stores. -/
def reserveRace : List (Move IPAMThread Unit) :=
  [reserveRequest "c1" "10.62.0.1", reserveRequest "c1" "10.62.0.2", .step 0 (), .step 1 (),
    .step 0 (), .step 1 ()]

/-- Two requests for one address, one after the other. -/
def reserveSameIP : List (Move IPAMThread Unit) :=
  [reserveRequest "c1" "10.62.0.1", .step 0 (), .step 0 (), reserveRequest "c2" "10.62.0.1",
    .step 1 (), .step 1 ()]

/-- Both requests are told that they have the reservation: when they race for a container, and also
one after the other when they are for one address.

**Proof sketch.** Both runs are evaluated. After the first one the container holds two addresses,
and after the second one two containers hold the same address. -/
theorem ipam_reserved_twice :
    (Runs.run ipamProgram.step startIPAM reserveRace).map (·.threads) =
        some [.answered "true".toList, .answered "true".toList] ∧
      ¬ Runs.Throughout ipamProgram.step (fun c => c.shared.Exclusive) startIPAM reserveRace ∧
      (Runs.run ipamProgram.step startIPAM reserveSameIP).map (·.threads) =
        some [.answered "true".toList, .answered "true".toList] ∧
      ¬ Runs.Throughout ipamProgram.step (fun c => c.shared.Exclusive) startIPAM
        reserveSameIP := by
  refine ⟨by decide +kernel, fun h => ?_, by decide +kernel, fun h => ?_⟩
  · have hrun : (Runs.run ipamProgram.step startIPAM reserveRace).map
        (fun c => heldBy "c1".toList c.shared.succeeded) =
          some ["10.62.0.2".toList, "10.62.0.1".toList] := by decide +kernel
    obtain ⟨c, hc, hheld⟩ := Option.map_eq_some_iff.mp hrun
    have honce := (h.of_run hc).once "c1".toList
    rw [hheld] at honce
    exact absurd honce (by decide)
  · have hrun : (Runs.run ipamProgram.step startIPAM reserveSameIP).map
        (fun c => (c.shared.ipconfigs.lookup "c1".toList, c.shared.ipconfigs.lookup "c2".toList))
          = some (some "10.62.0.1".toList, some "10.62.0.1".toList) := by decide +kernel
    obtain ⟨c, hc, hmap⟩ := Option.map_eq_some_iff.mp hrun
    obtain ⟨h₁, h₂⟩ := Prod.mk.inj hmap
    exact absurd ((h.of_run hc).unique _ _ _ h₁ h₂) (by decide)

end Fecore
