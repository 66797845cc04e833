import Mathlib.Data.List.Duplicate
import Mathlib.Tactic.Common
import Fecore.Supervisor.Restarts
import Fecore.Supervisor.Upstreams

set_option relaxedAutoImplicit false
set_option autoImplicit false

/-!
# From the ports of the services to their containers

`runUp` of `cmd/up.go` once the supervisor has started the services: it makes a proxy for each port
of a service, and each proxy looks up the address of the service by its name, through the hosts file
that the supervisor has written and the resolver reads.

## Main definitions

* `Fecore.Supervisor.makeProxies` — the proxies of the ports.
* `Fecore.Supervisor.PollsFile` — the resolver reads one hosts file.
* `Fecore.Supervisor.Toward` — a look-up is on its way to an address.
* `Fecore.Supervisor.PortsForwarded` — the ports lead to their services.

## Main results

* `Fecore.Supervisor.makeProxies_cases` — there is one proxy for each port, or two ports are the
  same.
* `Fecore.Supervisor.Toward.next` — a look-up stays on its way.
* `Fecore.Supervisor.runUp_forwards` — each port leads to the container of its service.
-/

namespace Fecore.Supervisor

open EarlyReturns Interleaving

/-! ### The proxies -/

/-- `ServicePort` -/
structure ServicePort where
  targetPort : ℕ
  port : ℕ
  hostIP : Str := []
deriving DecidableEq

/-- `Service`, with its ports. -/
structure PortedService extends unported : Service where
  ports : List ServicePort := []

/-- `Proxy`; its timeout is not read. -/
structure Proxy where
  upstream : Str
  port : ℕ
  hostIP : Str
deriving DecidableEq

/-- `NewProxy` -/
def newProxy (upstream : Str) (listenPort : ℕ) (hostIP : Str) : Proxy where
  upstream := upstream
  port := listenPort
  hostIP := hostIP

/-- The proxies by the ports that they listen on. -/
abbrev Proxies := AList fun _ : ℕ => Proxy

/-- The text of the error when a port comes twice. -/
def alreadyAllocated (listenPort : ℕ) : Str :=
  "port ".toList ++ itoa listenPort ++ " already allocated".toList

/-- The proxy of a port of a service. -/
def proxyOf (name : Str) (port : ServicePort) : Proxy :=
  let hostIP := if 0 < port.hostIP.length then port.hostIP else "0.0.0.0".toList
  newProxy (upstreamOf name port.targetPort) port.port hostIP

/-- A turn of the loop over the ports of a service. -/
def addProxy (name : Str) (proxies : Proxies) (port : ServicePort) : Except Str Proxies :=
  if port.port ∈ proxies then .error (alreadyAllocated port.port)
  else .ok (proxies.insert port.port (proxyOf name port))

/-- The loop of `runUp` over the services. -/
def makeProxies (svcs : List PortedService) : Except Str Proxies :=
  svcs.foldlM (fun proxies svc => svc.ports.foldlM (addProxy svc.name) proxies) ∅

/-- The ports of the services, each with the name of its service. -/
def portsOf (svcs : List PortedService) : List (Str × ServicePort) :=
  svcs.flatMap fun svc => svc.ports.map fun port => (svc.name, port)

/-- The two loops are one over all ports. -/
lemma makeProxies_eq (svcs : List PortedService) : makeProxies svcs =
    (portsOf svcs).foldlM (fun proxies x => addProxy x.1 proxies x.2) ∅ := by
  have hloop : ∀ proxies : Proxies,
      svcs.foldlM (fun proxies svc => svc.ports.foldlM (addProxy svc.name) proxies) proxies =
        (portsOf svcs).foldlM (fun proxies x => addProxy x.1 proxies x.2) proxies := by
    induction svcs with
    | nil => exact fun _ => rfl
    | cons svc svcs ih =>
      intro proxies
      have hports : portsOf (svc :: svcs) =
          svc.ports.map (fun port => (svc.name, port)) ++ portsOf svcs := rfl
      rw [List.foldlM_cons, hports, List.foldlM_append, List.foldlM_map]
      exact bind_congr fun proxies => ih proxies
  exact hloop ∅

/-- **What the loop makes of the ports**: one proxy for each when they are different, and else the
error for one that comes twice.

**Proof sketch.** Induct on the ports from the end. The last one is a key already just when one
before it is the same; otherwise its proxy is added to those of the others. -/
theorem makeProxies_cases (svcs : List PortedService) :
    (((portsOf svcs).map fun x => x.2.port).Nodup ∧ ∃ proxies, makeProxies svcs = .ok proxies ∧
      ∀ n p, proxies.lookup n = some p ↔
        ∃ x ∈ portsOf svcs, x.2.port = n ∧ p = proxyOf x.1 x.2) ∨
    ∃ n, List.Duplicate n ((portsOf svcs).map fun x => x.2.port) ∧
      makeProxies svcs = .error (alreadyAllocated n) := by
  rw [makeProxies_eq]
  induction portsOf svcs using List.reverseRecOn with
  | nil => exact .inl ⟨.nil, ∅, rfl, fun n p => by simp⟩
  | append_singleton l x ih =>
    rw [List.foldlM_append, List.map_append, List.map_singleton]
    rcases ih with ⟨hnodup, proxies, hok, hlookup⟩ | ⟨n, hn, herr⟩
    · rw [hok]
      by_cases hmem : x.2.port ∈ proxies
      · refine .inr ⟨x.2.port, List.duplicate_iff_sublist.mpr ?_, ?_⟩
        · obtain ⟨p, hp⟩ := Option.isSome_iff_exists.mp (AList.lookup_isSome.mpr hmem)
          obtain ⟨y, hy, hport, -⟩ := (hlookup _ _).mp hp
          have hfirst : x.2.port ∈ l.map fun x => x.2.port := List.mem_map.mpr ⟨y, hy, hport⟩
          exact (List.singleton_sublist.mpr hfirst).append (.refl [x.2.port])
        · change addProxy x.1 proxies x.2 >>= _ = _
          rw [addProxy, if_pos hmem]
          rfl
      · refine .inl ⟨?_, proxies.insert x.2.port (proxyOf x.1 x.2), ?_, fun n p => ?_⟩
        · refine List.nodup_append.mpr ⟨hnodup, List.nodup_singleton _, ?_⟩
          rintro n hn m hm rfl
          obtain rfl := List.mem_singleton.mp hm
          obtain ⟨y, hy, hport⟩ := List.mem_map.mp hn
          have hfound := (hlookup _ _).mpr ⟨y, hy, hport, rfl⟩
          exact hmem (AList.lookup_isSome.mp (by rw [hfound]; rfl))
        · change addProxy x.1 proxies x.2 >>= _ = _
          rw [addProxy, if_neg hmem]
          rfl
        · by_cases hport : n = x.2.port
          · subst hport
            rw [AList.lookup_insert]
            constructor
            · intro heq
              exact ⟨x, by simp, rfl, (Option.some.inj heq).symm⟩
            · rintro ⟨y, hy, hport, rfl⟩
              rcases List.mem_append.mp hy with hy | hy
              · have hfound := (hlookup _ _).mpr ⟨y, hy, hport, rfl⟩
                exact absurd (AList.lookup_isSome.mp (by rw [hfound]; rfl)) hmem
              · rw [List.mem_singleton.mp hy]
          · rw [AList.lookup_insert_ne hport, hlookup]
            simp only [List.mem_append, List.mem_singleton]
            constructor
            · rintro ⟨y, hy, hyn, rfl⟩
              exact ⟨y, .inl hy, hyn, rfl⟩
            · rintro ⟨y, hy | rfl, hyn, rfl⟩
              · exact ⟨y, hy, hyn, rfl⟩
              · exact absurd hyn.symm hport
    · rw [herr]
      exact .inr ⟨n, hn.mono_sublist (List.sublist_append_left _ _), rfl⟩

/-! ### The resolver -/

/-- The resolver finds the hosts file as it is, or cannot read it. -/
def PollsFile (hosts : Str) (m : Move LookUpThread LookUpEnv) : Prop :=
  ∀ i e, m = .step i e → e.poll.fileData = none ∨ e.poll.fileData = some hosts

/-- The address that a hosts file has for a host. -/
def addressIn (hosts host : Str) : Option Str := (hostRecords hosts).reverse.lookup host

/-- All that the resolver knows is in the file. -/
def Tracks (hosts : Str) (l : LocalResolver) : Prop :=
  ∀ host ip, l.map.lookup host = some ip → addressIn hosts host = some ip

/-- The resolver knows all that is in the file, and nothing else. -/
def HasRead (hosts : Str) (l : LocalResolver) : Prop :=
  ∀ host, l.map.lookup host = addressIn hosts host

/-- A resolver that has read the file agrees with it. -/
lemma HasRead.tracks {hosts : Str} {l : LocalResolver} (h : HasRead hosts l) : Tracks hosts l :=
  fun host ip hip => by rwa [h host] at hip

/-- A resolver that has read nothing agrees with every file. -/
lemma tracks_new (hosts path : Str) : Tracks hosts (LocalResolver.new path) := by
  intro host ip hip
  rw [LocalResolver.new, AList.lookup_empty] at hip
  cases hip

/-- A look-up after a read finds the address in the file, and what was known before otherwise. -/
lemma lookup_rebuild (l : LocalResolver) (hosts host : Str) :
    (l.rebuild (some hosts)).map.lookup host =
      (addressIn hosts host).or (l.map.lookup host) :=
  AList.lookup_foldl_insert (hostRecords hosts) l.map host

/-- Whoever tracks the file has read it once it has been rebuilt from it. -/
lemma hasRead_rebuild {hosts : Str} {l : LocalResolver} (h : Tracks hosts l) :
    HasRead hosts (l.rebuild (some hosts)) := by
  intro host
  rw [lookup_rebuild]
  cases haddr : addressIn hosts host with
  | some ip => rfl
  | none =>
    cases hmap : l.map.lookup host with
    | none => rfl
    | some ip =>
      rw [h host ip hmap] at haddr
      cases haddr

section Polls

variable {hosts : Str} {l : LocalResolver} {p : LocalResolver.Poll}
  (hp : p.fileData = none ∨ p.fileData = some hosts) (lastStat : Option ℤ)
include hp

/-- A poll of the file keeps the resolver in agreement with it. -/
lemma tracks_poll (h : Tracks hosts l) : Tracks hosts (l.poll lastStat p).2 := by
  unfold LocalResolver.poll
  cases p.modTime with
  | none => exact h
  | some modTime =>
    dsimp only
    split
    · exact h
    · rcases hp with hp | hp
      · rw [hp]
        exact h
      · rw [hp]
        exact (hasRead_rebuild h).tracks

/-- What has been read stays read. -/
lemma hasRead_poll (h : HasRead hosts l) : HasRead hosts (l.poll lastStat p).2 := by
  unfold LocalResolver.poll
  cases p.modTime with
  | none => exact h
  | some modTime =>
    dsimp only
    split
    · exact h
    · rcases hp with hp | hp
      · rw [hp]
        exact h
      · rw [hp]
        exact hasRead_rebuild h.tracks

end Polls

/-- A step changes the resolver by a turn of its loop only. -/
lemma shared_step_cases {c c' : LookUps} {m : Move LookUpThread LookUpEnv}
    (h : lookUpProgram.step c m = some c') : c'.shared = c.shared ∨
      ∃ i e lastStat, m = .step i e ∧ c'.shared = (c.shared.poll lastStat e.poll).2 := by
  obtain ⟨t, rfl, -, rfl⟩ | ⟨i, e, t, s', t', new, rfl, -, hn, rfl⟩ := Program.step_cases h
  · exact .inl rfl
  · cases t with
    | resolver lastStat =>
      cases hn
      exact .inr ⟨i, e, lastStat, rfl, rfl⟩
    | lookUp lu =>
      obtain ⟨lu', -, heq⟩ := Option.map_eq_some_iff.mp hn
      cases heq
      exact .inl rfl

/-- Every move keeps the resolver in agreement with the file. -/
lemma tracks_step {hosts : Str} {c c' : LookUps} {m : Move LookUpThread LookUpEnv}
    (hm : PollsFile hosts m) (h : lookUpProgram.step c m = some c') (hc : Tracks hosts c.shared) :
    Tracks hosts c'.shared := by
  rcases shared_step_cases h with heq | ⟨i, e, lastStat, rfl, heq⟩
  · rwa [heq]
  · rw [heq]
    exact tracks_poll (hm i e rfl) lastStat hc

/-- After every move what has been read stays read. -/
lemma hasRead_step {hosts : Str} {c c' : LookUps} {m : Move LookUpThread LookUpEnv}
    (hm : PollsFile hosts m) (h : lookUpProgram.step c m = some c')
    (hc : HasRead hosts c.shared) : HasRead hosts c'.shared := by
  rcases shared_step_cases h with heq | ⟨i, e, lastStat, rfl, heq⟩
  · rwa [heq]
  · rw [heq]
    exact hasRead_poll (hm i e rfl) lastStat hc

/-! ### A look-up on its way -/

/-- **A look-up is on its way** to the address of a host and a port. When the file had been read
before it began, it never finds that the address is missing. -/
inductive Toward (host : Str) (port : ℕ) (ip : Str) (hasRead : Prop) : LookUp → Prop
  | start (listenPort : ℕ) :
    Toward host port ip hasRead ⟨.start (upstreamOf host port) listenPort, none, {}⟩
  | lookUp (timeout : Time) : Toward host port ip hasRead ⟨.lookUp host port timeout, none, {}⟩
  | called {call : GetCall} (hup : call.upstream = host) (hpc : call.pc = .called) :
      Toward host port ip hasRead ⟨.waiting port, some call, {}⟩
  | looking {call : GetCall} (hup : call.upstream = host) (begin : Time)
      (hpc : call.pc = .looking begin) : Toward host port ip hasRead ⟨.waiting port, some call, {}⟩
  | checking {call : GetCall} (hno : ¬ hasRead) (hup : call.upstream = host) (begin : Time)
      (hpc : call.pc = .checking begin) :
      Toward host port ip hasRead ⟨.waiting port, some call, {}⟩
  | sending {call : GetCall} (hpc : call.pc = .sending ip) :
      Toward host port ip hasRead ⟨.waiting port, some call, {}⟩
  | timedOut {call : GetCall} (hno : ¬ hasRead) (hpc : call.pc = .returned) :
      Toward host port ip hasRead ⟨.waiting port, some call, {}⟩
  | delivered {call : GetCall} (hpc : call.pc = .returned) :
      Toward host port ip hasRead ⟨.waiting port, some call, { sent := [ip] }⟩
  | received {call : GetCall} (hpc : call.pc = .returned) :
      Toward host port ip hasRead ⟨.received port ip, some call, { sent := [ip], received := 1 }⟩
  | listening {call : GetCall} (hpc : call.pc = .returned) :
      Toward host port ip hasRead
        ⟨.listening (ip ++ ':' :: itoa port), some call,
          { sent := [ip], received := 1, closed := true }⟩

/-- The steps that a look-up has still to take. -/
def stepsLeft (lu : LookUp) : ℕ :=
  match lu.proxy, lu.get.map GetCall.pc with
  | .start _ _, _ => 8
  | .lookUp _ _ _, _ => 7
  | .waiting _, some .called => 6
  | .waiting _, some (.looking _) => 5
  | .waiting _, some (.sending _) => 4
  | .waiting _, _ => 3
  | .received _ _, _ => 2
  | _, _ => 0

section Steps

variable {host ip : Str} {port : ℕ} {hasRead : Prop} {l : LocalResolver} {lu lu' : LookUp}
  {e : LookUpEnv}

/-- **A look-up stays on its way**, while the resolver knows no other address of the host, and this
one once it has read the file.

**Proof sketch.** Case split on who steps and on where the look-up is. The upstream is split into
the host and the port it was made of (`getUpstream_eq_ok_iff`), and an address that the resolver
knows is this one. -/
theorem Toward.next (h : Toward host port ip hasRead lu) (hcolon : ':' ∉ host)
    (hport : port < 2 ^ 31) (hne : ip ≠ []) (hknows : l.get host = [] ∨ l.get host = ip)
    (hread : hasRead → l.get host = ip) (hstep : lu.next l e = some lu') :
    Toward host port ip hasRead lu' := by
  unfold LookUp.next at hstep
  cases hwho : e.who with
  | proxy =>
    rw [hwho] at hstep
    cases h with
    | start listenPort =>
      have hsplit : getUpstream (upstreamOf host port) listenPort = .ok (host, port) :=
        (getUpstream_eq_ok_iff hcolon listenPort (numeral_itoa port) (by omega)).mpr hport
      simp only [LookUp.proxyNext, hsplit, Option.some.injEq] at hstep
      subst hstep
      exact .lookUp lookUpTimeout
    | lookUp timeout =>
      cases hstep
      exact .called rfl rfl
    | called hup hpc => cases hstep
    | looking hup begin hpc => cases hstep
    | checking hno hup begin hpc => cases hstep
    | sending hpc => cases hstep
    | timedOut hno hpc => cases hstep
    | delivered hpc =>
      cases hstep
      exact .received hpc
    | received hpc =>
      cases hstep
      exact .listening hpc
    | listening hpc => cases hstep
  | get =>
    rw [hwho] at hstep
    cases h with
    | start listenPort => cases hstep
    | lookUp timeout => cases hstep
    | called hup hpc =>
      simp only [Option.bind_some, GetCall.next, hpc, Option.map_some, Option.some.injEq] at hstep
      subst hstep
      exact .looking hup e.now rfl
    | looking hup begin hpc =>
      simp only [Option.bind_some, GetCall.next, hpc, Option.map_some, Option.some.injEq] at hstep
      subst hstep
      rw [hup]
      rcases hknows with hnil | hip
      · rw [hnil]
        exact .checking (fun hr => hne ((hread hr).symm.trans hnil)) rfl begin rfl
      · rw [hip, if_pos (List.length_pos_iff.mpr hne)]
        exact .sending rfl
    | checking hno hup begin hpc =>
      simp only [Option.bind_some, GetCall.next, hpc] at hstep
      split at hstep
      · cases hstep
        exact .timedOut hno rfl
      · cases hstep
        exact .looking hup begin rfl
    | sending hpc =>
      simp only [Option.bind_some, GetCall.next, hpc] at hstep
      cases hstep
      exact .delivered rfl
    | timedOut hno hpc =>
      rw [Option.bind_some, GetCall.next_of_returned hpc] at hstep
      cases hstep
    | delivered hpc =>
      rw [Option.bind_some, GetCall.next_of_returned hpc] at hstep
      cases hstep
    | received hpc =>
      rw [Option.bind_some, GetCall.next_of_returned hpc] at hstep
      cases hstep
    | listening hpc =>
      rw [Option.bind_some, GetCall.next_of_returned hpc] at hstep
      cases hstep

/-- The look-up has come to its address. -/
def Arrived (port : ℕ) (ip : Str) (lu : LookUp) : Prop :=
  lu.proxy = .listening (ip ++ ':' :: itoa port)

/-- **A look-up that began after the file had been read can always go on** by itself, and comes
closer to its address.

**Proof sketch.** Case split on where the look-up is. In each place its own next step can be taken,
since the resolver knows the address; no look-up waits or times out then. -/
theorem Toward.progress (h : Toward host port ip hasRead lu) (hread : hasRead) (hcolon : ':' ∉ host)
    (hport : port < 2 ^ 31) (hne : ip ≠ []) (hknows : l.get host = ip)
    (hgoal : ¬ Arrived port ip lu) :
    ∃ e lu', e.poll.fileData = none ∧ lu.next l e = some lu' ∧ stepsLeft lu' < stepsLeft lu := by
  cases h with
  | start listenPort =>
    have hsplit : getUpstream (upstreamOf host port) listenPort = .ok (host, port) :=
      (getUpstream_eq_ok_iff hcolon listenPort (numeral_itoa port) (by omega)).mpr hport
    refine ⟨{ who := .proxy }, ⟨.lookUp host port lookUpTimeout, none, {}⟩, rfl, ?_,
      by simp [stepsLeft]⟩
    simp only [LookUp.next, LookUp.proxyNext, hsplit]
  | lookUp timeout => exact ⟨{ who := .proxy }, _, rfl, rfl, by simp [stepsLeft]⟩
  | @called call hup hpc =>
    refine ⟨{ who := .get }, ⟨.waiting port, some { call with pc := .looking 0 }, {}⟩, rfl, ?_, ?_⟩
    · simp only [LookUp.next, Option.bind_some, GetCall.next, hpc, Option.map_some]
    · simp [stepsLeft, hpc]
  | @looking call hup begin hpc =>
    refine ⟨{ who := .get }, ⟨.waiting port, some { call with pc := .sending ip }, {}⟩, rfl, ?_, ?_⟩
    · simp only [LookUp.next, Option.bind_some, GetCall.next, hpc, Option.map_some, hup, hknows,
        if_pos (List.length_pos_iff.mpr hne)]
    · simp [stepsLeft, hpc]
  | checking hno hup begin hpc => exact absurd hread hno
  | @sending call hpc =>
    refine ⟨{ who := .get }, ⟨.waiting port, some { call with pc := .returned }, { sent := [ip] }⟩,
      rfl, ?_, ?_⟩
    · simp only [LookUp.next, Option.bind_some, GetCall.next, hpc]
      rfl
    · simp [stepsLeft, hpc]
  | timedOut hno hpc => exact absurd hread hno
  | delivered hpc =>
    refine ⟨{ who := .proxy }, _, rfl, rfl, ?_⟩
    simp [stepsLeft, hpc]
  | received hpc => exact ⟨{ who := .proxy }, _, rfl, rfl, by simp [stepsLeft]⟩
  | listening hpc => exact absurd rfl hgoal

end Steps

/-! ### A look-up in a run -/

/-- One look-up among all threads is on its way, and the resolver knows what it should. -/
structure OnItsWay (hosts host : Str) (port : ℕ) (ip : Str) (hasRead : Prop) (i : ℕ) (c : LookUps) :
    Prop where
  tracks : Tracks hosts c.shared
  read : hasRead → HasRead hosts c.shared
  thread : ∃ lu, c.threads[i]? = some (.lookUp lu) ∧ Toward host port ip hasRead lu

/-- The steps that a look-up among all threads has still to take. -/
def stepsLeftOf (i : ℕ) (c : LookUps) : ℕ :=
  match c.threads[i]? with
  | some (.lookUp lu) => stepsLeft lu
  | _ => 0

section Run

variable {hosts host ip : Str} {port i : ℕ} {hasRead : Prop} {c c' : LookUps}

/-- A resolver that agrees with the file has no other address for a host than the file. -/
lemma get_of_tracks {l : LocalResolver} (h : Tracks hosts l)
    (haddr : addressIn hosts host = some ip) : l.get host = [] ∨ l.get host = ip := by
  unfold LocalResolver.get index
  cases hmap : l.map.lookup host with
  | none => exact .inl rfl
  | some ip' =>
    rw [h host ip' hmap] at haddr
    exact .inr (Option.some.inj haddr)

/-- A resolver that has read the file has that address. -/
lemma get_of_hasRead {l : LocalResolver} (h : HasRead hosts l)
    (haddr : addressIn hosts host = some ip) : l.get host = ip := by
  unfold LocalResolver.get index
  rw [h host, haddr]
  rfl

variable (hcolon : ':' ∉ host) (hport : port < 2 ^ 31) (hne : ip ≠ [])
  (haddr : addressIn hosts host = some ip)
include hcolon hport hne haddr

/-- **A look-up stays on its way in every step**, whoever takes it. -/
lemma OnItsWay.step {m : Move LookUpThread LookUpEnv} (h : OnItsWay hosts host port ip hasRead i c)
    (hm : PollsFile hosts m) (hstep : lookUpProgram.step c m = some c') :
    OnItsWay hosts host port ip hasRead i c' where
  tracks := tracks_step hm hstep h.tracks
  read hr := hasRead_step hm hstep (h.read hr)
  thread := by
    obtain ⟨lu, hi, hlu⟩ := h.thread
    by_cases hmine : ∃ e, m = .step i e
    · obtain ⟨e, rfl⟩ := hmine
      obtain ⟨s', t', new, hn, rfl⟩ := step_of_getElem? hstep hi
      obtain ⟨lu', hnext, heq⟩ := Option.map_eq_some_iff.mp hn
      cases heq
      refine ⟨lu', getElem?_section _ _ hi, hlu.next hcolon hport hne (get_of_tracks h.tracks haddr)
        (fun hr => get_of_hasRead (h.read hr) haddr) hnext⟩
    · exact ⟨lu, getElem?_of_step hstep (not_exists.mp hmine) hi, hlu⟩

/-- A look-up that began after the file had been read comes to its address by its own steps.

**Proof sketch.** While the look-up has not arrived it can go on by itself, and comes closer
(`Toward.progress`); the resolver keeps the address (`OnItsWay.step`). -/
lemma OnItsWay.arrives (h : OnItsWay hosts host port ip hasRead i c) (hr : hasRead) :
    ∃ ms c', (∀ m ∈ ms, ∃ e, m = .step i e) ∧ Runs.run lookUpProgram.step c ms = some c' ∧
      ∃ lu, c'.threads[i]? = some (.lookUp lu) ∧ Arrived port ip lu := by
  have hprogress : ∀ c, OnItsWay hosts host port ip hasRead i c →
      ¬ (∃ lu, c.threads[i]? = some (.lookUp lu) ∧ Arrived port ip lu) →
        ∃ m c', (∃ e, m = Move.step i e) ∧ lookUpProgram.step c m = some c' ∧
          OnItsWay hosts host port ip hasRead i c' ∧ stepsLeftOf i c' < stepsLeftOf i c := by
    intro c h hgoal
    obtain ⟨lu, hi, hlu⟩ := h.thread
    obtain ⟨e, lu', hpoll, hnext, hlt⟩ := hlu.progress (l := c.shared) hr hcolon hport hne
      (get_of_hasRead (h.read hr) haddr) fun harrived => hgoal ⟨lu, hi, harrived⟩
    have hstep : lookUpProgram.step c (.step i e) =
        some ⟨c.shared, c.threads.set i (.lookUp lu') ++ []⟩ := by
      refine Program.step_section.mpr ⟨_, _, _, _, hi, ?_, rfl⟩
      change (lu.next c.shared e).map _ = _
      rw [hnext]
      rfl
    refine ⟨.step i e, _, ⟨e, rfl⟩, hstep, h.step hcolon hport hne haddr ?_ hstep, ?_⟩
    · rintro j e' hm
      cases hm
      exact .inl hpoll
    · unfold stepsLeftOf
      rw [getElem?_section _ _ hi, hi]
      exact hlt
  exact Runs.exists_run_to (stepsLeftOf i) hprogress h

end Run

/-! ### From a port to a container -/

/-- The names of the services are different, and can be written and looked up. -/
structure PlainNames (svcs : List PortedService) : Prop where
  nodup : (svcs.map fun svc => svc.name).Nodup
  noColon : ∀ svc ∈ svcs, ':' ∉ svc.name
  noNewline : ∀ svc ∈ svcs, '\n' ∉ svc.name
  other : ∀ svc ∈ svcs, svc.name ≠ "localhost".toList ∧ svc.name ≠ "fecore-provider".toList

/-- The addresses that the networks give can be written to a hosts file. -/
structure StartAnswers.PlainAddresses (a : StartAnswers) (gw : Str) : Prop where
  gateway : '\t' ∉ gw ∧ '\n' ∉ gw
  given : ∀ i ip, (a.service i).task.eth1.head? = some ip → ip ≠ [] ∧ '\t' ∉ ip ∧ '\n' ∉ ip

/-- What a hosts file says that has been written for the services. -/
lemma addressIn_hostsText {gw : Str} (htab : '\t' ∉ gw) (hnewline : '\n' ∉ gw)
    {started : List (Str × Str)} (hread : ∀ r ∈ started, Readable r)
    (hnodup : (started.map Prod.fst).Nodup)
    (hnames : ∀ r ∈ started, r.1 ≠ "localhost".toList ∧ r.1 ≠ "fecore-provider".toList)
    {host ip : Str} (h : (host, ip) ∈ started) :
    addressIn (hostsText gw started) host = some ip := by
  have hmap := (AList.lookup_foldl_insert_eq_some_iff
    (nodup_firstRecords_append gw hnodup hnames) host ip).mpr (List.mem_append_right _ h)
  rw [AList.lookup_foldl_insert, AList.lookup_empty, Option.or_none] at hmap
  unfold addressIn
  rwa [hostRecords_hostsText htab hnewline hread]

/-- **The look-up of a thread comes to an address**: it has not failed, it listens for no other
address, and if the resolver had read the file when it began, it comes to the address by its own
steps. -/
def ComesTo (hosts : Str) (port : ℕ) (ip : Str) (i : ℕ) (c₀ c : LookUps) : Prop :=
  (∃ lu, c.threads[i]? = some (.lookUp lu) ∧ (∀ err, lu.proxy ≠ .failed err) ∧
    ∀ addr, lu.proxy = .listening addr → addr = ip ++ ':' :: itoa port) ∧
  (HasRead hosts c₀.shared → ∃ ms c', (∀ m ∈ ms, ∃ e, m = .step i e) ∧
    Runs.run lookUpProgram.step c ms = some c' ∧
      ∃ lu, c'.threads[i]? = some (.lookUp lu) ∧ Arrived port ip lu)

/-- A look-up on its way has not failed and listens for its address only. -/
lemma Toward.proxy_cases {host ip : Str} {port : ℕ} {hasRead : Prop} {lu : LookUp}
    (h : Toward host port ip hasRead lu) : (∀ err, lu.proxy ≠ .failed err) ∧
      ∀ addr, lu.proxy = .listening addr → addr = ip ++ ':' :: itoa port := by
  cases h with
  | listening hpc =>
    refine ⟨fun err => ProxyPc.noConfusion, fun addr haddr => ?_⟩
    cases haddr
    rfl
  | _ => exact ⟨fun err => ProxyPc.noConfusion, fun addr => ProxyPc.noConfusion⟩

/-- **A look-up comes to the address in the file**, in every run of the resolver and of any number
of look-ups.

**Proof sketch.** Until the look-up begins, the resolver tracks the file (`tracks_step`). From there
on the look-up is on its way; each step keeps that, and its end is the address in the file. -/
theorem comesTo_of_run {hosts host ip : Str} {port listenPort i : ℕ} (hcolon : ':' ∉ host)
    (hport : port < 2 ^ 31) (hne : ip ≠ []) (haddr : addressIn hosts host = some ip) {path : Str}
    {ms₀ ms : List (Move LookUpThread LookUpEnv)} {c₀ c : LookUps}
    (hpolls : ∀ m ∈ ms₀ ++ ms, PollsFile hosts m)
    (hbefore : Runs.run lookUpProgram.step (startLookUps path) ms₀ = some c₀)
    (hbegin : c₀.threads[i]? = some (.lookUp { proxy := .start (upstreamOf host port) listenPort }))
    (hrun : Runs.run lookUpProgram.step c₀ ms = some c) : ComesTo hosts port ip i c₀ c := by
  have halong₀ : Runs.Along lookUpProgram.step (fun _ m => PollsFile hosts m)
      (startLookUps path) ms₀ :=
    Runs.along_of_forall fun m hm => hpolls m (List.mem_append_left _ hm)
  have halong : Runs.Along lookUpProgram.step (fun _ m => PollsFile hosts m) c₀ ms :=
    Runs.along_of_forall fun m hm => hpolls m (List.mem_append_right _ hm)
  have htracks : Tracks hosts c₀.shared :=
    Runs.invariant_of_along (I := fun c : LookUps => Tracks hosts c.shared)
      (fun _ _ _ hc hm hstep => tracks_step hm hstep hc) (tracks_new hosts path) halong₀ hbefore
  have hafter : OnItsWay hosts host port ip (HasRead hosts c₀.shared) i c :=
    Runs.invariant_of_along (fun _ _ _ hc hm hstep => hc.step hcolon hport hne haddr hm hstep)
      ⟨htracks, id, _, hbegin, .start listenPort⟩ halong hrun
  obtain ⟨lu, hi, hlu⟩ := hafter.thread
  exact ⟨⟨lu, hi, hlu.proxy_cases⟩, hafter.arrives hcolon hport hne haddr⟩

/-- **The ports are forwarded**: each service has an address, and each of its ports a proxy whose
look-up comes to this address and the port of the container, in every run in which the resolver
reads the hosts file of the site. -/
def PortsForwarded (svcs : List PortedService) (s site : Site) (proxies : Proxies) : Prop :=
  ∃ started hosts, site.addresses = s.addresses ++ started ∧ site.hosts = some hosts ∧
    (started.map Prod.fst).Perm (svcs.map fun svc => svc.name) ∧
    ∀ svc ∈ svcs, ∀ port ∈ svc.ports, port.targetPort < 2 ^ 31 →
      ∃ p ip, proxies.lookup port.port = some p ∧ p.port = port.port ∧
        (svc.name, ip) ∈ started ∧
        ∀ path ms₀ ms c₀ c i, (∀ m ∈ ms₀ ++ ms, PollsFile hosts m) →
          Runs.run lookUpProgram.step (startLookUps path) ms₀ = some c₀ →
          c₀.threads[i]? = some (.lookUp { proxy := .start p.upstream p.port }) →
          Runs.run lookUpProgram.step c₀ ms = some c →
            ComesTo hosts port.targetPort ip i c₀ c

/-- **Each port leads to the container of its service.** Once a call of `Start` has returned nil and
the proxies have been made, each service has been given an address, and each of its ports has a
proxy of its own. In every run of the resolver over the hosts file that the call has left and of any
number of look-ups, the look-up of that proxy does not fail and listens for no other address than
the one of the service with the port of the container; and if the resolver had read the file when it
began, it always comes to that address by its own steps.

**Proof sketch.** The hosts file is that of the services in the order in which they have come up
(`start_inOrder`, `start_hosts`), and is read as it was written (`addressIn_hostsText`); the name
and the port come out of the upstream again; and the look-up stays on its way
(`comesTo_of_run`). -/
theorem runUp_forwards {a : StartAnswers} {gw : Str} (hgw : a.cniGateway = .ok gw)
    (hwritten : a.HostsWritten) (hplain : a.PlainAddresses gw) {svcs : List PortedService}
    (hnames : PlainNames svcs) {depth : ℕ} {s site : Site}
    (hstart : start a depth (svcs.map fun svc => svc.unported) s = .ok () site) {proxies : Proxies}
    (hproxies : makeProxies svcs = .ok proxies) :
    PortsForwarded svcs s site proxies := by
  have hmap : (svcs.map fun svc => svc.unported).map (fun svc => svc.name) =
      svcs.map fun svc => svc.name := by simp
  obtain ⟨started, hstarted, hall⟩ := start_inOrder a depth (hmap ▸ hnames.nodup) s
  obtain ⟨started', haddr, hhosts⟩ := start_hosts hgw hwritten depth (svcs.map _) s
  obtain ⟨hperm, -⟩ := hall site hstart
  rw [hstart] at hstarted haddr hhosts
  obtain rfl : started' = started :=
    List.append_cancel_left (haddr.symm.trans hstarted.addresses)
  rw [hmap] at hperm
  have hservice : ∀ r ∈ started', ∃ svc ∈ svcs, svc.name = r.1 := fun r hr =>
    List.mem_map.mp (hperm.mem_iff.mp (List.mem_map_of_mem hr))
  have hread : ∀ r ∈ started', Readable r := by
    intro r hr
    obtain ⟨svc, hsvc, hname⟩ := hservice r hr
    obtain ⟨i, hip⟩ := hstarted.given r hr
    obtain ⟨-, htab, hnewline⟩ := hplain.given i r.2 hip
    exact ⟨hname ▸ hnames.noNewline svc hsvc, hnewline, htab⟩
  refine ⟨started', _, haddr, hhosts, hperm, fun svc hsvc port hport hlt => ?_⟩
  obtain ⟨r, hr, hname⟩ := List.mem_map.mp (hperm.mem_iff.mpr (List.mem_map_of_mem hsvc))
  rcases makeProxies_cases svcs with ⟨-, proxies', hok, hlookup⟩ | ⟨n, -, herr⟩
  · rw [hproxies] at hok
    cases hok
    have hmem : (svc.name, port) ∈ portsOf svcs :=
      List.mem_flatMap.mpr ⟨svc, hsvc, List.mem_map_of_mem hport⟩
    have hr' : (svc.name, r.2) ∈ started' := by rwa [← hname]
    refine ⟨_, r.2, (hlookup _ _).mpr ⟨_, hmem, rfl, rfl⟩, rfl, hr', ?_⟩
    intro path ms₀ ms c₀ c i hpolls hbefore hbegin hrun
    obtain ⟨j, hip⟩ := hstarted.given r hr
    refine comesTo_of_run (hnames.noColon svc hsvc) hlt (hplain.given j r.2 hip).1 ?_ hpolls
      hbefore hbegin hrun
    refine addressIn_hostsText hplain.gateway.1 hplain.gateway.2 hread
      (hperm.nodup_iff.mpr hnames.nodup) (fun r' hr'' => ?_) hr'
    obtain ⟨svc', hsvc', hname'⟩ := hservice r' hr''
    exact hname' ▸ hnames.other svc' hsvc'
  · rw [hproxies] at herr
    cases herr

/-- The two services, each with a port. -/
def echoAndStorePorts : List PortedService :=
  [{ name := "echo".toList, dependsOn := ["store".toList],
     ports := [{ targetPort := 8080, port := 80 }] },
    { name := "store".toList, dependsOn := [], ports := [{ targetPort := 6379, port := 6379 }] }]

/-- Their proxies. -/
def echoAndStoreProxies : Proxies := (makeProxies echoAndStorePorts).toOption.get rfl

/-- A call that gives an address to the first service, and another one to those after it. -/
def twoAddresses : StartAnswers :=
  { goodAnswers with
    service := fun i =>
      { task := { eth1 := [if i = 0 then "10.62.0.2".toList else "10.62.0.3".toList] } } }

/-- The addresses of the two services are plain. -/
lemma plainAddresses_twoAddresses : twoAddresses.PlainAddresses "10.62.0.1".toList where
  gateway := ⟨by decide, by decide⟩
  given i ip hip := by
    have hip : ip = if i = 0 then "10.62.0.2".toList else "10.62.0.3".toList :=
      (Option.some.inj hip).symm
    by_cases hi : i = 0
    · rw [hip, if_pos hi]
      decide
    · rw [hip, if_neg hi]
      decide

/-- The ports of the two services are forwarded. -/
theorem runUp_forwards_echoAndStore :
    PortsForwarded echoAndStorePorts {}
      (finalState (start twoAddresses 3 (echoAndStorePorts.map fun svc => svc.unported) {}))
      echoAndStoreProxies :=
  runUp_forwards rfl ⟨rfl, fun _ => ⟨rfl, rfl⟩⟩ plainAddresses_twoAddresses
    { nodup := by decide
      noColon := by decide
      noNewline := by decide
      other := by decide }
    (show start twoAddresses 3 _ {} = .ok () _ from rfl) rfl

end Fecore.Supervisor
