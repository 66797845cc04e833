import Mathlib.Tactic.Common
import Fecore.Supervisor.LocalResolver
import Fecore.Supervisor.Start

set_option relaxedAutoImplicit false
set_option autoImplicit false

/-!
# The hosts file, written and read

`Supervisor.Start` writes the hosts file and appends an entry for each service that has been
attached; `LocalResolver.rebuild` reads it line by line. The writer has newlines of its own around
each entry, and the first part of the file has none at its end.

## Main definitions

* `Fecore.Supervisor.hostsText` — the hosts file for the services that have been started.
* `Fecore.Supervisor.HostsAgree` — the file is that of the addresses that have been given.

## Main results

* `Fecore.hostRecords_append_newline` — a newline separates what is read.
* `Fecore.Supervisor.hostRecords_hostsText` — what is read is what has been written.
* `Fecore.Supervisor.start_hosts` — the file agrees with the addresses whenever a call ends.
* `Fecore.Supervisor.rebuild_start_lookup_iff` — the map of a resolver that reads the file.
-/

namespace Fecore

/-! ### Lines and records -/

/-- **A newline separates what is read.** -/
lemma hostRecords_append_newline (x y : Str) :
    hostRecords (x ++ '\n' :: y) = hostRecords x ++ hostRecords y := by
  rw [hostRecords, List.splitOn_append_cons_self, List.filterMap_append, ← hostRecords,
    ← hostRecords]

/-- A line with a tab after the address is read. -/
lemma hostRecords_line {ip name : Str} (htab : '\t' ∉ ip) (hip : '\n' ∉ ip) (hname : '\n' ∉ name) :
    hostRecords (ip ++ '\t' :: name) = [(name, ip)] := by
  have hidx : (ip ++ '\t' :: name).idxOf '\t' = ip.length := by
    rw [List.idxOf_append_of_notMem htab, List.idxOf_cons_self, Nat.add_zero]
  have hline : hostRecord (ip ++ '\t' :: name) = some (name, ip) := by
    unfold hostRecord
    rw [hidx, if_pos ⟨List.length_pos_of_mem (a := '\t') (by simp), by simp⟩]
    simp
  have hsplit : '\n' ∉ ip ++ '\t' :: name := by simp [hip, hname]
  rw [hostRecords, List.splitOn_eq_singleton hsplit, List.filterMap_cons_some hline,
    List.filterMap_nil]

namespace Supervisor

open EarlyReturns

/-- The hosts file for a gateway and the services that have been started, each with its address. -/
def hostsText (gw : Str) (started : List (Str × Str)) : Str :=
  firstHosts gw ++ started.flatMap fun r => hostsEntry r.2 r.1

/-- An entry that can be read: no newlines, and no tab in the address. -/
structure Readable (r : Str × Str) : Prop where
  name : '\n' ∉ r.1
  ip : '\n' ∉ r.2
  noTab : '\t' ∉ r.2

/-- Whether an entry can be read back is decided by its characters. -/
instance (r : Str × Str) : Decidable (Readable r) :=
  decidable_of_iff ('\n' ∉ r.1 ∧ '\n' ∉ r.2 ∧ '\t' ∉ r.2)
    ⟨fun h => ⟨h.1, h.2.1, h.2.2⟩, fun h => ⟨h.name, h.ip, h.noTab⟩⟩

/-- The hosts that the file has from the start on. -/
def firstRecords (gw : Str) : List (Str × Str) :=
  [("localhost".toList, "127.0.0.1".toList), ("fecore-provider".toList, gw)]

/-- The empty file has no records. -/
lemma hostRecords_nil : hostRecords [] = [] := by simp [hostRecords, hostRecord]

/-- The first part of the file is read as it was written. -/
lemma hostRecords_firstHosts {gw : Str} (htab : '\t' ∉ gw) (hnewline : '\n' ∉ gw) :
    hostRecords (firstHosts gw) = firstRecords gw := by
  have htext : firstHosts gw = [] ++ '\n' :: (("127.0.0.1".toList ++ '\t' :: "localhost".toList) ++
      '\n' :: (gw ++ '\t' :: "fecore-provider".toList)) := by
    unfold firstHosts
    rw [List.append_assoc]
    rfl
  rw [htext, hostRecords_append_newline, hostRecords_append_newline, hostRecords_nil,
    hostRecords_line (by decide) (by decide) (by decide),
    hostRecords_line htab hnewline (by decide)]
  rfl

/-- **What is read is what has been written**: entries that are appended are read after what was
there. -/
lemma hostRecords_append_entries (x : Str) {started : List (Str × Str)}
    (h : ∀ r ∈ started, Readable r) :
    hostRecords (x ++ started.flatMap fun r => hostsEntry r.2 r.1) = hostRecords x ++ started := by
  induction started generalizing x with
  | nil => simp
  | cons r started ih =>
    have hr := h r List.mem_cons_self
    have htext : x ++ (r :: started).flatMap (fun r => hostsEntry r.2 r.1) =
        (x ++ '\n' :: (r.2 ++ '\t' :: r.1) ++ '\n' :: []) ++
          started.flatMap fun r => hostsEntry r.2 r.1 := by
      simp [hostsEntry]
    rw [htext, ih _ fun r' hr' => h r' (List.mem_cons_of_mem _ hr'), hostRecords_append_newline,
      hostRecords_append_newline, hostRecords_line hr.noTab hr.ip hr.name]
    simp [hostRecords_nil]

/-- The whole file is read as it was written. -/
lemma hostRecords_hostsText {gw : Str} (htab : '\t' ∉ gw) (hnewline : '\n' ∉ gw)
    {started : List (Str × Str)} (h : ∀ r ∈ started, Readable r) :
    hostRecords (hostsText gw started) = firstRecords gw ++ started := by
  rw [hostsText, hostRecords_append_entries _ h, hostRecords_firstHosts htab hnewline]

/-! ### The file at the end of a call -/

/-- An entry more goes to the end of the file. -/
lemma hostsText_append (gw : Str) (started : List (Str × Str)) (name ip : Str) :
    hostsText gw (started ++ [(name, ip)]) = hostsText gw started ++ hostsEntry ip name := by
  simp [hostsText]

/-- The file can be written whenever it is, and read whenever it is. -/
def StartAnswers.HostsWritten (a : StartAnswers) : Prop :=
  a.writeFile = none ∧ ∀ i, (a.service i).readFile = none ∧ (a.service i).writeFile = none

/-- **The file agrees with the addresses** that have been given since the call began. -/
def HostsAgree (gw : Str) (before : List (Str × Str)) (s : Site) : Prop :=
  ∃ started, s.addresses = before ++ started ∧ s.hosts = some (hostsText gw started)

variable {gw : Str} {before : List (Str × Str)}

/-- A call that concerns containerd alone keeps the file and the addresses. -/
lemma keeps_hosts_onContainerd (call : Containerd → Containerd × Option Str) :
    Keeps (HostsAgree gw before) (onContainerd call) := by
  intro s hs
  rw [finalState_onContainerd]
  exact hs

/-- A check keeps everything. -/
lemma keeps_orError (P : Site → Prop) (answer : Option Str) : Keeps P (orError answer) := by
  cases answer <;> exact fun _ hs => hs

/-- The order of the services is computed without a change on the site. -/
lemma keeps_deploymentOrder (P : Site → Prop) (depth : ℕ) (svcs : List Service) :
    Keeps P (deploymentOrder depth svcs) := by
  intro s hs
  unfold deploymentOrder
  split <;> exact hs

/-- An address is given, or the call stops. -/
lemma attach_cases (a : TaskAnswers) (name : Str) (s : Site) :
    (∃ stop, attach a name s = .error stop s) ∨
      ∃ ip, attach a name s = .ok ip { s with addresses := s.addresses ++ [(name, ip)] } := by
  unfold attach
  cases a.setup with
  | some err => exact .inl ⟨_, rfl⟩
  | none =>
    cases a.eth1 with
    | nil => exact .inl ⟨_, rfl⟩
    | cons ip ips => exact .inr ⟨ip, rfl⟩

/-- Where the file can be read and written the entry is appended to it. -/
lemma addHost_eq {a : ServiceAnswers} (hread : a.readFile = none) (hwrite : a.writeFile = none)
    (ip name : Str) (s : Site) : addHost a ip name s =
      .ok () { s with hosts := some (s.hosts.getD [] ++ hostsEntry ip name) } := by
  unfold addHost
  rw [hread, hwrite]
  rfl

/-- **A turn keeps the file and the addresses in agreement**: the entry is appended as soon as the
address has been given. -/
lemma keeps_startContainer {a : ServiceAnswers} (hread : a.readFile = none)
    (hwrite : a.writeFile = none) (options : ContainerOptions) (name : Str) :
    Keeps (HostsAgree gw before) (startContainer a options name) := by
  refine (keeps_hosts_onContainerd _).bind fun _ => (keeps_hosts_onContainerd _).bind fun _ => ?_
  intro s hs
  rcases attach_cases a.task name s with ⟨stop, hstop⟩ | ⟨ip, hip⟩
  · rw [bind_of_error hstop]
    exact hs
  · rw [bind_of_ok hip, bind_of_ok (addHost_eq hread hwrite _ _ _)]
    obtain ⟨started, haddr, hhosts⟩ := hs
    refine ((keeps_orError _ _).bind fun _ => keeps_orError _ _) _ ⟨started ++ [(name, ip)], ?_, ?_⟩
    · rw [← List.append_assoc, ← haddr]
    · rw [hostsText_append, hhosts]
      rfl

/-- The start of a service keeps the file in step with the addresses. -/
lemma keeps_startService {a : StartAnswers} (h : a.HostsWritten) (svcs : List Service)
    (images : GoMap Str) (turn : Str × ℕ) :
    Keeps (HostsAgree gw before) (startService a svcs images turn) := by
  unfold startService
  split
  · exact keeps_throw _
  · exact keeps_startContainer (h.2 _).1 (h.2 _).2 _ _

/-- The call up to the images is the loop over the images once the file has been written. -/
lemma prepare_eq {a : StartAnswers} (hgw : a.cniGateway = .ok gw) (hwrite : a.writeFile = none)
    (svcs : List Service) (s : Site) : prepare a svcs s =
      svcs.zipIdx.foldlM (prepareImage a) ∅ { s with hosts := some (firstHosts gw) } := by
  unfold prepare
  rw [hgw, hwrite]
  rfl

/-- **The hosts file agrees with the addresses** that have been given, wherever the call ends. -/
theorem start_hosts {a : StartAnswers} (hgw : a.cniGateway = .ok gw) (h : a.HostsWritten)
    (depth : ℕ) (svcs : List Service) (s : Site) :
    HostsAgree gw s.addresses (finalState (start a depth svcs s)) := by
  have hfirst : HostsAgree gw s.addresses { s with hosts := some (firstHosts gw) } :=
    ⟨[], (List.append_nil _).symm, by simp [hostsText]⟩
  unfold start
  rw [bind_congr_left (prepare_eq hgw h.1 svcs s)]
  have himages := Keeps.foldlM (keeps_prepareImage (HostsAgree gw s.addresses) a) svcs.zipIdx ∅
  exact (himages.bind fun images =>
    (Keeps.forM (fun turn => keeps_hosts_onContainerd _) _).bind fun _ =>
    (keeps_deploymentOrder _ _ _).bind fun _ => Keeps.forM (keeps_startService h svcs images) _)
    _ hfirst

/-! ### The map of a resolver -/

/-- The map of a new resolver that reads a file. -/
lemma rebuild_new_map (path fileData : Str) :
    ((LocalResolver.new path).rebuild (some fileData)).map =
      (hostRecords fileData).foldl (fun map r => map.insert r.1 r.2) ∅ := rfl

/-- The hosts of the file are different when the names of the services are, and are not those that
the file has from the start on. -/
lemma nodup_firstRecords_append (gw : Str) {started : List (Str × Str)}
    (hnodup : (started.map Prod.fst).Nodup)
    (hnames : ∀ r ∈ started, r.1 ≠ "localhost".toList ∧ r.1 ≠ "fecore-provider".toList) :
    ((firstRecords gw ++ started).map Prod.fst).Nodup := by
  rw [List.map_append, List.nodup_append]
  refine ⟨?_, hnodup, ?_⟩
  · change ["localhost".toList, "fecore-provider".toList].Nodup
    decide
  · intro host hhost name hname heq
    obtain ⟨r, hr, rfl⟩ := List.mem_map.mp hname
    obtain ⟨first, hfirst, rfl⟩ := List.mem_map.mp hhost
    rcases List.mem_pair.mp hfirst with rfl | rfl
    · exact (hnames r hr).1 heq.symm
    · exact (hnames r hr).2 heq.symm

/-- **What is written is what is read.** A new resolver that reads the hosts file which a call of
`Start` has left has each service that has been started with its address, the provider with the
gateway, `localhost`, and no other host.

**Proof sketch.** The file agrees with the addresses (`start_hosts`), and the records of its lines
are those that have been written (`hostRecords_hostsText`): the newline in front of an entry ends
the line before it, and the empty lines between entries are not read. -/
theorem rebuild_start_lookup_iff {a : StartAnswers} (hgw : a.cniGateway = .ok gw)
    (h : a.HostsWritten) (htab : '\t' ∉ gw) (hnewline : '\n' ∉ gw) (depth : ℕ)
    (svcs : List Service) (s : Site) {started : List (Str × Str)}
    (hstarted : (finalState (start a depth svcs s)).addresses = s.addresses ++ started)
    (hread : ∀ r ∈ started, Readable r) (hnodup : (started.map Prod.fst).Nodup)
    (hnames : ∀ r ∈ started, r.1 ≠ "localhost".toList ∧ r.1 ≠ "fecore-provider".toList)
    (path host ip : Str) :
    ((LocalResolver.new path).rebuild
        (finalState (start a depth svcs s)).hosts).map.lookup host = some ip ↔
      (host, ip) = ("localhost".toList, "127.0.0.1".toList) ∨
        (host, ip) = ("fecore-provider".toList, gw) ∨ (host, ip) ∈ started := by
  obtain ⟨started', haddr, hhosts⟩ := start_hosts hgw h depth svcs s
  obtain rfl : started' = started := List.append_cancel_left (haddr.symm.trans hstarted)
  rw [hhosts, rebuild_new_map, hostRecords_hostsText htab hnewline hread,
    AList.lookup_foldl_insert_eq_some_iff (nodup_firstRecords_append gw hnodup hnames),
    List.mem_append, firstRecords, List.mem_pair, or_assoc]

/-- Two services, where one needs the other. -/
def echoAndStore : List Service :=
  [{ name := "echo".toList, dependsOn := ["store".toList] },
    { name := "store".toList, dependsOn := [] }]

/-- The addresses of the two services. -/
def echoAndStoreStarted : List (Str × Str) :=
  [("store".toList, "10.62.0.2".toList), ("echo".toList, "10.62.0.3".toList)]

/-- A call that gives the addresses. -/
def echoAndStoreAnswers : StartAnswers :=
  { goodAnswers with
    service := fun i => { task := { eth1 := [((echoAndStoreStarted[i]?).map Prod.snd).getD []] } } }

/-- The second service in the map after a call that starts the two. -/
theorem rebuild_start_lookup_echo :
    ((LocalResolver.new []).rebuild
        (finalState (start echoAndStoreAnswers 3 echoAndStore {})).hosts).map.lookup
          "echo".toList = some "10.62.0.3".toList ↔
      ("echo".toList, "10.62.0.3".toList) = ("localhost".toList, "127.0.0.1".toList) ∨
        ("echo".toList, "10.62.0.3".toList) = ("fecore-provider".toList, "10.62.0.1".toList) ∨
          ("echo".toList, "10.62.0.3".toList) ∈ echoAndStoreStarted :=
  rebuild_start_lookup_iff rfl ⟨rfl, fun _ => ⟨rfl, rfl⟩⟩ (by decide) (by decide) 3 echoAndStore {}
    (by decide) (by decide) (by decide) (by decide) [] _ _

end Supervisor

end Fecore
