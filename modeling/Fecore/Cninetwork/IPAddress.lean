import Mathlib.Tactic.Common
import Fecore.Data.Path
import Fecore.Handlers.FailedCreations

set_option relaxedAutoImplicit false
set_option autoImplicit false

/-!
# The address of a container

`GetIPAddress` and `isCNIResultForPID` of `pkg/cninetwork/cni_network.go`, which look for the
address of a container among the files that the CNI plugin keeps, one for each address.

## Main definitions

* `Fecore.isCNIResultForPID`, `Fecore.getIPAddress` — the look-up.
* `Fecore.CNIReservation` — the file of an address, as the plugin writes it.
* `Fecore.CNIDirectory` — the files of distinct addresses for distinct containers.
* `Fecore.CNIDirectory.FindsOwn` — a container gets its own address, and no other's.

## Main results

* `Fecore.CNIDirectory.getIPAddress_listing` — the address is the one of the first file whose
  first line contains the name and the PID.
* `Fecore.CNIDirectory.findsOwn_iff` — when a container gets its own address.
-/

namespace Fecore

/-! ### The look-up -/

/-- The directory that CNI stores the allocated addresses in. -/
def cniDataDir : Str := "/var/run/cni".toList

/-- The name of the network. -/
def defaultNetworkName : Str := "fecore-cni-bridge".toList

/-- What the names of the interfaces in a container start with. -/
def defaultIfPrefix : Str := "eth".toList

/-- `reader.ReadString`: the data up to and with the first `delim`, or all data where there is
none, and what is left to read. -/
def readString (delim : Char) : Str → Str × Str
  | [] => ([], [])
  | c :: rest =>
    if c = delim then ([c], rest)
    else (c :: (readString delim rest).1, (readString delim rest).2)

/-- `isCNIResultForPID`. The file is what `os.Open` returns for it: an error or the data that can
be read. -/
def isCNIResultForPID (file : Except Str Str) (fileName container : Str) (pid : ℕ) :
    Except Str Bool :=
  match file with
  | .error err =>
    .error ("failed to open CNI IP file for ".toList ++ fileName ++ ": ".toList ++ err)
  | .ok data =>
    let process := readString '\n' data
    if contains process.1 (netID container pid) then
      let ethName := readString '\n' process.2
      .ok (contains ethName.1 defaultIfPrefix)
    else .ok false

/-- The loop of `GetIPAddress` over the files of the directory. -/
def findCNIResult (cniDir container : Str) (pid : ℕ) :
    List (Str × Except Str Str) → Except Str Str
  | [] => .error ("unable to get IP address for container: ".toList ++ container)
  | (fileName, file) :: files =>
    match isCNIResultForPID file (Path.join [cniDir, fileName]) container pid with
    | .error err => .error err
    | .ok found => if found then .ok fileName else findCNIResult cniDir container pid files

/-- `GetIPAddress`. The files are what `ioutil.ReadDir` returns: an error or the names of the
files in their order, each with what opening it returns. -/
def getIPAddress (files : Except Str (List (Str × Except Str Str))) (container : Str) (pid : ℕ) :
    Except Str Str :=
  let cniDir := Path.join [cniDataDir, defaultNetworkName]
  match files with
  | .error err =>
    .error ("failed to read CNI dir for container ".toList ++ container ++ ": ".toList ++ err)
  | .ok files => findCNIResult cniDir container pid files

/-! ### The files -/

/-- **The file of an address**: a line with the name and the PID of a task as `netID` puts them
together, and then the line with the interface. -/
structure CNIReservation where
  address : Str
  name : Str
  pid : ℕ
  /-- the first line ends with `\r\n` -/
  carriage : Bool
  /-- the data from the second line on -/
  interface : Str
  name_line : '\n' ∉ name
  interface_eth : defaultIfPrefix <+: interface

namespace CNIReservation

/-- The first line, without its end. -/
def id (r : CNIReservation) : Str := netID r.name r.pid

/-- The end of the first line, before the newline. -/
def carriageReturn (r : CNIReservation) : Str := if r.carriage then ['\r'] else []

/-- The data of the file. -/
def content (r : CNIReservation) : Str := r.id ++ r.carriageReturn ++ '\n' :: r.interface

end CNIReservation

/-- **The directory of the addresses**, in the order of `ioutil.ReadDir`: one file for an address,
and none for the task of another. -/
structure CNIDirectory where
  files : List CNIReservation
  addresses : (files.map CNIReservation.address).Nodup
  ids : (files.map CNIReservation.id).Nodup

/-- What `ioutil.ReadDir` and `os.Open` return. -/
def CNIDirectory.listing (dir : CNIDirectory) : List (Str × Except Str Str) :=
  dir.files.map fun r => (r.address, .ok r.content)

/-! ### What a file is taken for -/

/-- A line is read up to its end. -/
lemma readString_line {delim : Char} {line : Str} (h : delim ∉ line) (rest : Str) :
    readString delim (line ++ delim :: rest) = (line ++ [delim], rest) := by
  induction line with
  | nil => simp [readString]
  | cons c line ih =>
    obtain ⟨hc, hline⟩ := not_or.mp (List.mem_cons.not.mp h)
    simp [readString, ih hline, Ne.symm hc]

/-- What is read of a text that starts with no delimiter starts with the same. -/
lemma prefix_readString {delim : Char} {start text : Str} (hstart : delim ∉ start)
    (h : start <+: text) : start <+: (readString delim text).1 := by
  induction start generalizing text with
  | nil => exact List.nil_prefix
  | cons c start ih =>
    obtain ⟨hc, hrest⟩ := not_or.mp (List.mem_cons.not.mp hstart)
    cases text with
    | nil => exact absurd h (by simp)
    | cons d text =>
      obtain ⟨rfl, htext⟩ := List.cons_prefix_cons.mp h
      rw [readString, if_neg (Ne.symm hc)]
      exact List.cons_prefix_cons.mpr ⟨rfl, ih hrest htext⟩

/-- A text that ends with a character that is not in the end of a line is in the line only. -/
lemma infix_append_iff_left {sub line : Str} {last : Char} {eol : Str} (h : last ∉ eol) :
    sub ++ [last] <:+: line ++ eol ↔ sub ++ [last] <:+: line := by
  constructor
  · rw [List.infix_append_iff]
    rintro (hline | heol | ⟨l₁, l₂, heq, hsuffix, hstart⟩)
    · exact hline
    · exact absurd (heol.subset (by simp)) h
    · -- what reaches into the end of the line would have the last character
      rcases List.eq_nil_or_concat l₂ with rfl | ⟨init, c, rfl⟩
      · rw [heq, List.append_nil]
        exact hsuffix.isInfix
      · rw [List.concat_eq_append, ← List.append_assoc] at heq
        obtain ⟨-, hlast⟩ := List.append_inj' heq rfl
        obtain rfl : last = c := by simpa using hlast
        exact absurd (hstart.subset (by simp)) h
  · exact List.infix_append_of_infix_left

/-- What `netID` makes ends with a digit. -/
lemma netID_eq_append (taskID : Str) (pid : ℕ) :
    ∃ sub last, netID taskID pid = sub ++ [last] ∧ last.isDigit := by
  have hdigits := Decimal.digits_toString pid
  -- a number has a last digit
  obtain ⟨init, last, hlast⟩ : ∃ init last, (toString pid).toList = init ++ [last] := by
    rcases List.eq_nil_or_concat (toString pid).toList with hnil | ⟨init, last, hlast⟩
    · exact absurd hnil hdigits.ne_nil
    · exact ⟨init, last, by rw [hlast, List.concat_eq_append]⟩
  rw [hlast] at hdigits
  refine ⟨taskID ++ "-".toList ++ init, last, ?_, hdigits.isDigit last (by simp)⟩
  rw [netID, hlast, List.append_assoc _ init]

namespace CNIReservation

/-- The first line of a reservation goes up to its first newline. -/
lemma newline_notMem_firstLine (r : CNIReservation) : '\n' ∉ r.id ++ r.carriageReturn := by
  have hPID : '\n' ∉ (toString r.pid).toList := (Decimal.digits_toString r.pid).notMem (by decide)
  unfold id netID carriageReturn
  simp only [List.mem_append, not_or]
  refine ⟨⟨⟨r.name_line, by decide⟩, hPID⟩, ?_⟩
  split <;> decide

/-- **A file is taken for the one of a container** when its first line contains the name and the
PID.

**Proof sketch.** The first line that is read is the id of the reservation (`readString_line`). The
line ending adds no match, since the name that is searched for ends in neither of its characters. -/
theorem isCNIResultForPID_content (r : CNIReservation) (fileName container : Str) (pid : ℕ) :
    isCNIResultForPID (.ok r.content) fileName container pid =
      .ok (decide (netID container pid <:+: r.id)) := by
  have hline : readString '\n' r.content = (r.id ++ r.carriageReturn ++ ['\n'], r.interface) :=
    readString_line r.newline_notMem_firstLine r.interface
  have hcontains : contains (r.id ++ r.carriageReturn ++ ['\n']) (netID container pid) = true ↔
      netID container pid <:+: r.id := by
    obtain ⟨sub, last, heq, hlast⟩ := netID_eq_append container pid
    have hend : last ∉ r.carriageReturn ++ ['\n'] := by
      intro hmem
      have hcase : last = '\r' ∨ last = '\n' := by
        unfold carriageReturn at hmem
        split at hmem <;> simp_all
      rcases hcase with rfl | rfl
      · exact absurd hlast (by decide)
      · exact absurd hlast (by decide)
    rw [contains_iff, heq, List.append_assoc r.id, infix_append_iff_left hend]
  have heth : contains (readString '\n' r.interface).1 defaultIfPrefix = true :=
    contains_iff.mpr (prefix_readString (by decide) r.interface_eth).isInfix
  simp only [isCNIResultForPID, hline, heth]
  by_cases h : netID container pid <:+: r.id
  · rw [if_pos (hcontains.mpr h), decide_eq_true h]
  · rw [if_neg (fun hc => h (hcontains.mp hc)), decide_eq_false h]

end CNIReservation

/-! ### The address of a container -/

namespace CNIDirectory

/-- The first line contains the name and the PID. -/
def mentions (container : Str) (pid : ℕ) (r : CNIReservation) : Bool :=
  decide (netID container pid <:+: r.id)

/-- The loop over the files of reservations stops at the first one that mentions the task. -/
lemma findCNIResult_map (cniDir container : Str) (pid : ℕ) (files : List CNIReservation) :
    findCNIResult cniDir container pid (files.map fun r => (r.address, .ok r.content)) =
      match files.find? (mentions container pid) with
      | some r => .ok r.address
      | none => .error ("unable to get IP address for container: ".toList ++ container) := by
  induction files with
  | nil => rfl
  | cons r files ih =>
    rw [List.map_cons, findCNIResult, CNIReservation.isCNIResultForPID_content]
    by_cases h : netID container pid <:+: r.id
    · have hmentions : mentions container pid r = true := decide_eq_true h
      rw [List.find?_cons_of_pos hmentions]
      simp [h]
    · have hmentions : ¬ mentions container pid r = true := fun hm => h (of_decide_eq_true hm)
      rw [List.find?_cons_of_neg hmentions, ← ih]
      simp [h]

/-- **The address is the one of the first file** whose first line contains the name and the PID. -/
theorem getIPAddress_listing (dir : CNIDirectory) (container : Str) (pid : ℕ) :
    getIPAddress (.ok dir.listing) container pid =
      match dir.files.find? (mentions container pid) with
      | some r => .ok r.address
      | none => .error ("unable to get IP address for container: ".toList ++ container) :=
  findCNIResult_map _ container pid dir.files

/-- **A container gets its own address**: the one of the file that starts with its name and PID,
an error where there is none, and no file of another is taken for its own. -/
structure FindsOwn (dir : CNIDirectory) (container : Str) (pid : ℕ) : Prop where
  found : ∀ r ∈ dir.files, r.id = netID container pid →
    getIPAddress (.ok dir.listing) container pid = .ok r.address
  missing : (∀ r ∈ dir.files, r.id ≠ netID container pid) →
    ∃ err, getIPAddress (.ok dir.listing) container pid = .error err
  own : ∀ r ∈ dir.files, ∀ fileName,
    isCNIResultForPID (.ok r.content) fileName container pid = .ok true →
      r.id = netID container pid

/-- The name and the PID are contained in no other first line. -/
def ContainedInNoOther (dir : CNIDirectory) (container : Str) (pid : ℕ) : Prop :=
  ∀ r ∈ dir.files, netID container pid <:+: r.id → r.id = netID container pid

/-- Whether the task is contained in another one's is decided by looking at all files. -/
instance (dir : CNIDirectory) (container : Str) (pid : ℕ) :
    Decidable (dir.ContainedInNoOther container pid) :=
  inferInstanceAs (Decidable (∀ r ∈ dir.files, _))

/-- The first file that is taken for the one of a container is its own. -/
def FirstIsOwn (dir : CNIDirectory) (container : Str) (pid : ℕ) : Prop :=
  ∀ r, dir.files.find? (mentions container pid) = some r → r.id = netID container pid

/-- **When `GetIPAddress` alone is right**: the first file whose first line contains the name and
the PID is the container's own.

**Proof sketch.** `GetIPAddress` answers from the first file that mentions the container
(`getIPAddress_listing`). For one direction, two files with one address are the same file; for the
other, the first such file has the id, and ids differ between files. -/
theorem address_own_iff (dir : CNIDirectory) (container : Str) (pid : ℕ) :
    ((∀ r ∈ dir.files, r.id = netID container pid →
        getIPAddress (.ok dir.listing) container pid = .ok r.address) ∧
      ((∀ r ∈ dir.files, r.id ≠ netID container pid) →
        ∃ err, getIPAddress (.ok dir.listing) container pid = .error err)) ↔
      dir.FirstIsOwn container pid := by
  rw [getIPAddress_listing]
  constructor
  · rintro ⟨hfound, hmissing⟩ r hr
    rw [hr] at hfound hmissing
    by_contra hne
    by_cases hown : ∃ r' ∈ dir.files, r'.id = netID container pid
    · obtain ⟨r', hr', hid⟩ := hown
      have haddress : r.address = r'.address := Except.ok.inj (hfound r' hr' hid)
      obtain rfl : r = r' :=
        List.inj_on_of_nodup_map dir.addresses (List.mem_of_find?_eq_some hr) hr' haddress
      exact hne hid
    · obtain ⟨err, herr⟩ := hmissing fun r' hr' hid => hown ⟨r', hr', hid⟩
      nomatch herr
  · intro hfirst
    constructor
    · intro r hr hid
      cases hfind : dir.files.find? (mentions container pid) with
      | none =>
        have hno := List.find?_eq_none.mp hfind r hr
        exact absurd (decide_eq_true (hid ▸ List.infix_rfl)) hno
      | some r' =>
        obtain rfl : r' = r := List.inj_on_of_nodup_map dir.ids
          (List.mem_of_find?_eq_some hfind) hr ((hfirst r' hfind).trans hid.symm)
        rfl
    · intro hno
      cases hfind : dir.files.find? (mentions container pid) with
      | none => exact ⟨_, rfl⟩
      | some r => exact absurd (hfirst r hfind) (hno r (List.mem_of_find?_eq_some hfind))

/-- **When a container gets its own address.** -/
theorem findsOwn_iff (dir : CNIDirectory) (container : Str) (pid : ℕ) :
    dir.FindsOwn container pid ↔ dir.ContainedInNoOther container pid := by
  have hown : (∀ r ∈ dir.files, ∀ fileName,
      isCNIResultForPID (.ok r.content) fileName container pid = .ok true →
        r.id = netID container pid) ↔ dir.ContainedInNoOther container pid := by
    simp [CNIReservation.isCNIResultForPID_content, ContainedInNoOther]
  constructor
  · exact fun h => hown.mp h.own
  · intro h
    have hfirst : dir.FirstIsOwn container pid := by
      intro r hr
      have hmentions : mentions container pid r = true := List.find?_some hr
      exact h r (List.mem_of_find?_eq_some hr) (of_decide_eq_true hmentions)
    obtain ⟨hfound, hmissing⟩ := (address_own_iff dir container pid).mpr hfirst
    exact ⟨hfound, hmissing, hown.mpr h⟩

/-- The address of the task 621 of `nats`. -/
def natsReservation : CNIReservation where
  address := "10.62.0.2".toList
  name := "nats".toList
  pid := 621
  carriage := false
  interface := "eth1".toList
  name_line := by decide
  interface_eth := by decide

/-- The address of the task 621 of `nats` only. -/
def natsDirectory : CNIDirectory where
  files := [natsReservation]
  addresses := by decide
  ids := by decide

/-- **A container can get the address of another**: the task 62 of `nats` gets the one of the task
621. -/
theorem not_findsOwn : ¬ natsDirectory.FindsOwn "nats".toList 62 := by
  intro h
  obtain ⟨err, herr⟩ := h.missing fun r hr => by
    obtain rfl := List.mem_singleton.mp hr
    decide
  rw [getIPAddress_listing] at herr
  nomatch herr

end CNIDirectory

end Fecore
