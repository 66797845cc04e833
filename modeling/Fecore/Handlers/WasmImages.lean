import Mathlib.Tactic.Common
import Fecore.Handlers.DeployHandler
import Fecore.Handlers.WellFormed

set_option relaxedAutoImplicit false
set_option autoImplicit false

/-!
# The images of WASM functions

A WASM function comes in a tarball under `/mnt/faasedge/images`, which `deploy` unpacks there
(`pkg/provider/handlers/deploy.go`). A replica has a directory of its own in the image of its
function: `setupWasmStorage` makes it and `DeleteWasmReplica` removes it. The paths of all these
are put together from strings of the request and of the tarball.

## Main definitions

* `Fecore.Archive`, `Fecore.untar` — a tarball, and what unpacking it does.
* `Fecore.deployFiles` — `deploy` together with what it does on the disk.
* `Fecore.setupWasmStorage`, `Fecore.removeWasmStorage` — the directory of a replica.
* `Fecore.WasmDeployment` — a request for a WASM function, with the replicas that follow.

## Main results

* `Fecore.deployFiles_snd` — the function is the one that `deploy` makes.
* `Fecore.wasmContained_iff` — the requests whose paths stay under the root of the images.
-/

namespace Fecore

/-! ### Unpacking a tarball -/

/-- `header.Typeflag`, as far as `untar` tells the types apart. -/
inductive Typeflag
  | typeDir
  | typeReg
  | other
deriving DecidableEq

/-- `tar.Header` together with the contents of the entry. -/
structure Header where
  name : Str
  typeflag : Typeflag
  contents : List UInt8 := []

/-- An entry of a tarball, and what `untar` meets at it: whether `os.Stat` finds its target, the
errors of `os.MkdirAll` and `os.OpenFile`, and where `io.Copy` fails with which error. -/
structure Entry where
  header : Header
  found : Bool := false
  mkdirAll : Option Str := none
  openFile : Option Str := none
  copy : Option (ℕ × Str) := none

/-- A file that is read as a tarball: the error of `gzip.NewReader`, the entries that `tr.Next`
yields, and its last error, none for `io.EOF`. -/
structure Archive where
  gzip : Option Str := none
  entries : List Entry := []
  last : Option Str := none

/-- A call by which `untar` changes files. -/
inductive UntarCall
  | mkdirAll (path : Str)
  /-- with `O_CREATE` and `O_RDWR` -/
  | openFile (path : Str)
  /-- what `io.Copy` writes to the file that has been opened -/
  | write (path : Str) (data : List UInt8)
deriving DecidableEq

/-- The target of an entry. -/
def Entry.target (dst : Str) (e : Entry) : Str := Path.join [dst, e.header.name]

/-- What `io.Copy` writes. -/
def Entry.copied (e : Entry) : List UInt8 :=
  match e.copy with
  | some (n, _) => e.header.contents.take n
  | none => e.header.contents

/-- The body of the loop of `untar`: its calls, and its error. -/
def Entry.untar (dst : Str) (e : Entry) : List UntarCall × Option Str :=
  match e.header.typeflag with
  | .typeDir => if e.found then ([], none) else ([.mkdirAll (e.target dst)], e.mkdirAll)
  | .typeReg =>
    match e.openFile with
    | some err => ([.openFile (e.target dst)], some err)
    | none =>
      ([.openFile (e.target dst), .write (e.target dst) e.copied], e.copy.map (·.2))
  | .other => ([], none)

/-- The loop of `untar`. -/
def untarEntries (dst : Str) (last : Option Str) : List Entry → List UntarCall × Option Str
  | [] => ([], last)
  | e :: es =>
    match e.untar dst with
    | (calls, some err) => (calls, some err)
    | (calls, none) =>
      let (rest, err) := untarEntries dst last es
      (calls ++ rest, err)

/-- `untar`. -/
def untar (dst : Str) (archive : Archive) : List UntarCall × Option Str :=
  match archive.gzip with
  | some err => ([], some err)
  | none => untarEntries dst archive.last archive.entries

/-! ### Deploying a function -/

/-- A call of the operating system. -/
inductive ImageCall
  | open_ (path : Str)
  | readDir (path : Str)
  | untar (call : UntarCall)
  | mkdir (path : Str)
  /-- `reflink.Auto` -/
  | reflink (src dst : Str)
  | removeAll (path : Str)
deriving DecidableEq

/-- A name in a directory. -/
abbrev FileName := { name : Str // Path.ProperName name }

/-- What `deploy` meets: the tarball, the names in the root file system that it has unpacked, and
the image that `prepull` pulls. -/
structure Deploying where
  opened : Except Str Archive := .ok {}
  rootfs : List FileName := []
  prepull : Except Str Str := .ok []

/-- The tarball of an image. -/
def tarball (image : Str) : Str := wasmImagesRoot ++ "/".toList ++ image ++ ".tgz".toList

/-- `fn.image` of a WASM function. -/
def wasmImage (name : Str) : Str := wasmImagesRoot ++ "/".toList ++ name

/-- The tarball is opened and unpacked. -/
def unpack (image : Str) (opened : Except Str Archive) : List ImageCall × Option Str :=
  match opened with
  | .error err => ([.open_ (tarball image)], some err)
  | .ok archive =>
    let (calls, err) := untar wasmImagesRoot archive
    (.open_ (tarball image) :: calls.map .untar, err)

/-- `deploy` together with its calls. -/
def deployFiles (req : FunctionDeployment) (image : Str) (d : Deploying) :
    List ImageCall × Option Function :=
  match buildLabels req with
  | none => ([], none)
  | some labels =>
    if labels.lookup ctrTypeLabel = some wasm then
      match unpack image d.opened with
      | (calls, some _) => (calls, none)
      | (calls, none) =>
        (calls ++ [.readDir (wasmImage req.service ++ "/rootfs".toList)],
          deploy req { imageFiles := d.rootfs.map (·.val) })
    else
      match d.prepull with
      | .error _ => ([], deploy req { err := true })
      | .ok image => ([], deploy req { image := image })

/-- What `deploy` meets, as a section of the provider meets it. -/
def Deploying.env (req : FunctionDeployment) (image : Str) (d : Deploying) : Env :=
  let isWasm := (buildLabels req).any fun labels => labels.lookup ctrTypeLabel = some wasm
  { err := if isWasm then (unpack image d.opened).2.isSome else !d.prepull.isOk
    image := match d.prepull with | .ok image => image | .error _ => []
    imageFiles := d.rootfs.map (·.val) }

/-- `deploy` of a WASM function.

**Proof sketch.** Unfold `deploy`; the label selects its branch for WASM. -/
lemma deploy_wasm {req : FunctionDeployment} {labels : GoMap Str} (e : Env)
    (hlabels : buildLabels req = some labels) (hwasm : labels.lookup ctrTypeLabel = some wasm) :
    deploy req e =
      if e.err then none
      else some
        { name := req.service
          namespace_ := req.namespace_
          image := wasmImage req.service
          imageFiles := e.imageFiles
          secretsPath := req.secretMountPath
          labels := labels
          envVars := req.envVars
          envProcess := req.envProcess
          memoryLimit := 50000000 } := by
  unfold deploy
  rw [hlabels]
  dsimp only
  rw [if_pos hwasm]
  rfl

/-- `deploy` of another function looks at the image that has been pulled only. -/
lemma deploy_congr {req : FunctionDeployment} {labels : GoMap Str} {e e' : Env}
    (hlabels : buildLabels req = some labels) (hwasm : labels.lookup ctrTypeLabel ≠ some wasm)
    (herr : e.err = e'.err) (himage : e.image = e'.image) : deploy req e = deploy req e' := by
  unfold deploy
  rw [hlabels]
  dsimp only
  rw [if_neg hwasm, if_neg hwasm, herr, himage]

/-- **The function is the one that `deploy` makes.**

**Proof sketch.** Case split on the labels and on the container type. A WASM image fails to be
unpacked where `deploy` is told so (`deploy_wasm`); every other one does not use what is unpacked
(`deploy_congr`). -/
theorem deployFiles_snd (req : FunctionDeployment) (image : Str) (d : Deploying) :
    (deployFiles req image d).2 = deploy req (d.env req image) := by
  unfold deployFiles
  cases hlabels : buildLabels req with
  | none =>
    have hnone : deploy req (d.env req image) = none := by rw [deploy, hlabels]
    rw [hnone]
  | some labels =>
    dsimp only
    split
    · next hwasm =>
      have henv : (d.env req image).err = (unpack image d.opened).2.isSome := by
        simp [Deploying.env, hlabels, hwasm]
      rw [deploy_wasm (d.env req image) hlabels hwasm, henv]
      split
      · next hunpack => simp [hunpack]
      · next hunpack =>
        rw [hunpack, deploy_wasm _ hlabels hwasm]
        rfl
    · next hwasm =>
      have henv : (d.env req image).err = !d.prepull.isOk := by
        simp [Deploying.env, hlabels, hwasm]
      split
      · next herr =>
        refine deploy_congr hlabels hwasm ?_ ?_
        · rw [henv, herr]
          rfl
        · simp [Deploying.env, herr]
      · next herr =>
        refine deploy_congr hlabels hwasm ?_ ?_
        · rw [henv, herr]
          rfl
        · simp [Deploying.env, herr]

/-! ### The directory of a replica -/

/-- What `setupWasmStorage` meets: whether `os.Stat` finds the directory, and the errors of
`os.Mkdir` and of `reflink.Auto` for each file. -/
structure StorageAnswers where
  found : Bool := false
  mkdir : Option Str := none
  reflink : Str → Option Str := fun _ => none

/-- The loop of `setupWasmStorage`. -/
def reflinkFiles (image_path rootfs_path : Str) (reflink : Str → Option Str) :
    List Str → List ImageCall × Option Str
  | [] => ([], none)
  | file :: files =>
    let call : ImageCall := .reflink (image_path ++ "/rootfs/".toList ++ file)
      (rootfs_path ++ "/".toList ++ file)
    match reflink file with
    | some err => ([call], some err)
    | none =>
      let (calls, err) := reflinkFiles image_path rootfs_path reflink files
      (call :: calls, err)

/-- The directory of a replica. -/
def replicaPath (image_path replicaName : Str) : Str :=
  image_path ++ "/replicas/".toList ++ replicaName

/-- `setupWasmStorage` for the image and the files of a function. -/
def setupWasmStorage (image_path : Str) (imageFiles : List Str) (replicaName : Str)
    (a : StorageAnswers) : List ImageCall × Option Str :=
  let rootfs_path := replicaPath image_path replicaName
  let removed : List ImageCall := if a.found then [.removeAll rootfs_path] else []
  match a.mkdir with
  | some err => (removed ++ [.mkdir rootfs_path], some err)
  | none =>
    let (calls, err) := reflinkFiles image_path rootfs_path a.reflink imageFiles
    (removed ++ .mkdir rootfs_path :: calls, err)

/-- The removal of the directory in `DeleteWasmReplica`, unless `os.FindProcess` has an error. The
control groups of the process are none of the image. -/
def removeWasmStorage (image replicaName : Str) (findProcess : Option Str) : List ImageCall :=
  match findProcess with
  | some _ => []
  | none => [.removeAll (replicaPath image replicaName)]

/-- A replica is created or deleted. It is named after the function that it was created for: the
one whose image it uses, or a hybrid one, whose own image `DeleteWasmReplica` then takes the replica
from. -/
inductive ReplicaEvent
  | setup (fname uuid : Str) (a : StorageAnswers)
  | delete (fname uuid : Str) (hybrid : Option Str) (findProcess : Option Str)

/-- The name of the replica. -/
def ReplicaEvent.replicaName : ReplicaEvent → Str
  | setup fname uuid _ => wasmName fname uuid
  | delete fname uuid _ _ => wasmName fname uuid

/-- The image in whose directory the replica is. -/
def ReplicaEvent.image (fn : Function) : ReplicaEvent → Str
  | setup _ _ _ => fn.image
  -- `deployedFunctions[replica.fname].image`
  | delete _ _ hybrid _ => hybrid.getD fn.image

/-- The calls for a replica of a function. -/
def ReplicaEvent.calls (fn : Function) (ev : ReplicaEvent) : List ImageCall :=
  match ev with
  | setup _ _ a => (setupWasmStorage (ev.image fn) fn.imageFiles ev.replicaName a).1
  | delete _ _ _ findProcess => removeWasmStorage (ev.image fn) ev.replicaName findProcess

/-! ### What is unpacked -/

/-- The loop of `untar` ends with an error at the entry. -/
def Entry.fails (e : Entry) : Bool :=
  match e.header.typeflag with
  | .typeDir => !e.found && e.mkdirAll.isSome
  | .typeReg => e.openFile.isSome || e.copy.isSome
  | .other => false

/-- The entry is a file, or a directory that is not there yet. -/
def Entry.creates (e : Entry) : Bool :=
  match e.header.typeflag with
  | .typeDir => !e.found
  | .typeReg => true
  | .other => false

/-- The entries up to the first one that fails. -/
def reachedEntries : List Entry → List Entry
  | [] => []
  | e :: es => if e.fails then [e] else e :: reachedEntries es

/-- The entries that the unpacking gets to. -/
def Archive.reached (archive : Archive) : List Entry :=
  match archive.gzip with
  | some _ => []
  | none => reachedEntries archive.entries

/-- The tarball is unpacked to its end. -/
def Archive.unpacks (archive : Archive) : Bool :=
  archive.gzip.isNone && archive.entries.all (!·.fails) && archive.last.isNone

/-- The loop ends with an error at just the entries that fail. -/
lemma Entry.isSome_untar (dst : Str) (e : Entry) : (e.untar dst).2.isSome = e.fails := by
  obtain ⟨⟨name, flag, contents⟩, found, mkdirAll, openFile, copy⟩ := e
  cases flag with
  | typeDir => cases found <;> rfl
  | typeReg => cases openFile <;> cases copy <;> rfl
  | other => rfl

/-- The path of a call of `untar`. -/
def UntarCall.path : UntarCall → Str
  | mkdirAll path => path
  | openFile path => path
  | write path _ => path

/-- The calls at an entry are about its target, and there are some when it creates something. -/
lemma Entry.forall_mem_untar (Q : Str → Prop) (dst : Str) (e : Entry) :
    (∀ call ∈ (e.untar dst).1, Q call.path) ↔ (e.creates = true → Q (e.target dst)) := by
  obtain ⟨⟨name, flag, contents⟩, found, mkdirAll, openFile, copy⟩ := e
  cases flag with
  | typeDir => cases found <;> simp [untar, creates, UntarCall.path]
  | typeReg => cases openFile <;> simp [untar, creates, UntarCall.path]
  | other => simp [untar, creates]

/-- **The calls of the loop** are those at the entries that it gets to.

**Proof sketch.** Induct on the entries. One that fails ends the loop, and the calls before the
failure are its own. -/
lemma forall_mem_untarEntries (Q : Str → Prop) (dst : Str) (last : Option Str)
    (es : List Entry) :
    (∀ call ∈ (untarEntries dst last es).1, Q call.path) ↔
      ∀ e ∈ reachedEntries es, e.creates = true → Q (e.target dst) := by
  induction es with
  | nil => simp [untarEntries, reachedEntries]
  | cons e es ih =>
    have hfails := e.isSome_untar dst
    have hcalls := e.forall_mem_untar Q dst
    rcases huntar : e.untar dst with ⟨calls, err⟩
    rw [huntar] at hfails hcalls
    cases err with
    | some err =>
      have hfails : e.fails = true := hfails.symm
      simpa [untarEntries, reachedEntries, huntar, hfails] using hcalls
    | none =>
      have hfails : e.fails = false := hfails.symm
      simp only [untarEntries, huntar, reachedEntries, hfails, Bool.false_eq_true, if_false,
        List.forall_mem_append, List.forall_mem_cons, hcalls, ih]

/-- The paths of the calls are the targets of the entries that the unpacking gets to and creates. -/
lemma forall_mem_untar (Q : Str → Prop) (dst : Str) (archive : Archive) :
    (∀ call ∈ (untar dst archive).1, Q call.path) ↔
      ∀ e ∈ archive.reached, e.creates = true → Q (e.target dst) := by
  unfold untar Archive.reached
  cases archive.gzip with
  | some err => simp
  | none => exact forall_mem_untarEntries Q dst archive.last archive.entries

/-- Unpacking has no error when it gets to the end.

**Proof sketch.** Induct on the entries. The loop has an error at the first entry that fails, or at
the end of the archive. -/
lemma isSome_untar (dst : Str) (archive : Archive) :
    (untar dst archive).2.isSome = !archive.unpacks := by
  have hloop : ∀ es : List Entry, (untarEntries dst archive.last es).2.isSome =
      !(es.all (!·.fails) && archive.last.isNone) := by
    intro es
    induction es with
    | nil => cases archive.last <;> simp [untarEntries]
    | cons e es ih =>
      have hfails := e.isSome_untar dst
      rcases huntar : e.untar dst with ⟨calls, err⟩
      rw [huntar] at hfails
      cases err with
      | some err =>
        have hfails : e.fails = true := hfails.symm
        simp [untarEntries, huntar, hfails]
      | none =>
        have hfails : e.fails = false := hfails.symm
        simp only [untarEntries, huntar, List.all_cons, hfails, Bool.not_false, Bool.true_and, ih]
  unfold untar Archive.unpacks
  cases archive.gzip with
  | some err => rfl
  | none => exact hloop archive.entries

/-! ### Containment -/

/-- A request for a WASM function, what `deploy` meets, and the replicas of the function that are
created and deleted once it is deployed. -/
structure WasmDeployment where
  req : FunctionDeployment
  image : Str
  labels : GoMap Str
  labels_eq : buildLabels req = some labels
  isWasm : labels.lookup ctrTypeLabel = some wasm
  deploying : Deploying := {}
  replicas : List ReplicaEvent := []

/-- All the calls. -/
def WasmDeployment.calls (d : WasmDeployment) : List ImageCall :=
  match deployFiles d.req d.image d.deploying with
  | (calls, none) => calls
  | (calls, some fn) => calls ++ d.replicas.flatMap (·.calls fn)

/-- The path that is opened, created, written or removed. -/
def ImageCall.path : ImageCall → Str
  | open_ path => path
  | readDir path => path
  | untar call => call.path
  | mkdir path => path
  | reflink _ dst => dst
  | removeAll path => path

/-- **All the paths lie under the root of the images.** -/
def WasmDeployment.Contained (d : WasmDeployment) : Prop :=
  ∀ call ∈ d.calls, Path.Under wasmImagesRoot call.path

/-- The replica has its directory made or removed. -/
def ReplicaEvent.touches : ReplicaEvent → Bool
  | setup _ _ _ => true
  | delete _ _ _ findProcess => findProcess.isNone

/-- The image of the hybrid function from which the replica is removed. -/
def ReplicaEvent.hybrid : ReplicaEvent → Option Str
  | setup _ _ _ => none
  | delete _ _ hybrid _ => hybrid

/-- **The strings of the request and of the tarball stay below the root**: the image with its
suffix, the names of the entries that the unpacking gets to and creates, and, when the function is
deployed, its name and the names of its replicas. A replica that is removed from the image of a
hybrid function is under the root there. -/
structure WasmDeployment.StaysBelow (d : WasmDeployment) : Prop where
  image : Path.StaysBelow wasmImagesRoot (d.image ++ ".tgz".toList)
  entries : ∀ archive, d.deploying.opened = .ok archive → ∀ e ∈ archive.reached,
    e.creates = true → Path.StaysBelow wasmImagesRoot e.header.name
  name : ∀ archive, d.deploying.opened = .ok archive → archive.unpacks = true →
    Path.StaysBelow wasmImagesRoot d.req.service
  replicas : ∀ archive, d.deploying.opened = .ok archive → archive.unpacks = true →
    ∀ ev ∈ d.replicas, ev.touches = true → ev.hybrid = none → Path.StaysBelow wasmImagesRoot
      (d.req.service ++ "/replicas/".toList ++ ev.replicaName)
  hybrids : ∀ archive, d.deploying.opened = .ok archive → archive.unpacks = true →
    ∀ ev ∈ d.replicas, ev.touches = true → ∀ image, ev.hybrid = some image →
      Path.Under wasmImagesRoot (replicaPath image ev.replicaName)

/-- The root of the images is an absolute path. -/
lemma rooted_imagesRoot : Path.rooted wasmImagesRoot = true := by decide

/-- The root of the images is three directories deep. -/
lemma steps_imagesRoot :
    (Path.steps wasmImagesRoot).down = ["images".toList, "faasedge".toList, "mnt".toList] := by
  decide

/-- The root of the images is not that of all files. -/
lemma steps_imagesRoot_ne_nil : (Path.steps wasmImagesRoot).down ≠ [] := by
  rw [steps_imagesRoot]
  exact List.cons_ne_nil _ _

/-- What is appended to the root of the images. -/
lemma under_imagesRoot_iff (rel : Str) :
    Path.Under wasmImagesRoot (wasmImagesRoot ++ '/' :: rel) ↔
      Path.StaysBelow wasmImagesRoot rel :=
  Path.under_append_iff rooted_imagesRoot steps_imagesRoot_ne_nil rel

/-- A tarball is under the root of the images when the name of its image stays below it. -/
lemma under_tarball_iff (image : Str) :
    Path.Under wasmImagesRoot (tarball image) ↔
      Path.StaysBelow wasmImagesRoot (image ++ ".tgz".toList) := by
  rw [← under_imagesRoot_iff, tarball]
  simp

/-- The directory `rootfs` in the image of a function is under the root when the name of the
function stays below it. -/
lemma under_rootfs_iff (name : Str) :
    Path.Under wasmImagesRoot (wasmImage name ++ "/rootfs".toList) ↔
      Path.StaysBelow wasmImagesRoot name := by
  have hname : Path.ProperName "rootfs".toList := ⟨by decide, by decide, by decide, by decide⟩
  have hnot : "rootfs".toList ∉ (Path.steps wasmImagesRoot).down := by
    rw [steps_imagesRoot]
    decide
  have happ : wasmImage name ++ "/rootfs".toList =
      wasmImagesRoot ++ '/' :: (name ++ '/' :: "rootfs".toList) := by simp [wasmImage]
  rw [happ, under_imagesRoot_iff, Path.staysBelow_append_name_iff hname hnot]

/-- The directory of a replica is when the name of its function and its own do. -/
lemma under_replicaPath_iff (name replicaName : Str) :
    Path.Under wasmImagesRoot (replicaPath (wasmImage name) replicaName) ↔
      Path.StaysBelow wasmImagesRoot (name ++ "/replicas/".toList ++ replicaName) := by
  rw [← under_imagesRoot_iff, replicaPath, wasmImage]
  simp

/-- What is linked into the directory of a replica is under the root with it.

**Proof sketch.** Induct on the files. Each is a plain name below the directory, and the loop goes
on unless the link fails. -/
lemma under_reflinkFiles (image_path : Str) {rootfs_path : Str}
    (h : Path.Under wasmImagesRoot rootfs_path) (reflink : Str → Option Str) :
    ∀ files : List Str, (∀ file ∈ files, Path.ProperName file) →
      ∀ call ∈ (reflinkFiles image_path rootfs_path reflink files).1,
        Path.Under wasmImagesRoot call.path
  | [], _ => by simp [reflinkFiles]
  | file :: files, hproper => by
    have hfile : Path.Under wasmImagesRoot (rootfs_path ++ "/".toList ++ file) := by
      have := h.append_name rooted_imagesRoot steps_imagesRoot_ne_nil
        (hproper file List.mem_cons_self)
      simpa using this
    have hrest := under_reflinkFiles image_path h reflink files fun f hf =>
      hproper f (List.mem_cons_of_mem _ hf)
    rw [reflinkFiles]
    cases reflink file with
    | some err => simpa [ImageCall.path] using hfile
    | none =>
      simp only [List.forall_mem_cons]
      exact ⟨hfile, hrest⟩

/-- The directory of a new replica and what is linked into it are under the root together.

**Proof sketch.** The directory is among the calls, and the proper names of the image lie below it
when it is under the root. -/
lemma setupWasmStorage_contained_iff {image_path : Str} {imageFiles : List Str}
    (hfiles : ∀ file ∈ imageFiles, Path.ProperName file) (replicaName : Str) (a : StorageAnswers) :
    (∀ call ∈ (setupWasmStorage image_path imageFiles replicaName a).1,
      Path.Under wasmImagesRoot call.path) ↔
      Path.Under wasmImagesRoot (replicaPath image_path replicaName) := by
  unfold setupWasmStorage
  dsimp only
  generalize replicaPath image_path replicaName = rootfs_path
  have hremoved : Path.Under wasmImagesRoot rootfs_path →
      ∀ call ∈ (if a.found = true then [ImageCall.removeAll rootfs_path] else []),
        Path.Under wasmImagesRoot call.path := by
    intro h
    split
    · exact List.forall_mem_singleton.mpr h
    · simp
  cases a.mkdir with
  | some err =>
    rw [List.forall_mem_append, List.forall_mem_singleton]
    exact ⟨fun h => h.2, fun h => ⟨hremoved h, h⟩⟩
  | none =>
    rw [List.forall_mem_append, List.forall_mem_cons]
    exact ⟨fun h => h.2.1, fun h => ⟨hremoved h, h, under_reflinkFiles _ h _ _ hfiles⟩⟩

/-- **The calls for a replica** are under the root exactly when its directory is. -/
lemma ReplicaEvent.contained_iff {fn : Function}
    (hfiles : ∀ file ∈ fn.imageFiles, Path.ProperName file) (ev : ReplicaEvent) :
    (∀ call ∈ ev.calls fn, Path.Under wasmImagesRoot call.path) ↔
      (ev.touches = true →
        Path.Under wasmImagesRoot (replicaPath (ev.image fn) ev.replicaName)) := by
  cases ev with
  | setup fname uuid a =>
    rw [calls, setupWasmStorage_contained_iff hfiles]
    exact ⟨fun h _ => h, fun h => h rfl⟩
  | delete fname uuid hybrid findProcess =>
    cases findProcess with
    | some err => simp [calls, removeWasmStorage, touches]
    | none =>
      rw [calls, removeWasmStorage, List.forall_mem_singleton]
      exact ⟨fun h _ => h, fun h => h rfl⟩

/-- The image of a replica is that of its function but for those that a hybrid one had made. -/
lemma ReplicaEvent.image_eq (fn : Function) (ev : ReplicaEvent) :
    ev.image fn = ev.hybrid.getD fn.image := by
  cases ev <;> rfl

/-- What the deployment of a WASM function does on the disk. -/
lemma WasmDeployment.deployFiles_eq (d : WasmDeployment) :
    deployFiles d.req d.image d.deploying =
      match unpack d.image d.deploying.opened with
      | (calls, some _) => (calls, none)
      | (calls, none) =>
        (calls ++ [.readDir (wasmImage d.req.service ++ "/rootfs".toList)],
          deploy d.req { imageFiles := d.deploying.rootfs.map (·.val) }) := by
  rw [deployFiles, d.labels_eq]
  dsimp only
  rw [if_pos d.isWasm]

/-- **The calls of the unpacking** are under the root exactly when the image and the entries stay
below it. -/
lemma unpack_contained_iff (image : Str) (opened : Except Str Archive) :
    (∀ call ∈ (unpack image opened).1, Path.Under wasmImagesRoot call.path) ↔
      Path.StaysBelow wasmImagesRoot (image ++ ".tgz".toList) ∧
        ∀ archive, opened = .ok archive → ∀ e ∈ archive.reached, e.creates = true →
          Path.StaysBelow wasmImagesRoot e.header.name := by
  have hopen : Path.Under wasmImagesRoot (ImageCall.open_ (tarball image)).path ↔
      Path.StaysBelow wasmImagesRoot (image ++ ".tgz".toList) := under_tarball_iff image
  cases opened with
  | error err => simp [unpack, hopen]
  | ok archive =>
    rw [unpack, List.forall_mem_cons, hopen, List.forall_mem_map]
    simp only [Except.ok.injEq, forall_eq']
    refine and_congr_right fun _ => (forall_mem_untar (Path.Under wasmImagesRoot)
      wasmImagesRoot archive).trans (forall₂_congr fun e _ => forall_congr' fun _ => ?_)
    exact Path.under_join_iff rooted_imagesRoot steps_imagesRoot_ne_nil e.header.name

/-- The unpacking has no error when the tarball is opened and unpacked to its end. -/
lemma unpack_eq_none_iff (image : Str) (opened : Except Str Archive) :
    (unpack image opened).2 = none ↔ ∃ archive, opened = .ok archive ∧ archive.unpacks = true := by
  cases opened with
  | error err => simp [unpack]
  | ok archive =>
    rw [unpack, ← Option.isNone_iff_eq_none, ← Option.not_isSome, isSome_untar]
    simp

/-- **The requests whose paths stay under the root**: their strings stay below it.

**Proof sketch.** Each path is the root with a string behind it, joined or appended, and such a
path lies under the root exactly when the string stays below it (`Path.under_append_iff`). The
entries of the tarball count as far as the unpacking gets, and the name of the function when it
has been unpacked to its end. -/
theorem wasmContained_iff (d : WasmDeployment) : d.Contained ↔ d.StaysBelow := by
  have hunpack := unpack_contained_iff d.image d.deploying.opened
  have hnone := unpack_eq_none_iff d.image d.deploying.opened
  rw [WasmDeployment.Contained, WasmDeployment.calls, d.deployFiles_eq]
  rcases h : unpack d.image d.deploying.opened with ⟨calls, err⟩
  rw [h] at hunpack hnone
  cases err with
  | some err =>
    -- the function is not deployed
    have hfails : ∀ archive, d.deploying.opened = .ok archive → archive.unpacks ≠ true :=
      fun archive ho hu => absurd (hnone.mpr ⟨archive, ho, hu⟩) (by simp)
    refine hunpack.trans ⟨fun ⟨himage, hentries⟩ => ?_, fun h => ⟨h.image, h.entries⟩⟩
    exact ⟨himage, hentries, fun archive ho hu => absurd hu (hfails archive ho),
      fun archive ho hu => absurd hu (hfails archive ho),
      fun archive ho hu => absurd hu (hfails archive ho)⟩
  | none =>
    obtain ⟨archive, ho, hu⟩ := hnone.mp rfl
    have hdir : Path.Under wasmImagesRoot
        (ImageCall.readDir (wasmImage d.req.service ++ "/rootfs".toList)).path ↔
        Path.StaysBelow wasmImagesRoot d.req.service := under_rootfs_iff d.req.service
    have hfiles : ∀ file ∈ d.deploying.rootfs.map (·.val), Path.ProperName file := by
      rw [List.forall_mem_map]
      exact fun file _ => file.property
    rw [deploy_wasm _ d.labels_eq d.isWasm]
    simp only [Bool.false_eq_true, if_false]
    rw [List.forall_mem_append, List.forall_mem_append, List.forall_mem_singleton, hunpack, hdir,
      List.forall_mem_flatMap]
    constructor
    · rintro ⟨⟨⟨himage, hentries⟩, hname⟩, hreplicas⟩
      refine ⟨himage, hentries, fun _ _ _ => hname, fun _ _ _ ev hev htouches hown => ?_,
        fun _ _ _ ev hev htouches image hhybrid => ?_⟩
      · have hunder := (ev.contained_iff hfiles).mp (hreplicas ev hev) htouches
        rw [ev.image_eq, hown] at hunder
        exact (under_replicaPath_iff _ _).mp hunder
      · have hunder := (ev.contained_iff hfiles).mp (hreplicas ev hev) htouches
        rw [ev.image_eq, hhybrid] at hunder
        exact hunder
    · intro h
      refine ⟨⟨⟨h.image, h.entries⟩, h.name archive ho hu⟩, fun ev hev => ?_⟩
      refine (ev.contained_iff hfiles).mpr fun htouches => ?_
      rw [ev.image_eq]
      cases hhybrid : ev.hybrid with
      | none =>
        exact (under_replicaPath_iff _ _).mpr (h.replicas archive ho hu ev hev htouches hhybrid)
      | some image => exact h.hybrids archive ho hu ev hev htouches image hhybrid

/-- A request for a WASM function `f`, whose tarball has an entry for a file outside. -/
def slip : WasmDeployment :=
  { req :=
      { service := "f".toList
        labels := some ((∅ : GoMap Str).insert ctrTypeLabel wasm) }
    image := "f".toList
    labels := (∅ : GoMap Str).insert ctrTypeLabel wasm
    labels_eq := rfl
    isWasm := rfl
    deploying :=
      { opened := .ok { entries := [{ header :=
          { name := "../../../etc/cron.d/f".toList, typeflag := .typeReg } }] } } }

/-- The entry is written to `/etc/cron.d/f`. -/
theorem not_wasmContained_slip :
    ImageCall.untar (.openFile "/etc/cron.d/f".toList) ∈ slip.calls ∧
      ¬ ∀ d : WasmDeployment, d.Contained := by
  refine ⟨by decide +kernel, fun h => ?_⟩
  have hslip : Path.Under wasmImagesRoot
      (Path.join [wasmImagesRoot, "../../../etc/cron.d/f".toList]) :=
    h slip (.untar (.openFile (Path.join [wasmImagesRoot, "../../../etc/cron.d/f".toList])))
      (by decide +kernel)
  have hbelow := (Path.under_join_iff rooted_imagesRoot steps_imagesRoot_ne_nil _).mp hslip
  exact absurd hbelow (by decide +kernel)

end Fecore
