import Mathlib.Tactic.Common
import Fecore.Handlers.WasmImages

set_option relaxedAutoImplicit false
set_option autoImplicit false

/-!
# Rejected deploy requests

A deploy request runs to its end or to its first error: the handler checks it, `deploy` unpacks the
image of a WASM function, and `AddDeployedFunction` inserts the function into the storage before it
writes the maps (`pkg/provider/handlers/function_store.go`). A name that is taken is only found out
by the storage, when the image has been unpacked.

## Main definitions

* `Fecore.Host`, `Fecore.UntarCall.apply` — the provider and the files under it, and what unpacking
  makes of the files.
* `Fecore.addDeployedFunction`, `Fecore.deployRequest` — a deploy request from its arrival to its
  response.
* `Fecore.Host.KeepsDeployed` — the maps, the tables and the image files of the deployed functions
  are as before.
* `Fecore.DeployRequest.PutsBack` — what is unpacked over the files is there already.

## Main results

* `Fecore.addDeployedFunction_eq` — what the call does is what the sections of the provider do.
* `Fecore.deployRequest_rejected` — what a rejected request changes.
* `Fecore.rejected_keepsDeployed_iff` — when a rejected request changes nothing that is deployed.
-/

namespace Fecore

/-! ### Files -/

/-- The contents of the regular files, under their clean paths. -/
abbrev Files := GoMap (List UInt8)

/-- A file after data has been written to it from its beginning: it is not truncated. -/
def overlay (old : Option (List UInt8)) (data : List UInt8) : Option (List UInt8) :=
  some (data ++ (old.getD []).drop data.length)

/-- The byte at a position of the last of some data that reach it. -/
def lastByte (written : List (List UInt8)) (i : ℕ) : Option UInt8 :=
  written.reverse.findSome? (·[i]?)

/-- A byte of a file after data has been written to it. -/
lemma overlay_getElem? (old : Option (List UInt8)) (data : List UInt8) (i : ℕ) :
    ((overlay old data).getD [])[i]? = data[i]?.or (old.getD [])[i]? := by
  rw [overlay, Option.getD_some]
  rcases Nat.lt_or_ge i data.length with hi | hi
  · rw [List.getElem?_append_left hi, List.getElem?_eq_getElem hi, Option.some_or]
  · rw [List.getElem?_append_right hi, List.getElem?_drop, List.getElem?_eq_none hi,
      Option.none_or, Nat.add_sub_cancel' hi]

/-- **A byte of a file after all the data** is that of the last data that reach it. -/
lemma foldl_overlay_getElem? (written : List (List UInt8)) (i : ℕ) :
    ∀ old, ((written.foldl overlay old).getD [])[i]? =
      (lastByte written i).or (old.getD [])[i]? := by
  induction written with
  | nil => simp [lastByte]
  | cons data written ih =>
    intro old
    rw [List.foldl_cons, ih, overlay_getElem?, lastByte, lastByte, List.reverse_cons,
      List.findSome?_append, Option.or_assoc]
    simp

/-- A file that something has been written to is there. -/
lemma isSome_foldl_overlay {written : List (List UInt8)} (h : written ≠ []) :
    ∀ old, (written.foldl overlay old).isSome = true := by
  induction written with
  | nil => exact absurd rfl h
  | cons data written ih =>
    intro old
    cases written with
    | nil => rfl
    | cons data' written => exact ih (List.cons_ne_nil _ _) _

/-- **When data leave a file as it is**: nothing is written, or the file is there and has the bytes
that are written last.

**Proof sketch.** Byte by byte: the file has the last byte that is written at a place, and its own
one where nothing is written (`foldl_overlay_getElem?`). Anything that is written makes the file
exist. -/
theorem foldl_overlay_eq_iff (written : List (List UInt8)) (old : Option (List UInt8)) :
    written.foldl overlay old = old ↔
      (written ≠ [] → ∃ contents, old = some contents ∧
        ∀ i b, lastByte written i = some b → contents[i]? = some b) := by
  constructor
  · intro h hne
    obtain ⟨contents, hc⟩ := Option.isSome_iff_exists.mp (isSome_foldl_overlay hne old)
    obtain rfl : old = some contents := h.symm.trans hc
    refine ⟨contents, rfl, fun i b hb => ?_⟩
    have hi := foldl_overlay_getElem? written i (some contents)
    rw [h, hb, Option.getD_some, Option.some_or] at hi
    exact hi
  · intro h
    by_cases hne : written = []
    · rw [hne]
      rfl
    · obtain ⟨contents, rfl, hbytes⟩ := h hne
      obtain ⟨contents', hc⟩ := Option.isSome_iff_exists.mp
        (isSome_foldl_overlay hne (some contents))
      rw [hc, Option.some.injEq]
      refine List.ext_getElem? fun i => ?_
      have hi := foldl_overlay_getElem? written i (some contents)
      rw [hc, Option.getD_some, Option.getD_some] at hi
      rw [hi]
      cases hb : lastByte written i with
      | none => rw [Option.none_or]
      | some b => rw [Option.some_or, hbytes i b hb]

/-- What a call of `untar` makes of the files. -/
def UntarCall.apply (files : Files) : UntarCall → Files
  | mkdirAll _ => files
  | openFile _ => files
  | write path data => files.insert path (data ++ ((files.lookup path).getD []).drop data.length)

/-- The calls of `untar` among those of `deploy`; the others only read. -/
def ImageCall.untar? : ImageCall → Option UntarCall
  | untar call => some call
  | _ => none

/-- The data that the calls write to the file. -/
def writesTo (path : Str) (calls : List UntarCall) : List (List UInt8) :=
  calls.filterMap fun call =>
    match call with
    | .write p data => if p = path then some data else none
    | _ => none

/-- **A file after the calls** is what the data written to it make of it, one after the other.

**Proof sketch.** Induct on the calls. Only a write to this path changes the file. -/
lemma lookup_foldl_apply (path : Str) (calls : List UntarCall) :
    ∀ files : Files, (calls.foldl UntarCall.apply files).lookup path =
      (writesTo path calls).foldl overlay (files.lookup path) := by
  induction calls with
  | nil => exact fun _ => rfl
  | cons call calls ih =>
    intro files
    rw [List.foldl_cons, ih]
    cases call with
    | mkdirAll p => rfl
    | openFile p => rfl
    | write p data =>
      by_cases hp : p = path
      · subst hp
        have hwrites : writesTo p (.write p data :: calls) = data :: writesTo p calls := by
          simp [writesTo]
        rw [hwrites, List.foldl_cons, UntarCall.apply, AList.lookup_insert]
        rfl
      · have hwrites : writesTo path (.write p data :: calls) = writesTo path calls := by
          simp [writesTo, hp]
        rw [hwrites, UntarCall.apply, AList.lookup_insert_ne (Ne.symm hp)]

/-! ### A deploy request -/

/-- What the storage meets: the errors of the insertions, apart from a name that is taken. -/
structure StorageErrors where
  insertFunction : Bool := false
  insertContainer : StorageContainer → Bool := fun _ => false

/-- The insertions of the containers in `AddDeployedFunction`: true is an error. -/
def insertContainerRows (errs : StorageErrors) : World → List StorageContainer → World × Bool
  | w, [] => (w, false)
  | w, c :: cs =>
    if errs.insertContainer c ∨ c.name ∈ w.containerTable.map (·.name) then (w, true)
    else insertContainerRows errs { w with containerTable := c :: w.containerTable } cs

/-- `AddDeployedFunction`: true is an error. -/
def addDeployedFunction (errs : StorageErrors) (w : World) (fn : Function) : World × Bool :=
  if errs.insertFunction ∨ fn.name ∈ w.functionTable then (w, true)
  else
    match insertContainerRows errs { w with functionTable := fn.name :: w.functionTable }
        (World.getContainers fn) with
    | (w, true) => (w, true)
    | (w, false) => ((w.putFunction fn).putStats fn.name, false)

/-- The provider, and the files under it. -/
structure Host where
  world : World
  files : Files := ∅

/-- A deploy request with all that it meets. -/
structure DeployRequest where
  call : DeployCall
  deploying : Deploying := {}
  storage : StorageErrors := {}

/-- The image that the request names. -/
def DeployRequest.image (r : DeployRequest) : Str :=
  match r.call.body with
  | some (.ok body) => body.image
  | _ => []

/-- The handler that `MakeDeployHandler` makes: the status of its error, if there is one. -/
def deployRequest (secretMountPath : Str) (h : Host) (r : DeployRequest) : Host × Option ℕ :=
  match deployHandler secretMountPath r.call with
  | .error response => (h, some response.statusCode)
  | .ok req =>
    let (calls, deployed) := deployFiles req r.image r.deploying
    let files := (calls.filterMap ImageCall.untar?).foldl UntarCall.apply h.files
    match deployed with
    | none => ({ h with files := files }, some 400)
    | some fn =>
      match addDeployedFunction r.storage h.world fn with
      | (w, true) => (⟨w, files⟩, some 400)
      | (w, false) => (⟨w, files⟩, none)

/-- **The insertions into the storage and the writes to the maps are the sections of the provider**,
when the storage has no errors of its own. -/
theorem addDeployedFunction_eq {w : World} {fn : Function} (hidle : fn.idleReplicas = {})
    (hactive : fn.activeReplicas = ∅) :
    addDeployedFunction {} w fn =
      match w.insertFunction fn with
      | none => (w, true)
      | some w' => ((w'.putFunction fn).putStats fn.name, false) := by
  simp only [addDeployedFunction, World.insertFunction, World.getContainers_eq_nil hidle hactive,
    insertContainerRows, World.insertContainers, Bool.false_eq_true, false_or]
  split <;> rfl

/-- **A new function has no containers**, so nothing can fail once its row is inserted. -/
lemma addDeployedFunction_failed {errs : StorageErrors} {w w' : World} {fn : Function}
    (hidle : fn.idleReplicas = {}) (hactive : fn.activeReplicas = ∅)
    (h : addDeployedFunction errs w fn = (w', true)) : w' = w := by
  unfold addDeployedFunction at h
  split at h
  · exact (congrArg Prod.fst h).symm
  · rw [World.getContainers_eq_nil hidle hactive] at h
    exact absurd (congrArg Prod.snd h) Bool.false_ne_true

/-- The calls of `untar` for the request. -/
def DeployRequest.untarCalls (secretMountPath : Str) (r : DeployRequest) : List UntarCall :=
  match deployHandler secretMountPath r.call with
  | .error _ => []
  | .ok req => (deployFiles req r.image r.deploying).1.filterMap ImageCall.untar?

/-- **What a rejected request changes**: the files that it has unpacked, and nothing else.

**Proof sketch.** A request that fails its checks unpacks nothing, and one that fails in `deploy`
inserts nothing. One that cannot be inserted leaves the store alone, since the function is new and
has no replicas (`addDeployedFunction_failed`). -/
theorem deployRequest_rejected {secretMountPath : Str} {h : Host} {r : DeployRequest} {status : ℕ}
    (hrej : (deployRequest secretMountPath h r).2 = some status) :
    (deployRequest secretMountPath h r).1 =
      ⟨h.world, (r.untarCalls secretMountPath).foldl UntarCall.apply h.files⟩ := by
  unfold deployRequest DeployRequest.untarCalls at *
  cases hcheck : deployHandler secretMountPath r.call with
  | error response => rfl
  | ok req =>
    have hdeploy := deployFiles_snd req r.image r.deploying
    rw [hcheck] at hrej
    rcases hfiles : deployFiles req r.image r.deploying with ⟨calls, deployed⟩
    rw [hfiles] at hdeploy
    simp only [hfiles] at hrej ⊢
    cases deployed with
    | none => rfl
    | some fn =>
      obtain ⟨-, hidle, hactive⟩ := deploy_empty hdeploy.symm
      rcases hadd : addDeployedFunction r.storage h.world fn with ⟨w, failed⟩
      simp only [hadd] at hrej ⊢
      cases failed with
      | true =>
        rw [addDeployedFunction_failed hidle hactive hadd]
      | false => cases hrej

/-! ### What is deployed -/

/-- The file belongs to the image of the function. -/
def Function.HasImageFile (f : Function) (path : Str) : Prop :=
  f.labels.lookup ctrTypeLabel = some wasm ∧ Path.Under f.image path

/-- **The maps, the tables and the image files of every deployed function** are as before. -/
structure Host.KeepsDeployed (h h' : Host) : Prop where
  deployedFunctions : h'.world.deployedFunctions = h.world.deployedFunctions
  objects : h'.world.heap = h.world.heap
  functionStats : h'.world.functionStats = h.world.functionStats
  functionTable : h'.world.functionTable = h.world.functionTable
  containerTable : h'.world.containerTable = h.world.containerTable
  imageFiles : ∀ name o f path, h.world.fn? name = some (o, f) → f.HasImageFile path →
    h'.files.lookup path = h.files.lookup path

/-- The entries that are unpacked for the request. -/
def DeployRequest.unpacked (secretMountPath : Str) (r : DeployRequest) : List Entry :=
  match deployHandler secretMountPath r.call, r.deploying.opened with
  | .ok req, .ok archive =>
    if (buildLabels req).any fun labels => labels.lookup ctrTypeLabel = some wasm then
      archive.reached
    else []
  | _, _ => []

/-- What is written to the file for the entry. -/
def Entry.dataFor (path : Str) (e : Entry) : Option (List UInt8) :=
  if e.header.typeflag = .typeReg ∧ e.openFile = none ∧ e.target wasmImagesRoot = path then
    some e.copied
  else none

/-- **What is unpacked is there already**: in the image of every deployed function, a file that
there are entries for exists, and at each position it has the byte of the last entry that reaches
it. -/
def DeployRequest.PutsBack (secretMountPath : Str) (h : Host) (r : DeployRequest) : Prop :=
  ∀ name o f path, h.world.fn? name = some (o, f) → f.HasImageFile path →
    let written := (r.unpacked secretMountPath).filterMap (·.dataFor path)
    written ≠ [] → ∃ contents, h.files.lookup path = some contents ∧
      ∀ i b, lastByte written i = some b → contents[i]? = some b

/-- What is written to the file for the entry when it is unpacked in `dst`. -/
def Entry.dataAt (dst path : Str) (e : Entry) : Option (List UInt8) :=
  if e.header.typeflag = .typeReg ∧ e.openFile = none ∧ e.target dst = path then some e.copied
  else none

/-- The data that are written to a file at an entry. -/
lemma writesTo_untar (dst path : Str) (e : Entry) :
    writesTo path (e.untar dst).1 = (e.dataAt dst path).toList := by
  obtain ⟨⟨name, flag, contents⟩, found, mkdirAll, openFile, copy⟩ := e
  cases flag with
  | typeDir => cases found <;> simp [Entry.untar, Entry.dataAt, writesTo]
  | typeReg =>
    cases openFile with
    | some err => simp [Entry.untar, Entry.dataAt, writesTo]
    | none =>
      by_cases hp : Entry.target dst
          ⟨⟨name, .typeReg, contents⟩, found, mkdirAll, none, copy⟩ = path <;>
        simp [Entry.untar, Entry.dataAt, writesTo, hp]
  | other => simp [Entry.untar, Entry.dataAt, writesTo]

/-- The data that the loop of `untar` writes to a file.

**Proof sketch.** Induct on the entries. Each one writes its own data (`writesTo_untar`), and the
loop ends behind the first one that fails. -/
lemma writesTo_untarEntries (dst path : Str) (last : Option Str) (es : List Entry) :
    writesTo path (untarEntries dst last es).1 =
      (reachedEntries es).filterMap (·.dataAt dst path) := by
  have happend : ∀ calls calls' : List UntarCall,
      writesTo path (calls ++ calls') = writesTo path calls ++ writesTo path calls' :=
    fun calls calls' => List.filterMap_append
  induction es with
  | nil => rfl
  | cons e es ih =>
    have hfails := e.isSome_untar dst
    have hentry := writesTo_untar dst path e
    rcases huntar : e.untar dst with ⟨calls, err⟩
    rw [huntar] at hfails hentry
    rw [List.filterMap_eq_flatMap_toList] at ih ⊢
    cases err with
    | some err =>
      have hfails : e.fails = true := hfails.symm
      simp only [untarEntries, huntar, reachedEntries, hfails, if_true, List.flatMap_singleton]
      exact hentry
    | none =>
      have hfails : e.fails = false := hfails.symm
      simp only [untarEntries, huntar, reachedEntries, hfails, Bool.false_eq_true, if_false,
        List.flatMap_cons, happend, hentry, ih]

/-- The calls of `untar` among those of `deploy`.

**Proof sketch.** Case split on the labels and on the archive; the other calls of `deploy` are none
of `untar`. -/
lemma filterMap_untar?_deployFiles (req : FunctionDeployment) (image : Str) (d : Deploying) :
    (deployFiles req image d).1.filterMap ImageCall.untar? =
      if (buildLabels req).any fun labels => labels.lookup ctrTypeLabel = some wasm then
        match d.opened with
        | .error _ => []
        | .ok archive => (untar wasmImagesRoot archive).1
      else [] := by
  have hmap : ∀ calls : List UntarCall,
      (calls.map ImageCall.untar).filterMap ImageCall.untar? = calls := by
    intro calls
    rw [List.filterMap_map]
    exact List.filterMap_some
  unfold deployFiles
  cases hlabels : buildLabels req with
  | none => rfl
  | some labels =>
    by_cases hwasm : labels.lookup ctrTypeLabel = some wasm
    · simp only [hwasm, if_true, Option.any_some, decide_true]
      cases hopened : d.opened with
      | error err => rfl
      | ok archive =>
        simp only [unpack]
        rcases huntar : untar wasmImagesRoot archive with ⟨calls, err⟩
        cases err with
        | some err => exact hmap calls
        | none =>
          have hcalls : (ImageCall.open_ (tarball image) :: calls.map ImageCall.untar).filterMap
              ImageCall.untar? = calls := hmap calls
          rw [List.filterMap_append, hcalls]
          exact List.append_nil calls
    · simp only [hwasm, if_false, Option.any_some, decide_false, Bool.false_eq_true]
      cases d.prepull <;> rfl

/-- **The data that a request writes to a file** are those of the entries that are unpacked.

**Proof sketch.** Case split as the handler does: a request that is refused unpacks nothing, nor
does one whose archive cannot be opened or is no gzip file. The other one writes the entries in
their order. -/
lemma writesTo_untarCalls (secretMountPath path : Str) (r : DeployRequest) :
    writesTo path (r.untarCalls secretMountPath) =
      (r.unpacked secretMountPath).filterMap (·.dataFor path) := by
  unfold DeployRequest.untarCalls DeployRequest.unpacked
  cases hcheck : deployHandler secretMountPath r.call with
  | error response => rfl
  | ok req =>
    dsimp only
    rw [filterMap_untar?_deployFiles]
    cases r.deploying.opened with
    | error err => split <;> rfl
    | ok archive =>
      dsimp only
      split
      · unfold untar Archive.reached
        cases archive.gzip with
        | some err => rfl
        | none => exact writesTo_untarEntries wasmImagesRoot path archive.last archive.entries
      · rfl

/-- **When a rejected request changes nothing that is deployed**: exactly when what it has unpacked
over the image files of the deployed functions is there already.

**Proof sketch.** The maps and the tables are written when nothing can fail any more: a new function
has no containers, so its row is the last insertion. The image has been unpacked by then, and a file
after the unpacking is what the entries for it make of it (`lookup_foldl_apply`): it has the bytes
that are written last (`foldl_overlay_eq_iff`). -/
theorem rejected_keepsDeployed_iff {secretMountPath : Str} {h : Host} {r : DeployRequest}
    {status : ℕ} (hrej : (deployRequest secretMountPath h r).2 = some status) :
    h.KeepsDeployed (deployRequest secretMountPath h r).1 ↔ r.PutsBack secretMountPath h := by
  have hfile : ∀ path, ((r.untarCalls secretMountPath).foldl UntarCall.apply h.files).lookup path =
      ((r.unpacked secretMountPath).filterMap (·.dataFor path)).foldl overlay
        (h.files.lookup path) := by
    intro path
    rw [lookup_foldl_apply, writesTo_untarCalls]
  rw [deployRequest_rejected hrej]
  constructor
  · intro hkeeps name o f path hf himage
    rw [← foldl_overlay_eq_iff, ← hfile]
    exact hkeeps.imageFiles name o f path hf himage
  · intro hback
    refine ⟨rfl, rfl, rfl, rfl, rfl, fun name o f path hf himage => ?_⟩
    rw [hfile, foldl_overlay_eq_iff]
    exact hback name o f path hf himage

/-- The store after a WASM function `f` has been deployed on the small node. -/
def wasmF : Option State := smallRun (deployF ((∅ : GoMap Str).insert ctrTypeLabel wasm))

/-- The function is deployed by then. -/
lemma isSome_wasmF : wasmF.isSome = true := by decide +kernel

/-- The module of the function `f`. -/
def moduleF : Str := "/mnt/faasedge/images/f/function.wasm".toList

/-- The function `f` and the file with its module. -/
def hostF : Host :=
  { world := (wasmF.get isSome_wasmF).shared
    files := (∅ : Files).insert moduleF [1] }

/-- An entry with the module of `f`. -/
def moduleEntry (contents : List UInt8) : Entry :=
  { header :=
      { name := "f/function.wasm".toList, typeflag := .typeReg, contents := contents } }

/-- A request that deploys `f` again, with the module in its tarball. -/
def redeployF (contents : List UInt8) : DeployRequest :=
  { call :=
      { body := some (.ok
          { service := "f".toList
            image := "f".toList
            labels := some ((∅ : GoMap Str).insert ctrTypeLabel wasm) }) }
    deploying := { opened := .ok { entries := [moduleEntry contents] } } }

/-- Its host is in a state of a run. -/
lemma reachable_hostF : ∃ c, Reachable c ∧ hostF.world = c.shared :=
  ⟨_, reachable_of_smallRun (Option.some_get isSome_wasmF).symm, rfl⟩

/-- The name is taken, and the tarball has the module that is there. -/
theorem rejected_keepsDeployed_redeployF :
    (deployRequest secretsOfFecore hostF (redeployF [1])).2 = some 400 ∧
      hostF.KeepsDeployed (deployRequest secretsOfFecore hostF (redeployF [1])).1 := by
  have hrej : (deployRequest secretsOfFecore hostF (redeployF [1])).2 = some 400 := by
    decide +kernel
  refine ⟨hrej, (rejected_keepsDeployed_iff hrej).mpr fun name o f path _ _ => ?_⟩
  by_cases hpath : path = moduleF
  · rw [hpath, ← foldl_overlay_eq_iff]
    decide +kernel
  · have htarget : (moduleEntry [1]).target wasmImagesRoot = moduleF := by decide +kernel
    have hunpacked : (redeployF [1]).unpacked secretsOfFecore = [moduleEntry [1]] := rfl
    have hnone : (moduleEntry [1]).dataFor path = none :=
      if_neg fun h => hpath (h.2.2.symm.trans htarget)
    simp [hunpacked, hnone]

/-- The name is taken, and the module of the running function has been overwritten. -/
theorem not_rejected_keepsDeployed_redeployF :
    (∃ c, Reachable c ∧ hostF.world = c.shared) ∧
      (deployRequest secretsOfFecore hostF (redeployF [2])).2 = some 400 ∧
      ¬ hostF.KeepsDeployed (deployRequest secretsOfFecore hostF (redeployF [2])).1 := by
  refine ⟨reachable_hostF, by decide +kernel, fun h => ?_⟩
  obtain ⟨⟨o, f⟩, hf, himage⟩ := (Option.any_eq_true
    (fun of : Ref × Function => decide (of.2.labels.lookup ctrTypeLabel = some wasm ∧
      of.2.image = wasmImage "f".toList)) (hostF.world.fn? "f".toList)).mp (by decide +kernel)
  obtain ⟨hwasm, himage⟩ := of_decide_eq_true himage
  have hunder : Path.Under (wasmImage "f".toList) moduleF :=
    (Path.under_iff (by decide) (by decide) moduleF).mpr ⟨by decide, by decide⟩
  have hkept := h.imageFiles _ o f moduleF hf ⟨hwasm, himage ▸ hunder⟩
  exact absurd hkept (by decide +kernel)

end Fecore
