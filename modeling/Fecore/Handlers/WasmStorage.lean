import Fecore.Concurrency.Isolation
import Fecore.Data.Subtrees
import Fecore.Handlers.WasmImages

set_option relaxedAutoImplicit false
set_option autoImplicit false

/-!
# The storage of the WASM replicas

A replica of a WASM function gets a directory of its own, with copies of the files of the image
(`setupWasmStorage` in `pkg/provider/handlers/replicas.go`). Its process `runw` serves each request
with a virtual machine of its own, which sees that directory and nothing else
(`utilities/runw/runw_web.c`), and `DeleteWasmReplica` removes the directory again
(`pkg/provider/handlers/function_store.go`). Replicas of the same function and of others run at the
same time over the same files.

## Main definitions

* `Fecore.WasmEdge` — what is relied on of the virtual machine.
* `Fecore.WasmReplica`, `Fecore.WasmReplica.next` — a replica from its creation to its deletion.
* `Fecore.WasmReplica.Stored` — the directory is a copy of the image.
* `Fecore.WasmReplica.Sound` — what holds at each point of a replica's life.

## Main results

* `Fecore.isolated_wasmProgram` — no replica sees what another does.
* `Fecore.replicas_isolated` — each replica runs as if it were alone, first over a copy of the image
  and always with a new virtual machine.

## Design

The functions of a virtual machine name files below the directory that it has been given; names that
lead out of it are refused by WASI. A killed process does not take another step. An error of
`reflink.Auto` and of `os.RemoveAll` leaves the files as they are. The functions stay deployed:
nothing else changes the images. The replicas are those of WASM functions, not of hybrid ones.
-/

namespace Fecore

open Files Interleaving

/-! ### A replica -/

/-- A step of a function within a virtual machine: it writes or removes a file of its directory, or
ends. -/
inductive GuestStep (γ : Type)
  | file (rel : Str) (node : Option Node) (vm : γ)
  | done (ok : Bool)

/-- The virtual machine: a new one; one that has loaded the file of a function and is about to run
`_start`, if the file is one; and a step of the function, which sees its directory. -/
structure WasmEdge (γ : Type) where
  vmCreate : γ
  load : γ → Option Node → Option γ
  next : γ → (Str → Option Node) → GuestStep γ

/-- A string without the separator of paths. -/
abbrev Uuid := { uuid : Str // '/' ∉ uuid }

/-- Where a replica is: `setupWasmStorage`, the start of `runw`, its loop with the virtual machine,
or the deletion. -/
inductive WasmPhase (γ : Type)
  | stat
  | removing
  | mkdir
  | reflinking (left : List FileName)
  | stored
  | booting
  | idle (vm : γ)
  | running (vm : γ)
  | served (ok : Bool)
  | exited
  | killed
  | deleted
  | failed
deriving DecidableEq

/-- A replica of a function, with the calls of `setupWasmStorage` so far and whether the runs of the
function so far have ended with success. -/
structure WasmReplica (γ : Type) where
  fname : FileName
  uuid : Uuid
  imageFiles : List FileName
  phase : WasmPhase γ := .stat
  calls : List ImageCall := []
  results : List Bool := []

/-- What a replica meets: its call succeeds or fails, its process ends by itself, or
`DeleteWasmReplica` kills it. -/
inductive WasmEvent
  | ok
  | err
  | exit
  | kill
deriving DecidableEq

/-- The directory of a replica of a function. -/
def replicaDir (z : FileName × Uuid) : Str :=
  replicaPath (wasmImage z.1) (wasmName z.1 z.2)

namespace WasmReplica

variable {γ : Type}

/-- Whose replica it is. -/
def zone (r : WasmReplica γ) : FileName × Uuid := (r.fname, r.uuid)

/-- `rootfs_path` -/
def dir (r : WasmReplica γ) : Str := replicaDir r.zone

/-- A file in the image. -/
def src (r : WasmReplica γ) (file : Str) : Str :=
  wasmImage r.fname ++ "/rootfs/".toList ++ file

/-- `container_wasm_file` -/
def wasmFile (r : WasmReplica γ) : Str := wasmImage r.fname ++ "/function.wasm".toList

/-- A file of the replica. -/
def dst (r : WasmReplica γ) (file : Str) : Str := r.dir ++ "/".toList ++ file

/-- A call of `setupWasmStorage`. -/
def called (r : WasmReplica γ) (call : ImageCall) (phase : WasmPhase γ) : WasmReplica γ :=
  { r with phase := phase, calls := r.calls ++ [call] }

/-- The next step of a replica, whose call succeeds or fails. -/
def section_ (w : WasmEdge γ) (t : Tree) (r : WasmReplica γ) (ok : Bool) :
    Option (Tree × WasmReplica γ) :=
  match r.phase with
  -- `setupWasmStorage`
  | .stat =>
    if ok ∧ t.lookup r.dir = none then some (t, { r with phase := .mkdir })
    else some (t, { r with phase := .removing })
  | .removing =>
    some (if ok then t.removeAll r.dir else t, r.called (.removeAll r.dir) .mkdir)
  | .mkdir =>
    match if ok then t.mkdir r.dir else none with
    | some t => some (t, r.called (.mkdir r.dir) (.reflinking r.imageFiles))
    | none => some (t, r.called (.mkdir r.dir) .failed)
  | .reflinking [] => some (t, { r with phase := .stored })
  | .reflinking (file :: left) =>
    match if ok then t.copyFile (r.src file) (r.dst file) else none with
    | some t => some (t, r.called (.reflink (r.src file) (r.dst file)) (.reflinking left))
    | none => some (t, r.called (.reflink (r.src file) (r.dst file)) .failed)
  -- the rest of `createWasmReplica`
  | .stored => some (t, { r with phase := if ok then .booting else .failed })
  -- `runw`
  | .booting => some (t, { r with phase := if ok then .idle w.vmCreate else .exited })
  | .idle vm =>
    -- an error of `accept` or `getsockname` is passed over
    if ok then
      match w.load vm (t.lookup r.wasmFile) with
      | some vm => some (t, { r with phase := .running vm })
      | none => some (t, { r with phase := .served false })
    else some (t, r)
  | .running vm =>
    match w.next vm fun rel => t.lookup (r.dst rel) with
    | .file rel node vm => some (t.put (r.dst rel) node, { r with phase := .running vm })
    | .done succeeded => some (t, { r with phase := .served succeeded })
  | .served succeeded =>
    some (t, { r with
      phase := if ok then .idle w.vmCreate else .exited
      results := r.results ++ [succeeded] })
  | .exited => none
  -- the rest of `DeleteWasmReplica`
  | .killed => some (if ok then (t.removeAll r.dir, { r with phase := .deleted })
      else (t, { r with phase := .failed }))
  | .deleted => none
  | .failed => none

/-- The process ends, such as by a signal. -/
def exit (r : WasmReplica γ) : Option (WasmReplica γ) :=
  match r.phase with
  | .booting | .idle _ | .running _ | .served _ => some { r with phase := .exited }
  | _ => none

/-- `DeleteWasmReplica` kills the process. -/
def kill (r : WasmReplica γ) : Option (WasmReplica γ) :=
  match r.phase with
  | .booting | .idle _ | .running _ | .served _ | .exited => some { r with phase := .killed }
  | _ => none

/-- A step of a replica. -/
def next (w : WasmEdge γ) (t : Tree) (r : WasmReplica γ) : WasmEvent → Option (Tree × WasmReplica γ)
  | .ok => r.section_ w t true
  | .err => r.section_ w t false
  | .exit => r.exit.map fun r => (t, r)
  | .kill => r.kill.map fun r => (t, r)

end WasmReplica

/-- The replicas over the files. -/
def wasmProgram {γ : Type} (w : WasmEdge γ) : Program Tree (WasmReplica γ) WasmEvent where
  entry r :=
    match r.phase with
    | .stat => r.calls.isEmpty && r.results.isEmpty
    | _ => false
  next t r e := (r.next w t e).map fun s => (s.1, s.2, [])

/-! ### The directories -/

/-- The directory of an image is four directories deep. -/
lemma count_wasmImage (f : FileName) : (wasmImage f).count '/' = 4 := by
  have hroot : (wasmImagesRoot ++ "/".toList).count '/' = 4 := by decide
  rw [wasmImage, List.count_append, hroot, List.count_eq_zero.mpr f.2.noSlash]

/-- The name of a replica is one component. -/
lemma noSlash_wasmName (z : FileName × Uuid) : '/' ∉ wasmName z.1 z.2 := by
  have hinner : '/' ∉ "_".toList := by decide
  have hlast : '/' ∉ "_w".toList := by decide
  simp only [wasmName, List.mem_append, not_or]
  exact ⟨⟨⟨z.1.2.noSlash, hinner⟩, z.2.2⟩, hlast⟩

/-- All directories of replicas have the same depth. -/
lemma count_replicaDir (z : FileName × Uuid) : (replicaDir z).count '/' = 6 := by
  have hmiddle : "/replicas/".toList.count '/' = 2 := by decide
  rw [replicaDir, replicaPath, List.count_append, List.count_append, count_wasmImage, hmiddle,
    List.count_eq_zero.mpr (noSlash_wasmName z)]

/-- Different replicas have different directories. -/
lemma replicaDir_injective : Function.Injective replicaDir := by
  rintro ⟨f, u⟩ ⟨f', u'⟩ h
  simp only [replicaDir, replicaPath, wasmImage, List.append_assoc, List.append_cancel_left_eq] at h
  obtain ⟨hf, hrest⟩ := append_cons_inj f.2.noSlash f'.2.noSlash h
  obtain rfl : f = f' := Subtype.ext hf
  have hu : wasmName f u = wasmName f u' := List.append_cancel_left hrest
  simp only [wasmName, List.append_assoc, List.append_cancel_left_eq, List.append_cancel_right_eq]
    at hu
  rw [Subtype.ext hu]

/-- What lies in no directory of a replica. -/
def Common (p : Str) : Prop := ∀ z, ¬ Within (replicaDir z) p

/-- What is no deeper than the directories of the replicas, and is none. -/
lemma common_of_count_le {p : Str} (hcount : p.count '/' ≤ 6) (hne : ∀ z, p ≠ replicaDir z) :
    Common p := by
  intro z h
  rcases h.count_le with heq | hlt
  · exact hne z heq
  · rw [count_replicaDir] at hlt
    omega

/-- The directory of the replicas of a function. -/
def replicasDir (f : FileName) : Str := wasmImage f ++ '/' :: "replicas".toList

/-- The directory of the replicas is one deeper. -/
lemma count_replicasDir (f : FileName) : (replicasDir f).count '/' = 5 := by
  have hname : ('/' :: "replicas".toList).count '/' = 1 := by decide
  rw [replicasDir, List.count_append, count_wasmImage, hname]

/-- The directory of the replicas of a function has a clean path. -/
lemma clean_replicasDir (f : FileName) : Path.clean (replicasDir f) = replicasDir f ∧
    (Path.steps (replicasDir f)).down ≠ [] := by
  have hroot : Path.clean wasmImagesRoot = wasmImagesRoot := by decide +kernel
  have hreplicas : Path.ProperName "replicas".toList := by constructor <;> decide
  have heq : wasmImage f = wasmImagesRoot ++ '/' :: f := by
    rw [wasmImage, List.append_assoc]
    rfl
  have himage : Path.clean (wasmImage f) = wasmImage f := by
    rw [heq]
    exact clean_append hroot steps_imagesRoot_ne_nil f.2
  have hne : (Path.steps (wasmImage f)).down ≠ [] := by
    rw [heq, Path.steps_append_name _ f.2]
    exact List.cons_ne_nil _ _
  refine ⟨clean_append himage hne hreplicas, ?_⟩
  rw [replicasDir, Path.steps_append_name _ hreplicas]
  exact List.cons_ne_nil _ _

/-- The name of a replica can be the name of a directory. -/
lemma properName_wasmName (z : FileName × Uuid) : Path.ProperName (wasmName z.1 z.2) := by
  have hlength : 2 < (wasmName z.1 z.2).length := by
    have hlast : "_w".toList.length = 2 := rfl
    have hfirst : "_".toList.length = 1 := rfl
    simp only [wasmName, List.length_append, hlast, hfirst]
    omega
  refine ⟨?_, ?_, ?_, noSlash_wasmName z⟩
  · intro heq
    rw [heq] at hlength
    exact absurd hlength (by decide)
  · intro heq
    rw [heq] at hlength
    exact absurd hlength (by decide)
  · intro heq
    rw [heq] at hlength
    exact absurd hlength (by decide)

/-- A path of another depth is none of the directories. -/
lemma common_of_count {p : Str} (hcount : p.count '/' < 6) : Common p := by
  refine common_of_count_le hcount.le ?_
  rintro z rfl
  rw [count_replicaDir] at hcount
  omega

namespace WasmReplica

variable {γ : Type} (r : WasmReplica γ)

/-- The directory of a replica is right below that of the replicas of its function. -/
lemma dir_eq : r.dir = replicasDir r.fname ++ '/' :: wasmName r.zone.1 r.zone.2 := by
  have hmiddle : "/replicas/".toList = '/' :: "replicas".toList ++ ['/'] := by decide
  simp only [dir, replicaDir, zone, replicaPath, replicasDir, hmiddle, List.append_assoc,
    List.singleton_append]

/-- The directory of a replica is made in that of the replicas. -/
lemma parent_dir : parent r.dir = replicasDir r.fname := by
  rw [dir_eq, parent_append (clean_replicasDir r.fname).1 (properName_wasmName r.zone)]

/-- A file of the replica is made in its directory. -/
lemma parent_dst (file : FileName) : parent (r.dst file) = r.dir := by
  have hclean : Path.clean r.dir = r.dir := by
    rw [dir_eq]
    exact clean_append (clean_replicasDir r.fname).1 (clean_replicasDir r.fname).2
      (properName_wasmName r.zone)
  have hdst : r.dst file = r.dir ++ '/' :: file := by
    rw [dst, List.append_assoc]
    rfl
  rw [hdst, parent_append hclean file.2]

/-- The directory of the replicas lies in none of theirs. -/
lemma common_parent : Common (parent r.dir) := by
  rw [parent_dir]
  exact common_of_count (by rw [count_replicasDir]; decide)

/-- The module of the image lies in no directory of a replica. -/
lemma common_wasmFile : Common r.wasmFile := by
  have hname : "/function.wasm".toList.count '/' = 1 := by decide
  refine common_of_count ?_
  rw [wasmFile, List.count_append, count_wasmImage, hname]
  decide

/-- No file of the image lies in a directory of a replica. -/
lemma common_src (file : FileName) : Common (r.src file) := by
  have hmiddle : "/rootfs/".toList.count '/' = 2 := by decide
  refine common_of_count_le ?_ fun z heq => ?_
  · rw [src, List.count_append, List.count_append, count_wasmImage, hmiddle,
      List.count_eq_zero.mpr file.2.noSlash]
  · simp only [src, replicaDir, replicaPath, wasmImage, List.append_assoc,
      List.append_cancel_left_eq] at heq
    have hrest := congrArg (List.take 2) (append_cons_inj r.fname.2.noSlash z.1.2.noSlash heq).2
    exact absurd hrest (by change "ro".toList ≠ "re".toList; decide)

/-- The files of a replica lie in its directory. -/
lemma within_dst (file : Str) : Within r.dir (r.dst file) := by
  have h := within_append r.dir file
  rwa [dst, List.append_assoc]

/-! ### The sections -/

variable {r} {r' : WasmReplica γ} {w : WasmEdge γ} {t t' t₁ : Tree} {e : WasmEvent} {ok : Bool}

/-- A replica that is the same but for where it is. -/
structure SameReplica (r r' : WasmReplica γ) : Prop where
  zone : r'.zone = r.zone
  imageFiles : r'.imageFiles = r.imageFiles

/-- **What a section does to the files**: only those of the replica change.

**Proof sketch.** Case split on the phase. Whatever is made, copied or removed lies within the
directory of the replica (`within_dst`). -/
lemma section_frame (h : r.section_ w t ok = some (t', r')) :
    SameReplica r r' ∧ ∀ k, ¬ Within r.dir k → t'.lookup k = t.lookup k := by
  have hput : ∀ rel node k, ¬ Within r.dir k → (t.put (r.dst rel) node).lookup k = t.lookup k := by
    intro rel node k hk
    rw [Tree.lookup_put, if_neg]
    rintro rfl
    exact hk (r.within_dst rel)
  have hremove : ∀ k, ¬ Within r.dir k → (t.removeAll r.dir).lookup k = t.lookup k := by
    intro k hk
    rw [Tree.lookup_removeAll, if_neg hk]
  unfold section_ at h
  split at h
  · split at h
    · cases h
      exact ⟨⟨rfl, rfl⟩, fun _ _ => rfl⟩
    · cases h
      exact ⟨⟨rfl, rfl⟩, fun _ _ => rfl⟩
  · cases h
    refine ⟨⟨rfl, rfl⟩, ?_⟩
    cases ok with
    | true => exact hremove
    | false => exact fun _ _ => rfl
  · split at h
    · next hmade =>
      cases h
      refine ⟨⟨rfl, rfl⟩, ?_⟩
      cases ok with
      | true =>
        obtain ⟨-, rfl⟩ := Tree.eq_put_of_mkdir hmade
        intro k hk
        rw [Tree.lookup_put, if_neg]
        rintro rfl
        exact hk (within_self _)
      | false => cases hmade
    · cases h
      exact ⟨⟨rfl, rfl⟩, fun _ _ => rfl⟩
  · cases h
    exact ⟨⟨rfl, rfl⟩, fun _ _ => rfl⟩
  · split at h
    · next hmade =>
      cases h
      refine ⟨⟨rfl, rfl⟩, ?_⟩
      cases ok with
      | true =>
        obtain ⟨data, -, rfl⟩ := Tree.eq_put_of_copyFile hmade
        exact hput _ _
      | false => cases hmade
    · cases h
      exact ⟨⟨rfl, rfl⟩, fun _ _ => rfl⟩
  · cases h
    exact ⟨⟨rfl, rfl⟩, fun _ _ => rfl⟩
  · cases h
    exact ⟨⟨rfl, rfl⟩, fun _ _ => rfl⟩
  · split at h
    · split at h
      · cases h
        exact ⟨⟨rfl, rfl⟩, fun _ _ => rfl⟩
      · cases h
        exact ⟨⟨rfl, rfl⟩, fun _ _ => rfl⟩
    · cases h
      exact ⟨⟨rfl, rfl⟩, fun _ _ => rfl⟩
  · split at h
    · cases h
      exact ⟨⟨rfl, rfl⟩, hput _ _⟩
    · cases h
      exact ⟨⟨rfl, rfl⟩, fun _ _ => rfl⟩
  · cases h
    exact ⟨⟨rfl, rfl⟩, fun _ _ => rfl⟩
  · cases h
  · cases ok with
    | true =>
      cases h
      exact ⟨⟨rfl, rfl⟩, hremove⟩
    | false =>
      cases h
      exact ⟨⟨rfl, rfl⟩, fun _ _ => rfl⟩
  · cases h
  · cases h

/-- What a replica can see: its directory, and what lies in no directory of a replica. -/
def Seen (z : FileName × Uuid) : Set Str := { k | Within (replicaDir z) k ∨ Common k }

/-- **What a section depends on**: it does the same to trees that have the same where the replica
looks.

**Proof sketch.** Case split on the phase. What a section looks at is seen: the directory, what lies
within it and the parent. So both trees answer alike, and the same change is made to both. -/
lemma section_own (hagree : Tree.AgreeOn (Seen r.zone) t t₁)
    (h : r.section_ w t ok = some (t', r')) :
    ∃ t₁', r.section_ w t₁ ok = some (t₁', r') ∧ Tree.AgreeOn (Seen r.zone) t' t₁' := by
  have hdir : r.dir ∈ Seen r.zone := .inl (within_self _)
  have hdst : ∀ rel, r.dst rel ∈ Seen r.zone := fun rel => .inl (r.within_dst rel)
  cases hphase : r.phase with
  | stat =>
    simp only [section_, hphase, hagree _ hdir] at h ⊢
    split at h
    · next hok =>
      cases h
      exact ⟨t₁, if_pos hok, hagree⟩
    · next hok =>
      cases h
      exact ⟨t₁, if_neg hok, hagree⟩
  | removing =>
    simp only [section_, hphase] at h ⊢
    cases h
    refine ⟨_, rfl, ?_⟩
    cases ok with
    | true => exact hagree.removeAll r.dir
    | false => exact hagree
  | mkdir =>
    simp only [section_, hphase] at h ⊢
    cases ok with
    | true =>
      rcases hagree.mkdir hdir (.inr r.common_parent) with
        ⟨hnone, hnone₁⟩ | ⟨t₂, t₃, hmade, hmade₁, hagree'⟩
      · simp only [hnone, hnone₁, if_true] at h ⊢
        cases h
        exact ⟨t₁, rfl, hagree⟩
      · simp only [hmade, hmade₁, if_true] at h ⊢
        cases h
        exact ⟨t₃, rfl, hagree'⟩
    | false =>
      cases h
      exact ⟨t₁, rfl, hagree⟩
  | reflinking left =>
    cases left with
    | nil =>
      simp only [section_, hphase] at h ⊢
      cases h
      exact ⟨t₁, rfl, hagree⟩
    | cons file left =>
      simp only [section_, hphase] at h ⊢
      cases ok with
      | true =>
        have hparent : parent (r.dst file) ∈ Seen r.zone := by
          rw [parent_dst]
          exact hdir
        rcases hagree.copyFile (.inr (r.common_src file)) (hdst file) hparent with
          ⟨hnone, hnone₁⟩ | ⟨t₂, t₃, hmade, hmade₁, hagree'⟩
        · simp only [hnone, hnone₁, if_true] at h ⊢
          cases h
          exact ⟨t₁, rfl, hagree⟩
        · simp only [hmade, hmade₁, if_true] at h ⊢
          cases h
          exact ⟨t₃, rfl, hagree'⟩
      | false =>
        cases h
        exact ⟨t₁, rfl, hagree⟩
  | idle vm =>
    simp only [section_, hphase, hagree _ (.inr r.common_wasmFile)] at h ⊢
    cases ok with
    | true =>
      cases hload : w.load vm (t₁.lookup r.wasmFile) with
      | some vm' =>
        simp only [hload, if_true] at h ⊢
        cases h
        exact ⟨t₁, rfl, hagree⟩
      | none =>
        simp only [hload, if_true] at h ⊢
        cases h
        exact ⟨t₁, rfl, hagree⟩
    | false =>
      cases h
      exact ⟨t₁, rfl, hagree⟩
  | running vm =>
    have hview : (fun rel => t.lookup (r.dst rel)) = fun rel => t₁.lookup (r.dst rel) :=
      funext fun rel => hagree _ (hdst rel)
    simp only [section_, hphase, hview] at h ⊢
    cases hnext : w.next vm fun rel => t₁.lookup (r.dst rel) with
    | file rel node vm' =>
      simp only [hnext] at h ⊢
      cases h
      exact ⟨_, rfl, hagree.put _ node⟩
    | done succeeded =>
      simp only [hnext] at h ⊢
      cases h
      exact ⟨t₁, rfl, hagree⟩
  | killed =>
    simp only [section_, hphase] at h ⊢
    cases ok with
    | true =>
      cases h
      exact ⟨_, rfl, hagree.removeAll r.dir⟩
    | false =>
      cases h
      exact ⟨t₁, rfl, hagree⟩
  | stored | booting | served succeeded =>
    simp only [section_, hphase] at h ⊢
    cases h
    exact ⟨t₁, rfl, hagree⟩
  | exited | deleted | failed =>
    simp only [section_, hphase] at h
    cases h

/-- A process that ends. -/
lemma exit_eq (h : r.exit = some r') : r' = { r with phase := .exited } := by
  unfold exit at h
  split at h
  all_goals cases h
  all_goals rfl

/-- A process that is killed. -/
lemma kill_eq (h : r.kill = some r') : r' = { r with phase := .killed } := by
  unfold kill at h
  split at h
  all_goals cases h
  all_goals rfl

/-- **What a step does to the files**: only those of the replica change. -/
lemma next_frame (h : r.next w t e = some (t', r')) :
    SameReplica r r' ∧ ∀ k, ¬ Within r.dir k → t'.lookup k = t.lookup k := by
  cases e with
  | ok => exact section_frame h
  | err => exact section_frame h
  | exit =>
    obtain ⟨r₁, hexit, heq⟩ := Option.map_eq_some_iff.mp h
    cases heq
    obtain rfl := exit_eq hexit
    exact ⟨⟨rfl, rfl⟩, fun _ _ => rfl⟩
  | kill =>
    obtain ⟨r₁, hkill, heq⟩ := Option.map_eq_some_iff.mp h
    cases heq
    obtain rfl := kill_eq hkill
    exact ⟨⟨rfl, rfl⟩, fun _ _ => rfl⟩

/-- What a step depends on. -/
lemma next_own (hagree : Tree.AgreeOn (Seen r.zone) t t₁) (h : r.next w t e = some (t', r')) :
    ∃ t₁', r.next w t₁ e = some (t₁', r') ∧ Tree.AgreeOn (Seen r.zone) t' t₁' := by
  cases e with
  | ok => exact section_own hagree h
  | err => exact section_own hagree h
  | exit =>
    obtain ⟨r₁, hexit, heq⟩ := Option.map_eq_some_iff.mp h
    cases heq
    exact ⟨t₁, by rw [next, hexit]; rfl, hagree⟩
  | kill =>
    obtain ⟨r₁, hkill, heq⟩ := Option.map_eq_some_iff.mp h
    cases heq
    exact ⟨t₁, by rw [next, hkill]; rfl, hagree⟩

end WasmReplica

open WasmReplica

variable {γ : Type} {w : WasmEdge γ}

/-- What a replica can see of the files. -/
def view (z : FileName × Uuid) (t : Tree) : Set (Str × Node) :=
  { x | x.1 ∈ Seen z ∧ t.lookup x.1 = some x.2 }

/-- A replica sees the same of two trees when they agree on what it can see. -/
lemma view_eq_iff {z : FileName × Uuid} {t t' : Tree} :
    view z t = view z t' ↔ Tree.AgreeOn (Seen z) t t' := by
  constructor
  · intro h k hk
    refine Option.ext fun node => ?_
    have hmem : (k, node) ∈ view z t ↔ (k, node) ∈ view z t' := by rw [h]
    exact (and_iff_right hk).symm.trans (hmem.trans (and_iff_right hk))
  · intro h
    ext ⟨k, node⟩
    exact and_congr_right fun hk => by rw [h k hk]

/-- **The replicas are isolated.**

**Proof sketch.** A section of a replica depends on what the replica sees (`next_own`), and changes
nothing but its own directory (`next_frame`), which no other replica sees. -/
theorem isolated_wasmProgram (w : WasmEdge γ) : Isolated (wasmProgram w) zone view where
  own s s₁ r e s' r' new hview hn := by
    obtain ⟨⟨t', r''⟩, hnext, heq⟩ := Option.map_eq_some_iff.mp hn
    cases heq
    obtain ⟨t₁', hnext₁, hagree⟩ := next_own (view_eq_iff.mp hview) hnext
    refine ⟨(next_frame hnext).1.zone, rfl, t₁', ?_, view_eq_iff.mpr hagree⟩
    change (r.next w s₁ e).map _ = _
    rw [hnext₁]
    rfl
  others s r e s' r' new hn z hz := by
    obtain ⟨⟨t', r''⟩, hnext, heq⟩ := Option.map_eq_some_iff.mp hn
    cases heq
    refine view_eq_iff.mpr fun k hk => (next_frame hnext).2 k ?_
    rcases hk with hk | hk
    · exact disjoint_of_count_eq ((count_replicaDir z).trans (count_replicaDir r.zone).symm)
        (fun heq => hz (replicaDir_injective heq)) hk
    · exact hk r.zone

/-! ### From the creation to the deletion -/

/-- Nothing lies in a directory, which is not there itself. -/
def Absent (t : Tree) (dir : Str) : Prop := ∀ k, Within dir k → t.lookup k = none

/-- Nothing lies in the directory of a replica while it is not there. -/
def Rooted (t : Tree) : Prop :=
  ∀ z, t.lookup (replicaDir z) = none → Absent t (replicaDir z)

namespace WasmReplica

section Copies

variable (r : WasmReplica γ)

/-- The call for a file of the image. -/
def reflinked (file : FileName) : ImageCall := .reflink (r.src file) (r.dst file)

/-- The call for a directory that is there already. -/
def cleared (found : Bool) : List ImageCall := if found then [.removeAll r.dir] else []

/-- The calls of `setupWasmStorage` up to some of the files. -/
def setupCalls (found : Bool) (files : List FileName) : List ImageCall :=
  r.cleared found ++ .mkdir r.dir :: files.map r.reflinked

/-- **The directory is a copy of some files of the image**, and has nothing else. -/
structure Copied (t : Tree) (files : List FileName) : Prop where
  dir : t.lookup r.dir = some .dir
  copies : ∀ file ∈ files, ∃ data, t.lookup (r.src file) = some (.file data) ∧
    t.lookup (r.dst file) = some (.file data)
  nothingElse : ∀ k, Within r.dir k → k ≠ r.dir → (∀ file ∈ files, k ≠ r.dst file) →
    t.lookup k = none

/-- **The storage is set up**: `setupWasmStorage` has come to its end without an error, and the
directory is a copy of the image. -/
structure Stored (t : Tree) : Prop where
  calls : ∃ a, setupWasmStorage (wasmImage r.fname) (r.imageFiles.map (·.val))
    (wasmName r.fname r.uuid) a = (r.calls, none)
  copied : r.Copied t r.imageFiles

/-- **What holds at each point of a replica's life**: its storage is set up until the function runs
for the first time, each run begins with a new virtual machine, and nothing is left after its
deletion. -/
def Sound (w : WasmEdge γ) (t : Tree) (r : WasmReplica γ) : Prop :=
  match r.phase with
  | .stat | .removing => r.calls = [] ∧ (t.lookup r.dir = none → Absent t r.dir)
  | .mkdir => (∃ found, r.calls = r.cleared found) ∧ (t.lookup r.dir = none → Absent t r.dir)
  | .reflinking left => ∃ found done, r.imageFiles = done ++ left ∧
      r.calls = r.setupCalls found done ∧ r.Copied t done
  | .stored | .booting => r.Stored t
  | .idle vm => vm = w.vmCreate ∧ (r.results = [] → r.Stored t)
  | .deleted => Absent t r.dir
  | .running _ | .served _ | .exited | .killed | .failed => True

end Copies

variable {r r' : WasmReplica γ} {t t' : Tree} {files : List FileName} {ok : Bool} {e : WasmEvent}

/-- The files of a replica have different paths. -/
lemma dst_injective (r : WasmReplica γ) {file file' : Str} (h : r.dst file = r.dst file') :
    file = file' := List.append_cancel_left h

/-- No file of a replica is its directory. -/
lemma dst_ne_dir (r : WasmReplica γ) (file : Str) : r.dst file ≠ r.dir := by
  intro h
  have hlength := congrArg List.length h
  have hslash : "/".toList.length = 1 := rfl
  simp only [dst, List.length_append, hslash] at hlength
  omega

/-- A directory that has just been made has nothing in it. -/
lemma copied_of_mkdir (habsent : Absent t r.dir) : r.Copied (t.put r.dir (some .dir)) [] where
  dir := by rw [Tree.lookup_put, if_pos rfl]
  copies _ hfile := absurd hfile List.not_mem_nil
  nothingElse k hk hne _ := by rw [Tree.lookup_put, if_neg hne, habsent k hk]

/-- One more file is copied.

**Proof sketch.** The copy of one file is at its own path (`dst_injective`), so the others are where
they were; no file of the image lies in the directory of the replica (`common_src`). -/
lemma Copied.snoc (h : r.Copied t files) {file : FileName} {data : List Char}
    (hsrc : t.lookup (r.src file) = some (.file data)) :
    r.Copied (t.put (r.dst file) (some (.file data))) (files ++ [file]) where
  dir := by rw [Tree.lookup_put, if_neg (r.dst_ne_dir file).symm, h.dir]
  copies f hf := by
    have hother : ∀ f : FileName, r.src f ≠ r.dst file := fun f heq =>
      r.common_src f r.zone (heq ▸ r.within_dst file)
    by_cases hfile : f = file
    · subst hfile
      refine ⟨data, ?_, ?_⟩
      · rw [Tree.lookup_put, if_neg (hother f), hsrc]
      · rw [Tree.lookup_put, if_pos rfl]
    · have hold : f ∈ files := by
        rcases List.mem_append.mp hf with hf | hf
        · exact hf
        · exact absurd (List.mem_singleton.mp hf) hfile
      obtain ⟨data', hsrc', hdst'⟩ := h.copies f hold
      refine ⟨data', ?_, ?_⟩
      · rw [Tree.lookup_put, if_neg (hother f), hsrc']
      · rw [Tree.lookup_put, if_neg fun heq => hfile (Subtype.ext (r.dst_injective heq)), hdst']
  nothingElse k hk hne hnot := by
    rw [Tree.lookup_put, if_neg (hnot file (by simp))]
    exact h.nothingElse k hk hne fun f hf => hnot f (List.mem_append_left _ hf)

/-- A copy depends on what the replica can see. -/
lemma Copied.of_agree (h : r.Copied t files) (hagree : Tree.AgreeOn (Seen r.zone) t t') :
    r.Copied t' files where
  dir := (hagree _ (.inl (within_self _))).symm.trans h.dir
  copies file hfile := by
    obtain ⟨data, hsrc, hdst⟩ := h.copies file hfile
    exact ⟨data, (hagree _ (.inr (r.common_src file))).symm.trans hsrc,
      (hagree _ (.inl (r.within_dst file))).symm.trans hdst⟩
  nothingElse k hk hne hnot := (hagree _ (.inl hk)).symm.trans (h.nothingElse k hk hne hnot)

/-- A copy belongs to a replica wherever that is. -/
lemma Copied.of_same (h : r.Copied t files) (hsame : SameReplica r r') : r'.Copied t files := by
  have hdir : r'.dir = r.dir := congrArg replicaDir hsame.zone
  have hsrc : ∀ file, r'.src file = r.src file := fun file => by
    rw [src, show r'.fname = r.fname from congrArg Prod.fst hsame.zone]
    rfl
  have hdst : ∀ file, r'.dst file = r.dst file := fun file => by
    rw [dst, hdir]
    rfl
  refine ⟨hdir ▸ h.dir, fun file hfile => ?_, fun k hk hne hnot => ?_⟩
  · rw [hsrc, hdst]
    exact h.copies file hfile
  · rw [hdir] at hk hne
    exact h.nothingElse k hk hne fun file hfile => hdst file ▸ hnot file hfile

/-- A storage that is set up belongs to a replica wherever that is. -/
lemma Stored.of_same (h : r.Stored t) (hsame : SameReplica r r') (hcalls : r'.calls = r.calls) :
    r'.Stored t := by
  refine ⟨?_, hsame.imageFiles ▸ h.copied.of_same hsame⟩
  rw [hsame.imageFiles, hcalls, show r'.fname = r.fname from congrArg Prod.fst hsame.zone,
    show r'.uuid = r.uuid from congrArg Prod.snd hsame.zone]
  exact h.calls

/-- `setupWasmStorage` without errors.

**Proof sketch.** Induct on the files: each is linked in its turn. Before that the directory is
made. -/
lemma setupWasmStorage_eq (r : WasmReplica γ) (found : Bool) :
    setupWasmStorage (wasmImage r.fname) (r.imageFiles.map (·.val)) (wasmName r.fname r.uuid)
      { found := found } = (r.setupCalls found r.imageFiles, none) := by
  have hfiles : ∀ files : List FileName,
      reflinkFiles (wasmImage r.fname) r.dir (fun _ => none) (files.map (·.val)) =
        (files.map r.reflinked, none) := by
    intro files
    induction files with
    | nil => rfl
    | cons file files ih =>
      simp only [List.map_cons, reflinkFiles, ih]
      rfl
  simp only [setupWasmStorage]
  change (_ ++ .mkdir r.dir :: (reflinkFiles (wasmImage r.fname) r.dir (fun _ => none)
    (r.imageFiles.map (·.val))).1, (reflinkFiles (wasmImage r.fname) r.dir (fun _ => none)
    (r.imageFiles.map (·.val))).2) = _
  rw [hfiles]
  rfl

/-- The storage of a replica depends on what the replica can see. -/
lemma Stored.of_agree (h : r.Stored t) (hagree : Tree.AgreeOn (Seen r.zone) t t') :
    r.Stored t' := ⟨h.calls, h.copied.of_agree hagree⟩

/-- What holds at a point of a replica's life depends on what the replica can see.

**Proof sketch.** Case split on the point: each of them speaks of the replica's own directory and of
the images, which are what it sees. -/
lemma Sound.of_agree (h : r.Sound w t) (hagree : Tree.AgreeOn (Seen r.zone) t t') :
    r.Sound w t' := by
  have habsent : (t.lookup r.dir = none → Absent t r.dir) →
      t'.lookup r.dir = none → Absent t' r.dir := by
    intro hrooted hnone k hk
    have hdir := hagree r.dir (.inl (within_self _))
    exact (hagree k (.inl hk)).symm.trans (hrooted (hdir.trans hnone) k hk)
  unfold Sound at h ⊢
  split at h
  · exact ⟨h.1, habsent h.2⟩
  · exact ⟨h.1, habsent h.2⟩
  · exact ⟨h.1, habsent h.2⟩
  · obtain ⟨found, done, hfiles, hcalls, hcopied⟩ := h
    exact ⟨found, done, hfiles, hcalls, hcopied.of_agree hagree⟩
  · exact h.of_agree hagree
  · exact h.of_agree hagree
  · exact ⟨h.1, fun hresults => (h.2 hresults).of_agree hagree⟩
  · exact fun k hk => (hagree k (.inl hk)).symm.trans (h k hk)
  all_goals trivial

/-- **What a section keeps** of a replica's life.

**Proof sketch.** Case split on the phase. The calls so far are those that lead to the next phase,
and the copy in the directory is that of the entries that have been walked through. -/
lemma Sound.section_ (h : r.Sound w t) (hsection : r.section_ w t ok = some (t', r')) :
    r'.Sound w t' := by
  have hsame := (section_frame hsection).1
  cases hphase : r.phase with
  | stat =>
    simp only [Sound, hphase] at h
    simp only [WasmReplica.section_, hphase] at hsection
    split at hsection
    · cases hsection
      exact ⟨⟨false, h.1⟩, h.2⟩
    · cases hsection
      exact h
  | removing =>
    simp only [Sound, hphase] at h
    simp only [WasmReplica.section_, hphase] at hsection
    cases hsection
    refine ⟨⟨true, ?_⟩, ?_⟩
    · rw [called, h.1]
      rfl
    · cases ok with
      | true =>
        intro _ k hk
        exact (Tree.lookup_removeAll _ _ _).trans (if_pos hk)
      | false => exact h.2
  | mkdir =>
    simp only [Sound, hphase] at h
    simp only [WasmReplica.section_, hphase] at hsection
    split at hsection
    · next t₁ hmade =>
      cases hsection
      cases ok with
      | true =>
        obtain ⟨hnone, rfl⟩ := Tree.eq_put_of_mkdir hmade
        obtain ⟨⟨found, hcalls⟩, habsent⟩ := h
        refine ⟨found, [], rfl, ?_, copied_of_mkdir (habsent hnone)⟩
        rw [called, hcalls]
        rfl
      | false => cases hmade
    · cases hsection
      trivial
  | reflinking left =>
    simp only [Sound, hphase] at h
    obtain ⟨found, done, hfiles, hcalls, hcopied⟩ := h
    cases left with
    | nil =>
      simp only [WasmReplica.section_, hphase] at hsection
      cases hsection
      rw [List.append_nil] at hfiles
      subst hfiles
      have hstored : r.Stored t :=
        ⟨⟨_, (setupWasmStorage_eq r found).trans (by rw [hcalls])⟩, hcopied⟩
      exact hstored.of_same hsame rfl
    | cons file left =>
      simp only [WasmReplica.section_, hphase] at hsection
      split at hsection
      · next t₁ hmade =>
        cases hsection
        cases ok with
        | true =>
          obtain ⟨data, hsrc, rfl⟩ := Tree.eq_put_of_copyFile hmade
          refine ⟨found, done ++ [file], ?_, ?_, (hcopied.snoc hsrc).of_same hsame⟩
          · rw [List.append_assoc]
            exact hfiles
          · rw [called, hcalls]
            simp [setupCalls, cleared, reflinked, dir, src, dst, zone]
        | false => cases hmade
      · cases hsection
        trivial
  | stored =>
    simp only [Sound, hphase] at h
    simp only [WasmReplica.section_, hphase] at hsection
    cases hsection
    cases ok with
    | true => exact h.of_same hsame rfl
    | false => trivial
  | booting =>
    simp only [Sound, hphase] at h
    simp only [WasmReplica.section_, hphase] at hsection
    cases hsection
    cases ok with
    | true => exact ⟨rfl, fun _ => h.of_same hsame rfl⟩
    | false => trivial
  | idle vm =>
    simp only [WasmReplica.section_, hphase] at hsection
    split at hsection
    · split at hsection
      · cases hsection
        trivial
      · cases hsection
        trivial
    · cases hsection
      exact h
  | running vm =>
    simp only [WasmReplica.section_, hphase] at hsection
    split at hsection
    · cases hsection
      trivial
    · cases hsection
      trivial
  | served succeeded =>
    simp only [WasmReplica.section_, hphase] at hsection
    cases hsection
    cases ok with
    | true => exact ⟨rfl, fun hresults => absurd hresults (by simp)⟩
    | false => trivial
  | killed =>
    simp only [WasmReplica.section_, hphase] at hsection
    cases ok with
    | true =>
      cases hsection
      intro k hk
      exact (Tree.lookup_removeAll _ _ _).trans (if_pos hk)
    | false =>
      cases hsection
      trivial
  | exited | deleted | failed =>
    simp only [WasmReplica.section_, hphase] at hsection
    cases hsection

/-- **What a step keeps** of a replica's life. -/
lemma Sound.next (h : r.Sound w t) (hnext : r.next w t e = some (t', r')) : r'.Sound w t' := by
  cases e with
  | ok => exact h.section_ hnext
  | err => exact h.section_ hnext
  | exit =>
    obtain ⟨r₁, hexit, heq⟩ := Option.map_eq_some_iff.mp hnext
    cases heq
    obtain rfl := exit_eq hexit
    trivial
  | kill =>
    obtain ⟨r₁, hkill, heq⟩ := Option.map_eq_some_iff.mp hnext
    cases heq
    obtain rfl := kill_eq hkill
    trivial

end WasmReplica

/-! ### Many replicas -/

/-- No replica changes what lies in no directory of a replica. -/
lemma common_of_run {t₀ : Tree} {ms : List (Move (WasmReplica γ) WasmEvent)}
    {c : Interleaving.Config Tree (WasmReplica γ)}
    (hrun : Runs.run (wasmProgram w).step ⟨t₀, []⟩ ms = some c) {k : Str} (hk : Common k) :
    c.shared.lookup k = t₀.lookup k := by
  refine Runs.invariant (I := fun d => d.shared.lookup k = t₀.lookup k) (fun d m d' hd hstep => ?_)
    rfl hrun
  obtain ⟨r, -, -, rfl⟩ | ⟨i, e, r, t', r', new, -, -, hn, rfl⟩ := Program.step_cases hstep
  · exact hd
  · obtain ⟨⟨t₁, r₁⟩, hnext, heq⟩ := Option.map_eq_some_iff.mp hn
    cases heq
    exact ((next_frame hnext).2 k (hk r.zone)).trans hd

/-- A virtual machine whose functions write the file `a` and end. -/
def writer : WasmEdge ℕ where
  vmCreate := 0
  load vm node := if node.isSome then some vm else none
  next vm _ := if vm = 0 then .file "a".toList (some (.file "new".toList)) 1 else .done true

/-- The image of a function `f` with a file `a`. -/
def imageOfF : Tree :=
  (((∅ : Tree).insert "/mnt/faasedge/images/f/replicas".toList .dir).insert
    "/mnt/faasedge/images/f/rootfs/a".toList (.file "old".toList)).insert
    "/mnt/faasedge/images/f/function.wasm".toList (.file [])

/-- A replica of `f` that is to be created. -/
def newReplicaOfF (uuid : Uuid) : WasmReplica ℕ where
  fname := ⟨"f".toList, by constructor <;> decide⟩
  uuid := uuid
  imageFiles := [⟨"a".toList, by constructor <;> decide⟩]

/-- The identifiers of the two replicas. -/
def uuidOf (c : Char) (h : c ≠ '/' := by decide) : Uuid :=
  ⟨[c], fun hmem => h (List.mem_singleton.mp hmem).symm⟩

/-- The first replica is created and its function has written its file when the storage of the
second one is set up. -/
def secondCreated : List (Move (WasmReplica ℕ) WasmEvent) :=
  [.arrive (newReplicaOfF (uuidOf '1')), .arrive (newReplicaOfF (uuidOf '2'))] ++
    List.replicate 8 (.step 0 .ok) ++ List.replicate 4 (.step 1 .ok)

/-- The files and the replicas after that. -/
def afterSecondCreated : Interleaving.Config Tree (WasmReplica ℕ) :=
  (Runs.run (wasmProgram writer).step ⟨imageOfF, []⟩ secondCreated).get (by decide +kernel)

/-- There are no replicas yet. -/
lemma rooted_imageOfF : Rooted imageOfF := by
  have hkeys : imageOfF.keys = ["/mnt/faasedge/images/f/function.wasm".toList,
      "/mnt/faasedge/images/f/rootfs/a".toList, "/mnt/faasedge/images/f/replicas".toList] := by
    decide +kernel
  have hcommon : ∀ k ∈ imageOfF.keys, Common k := by
    rw [hkeys]
    simp only [List.forall_mem_cons, List.not_mem_nil, false_imp_iff, implies_true, and_true]
    exact ⟨common_of_count (by decide +kernel),
      (newReplicaOfF (uuidOf '1')).common_src ⟨"a".toList, by constructor <;> decide⟩,
      common_of_count (by decide +kernel)⟩
  intro z _ k hk
  exact AList.lookup_eq_none.mpr fun hmem => hcommon k hmem z hk

end Fecore
