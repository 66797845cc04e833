import Mathlib.Tactic.Common
import Fecore.Handlers.RejectedDeploys

set_option relaxedAutoImplicit false
set_option autoImplicit false

/-!
# What unpacking leaves

`untar` (`pkg/provider/handlers/deploy.go`) opens each regular file of the tarball with `O_CREATE`
and `O_RDWR` and copies the entry into it. The file is not truncated, so what was longer before
keeps its end.

## Main definitions

* `Fecore.unpacked` — the files after a tarball has been unpacked over them.

## Main results

* `Fecore.unpacked_lookup` — one file after the unpacking.
* `Fecore.untar_exact_iff` — when the files of the entries have the bytes of the entries.

## Design

The files are those of a tree without links: a path leads to one file, and no other path does.
-/

namespace Fecore

/-- The files after the tarball has been unpacked over them in `dst`. -/
def unpacked (dst : Str) (archive : Archive) (files : Files) : Files :=
  (untar dst archive).1.foldl UntarCall.apply files

/-! ### Data written more than once -/

/-- Data written again change nothing. -/
lemma overlay_overlay (old : Option (List UInt8)) (data : List UInt8) :
    overlay (overlay old data) data = overlay old data := by
  simp [overlay]

/-- Writing the same data several times is writing them once.

**Proof sketch.** The first writing writes the data. Induct on the rest: the same data over
themselves are the same (`overlay_overlay`). -/
lemma foldl_overlay_const {written : List (List UInt8)} {data : List UInt8}
    (h : ∀ d ∈ written, d = data) (hne : written ≠ []) (old : Option (List UInt8)) :
    written.foldl overlay old = overlay old data := by
  have hstay : ∀ {rest : List (List UInt8)}, (∀ d ∈ rest, d = data) →
      rest.foldl overlay (overlay old data) = overlay old data := by
    intro rest hrest
    induction rest with
    | nil => rfl
    | cons d rest ih =>
      obtain rfl := hrest d List.mem_cons_self
      rw [List.foldl_cons, overlay_overlay]
      exact ih fun d' hd' => hrest d' (List.mem_cons_of_mem _ hd')
  cases written with
  | nil => exact absurd rfl hne
  | cons d rest =>
    obtain rfl := h d List.mem_cons_self
    exact hstay fun d' hd' => h d' (List.mem_cons_of_mem _ hd')

/-- **A file has exactly the data** that are written over it when it was not longer. -/
lemma overlay_eq_some_iff {old : Option (List UInt8)} {data : List UInt8} :
    overlay old data = some data ↔ ∀ contents, old = some contents →
      contents.length ≤ data.length := by
  rw [overlay, Option.some.injEq, List.append_right_eq_self, List.drop_eq_nil_iff]
  cases old with
  | none => simp
  | some contents => simp

/-! ### The whole tarball -/

/-- All entries are reached when none fails. -/
lemma reachedEntries_of_all {es : List Entry} (h : ∀ e ∈ es, e.fails = false) :
    reachedEntries es = es := by
  induction es with
  | nil => rfl
  | cons e es ih =>
    rw [reachedEntries, h e List.mem_cons_self, if_neg Bool.false_ne_true,
      ih fun e' he' => h e' (List.mem_cons_of_mem _ he')]

/-- A tarball is unpacked without an error when no entry fails. -/
lemma not_fails_of_untar {dst : Str} {archive : Archive} (h : (untar dst archive).2 = none) :
    archive.gzip = none ∧ ∀ e ∈ archive.entries, e.fails = false := by
  have hunpacks : archive.unpacks = true := by
    have hsome := isSome_untar dst archive
    rw [h] at hsome
    simpa using hsome.symm
  simp only [Archive.unpacks, Bool.and_eq_true, Option.isNone_iff_eq_none, List.all_eq_true,
    Bool.not_eq_true'] at hunpacks
  exact ⟨hunpacks.1.1, hunpacks.1.2⟩

/-- **One file after the unpacking** is what the data of its entries make of it. -/
lemma unpacked_lookup {dst : Str} {archive : Archive} (h : (untar dst archive).2 = none)
    (files : Files) (path : Str) :
    (unpacked dst archive files).lookup path =
      (archive.entries.filterMap (·.dataAt dst path)).foldl overlay (files.lookup path) := by
  obtain ⟨hgzip, hfails⟩ := not_fails_of_untar h
  have hcalls : (untar dst archive).1 = (untarEntries dst archive.last archive.entries).1 := by
    rw [untar, hgzip]
  rw [unpacked, lookup_foldl_apply, hcalls, writesTo_untarEntries, reachedEntries_of_all hfails]

/-- The data of an entry that does not fail. -/
lemma Entry.dataAt_eq_some {dst path : Str} {e : Entry} (h : e.fails = false)
    {data : List UInt8} : e.dataAt dst path = some data ↔
      e.header.typeflag = .typeReg ∧ e.target dst = path ∧ data = e.header.contents := by
  by_cases hreg : e.header.typeflag = .typeReg
  · have hok : e.openFile = none ∧ e.copy = none := by
      simpa [Entry.fails, hreg] using h
    have hcopied : e.copied = e.header.contents := by
      rw [Entry.copied, hok.2]
    simp [Entry.dataAt, hreg, hok.1, hcopied, eq_comm]
  · simp [Entry.dataAt, hreg]

/-- The entries for one file write the data of one of them when they have the same contents. -/
lemma unpacked_lookup_of_same {dst : Str} {archive : Archive} (h : (untar dst archive).2 = none)
    (files : Files) {e : Entry} (he : e ∈ archive.entries) (hreg : e.header.typeflag = .typeReg)
    (hsame : ∀ e' ∈ archive.entries, e'.header.typeflag = .typeReg →
      e'.target dst = e.target dst → e'.header.contents = e.header.contents) :
    (unpacked dst archive files).lookup (e.target dst) =
      overlay (files.lookup (e.target dst)) e.header.contents := by
  have hfails := (not_fails_of_untar h).2
  rw [unpacked_lookup h]
  refine foldl_overlay_const (fun data hdata => ?_) ?_ _
  · obtain ⟨e', he', heq⟩ := List.mem_filterMap.mp hdata
    obtain ⟨hreg', htarget, rfl⟩ := (Entry.dataAt_eq_some (hfails e' he')).mp heq
    exact hsame e' he' hreg' htarget
  · have hmem : e.header.contents ∈ archive.entries.filterMap (·.dataAt dst (e.target dst)) :=
      List.mem_filterMap.mpr ⟨e, he, (Entry.dataAt_eq_some (hfails e he)).mpr ⟨hreg, rfl, rfl⟩⟩
    exact List.ne_nil_of_mem hmem

/-- **When the files of the entries have the bytes of the entries**, and no other file has changed:
exactly when entries for one file have the same bytes and no file was longer than its entry before.

**Proof sketch.** What is written to a file are the contents of its entries
(`unpacked_lookup`). No other file is written to. Where the contents are the same, the file is what
they make of it at once, and has them exactly when nothing of it sticks out (`overlay_eq_some_iff`).
Conversely a file has the bytes of all its entries only when these have the same. -/
theorem untar_exact_iff {dst : Str} {archive : Archive} (files : Files)
    (h : (untar dst archive).2 = none) :
    ((∀ e ∈ archive.entries, e.header.typeflag = .typeReg →
        (unpacked dst archive files).lookup (e.target dst) = some e.header.contents) ∧
      ∀ path, (∀ e ∈ archive.entries, e.target dst ≠ path) →
        (unpacked dst archive files).lookup path = files.lookup path) ↔
    (∀ e ∈ archive.entries, e.header.typeflag = .typeReg →
      ∀ e' ∈ archive.entries, e'.header.typeflag = .typeReg → e'.target dst = e.target dst →
        e'.header.contents = e.header.contents) ∧
      ∀ e ∈ archive.entries, e.header.typeflag = .typeReg →
        ∀ contents, files.lookup (e.target dst) = some contents →
          contents.length ≤ e.header.contents.length := by
  constructor
  · rintro ⟨hexact, -⟩
    have hsame : ∀ e ∈ archive.entries, e.header.typeflag = .typeReg →
        ∀ e' ∈ archive.entries, e'.header.typeflag = .typeReg → e'.target dst = e.target dst →
          e'.header.contents = e.header.contents := by
      intro e he hreg e' he' hreg' htarget
      have hfile := hexact e' he' hreg'
      rw [htarget, hexact e he hreg] at hfile
      exact (Option.some.inj hfile).symm
    refine ⟨hsame, fun e he hreg => ?_⟩
    rw [← overlay_eq_some_iff, ← unpacked_lookup_of_same h files he hreg (hsame e he hreg)]
    exact hexact e he hreg
  · rintro ⟨hsame, hshort⟩
    refine ⟨fun e he hreg => ?_, fun path hpath => ?_⟩
    · rw [unpacked_lookup_of_same h files he hreg (hsame e he hreg)]
      exact overlay_eq_some_iff.mpr (hshort e he hreg)
    · have hnone : archive.entries.filterMap (·.dataAt dst path) = [] := by
        refine List.filterMap_eq_nil_iff.mpr fun e he => ?_
        exact if_neg fun hdata => hpath e he hdata.2.2
      rw [unpacked_lookup h, hnone]
      rfl

/-- An image with the directory of `f`, which is there, and the module of `f`. -/
def moduleImage (contents : List UInt8) : Archive :=
  { entries :=
      [{ header := { name := "f".toList, typeflag := .typeDir }, found := true },
        moduleEntry contents] }

/-- The module of a new image is longer than the one that it replaces.

**Proof sketch.** There is one regular file, so `untar_exact_iff` asks that it is not shorter than
the one that is there, which is evaluated. -/
theorem untar_exact_grown :
    let files := (∅ : Files).insert moduleF [1]
    (∀ e ∈ (moduleImage [2, 3]).entries, e.header.typeflag = .typeReg →
        (unpacked wasmImagesRoot (moduleImage [2, 3]) files).lookup (e.target wasmImagesRoot) =
          some e.header.contents) ∧
      ∀ path, (∀ e ∈ (moduleImage [2, 3]).entries, e.target wasmImagesRoot ≠ path) →
        (unpacked wasmImagesRoot (moduleImage [2, 3]) files).lookup path = files.lookup path := by
  have hmodule : ∀ e ∈ (moduleImage [2, 3]).entries, e.header.typeflag = .typeReg →
      e = moduleEntry [2, 3] := by
    intro e he hreg
    obtain rfl | he := List.mem_cons.mp he
    · cases hreg
    · exact List.mem_singleton.mp he
  refine (untar_exact_iff _ rfl).mpr ⟨?_, ?_⟩
  · intro e he hreg e' he' hreg' _
    rw [hmodule e he hreg, hmodule e' he' hreg']
  · intro e he hreg contents hcontents
    obtain rfl := hmodule e he hreg
    have hold : ((∅ : Files).insert moduleF [1]).lookup
        ((moduleEntry [2, 3]).target wasmImagesRoot) = some [1] := by decide +kernel
    obtain rfl : [1] = contents := Option.some.inj (hold.symm.trans hcontents)
    decide

/-- The module of a new image is shorter than the one that it replaces, which keeps its end. -/
theorem not_untar_exact_shrunk :
    ((moduleImage [2]).entries.map fun e => Path.clean e.header.name).Nodup ∧
      (untar wasmImagesRoot (moduleImage [2])).2 = none ∧
      (unpacked wasmImagesRoot (moduleImage [2]) ((∅ : Files).insert moduleF [1, 1])).lookup
        ((moduleEntry [2]).target wasmImagesRoot) = some [2, 1] :=
  ⟨by decide +kernel, rfl, by decide +kernel⟩

end Fecore
