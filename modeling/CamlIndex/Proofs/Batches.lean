import CamlIndex.Command.Run
import CamlIndex.Proofs.Loading
import Mathlib

/-!
# Files on their own

A run tags many files, and none of them may notice the others.  A batch is therefore
described path by path: what is found in a file is what is found in that file alone, a
file that cannot be read leaves its reason and nothing else, and the order of the paths
is the order of the results (`Batch.Separate`).  Two batches are joined by joining their
lists, and the paths that cannot be read may as well not have been given, as far as tags
and diagnostics go.

The exit code tells whether some file could not be read.  Diagnostics have no part in it.

* `tagPath_eq` — a single path: reading the file decides what comes of it, since tagging
  a text that was read never fails;
* `separate_tagFiles`, `tagFiles_append`, `tagFiles_readable` — whole batches;
* `execute_isolated` — all of this, and what it means for a run of the program.
-/

namespace CamlIndex.Command

/-- Whether the file at a path can be read. -/
def isReadable (read : Reading) (path : String) : Bool :=
  (read path).isOk

/-- Why the file at a path cannot be read. -/
def failure? (read : Reading) (path : String) : Option FileFailure :=
  match read path with
  | .ok _ => none
  | .error failure => some failure

/-- The document at a path. -/
def document? (read : Reading) (path : String) : Option Document :=
  match read path with
  | .ok bytes => some ⟨Utf8.decodeLossy bytes, some path⟩
  | .error _ => none

/-- What is found in a document: with the module of its file in front, or without. -/
def findings (options : Options) (fileModule : Bool) (document : Document) : Extraction :=
  extract (if fileModule then
    { options with fileModule := options.fileModule.or document.moduleName? } else options)
    document.text

/-- The results for some paths are the results for each of them, one after the other. -/
structure Batch.Separate (read : Reading) (options : Options) (fileModule : Bool)
    (paths : List String) (batch : Batch) : Prop where
  /-- Every path that cannot be read fails, with its reason. -/
  failures : batch.failures = paths.filterMap fun path =>
    (failure? read path).map fun failure => (path, .unreadable failure)
  failed : batch.failures.map Prod.fst = paths.filter fun path => !isReadable read path
  /-- Every path that can be read is a file with the tags that are found in it. -/
  files : batch.files = paths.filterMap fun path =>
    (document? read path).map fun document =>
      ⟨path, document.text, (findings options fileModule document).tags⟩
  tagged : batch.files.map TaggedFile.path = paths.filter (isReadable read)
  /-- Every path that can be read has the diagnostics that are found in it. -/
  diagnostics : batch.diagnostics = paths.flatMap fun path =>
    ((document? read path).map fun document =>
      (findings options fileModule document).diagnostics.map (path, ·)).getD []

/-! ## Paths one by one -/

section Batches

variable (read : Reading) (options : Options) (fileModule : Bool)

/-- Tagging a text never fails, whether its module counts or not. -/
theorem ok_findings (document : Document) :
    (if fileModule then document.extractFile options else document.extract options) =
      .ok (findings options fileModule document) := by
  cases fileModule with
  | true => exact document.extractAs_eq document.moduleName? options
  | false => exact document.extract_eq options

/-- **Reading a file decides** what comes of it. -/
theorem tagPath_eq (path : String) :
    tagPath read options fileModule path =
      { files := ((document? read path).map fun document =>
          ⟨path, document.text, (findings options fileModule document).tags⟩).toList
        failures := ((failure? read path).map fun failure => (path, .unreadable failure)).toList
        diagnostics := ((document? read path).map fun document =>
          (findings options fileModule document).diagnostics.map (path, ·)).getD [] } := by
  unfold tagPath tagFile Document.load document? failure?
  cases read path with
  | error failure => rfl
  | ok bytes =>
      let document : Document := ⟨Utf8.decodeLossy bytes, some path⟩
      have hfindings := ok_findings options fileModule document
      cases fileModule with
      | true =>
          have hfindings : document.extractFile options = _ := hfindings
          simp only [if_true, bind, Except.bind]
          rw [hfindings]
          rfl
      | false =>
          have hfindings : document.extract options = _ := hfindings
          simp only [Bool.false_eq_true, if_false, bind, Except.bind]
          rw [hfindings]
          rfl

/-- The three lists of a batch grow side by side. -/
theorem tagFiles_eq (paths : List String) :
    tagFiles read options fileModule paths =
      { files := paths.flatMap fun path => (tagPath read options fileModule path).files
        failures := paths.flatMap fun path => (tagPath read options fileModule path).failures
        diagnostics := paths.flatMap fun path =>
          (tagPath read options fileModule path).diagnostics } := by
  induction paths with
  | nil => rfl
  | cons path paths ih =>
      change tagPath read options fileModule path ++ tagFiles read options fileModule paths = _
      rw [ih]
      rfl

theorem isSome_document? (path : String) :
    (document? read path).isSome = isReadable read path := by
  unfold isReadable document?
  cases read path <;> rfl

theorem isSome_failure? (path : String) :
    (failure? read path).isSome = !isReadable read path := by
  unfold isReadable failure?
  cases read path <;> rfl

/-- Who is kept along with something is who has it. -/
theorem filterMap_self {α β : Type} (f : α → Option β) (as : List α) :
    as.filterMap (fun a => (f a).map fun _ => a) = as.filter fun a => (f a).isSome := by
  rw [← List.filterMap_eq_filter]
  congr 1
  funext a
  cases h : f a <;> simp [Option.guard, h]

/-- **Each path for itself.** -/
theorem separate_tagFiles (paths : List String) :
    (tagFiles read options fileModule paths).Separate read options fileModule paths := by
  simp only [tagFiles_eq, tagPath_eq, ← List.filterMap_eq_flatMap_toList]
  constructor
  case failures => rfl
  case files => rfl
  case diagnostics => rfl
  case failed =>
      simp only [List.map_filterMap, Option.map_map, Function.comp_def, filterMap_self,
        isSome_failure?]
  case tagged =>
      simp only [List.map_filterMap, Option.map_map, Function.comp_def, filterMap_self,
        isSome_document?]

/-- **Two batches are joined part by part.** -/
theorem tagFiles_append (paths more : List String) :
    tagFiles read options fileModule (paths ++ more) =
      { files := (tagFiles read options fileModule paths).files
          ++ (tagFiles read options fileModule more).files
        failures := (tagFiles read options fileModule paths).failures
          ++ (tagFiles read options fileModule more).failures
        diagnostics := (tagFiles read options fileModule paths).diagnostics
          ++ (tagFiles read options fileModule more).diagnostics } := by
  simp only [tagFiles_eq, List.flatMap_append]

/-- A path that cannot be read adds a failure only. -/
theorem tagPath_unreadable {path : String} (h : isReadable read path = false) :
    (tagPath read options fileModule path).files = [] ∧
      (tagPath read options fileModule path).diagnostics = [] := by
  rw [← isSome_document?, Option.isSome_eq_false_iff, Option.isNone_iff_eq_none] at h
  simp [tagPath_eq, h]

/-- **Paths that cannot be read** take nothing from the other files. -/
theorem tagFiles_readable (paths : List String) :
    (tagFiles read options fileModule (paths.filter (isReadable read))).files =
        (tagFiles read options fileModule paths).files ∧
      (tagFiles read options fileModule (paths.filter (isReadable read))).diagnostics =
        (tagFiles read options fileModule paths).diagnostics := by
  simp only [tagFiles_eq]
  induction paths with
  | nil => exact ⟨rfl, rfl⟩
  | cons path paths ih =>
      cases hpath : isReadable read path with
      | true => simp [hpath, ih]
      | false =>
          have hnothing := tagPath_unreadable read options fileModule hpath
          simp [hpath, ih, hnothing]

theorem isEmpty_failures (paths : List String) :
    (tagFiles read options fileModule paths).failures.isEmpty = paths.all (isReadable read) := by
  have hfailed := (separate_tagFiles read options fileModule paths).failed
  rw [← List.isEmpty_map, hfailed, Bool.eq_iff_iff, List.isEmpty_iff, List.filter_eq_nil_iff,
    List.all_eq_true]
  simp

end Batches

/-! ## Runs -/

/-- **Files are tagged on their own**, and the exit code counts none of what is found in
them.  A run with settings that has written its listing ends with code one if and only if
some path could not be read; its listing is the one for the paths that can be read. -/
theorem execute_isolated (read : Reading) :
    (∀ options fileModule,
      (∀ document : Document,
        (if fileModule then document.extractFile options else document.extract options) =
          .ok (findings options fileModule document)) ∧
      (∀ paths, (tagFiles read options fileModule paths).Separate read options fileModule paths) ∧
      ∀ paths more, tagFiles read options fileModule (paths ++ more) =
        { files := (tagFiles read options fileModule paths).files
            ++ (tagFiles read options fileModule more).files
          failures := (tagFiles read options fileModule paths).failures
            ++ (tagFiles read options fileModule more).failures
          diagnostics := (tagFiles read options fileModule paths).diagnostics
            ++ (tagFiles read options fileModule more).diagnostics }) ∧
    ∀ (request : Request) (settings : Settings), request.settings read = .ok settings →
      request.listKinds = false →
      let batch := tagFiles read settings.options settings.fileModule request.paths
      let readable := tagFiles read settings.options settings.fileModule
        (request.paths.filter (isReadable read))
      let listing := settings.format.write settings.listing readable.files
      let code := if ∃ path ∈ request.paths, isReadable read path = false then 1 else 0
      let outcome := (Call.run request).execute read
      outcome = (match request.output with
        | none => .finished ⟨code, listing, batch.messages⟩
        | some path => .writes path listing ⟨code, "", batch.messages⟩) ∧
      (outcome.report (.ok ())).exitCode = code ∧ readable.diagnostics = batch.diagnostics := by
  refine ⟨fun options fileModule => ⟨ok_findings options fileModule,
    separate_tagFiles read options fileModule, tagFiles_append read options fileModule⟩, ?_⟩
  intro request settings hsettings hlist batch readable listing code outcome
  obtain ⟨hfiles, hdiagnostics⟩ :=
    tagFiles_readable read settings.options settings.fileModule request.paths
  have hcode : (if batch.failures.isEmpty then 0 else 1) = code := by
    simp only [batch, code, isEmpty_failures]
    by_cases hall : request.paths.all (isReadable read) = true
    · rw [if_pos hall, if_neg (by simpa using hall)]
    · rw [if_neg hall, if_pos (by simpa using hall)]
  have houtcome : outcome = (match request.output with
      | none => .finished ⟨code, listing, batch.messages⟩
      | some path => .writes path listing ⟨code, "", batch.messages⟩) := by
    cases houtput : request.output <;>
      simp only [outcome, Call.execute, hsettings, Request.execute, hlist, Bool.false_eq_true,
        if_false, listing, readable, hfiles, ← hcode, batch, houtput]
  refine ⟨houtcome, ?_, hdiagnostics⟩
  rw [houtcome]
  cases request.output <;> rfl

/-- A missing file between others: the others are listed, and the exit code is one. -/
theorem execute_isolated_missing :
    let read : Reading := fun path =>
      if path = "a.ml" then .ok (Utf8.encode "let a = 1") else .error .notFound
    let request : Request := { paths := ["b.ml", "a.ml"], format := some .json }
    let settings : Settings := ⟨false, 256, true, .ofList Kind.all, .json, true, true⟩
    request.settings read = .ok settings ∧
      (((Call.run request).execute read).report (.ok ())).exitCode = 1 := by
  intro read request settings
  have hsettings : request.settings read = .ok settings := by
    simp only [request, settings, Request.settings, Request.layers, read]
    cbv
  have hrun := (execute_isolated read).2 request settings hsettings rfl
  refine ⟨hsettings, hrun.2.1.trans ?_⟩
  rw [if_pos ⟨"b.ml", by simp [request], by decide⟩]

end CamlIndex.Command
