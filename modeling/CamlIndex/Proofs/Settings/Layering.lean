import CamlIndex.Command.Run
import CamlIndex.Proofs.Settings.Keys
import Mathlib

/-!
# Layers of settings

Settings come from layers, and each key has the value that the topmost layer with this key
gives it.  Options lie above all files; among files, and among options, the later one lies
above the earlier one.  A layer that says nothing about a key might as well be missing, as
far as this key is concerned.

* `holds_of_ofLayers`, `holds_of_onTop` — the value of a key in any list of layers;
* `agrees_of_silent` — layers change nothing but the keys they mention;
* `Request.settings_layered` — the settings of a request.
-/

namespace CamlIndex

/-! ## Letters of kinds -/

theorem Kind.ofLetter_eq_ok_iff {letter : Char} {kind : Kind} :
    Kind.ofLetter letter = .ok kind ↔ kind.letter = letter := by
  unfold Kind.ofLetter
  constructor
  · intro h
    split at h
    · next found hfound =>
        cases h
        simpa using List.find?_some hfound
    · cases h
  · rintro rfl
    rw [Kind.ofLetter?_letter]

theorem Kind.ofLetter_eq_error {letter : Char} (hletter : ∀ kind : Kind, kind.letter ≠ letter) :
    Kind.ofLetter letter = .error letter := by
  cases hfound : Kind.ofLetter? letter with
  | none => rw [Kind.ofLetter, hfound]
  | some kind =>
      have hok : Kind.ofLetter letter = .ok kind := by rw [Kind.ofLetter, hfound]
      exact absurd (Kind.ofLetter_eq_ok_iff.mp hok) (hletter kind)

theorem KindSet.contains_of_ofLetters {letters : List Char} {wanted : KindSet}
    (h : KindSet.ofLetters letters = .ok wanted) (kind : Kind) :
    wanted.contains kind = decide (kind.letter ∈ letters) := by
  cases hkinds : letters.mapM Kind.ofLetter with
  | error letter =>
      rw [KindSet.ofLetters, hkinds] at h
      cases h
  | ok kinds =>
      rw [KindSet.ofLetters, hkinds] at h
      cases h
      simp [KindSet.ofList, (Settings.mapM_eq_ok hkinds).2, Kind.ofLetter_eq_ok_iff]

/-- The first letter that no kind has is the one that is reported. -/
theorem KindSet.ofLetters_eq_error {before after : List Char} {unknown : Char}
    (hbefore : ∀ letter ∈ before, ∃ kind : Kind, kind.letter = letter)
    (hunknown : ∀ kind : Kind, kind.letter ≠ unknown) :
    KindSet.ofLetters (before ++ unknown :: after) = .error unknown := by
  have hfirst : (before ++ unknown :: after).mapM Kind.ofLetter = .error unknown := by
    induction before with
    | nil =>
        rw [List.nil_append, List.mapM_cons, Kind.ofLetter_eq_error hunknown]
        rfl
    | cons letter before ih =>
        obtain ⟨⟨kind, hkind⟩, hbefore⟩ := List.forall_mem_cons.mp hbefore
        rw [List.cons_append, List.mapM_cons, Kind.ofLetter_eq_ok_iff.mpr hkind, ih hbefore]
        rfl
  rw [KindSet.ofLetters, hfirst]
  rfl

namespace Settings

open Toml (Value)

/-- Two settings are the same at a key. -/
def Key.Agrees (a b : Settings) : Key → Prop
  | .localBindings => a.localBindings = b.localBindings
  | .maxDepth => a.maxDepth = b.maxDepth
  | .fileModule => a.fileModule = b.fileModule
  | .kind owner => a.kinds.contains owner = b.kinds.contains owner
  | .format => a.format = b.format
  | .sort => a.sort = b.sort
  | .header => a.header = b.header

theorem Key.agrees_of_holds {key : Key} {a b : Settings} {value : Value}
    (ha : key.Holds a value) (hb : key.Holds b value) : key.Agrees a b := by
  cases key <;> exact Except.ok.inj (ha.symm.trans hb)

/-! ## What a layer says -/

/-- The fields of the file of a layer. -/
def Layer.fields : Layer → List (String × Value)
  | .file text | .optionalFile text => (text.bind Toml.parse?).getD []
  | .assign _ _ | .kinds _ => []

/-- What the file of a layer sets a key to. -/
def Layer.inFile? (layer : Layer) (key : Key) : Option Value :=
  lastValue? (assignmentsOf layer.fields) key

/-- What a layer sets a key to on top of all files. -/
def Layer.onTop? (key : Key) : Layer → Option Value
  | .assign name value => if path? name = some key.path then some value else none
  | .kinds letters =>
    match key with
    | .kind owner => some (.boolean (owner.letter ∈ letters.toList))
    | _ => none
  | .file _ | .optionalFile _ => none

/-- The value that layers give a key. -/
def layeredValue (layers : List Layer) (key : Key) : Value :=
  ((layers.reverse.findSome? (·.onTop? key)).or
    (layers.reverse.findSome? (·.inFile? key))).getD key.default

theorem valueAt_defaults (key : Key) : valueAt defaults key = some key.default := by
  cases key with
  | kind owner => cases owner <;> rfl
  | _ => rfl

/-- A layer whose assignments on top of files are assignments to keys. -/
def Layer.AssignsKeys (layer : Layer) : Prop :=
  ∀ assignments, layer.assignments = .ok assignments →
    ∀ assignment ∈ assignments, AssignsKey assignment

theorem lastValue?_assignments {layer : Layer} {assignments : List (Path × Value)}
    (h : layer.assignments = .ok assignments) (key : Key) :
    lastValue? assignments key = layer.onTop? key := by
  cases layer with
  | file text => cases h; rfl
  | optionalFile text => cases h; rfl
  | assign name value =>
      simp only [Layer.assignments] at h
      split at h
      · next path hpath =>
          cases h
          rw [lastValue?_singleton, Layer.onTop?, hpath]
          simp only [Option.some.injEq, eq_comm]
      · cases h
  | kinds letters =>
      simp only [Layer.assignments] at h
      split at h
      · next wanted hwanted =>
          cases h
          cases key with
          | kind owner =>
              rw [Layer.onTop?, ← KindSet.contains_of_ofLetters hwanted]
              cases owner <;> rfl
          | _ => rfl
      · cases h

/-- What is assigned on top of files is what the topmost layer says. -/
theorem lastValue?_flatten {layers : List Layer} {assignments : List (List (Path × Value))}
    (h : layers.mapM Layer.assignments = .ok assignments) (key : Key) :
    lastValue? assignments.flatten key = layers.reverse.findSome? (·.onTop? key) := by
  induction layers generalizing assignments with
  | nil =>
      cases h
      rfl
  | cons layer layers ih =>
      rw [List.mapM_cons, bind_eq_ok_iff] at h
      obtain ⟨first, hfirst, h⟩ := h
      obtain ⟨rest, hrest, h⟩ := bind_eq_ok_iff.mp h
      cases h
      rw [List.flatten_cons, lastValue?_append, ih hrest, lastValue?_assignments hfirst,
        List.reverse_cons, List.findSome?_append, List.findSome?_singleton]

/-- A file that is laid over what is below is well formed. -/
theorem mergeFile_text {text : String} {root merged : Value}
    (h : (Layer.file (some text)).mergeFile root = .ok merged) :
    merged = mergeFile root ((Toml.parse? text).getD []) := by
  rw [Layer.mergeFile] at h
  split at h
  · next fields hfields =>
      cases h
      rw [hfields, Option.getD_some]
  · cases h

theorem mergeFile_eq_ok {layer : Layer} {root merged : Value}
    (h : layer.mergeFile root = .ok merged) : merged = mergeFile root layer.fields := by
  cases layer with
  | file text =>
      cases text with
      | none => cases h
      | some text => exact mergeFile_text h
  | optionalFile text =>
      cases text with
      | none =>
          cases h
          rfl
      | some text => exact mergeFile_text h
  | assign name value =>
      cases h
      rfl
  | kinds letters =>
      cases h
      rfl

/-- Of the files the topmost one with a key counts. -/
theorem valueAt_foldlM {layers : List Layer}
    (hfiles : ∀ layer ∈ layers, ∀ field ∈ layer.fields, SetsKeys field) {root merged : Value}
    (h : layers.foldlM Layer.mergeFile root = .ok merged) (key : Key) :
    valueAt merged key = (layers.reverse.findSome? (·.inFile? key)).or (valueAt root key) := by
  induction layers generalizing root with
  | nil =>
      cases h
      rfl
  | cons layer layers ih =>
      obtain ⟨hfirst, hrest⟩ := List.forall_mem_cons.mp hfiles
      obtain ⟨above, habove, h⟩ := bind_eq_ok_iff.mp (List.foldlM_cons.symm.trans h)
      rw [ih hrest h, mergeFile_eq_ok habove, valueAt_mergeFile hfirst, List.reverse_cons,
        List.findSome?_append, List.findSome?_singleton, Option.or_assoc]
      rfl

/-! ## Layers -/

section Layers

variable {layers : List Layer} {settings : Settings}

/-- What settings are read from: the files over the defaults, and options on top. -/
theorem exists_root (hassigns : ∀ layer ∈ layers, layer.AssignsKeys)
    (h : ofLayers layers = .ok settings) :
    ∃ merged root, layers.foldlM Layer.mergeFile defaults = .ok merged ∧
      ofFields (fieldsOf root) = .ok settings ∧
      ∀ key, valueAt root key =
        (layers.reverse.findSome? (·.onTop? key)).or (valueAt merged key) := by
  obtain ⟨assignments, hassignments, h⟩ := bind_eq_ok_iff.mp h
  obtain ⟨merged, hmerged, h⟩ := bind_eq_ok_iff.mp h
  refine ⟨merged, assignAll merged assignments.flatten, hmerged, h, fun key => ?_⟩
  rw [← lastValue?_flatten hassignments]
  refine valueAt_assignAll (fun assignment hmem => ?_) merged key
  obtain ⟨part, hpart, hassignment⟩ := List.mem_flatten.mp hmem
  obtain ⟨layer, hlayer, hlayers⟩ := ((mapM_eq_ok hassignments).2 part).mp hpart
  exact hassigns layer hlayer part hlayers assignment hassignment

/-- **What is set on top of all files is what holds**, whatever the files say. -/
theorem holds_of_onTop (hassigns : ∀ layer ∈ layers, layer.AssignsKeys)
    (h : ofLayers layers = .ok settings) {key : Key} {value : Value}
    (hvalue : layers.reverse.findSome? (·.onTop? key) = some value) : key.Holds settings value := by
  obtain ⟨merged, root, -, hread, hroot⟩ := exists_root hassigns h
  refine holds_of_ofFields hread ?_
  rw [hroot, hvalue, Option.some_or]

/-- **Each key holds the value that the topmost layer gives it.** -/
theorem holds_of_ofLayers (hassigns : ∀ layer ∈ layers, layer.AssignsKeys)
    (hfiles : ∀ layer ∈ layers, ∀ field ∈ layer.fields, SetsKeys field)
    (h : ofLayers layers = .ok settings) (key : Key) :
    key.Holds settings (layeredValue layers key) := by
  obtain ⟨merged, root, hmerged, hread, hroot⟩ := exists_root hassigns h
  refine holds_of_ofFields hread ?_
  rw [hroot, valueAt_foldlM hfiles hmerged, valueAt_defaults, ← Option.or_assoc,
    Option.or_some, layeredValue]

end Layers

/-- **No layer changes a key that it does not mention.** -/
theorem agrees_of_silent {before after : List Layer} {layer : Layer} {key : Key}
    (hassigns : ∀ part ∈ before ++ layer :: after, part.AssignsKeys)
    (hfiles : ∀ part ∈ before ++ layer :: after, ∀ field ∈ part.fields, SetsKeys field)
    (hinFile : layer.inFile? key = none) (honTop : layer.onTop? key = none)
    {settings without : Settings} (h : ofLayers (before ++ layer :: after) = .ok settings)
    (hwithout : ofLayers (before ++ after) = .ok without) : key.Agrees settings without := by
  have hsame :
      layeredValue (before ++ layer :: after) key = layeredValue (before ++ after) key := by
    simp [layeredValue, List.findSome?_append, hinFile, honTop]
  have hless : ∀ part ∈ before ++ after, part ∈ before ++ layer :: after := by
    intro part
    simp only [List.mem_append, List.mem_cons]
    exact Or.imp_right .inr
  refine Key.agrees_of_holds (holds_of_ofLayers hassigns hfiles h key) (hsame ▸ ?_)
  exact holds_of_ofLayers (fun part hpart => hassigns part (hless part hpart))
    (fun part hpart => hfiles part (hless part hpart)) hwithout key

end Settings

namespace Command

open Settings

/-! ## Requests -/

/-- The fields of the settings file at a path; a file that is not there has none. -/
def settingsFields (read : Reading) (path : String) : List (String × Toml.Value) :=
  ((settingsText? read path).bind Toml.parse?).getD []

/-- What the settings file at a path sets a key to. -/
def fileValue? (read : Reading) (key : Key) (path : String) : Option Toml.Value :=
  lastValue? (assignmentsOf (settingsFields read path)) key

/-- What the options of a request set a key to. -/
def Request.optionValue? (request : Request) : Key → Option Toml.Value
  | .localBindings => if request.localBindings then some (.boolean true) else none
  | .maxDepth => request.maxDepth.map fun (depth : Nat) => .integer depth
  | .fileModule => if request.noFileModule then some (.boolean false) else none
  | .kind owner => request.kinds.map fun letters => .boolean (owner.letter ∈ letters.toList)
  | .format => request.format.map fun format => .text format.name
  | .sort => if request.noSort then some (.boolean false) else none
  | .header => if request.noHeader then some (.boolean false) else none

/-- The value of a key: that of an option, else that of the file that was asked for,
else that of the file of the project, else the default. -/
def Request.valueOf (request : Request) (read : Reading) (key : Key) : Toml.Value :=
  ((request.optionValue? key).or ((request.configuration.bind (fileValue? read key)).or
    (fileValue? read key projectFile))).getD key.default

section

variable (request : Request) (read : Reading)

/-- The keys of the options are what their paths say. -/
theorem path?_options :
    path? "output.format" = some Key.format.path ∧
    path? "extraction.export_local_info" = some Key.localBindings.path ∧
    path? "extraction.file_module" = some Key.fileModule.path ∧
    path? "output.sort" = some Key.sort.path ∧ path? "output.header" = some Key.header.path ∧
    path? "extraction.max_scope_depth" = some Key.maxDepth.path := by
  refine ⟨?_, ?_, ?_, ?_, ?_, ?_⟩ <;> cbv

theorem findSome?_toList_map {α β γ : Type} (found : β → Option γ) (item : α → β)
    (given : Option α) :
    (given.map item).toList.reverse.findSome? found = given.bind fun a => found (item a) := by
  cases given <;> simp

theorem findSome?_ite {β γ : Type} (found : β → Option γ) (given : Bool) (item : β) :
    (if given then [item] else []).reverse.findSome? found =
      if given then found item else none := by
  cases given <;> simp

theorem findSome?_onTop (key : Key) :
    (request.layers read).reverse.findSome? (·.onTop? key) = request.optionValue? key := by
  obtain ⟨hformat, hlocal, hmodule, hsort, hheader, hdepth⟩ := path?_options
  simp only [Request.layers, List.reverse_append, List.findSome?_append, findSome?_toList_map,
    findSome?_ite, List.reverse_singleton, List.findSome?_singleton, Layer.onTop?, hformat,
    hlocal, hmodule, hsort, hheader, hdepth, Option.some.injEq, Key.path_inj]
  cases key <;> simp [Request.optionValue?, Option.map_eq_bind]

theorem findSome?_inFile (key : Key) :
    (request.layers read).reverse.findSome? (·.inFile? key) =
      (request.configuration.bind (fileValue? read key)).or (fileValue? read key projectFile) := by
  have hsilent : lastValue? (assignmentsOf []) key = none := rfl
  simp only [Request.layers, List.reverse_append, List.findSome?_append, findSome?_toList_map,
    findSome?_ite, List.reverse_singleton, List.findSome?_singleton, Layer.inFile?, Layer.fields,
    hsilent, Option.bind_fun_none, ite_self, Option.none_or]
  rfl

/-- Every layer of a request is a file or an option, and options set keys. -/
theorem mem_layers {layer : Layer} (h : layer ∈ request.layers read) :
    layer = .optionalFile (settingsText? read projectFile) ∨
    (∃ path ∈ request.configuration, layer = .file (settingsText? read path)) ∨
    (∃ name value, ∃ key : Key, layer = .assign name value ∧ path? name = some key.path ∧
      isPlain value = true) ∨
    ∃ letters, request.kinds = some letters ∧ layer = .kinds letters := by
  obtain ⟨hformat, hlocal, hmodule, hsort, hheader, hdepth⟩ := path?_options
  simp only [Request.layers, List.mem_append, List.mem_singleton, Option.mem_toList,
    Option.map_eq_some_iff, List.mem_ite_nil_right] at h
  rcases h with (((((((h | ⟨path, hpath, rfl⟩) | ⟨format, -, rfl⟩) | ⟨-, h⟩) | ⟨-, h⟩) | ⟨-, h⟩) |
    ⟨-, h⟩) | ⟨depth, -, rfl⟩) | ⟨letters, hletters, rfl⟩
  · exact .inl h
  · exact .inr (.inl ⟨path, hpath, rfl⟩)
  · exact .inr (.inr (.inl ⟨_, _, _, rfl, hformat, rfl⟩))
  · exact .inr (.inr (.inl ⟨_, _, _, h, hlocal, rfl⟩))
  · exact .inr (.inr (.inl ⟨_, _, _, h, hmodule, rfl⟩))
  · exact .inr (.inr (.inl ⟨_, _, _, h, hsort, rfl⟩))
  · exact .inr (.inr (.inl ⟨_, _, _, h, hheader, rfl⟩))
  · exact .inr (.inr (.inl ⟨_, _, _, rfl, hdepth, rfl⟩))
  · exact .inr (.inr (.inr ⟨letters, hletters, rfl⟩))

theorem assignsKeys_of_mem_layers : ∀ layer ∈ request.layers read, layer.AssignsKeys := by
  intro layer hlayer assignments hassignments
  rcases mem_layers request read hlayer with
    rfl | ⟨path, -, rfl⟩ | ⟨name, value, key, rfl, hname, hplain⟩ | ⟨letters, -, rfl⟩
  · cases hassignments
    exact List.forall_mem_nil _
  · cases hassignments
    exact List.forall_mem_nil _
  · simp only [Layer.assignments, hname, Except.ok.injEq] at hassignments
    subst hassignments
    exact List.forall_mem_singleton.mpr ⟨⟨key, rfl⟩, hplain⟩
  · simp only [Layer.assignments] at hassignments
    split at hassignments
    · cases hassignments
      exact List.forall_mem_map.mpr fun kind _ => ⟨⟨.kind kind, rfl⟩, rfl⟩
    · cases hassignments

theorem setsKeys_of_mem_layers
    (hproject : ∀ field ∈ settingsFields read projectFile, SetsKeys field)
    (hasked : ∀ path ∈ request.configuration, ∀ field ∈ settingsFields read path, SetsKeys field) :
    ∀ layer ∈ request.layers read, ∀ field ∈ layer.fields, SetsKeys field := by
  intro layer hlayer
  rcases mem_layers request read hlayer with
    rfl | ⟨path, hpath, rfl⟩ | ⟨name, value, key, rfl, -⟩ | ⟨letters, -, rfl⟩
  · exact hproject
  · exact hasked path hpath
  · exact List.forall_mem_nil _
  · exact List.forall_mem_nil _

/-- A letter that no kind has is found before any file is looked at. -/
theorem settings_eq_error {letters : String} {before after : List Char} {unknown : Char}
    (hkinds : request.kinds = some letters) (hletters : letters.toList = before ++ unknown :: after)
    (hbefore : ∀ letter ∈ before, ∃ kind : Kind, kind.letter = letter)
    (hunknown : ∀ kind : Kind, kind.letter ≠ unknown) :
    request.settings read = .error (.unknownKind unknown) := by
  have hlayers : request.layers read =
      { request with kinds := none }.layers read ++ [.kinds letters] := by
    simp [Request.layers, hkinds]
  obtain ⟨assignments, hrest⟩ : ∃ assignments,
      ({ request with kinds := none }.layers read).mapM Layer.assignments = .ok assignments := by
    refine exists_mapM_eq_ok fun layer hlayer => ?_
    rcases mem_layers _ read hlayer with
      rfl | ⟨path, -, rfl⟩ | ⟨name, value, key, rfl, hname, -⟩ | ⟨letters, hnone, rfl⟩
    · exact ⟨_, rfl⟩
    · exact ⟨_, rfl⟩
    · exact ⟨_, by rw [Layer.assignments, hname]⟩
    · cases hnone
  have hlast : (Layer.kinds letters).assignments = .error (.unknownKind unknown) := by
    rw [Layer.assignments, hletters, KindSet.ofLetters_eq_error hbefore hunknown]
  rw [Request.settings, ofLayers, hlayers, List.mapM_append, hrest, List.mapM_cons, hlast]
  rfl

end

/-- Truth values, numbers and names of formats mean themselves. -/
theorem means_itself :
    (∀ b, switchOf (.boolean b) = .ok b) ∧ (∀ n : Nat, depthOf (.integer n) = .ok n) ∧
      ∀ format : Format, formatOf (.text format.name) = .ok format := by
  refine ⟨fun _ => rfl, fun n => ?_, fun format => ?_⟩
  · rw [depthOf, if_pos (Int.natCast_nonneg n), Int.toNat_natCast]
  · cases format <;> decide +kernel

/-- **Settings are layered.**  Values that are written in the way of the defaults mean
themselves.  In settings that come out of a request

* what an option says holds, whatever the files say, and with letters of kinds exactly the
  kinds with these letters are wanted;
* if the files do nothing but set keys, each key holds the value of the topmost layer that
  has it: an option, the file that was asked for, the file of the project or the defaults;
* and a layer that does not mention a key changes nothing there.

If one of the letters belongs to no kind, no settings come out, and the first such letter
is named. -/
theorem Request.settings_layered (request : Request) (read : Reading) :
    ((∀ b, switchOf (.boolean b) = .ok b) ∧ (∀ n : Nat, depthOf (.integer n) = .ok n) ∧
      ∀ format : Format, formatOf (.text format.name) = .ok format) ∧
    (∀ settings, request.settings read = .ok settings →
      (∀ key value, request.optionValue? key = some value → key.Holds settings value) ∧
      (∀ letters, request.kinds = some letters → ∀ kind : Kind,
        settings.options.kinds.contains kind = true ↔ kind.letter ∈ letters.toList) ∧
      ((∀ field ∈ settingsFields read projectFile, SetsKeys field) →
        (∀ path ∈ request.configuration, ∀ field ∈ settingsFields read path, SetsKeys field) →
        (∀ key : Key, key.Holds settings (request.valueOf read key)) ∧
        ∀ before layer after, request.layers read = before ++ layer :: after →
          ∀ without, ofLayers (before ++ after) = .ok without → ∀ key,
            layer.inFile? key = none → layer.onTop? key = none → key.Agrees settings without)) ∧
    ∀ letters before unknown after, request.kinds = some letters →
      letters.toList = before ++ unknown :: after →
      (∀ letter ∈ before, ∃ kind : Kind, kind.letter = letter) →
      (∀ kind : Kind, kind.letter ≠ unknown) →
      request.settings read = .error (.unknownKind unknown) := by
  refine ⟨means_itself, fun settings h => ?_, fun _ _ _ _ => settings_eq_error request read⟩
  have hassigns := assignsKeys_of_mem_layers request read
  have hoption : ∀ key value, request.optionValue? key = some value → key.Holds settings value := by
    intro key value hvalue
    exact holds_of_onTop hassigns h ((findSome?_onTop request read key).trans hvalue)
  refine ⟨hoption, fun letters hletters kind => ?_, fun hproject hasked => ?_⟩
  · have hkind := hoption (.kind kind) (.boolean (kind.letter ∈ letters.toList))
      (by rw [optionValue?, hletters, Option.map_some])
    have hswitch : decide (kind.letter ∈ letters.toList) = settings.kinds.contains kind :=
      Except.ok.inj hkind
    rw [Settings.options, ← hswitch, decide_eq_true_iff]
  · have hfiles := setsKeys_of_mem_layers request read hproject hasked
    constructor
    · intro key
      have hkey := holds_of_ofLayers hassigns hfiles h key
      rwa [layeredValue, findSome?_onTop, findSome?_inFile] at hkey
    · intro before layer after hlayers without hwithout key hinFile honTop
      rw [Request.settings, hlayers] at h
      rw [hlayers] at hassigns hfiles
      exact agrees_of_silent hassigns hfiles hinFile honTop h hwithout

/-- The sorting is chosen by the file that was asked for, the format by the file of the
project and the header by an option. -/
theorem Request.settings_layered_three :
    let read : Reading := fun path =>
      if path = "camltags.toml" then
        .ok (Utf8.encode "[output]\nsort = false\nformat = 'xref'\n")
      else if path = "own.toml" then .ok (Utf8.encode "[output]\nsort = true\n")
      else .error .notFound
    let request : Request := { configuration := some "own.toml", noHeader := true }
    let settings : Settings := ⟨false, 256, true, .ofList Kind.all, .xref, true, false⟩
    request.settings read = .ok settings ∧
      ∀ key : Key, key.Holds settings (request.valueOf read key) := by
  intro read request settings
  have hproject : settingsText? read projectFile =
      some "[output]\nsort = false\nformat = 'xref'\n" := by
    cbv
  have hown : settingsText? read "own.toml" = some "[output]\nsort = true\n" := by
    cbv
  have hsettings : request.settings read = .ok settings := by
    simp only [request, settings, Request.settings, Request.layers, hproject, hown, Option.map_some]
    cbv
  have hprojectFields : settingsFields read projectFile =
      [("output", .table [("sort", .boolean false), ("format", .text "xref")])] := by
    rw [settingsFields, hproject]
    cbv
  have hownFields : settingsFields read "own.toml" =
      [("output", .table [("sort", .boolean true)])] := by
    rw [settingsFields, hown]
    cbv
  have houtput : pathOf "output" = [.field "output"] := by
    cbv
  have hsort : Key.sort.name = lowerCase "sort" := by decide
  have hformat : Key.format.name = lowerCase "format" := by decide
  refine ⟨hsettings, ((settings_layered request read).2.1 settings hsettings).2.2 ?_ ?_ |>.1⟩
  · rw [hprojectFields]
    refine List.forall_mem_singleton.mpr (setsKeys_section houtput ?_)
    exact List.forall_mem_cons.mpr ⟨⟨rfl, .sort, rfl, hsort⟩,
      List.forall_mem_singleton.mpr ⟨rfl, .format, rfl, hformat⟩⟩
  · rintro _ ⟨⟩
    rw [hownFields]
    refine List.forall_mem_singleton.mpr (setsKeys_section houtput ?_)
    exact List.forall_mem_singleton.mpr ⟨rfl, .sort, rfl, hsort⟩

end Command

end CamlIndex
