import CamlIndex.Command.Batch
import CamlIndex.Command.Request
import CamlIndex.Settings.Layer
import CamlIndex.Text.Columns

/-!
# Running the program

A run reads the settings, tags the files and writes the listing, to a file or
to the standard output.  It is described without doing any of it: given what
reading each path gives, `execute` tells what is printed and what is to be
written, and `Outcome.report` what is printed once that has been tried.

The exit code is one if a file could not be read, if there are no settings or if
the listing could not be written.  Diagnostics do not count.
-/

namespace CamlIndex.Command

/-- What reading the file at a path gives. -/
abbrev Reading := String → Except FileFailure (List UInt8)

/-- What a run leaves behind on its channels. -/
structure Report where
  exitCode : Nat
  stdout : String
  stderr : String
  deriving DecidableEq, Repr

/-- What a run has come to before its listing is written. -/
inductive Outcome where
  | finished (report : Report)
  /-- The listing goes to a file; `report` holds if that works. -/
  | writes (path listing : String) (report : Report)
  deriving DecidableEq, Repr

/-! ## Settings -/

/-- The paths under which a settings file is looked for. -/
def settingsPaths (path : String) : List String :=
  path :: (Path.addExtension? "toml" path).toList

/-- The text of a settings file, if there is one.  The first path with a file
decides; a file that is not UTF-8 has no text. -/
def settingsText? (read : Reading) (path : String) : Option String := do
  let bytes ← (settingsPaths path).findSome? fun candidate => (read candidate).toOption
  Utf8.decodeStrict? bytes

/-- The layers of settings of a request: the file of the project, the file that
was asked for, and the options. -/
def Request.layers (request : Request) (read : Reading) : List Settings.Layer :=
  [.optionalFile (settingsText? read Settings.projectFile)]
    ++ (request.configuration.map fun path => .file (settingsText? read path)).toList
    ++ (request.format.map fun format => .assign "output.format" (.text format.name)).toList
    ++ (if request.localBindings then
        [.assign "extraction.export_local_info" (.boolean true)] else [])
    ++ (if request.noFileModule then [.assign "extraction.file_module" (.boolean false)] else [])
    ++ (if request.noSort then [.assign "output.sort" (.boolean false)] else [])
    ++ (if request.noHeader then [.assign "output.header" (.boolean false)] else [])
    ++ (request.maxDepth.map fun depth =>
        .assign "extraction.max_scope_depth" (.integer depth)).toList
    ++ (request.kinds.map Settings.Layer.kinds).toList

/-- The settings of a request. -/
def Request.settings (request : Request) (read : Reading) : Except Settings.Error Settings :=
  Settings.ofLayers (request.layers read)

/-- The paths that a request reads. -/
def Request.readPaths (request : Request) : List String :=
  settingsPaths Settings.projectFile
    ++ (request.configuration.map settingsPaths).getD [] ++ request.paths

/-! ## Texts -/

/-- The list of kinds, which shows the ones that are wanted. -/
def kindList (kinds : KindSet) : String :=
  String.join <| Kind.all.map fun kind =>
    String.ofList <|
      kind.letter :: ' ' :: ' ' :: padRight 12 kind.name.toList ++ ' '
        :: padRight 4 (if kinds.contains kind then "on" else "off").toList ++ ' '
        :: kind.description.toList ++ ['\n']

/-- What is said about the files of a batch: failures first, then diagnostics. -/
def Batch.messages (batch : Batch) : String :=
  String.join (batch.failures.map fun (path, error) => path ++ ": " ++ error.message ++ "\n")
    ++ String.join (batch.diagnostics.map fun (path, diagnostic) =>
      path ++ ": " ++ diagnostic.display ++ "\n")

/-- How the program is called. -/
def usage : String :=
  "Usage: " ++ Ctags.programName ++ " [OPTIONS] <FILES>...\n"

/-- The name and the version of the program. -/
def versionLine : String :=
  Ctags.programName ++ " " ++ Ctags.programVersion ++ "\n"

/-! ## Runs -/

/-- Runs a request under given settings. -/
def Request.execute (request : Request) (read : Reading) (settings : Settings) : Outcome :=
  if request.listKinds then .finished ⟨0, kindList settings.kinds, ""⟩
  else
    let batch := tagFiles read settings.options settings.fileModule request.paths
    let listing := settings.format.write settings.listing batch.files
    let exitCode := if batch.failures.isEmpty then 0 else 1
    match request.output with
    | none => .finished ⟨exitCode, listing, batch.messages⟩
    | some path => .writes path listing ⟨exitCode, "", batch.messages⟩

/-- What a call of the program comes to. -/
def Call.execute (call : Call) (read : Reading) : Outcome :=
  match call with
  | .version => .finished ⟨0, versionLine, ""⟩
  | .help => .finished ⟨0, usage, ""⟩
  | .misuse => .finished ⟨2, "", usage⟩
  | .run request =>
    match request.settings read with
    | .error error => .finished ⟨1, "", "Configuration error: " ++ error.message ++ "\n"⟩
    | .ok settings => request.execute read settings

/-- The report after writing the listing has been tried. -/
def Outcome.report (outcome : Outcome) (written : Except FileFailure Unit) : Report :=
  match outcome, written with
  | .finished report, _ | .writes _ _ report, .ok () => report
  | .writes _ _ report, .error failure =>
    ⟨1, report.stdout, report.stderr ++ "Error writing output: " ++ failure.message ++ "\n"⟩

/-- Runs the program on the files of a tree. -/
def runIn (tree : Files.Tree) (arguments : List String) : Report × Files.Tree :=
  let outcome := (Call.ofArguments arguments).execute tree.read
  match outcome with
  | .finished report => (report, tree)
  | .writes path listing _ =>
    match tree.write path (Utf8.encode listing) with
    | .ok after => (outcome.report (.ok ()), after)
    | .error failure => (outcome.report (.error failure), tree)

end CamlIndex.Command
