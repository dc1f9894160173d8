import CamlIndex.Files.Tree
import CamlIndex.Pipeline

/-!
# Documents

A document is a source text that remembers where it came from, because the name
of a file is also the name of the module it defines.  Bytes that are not UTF-8
are replaced when a file is read, so only the file system can refuse one.
-/

namespace CamlIndex

/-- Why nothing could be made of a document. -/
inductive DocumentError where
  | unreadable (failure : FileFailure)
  | failed (error : PipelineError)
  deriving DecidableEq, Repr

/-- The failure in words. -/
def DocumentError.message : DocumentError → String
  | .unreadable failure => "IO error: " ++ failure.message
  | .failed error => "Transform error: " ++ error.message

/-- A source text, and the path of its file if it was read from one. -/
structure Document where
  text : String
  path : Option String
  deriving DecidableEq, Repr

namespace Document

/-- A text that is not in a file. -/
def ofText (text : String) : Document :=
  ⟨text, none⟩

/-- The file at a path. -/
def load (read : String → Except FileFailure (List UInt8)) (path : String) :
    Except DocumentError Document :=
  match read path with
  | .ok bytes => .ok ⟨Utf8.decodeLossy bytes, some path⟩
  | .error failure => .error (.unreadable failure)

/-- The module that the file of a document defines. -/
def moduleName? (document : Document) : Option String :=
  document.path.bind fun path => Path.moduleName? (Utf8.encode path)

/-- Runs a pipeline on the text. -/
def run {α : Type} (document : Document) (pipeline : Pipeline String α) :
    Except DocumentError α :=
  (pipeline.run document.text).mapError .failed

/-- The tags of the text. -/
def extract (document : Document) (options : Options) : Except DocumentError Extraction :=
  if options = {} then document.run .defaultTags else document.run (.tags options)

/-- The tags of the text with a module that its file may define, unless the options
name a module themselves. -/
def extractAs (document : Document) (module? : Option String) (options : Options) :
    Except DocumentError Extraction :=
  match module?, options.fileModule with
  | some name, none => document.extract { options with fileModule := some name }
  | _, _ => document.extract options

/-- The tags of the text with the module that its file defines. -/
def extractFile (document : Document) (options : Options) : Except DocumentError Extraction :=
  document.extractAs document.moduleName? options

end Document

end CamlIndex
