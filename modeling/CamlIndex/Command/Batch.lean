import CamlIndex.Document
import CamlIndex.Listing.Entry

/-!
# Tagging many files

Every file is read and tagged on its own.  A file that cannot be read is a
failure of its own and keeps no other file from being tagged.
-/

namespace CamlIndex.Command

/-- What tagging some files has given. -/
structure Batch where
  files : List TaggedFile := []
  /-- The paths that could not be read, with the reason. -/
  failures : List (String × DocumentError) := []
  /-- The diagnostics, each with the path of its file. -/
  diagnostics : List (String × Diagnostic) := []
  deriving DecidableEq, Repr

/-- Two batches as one. -/
def Batch.append (a b : Batch) : Batch :=
  ⟨a.files ++ b.files, a.failures ++ b.failures, a.diagnostics ++ b.diagnostics⟩

instance : Append Batch :=
  ⟨Batch.append⟩

/-- The tags of the file at a path, and its diagnostics. -/
def tagFile (read : String → Except FileFailure (List UInt8)) (options : Options)
    (fileModule : Bool) (path : String) : Except DocumentError (TaggedFile × List Diagnostic) := do
  let document ← Document.load read path
  let extraction ← if fileModule then document.extractFile options else document.extract options
  return (⟨path, document.text, extraction.tags⟩, extraction.diagnostics)

/-- What a single path gives. -/
def tagPath (read : String → Except FileFailure (List UInt8)) (options : Options)
    (fileModule : Bool) (path : String) : Batch :=
  match tagFile read options fileModule path with
  | .ok (file, diagnostics) =>
    { files := [file], diagnostics := diagnostics.map fun diagnostic => (path, diagnostic) }
  | .error error => { failures := [(path, error)] }

/-- What all paths give, in their order. -/
def tagFiles (read : String → Except FileFailure (List UInt8)) (options : Options)
    (fileModule : Bool) (paths : List String) : Batch :=
  paths.foldr (fun path batch => tagPath read options fileModule path ++ batch) {}

end CamlIndex.Command
