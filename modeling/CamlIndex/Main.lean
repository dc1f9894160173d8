import CamlIndex.Command.Run

/-!
# The program

Reads the files that a call names, runs it on their contents and does what the
outcome says.
-/

namespace CamlIndex.Command

/-- A failure of the system. -/
def failureOf : IO.Error → FileFailure
  | .noFileOrDirectory _ _ _ => .notFound
  | .inappropriateType _ 20 _ => .notADirectory
  | .inappropriateType _ 21 _ => .isADirectory
  | error => .other (toString error)

/-- The contents of the files at some paths, by path. -/
def readAll (paths : List String) : IO (List (String × Except FileFailure (List UInt8))) :=
  paths.mapM fun (path : String) => do
    match ← (IO.FS.readBinFile path).toBaseIO with
    | .ok bytes => return (path, .ok bytes.toList)
    | .error error => return (path, .error (failureOf error))

/-- Writes a text to the file at a path. -/
def writeTo (path text : String) : IO (Except FileFailure Unit) := do
  match ← (IO.FS.writeFile path text).toBaseIO with
  | .ok _ => return .ok ()
  | .error error => return .error (failureOf error)

/-- Runs the program on the files of the system and gives its exit code. -/
def perform (arguments : List String) : IO UInt32 := do
  let call := Call.ofArguments arguments
  let files ← match call with
    | .run request => readAll request.readPaths
    | _ => pure []
  let outcome := call.execute fun path => (files.lookup path).getD (.error .notFound)
  let written ← match outcome with
    | .writes path listing _ => writeTo path listing
    | .finished _ => pure (.ok ())
  let report := outcome.report written
  (← IO.getStdout).putStr report.stdout
  (← IO.getStderr).putStr report.stderr
  return report.exitCode.toUInt32

end CamlIndex.Command

def main (arguments : List String) : IO UInt32 :=
  CamlIndex.Command.perform arguments
