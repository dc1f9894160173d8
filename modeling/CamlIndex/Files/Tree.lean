import CamlIndex.Files.Path

/-!
# Files in a directory

A `Tree` holds the files below a directory by the names that lead to them.  A
directory exists as long as some file lies below it; the directory at the root
always does.  What lies outside of the root is out of reach: directories can be
passed there, but no file is found.

Walking along a path can fail in three ways, which are told apart: a name may be
missing, a file may be used as a directory, and a directory as a file.
-/

namespace CamlIndex

/-- Why a file cannot be read or written. -/
inductive FileFailure where
  | notFound
  | notADirectory
  | isADirectory
  /-- A path may not hold the character with number zero. -/
  | zeroInPath
  /-- Anything else, in the words of the system. -/
  | other (message : String)
  deriving DecidableEq, Repr

/-- A failure in words. -/
def FileFailure.message : FileFailure → String
  | .notFound => "No such file or directory (os error 2)"
  | .notADirectory => "Not a directory (os error 20)"
  | .isADirectory => "Is a directory (os error 21)"
  | .zeroInPath => "file name contained an unexpected NUL byte"
  | .other message => message

namespace Files

/-- A file name, or a directory name on the way to a file. -/
abbrev Name := List UInt8

/-- The files below a directory, each by the names that lead to it. -/
structure Tree where
  files : List (List Name × List UInt8)
  deriving DecidableEq, Repr

/-- Where a walk has come to. -/
inductive Place where
  /-- At a directory below the root. -/
  | directory (names : List Name)
  /-- At a file. -/
  | file (names : List Name)
  /-- In a directory that has no such name. -/
  | missing (names : List Name)
  /-- At a directory outside of the root. -/
  | outside
  deriving DecidableEq, Repr

namespace Tree

/-- The bytes of a file. -/
def contents? (tree : Tree) (names : List Name) : Option (List UInt8) :=
  tree.files.lookup names

/-- Whether there is a directory. -/
def hasDirectory (tree : Tree) (names : List Name) : Bool :=
  names.isEmpty || tree.files.any fun file =>
    names.length < file.1.length && file.1.take names.length == names

/-- What there is under a name. -/
def placeOf (tree : Tree) (names : List Name) : Place :=
  if (tree.contents? names).isSome then .file names
  else if tree.hasDirectory names then .directory names
  else .missing names

/-- One step along a path. -/
def step (tree : Tree) (place : Place) (piece : Name) : Except FileFailure Place :=
  match place with
  | .file _ => .error .notADirectory
  | .missing _ => .error .notFound
  | .outside =>
    if !Path.counts piece || piece = [Path.dot, Path.dot] then .ok .outside else .error .notFound
  | .directory names =>
    if !Path.counts piece then .ok place
    else if piece = [Path.dot, Path.dot] then
      .ok (if names.isEmpty then .outside else .directory names.dropLast)
    else .ok (tree.placeOf (names ++ [piece]))

/-- The place that a path leads to. -/
def walk (tree : Tree) (path : String) : Except FileFailure Place :=
  let bytes := Utf8.encode path
  if bytes.contains 0 then .error .zeroInPath
  else if bytes.isEmpty then .error .notFound
  else
    let start := if bytes.head? = some Path.slash then Place.outside else .directory []
    (Path.pieces bytes).foldlM tree.step start

/-- Reads the file at a path. -/
def read (tree : Tree) (path : String) : Except FileFailure (List UInt8) := do
  match ← tree.walk path with
  | .file names => .ok ((tree.contents? names).getD [])
  | .directory _ | .outside => .error .isADirectory
  | .missing _ => .error .notFound

/-- The tree with other bytes in a file. -/
def put (tree : Tree) (names : List Name) (bytes : List UInt8) : Tree :=
  ⟨(names, bytes) :: tree.files.filter (·.1 != names)⟩

/-- Writes the file at a path, which is made if it is missing.  A slash at the
end of the path asks for a directory. -/
def write (tree : Tree) (path : String) (bytes : List UInt8) : Except FileFailure Tree := do
  let front := (path.toList.reverse.dropWhile (· = '/')).reverse
  let asksDirectory := front ≠ [] ∧ front.length < path.toList.length
  match ← tree.walk (if asksDirectory then String.ofList front else path) with
  | .directory _ | .outside => .error .isADirectory
  | .file names | .missing names =>
    if asksDirectory then .error .isADirectory else .ok (tree.put names bytes)

/-- The tree of files that are given by their paths. -/
def ofPaths (files : List (String × List UInt8)) : Tree :=
  files.foldl (fun tree (path, bytes) => tree.put (Path.names (Utf8.encode path)) bytes) ⟨[]⟩

end Tree

end Files

end CamlIndex
