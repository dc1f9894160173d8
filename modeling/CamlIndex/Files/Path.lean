import CamlIndex.Text.Utf8

/-!
# Paths

A path is a sequence of names between slashes.  Empty names and single dots
lead nowhere and do not count.

The file that a path leads to defines a module: its name without the last dot
and what follows it, and with a capital at the front.
-/

namespace CamlIndex.Path

/-- The byte of a slash. -/
def slash : UInt8 := 0x2F

/-- The byte of a dot. -/
def dot : UInt8 := 0x2E

/-- The pieces of a path between its slashes. -/
def pieces : List UInt8 → List (List UInt8)
  | [] => [[]]
  | b :: bs =>
    if b = slash then [] :: pieces bs
    else match pieces bs with
      | [] => [[b]]
      | piece :: rest => (b :: piece) :: rest

/-- Whether a piece of a path leads anywhere. -/
def counts (piece : List UInt8) : Bool :=
  piece != [] && piece != [dot]

/-- The names in a path. -/
def names (path : List UInt8) : List (List UInt8) :=
  (pieces path).filter counts

/-- The name of the file that a path leads to.  A path that is empty, or ends
upwards, has none. -/
def fileName? (path : List UInt8) : Option (List UInt8) :=
  (names path).getLast?.filter (· != [dot, dot])

/-- A file name without its last dot and what follows.  A dot in front does not count. -/
def stem (name : List UInt8) : List UInt8 :=
  let before := (name.reverse.dropWhile (· != dot)).drop 1
  if before.isEmpty then name else before.reverse

/-- A text with a capital at the front, if it starts with a letter of ASCII. -/
def capitalize (s : String) : String :=
  match s.toList with
  | [] => ""
  | c :: cs => String.ofList (c.toUpper :: cs)

/-- The module that the file at a path defines.  A stem that is not UTF-8 names none. -/
def moduleName? (path : List UInt8) : Option String := do
  let name ← fileName? path
  let text ← Utf8.decodeStrict? (stem name)
  if text.isEmpty then none else some (capitalize text)

/-- A reversed path without the slashes and single dots that it starts with. -/
def dropLeading : List UInt8 → List UInt8
  | [] => []
  | [b] => if b = slash then [] else [b]
  | b :: c :: rest =>
    if b = slash then dropLeading (c :: rest)
    else if b = dot ∧ c = slash then dropLeading rest
    else b :: c :: rest

/-- A path without the slashes and single dots at its end. -/
def dropTrailing (path : List UInt8) : List UInt8 :=
  (dropLeading path.reverse).reverse

/-- A path with an extension added to its file name. -/
def addExtension? (extension path : String) : Option String := do
  let bytes := Utf8.encode path
  let _ ← fileName? bytes
  some (Utf8.decodeLossy (dropTrailing bytes) ++ "." ++ extension)

end CamlIndex.Path
