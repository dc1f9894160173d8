import CamlIndex.Settings.Decode
import CamlIndex.Toml.Value

/-!
# Paths to settings

A path leads from the table of all settings to a value inside of it, by the
names of fields and by places in lists: `output.sort`, `words[0].length`,
`words[-1]`.  The first step is a name without a dot before it, so a path is
read as if a dot stood at its front.
-/

namespace CamlIndex.Settings

/-- A step of a path, from a value to a value inside of it. -/
inductive Step where
  /-- To the field of a table. -/
  | field (name : String)
  /-- To a place in a list.  A negative index counts from the end of the list. -/
  | place (index : Int)
  deriving DecidableEq, Repr

/-- The steps to a value, from the outermost to the innermost. -/
abbrev Path := List Step

/-- The place that an index means in a list of a length.  What would lie before
the first place is the first place. -/
def placeOf (index : Int) (length : Nat) : Nat :=
  (if index < 0 then length + index else index).toNat

/-- A character of a name in a path. -/
def isNameCharacter (c : Char) : Bool :=
  c.isAlphanum || c == ' ' || c == '_' || c == '-'

/-- The index that a text writes in decimal digits, after an optional minus and
between blanks.  It has to fit into 64 bits. -/
def index? (cs : List Char) : Option Int :=
  let written := Toml.skipBlanks cs
  let negative := written.head? == some '-'
  let unsigned := if negative then written.tail else written
  let digits := unsigned.takeWhile Char.isDigit
  let magnitude : Int := Toml.numberOf 10 digits
  let index := if negative then -magnitude else magnitude
  if !digits.isEmpty && (Toml.skipBlanks (unsigned.dropWhile Char.isDigit)).isEmpty
      && Int64.minValue.toInt ≤ index && index ≤ Int64.maxValue.toInt then
    some index
  else none

/-- The steps that a text writes: a dot with a name, in lower case, or an index
between brackets. -/
def steps? : List Char → Option Path
  | [] => some []
  | '.' :: cs =>
    let name := cs.takeWhile isNameCharacter
    if name.isEmpty then none
    else (steps? (cs.dropWhile isNameCharacter)).map
      (.field (lowerCase (String.ofList name)) :: ·)
  | '[' :: cs =>
    match index? (cs.takeWhile (· != ']')) with
    | some index =>
      let rest := cs.dropWhile (· != ']')
      if rest.isEmpty then none
      else (steps? rest.tail).map (.place index :: ·)
    | none => none
  | _ :: _ => none
termination_by cs => cs.length
decreasing_by
  · have hrest : (cs.dropWhile isNameCharacter).length ≤ cs.length :=
      (List.dropWhile_suffix isNameCharacter).length_le
    simp only [List.length_cons]
    omega
  · have hrest : (cs.dropWhile (· != ']')).length ≤ cs.length :=
      (List.dropWhile_suffix (· != ']')).length_le
    simp only [List.length_cons, List.length_tail]
    omega

/-- The path that a key is.  What can be in a path is decided by the key as it is
written. -/
def path? (key : String) : Option Path :=
  steps? ('.' :: key.toList)

end CamlIndex.Settings
