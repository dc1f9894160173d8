import CamlIndex.Settings.Basic
import CamlIndex.Toml.Value

/-!
# Reading settings off a table

A setting may be written in more than one way: a switch also as a number or as
a word, a depth also as a text or a float.  A section of them is a table, or a
list that holds them without their keys.  What cannot be read as the setting it
is given for is an error.
-/

namespace CamlIndex.Settings

open Toml (Value)

/-- Why no settings come out. -/
inductive Error where
  /-- A file is not well formed. -/
  | malformed
  /-- A file that has to be there cannot be read. -/
  | unreadable
  /-- A key that is set is not a path. -/
  | badKey
  /-- A value cannot be read as its setting. -/
  | wrongType
  /-- A section lacks a setting, or holds none at all. -/
  | incompleteSection
  | unknownFormat
  | unknownKind (letter : Char)
  deriving DecidableEq, Repr

/-- The error in words. -/
def Error.message : Error → String
  | .malformed => "a settings file is not well formed"
  | .unreadable => "the settings file cannot be read"
  | .badKey => "a key is not a path"
  | .wrongType => "a value does not fit its key"
  | .incompleteSection => "a section does not hold all of its settings"
  | .unknownFormat => "there is no such format"
  | .unknownKind letter => "unknown kind letter '" ++ String.singleton letter ++ "' in --kinds"

/-- The lower case of a character.  Of the characters outside of ASCII only the
Kelvin sign has a lower case in ASCII, and all keys and words are ASCII. -/
def lowerCharacter (c : Char) : Char :=
  if c = '\u212A' then 'k' else c.toLower

/-- A text in lower case. -/
def lowerCase (s : String) : String :=
  String.ofList (s.toList.map lowerCharacter)

/-- The largest depth that can be asked for. -/
def depthLimit : Nat := UInt64.size - 1

/-- The natural number that a text writes in decimal digits, after an optional plus. -/
def natural? (s : String) : Option Nat :=
  let digits := match s.toList with
    | '+' :: cs => cs
    | cs => cs
  if !digits.isEmpty && digits.all Char.isDigit then
    some (Toml.numberOf 10 digits)
  else none

/-- The words that turn a switch on. -/
def onWords : List String := ["true", "on", "yes"]

/-- The words that turn a switch off. -/
def offWords : List String := ["false", "off", "no"]

/-- A value as a switch. -/
def switchOf : Value → Except Error Bool
  | .boolean b => .ok b
  | .integer n => .ok (n != 0)
  | .float x => .ok (x != 0.0)
  | .text s =>
    let word := lowerCase s
    if word ∈ "1" :: onWords then .ok true
    else if word ∈ "0" :: offWords then .ok false
    else .error .wrongType
  | .list _ | .table _ => .error .wrongType

/-- A value as a depth.  A float is rounded, a half away from zero, and cut to
what a depth can be. -/
def depthOf : Value → Except Error Nat
  | .boolean b => .ok (if b then 1 else 0)
  | .integer n => if 0 ≤ n then .ok n.toNat else .error .wrongType
  | .float x => .ok x.round.toUInt64.toNat
  | .text s =>
    let word := lowerCase s
    if word ∈ onWords then .ok 1
    else if word ∈ offWords then .ok 0
    else match natural? s with
      | some n => if n ≤ depthLimit then .ok n else .error .wrongType
      | none => .error .wrongType
  | .list _ | .table _ => .error .wrongType

/-- A value as a format: its name in any case, or a table whose only key is the name. -/
def formatOf : Value → Except Error Format
  | .text s | .table [(s, _)] =>
    match Format.ofName? (lowerCase s) with
    | some found => .ok found
    | none => .error .unknownFormat
  | _ => .error .unknownFormat

/-- The keys of the section for what is extracted, in their order. -/
def extractionKeys : List String := ["export_local_info", "max_scope_depth", "file_module"]

/-- The keys of the section for the kinds, in their order. -/
def kindKeys : List String := Kind.all.map Kind.settingsKey

/-- The keys of the section for the listing, in their order. -/
def outputKeys : List String := ["format", "sort", "header"]

/-- A section of the settings with the fields for its keys.  The items of a list
stand for the keys in their order; items for which there is no key are ignored. -/
def openSection (fields : List (String × Value)) (name : String) (keys : List String) :
    Except Error (List (String × Value)) :=
  match fields.lookup name with
  | some (.table found) => .ok found
  | some (.list items) => .ok (keys.zip items)
  | _ => .error .incompleteSection

/-- A setting of a section. -/
def setting {α : Type} (read : Value → Except Error α) (fields : List (String × Value))
    (name : String) : Except Error α :=
  match fields.lookup name with
  | some value => read value
  | none => .error .incompleteSection

/-- The kinds whose switches are on. -/
def kindSet (fields : List (String × Value)) : Except Error KindSet := do
  let switches ← Kind.all.mapM fun kind => do
    return (kind, ← setting switchOf fields kind.settingsKey)
  return .ofList ((switches.filter (·.2)).map (·.1))

/-- The settings that a table holds.  Within a section they are read in the order
of its keys. -/
def ofFields (fields : List (String × Value)) : Except Error Settings := do
  let extraction ← openSection fields "extraction" extractionKeys
  let localBindings ← setting switchOf extraction "export_local_info"
  let maxDepth ← setting depthOf extraction "max_scope_depth"
  let fileModule ← setting switchOf extraction "file_module"
  let kinds ← kindSet (← openSection fields "kinds" kindKeys)
  let output ← openSection fields "output" outputKeys
  let format ← setting formatOf output "format"
  let sort ← setting switchOf output "sort"
  let header ← setting switchOf output "header"
  return ⟨localBindings, maxDepth, fileModule, kinds, format, sort, header⟩

end CamlIndex.Settings
