import CamlIndex.Datum.Basic

/-!
# Data as JSON

One item of a list and one field of a record to the line, each level two spaces
further in.  Inside a text only what JSON demands is escaped; every other
character stands for itself.
-/

namespace CamlIndex

/-- The digit of a number below sixteen. -/
def hexDigit (n : Nat) : Char :=
  Nat.digitChar n

/-- A character of a text as JSON writes it. -/
def jsonCharacter (c : Char) : List Char :=
  match c with
  | '"' => ['\\', '"']
  | '\\' => ['\\', '\\']
  | '\x08' => ['\\', 'b']
  | '\x0c' => ['\\', 'f']
  | '\n' => ['\\', 'n']
  | '\r' => ['\\', 'r']
  | '\t' => ['\\', 't']
  | c =>
    if c.toNat < 0x20 then
      ['\\', 'u', '0', '0', hexDigit (c.toNat / 16), hexDigit (c.toNat % 16)]
    else [c]

/-- A text between quotes. -/
def jsonText (s : String) : List Char :=
  '"' :: s.toList.flatMap jsonCharacter ++ ['"']

namespace Datum

/-- A new line that is indented by two spaces a level. -/
def jsonLine (level : Nat) : List Char :=
  '\n' :: spaces (2 * level)

mutual

/-- The JSON text of a piece of data that stands `level` levels deep. -/
def writeJson (level : Nat) : Datum → List Char
  | .number n => Nat.toDigits 10 n
  | .text s => jsonText s
  | .list [] => ['[', ']']
  | .list (item :: items) =>
    '[' :: jsonLine (level + 1) ++ item.writeJson (level + 1)
      ++ writeJsonItems (level + 1) items ++ jsonLine level ++ [']']
  | .record [] => ['{', '}']
  | .record ((key, value) :: fields) =>
    '{' :: jsonLine (level + 1) ++ jsonText key ++ [':', ' '] ++ value.writeJson (level + 1)
      ++ writeJsonFields (level + 1) fields ++ jsonLine level ++ ['}']

/-- The items of a list after its first. -/
def writeJsonItems (level : Nat) : List Datum → List Char
  | [] => []
  | item :: items =>
    ',' :: jsonLine level ++ item.writeJson level ++ writeJsonItems level items

/-- The fields of a record after its first. -/
def writeJsonFields (level : Nat) : List (String × Datum) → List Char
  | [] => []
  | (key, value) :: fields =>
    ',' :: jsonLine level ++ jsonText key ++ [':', ' '] ++ value.writeJson level
      ++ writeJsonFields level fields

end

/-- A JSON document, which ends in a newline. -/
def toJson (datum : Datum) : String :=
  String.ofList (datum.writeJson 0 ++ ['\n'])

end Datum

end CamlIndex
