import CamlIndex.Toml.Table

/-!
# Documents of TOML

Lists and tables between brackets and braces may be nested up to a limit, and a
dotted key has fewer parts than that limit.  A document is a sequence of lines:
keys with values, headers of tables, comments and empty lines.

`parse?` gives the table that a document describes, or nothing if the document
is not well formed.
-/

namespace CamlIndex.Toml

/-- How deeply values may be nested, and how many parts a key may have. -/
def nestingLimit : Nat := 79

/-! ## Keys -/

/-- A character of a key without quotes. -/
def isBareKey (c : Char) : Bool :=
  c.isAlphanum || c == '_' || c == '-'

/-- Reads one part of a key. -/
def keyPart : Reader String := fun cs =>
  match cs with
  | '"' :: cs => (basicString cs).map fun (s, rest) => (String.ofList s, rest)
  | '\'' :: cs => (literalString cs).map fun (s, rest) => (String.ofList s, rest)
  | cs =>
    let part := cs.takeWhile isBareKey
    if part.isEmpty then none else some (String.ofList part, cs.drop part.length)

/-- Reads a dotted key of at most `parts` parts, and the blanks around them. -/
def dottedKey : (parts : Nat) → Reader (List String)
  | 0, _ => none
  | parts + 1, cs => do
    let (part, rest) ← keyPart (skipBlanks cs)
    match skipBlanks rest with
    | '.' :: rest => do
      let (path, rest) ← dottedKey parts rest
      some (part :: path, rest)
    | rest => some ([part], rest)

/-- Reads a key and splits off its last part. -/
def key : Reader (List String × String) := fun cs => do
  let (path, rest) ← dottedKey nestingLimit cs
  some ((path.dropLast, path.getLast?.getD ""), rest)

/-- Reads a key, the equals sign and a value. -/
def keyValue (value : Reader Value) : Reader ((List String × String) × Value) := fun cs => do
  let (k, rest) ← key cs
  let rest ← expect '=' rest
  let (v, rest) ← value (skipBlanks rest)
  some ((k, v), rest)

/-! ## Nested values -/

/-- Reads the items of a list up to its closing bracket.  There are no more of
them than characters. -/
def listItems (value : Reader Value) : (fuel : Nat) → Reader (List Value)
  | 0, _ => none
  | fuel + 1, cs =>
    match skipLines false cs with
    | ']' :: rest => some ([], rest)
    | cs => do
      let (item, rest) ← value cs
      match skipLines false rest with
      | ',' :: rest => do
        let (items, rest) ← listItems value fuel rest
        some (item :: items, rest)
      | ']' :: rest => some ([item], rest)
      | _ => none

/-- Reads the fields of a table up to its closing brace, after at least one field. -/
def tableFields (value : Reader Value) : (fuel : Nat) → Fields → Reader Fields
  | 0, _, _ => none
  | fuel + 1, fields, cs => do
    let (((path, k), v), rest) ← keyValue value cs
    let fields ← fields.assign path k v
    match skipBlanks rest with
    | ',' :: rest => tableFields value fuel fields rest
    | '}' :: rest => some (fields, rest)
    | _ => none

/-- Reads a value inside of which others may be nested `depth` deep. -/
def value : (depth : Nat) → Reader Value
  | 0, cs => scalar cs
  | depth + 1, '[' :: cs =>
    (listItems (value depth) (cs.length + 1) cs).map fun (items, rest) => (.list items, rest)
  | depth + 1, '{' :: cs =>
    match skipBlanks cs with
    | '}' :: rest => some (.table [], rest)
    | cs => (tableFields (value depth) (cs.length + 1) [] cs).map fun (fields, rest) =>
      (.table (fieldValues fields), rest)
  | _ + 1, cs => scalar cs

/-! ## Documents -/

/-- A document as far as it has been read: its tables, and the header under
which the next key falls. -/
structure Document where
  fields : Fields
  header : List String

/-- Reads one line of a document, which is not empty. -/
def line (document : Document) (cs : List Char) : Option (Document × List Char) :=
  match cs with
  | '#' :: _ => (endOfLine? cs).map (document, ·)
  | '[' :: '[' :: cs => do
    let ((path, k), rest) ← key cs
    let rest ← endOfLine? (← expect ']' (← expect ']' rest))
    some (⟨← document.fields.appendTable path k, path ++ [k]⟩, rest)
  | '[' :: cs => do
    let ((path, k), rest) ← key cs
    let rest ← endOfLine? (← expect ']' rest)
    some (⟨← document.fields.openTable path k, path ++ [k]⟩, rest)
  | cs =>
    match lineBreak? cs with
    | some rest => some (document, rest)
    | none => do
      let (((path, k), v), rest) ← keyValue (value nestingLimit) cs
      let rest ← endOfLine? rest
      let fields ← Fields.modify false (fun _ inner => inner.assign path k v) false
        document.header document.fields
      some ({ document with fields }, rest)

/-- Reads the lines of a document.  There are no more of them than characters. -/
def lines : (fuel : Nat) → Document → List Char → Option Document
  | 0, _, _ => none
  | fuel + 1, document, cs =>
    match skipBlanks cs with
    | [] => some document
    | cs => do
      let (document, rest) ← line document cs
      lines fuel document rest

/-- A text without the mark of its byte order. -/
def dropByteOrderMark : List Char → List Char
  | '\uFEFF' :: cs => cs
  | cs => cs

/-- The fields of the table that a document describes. -/
def parse? (text : String) : Option (List (String × Value)) :=
  let cs := dropByteOrderMark text.toList
  (lines (cs.length + 1) ⟨[], []⟩ cs).map fun document => fieldValues document.fields

end CamlIndex.Toml
