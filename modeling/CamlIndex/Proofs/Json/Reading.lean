import CamlIndex.Toml.Text

/-!
# Reading JSON

A text of JSON is a value with blanks around it.  Everything of JSON can be read: truth
values and null, numbers with fractions and exponents, strings with all their escapes,
arrays and objects with blanks wherever they may stand.  Numbers are read for what they
are worth, so that `1.0` is the same as `1`.  The members of an object keep their order,
and a name may occur more than once.

`Json.parse?` gives the value of a text, or nothing if the text is no JSON.
-/

namespace CamlIndex

/-- A value of JSON. -/
inductive Json where
  | null
  | boolean (b : Bool)
  | number (value : Rat)
  | text (s : String)
  | array (items : List Json)
  | object (members : List (String × Json))
  deriving Repr

namespace Json

open Toml (Reader hexValue? prepend)

/-- A blank between the parts of a text. -/
def isSpacing (c : Char) : Bool :=
  c ∈ [' ', '\t', '\n', '\r']

/-- The text after its blanks. -/
def skipBlanks (cs : List Char) : List Char :=
  cs.dropWhile isSpacing

/-! ## Strings -/

/-- The number that four hexadecimal digits write. -/
def codeUnit? (a b c d : Char) : Option Nat := do
  return (((← hexValue? a) * 16 + (← hexValue? b)) * 16 + (← hexValue? c)) * 16 + (← hexValue? d)

/-- The character of a code unit that stands for itself. -/
def ofUnit? (unit : Nat) : Option Char :=
  if unit.isValidChar then some (Char.ofNat unit) else none

/-- The character of two code units, the first half of a pair and the second. -/
def ofUnits? (high low : Nat) : Option Char :=
  if 0xD800 ≤ high ∧ high < 0xDC00 ∧ 0xDC00 ≤ low ∧ low < 0xE000 then
    some (Char.ofNat (0x10000 + (high - 0xD800) * 0x400 + (low - 0xDC00)))
  else none

/-- The character that a letter stands for after a backslash. -/
def escaped? : Char → Option Char
  | '"' => some '"'
  | '\\' => some '\\'
  | '/' => some '/'
  | 'b' => some '\x08'
  | 'f' => some '\x0c'
  | 'n' => some '\n'
  | 'r' => some '\r'
  | 't' => some '\t'
  | _ => none

/-- Reads a string, without its opening quote. -/
def string? : Reader (List Char)
  | [] => none
  | '"' :: cs => some ([], cs)
  | '\\' :: 'u' :: a :: b :: c :: d :: cs =>
    match (codeUnit? a b c d).bind ofUnit?, cs with
    | some character, cs => prepend character (string? cs)
    | none, '\\' :: 'u' :: e :: f :: g :: h :: cs =>
      match codeUnit? a b c d, codeUnit? e f g h with
      | some high, some low =>
        (ofUnits? high low).bind fun character => prepend character (string? cs)
      | _, _ => none
    | none, _ => none
  | '\\' :: c :: cs => (escaped? c).bind fun character => prepend character (string? cs)
  | c :: cs => if c = '\\' ∨ c.toNat < 0x20 then none else prepend c (string? cs)

/-! ## Numbers -/

/-- Reads decimal digits, of which there has to be one. -/
def digits? : Reader (List Char) := fun cs =>
  match cs.takeWhile Char.isDigit with
  | [] => none
  | d :: ds => some (d :: ds, cs.dropWhile Char.isDigit)

/-- Reads the whole part of a number, which starts with a zero only if it is zero. -/
def whole? : Reader (List Char)
  | '0' :: cs => some (['0'], cs)
  | cs => digits? cs

/-- Reads the fraction of a number, if one comes. -/
def fraction? : Reader (List Char)
  | '.' :: cs => digits? cs
  | cs => some ([], cs)

/-- Reads the exponent of a number, if one comes. -/
def exponent? : Reader Int
  | c :: cs =>
    if c = 'e' ∨ c = 'E' then do
      let (negative, cs) := match cs with
        | '-' :: cs => (true, cs)
        | '+' :: cs => (false, cs)
        | cs => (false, cs)
      let (ds, cs) ← digits? cs
      let n : Int := Nat.ofDigitChars 10 ds 0
      some (if negative then -n else n, cs)
    else some (0, c :: cs)
  | [] => some (0, [])

/-- Reads a number without its sign. -/
def magnitude? : Reader Rat := fun cs => do
  let (whole, cs) ← whole? cs
  let (places, cs) ← fraction? cs
  let (exponent, cs) ← exponent? cs
  some (Nat.ofDigitChars 10 (whole ++ places) 0 * 10 ^ (exponent - places.length), cs)

/-- Reads a number. -/
def number? : Reader Rat
  | '-' :: cs => (magnitude? cs).map fun (value, rest) => (-value, rest)
  | cs => magnitude? cs

/-! ## Values -/

/-- Reads the elements of an array or an object up to its closing mark, after at least
one element.  There are no more of them than characters. -/
def elements? {α : Type} (close : Char) (element : Reader α) : (fuel : Nat) → Reader (List α)
  | 0, _ => none
  | fuel + 1, cs => do
    let (first, rest) ← element cs
    match skipBlanks rest with
    | [] => none
    | c :: rest =>
      if c = close then some ([first], rest)
      else if c = ',' then do
        let (more, rest) ← elements? close element fuel rest
        some (first :: more, rest)
      else none

/-- Reads a member of an object: its name, a colon and its value. -/
def member? (value : Reader Json) : Reader (String × Json) := fun cs =>
  match skipBlanks cs with
  | '"' :: cs => do
    let (name, rest) ← string? cs
    match skipBlanks rest with
    | ':' :: rest => (value rest).map fun (item, rest) => ((String.ofList name, item), rest)
    | _ => none
  | _ => none

/-- Reads an array or an object, without its opening mark. -/
def sequence? {α : Type} (close : Char) (element : Reader α) : Reader (List α) := fun cs =>
  match skipBlanks cs with
  | [] => none
  | c :: rest =>
    if c = close then some ([], rest)
    else elements? close element (cs.length + 1) (c :: rest)

/-- Reads a value in which others may be nested `depth` deep. -/
def value? : (depth : Nat) → Reader Json
  | 0, _ => none
  | depth + 1, cs =>
    match skipBlanks cs with
    | 'n' :: 'u' :: 'l' :: 'l' :: cs => some (.null, cs)
    | 't' :: 'r' :: 'u' :: 'e' :: cs => some (.boolean true, cs)
    | 'f' :: 'a' :: 'l' :: 's' :: 'e' :: cs => some (.boolean false, cs)
    | '"' :: cs => (string? cs).map fun (s, rest) => (.text (String.ofList s), rest)
    | '[' :: cs => (sequence? ']' (value? depth) cs).map fun (items, rest) => (.array items, rest)
    | '{' :: cs =>
      (sequence? '}' (member? (value? depth)) cs).map fun (members, rest) => (.object members, rest)
    | cs => (number? cs).map fun (value, rest) => (.number value, rest)

/-- The value of a text of JSON.  No text nests deeper than it is long. -/
def parse? (text : String) : Option Json := do
  let (value, rest) ← value? (text.length + 1) text.toList
  if (skipBlanks rest).isEmpty then some value else none

-- Blanks may stand anywhere, and a character has many spellings.
example : parse? " [ \"\\u00e9\\/\\n\\ud83d\\ude00\" ,true, [ ],null]\n" =
    some (.array [.text "é/\n😀", .boolean true, .array [], .null]) := by
  rfl

end Json

end CamlIndex
