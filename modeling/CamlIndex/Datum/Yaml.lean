import CamlIndex.Datum.Basic
import CamlIndex.Source

/-!
# Data as YAML

Lists and records are written as blocks.  A text is written plainly where a
reader of YAML would take it for that text; otherwise between quotes, and over
several lines as a literal block.  The choice is made in two steps.  First the
wish: a literal block for several lines, quotes for what would be read as
something else than a text (`looksLikeValue`), and else plain.  Then the wish
gives way where the style cannot hold the text: plain to quotes where a plain
text would end early or mean something else, and any style to double quotes
where a character cannot be shown as it is.
-/

namespace CamlIndex.Yaml

/-! ## Texts that read as something else -/

/-- Digits to read a number with a base, and the number, if all are digits of the base. -/
def digitValue? (base : Nat) (c : Char) : Option Nat :=
  let value :=
    if c.isDigit then some (c.toNat - '0'.toNat)
    else if 'a' ≤ c && c ≤ 'z' then some (c.toNat - 'a'.toNat + 10)
    else if 'A' ≤ c && c ≤ 'Z' then some (c.toNat - 'A'.toNat + 10)
    else none
  value.filter (· < base)

/-- The number that digits write in a base; at least one digit. -/
def numeral? (base : Nat) (digits : List Char) : Option Nat :=
  if digits.isEmpty then none
  else (digits.mapM (digitValue? base)).map (·.foldl (fun n d => n * base + d) 0)

/-- Splits a sign off: whether it is a minus, and what follows. -/
def splitSign : List Char → Bool × List Char
  | '-' :: cs => (true, cs)
  | '+' :: cs => (false, cs)
  | cs => (false, cs)

/-- Whether an unsigned text is an integer: digits, or a base mark with digits of the base. -/
def magnitude? : List Char → Option Nat
  | '0' :: 'x' :: cs => numeral? 16 cs
  | '0' :: 'o' :: cs => numeral? 8 cs
  | '0' :: 'b' :: cs => numeral? 2 cs
  | cs => numeral? 10 cs

/-- Whether a text reads as an integer of at most 128 bits. -/
def isInteger (cs : List Char) : Bool :=
  let (negative, digits) := splitSign cs
  match magnitude? digits with
  | some n => if negative then n ≤ Nat.pow 2 127 else n < Nat.pow 2 128
  | none => false

/-- Whether a text is digits with a needless zero in front. -/
def hasLeadingZero (cs : List Char) : Bool :=
  match (splitSign cs).2 with
  | '0' :: c :: rest => (c :: rest).all Char.isDigit
  | _ => false

/-- The parts of a decimal: its digits as a number, and the power of ten to
multiply with. -/
def decimal? (cs : List Char) : Option (Nat × Int) := do
  let whole := cs.takeWhile Char.isDigit
  let afterWhole := cs.dropWhile Char.isDigit
  let (fraction, rest) := match afterWhole with
    | '.' :: more => (more.takeWhile Char.isDigit, more.dropWhile Char.isDigit)
    | more => ([], more)
  let digits ← numeral? 10 (whole ++ fraction)
  let exponent ← match rest with
    | [] => some 0
    | e :: more =>
      if e = 'e' || e = 'E' then
        let (negative, power) := splitSign more
        (numeral? 10 power).map fun n => if negative then -(n : Int) else (n : Int)
      else none
  return (digits, exponent - fraction.length)

/-- Whether `digits · 10 ^ exponent` rounds to a finite number of 64 bits, that
is, lies below the middle between the largest such number and the next power of
two.  Only numbers of 309 digits need a closer look. -/
def roundsToFinite (digits : Nat) (exponent : Int) : Bool :=
  let places : Int := (Nat.toDigits 10 digits).length + exponent
  if digits = 0 || places ≤ 308 then true
  else if places > 309 then false
  else
    let bound := Nat.pow 2 1024 - Nat.pow 2 970
    if 0 ≤ exponent then digits * Nat.pow 10 exponent.toNat < bound
    else digits < bound * Nat.pow 10 (-exponent).toNat

/-- Whether a text reads as a floating-point number. -/
def isFloat (cs : List Char) : Bool :=
  let unsigned := (splitSign cs).2
  if unsigned ∈ [".inf".toList, ".Inf".toList, ".INF".toList] then true
  else if cs ∈ [".nan".toList, ".NaN".toList, ".NAN".toList] then true
  else match decimal? unsigned with
    | some (digits, exponent) => roundsToFinite digits exponent
    | none => false

/-- The words that read as nothing or as a truth value. -/
def reservedWords : List String :=
  ["", "null", "Null", "NULL", "~", "true", "True", "TRUE", "false", "False", "FALSE"]

/-- Whether a reader would take a plain text for something else. -/
def looksLikeValue (s : String) : Bool :=
  s ∈ reservedWords || isInteger s.toList || hasLeadingZero s.toList || isFloat s.toList

/-! ## What a style can hold -/

/-- A blank, a line break or the end of a text. -/
def endsWord : Option Char → Bool
  | none => true
  | some c => c ∈ [' ', '\t', '\n', '\r', '\x00', '\x85', '\u2028', '\u2029']

/-- Whether a character can be shown as it is. -/
def isPrintable (c : Char) : Bool :=
  let n := c.toNat
  n == 0x0A || (0x20 ≤ n && n ≤ 0x7E)
    || (0xA0 ≤ n && n != 0xFEFF && n != 0xFFFE && n != 0xFFFF)

/-- Whether a plain text would end inside `cs`, which comes after `before`. -/
def endsEarly (before : Char) : List Char → Bool
  | [] => false
  | c :: cs =>
    (c == ':' && endsWord cs.head?) || (c == '#' && endsWord (some before)) || endsEarly c cs

/-- Whether a text can stand in a block without any quotes. -/
def allowsPlain : List Char → Bool
  | [] => false
  | c :: cs =>
    let indicator := c ∈ ['#', ',', '[', ']', '{', '}', '&', '*', '!', '|', '>', '\'', '"',
      '%', '@', '`']
    let mark := c ∈ ['?', ':', '-'] && endsWord cs.head?
    let document := (c :: cs).take 3 ∈ ["---".toList, "...".toList]
    let spaced := c == ' ' || (c :: cs).getLast? == some ' '
    !(indicator || mark || document || spaced || (c == ':' && endsWord cs.head?)
      || endsEarly c cs)

/-- Whether a space stands right before a newline. -/
def hasSpaceBeforeBreak : List Char → Bool
  | ' ' :: '\n' :: _ => true
  | _ :: cs => hasSpaceBeforeBreak cs
  | [] => false

/-- The ways to write a text. -/
inductive Style where
  | plain | single | double | literal
  deriving DecidableEq, Repr

/-- The way in which a text is written. -/
def styleOf (s : String) : Style :=
  let cs := s.toList
  if cs.contains '\n' then
    if cs.all isPrintable && !hasSpaceBeforeBreak cs && cs.getLast? != some ' ' then .literal
    else .double
  else if !cs.all isPrintable then .double
  else if looksLikeValue s || !allowsPlain cs then .single
  else .plain

/-! ## Writing -/

/-- The last `width` hexadecimal digits of a number, in upper case. -/
def upperHex : (width : Nat) → Nat → List Char
  | 0, _ => []
  | width + 1, n => upperHex width (n / 16) ++ [(Nat.digitChar (n % 16)).toUpper]

/-- A character between double quotes. -/
def doubleQuotedCharacter (c : Char) : List Char :=
  match c with
  | '\x00' => ['\\', '0']
  | '\x07' => ['\\', 'a']
  | '\x08' => ['\\', 'b']
  | '\t' => ['\\', 't']
  | '\n' => ['\\', 'n']
  | '\x0b' => ['\\', 'v']
  | '\x0c' => ['\\', 'f']
  | '\r' => ['\\', 'r']
  | '\x1b' => ['\\', 'e']
  | '"' => ['\\', '"']
  | '\\' => ['\\', '\\']
  | '\u0085' => ['\\', 'N']
  | '\u2028' => ['\\', 'L']
  | '\u2029' => ['\\', 'P']
  | c =>
    if isPrintable c then [c]
    else if c.toNat ≤ 0xFF then '\\' :: 'x' :: upperHex 2 c.toNat
    else if c.toNat ≤ 0xFFFF then '\\' :: 'u' :: upperHex 4 c.toNat
    else '\\' :: 'U' :: upperHex 8 c.toNat

/-- What the head of a literal block says about the end of the text. -/
def chomping (cs : List Char) : List Char :=
  if cs.getLast? != some '\n' then ['-']
  else if cs = ['\n'] || cs.dropLast.getLast? == some '\n' then ['+']
  else []

/-- A literal block whose lines are indented by `indent` spaces; empty lines stay empty. -/
def literalBlock (indent : Nat) (cs : List Char) : List Char :=
  let hint := if cs.head? == some ' ' || cs.head? == some '\n' then ['2'] else []
  let lines := if cs.getLast? == some '\n' then (splitAtNewlines cs).dropLast else splitAtNewlines cs
  '|' :: hint ++ chomping cs ++ lines.flatMap fun line =>
    if line.isEmpty then ['\n'] else '\n' :: spaces indent ++ line

/-- A text as a value whose continuation lines are indented by `indent` spaces. -/
def scalar (indent : Nat) (s : String) : List Char :=
  let cs := s.toList
  match styleOf s with
  | .plain => cs
  | .single => '\'' :: cs.flatMap (fun c => if c = '\'' then ['\'', '\''] else [c]) ++ ['\'']
  | .double => '"' :: cs.flatMap doubleQuotedCharacter ++ ['"']
  | .literal => literalBlock indent cs

end Yaml

namespace Datum

mutual

/-- The block of a list or record, or the value of anything else; the text starts
at column `column`. -/
def writeYaml (column : Nat) : Datum → List Char
  | .number n => Nat.toDigits 10 n
  | .text s => Yaml.scalar column s
  | .list [] => ['[', ']']
  | .list (item :: items) =>
    '-' :: ' ' :: item.writeYaml (column + 2) ++ writeYamlItems column items
  | .record [] => ['{', '}']
  | .record ((key, value) :: fields) =>
    key.toList ++ ':' :: writeYamlValue column value ++ writeYamlFields column fields

/-- A value behind the key of a record that stands at `column`. -/
def writeYamlValue (column : Nat) : Datum → List Char
  | .number n => ' ' :: Nat.toDigits 10 n
  | .text s => ' ' :: Yaml.scalar (column + 2) s
  | .list [] => [' ', '[', ']']
  | .list (item :: items) =>
    '\n' :: spaces column ++ '-' :: ' ' :: item.writeYaml (column + 2)
      ++ writeYamlItems column items
  | .record [] => [' ', '{', '}']
  | .record ((key, value) :: fields) =>
    '\n' :: spaces (column + 2) ++ key.toList ++ ':' :: writeYamlValue (column + 2) value
      ++ writeYamlFields (column + 2) fields

/-- The items of a list after its first. -/
def writeYamlItems (column : Nat) : List Datum → List Char
  | [] => []
  | item :: items =>
    '\n' :: spaces column ++ '-' :: ' ' :: item.writeYaml (column + 2)
      ++ writeYamlItems column items

/-- The fields of a record after its first. -/
def writeYamlFields (column : Nat) : List (String × Datum) → List Char
  | [] => []
  | (key, value) :: fields =>
    '\n' :: spaces column ++ key.toList ++ ':' :: writeYamlValue column value
      ++ writeYamlFields column fields

end

/-- A YAML document, which ends in a newline. -/
def toYaml (datum : Datum) : String :=
  String.ofList (datum.writeYaml 0 ++ ['\n'])

end Datum

end CamlIndex
