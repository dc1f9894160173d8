import CamlIndex.Toml.Text

/-!
# Values of TOML

Scalars, lists and tables.  `scalar` reads everything that is not made of other
values: strings, numbers, truth values, dates and times.  Dates and times are
kept as the text they were written as.
-/

namespace CamlIndex.Toml

/-- A value of a configuration file. -/
inductive Value where
  | boolean (b : Bool)
  | integer (n : Int)
  | float (x : Float)
  | text (s : String)
  | list (items : List Value)
  | table (fields : List (String × Value))

/-! ## Numbers -/

/-- Reads digits between which single underscores may stand. -/
def digits (isDigit : Char → Bool) : Reader (List Char) := fun cs =>
  let run := cs.takeWhile fun c => isDigit c || c == '_'
  let plain := run.filter (· != '_')
  let spaced := (run.zip run.tail).all fun pair => pair != ('_', '_')
  if run.head? != some '_' && run.getLast? != some '_' && spaced && !plain.isEmpty then
    some (plain, cs.drop run.length)
  else none

/-- The number that digits write in a base. -/
def numberOf (base : Nat) (ds : List Char) : Nat :=
  ds.foldl (fun n d => n * base + (hexValue? d).getD 0) 0

/-- Reads a sign, if one comes: whether it is a minus. -/
def sign : List Char → Bool × List Char
  | '-' :: cs => (true, cs)
  | '+' :: cs => (false, cs)
  | cs => (false, cs)

/-- An integer, if it fits into 64 bits. -/
def integer? (negative : Bool) (magnitude : Nat) : Option Value :=
  let n : Int := if negative then -(magnitude : Int) else magnitude
  if Int64.minValue.toInt ≤ n ∧ n ≤ Int64.maxValue.toInt then some (.integer n) else none

/-- The number `magnitude · 10 ^ exponent` with a sign.  Outside of the powers
of ten that matter it is zero or infinite. -/
def floatOf (negative : Bool) (magnitude : Nat) (exponent : Int) : Float :=
  let places : Int := (Nat.toDigits 10 magnitude).length + exponent
  let x : Float :=
    if magnitude = 0 || places < -400 then 0.0
    else if places > 400 then 1.0 / 0.0
    else if 0 ≤ exponent then Float.ofScientific (magnitude * Nat.pow 10 exponent.toNat) false 0
    else Float.ofScientific magnitude true (-exponent).toNat
  if negative then -x else x

/-- A float, unless it is too large to be written as one.  Only numbers above
zero are checked. -/
def float? (negative : Bool) (magnitude : Nat) (exponent : Int) : Option Value :=
  let x := floatOf negative magnitude exponent
  if x == 1.0 / 0.0 then none else some (.float x)

/-- Reads the fraction of a number, if one comes: its digits. -/
def fraction : Reader (List Char)
  | '.' :: cs => digits Char.isDigit cs
  | cs => some ([], cs)

/-- Reads the exponent of a number, if one comes. -/
def exponent : Reader Int
  | c :: cs =>
    if c = 'e' || c = 'E' then do
      let (negative, cs) := sign cs
      let (ds, cs) ← digits Char.isDigit cs
      let n : Int := numberOf 10 ds
      some (if negative then -n else n, cs)
    else some (0, c :: cs)
  | [] => some (0, [])

/-- Reads a decimal number: a float if it has a fraction or an exponent. -/
def decimal (negative : Bool) : Reader Value := fun cs => do
  let (whole, afterWhole) ← digits Char.isDigit cs
  if whole.head? = some '0' ∧ whole.length ≠ 1 then none
  else
    let (places, afterFraction) ← fraction afterWhole
    let (power, rest) ← exponent afterFraction
    if rest.length = afterWhole.length then
      (integer? negative (numberOf 10 whole)).map (·, rest)
    else
      (float? negative (numberOf 10 (whole ++ places)) (power - places.length)).map (·, rest)

/-- Reads an integer that follows the mark of its base. -/
def based (base : Nat) (isDigit : Char → Bool) : Reader Value := fun cs => do
  let (ds, rest) ← digits isDigit cs
  (integer? false (numberOf base ds)).map (·, rest)

/-- Reads a number of any form. -/
def number : Reader Value
  | '0' :: 'x' :: cs => based 16 (fun c => (hexValue? c).isSome) cs
  | '0' :: 'o' :: cs => based 8 (fun c => '0' ≤ c && c ≤ '7') cs
  | '0' :: 'b' :: cs => based 2 (fun c => c == '0' || c == '1') cs
  | cs =>
    match sign cs with
    | (negative, 'i' :: 'n' :: 'f' :: rest) =>
      some (.float (if negative then -(1.0 / 0.0) else 1.0 / 0.0), rest)
    | (_, 'n' :: 'a' :: 'n' :: rest) => some (.float (0.0 / 0.0), rest)
    | (negative, rest) => decimal negative rest

/-! ## Dates and times -/

/-- Reads exactly `count` decimal digits as a number. -/
def fixedDigits (count : Nat) : Reader Nat := fun cs =>
  let ds := cs.take count
  if ds.length = count ∧ ds.all Char.isDigit then some (numberOf 10 ds, cs.drop count) else none

/-- Reads one given character. -/
def expect (c : Char) : List Char → Option (List Char)
  | d :: cs => if d = c then some cs else none
  | [] => none

/-- Number of days of a month. -/
def daysIn (year month : Nat) : Nat :=
  if month = 2 then
    if year % 4 = 0 ∧ (year % 100 ≠ 0 ∨ year % 400 = 0) then 29 else 28
  else if month ∈ [4, 6, 9, 11] then 30 else 31

/-- The text after a date. -/
def skipDate (cs : List Char) : Option (List Char) := do
  let (year, cs) ← fixedDigits 4 cs
  let (month, cs) ← fixedDigits 2 (← expect '-' cs)
  let (day, cs) ← fixedDigits 2 (← expect '-' cs)
  if 1 ≤ month ∧ month ≤ 12 ∧ 1 ≤ day ∧ day ≤ daysIn year month then some cs else none

/-- The text after a time of day, which has hours, minutes, seconds and maybe
parts of a second. -/
def skipTime (cs : List Char) : Option (List Char) := do
  let (hour, cs) ← fixedDigits 2 cs
  let (minute, cs) ← fixedDigits 2 (← expect ':' cs)
  let (second, cs) ← fixedDigits 2 (← expect ':' cs)
  if hour ≤ 23 ∧ minute ≤ 59 ∧ second ≤ 60 then
    match cs with
    | '.' :: cs =>
      let parts := cs.takeWhile Char.isDigit
      if parts.isEmpty then none else some (cs.drop parts.length)
    | cs => some cs
  else none

/-- The text after the offset of a time, if one comes. -/
def skipOffset (cs : List Char) : Option (List Char) :=
  match cs with
  | [] => some []
  | c :: rest =>
    if c = 'Z' || c = 'z' then some rest
    else if c = '+' || c = '-' then do
      let (hour, rest) ← fixedDigits 2 rest
      let (minute, rest) ← fixedDigits 2 (← expect ':' rest)
      if hour ≤ 23 ∧ minute ≤ 59 then some rest else none
    else some cs

/-- The text after a date with the time that may follow it. -/
def skipDateTime (cs : List Char) : Option (List Char) := do
  let rest ← skipDate cs
  match rest with
  | c :: time =>
    if c = 'T' || c = 't' || c = ' ' then
      match skipTime time with
      | some rest => skipOffset rest
      | none => some rest
    else some rest
  | [] => some []

/-- Reads a date, a time or both. -/
def dateTime : Reader Value := fun cs => do
  let rest ← (skipDateTime cs).or (skipTime cs)
  some (.text (String.ofList (cs.take (cs.length - rest.length))), rest)

/-! ## Scalars -/

/-- Reads a value that is not made of other values. -/
def scalar : Reader Value
  | 't' :: 'r' :: 'u' :: 'e' :: cs => some (.boolean true, cs)
  | 'f' :: 'a' :: 'l' :: 's' :: 'e' :: cs => some (.boolean false, cs)
  | c :: cs =>
    if c = '"' || c = '\'' then (string (c :: cs)).map fun (s, rest) => (.text s, rest)
    else (dateTime (c :: cs)).or (number (c :: cs))
  | [] => none

end CamlIndex.Toml
