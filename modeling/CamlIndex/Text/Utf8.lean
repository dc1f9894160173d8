/-!
# UTF-8

Characters from bytes.  A decoder that has read the start of a character knows
how many bytes are owed and in which range the next one must lie.  A byte
outside of that range ends the character early: what was read of it is one
invalid piece, and the byte is looked at again as a first byte.

`decode` gives each character and, for each invalid piece, nothing in its
place.  `decodeLossy` puts the replacement character there, and `decodeStrict?`
accepts only bytes without invalid pieces.
-/

namespace CamlIndex.Utf8

/-- The start of a character: its bits so far, the number of bytes owed and the
range of the next byte. -/
structure Started where
  bits : Nat
  owed : Nat
  low : Nat
  high : Nat
  deriving DecidableEq, Repr

/-- What comes out of one byte. -/
inductive Outcome where
  | character (c : Char)
  | started (start : Started)
  | invalid

/-- A first byte.  Its range excludes overlong forms, surrogates and numbers that
are too large. -/
def first (b : Nat) : Outcome :=
  if b ≤ 0x7F then .character (Char.ofNat b)
  else if 0xC2 ≤ b ∧ b ≤ 0xDF then .started ⟨b - 0xC0, 1, 0x80, 0xBF⟩
  else if b = 0xE0 then .started ⟨0, 2, 0xA0, 0xBF⟩
  else if b = 0xED then .started ⟨0xD, 2, 0x80, 0x9F⟩
  else if 0xE1 ≤ b ∧ b ≤ 0xEF then .started ⟨b - 0xE0, 2, 0x80, 0xBF⟩
  else if b = 0xF0 then .started ⟨0, 3, 0x90, 0xBF⟩
  else if 0xF1 ≤ b ∧ b ≤ 0xF3 then .started ⟨b - 0xF0, 3, 0x80, 0xBF⟩
  else if b = 0xF4 then .started ⟨4, 3, 0x80, 0x8F⟩
  else .invalid

/-- A byte after the start of a character. -/
def Started.next (start : Started) (b : Nat) : Outcome :=
  if start.low ≤ b ∧ b ≤ start.high then
    let bits := start.bits * 64 + (b - 0x80)
    if start.owed ≤ 1 then .character (Char.ofNat bits)
    else .started ⟨bits, start.owed - 1, 0x80, 0xBF⟩
  else .invalid

/-- The characters of bytes that may come after the start of one. -/
def decodeAfter : Option Started → List UInt8 → List (Option Char)
  | none, [] => []
  | some _, [] => [none]
  | start?, b :: bs =>
    match (start?.map (·.next b.toNat)).getD .invalid with
    | .character c => some c :: decodeAfter none bs
    | .started start => decodeAfter (some start) bs
    | .invalid =>
      let broken := if start?.isSome then [none] else []
      broken ++ match first b.toNat with
        | .character c => some c :: decodeAfter none bs
        | .started start => decodeAfter (some start) bs
        | .invalid => none :: decodeAfter none bs

/-- The characters of bytes, with nothing for each invalid piece. -/
def decode (bytes : List UInt8) : List (Option Char) :=
  decodeAfter none bytes

/-- What stands for an invalid piece. -/
def replacement : Char := '\uFFFD'

/-- The text of bytes, in which the replacement character stands for each invalid piece. -/
def decodeLossy (bytes : List UInt8) : String :=
  String.ofList ((decode bytes).map (·.getD replacement))

/-- The text of bytes without invalid pieces. -/
def decodeStrict? (bytes : List UInt8) : Option String :=
  ((decode bytes).mapM id).map String.ofList

/-- The bytes of a text. -/
def encode (text : String) : List UInt8 :=
  text.toUTF8.toList

end CamlIndex.Utf8
