import CamlIndex.Source
import CamlIndex.Token.Basic
import CamlIndex.Token.Quoted

/-!
# Reading tokens

A `Cursor` is a place in a text: the byte offset and the characters that are
still to come.  `Cursor.next?` skips the gap before the next token (blanks and
comments) and reads the longest token that starts there.  Every character
starts some token, so only the end of the text stops it, and every token takes
at least one character, so a text has finitely many (`Cursor.tokens`).
-/

namespace CamlIndex

/-- The characters that separate tokens and mean nothing else. -/
def isBlank (c : Char) : Bool :=
  c ∈ [' ', '\t', '\r', '\n', '\x0c']

/-- A character that a word can start with. -/
def startsWord (c : Char) : Bool :=
  c.isAlpha || c == '_'

/-- A character that a word can go on with. -/
def continuesWord (c : Char) : Bool :=
  c.isAlphanum || c == '_' || c == '\''

/-- A character of which operators are made. -/
def isOperatorChar (c : Char) : Bool :=
  c ∈ ['!', '$', '%', '&', '*', '+', '-', '.', '/', ':', '<', '=', '>', '?', '@', '^', '~', '|']

/-- The kind of a word: a keyword, the wildcard or an identifier. -/
def wordKind (word : String) : TokenKind :=
  match keyword? word with
  | some kind => kind
  | none => if word = "_" then .literal else .ident

/-- The kind of a run of operator characters.  Four runs have a kind of their own. -/
def operatorKind (run : String) : TokenKind :=
  match run with
  | "|" => .pipe
  | "=" => .equals
  | ":" => .colon
  | "->" => .arrow
  | _ => .operator

/-- The kind of a character that is a token by itself.  Anything unknown is a value. -/
def characterKind : Char → TokenKind
  | '(' => .parenOpen
  | ')' => .parenClose
  | '[' => .bracketOpen
  | ']' => .bracketClose
  | '{' => .braceOpen
  | '}' => .braceClose
  | '\'' => .prime
  | ',' => .comma
  | ';' => .semicolon
  | '#' => .sharp
  | '\\' => .backslash
  | _ => .literal

/-- The token that starts with `c`, where `cs` follows: its kind and the
characters that it takes from `cs`. -/
def readToken (c : Char) (cs : List Char) : TokenKind × List Char :=
  if c = '"' then (.literal, stringTail cs)
  else if startsWord c then
    let tail := cs.takeWhile continuesWord
    (wordKind (String.ofList (c :: tail)), tail)
  else if c.isDigit then (.literal, cs.takeWhile Char.isDigit)
  else if isOperatorChar c then
    let tail := cs.takeWhile isOperatorChar
    (operatorKind (String.ofList (c :: tail)), tail)
  else match (if c = '\'' then characterTail? cs else none) with
    | some tail => (.literal, tail)
    | none => (characterKind c, [])

/-- The blanks and comments at the start of a text. -/
def gap : List Char → List Char
  | [] => []
  | '(' :: '*' :: cs =>
    '(' :: '*' :: commentTail cs ++ gap (cs.drop (commentTail cs).length)
  | c :: cs => if isBlank c then c :: gap cs else []
termination_by cs => cs.length
decreasing_by all_goals (simp only [List.length_cons, List.length_drop]; omega)

/-- A place in a text. -/
structure Cursor where
  offset : Nat
  rest : List Char
  deriving DecidableEq, Repr

namespace Cursor

/-- The start of a text. -/
def ofText (text : String) : Cursor :=
  ⟨0, text.toList⟩

/-- The place that lies behind the first characters `cs` of the rest. -/
def advance (cursor : Cursor) (cs : List Char) : Cursor :=
  ⟨cursor.offset + byteLength cs, cursor.rest.drop cs.length⟩

/-- The place where the next token starts. -/
def skipGap (cursor : Cursor) : Cursor :=
  cursor.advance (gap cursor.rest)

/-- The next token and the place behind it; nothing at the end of the text. -/
def next? (cursor : Cursor) : Option (Token × Cursor) :=
  let here := cursor.skipGap
  match here.rest with
  | [] => none
  | c :: cs =>
    let (kind, tail) := readToken c cs
    let behind := here.advance (c :: tail)
    some (⟨kind, String.ofList (c :: tail), here.offset, behind.offset⟩, behind)

/-- The next token, which at the end of a text of `length` bytes is the end
token, and the place behind it. -/
def next (length : Nat) (cursor : Cursor) : Token × Cursor :=
  (cursor.next?).getD (Token.endAt length, cursor)

/-- Reading a token uses up characters. -/
theorem length_rest_of_next? {cursor behind : Cursor} {token : Token}
    (h : cursor.next? = some (token, behind)) : behind.rest.length < cursor.rest.length := by
  simp only [next?] at h
  split at h
  · simp at h
  · next c cs hc =>
    simp only [Option.some.injEq, Prod.mk.injEq] at h
    obtain ⟨-, rfl⟩ := h
    have hlen : cs.length + 1 ≤ cursor.rest.length := by
      have := congrArg List.length hc
      simp only [skipGap, advance, List.length_drop, List.length_cons] at this
      omega
    simp only [advance, hc, List.length_cons, List.length_drop]
    omega

/-- All tokens from a place to the end of the text. -/
def tokens (cursor : Cursor) : List Token :=
  match h : cursor.next? with
  | none => []
  | some (token, behind) =>
    have := length_rest_of_next? h
    token :: behind.tokens
termination_by cursor.rest.length

end Cursor

/-- The tokens of a text, without the end token. -/
def tokenize (text : String) : List Token :=
  (Cursor.ofText text).tokens

end CamlIndex
