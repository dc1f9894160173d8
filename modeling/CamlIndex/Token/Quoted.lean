/-!
# Strings, comments and character literals

Inside a string literal and inside a comment the usual rules for tokens are
suspended.  `stringBody` and `commentBody` take the characters that follow an
opening quote or an opening `(*` and give the ones that belong to the
construct, its closing mark included.  A construct that is not closed runs to
the end of the text, so neither can fail.

Comments nest.  A closing mark inside a string inside a comment closes nothing,
and the quote in the literal `'"'` opens no string.

All marks are ASCII, so bytes can be scanned in the same way as characters:
`stringBodyLength` and `commentBodyLength` read every byte as the character
that has its number.  What the readers give back is always an initial part of
what they were given (`stringBody_append_drop`, `commentBody_append_drop`).
-/

namespace CamlIndex

/-- The part of a text up to and including the first quote that no backslash
escapes.  `escaped` says whether the text follows an escaping backslash. -/
def stringBody (escaped : Bool) : List Char → List Char
  | [] => []
  | c :: cs =>
    if c = '"' ∧ escaped = false then [c]
    else c :: stringBody (!escaped && c == '\\') cs

/-- What a reader inside a comment is reading. -/
inductive CommentPart where
  /-- Comment text; `afterStar` if the last character was a `*` of this text. -/
  | plain (afterStar : Bool)
  /-- A string; `escaped` if the last character was an escaping backslash. -/
  | quoted (escaped : Bool)
  deriving DecidableEq, Repr

/-- The part of a text up to and including the mark that closes a comment which
lies inside `depth` further open comments, once all of them have closed. -/
def commentBody : (depth : Nat) → CommentPart → List Char → List Char
  | _, _, [] => []
  | depth, .quoted escaped, c :: cs =>
    if c = '"' ∧ escaped = false then c :: commentBody depth (.plain false) cs
    else c :: commentBody depth (.quoted (!escaped && c == '\\')) cs
  | 0, .plain true, ')' :: _ => [')']
  | outer + 1, .plain true, ')' :: cs => ')' :: commentBody outer (.plain false) cs
  | depth, .plain _, '(' :: '*' :: cs => '(' :: '*' :: commentBody (depth + 1) (.plain false) cs
  | depth, .plain _, '"' :: cs => '"' :: commentBody depth (.quoted false) cs
  | depth, .plain _, '\'' :: '"' :: '\'' :: cs =>
    '\'' :: '"' :: '\'' :: commentBody depth (.plain false) cs
  | depth, .plain _, c :: cs => c :: commentBody depth (.plain (c == '*')) cs

/-- What the outermost comment holds after its opening `(*`. -/
def commentTail (cs : List Char) : List Char :=
  commentBody 0 (.plain false) cs

/-- What a string literal holds after its opening quote. -/
def stringTail (cs : List Char) : List Char :=
  stringBody false cs

theorem stringBody_append_drop (escaped : Bool) (cs : List Char) :
    stringBody escaped cs ++ cs.drop (stringBody escaped cs).length = cs := by
  fun_induction stringBody escaped cs <;> simp_all

theorem commentBody_append_drop (depth : Nat) (part : CommentPart) (cs : List Char) :
    commentBody depth part cs ++ cs.drop (commentBody depth part cs).length = cs := by
  fun_induction commentBody depth part cs <;> simp_all

/-- Bytes, each read as the character with its number. -/
def bytesAsChars (bytes : List UInt8) : List Char :=
  bytes.map fun b => Char.ofNat b.toNat

/-- Number of bytes of a string literal that follow its opening quote. -/
def stringBodyLength (bytes : List UInt8) : Nat :=
  (stringTail (bytesAsChars bytes)).length

/-- Number of bytes of a comment that follow its opening `(*`. -/
def commentBodyLength (bytes : List UInt8) : Nat :=
  (commentTail (bytesAsChars bytes)).length

/-- A character that stands for another one after a backslash. -/
def isEscapeLetter (c : Char) : Bool :=
  c ∈ ['\\', '\'', '"', 'n', 't', 'b', 'r', ' ']

/-- An octal digit. -/
def isOctalDigit (c : Char) : Bool :=
  '0' ≤ c && c ≤ '7'

/-- A hexadecimal digit of either case. -/
def isHexDigit (c : Char) : Bool :=
  c.isDigit || ('a' ≤ c && c ≤ 'f') || ('A' ≤ c && c ≤ 'F')

/-- The rest of a character literal after its opening quote, closing quote
included.  There is none where the characters do not complete a literal: a type
variable `'a` starts like one. -/
def characterTail? : List Char → Option (List Char)
  | '\\' :: e :: '\'' :: _ => if isEscapeLetter e then some ['\\', e, '\''] else none
  | '\\' :: a :: b :: c :: '\'' :: _ =>
    if (a.isDigit && b.isDigit && c.isDigit) || (a == 'x' && isHexDigit b && isHexDigit c) then
      some ['\\', a, b, c, '\'']
    else none
  | '\\' :: 'o' :: a :: b :: c :: '\'' :: _ =>
    if isOctalDigit a && isOctalDigit b && isOctalDigit c then
      some ['\\', 'o', a, b, c, '\'']
    else none
  | c :: '\'' :: _ => if c = '\\' ∨ c = '\'' then none else some [c, '\'']
  | _ => none

end CamlIndex
