/-!
# Tokens

The machine that finds declarations does not read characters but tokens: a
kind, the exact text and the byte span it was read from.  Words become
keywords by one table, `keywords`; words missing from it are identifiers.
-/

namespace CamlIndex

/-- The kinds of token that the grammar tells apart. -/
inductive TokenKind where
  | kwAnd | kwBegin | kwClass | kwDo | kwDone | kwElse | kwEnd | kwException
  | kwFor | kwFun | kwFunction | kwFunctor | kwIf | kwIn | kwLet | kwMatch
  | kwMethod | kwModule | kwMutable | kwObject | kwOf | kwPrivate | kwRec
  | kwSig | kwStruct | kwThen | kwTry | kwType | kwVal
  /-- The word `value`, which the revised syntax uses for a binding. -/
  | kwValue
  | kwVirtual | kwWhile | kwWith
  | ident
  /-- Numbers, strings, characters, truth values, `_` and what is not recognised. -/
  | literal
  /-- A run of operator characters that has no kind of its own. -/
  | operator
  | parenOpen | parenClose | bracketOpen | bracketClose | braceOpen | braceClose
  | prime | pipe | equals | semicolon | comma | arrow
  /-- A lone `:`, which opens a type annotation. -/
  | colon
  | sharp | backslash
  /-- What follows the last token. -/
  | eof
  deriving DecidableEq, Repr

/-- The name of a token kind in token listings. -/
def TokenKind.name : TokenKind → String
  | .kwAnd => "And" | .kwBegin => "Begin" | .kwClass => "Class" | .kwDo => "Do"
  | .kwDone => "Done" | .kwElse => "Else" | .kwEnd => "End"
  | .kwException => "Exception" | .kwFor => "For" | .kwFun => "Fun"
  | .kwFunction => "Function" | .kwFunctor => "Functor" | .kwIf => "If"
  | .kwIn => "In" | .kwLet => "Let" | .kwMatch => "Match" | .kwMethod => "Method"
  | .kwModule => "Module" | .kwMutable => "Mutable" | .kwObject => "Object"
  | .kwOf => "Of" | .kwPrivate => "Private" | .kwRec => "Rec" | .kwSig => "Sig"
  | .kwStruct => "Struct" | .kwThen => "Then" | .kwTry => "Try" | .kwType => "Type"
  | .kwVal => "Val" | .kwValue => "Value" | .kwVirtual => "Virtual"
  | .kwWhile => "While" | .kwWith => "With"
  | .ident => "Ident" | .literal => "Literal" | .operator => "Operator"
  | .parenOpen => "ParenOpen" | .parenClose => "ParenClose"
  | .bracketOpen => "BracketOpen" | .bracketClose => "BracketClose"
  | .braceOpen => "BraceOpen" | .braceClose => "BraceClose"
  | .prime => "Prime" | .pipe => "Pipe" | .equals => "Equals"
  | .semicolon => "Semicolon" | .comma => "Comma" | .arrow => "Arrow"
  | .colon => "Colon" | .sharp => "Sharp" | .backslash => "Backslash"
  | .eof => "Eof"

/-- The words that are not identifiers.  The textual operators and the truth
values are listed too, so that they are never taken for the name of a binding. -/
def keywords : List (String × TokenKind) :=
  [("and", .kwAnd), ("begin", .kwBegin), ("class", .kwClass), ("do", .kwDo),
   ("done", .kwDone), ("else", .kwElse), ("end", .kwEnd),
   ("exception", .kwException), ("for", .kwFor), ("fun", .kwFun),
   ("function", .kwFunction), ("functor", .kwFunctor), ("if", .kwIf),
   ("in", .kwIn), ("let", .kwLet), ("match", .kwMatch), ("method", .kwMethod),
   ("module", .kwModule), ("mutable", .kwMutable), ("nonrec", .kwRec),
   ("object", .kwObject), ("of", .kwOf), ("private", .kwPrivate), ("rec", .kwRec),
   ("sig", .kwSig), ("struct", .kwStruct), ("then", .kwThen), ("try", .kwTry),
   ("type", .kwType), ("val", .kwVal), ("value", .kwValue),
   ("virtual", .kwVirtual), ("while", .kwWhile), ("with", .kwWith),
   ("or", .operator), ("mod", .operator), ("land", .operator), ("lor", .operator),
   ("lxor", .operator), ("lsl", .operator), ("lsr", .operator), ("asr", .operator),
   ("true", .literal), ("false", .literal)]

/-- The kind of a word that the keyword table lists. -/
def keyword? (word : String) : Option TokenKind :=
  keywords.lookup word

/-- A token: its kind, its text and the bytes `start` up to `stop` it was read from. -/
structure Token where
  kind : TokenKind
  text : String
  start : Nat
  stop : Nat
  deriving DecidableEq, Repr

namespace Token

/-- The token that stands for the end of a text of `length` bytes. -/
def endAt (length : Nat) : Token :=
  ⟨.eof, "", length, length⟩

/-- Whether the token stands for the end of the text. -/
def isEnd (token : Token) : Bool :=
  token.kind == .eof

/-- The first character of the token's text. -/
def initial? (token : Token) : Option Char :=
  token.text.toList.head?

/-- Whether the text starts with an upper-case letter of ASCII. -/
def isCapitalized (token : Token) : Bool :=
  token.initial?.any Char.isUpper

end Token

end CamlIndex
