import CamlIndex.Proofs.Language.Layout
import CamlIndex.Tag

/-!
# A core language with a reference traversal

The programs here are syntax trees of a core of the language that the machine
reads: bindings with parameters, types, exceptions, modules, sealed modules and
classes, and inside of them expressions, matches and local bindings.

The traversal of a tree gives its words from left to right, and marks every word
that declares something with what it declares and with the scope it does that
in.  It knows scopes from the tree alone: what stands inside a module, type,
class or binding is in its scope, and what follows is not.

* `Expr.pieces`, `Body.pieces`, `Item.pieces`, `Program.pieces` — the traversal;
* `Nesting`, `LetChain`, `BindingFunction`, `TermDefinition`, `SeparatedBinding`,
  `ModuleHeader`, `Signature`, `TypedFunction`, `Interface`, `VariantType`,
  `ClassDef` — forms beyond the core, in which the machine does not keep to the
  scopes of the tree.
-/

namespace CamlIndex

/-! ## Names and fixed words -/

/-- The text of a token of a kind. -/
structure Lexeme (kind : TokenKind) where
  text : String
  stands : Stands kind text

/-- Whether a text starts with a capital letter of ASCII. -/
def startsUpper (text : String) : Bool :=
  text.toList.head?.any Char.isUpper

/-- An identifier that does not start with a capital letter. -/
structure LowerName extends Lexeme .ident where
  lower : startsUpper text = false

/-- An identifier that starts with a capital letter. -/
structure UpperName extends Lexeme .ident where
  upper : startsUpper text = true

def Lexeme.word {kind : TokenKind} (lexeme : Lexeme kind) : Word :=
  ⟨kind, lexeme.text, lexeme.stands⟩

@[simp] theorem Lexeme.kind_word {kind : TokenKind} (lexeme : Lexeme kind) :
    lexeme.word.kind = kind := rfl

@[simp] theorem Lexeme.text_word {kind : TokenKind} (lexeme : Lexeme kind) :
    lexeme.word.text = lexeme.text := rfl

/-- The spelling of the kinds of token that have only one. -/
def TokenKind.spelling : TokenKind → String
  | .kwAnd => "and" | .kwBegin => "begin" | .kwClass => "class" | .kwElse => "else"
  | .kwEnd => "end" | .kwException => "exception" | .kwFun => "fun"
  | .kwFunction => "function" | .kwIf => "if" | .kwIn => "in" | .kwLet => "let"
  | .kwMatch => "match" | .kwMethod => "method" | .kwModule => "module"
  | .kwObject => "object" | .kwOf => "of" | .kwRec => "rec" | .kwSig => "sig"
  | .kwStruct => "struct" | .kwThen => "then" | .kwType => "type" | .kwVal => "val"
  | .kwWith => "with"
  | .parenOpen => "(" | .parenClose => ")" | .bracketOpen => "[" | .bracketClose => "]"
  | .braceOpen => "\x7b" | .braceClose => "\x7d" | .semicolon => ";"
  | .pipe => "|" | .equals => "=" | .colon => ":" | .arrow => "->"
  | _ => ""

theorem stands_keyword {text : String} {kind : TokenKind} (h : (text, kind) ∈ keywords) :
    Stands kind text := by
  have hall : ∀ entry ∈ keywords, keyword? entry.1 = some entry.2 ∧
      (entry.1.toList.head?.any startsWord && entry.1.toList.tail.all continuesWord) := by
    decide
  obtain ⟨hkeyword, hchars⟩ := hall _ h
  cases htext : text.toList with
  | nil => simp [htext] at hchars
  | cons c tail =>
      have hspelled : String.ofList (c :: tail) = text := by
        rw [← htext, String.ofList_toList]
      simp only [htext, List.head?_cons, Option.any_some, List.tail_cons, Bool.and_eq_true,
        List.all_eq_true] at hchars
      rw [← hspelled]
      refine stands_word hchars.1 hchars.2 ?_
      rw [hspelled, wordKind, hkeyword]

theorem stands_spelling {kind : TokenKind} (h : kind.spelling ≠ "") :
    Stands kind kind.spelling := by
  by_cases hkeyword : (kind.spelling, kind) ∈ keywords
  · exact stands_keyword hkeyword
  cases kind
  case parenOpen => exact @stands_character '(' (by decide)
  case parenClose => exact @stands_character ')' (by decide)
  case bracketOpen => exact @stands_character '[' (by decide)
  case bracketClose => exact @stands_character ']' (by decide)
  case braceOpen => exact @stands_character '{' (by decide)
  case braceClose => exact @stands_character '}' (by decide)
  case semicolon => exact @stands_character ';' (by decide)
  case pipe | equals | colon => exact stands_operator (by decide) (by simp) rfl
  case arrow =>
      refine @stands_operator '-' ['>'] _ (by decide) (fun d hd => ?_) rfl
      rw [List.mem_singleton.mp hd]
      rfl
  all_goals first | exact absurd rfl h | exact absurd (by decide) hkeyword

/-- A kind of token that has only one spelling. -/
def TokenKind.IsSpelled (kind : TokenKind) : Prop :=
  match kind.spelling with
  | "" => False
  | _ => True

/-- Where the kind is given, `trivial` shows that it is spelled. -/
theorem TokenKind.spelled {kind : TokenKind} (h : kind.IsSpelled) : kind.spelling ≠ "" := by
  intro hempty
  rw [IsSpelled, hempty] at h
  exact h

-- The proof is a term on purpose: one that `decide` finds inside of a definition gets a name
-- that depends on what has been defined before.
/-- The word for a kind of token that has only one spelling. -/
def Word.fixed (kind : TokenKind)
    (h : kind.spelling ≠ "" := by exact TokenKind.spelled trivial) : Word :=
  ⟨kind, kind.spelling, stands_spelling h⟩

@[simp] theorem Word.kind_fixed (kind : TokenKind) (h : kind.spelling ≠ "") :
    (Word.fixed kind h).kind = kind := rfl

/-- The wildcard. -/
def Word.wildcard : Word :=
  ⟨.literal, "_", @stands_word '_' [] _ rfl (by simp) rfl⟩

/-! ## Syntax trees -/

/-- A word of a pattern. -/
structure PatternWord where
  word : Word
  allowed : word.kind ∈ [.ident, .literal, .parenOpen, .parenClose, .comma]

/-- What a binding binds: a value, or a function if it has parameters. -/
structure Header where
  isRec : Bool
  name : LowerName
  params : List LowerName

mutual

/-- An atom of an expression. -/
inductive Atom where
  | ident (name : Lexeme .ident)
  | literal (value : Lexeme .literal)
  | parens (inner : Expr)
  | brackets (inner : Expr)
  | unit
  | block (inner : Body)

/-- One atom or more, side by side. -/
inductive Atoms where
  | one (atom : Atom)
  | more (atom : Atom) (atoms : Atoms)

/-- An expression. -/
inductive Expr where
  | apply (atoms : Atoms)
  | binary (left : Expr) (operator : Lexeme .operator) (right : Expr)
  | sequence (left right : Expr)
  | ifThen (condition yes : Expr)
  | ifThenElse (condition yes no : Expr)
  | letIn (header : Header) (bound : Body) (inner : Expr)
  | lambda (param : LowerName) (params : List LowerName) (inner : Expr)

/-- The body of a binding. -/
inductive Body where
  | expr (inner : Expr)
  | matchWith (scrutinee : Expr) (bar : Bool) (cases : Cases)
  | function (bar : Bool) (cases : Cases)
  | letIn (header : Header) (bound inner : Body)

/-- The cases of a match. -/
inductive Cases where
  | one (pattern : List PatternWord) (body : Body)
  | more (pattern : List PatternWord) (body : Body) (cases : Cases)

end

/-- A constructor of a variant type, with the type that it carries. -/
structure Constructor where
  name : UpperName
  payload : Option LowerName

/-- A field of a record type, with its type. -/
structure Field where
  name : LowerName
  type : LowerName

/-- The right-hand side of a type definition. -/
inductive TypeBody where
  | abstract
  | synonym (type : LowerName)
  | variants (bar : Bool) (first : Constructor) (others : List Constructor)
  | record (first : Field) (others : List Field) (semicolon : Bool)

/-- The definition of a type. -/
structure TypeDef where
  name : LowerName
  body : TypeBody

/-- A value in a signature, with its type. -/
structure ValSpec where
  name : LowerName
  type : LowerName

/-- A method of a class. -/
structure Method where
  name : LowerName
  params : List LowerName
  body : Body

mutual

/-- A declaration. -/
inductive Item where
  | binding (header : Header) (body : Body)
  | unit (body : Body)
  | wildcard (body : Body)
  | types (first : TypeDef) (others : List TypeDef)
  | exceptionDef (name : UpperName) (payload : Option LowerName)
  | moduleDef (name : UpperName) (items : Program)
  | sealedModule (name : UpperName) (specs : List ValSpec) (items : Program)
  | classDef (name : LowerName) (methods : List Method)

/-- Declarations one after the other: a program, or what a module holds. -/
inductive Program where
  | empty
  | more (item : Item) (items : Program)

end

/-! ## The traversal -/

/-- What a word declares, and in which scope. -/
structure Mark where
  name : String
  kind : Kind
  isLocal : Bool
  scope : Option Scope

/-- A word of a program, with its mark if it declares something. -/
structure Piece where
  word : Word
  mark : Option Mark

/-- The scope that a declaration opens inside another scope. -/
def Scope.inside (outer : Option Scope) (kind : Kind) (name : String) : Option Scope :=
  some ⟨kind, outer.elim name (·.qualify name)⟩

/-- A word that declares nothing. -/
def Piece.silent (word : Word) : Piece :=
  ⟨word, none⟩

/-- A fixed word. -/
def Piece.fixed (kind : TokenKind)
    (h : kind.spelling ≠ "" := by exact TokenKind.spelled trivial) : Piece :=
  .silent (.fixed kind h)

/-- A fixed word that may be missing. -/
def Piece.optional (present : Bool) (kind : TokenKind)
    (h : kind.spelling ≠ "" := by exact TokenKind.spelled trivial) : List Piece :=
  if present then [.fixed kind h] else []

/-- A name that declares something between declarations. -/
def Lexeme.declares {kind : TokenKind} (lexeme : Lexeme kind) (sort : Kind)
    (scope : Option Scope) : Piece :=
  ⟨lexeme.word, some ⟨lexeme.text, sort, false, scope⟩⟩

/-- The parameters of a function or method with the given scope. -/
def paramPieces (scope : Option Scope) (params : List LowerName) : List Piece :=
  params.map fun param => ⟨param.word, some ⟨param.text, .variableDef, true, scope⟩⟩

namespace Header

/-- The kind of what is bound. -/
def kind (header : Header) : Kind :=
  if header.params.isEmpty then .variableDef else .functionDef

/-- The scope of the parameters and of what is bound to them. -/
def inner (header : Header) (scope : Option Scope) : Option Scope :=
  Scope.inside scope (if header.params.isEmpty then .valSpec else .functionDef) header.name.text

/-- A binding up to its `=`. -/
def pieces (header : Header) (isLocal : Bool) (scope : Option Scope) : List Piece :=
  Piece.optional header.isRec .kwRec
    ++ ⟨header.name.word, some ⟨header.name.text, header.kind, isLocal, scope⟩⟩
    :: paramPieces (header.inner scope) header.params

end Header

mutual

def Atom.pieces (scope : Option Scope) : Atom → List Piece
  | .ident name => [.silent name.word]
  | .literal value => [.silent value.word]
  | .parens inner => .fixed .parenOpen :: inner.pieces scope ++ [.fixed .parenClose]
  | .brackets inner => .fixed .bracketOpen :: inner.pieces scope ++ [.fixed .bracketClose]
  | .unit => [.fixed .parenOpen, .fixed .parenClose]
  | .block inner => .fixed .kwBegin :: inner.pieces scope ++ [.fixed .kwEnd]

def Atoms.pieces (scope : Option Scope) : Atoms → List Piece
  | .one atom => atom.pieces scope
  | .more atom atoms => atom.pieces scope ++ atoms.pieces scope

def Expr.pieces (scope : Option Scope) : Expr → List Piece
  | .apply atoms => atoms.pieces scope
  | .binary left operator right =>
    left.pieces scope ++ .silent operator.word :: right.pieces scope
  | .sequence left right => left.pieces scope ++ .fixed .semicolon :: right.pieces scope
  | .ifThen condition yes =>
    .fixed .kwIf :: condition.pieces scope ++ .fixed .kwThen :: yes.pieces scope
  | .ifThenElse condition yes no =>
    .fixed .kwIf :: condition.pieces scope ++ .fixed .kwThen :: yes.pieces scope
      ++ .fixed .kwElse :: no.pieces scope
  | .letIn header bound inner =>
    .fixed .kwLet :: header.pieces true scope ++ .fixed .equals
      :: bound.pieces (header.inner scope) ++ .fixed .kwIn :: inner.pieces scope
  | .lambda param params inner =>
    .fixed .kwFun :: paramPieces scope (param :: params) ++ .fixed .arrow :: inner.pieces scope

def Body.pieces (scope : Option Scope) : Body → List Piece
  | .expr inner => inner.pieces scope
  | .matchWith scrutinee bar cases =>
    .fixed .kwMatch :: scrutinee.pieces scope ++ .fixed .kwWith :: Piece.optional bar .pipe
      ++ cases.pieces scope
  | .function bar cases => .fixed .kwFunction :: Piece.optional bar .pipe ++ cases.pieces scope
  | .letIn header bound inner =>
    .fixed .kwLet :: header.pieces true scope ++ .fixed .equals
      :: bound.pieces (header.inner scope) ++ .fixed .kwIn :: inner.pieces scope

def Cases.pieces (scope : Option Scope) : Cases → List Piece
  | .one pattern body =>
    pattern.map (Piece.silent ·.word) ++ .fixed .arrow :: body.pieces scope
  | .more pattern body cases =>
    pattern.map (Piece.silent ·.word) ++ .fixed .arrow :: body.pieces scope
      ++ .fixed .pipe :: cases.pieces scope

end

/-- A constructor in the scope of its type. -/
def Constructor.pieces (scope : Option Scope) (constructor : Constructor) : List Piece :=
  constructor.name.declares .constructorDef scope
    :: constructor.payload.elim [] fun type => [.fixed .kwOf, .silent type.word]

/-- A field in the scope of its type. -/
def Field.pieces (scope : Option Scope) (field : Field) : List Piece :=
  [field.name.declares .fieldDef scope, .fixed .colon, .silent field.type.word]

/-- What follows the name of a type that has the given scope. -/
def TypeBody.pieces (scope : Option Scope) : TypeBody → List Piece
  | .abstract => []
  | .synonym type => [.fixed .equals, .silent type.word]
  | .variants bar first others =>
    .fixed .equals :: Piece.optional bar .pipe ++ first.pieces scope
      ++ others.flatMap fun constructor => .fixed .pipe :: constructor.pieces scope
  | .record first others semicolon =>
    .fixed .equals :: .fixed .braceOpen :: first.pieces scope
      ++ others.flatMap (fun field => .fixed .semicolon :: field.pieces scope)
      ++ Piece.optional semicolon .semicolon ++ [.fixed .braceClose]

def TypeDef.pieces (scope : Option Scope) (type : TypeDef) : List Piece :=
  type.name.declares .typeDef scope
    :: type.body.pieces (Scope.inside scope .typeDef type.name.text)

def ValSpec.pieces (scope : Option Scope) (spec : ValSpec) : List Piece :=
  [.fixed .kwVal, spec.name.declares .valSpec scope, .fixed .colon, .silent spec.type.word]

def Method.pieces (scope : Option Scope) (method : Method) : List Piece :=
  let inner := Scope.inside scope .methodDef method.name.text
  .fixed .kwMethod :: method.name.declares .methodDef scope :: paramPieces inner method.params
    ++ .fixed .equals :: method.body.pieces inner

mutual

def Item.pieces (scope : Option Scope) : Item → List Piece
  | .binding header body =>
    .fixed .kwLet :: header.pieces false scope ++ .fixed .equals
      :: body.pieces (header.inner scope)
  | .unit body =>
    [.fixed .kwLet, ⟨.fixed .parenOpen, some ⟨"()", .functionDef, false, scope⟩⟩,
      .fixed .parenClose, .fixed .equals] ++ body.pieces (Scope.inside scope .functionDef "()")
  | .wildcard body =>
    [.fixed .kwLet, ⟨.wildcard, some ⟨"_", .functionDef, false, scope⟩⟩, .fixed .equals]
      ++ body.pieces (Scope.inside scope .functionDef "_")
  | .types first others =>
    .fixed .kwType :: first.pieces scope
      ++ others.flatMap fun type => .fixed .kwAnd :: type.pieces scope
  | .exceptionDef name payload =>
    .fixed .kwException :: name.declares .exceptionDef scope
      :: payload.elim [] fun type => [.fixed .kwOf, .silent type.word]
  | .moduleDef name items =>
    .fixed .kwModule :: name.declares .moduleDef scope :: .fixed .equals :: .fixed .kwStruct
      :: items.pieces (Scope.inside scope .moduleDef name.text) ++ [.fixed .kwEnd]
  | .sealedModule name specs items =>
    let inner := Scope.inside scope .moduleDef name.text
    .fixed .kwModule :: name.declares .moduleDef scope :: .fixed .colon :: .fixed .kwSig
      :: specs.flatMap (ValSpec.pieces inner) ++ .fixed .kwEnd :: .fixed .equals
      :: .fixed .kwStruct :: items.pieces inner ++ [.fixed .kwEnd]
  | .classDef name methods =>
    .fixed .kwClass :: name.declares .classDef scope :: .fixed .equals :: .fixed .kwObject
      :: methods.flatMap (Method.pieces (Scope.inside scope .classDef name.text))
      ++ [.fixed .kwEnd]

def Program.pieces (scope : Option Scope) : Program → List Piece
  | .empty => []
  | .more item items => item.pieces scope ++ items.pieces scope

end

/-! ## Inside of modules -/

/-- The modules around a place, the innermost first, each with what follows its `end`. -/
inductive Nesting where
  | outside
  | inside (name : UpperName) (after : Program) (outer : Nesting)

namespace Nesting

/-- The scope inside the innermost module. -/
def scope : Nesting → Option Scope
  | .outside => none
  | .inside name _ outer => Scope.inside outer.scope .moduleDef name.text

/-- The modules without the innermost. -/
def left : Nesting → Nesting
  | .outside => .outside
  | .inside _ _ outer => outer

/-- The words that open the modules. -/
def opening : Nesting → List Piece
  | .outside => []
  | .inside name _ outer =>
    outer.opening ++ [.fixed .kwModule, name.declares .moduleDef outer.scope, .fixed .equals,
      .fixed .kwStruct]

/-- The words that close the modules, and what follows each `end`, with the scopes
that this has if the modules `opened` are taken to be around. -/
def closing : (levels opened : Nesting) → List Piece
  | .outside, _ => []
  | .inside _ after outer, opened =>
    .fixed .kwEnd :: after.pieces opened.left.scope ++ outer.closing opened.left

/-- The words that close modules, with the modules that are left on the stack
behind the first `end`. -/
def closingTo : (levels left : Nesting) → List Piece
  | .outside, _ => []
  | .inside _ after outer, left =>
    .fixed .kwEnd :: after.pieces left.scope ++ outer.closing left

end Nesting

/-! ## Chains -/

/-- A binding whose right-hand side is a literal. -/
structure LiteralBinding where
  name : LowerName
  params : List LowerName
  value : Lexeme .literal

/-- Bindings with `and` between them. -/
structure LetChain where
  isRec : Bool
  first : LiteralBinding
  others : List LiteralBinding

/-- The binding up to its `=`. -/
def LiteralBinding.header (binding : LiteralBinding) (isRec : Bool) : Header :=
  ⟨isRec, binding.name, binding.params⟩

def LiteralBinding.pieces (binding : LiteralBinding) (isRec isLocal : Bool)
    (scope : Option Scope) : List Piece :=
  (binding.header isRec).pieces isLocal scope ++ [.fixed .equals, .silent binding.value.word]

/-- The bindings behind the first one, as declarations or as local ones. -/
def chainedPieces (isLocal : Bool) (scope : Option Scope) (others : List LiteralBinding) :
    List Piece :=
  others.flatMap fun binding => .fixed .kwAnd :: binding.pieces false isLocal scope

def LetChain.pieces (chain : LetChain) (othersLocal : Bool) (scope : Option Scope) : List Piece :=
  .fixed .kwLet :: chain.first.pieces chain.isRec false scope
    ++ chainedPieces othersLocal scope chain.others

/-! ## Functions that bind patterns -/

/-- What a local binding binds. -/
inductive LocalPattern where
  | named (name : LowerName)
  | wildcard
  | unit
  | record (field : LowerName)

namespace LocalPattern

/-- Whether the pattern is a single word. -/
def isWord : LocalPattern → Bool
  | .named _ | .wildcard => true
  | .unit | .record _ => false

def pieces (scope : Option Scope) : LocalPattern → List Piece
  | .named name => [⟨name.word, some ⟨name.text, .variableDef, true, scope⟩⟩]
  | .wildcard => [⟨.wildcard, some ⟨"_", .variableDef, true, scope⟩⟩]
  | .unit => [.fixed .parenOpen, .fixed .parenClose]
  | .record field => [.fixed .braceOpen, .silent field.word, .fixed .braceClose]

end LocalPattern

/-- A local binding of a literal, with its `in`. -/
structure LocalBinding where
  pattern : LocalPattern
  value : Lexeme .literal

def LocalBinding.pieces (scope : Option Scope) (binding : LocalBinding) : List Piece :=
  .fixed .kwLet :: binding.pattern.pieces scope
    ++ [.fixed .equals, .silent binding.value.word, .fixed .kwIn]

/-- A parameter of a function. -/
inductive Param where
  | named (name : LowerName)
  | unit

def Param.pieces (scope : Option Scope) : Param → List Piece
  | .named name => [⟨name.word, some ⟨name.text, .variableDef, true, scope⟩⟩]
  | .unit => [.fixed .parenOpen, .fixed .parenClose]

/-- A function whose body is made of local bindings, one at least, and a name. -/
structure BindingFunction where
  isRec : Bool
  name : LowerName
  param : Param
  params : List Param
  first : LocalBinding
  others : List LocalBinding
  result : Lexeme .ident

namespace BindingFunction

def bindings (function : BindingFunction) : List LocalBinding :=
  function.first :: function.others

/-- Whether all patterns are single words. -/
def bindsWords (function : BindingFunction) : Bool :=
  function.bindings.all (·.pattern.isWord)

/-- The function up to the `=`. -/
def headPieces (function : BindingFunction) (scope : Option Scope) : List Piece :=
  .fixed .kwLet :: Piece.optional function.isRec .kwRec
    ++ function.name.declares .functionDef scope
    :: (function.param :: function.params).flatMap
      (Param.pieces (Scope.inside scope .functionDef function.name.text))

/-- The body of the function. -/
def bodyPieces (function : BindingFunction) (scope : Option Scope) : List Piece :=
  function.bindings.flatMap (LocalBinding.pieces scope) ++ [.silent function.result.word]

def pieces (function : BindingFunction) (scope : Option Scope) : List Piece :=
  function.headPieces scope ++ .fixed .equals
    :: function.bodyPieces (Scope.inside scope .functionDef function.name.text)

end BindingFunction

/-! ## Terms with matches -/

mutual

/-- An expression of names, values, application, brackets and matches. -/
inductive Term where
  | ident (name : Lexeme .ident)
  | literal (value : Lexeme .literal)
  | apply (callee argument : Term)
  | parens (inner : Term)
  | brackets (inner : Term)
  | matchWith (scrutinee : Term) (bar : Bool) (arms : Arms)
  | function (bar : Bool) (arms : Arms)

/-- The cases of a match. -/
inductive Arms where
  | one (pattern : List PatternWord) (body : Term)
  | more (pattern : List PatternWord) (body : Term) (arms : Arms)

end

mutual

def Term.pieces : Term → List Piece
  | .ident name => [.silent name.word]
  | .literal value => [.silent value.word]
  | .apply callee argument => callee.pieces ++ argument.pieces
  | .parens inner => .fixed .parenOpen :: inner.pieces ++ [.fixed .parenClose]
  | .brackets inner => .fixed .bracketOpen :: inner.pieces ++ [.fixed .bracketClose]
  | .matchWith scrutinee bar arms =>
    .fixed .kwMatch :: scrutinee.pieces ++ .fixed .kwWith :: Piece.optional bar .pipe ++ arms.pieces
  | .function bar arms => .fixed .kwFunction :: Piece.optional bar .pipe ++ arms.pieces

def Arms.pieces : Arms → List Piece
  | .one pattern body => pattern.map (Piece.silent ·.word) ++ .fixed .arrow :: body.pieces
  | .more pattern body arms =>
    pattern.map (Piece.silent ·.word) ++ .fixed .arrow :: body.pieces
      ++ .fixed .pipe :: arms.pieces

end

/-- A binding of a name to a literal. -/
structure NamedLiteral where
  name : LowerName
  value : Lexeme .literal

/-- The definition of a name by a term, with bindings of literals behind it. -/
structure TermDefinition where
  name : LowerName
  term : Term
  further : List NamedLiteral

/-- The definition without what stands behind it. -/
def TermDefinition.headPieces (source : TermDefinition) : List Piece :=
  .fixed .kwLet :: Header.pieces ⟨false, source.name, []⟩ false none ++ .fixed .equals
    :: source.term.pieces

/-! ## Bindings with separators -/

/-- A binding of a literal, and whether `;;` stands behind it. -/
structure SeparatedBinding where
  binding : LiteralBinding
  separated : Bool

/-- The `;;` behind a declaration, which may be missing. -/
def separatorPieces (present : Bool) : List Piece :=
  if present then [.fixed .semicolon, .fixed .semicolon] else []

def SeparatedBinding.pieces (scope : Option Scope) (item : SeparatedBinding) : List Piece :=
  .fixed .kwLet :: item.binding.pieces false false scope ++ separatorPieces item.separated

/-! ## Headers of modules -/

/-- The dot in a path. -/
def Word.dot : Word :=
  ⟨.operator, ".", @stands_operator '.' [] _ (by decide) (by simp) rfl⟩

/-- The path to a module or to a signature: names with dots between them. -/
structure NamePath where
  first : Lexeme .ident
  others : List (Lexeme .ident)

/-- The words behind the first name of a path. -/
def NamePath.tail (path : NamePath) : List Word :=
  path.others.flatMap fun name => [.dot, name.word]

def NamePath.words (path : NamePath) : List Word :=
  path.first.word :: path.tail

/-- The parameter of a functor. -/
structure ModuleParam where
  name : UpperName
  signature : NamePath

def ModuleParam.words (param : ModuleParam) : List Word :=
  .fixed .parenOpen :: param.name.word :: .fixed .colon :: param.signature.words
    ++ [.fixed .parenClose]

/-- What a module is sealed by. -/
inductive Seal where
  | unsealed
  | named (signature : NamePath)
  /-- A signature in which a type is given. -/
  | constrained (signature : NamePath) (type definition : LowerName)

/-- The header of a module, up to its `struct`. -/
structure ModuleHeader where
  name : UpperName
  param : Option ModuleParam
  sealedBy : Seal

/-- What seals a module, where the type that is given has a mark or not. -/
def Seal.pieces (typeMark : Option Mark) : Seal → List Piece
  | .unsealed => []
  | .named signature => .fixed .colon :: signature.words.map .silent
  | .constrained signature type definition =>
    .fixed .colon :: signature.words.map .silent ++ [.fixed .kwWith, .fixed .kwType,
      ⟨type.word, typeMark⟩, .fixed .equals, .silent definition.word]

def ModuleHeader.pieces (header : ModuleHeader) (typeMark : Option Mark) (scope : Option Scope) :
    List Piece :=
  .fixed .kwModule :: header.name.declares .moduleDef scope
    :: (header.param.elim [] ModuleParam.words).map .silent ++ header.sealedBy.pieces typeMark
    ++ [.fixed .equals, .fixed .kwStruct]

/-- A module inside of modules, and what stands behind it. -/
structure HeadedModule where
  levels : Nesting
  header : ModuleHeader
  items : Program
  behind : Program

namespace HeadedModule

/-- The words with the marks that they have if the modules `opened` are on the
stack behind the header. -/
def pieces (source : HeadedModule) (typeMark : Option Mark) (opened : Nesting) : List Piece :=
  source.levels.opening ++ source.header.pieces typeMark source.levels.scope
    ++ source.items.pieces opened.scope ++ .fixed .kwEnd
    :: (source.behind.pieces opened.left.scope ++ source.levels.closing opened.left)

end HeadedModule

/-! ## Signatures -/

mutual

/-- A value or a module in a signature. -/
inductive SignatureItem where
  | value (spec : ValSpec)
  | submodule (name : UpperName) (items : Signature)

/-- What stands between `sig` and `end`. -/
inductive Signature where
  | empty
  | more (item : SignatureItem) (items : Signature)

end

mutual

def SignatureItem.pieces (scope : Option Scope) : SignatureItem → List Piece
  | .value spec => spec.pieces scope
  | .submodule name items =>
    .fixed .kwModule :: name.declares .moduleDef scope :: .fixed .colon :: .fixed .kwSig
      :: items.pieces (Scope.inside scope .moduleDef name.text) ++ [.fixed .kwEnd]

def Signature.pieces (scope : Option Scope) : Signature → List Piece
  | .empty => []
  | .more item items => item.pieces scope ++ items.pieces scope

end

mutual

/-- The module whose header is the last one so far, behind an item of a signature. -/
def SignatureItem.lastHeader (before : UpperName) : SignatureItem → UpperName
  | .value _ => before
  | .submodule name items => items.lastHeader name

/-- The module whose header is the last one so far, behind a signature. -/
def Signature.lastHeader (before : UpperName) : Signature → UpperName
  | .empty => before
  | .more item items => items.lastHeader (item.lastHeader before)

end

/-- A module with its signature inside of modules, and what stands behind it. -/
structure SignedModule where
  levels : Nesting
  name : UpperName
  signature : Signature
  items : Program
  behind : Program

namespace SignedModule

/-- The words with the marks that they have if the structure is that of a module
with the given name. -/
def pieces (source : SignedModule) (structure_ : UpperName) : List Piece :=
  let inner := Scope.inside source.levels.scope .moduleDef source.name.text
  let body := Scope.inside source.levels.scope .moduleDef structure_.text
  source.levels.opening
    ++ (.fixed .kwModule :: source.name.declares .moduleDef source.levels.scope :: .fixed .colon
      :: .fixed .kwSig :: source.signature.pieces inner)
    ++ (.fixed .kwEnd :: .fixed .equals :: .fixed .kwStruct :: source.items.pieces body
      ++ [.fixed .kwEnd])
    ++ (source.behind.pieces source.levels.scope ++ source.levels.closing source.levels)

end SignedModule

/-! ## Types in the header of a binding -/

/-- A type of names, arrows and parentheses. -/
inductive TypeExpr where
  | named (name : LowerName)
  | applied (argument : TypeExpr) (constructor : LowerName)
  | arrow (domain codomain : TypeExpr)
  | parens (inner : TypeExpr)

namespace TypeExpr

def words : TypeExpr → List Word
  | .named name => [name.word]
  | .applied argument constructor => argument.words ++ [constructor.word]
  | .arrow domain codomain => domain.words ++ .fixed .arrow :: codomain.words
  | .parens inner => .fixed .parenOpen :: inner.words ++ [.fixed .parenClose]

/-- Whether all arrows stand in parentheses. -/
def isGuarded : TypeExpr → Bool
  | .named _ | .parens _ => true
  | .applied argument _ => argument.isGuarded
  | .arrow _ _ => false

end TypeExpr

/-- The type of a result, whose arrows all stand in parentheses. -/
structure ResultType where
  type : TypeExpr
  guarded : type.isGuarded = true

/-- A parameter, which may have a type. -/
structure TypedParam where
  name : LowerName
  type : Option TypeExpr

def TypedParam.words (param : TypedParam) : List Word :=
  match param.type with
  | none => [param.name.word]
  | some type =>
    .fixed .parenOpen :: param.name.word :: .fixed .colon :: type.words ++ [.fixed .parenClose]

/-- A name or a literal. -/
inductive Operand where
  | ident (name : Lexeme .ident)
  | literal (value : Lexeme .literal)

namespace Operand

def word : Operand → Word
  | .ident name => name.word
  | .literal value => value.word

def atom : Operand → Atom
  | .ident name => .ident name
  | .literal value => .literal value

end Operand

/-- A binding whose parameters and result may have types.  Its body is made of
local bindings of literals and an operand. -/
structure TypedFunction where
  isRec : Bool
  name : LowerName
  params : List TypedParam
  result : Option ResultType
  bindings : List NamedLiteral
  value : Operand

namespace TypedFunction

/-- The words between the name and the `=`. -/
def headerWords (function : TypedFunction) : List Word :=
  function.params.flatMap TypedParam.words
    ++ function.result.elim [] fun result => .fixed .colon :: result.type.words

/-- The binding without its types. -/
def header (function : TypedFunction) : Header :=
  ⟨function.isRec, function.name, function.params.map TypedParam.name⟩

end TypedFunction

/-- An operand behind local bindings. -/
def localBody (value : Operand) (bindings : List NamedLiteral) : Body :=
  bindings.foldr
    (fun binding body =>
      .letIn ⟨false, binding.name, []⟩ (.expr (.apply (.one (.literal binding.value)))) body)
    (.expr (.apply (.one value.atom)))

/-! ## Signatures with types -/

/-- Whether the machine still has a type on its stack behind the last word of its
definition: that is so behind another name, behind a payload and behind a record
whose last field has no semicolon. -/
def TypeBody.lingers : TypeBody → Bool
  | .abstract => false
  | .synonym _ => true
  | .variants _ first others => (others.getLastD first).payload.isSome
  | .record _ _ semicolon => !semicolon

def TypeDef.lingers (type : TypeDef) : Bool :=
  type.body.lingers

mutual

/-- A type, a value or a module in a signature. -/
inductive InterfaceItem where
  | type (definition : TypeDef)
  | value (spec : ValSpec)
  | submodule (name : UpperName) (items : Interface)

/-- What a signature specifies. -/
inductive Interface where
  | empty
  | more (item : InterfaceItem) (items : Interface)

end

/-- The type around what follows an item, if those that satisfy `lingers` stay
around and `around` was in front of the item. -/
def InterfaceItem.behind (lingers : TypeDef → Bool) (around : Option LowerName) :
    InterfaceItem → Option LowerName
  | .type definition => if lingers definition then some definition.name else none
  | .value _ => around
  | .submodule _ _ => none

mutual

/-- The words of an item, where a value has the type `around` it for its scope. -/
def InterfaceItem.pieces (lingers : TypeDef → Bool) (scope : Option Scope)
    (around : Option LowerName) : InterfaceItem → List Piece
  | .type definition => .fixed .kwType :: definition.pieces scope
  | .value spec =>
    spec.pieces (around.elim scope fun type => Scope.inside scope .typeDef type.text)
  | .submodule name items =>
    .fixed .kwModule :: name.declares .moduleDef scope :: .fixed .colon :: .fixed .kwSig
      :: items.pieces lingers (Scope.inside scope .moduleDef name.text) none ++ [.fixed .kwEnd]

def Interface.pieces (lingers : TypeDef → Bool) (scope : Option Scope)
    (around : Option LowerName) : Interface → List Piece
  | .empty => []
  | .more item items =>
    item.pieces lingers scope around ++ items.pieces lingers scope (item.behind lingers around)

end

/-! ## Variant types -/

/-- The sign in front of an attribute. -/
def Word.attributeSign : Word :=
  ⟨.operator, "@", @stands_operator '@' [] _ (by decide) (by simp) rfl⟩

/-- What stands behind the name of a constructor. -/
inductive ConstructorForm where
  | plain
  | payload (type : LowerName)
  | attributed (name : Lexeme .ident)
  | signature (argument result : LowerName)

/-- A constructor of a variant type. -/
structure Variant where
  name : UpperName
  form : ConstructorForm

/-- A variant type. -/
structure VariantType where
  name : LowerName
  bar : Bool
  first : Variant
  others : List Variant

namespace ConstructorForm

def words : ConstructorForm → List Word
  | .plain => []
  | .payload type => [.fixed .kwOf, type.word]
  | .attributed name => [.fixed .bracketOpen, .attributeSign, name.word, .fixed .bracketClose]
  | .signature argument result =>
    [.fixed .colon, argument.word, .fixed .arrow, result.word]

/-- Whether the type may be over behind the name of the constructor, as far as
the word behind the name tells. -/
def leaves : ConstructorForm → Bool
  | .plain | .payload _ => false
  | .attributed _ | .signature _ _ => true

end ConstructorForm

def Variant.pieces (scope : Option Scope) (variant : Variant) : List Piece :=
  variant.name.declares .constructorDef scope :: variant.form.words.map .silent

/-! ## Classes with members of all sorts -/

/-- A keyword that has no spelling of its own in the core. -/
def Word.keyword (text : String) (kind : TokenKind) (h : (text, kind) ∈ keywords := by decide) :
    Word :=
  ⟨kind, text, stands_keyword h⟩

/-- A keyword that may be missing. -/
def Word.optional (present : Bool) (text : String) (kind : TokenKind)
    (h : (text, kind) ∈ keywords := by decide) : List Word :=
  if present then [.keyword text kind h] else []

/-- What stands between `class` and the name. -/
inductive ClassSort where
  | plain
  | isVirtual
  | isType

def ClassSort.words : ClassSort → List Word
  | .plain => []
  | .isVirtual => [.keyword "virtual" .kwVirtual]
  | .isType => [.fixed .kwType]

/-- A member of a class. -/
inductive Member where
  | method (isPrivate : Bool) (name : LowerName) (params : List LowerName)
      (value : Lexeme .literal)
  /-- A method with its type alone. -/
  | signature (isPrivate isVirtual : Bool) (name type : LowerName)
  | variable (isMutable : Bool) (name : LowerName) (value : Lexeme .literal)

/-- A class or the type of one. -/
structure ClassDef where
  sort : ClassSort
  name : LowerName
  members : List Member

namespace Member

def name : Member → LowerName
  | .method _ name _ _ | .signature _ _ name _ | .variable _ name _ => name

/-- The words of a member, with the mark of its name, the scope of its
parameters and the mark of its type. -/
def pieces (nameMark : Option Mark) (inner : Option Scope) (typeMark : Option Mark) :
    Member → List Piece
  | .method isPrivate name params value =>
    .fixed .kwMethod :: (Word.optional isPrivate "private" .kwPrivate).map .silent
      ++ ⟨name.word, nameMark⟩ :: paramPieces inner params
      ++ [.fixed .equals, .silent value.word]
  | .signature isPrivate isVirtual name type =>
    .fixed .kwMethod :: (Word.optional isPrivate "private" .kwPrivate
        ++ Word.optional isVirtual "virtual" .kwVirtual).map .silent
      ++ [⟨name.word, nameMark⟩, .fixed .colon, ⟨type.word, typeMark⟩]
  | .variable isMutable name value =>
    .fixed .kwVal :: (Word.optional isMutable "mutable" .kwMutable).map .silent
      ++ [⟨name.word, nameMark⟩, .fixed .equals, .silent value.word]

/-- What a member is declared as. -/
def kind : Member → Kind
  | .method _ _ _ _ | .signature _ _ _ _ => .methodDef
  | .variable _ _ _ => .valSpec

/-- A member as it is meant, in the scope of its class. -/
def meant (scope : Option Scope) (member : Member) : List Piece :=
  member.pieces (some ⟨member.name.text, member.kind, false, scope⟩)
    (Scope.inside scope .methodDef member.name.text) none

end Member

end CamlIndex
