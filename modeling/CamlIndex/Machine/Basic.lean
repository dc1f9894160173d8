import CamlIndex.ScopeStack
import CamlIndex.Token.Basic

/-!
# The machine that finds declarations

The machine reads a text token by token, always with the next token in view.
It builds no syntax tree.  Its mode says which rule of the grammar is being
read, and its stack of scopes says where: both change with each token, and a
declaration that the machine recognises is noted together with the scope that
is innermost at that moment.

What the machine notes depends on tokens and on the capacity of the stack
alone.  Which declarations are wanted, and on which lines they stand, is decided
afterwards from the notes (`CamlIndex.Extraction`).

This file holds the machine's state and the few things a rule of the grammar
can do: change the mode, note a declaration, push a frame, unwind, start to skip.
-/

namespace CamlIndex

/-- A declaration as the machine finds it: located by the offset of its name. -/
structure Declaration where
  name : String
  kind : Kind
  offset : Nat
  scope : Option Scope
  deriving DecidableEq, Repr

/-- What can be told about reading one token. -/
inductive Note where
  /-- A declaration was recognised.  A local one is a parameter or belongs to an
  expression. -/
  | declared (declaration : Declaration) (isLocal : Bool)
  /-- The stack of scopes was full; the token being read starts at `offset`. -/
  | refused (offset : Nat)
  /-- A token changed the mode. -/
  | moved (token : TokenKind) (before after : Mode)
  deriving DecidableEq, Repr

/-- What the skipping modes wait for, and the mode that follows. -/
structure Skip where
  waited : TokenKind := .eof
  terminating : TokenKind := .eof
  resume : Mode := .topLevel
  deriving DecidableEq, Repr

/-- Closing brackets less opening brackets, by shape, since a skip began. -/
structure Balance where
  parens : Int := 0
  brackets : Int := 0
  braces : Int := 0
  deriving DecidableEq, Repr

namespace Balance

/-- Whether every bracket has found its partner. -/
def isEven (balance : Balance) : Bool :=
  balance.parens == 0 && balance.brackets == 0 && balance.braces == 0

/-- The balance after one more token. -/
def count (balance : Balance) : TokenKind → Balance
  | .parenOpen => { balance with parens := balance.parens - 1 }
  | .parenClose => { balance with parens := balance.parens + 1 }
  | .braceOpen => { balance with braces := balance.braces - 1 }
  | .braceClose => { balance with braces := balance.braces + 1 }
  | .bracketOpen => { balance with brackets := balance.brackets - 1 }
  | .bracketClose => { balance with brackets := balance.brackets + 1 }
  | _ => balance

end Balance

/-- The state between two tokens. -/
structure Machine where
  mode : Mode
  stack : ScopeStack
  skip : Skip
  balance : Balance
  /-- The mode that an `and` between declarations returns to. -/
  chained : Mode
  /-- The innermost boundary belongs to a finished declaration and goes with the next one. -/
  closing : Bool
  /-- The name of the last module header. -/
  moduleName : String
  /-- The name of the last class header. -/
  className : String
  /-- A constructor that the next token may turn into a module path. -/
  staged : Option Declaration
  /-- The label being read has been noted. -/
  labelNoted : Bool
  /-- Parentheses open in a labelled parameter. -/
  labelDepth : Int
  /-- Parentheses open in an optional parameter. -/
  optionalDepth : Int
  /-- Where the token being read starts. -/
  offset : Nat
  /-- What has been noted, the latest first. -/
  notes : List Note
  deriving DecidableEq, Repr

namespace Machine

/-- The machine before the first token, with room for `capacity` frames. -/
def start (capacity : Nat) : Machine where
  mode := .topLevel
  stack := .empty capacity
  skip := {}
  balance := {}
  chained := .topLevel
  closing := false
  moduleName := ""
  className := ""
  staged := none
  labelNoted := false
  labelDepth := 0
  optionalDepth := 0
  offset := 0
  notes := []

/-- The machine in another mode. -/
def goto (m : Machine) (mode : Mode) : Machine :=
  { m with mode }

/-- The machine with one more note. -/
def note (m : Machine) (entry : Note) : Machine :=
  { m with notes := entry :: m.notes }

/-! ## Declarations -/

/-- The declaration of `name` at a token, in the innermost scope. -/
def declaration (m : Machine) (name : String) (token : Token) (kind : Kind) : Declaration :=
  ⟨name, kind, token.start, m.stack.scope?⟩

/-- Notes a declaration that has another name than its token. -/
def declareAs (m : Machine) (name : String) (token : Token) (kind : Kind) : Machine :=
  m.note (.declared (m.declaration name token kind) false)

/-- Notes the declaration that a token names. -/
def declare (m : Machine) (token : Token) (kind : Kind) : Machine :=
  m.declareAs token.text token kind

/-- Notes the declaration of a name that only an expression sees. -/
def declareLocal (m : Machine) (token : Token) (kind : Kind) : Machine :=
  m.note (.declared (m.declaration token.text token kind) true)

/-- Holds a constructor back until the next token. -/
def stage (m : Machine) (token : Token) : Machine :=
  { m with staged := some (m.declaration token.text token .constructorDef) }

/-- Drops the constructor that was held back. -/
def withdraw (m : Machine) : Machine :=
  { m with staged := none }

/-- Notes the constructor that was held back, if there is one. -/
def confirm (m : Machine) : Machine :=
  match m.staged with
  | some declaration => m.withdraw.note (.declared declaration false)
  | none => m

/-! ## Scopes -/

/-- Pushes a frame, and notes it if the stack is full. -/
def push (m : Machine) (boundary : Bool) (role : Role) (resume : Mode) (name : String) : Machine :=
  let pushed := { m with stack := m.stack.push boundary role resume name }
  if m.stack.isFull then pushed.note (.refused m.offset) else pushed

/-- Pushes the frame of a declaration, after which the top level resumes. -/
def pushBoundary (m : Machine) (role : Role) (name : String) : Machine :=
  m.push true role .topLevel name

/-- Pushes a frame that lives inside an expression. -/
def pushSoft (m : Machine) (resume : Mode) (role : Role) (name : String) : Machine :=
  m.push false role resume name

/-- Pushes a mark where to resume. -/
def pushMark (m : Machine) (resume : Mode) : Machine :=
  m.push false .valueScope resume ""

/-- Takes off the innermost named frame with all inside it, and resumes. -/
def popToNamed (m : Machine) : Machine :=
  { m with stack := m.stack.popToNamed.1, mode := m.stack.popToNamed.2 }

/-- Takes off one frame and resumes. -/
def pop (m : Machine) : Machine :=
  { m with stack := m.stack.pop.1, mode := m.stack.pop.2 }

/-- Takes off the innermost boundary with all inside it, and resumes. -/
def popBoundary (m : Machine) : Machine :=
  { m with stack := m.stack.popBoundary.1, mode := m.stack.popBoundary.2.1 }

/-- The role of the innermost boundary. -/
def boundaryRole? (m : Machine) : Option Role :=
  m.stack.popBoundary.2.2

/-- Returns to the innermost match, if there is one. -/
def returnToMatch (m : Machine) : Machine :=
  match m.stack.returnToMatch? with
  | some (stack, resume) => { m with stack, mode := resume }
  | none => m

/-- Leaves the declaration that has ended, if one waits for that. -/
def closePrevious (m : Machine) : Machine :=
  if m.closing then { m with closing := false }.popBoundary else m

/-- Leaves what an `end` closes, and tells its role.  Bindings, types and
matches have no `end` of their own: they are left on the way. -/
def closeEnd (m : Machine) : Machine × Option Role :=
  match m.boundaryRole? with
  | some .valueScope | some .functionScope | some .methodScope | some .typeScope
  | some .matchScope => (m.popBoundary.popBoundary, m.popBoundary.boundaryRole?)
  | role => (m.popBoundary, role)

/-! ## Skipping -/

/-- Skips in a skipping mode until `waited`, then goes on in `resume`. -/
def skipTo (m : Machine) (mode : Mode) (waited : TokenKind) (resume : Mode) : Machine :=
  { m with
    mode
    skip := { m.skip with waited, resume }
    balance := if mode = .skipBalanced then {} else m.balance }

/-- Skips until `waited`, then goes on in `resume`; `terminating` gives up. -/
def skipToOrStop (m : Machine) (waited terminating : TokenKind) (resume : Mode) : Machine :=
  { m with skip := { m.skip with terminating } }.skipTo .skipOpenTo waited resume

/-- Skips the next token, then goes on in `resume`. -/
def skipNext (m : Machine) (resume : Mode) : Machine :=
  { m with mode := .skipOne, skip := { m.skip with resume } }

end Machine

end CamlIndex
