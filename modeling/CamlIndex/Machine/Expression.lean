import CamlIndex.Machine.TopLevel

/-!
# Inside expressions

Expressions are walked, not parsed.  Only tokens that open or close a scope
matter: local bindings, brackets, `begin`, matches.  Each opening token pushes a
frame that says where to go on once the frame comes off, so the stack keeps
step with the nesting and later declarations find their scope.
-/

namespace CamlIndex.Machine

/-- Marks where the expression resumes, and reads a part of it. -/
def enterPart (m : Machine) : Machine :=
  (m.pushMark .expression).goto .bodyStart

/-- Opens the alternatives of a match. -/
def enterMatch (m : Machine) : Machine :=
  (m.pushSoft .pattern .matchScope "").goto .pattern

/-- An `and` inside an expression adds a binding.  Where a body should start
the binding that has just ended gives its place; elsewhere the innermost named
frame does, and with no frame left the `and` belongs to the top level. -/
def chainBinding (m : Machine) : Machine :=
  if m.mode = .bodyStart then (m.pop.pushMark .expression).goto .localLetName
  else
    let left := m.popToNamed
    left.goto (if left.stack.frames.isEmpty then .letName else .localLetName)

/-- A token inside an expression. -/
def atExpression (m : Machine) (current next : Token) : Machine :=
  match current.kind with
  | .pipe => m.returnToMatch
  | .parenClose | .bracketClose | .braceClose => m.pop
  | .parenOpen | .bracketOpen | .kwIf | .kwMatch => m.enterPart
  | .kwThen | .kwElse => m.pop.enterPart
  | .kwBegin => (m.push true .blockScope .expression "").goto .bodyStart
  | .kwIn => m.popToNamed.enterPart
  | .kwAnd => m.chainBinding
  | .kwWith => m.pop.enterMatch
  | .kwFunction => m.enterMatch
  | .kwFun => m.goto .parameters
  -- a record may hold `with`, so it is skipped as a whole
  | .braceOpen => (m.skipTo .skipBalanced .braceClose .expression).atSkipBalanced current next
  | .semicolon =>
    if next.kind = .semicolon then m.popBoundary.goto .topLevel else m.goto .bodyStart
  | .operator => m.goto .bodyStart
  | .kwDone => m
  | _ => { m with closing := true }.atTopLevel current next

/-- A token where an expression may start. -/
def atBodyStart (m : Machine) (current next : Token) : Machine :=
  match current.kind with
  | .kwLet | .kwValue => m.goto .localLetName
  | .kwVal => m.goto .valName
  | .kwObject =>
    { { m with className := "" }.push true .classScope .expression "" with
      closing := false, mode := .topLevel }
  | .kwFor | .kwWhile => m.skipTo .skipUntil .kwDo .bodyStart
  | .kwTry => m.pushSoft .pattern .functionScope current.text
  | .kwFunction => m.enterMatch
  | .kwFun => m.goto .parameters
  | .kwAnd => m.atExpression current next
  | _ => (m.goto .expression).atExpression current next

/-- A token of a pattern.  The variables of patterns are not declarations. -/
def atPattern (m : Machine) (current next : Token) : Machine :=
  match current.kind with
  | .arrow => (m.pushMark .pattern).goto .bodyStart
  | .kwIn => m.popToNamed
  | .kwValue => m.popToNamed.atExpression current next
  | .kwAnd | .kwEnd => m.atExpression current next
  | _ => m

end CamlIndex.Machine
