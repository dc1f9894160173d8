import CamlIndex.Machine.Basic

/-!
# Between declarations

`Machine.atTopLevel` knows the words that start a declaration and the `end`
that closes one.  It changes nothing on any other token.  That makes it the
rule to fall back on: whatever a rule does not expect goes to the top level, so
no later declaration is swallowed.

Skipping is built on it.  The balanced skip must not mistake a bracket inside
for the one it waits for, so it counts.
-/

namespace CamlIndex.Machine

/-- After the `end` of a module, `=` gives a sealed module its body and `and`
the group of modules its next one. -/
def afterModule (m : Machine) (next : Token) : Machine :=
  match next.kind with
  | .equals => { m with chained := .moduleName, mode := .moduleBody }
  | .kwAnd => m.goto .moduleName
  | _ => m

/-- An `end` closes the innermost module, class or block. -/
def readEnd (m : Machine) (next : Token) : Machine :=
  let (closed, role) := m.closeEnd
  let resumed := if role = some .moduleScope then closed.afterModule next else closed
  { resumed with closing := false }

/-- Starts a declaration of the sort that an `and` repeats. -/
def opening (m : Machine) (mode : Mode) : Machine :=
  { m.closePrevious with mode, chained := mode }

/-- A token between declarations. -/
def atTopLevel (m : Machine) (current next : Token) : Machine :=
  match current.kind with
  | .kwAnd => let left := m.closePrevious; left.goto left.chained
  | .kwType => m.opening .typeName
  | .kwClass => m.opening .className
  | .kwModule => m.opening .moduleName
  | .kwLet => m.opening .letName
  | .kwMethod => m.closePrevious.goto .methodName
  | .kwException => { m.closePrevious with mode := .exceptionName, chained := .topLevel }
  | .kwVal => m.goto .valName
  | .kwEnd => m.readEnd next
  | _ => m

/-! ## Skipping -/

/-- Skipping to a token; an `end` leaves the declaration. -/
def atSkipUntil (m : Machine) (current : Token) : Machine :=
  if current.kind = m.skip.waited then m.goto m.skip.resume
  else if current.kind = .kwEnd then m.popBoundary.goto .topLevel
  else m

/-- Skipping to a token that lies outside of brackets. -/
def atSkipBalanced (m : Machine) (current next : Token) : Machine :=
  let counted := { m with balance := m.balance.count current.kind }
  if current.kind = m.skip.waited ∧ counted.balance.isEven then counted.goto m.skip.resume
  else if current.kind = .kwEnd then counted.atTopLevel current next
  else counted

/-- Skipping to a token while declarations may start. -/
def atSkipOpen (m : Machine) (current next : Token) : Machine :=
  if current.kind = m.skip.waited then m.goto m.skip.resume
  else m.atTopLevel current next

/-- Skipping to a token while declarations may start; another token gives up. -/
def atSkipOpenTo (m : Machine) (current next : Token) : Machine :=
  if current.kind = m.skip.waited then m.goto m.skip.resume
  else if current.kind = m.skip.terminating then m.goto .topLevel
  else m.atTopLevel current next

end CamlIndex.Machine
