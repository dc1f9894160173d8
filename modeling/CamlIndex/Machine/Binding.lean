import CamlIndex.Machine.Expression

/-!
# Bindings and their parameters

A `let` binds a function if the token after its name can start a parameter, and
a value otherwise.  Between declarations it opens a boundary, inside an
expression a frame that `in` takes off again.
-/

namespace CamlIndex.Machine

/-- Whether a token right after a bound name starts a parameter. -/
def startsParameter (next : Token) : Bool :=
  match next.kind with
  | .ident | .parenOpen => true
  | .operator => next.initial? == some '~' || next.initial? == some '?'
  | _ => false

/-- The kind and the role of the binding whose name `next` follows. -/
def bindingOf (next : Token) : Kind × Role :=
  if startsParameter next then (.functionDef, .functionScope) else (.variableDef, .valueScope)

/-- Whether a token reads as a name that starts with an underscore. -/
def isWildcard (token : Token) : Bool :=
  token.initial? == some '_'

/-- Opens a binding between declarations; it ends when the next one starts. -/
def openBinding (m : Machine) (role : Role) (name : String) : Machine :=
  { m.pushBoundary role name with closing := true, mode := .parameters }

/-- A token between `let` and the name of a declaration.  `let ()` declares a
function of that name, and so does `let _`. -/
def atLetName (m : Machine) (current next : Token) : Machine :=
  match current.kind with
  | .parenOpen =>
    if next.kind = .parenClose then
      (m.declareAs "()" current .functionDef).openBinding .functionScope "()"
    else m
  | .kwMutable | .kwVirtual | .kwRec => m
  | .operator =>
    ((m.declare current .functionDef).pushBoundary .functionScope current.text).goto .parameters
  | .literal =>
    (if isWildcard current then m.declare current .functionDef else m).openBinding
      .functionScope current.text
  | .ident =>
    let (kind, role) := bindingOf next
    (m.declare current kind).openBinding role current.text
  | .kwEnd => m.atTopLevel current next
  | _ => m.goto .topLevel

/-- A token between `let` and the name of a local binding. -/
def atLocalLetName (m : Machine) (current next : Token) : Machine :=
  match current.kind with
  | .parenOpen | .kwRec => m
  | .operator =>
    ((m.declareLocal current .functionDef).pushSoft .bodyStart .functionScope current.text).goto
      .parameters
  | .ident =>
    let (kind, role) := bindingOf next
    ((m.declareLocal current kind).pushSoft .bodyStart role current.text).goto .parameters
  | .literal =>
    let (kind, role) := bindingOf next
    let noted := if isWildcard current then m.declareLocal current kind else m
    (noted.pushSoft .bodyStart role current.text).goto .parameters
  | .kwEnd => m.atExpression current next
  | _ => m.goto .expression

/-- Starts a parameter with a label. -/
def enterLabel (m : Machine) (mode : Mode) : Machine :=
  { m with labelNoted := false, mode }

/-- A token among the parameters of a binding. -/
def atParameters (m : Machine) (current : Token) : Machine :=
  match current.kind with
  | .arrow | .equals => m.goto .bodyStart
  | .ident => m.declareLocal current .variableDef
  | .operator =>
    match current.initial? with
    -- the type of the result
    | some ':' => m.skipTo .skipOpen .equals .bodyStart
    | some '~' => m.enterLabel .labelled
    | some '?' => m.enterLabel .optional
    | _ => m
  | _ => m

/-- Notes the name of a label unless it has one already. -/
def noteLabel (m : Machine) (token : Token) : Machine :=
  if m.labelNoted then m
  else { m.declareLocal token .variableDef with labelNoted := true }

/-- Whether the label has its name and all its parentheses are closed. -/
def labelComplete (m : Machine) : Bool :=
  m.labelDepth == 0 && m.labelNoted

/-- A token of `~label`, `~label:pattern` or `~(label : type)`. -/
def atLabelled (m : Machine) (current : Token) : Machine :=
  let otherwise := if m.labelComplete then (m.goto .parameters).atParameters current else m
  match current.kind with
  | .ident => m.noteLabel current
  | .parenOpen => { m with labelDepth := m.labelDepth + 1 }
  | .parenClose =>
    let closed := { m with labelDepth := m.labelDepth - 1 }
    if closed.labelDepth = 0 then closed.goto .parameters else closed
  -- the pattern behind the label is not a parameter of its own
  | .colon => if m.labelComplete then m.skipNext .parameters else otherwise
  | .operator => if current.initial? == some ':' then m.skipNext .parameters else otherwise
  | _ => otherwise

/-- A token of `?label` or `?(label = default)`. -/
def atOptional (m : Machine) (current : Token) : Machine :=
  match current.kind with
  | .ident =>
    if m.labelNoted then m
    else
      let noted := m.noteLabel current
      if m.optionalDepth = 0 then noted.goto .parameters else noted
  | .parenOpen => { m with optionalDepth := m.optionalDepth + 1 }
  | .parenClose =>
    let closed := { m with optionalDepth := m.optionalDepth - 1 }
    if closed.optionalDepth = 0 then closed.goto .parameters else closed
  | _ => m

end CamlIndex.Machine
