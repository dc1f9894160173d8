import CamlIndex.Machine.Expression

/-!
# Definitions of types, exceptions, modules and classes

These rules read what stands between a defining word and the body of the
definition.  A capitalised name in a type body is a constructor unless an
operator follows it, as in the module path `M.t`, so the machine holds it back
for one token.
-/

namespace CamlIndex.Machine

/-! ## Types -/

/-- A token between `type` and the name of the type. -/
def atTypeName (m : Machine) (current next : Token) : Machine :=
  match current.kind with
  | .prime => m.skipNext .typeName
  | .parenOpen => m.skipTo .skipUntil .parenClose .typeName
  | .kwRec => m
  | .ident =>
    let noted := m.declare current .typeDef
    if next.kind = .equals then
      { noted.pushBoundary .typeScope current.text with closing := true, mode := .typeBody }
    -- an abstract type, as in a signature
    else noted.goto .topLevel
  | _ => m.atTopLevel current next

/-- Looks for the next alternative of a type while declarations may start. -/
def seekAlternative (m : Machine) : Machine :=
  m.skipTo .skipOpen .pipe .typeBody

/-- A token of the right-hand side of a type definition. -/
def atTypeBody (m : Machine) (current : Token) : Machine :=
  match current.kind with
  | .ident =>
    if current.isCapitalized then (m.stage current).goto .constructorCheck else m.seekAlternative
  | .kwAnd => m.goto .typeName
  | .kwVal => m.goto .valName
  | .braceOpen => m.goto .recordFields
  | _ => m

/-- Leaves the type and what is inside it. -/
def leaveType (m : Machine) : Machine :=
  { m.popBoundary with closing := false }

/-- The token after a capitalised name in a type body.  After one that is
neither `of` nor `|` the type may be over, yet a later `|` still resumes it. -/
def atConstructorCheck (m : Machine) (current next : Token) : Machine :=
  match current.kind with
  | .operator => m.withdraw.leaveType
  | .kwOf => m.confirm.seekAlternative
  | .pipe => m.confirm.goto .typeBody
  | _ => m.confirm.leaveType.seekAlternative.atTopLevel current next

/-- A token among the fields of a record type. -/
def atRecordFields (m : Machine) (current : Token) : Machine :=
  match current.kind with
  | .ident => (m.declare current .fieldDef).skipToOrStop .semicolon .braceClose .recordFields
  | .braceClose => m.leaveType.goto .topLevel
  | _ => m

/-- The token after `exception`. -/
def atExceptionName (m : Machine) (current next : Token) : Machine :=
  (match current.kind with
    | .ident => m.declare current .exceptionDef
    | _ => m.atTopLevel current next).goto .topLevel

/-- A token between `val` and the name of the item. -/
def atValName (m : Machine) (current : Token) : Machine :=
  match current.kind with
  | .parenOpen | .kwRec => m
  | .ident | .operator => (m.declare current .valSpec).goto .topLevel
  | _ => m.goto .topLevel

/-! ## Modules -/

/-- A token between `module` and the name of the module.  Parameters and a
named signature stand between the name and the `=`. -/
def atModuleName (m : Machine) (current next : Token) : Machine :=
  match current.kind with
  | .ident =>
    let noted := { m.declare current .moduleDef with moduleName := current.text }
    match next.kind with
    | .colon | .equals => noted.goto .moduleBody
    | _ => noted.skipTo .skipBalanced .equals .moduleBody
  | _ => m

/-- A token between the name of a module and its body. -/
def atModuleBody (m : Machine) (current next : Token) : Machine :=
  match current.kind with
  | .kwFunctor => m.skipTo .skipBalanced .arrow .moduleBody
  | .kwStruct | .kwSig =>
    { m.pushBoundary .moduleScope m.moduleName with mode := .topLevel, closing := false }
  | .parenOpen => (m.skipTo .skipBalanced .parenClose .topLevel).atSkipBalanced current next
  | .colon | .equals => m
  | _ => { m with moduleName := "", mode := .topLevel }

/-! ## Classes -/

/-- A token between `class` and the name of the class. -/
def atClassName (m : Machine) (current : Token) : Machine :=
  match current.kind with
  | .ident =>
    { m.declare current .classDef with className := current.text }.skipTo
      .skipBalanced .equals .classBody
  | .bracketOpen => m.skipTo .skipUntil .bracketClose .className
  | _ => m

/-- The token after the `=` of a class: without `object` it is another name for
a class, which opens no scope. -/
def atClassBody (m : Machine) (current : Token) : Machine :=
  (match current.kind with
    | .kwObject => m.pushBoundary .classScope m.className
    | _ => { m with className := "" }).goto .topLevel

/-- A token between `method` and the name of the method. -/
def atMethodName (m : Machine) (current next : Token) : Machine :=
  match current.kind with
  | .parenOpen | .kwMutable | .kwVirtual | .kwPrivate | .kwRec => m
  | .ident =>
    ((m.declare current .methodDef).pushBoundary .methodScope current.text).goto .parameters
  | .kwEnd => m.atExpression current next
  | _ => m.goto .topLevel

end CamlIndex.Machine
