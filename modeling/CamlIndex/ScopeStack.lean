import CamlIndex.Tag

/-!
# The stack of scopes

While a text is read, the scopes that are open at the current token lie on a
stack of frames, the innermost first.  A frame remembers the mode in which
reading goes on once the frame has been taken off.  Boundary frames belong to
declarations and blocks; the others come and go inside an expression.

A frame with a name is a scope.  Its name is qualified when it is pushed: the
nearest named frame gives the front, and the role of that frame the separator.
Frames without a name only mark where to resume and take no part in names.

The stack holds `capacity` frames at most.  A push onto a full stack is refused
and counted, so deeper nesting loses scopes but nothing else.
-/

namespace CamlIndex

/-- What the machine is reading, one mode for each rule of its grammar. -/
inductive Mode where
  /-- Between declarations. -/
  | topLevel
  /-- After `let` between declarations, before the bound name. -/
  | letName
  /-- After `let` inside an expression, before the bound name. -/
  | localLetName
  /-- In the parameters of a binding, up to `=` or `->`. -/
  | parameters
  /-- In a labelled parameter. -/
  | labelled
  /-- In an optional parameter. -/
  | optional
  /-- Where an expression starts, so that a local declaration may come. -/
  | bodyStart
  /-- Inside an expression. -/
  | expression
  /-- In the pattern of a `match` or `function`. -/
  | pattern
  /-- After `type`, before the name. -/
  | typeName
  /-- After the `=` of a type definition. -/
  | typeBody
  /-- In the fields of a record type. -/
  | recordFields
  /-- After a capitalised name in a type body: a constructor or a module path. -/
  | constructorCheck
  /-- After `exception`. -/
  | exceptionName
  /-- After `val`. -/
  | valName
  /-- After `module`, before the name. -/
  | moduleName
  /-- After the name of a module, before its body. -/
  | moduleBody
  /-- After `class`, before the name. -/
  | className
  /-- After the `=` of a class. -/
  | classBody
  /-- After `method`, before the name. -/
  | methodName
  /-- Skipping to a token; `end` gives up. -/
  | skipUntil
  /-- Skipping to a token outside of brackets. -/
  | skipBalanced
  /-- Skipping to a token while declarations may start. -/
  | skipOpen
  /-- Skipping to a token while declarations may start; a second token gives up. -/
  | skipOpenTo
  /-- Skipping a single token. -/
  | skipOne
  deriving DecidableEq, Repr

/-- What a frame stands for. -/
inductive Role where
  | moduleScope | classScope | typeScope | valueScope | functionScope | methodScope
  | blockScope | matchScope
  deriving DecidableEq, Repr

namespace Role

/-- What stands between the name of such a frame and a name inside it. -/
def separator : Role → Char
  | .moduleScope | .functionScope | .valueScope | .methodScope => '/'
  | .typeScope => '.'
  | .classScope => '#'
  | .blockScope => ' '
  | .matchScope => '|'

/-- The kind of scope that such a frame is for the declarations inside it. -/
def scopeKind? : Role → Option Kind
  | .functionScope => some .functionDef
  | .methodScope => some .methodDef
  | .valueScope => some .valSpec
  | .moduleScope => some .moduleDef
  | .typeScope => some .typeDef
  | .classScope => some .classDef
  | .blockScope | .matchScope => none

end Role

/-- An open scope or a mark where to resume. -/
structure Frame where
  /-- Whether leaving a declaration or block stops at this frame. -/
  boundary : Bool
  role : Role
  /-- The mode in which reading goes on after this frame. -/
  resume : Mode
  /-- The qualified name; empty for a mark. -/
  name : String
  deriving DecidableEq, Repr

/-- Whether the frame is a scope for names. -/
def Frame.isNamed (frame : Frame) : Bool :=
  !frame.name.isEmpty

/-- The qualified name of `name` inside the scope of a frame. -/
def Frame.qualify (frame : Frame) (name : String) : String :=
  frame.name.push frame.role.separator ++ name

/-- Open frames, the innermost first, of which there may be `capacity`;
`refused` frames did not fit. -/
structure ScopeStack where
  frames : List Frame
  capacity : Nat
  refused : Nat
  deriving DecidableEq, Repr

namespace ScopeStack

/-- The number of frames that a stack holds unless told otherwise. -/
def defaultCapacity : Nat := 256

/-- The stack without frames. -/
def empty (capacity : Nat) : ScopeStack :=
  ⟨[], capacity, 0⟩

/-- The innermost named frame, which is the scope of what is declared now. -/
def nearestNamed? (stack : ScopeStack) : Option Frame :=
  stack.frames.find? Frame.isNamed

/-- The scope of what is declared now. -/
def scope? (stack : ScopeStack) : Option Scope := do
  let frame ← stack.nearestNamed?
  let kind ← frame.role.scopeKind?
  return ⟨kind, frame.name⟩

/-- The qualified name of something declared now; no name stays no name. -/
def qualify (stack : ScopeStack) (name : String) : String :=
  if name.isEmpty then "" else stack.nearestNamed?.elim name (·.qualify name)

/-- Whether another frame would be refused. -/
def isFull (stack : ScopeStack) : Bool :=
  stack.capacity ≤ stack.frames.length

/-- The stack with one more frame, if there is room. -/
def push (stack : ScopeStack) (boundary : Bool) (role : Role) (resume : Mode) (name : String) :
    ScopeStack :=
  if stack.isFull then { stack with refused := stack.refused + 1 }
  else { stack with frames := ⟨boundary, role, resume, stack.qualify name⟩ :: stack.frames }

/-- Takes off frames up to and including the innermost named one.  Without one
all frames go. -/
def popToNamed (stack : ScopeStack) : ScopeStack × Mode :=
  match stack.frames.dropWhile (! ·.isNamed) with
  | [] => ({ stack with frames := [] }, .topLevel)
  | frame :: outer => ({ stack with frames := outer }, frame.resume)

/-- Takes off one frame, whatever it is. -/
def pop (stack : ScopeStack) : ScopeStack × Mode :=
  match stack.frames with
  | [] => (stack, .topLevel)
  | frame :: outer => ({ stack with frames := outer }, frame.resume)

/-- Takes off frames up to and including the innermost boundary, and tells the
role of that.  Without one all frames go. -/
def popBoundary (stack : ScopeStack) : ScopeStack × Mode × Option Role :=
  match stack.frames.dropWhile (! ·.boundary) with
  | [] => ({ stack with frames := [] }, .topLevel, none)
  | frame :: outer => ({ stack with frames := outer }, frame.resume, some frame.role)

/-- Takes off the frames inside the innermost match, which stays, so that its
next alternative is still inside it.  Without one there is nothing to do. -/
def returnToMatch? (stack : ScopeStack) : Option (ScopeStack × Mode) :=
  match stack.frames.dropWhile (·.role != .matchScope) with
  | [] => none
  | frame :: outer => some ({ stack with frames := frame :: outer }, frame.resume)

/-- Forgets all frames and all refusals. -/
def clear (stack : ScopeStack) : ScopeStack :=
  { stack with frames := [], refused := 0 }

end ScopeStack

end CamlIndex
