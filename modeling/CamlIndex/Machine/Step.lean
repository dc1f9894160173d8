import CamlIndex.Machine.Binding
import CamlIndex.Machine.Definition
import CamlIndex.Token.Window

/-!
# One token after the other

`Machine.step` reads one token by the rule of the current mode and notes
whether the mode has changed.  A text is read by sliding the window over it
(`Machine.read`); at the end of the text a constructor that is still held back
is confirmed.
-/

namespace CamlIndex.Machine

/-- Reads a token by the rule of the current mode. -/
def dispatch (m : Machine) (current next : Token) : Machine :=
  match m.mode with
  | .topLevel => m.atTopLevel current next
  | .letName => m.atLetName current next
  | .localLetName => m.atLocalLetName current next
  | .parameters => m.atParameters current
  | .labelled => m.atLabelled current
  | .optional => m.atOptional current
  | .bodyStart => m.atBodyStart current next
  | .expression => m.atExpression current next
  | .pattern => m.atPattern current next
  | .typeName => m.atTypeName current next
  | .typeBody => m.atTypeBody current
  | .recordFields => m.atRecordFields current
  | .constructorCheck => m.atConstructorCheck current next
  | .exceptionName => m.atExceptionName current next
  | .valName => m.atValName current
  | .moduleName => m.atModuleName current next
  | .moduleBody => m.atModuleBody current next
  | .className => m.atClassName current
  | .classBody => m.atClassBody current
  | .methodName => m.atMethodName current next
  | .skipUntil => m.atSkipUntil current
  | .skipBalanced => m.atSkipBalanced current next
  | .skipOpen => m.atSkipOpen current next
  | .skipOpenTo => m.atSkipOpenTo current next
  | .skipOne => m.goto m.skip.resume

/-- Reads a token, with the next one in view. -/
def step (m : Machine) (current next : Token) : Machine :=
  let after := { m with offset := current.start }.dispatch current next
  if m.mode = after.mode then after else after.note (.moved current.kind m.mode after.mode)

/-- Reads the tokens that a window has still to show, and ends the text. -/
def read (m : Machine) (window : Window) : Machine :=
  (window.fold step m).confirm

/-- What the machine notes about a text, in the order of the text, with room
for `capacity` frames. -/
def notesOf (capacity : Nat) (text : String) : List Note :=
  ((start capacity).read (.ofText text)).notes.reverse

end CamlIndex.Machine
