/-!
# Diagnostics

Reading a source text never fails, but its tags may be degraded.  A diagnostic
says so.  There is one reason today: scopes nested deeper than the stack of
scopes may grow.
-/

namespace CamlIndex

/-- How serious a diagnostic is. -/
inductive Severity where
  | error | warning | information
  deriving DecidableEq, Repr

/-- The full name of a severity, as records write it. -/
def Severity.name : Severity → String
  | .error => "error"
  | .warning => "warning"
  | .information => "information"

/-- The short name of a severity, as messages show it. -/
def Severity.label : Severity → String
  | .error => "error"
  | .warning => "warning"
  | .information => "info"

/-- A remark about the tags of one text; `line` counts from one. -/
structure Diagnostic where
  severity : Severity
  message : String
  code : Option String
  line : Nat
  deriving DecidableEq, Repr

namespace Diagnostic

/-- The severity and, in brackets, the code if there is one. -/
def heading (diagnostic : Diagnostic) : String :=
  match diagnostic.code with
  | some code => diagnostic.severity.label ++ " [" ++ code ++ "]"
  | none => diagnostic.severity.label

/-- The diagnostic as it is shown to people. -/
def display (diagnostic : Diagnostic) : String :=
  diagnostic.heading ++ ": " ++ diagnostic.message ++ " at line " ++ toString diagnostic.line

/-- The stack of scopes held `capacity` frames and refused `refused` more; the
first refusal was on line `line`. -/
def scopeOverflow (capacity refused line : Nat) : Diagnostic where
  severity := .warning
  message := "scope nesting exceeded " ++ toString capacity ++ " levels; "
    ++ toString refused ++ " scope(s) were not tracked"
  code := some "scope-overflow"
  line := line

end Diagnostic

end CamlIndex
