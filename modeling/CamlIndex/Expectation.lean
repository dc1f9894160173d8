import CamlIndex.Tag
import CamlIndex.Text.Literal

/-!
# Expectations on tags

An expectation says something about the tags of a text.  `Expectation.failure?`
gives the first thing that does not hold, and nothing when all of it does.

A failure has a message.  Where two values were compared, a report lists both
sides below the message, so `Failure.headline` is what a reader of a report
takes for the message.
-/

namespace CamlIndex

/-- What is expected of one tag. -/
inductive TagExpectation where
  | name (expected : String)
  | kind (expected : Kind)
  | line (expected : Nat)
  | column (expected : Nat)
  | scope (kind : Kind) (name : String)
  | noScope
  | qualified (expected : String)
  deriving DecidableEq, Repr

/-- What is expected of all tags. -/
inductive Expectation where
  | count (expected : Nat)
  /-- The tag with an index, from zero. -/
  | tag (index : Nat) (about : List TagExpectation)
  /-- The first tag with a qualified name. -/
  | find (qualified : String) (about : List TagExpectation)
  /-- All kinds and qualified names in their order. -/
  | sequence (expected : List (Kind × String))
  | noneNamed (name : String)
  | kindCount (kind : Kind) (expected : Nat)
  deriving DecidableEq, Repr

/-- The tags in short: letters and qualified names. -/
def summary (tags : List Tag) : String :=
  ", ".intercalate (tags.map fun tag => String.singleton tag.kind.letter ++ ":" ++ tag.qualifiedName)

/-- The name of a kind as a value of its type. -/
def Kind.valueName : Kind → String
  | .classDef => "Class"
  | .methodDef => "Method"
  | .moduleDef => "Module"
  | .variableDef => "Variable"
  | .valSpec => "ValueSignature"
  | .typeDef => "Type"
  | .functionDef => "Function"
  | .constructorDef => "Constructor"
  | .fieldDef => "RecordField"
  | .exceptionDef => "Exception"

/-- An optional value in words. -/
def describe {α : Type} (value : α → String) : Option α → String
  | some x => "Some(" ++ value x ++ ")"
  | none => "None"

/-- A scope as a value of its type. -/
def Scope.valueText (scope : Scope) : String :=
  "Scope \x7b kind: " ++ scope.kind.valueName ++ ", name: " ++ literalText scope.name ++ " \x7d"

/-! ## Failures -/

/-- Why an expectation does not hold. -/
structure Failure where
  /-- What does not hold, in words. -/
  message : String
  /-- Whether two values were compared and differ. -/
  compares : Bool
  deriving DecidableEq, Repr

/-- What stands before the last place where a text holds a mark. -/
def beforeLast? (mark : List Char) : List Char → Option (List Char)
  | [] => none
  | c :: cs =>
    match beforeLast? mark cs with
    | some front => some (c :: front)
    | none => if mark.isPrefixOf (c :: cs) then some [] else none

namespace Failure

/-- Two values differ. -/
def comparison (message : String) : Failure :=
  ⟨message, true⟩

/-- Something is not as it should be. -/
def plain (message : String) : Failure :=
  ⟨message, false⟩

/-- The failure of something that `context` names. -/
def within (context : String) (failure : Failure) : Failure :=
  { failure with message := context ++ ": " ++ failure.message }

/-- What starts the sides of a comparison in a report. -/
def sidesMark : List Char := "\n  left: ".toList

/-- The message as a report shows it.  In a report the sides of a comparison
start at the last mark.  Without a comparison nothing is listed, and a mark in
the message itself is taken for the start of the sides. -/
def headline (failure : Failure) : String :=
  if failure.compares then failure.message
  else ((beforeLast? sidesMark failure.message.toList).map String.ofList).getD failure.message

end Failure

/-! ## Checking -/

namespace TagExpectation

/-- What does not hold of a tag. -/
def failure? (tag : Tag) : TagExpectation → Option Failure
  | .name expected =>
    if tag.name = expected then none
    else some (.comparison ("expected name " ++ expected ++ ", found " ++ tag.name))
  | .kind expected =>
    if tag.kind = expected then none
    else some (.comparison ("expected kind " ++ expected.name ++ ", found " ++ tag.kind.name))
  | .line expected =>
    if tag.line = expected then none
    else some (.comparison
      ("expected line " ++ toString expected ++ ", found " ++ toString tag.line))
  | .column expected =>
    if tag.column = expected then none
    else some (.comparison
      ("expected column " ++ toString expected ++ ", found " ++ toString tag.column))
  | .scope ofKind named =>
    if tag.scope.map (·.kind) ≠ some ofKind then
      some (.comparison ("expected scope kind " ++ ofKind.name ++ ", found "
        ++ describe Kind.valueName (tag.scope.map (·.kind))))
    else if tag.scope.map (·.name) ≠ some named then
      some (.comparison ("expected scope " ++ named ++ ", found "
        ++ describe literalText (tag.scope.map (·.name))))
    else none
  | .noScope =>
    if tag.scope = none then none
    else some (.plain ("expected no scope, found " ++ describe Scope.valueText tag.scope))
  | .qualified expected =>
    if tag.qualifiedName = expected then none
    else some (.comparison ("expected qualified name " ++ expected))

/-- The first thing that does not hold of a tag that `context` names. -/
def firstFailure? (context : String) (tag : Tag) (about : List TagExpectation) : Option Failure :=
  (about.findSome? (failure? tag)).map (Failure.within context)

end TagExpectation

namespace Expectation

/-- What does not hold of the tags. -/
def failure? (tags : List Tag) : Expectation → Option Failure
  | .count expected =>
    if tags.length = expected then none
    else some (.comparison ("Expected " ++ toString expected ++ " tags, found "
      ++ toString tags.length ++ ": [" ++ summary tags ++ "]"))
  | .tag index about =>
    match tags[index]? with
    | some found => TagExpectation.firstFailure? ("tags[" ++ toString index ++ "]") found about
    | none => some (.plain ("Tag index " ++ toString index ++ " out of bounds ("
        ++ toString tags.length ++ " tags: [" ++ summary tags ++ "])"))
  | .find qualified about =>
    match tags.find? fun tag => tag.qualifiedName = qualified with
    | some found => TagExpectation.firstFailure? qualified found about
    | none => some (.plain ("No tag named " ++ qualified ++ ": [" ++ summary tags ++ "]"))
  | .sequence expected =>
    if tags.map (fun tag => (tag.kind, tag.qualifiedName)) = expected then none
    else some (.comparison "Tag sequence differs")
  | .noneNamed name =>
    if tags.all fun tag => tag.name ≠ name then none
    else some (.plain ("Expected no tag named " ++ name ++ ": [" ++ summary tags ++ "]"))
  | .kindCount kind expected =>
    let found := (tags.filter fun tag => tag.kind = kind).length
    if found = expected then none
    else some (.comparison ("Expected " ++ toString expected ++ " " ++ kind.name
      ++ " tags, found " ++ toString found ++ ": [" ++ summary tags ++ "]"))

end Expectation

end CamlIndex
