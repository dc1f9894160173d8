import CamlIndex.Kind

/-!
# Tags

A tag is one entry of an index: a declared name, its kind, where it stands and
in which named scope.  The qualified name puts the scope before the name, with
the separator of the scope's kind between them: `Shape.Circle`, `counter#incr`.
-/

namespace CamlIndex

/-- A named scope, by its kind and its qualified name. -/
structure Scope where
  kind : Kind
  name : String
  deriving DecidableEq, Repr

/-- One declaration of a source text.  Lines count from one, columns from zero
and in bytes. -/
structure Tag where
  name : String
  kind : Kind
  line : Nat
  column : Nat
  offset : Nat
  scope : Option Scope
  deriving DecidableEq, Repr

/-- The name of something inside a scope. -/
def Scope.qualify (scope : Scope) (name : String) : String :=
  scope.name.push scope.kind.separator ++ name

/-- The name of a tag together with its scope. -/
def Tag.qualifiedName (tag : Tag) : String :=
  tag.scope.elim tag.name (·.qualify tag.name)

end CamlIndex
