import CamlIndex.Proofs.Language.Syntax

/-!
# Pieces without their scopes

The traversal of a tree takes a scope along, but the scope only gets into the
marks.  So a tree has the same words wherever it stands, and marks the same of
them with the same names and kinds; two readings of one text can differ in
scopes alone.

* `Item.unscoped_pieces`, `Program.unscoped_pieces` — the pieces of declarations
  are the same in every scope, apart from that scope;
* `Item.words_pieces`, `Program.words_pieces` — in particular their words are.
-/

namespace CamlIndex

/-- A piece apart from the scope that it is marked with. -/
def Piece.unscoped (piece : Piece) : Word × Option (String × Kind × Bool) :=
  (piece.word, piece.mark.map fun mark => (mark.name, mark.kind, mark.isLocal))

/-- Pieces that differ in scopes alone have the same words. -/
theorem words_eq_of_unscoped {pieces others : List Piece}
    (h : pieces.map Piece.unscoped = others.map Piece.unscoped) :
    pieces.map Piece.word = others.map Piece.word := by
  have hwords := congrArg (List.map Prod.fst) h
  rwa [List.map_map, List.map_map] at hwords

/-! ## Bindings, expressions and types -/

section

variable (scope other : Option Scope)

theorem paramPieces_unscoped (params : List LowerName) :
    (paramPieces scope params).map Piece.unscoped =
      (paramPieces other params).map Piece.unscoped := by
  simp [paramPieces, Piece.unscoped]

theorem Header.unscoped_pieces (header : Header) (isLocal : Bool) :
    (header.pieces isLocal scope).map Piece.unscoped =
      (header.pieces isLocal other).map Piece.unscoped := by
  simp [Header.pieces, paramPieces_unscoped (header.inner scope) (header.inner other),
    Piece.unscoped]

theorem Header.words_pieces (header : Header) (isLocal isLocal' : Bool) :
    (header.pieces isLocal scope).map Piece.word =
      (header.pieces isLocal' other).map Piece.word := by
  simp [Header.pieces, paramPieces]

mutual

theorem Atom.unscoped_pieces (scope other : Option Scope) (atom : Atom) :
    (atom.pieces scope).map Piece.unscoped = (atom.pieces other).map Piece.unscoped := by
  cases atom with
  | parens inner | brackets inner | block inner =>
      simp [Atom.pieces, inner.unscoped_pieces scope other]
  | _ => rfl

theorem Atoms.unscoped_pieces (scope other : Option Scope) (atoms : Atoms) :
    (atoms.pieces scope).map Piece.unscoped = (atoms.pieces other).map Piece.unscoped := by
  cases atoms with
  | one atom => exact atom.unscoped_pieces scope other
  | more atom atoms =>
      simp [Atoms.pieces, atom.unscoped_pieces scope other, atoms.unscoped_pieces scope other]

theorem Expr.unscoped_pieces (scope other : Option Scope) (expr : Expr) :
    (expr.pieces scope).map Piece.unscoped = (expr.pieces other).map Piece.unscoped := by
  cases expr with
  | apply atoms => exact atoms.unscoped_pieces scope other
  | binary left _ right | sequence left right | ifThen left right =>
      simp [Expr.pieces, left.unscoped_pieces scope other, right.unscoped_pieces scope other]
  | ifThenElse condition yes no =>
      simp [Expr.pieces, condition.unscoped_pieces scope other, yes.unscoped_pieces scope other,
        no.unscoped_pieces scope other]
  | letIn header bound inner =>
      simp [Expr.pieces, header.unscoped_pieces scope other true,
        bound.unscoped_pieces (header.inner scope) (header.inner other),
        inner.unscoped_pieces scope other]
  | lambda param params inner =>
      simp [Expr.pieces, paramPieces_unscoped scope other, inner.unscoped_pieces scope other]

theorem Body.unscoped_pieces (scope other : Option Scope) (body : Body) :
    (body.pieces scope).map Piece.unscoped = (body.pieces other).map Piece.unscoped := by
  cases body with
  | expr inner => exact inner.unscoped_pieces scope other
  | matchWith scrutinee _ cases =>
      simp [Body.pieces, scrutinee.unscoped_pieces scope other, cases.unscoped_pieces scope other]
  | function _ cases => simp [Body.pieces, cases.unscoped_pieces scope other]
  | letIn header bound inner =>
      simp [Body.pieces, header.unscoped_pieces scope other true,
        bound.unscoped_pieces (header.inner scope) (header.inner other),
        inner.unscoped_pieces scope other]

theorem Cases.unscoped_pieces (scope other : Option Scope) (cases : Cases) :
    (cases.pieces scope).map Piece.unscoped = (cases.pieces other).map Piece.unscoped := by
  cases cases with
  | one _ body => simp [Cases.pieces, body.unscoped_pieces scope other]
  | more _ body cases =>
      simp [Cases.pieces, body.unscoped_pieces scope other, cases.unscoped_pieces scope other]

end

theorem Constructor.unscoped_pieces (constructor : Constructor) :
    (constructor.pieces scope).map Piece.unscoped =
      (constructor.pieces other).map Piece.unscoped := rfl

theorem TypeDef.unscoped_pieces (type : TypeDef) :
    (type.pieces scope).map Piece.unscoped = (type.pieces other).map Piece.unscoped := by
  have hbody : ∀ scope other : Option Scope,
      (type.body.pieces scope).map Piece.unscoped = (type.body.pieces other).map Piece.unscoped := by
    intro scope other
    cases type.body with
    | variants bar first others =>
        simp [TypeBody.pieces, List.map_flatMap, first.unscoped_pieces scope other,
          fun constructor : Constructor => constructor.unscoped_pieces scope other]
    | record first others semicolon =>
        simp [TypeBody.pieces, List.map_flatMap, Field.pieces, Lexeme.declares, Piece.unscoped]
    | _ => rfl
  simp [TypeDef.pieces, Lexeme.declares, Piece.unscoped,
    hbody (Scope.inside scope .typeDef type.name.text)
      (Scope.inside other .typeDef type.name.text)]

theorem ValSpec.unscoped_pieces (spec : ValSpec) :
    (spec.pieces scope).map Piece.unscoped = (spec.pieces other).map Piece.unscoped := rfl

theorem Method.unscoped_pieces (method : Method) :
    (method.pieces scope).map Piece.unscoped = (method.pieces other).map Piece.unscoped := by
  simp [Method.pieces, Lexeme.declares, paramPieces, Piece.unscoped,
    method.body.unscoped_pieces (Scope.inside scope .methodDef method.name.text)
      (Scope.inside other .methodDef method.name.text)]

end

/-! ## Declarations -/

mutual

/-- **The pieces of a declaration** are the same in every scope, apart from that. -/
theorem Item.unscoped_pieces (scope other : Option Scope) (item : Item) :
    (item.pieces scope).map Piece.unscoped = (item.pieces other).map Piece.unscoped := by
  cases item with
  | binding header body =>
      simp [Item.pieces, header.unscoped_pieces scope other false,
        body.unscoped_pieces (header.inner scope) (header.inner other)]
  | unit body =>
      simp [Item.pieces, Piece.unscoped,
        body.unscoped_pieces (Scope.inside scope .functionDef "()")
          (Scope.inside other .functionDef "()")]
  | wildcard body =>
      simp [Item.pieces, Piece.unscoped,
        body.unscoped_pieces (Scope.inside scope .functionDef "_")
          (Scope.inside other .functionDef "_")]
  | types first others =>
      simp [Item.pieces, List.map_flatMap, first.unscoped_pieces scope other,
        fun type : TypeDef => type.unscoped_pieces scope other]
  | exceptionDef name payload => rfl
  | moduleDef name items =>
      simp [Item.pieces, Lexeme.declares, Piece.unscoped,
        items.unscoped_pieces (Scope.inside scope .moduleDef name.text)
          (Scope.inside other .moduleDef name.text)]
  | sealedModule name specs items =>
      simp [Item.pieces, Lexeme.declares, Piece.unscoped, List.map_flatMap, ValSpec.pieces,
        items.unscoped_pieces (Scope.inside scope .moduleDef name.text)
          (Scope.inside other .moduleDef name.text)]
  | classDef name methods =>
      have hmethod := fun method : Method =>
        method.unscoped_pieces (Scope.inside scope .classDef name.text)
          (Scope.inside other .classDef name.text)
      simp [Item.pieces, Lexeme.declares, Piece.unscoped, List.map_flatMap, hmethod]

/-- **The pieces of declarations** are the same in every scope, apart from that. -/
theorem Program.unscoped_pieces (scope other : Option Scope) (program : Program) :
    (program.pieces scope).map Piece.unscoped = (program.pieces other).map Piece.unscoped := by
  cases program with
  | empty => rfl
  | more item items =>
      simp [Program.pieces, item.unscoped_pieces scope other, items.unscoped_pieces scope other]

end

/-- **The words of a declaration** are the same in every scope. -/
theorem Item.words_pieces (scope other : Option Scope) (item : Item) :
    (item.pieces scope).map Piece.word = (item.pieces other).map Piece.word :=
  words_eq_of_unscoped (item.unscoped_pieces scope other)

/-- **The words of declarations** are the same in every scope. -/
theorem Program.words_pieces (scope other : Option Scope) (program : Program) :
    (program.pieces scope).map Piece.word = (program.pieces other).map Piece.word :=
  words_eq_of_unscoped (program.unscoped_pieces scope other)

end CamlIndex
