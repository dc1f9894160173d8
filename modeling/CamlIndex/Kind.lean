/-!
# Kinds of declaration

Every declaration in an index has one of ten kinds.  A kind has a letter for
tag files, a long name for scope fields and listings, and a switch in the
settings.  A `KindSet` says which kinds are wanted.
-/

namespace CamlIndex

/-- What a declaration declares. -/
inductive Kind where
  | classDef | methodDef | moduleDef | variableDef
  /-- A `val` item of a signature. -/
  | valSpec
  | typeDef | functionDef | constructorDef | fieldDef | exceptionDef
  deriving DecidableEq, Repr

namespace Kind

/-- All kinds, in the order in which they are listed. -/
def all : List Kind :=
  [.classDef, .methodDef, .moduleDef, .variableDef, .valSpec, .typeDef,
   .functionDef, .constructorDef, .fieldDef, .exceptionDef]

theorem mem_all (kind : Kind) : kind ∈ all := by
  cases kind <;> decide

/-- The letter of a kind in tag files. -/
def letter : Kind → Char
  | .classDef => 'c'
  | .methodDef => 'm'
  | .moduleDef => 'M'
  | .variableDef => 'v'
  | .valSpec => 'p'
  | .typeDef => 't'
  | .functionDef => 'f'
  | .constructorDef => 'C'
  | .fieldDef => 'r'
  | .exceptionDef => 'e'

/-- The long name of a kind. -/
def name : Kind → String
  | .classDef => "class"
  | .methodDef => "method"
  | .moduleDef => "module"
  | .variableDef => "var"
  | .valSpec => "val"
  | .typeDef => "type"
  | .functionDef => "function"
  | .constructorDef => "Constructor"
  | .fieldDef => "RecordField"
  | .exceptionDef => "Exception"

/-- What a kind stands for, in words. -/
def description : Kind → String
  | .classDef => "classes"
  | .methodDef => "Object's method"
  | .moduleDef => "Module or functor"
  | .variableDef => "Global variable"
  | .valSpec => "Signature item"
  | .typeDef => "Type name"
  | .functionDef => "A function"
  | .constructorDef => "A constructor"
  | .fieldDef => "A 'structure' field"
  | .exceptionDef => "An exception"

/-- The kind with a given letter. -/
def ofLetter? (letter : Char) : Option Kind :=
  all.find? fun kind => kind.letter = letter

/-- The kind with a given letter; a letter without a kind is the error. -/
def ofLetter (letter : Char) : Except Char Kind :=
  match ofLetter? letter with
  | some kind => .ok kind
  | none => .error letter

theorem ofLetter?_letter (kind : Kind) : ofLetter? kind.letter = some kind := by
  cases kind <;> decide

/-- What stands between the name of a scope of this kind and a name inside it. -/
def separator : Kind → Char
  | .typeDef => '.'
  | .classDef => '#'
  | _ => '/'

end Kind

/-- A choice of kinds. -/
@[ext]
structure KindSet where
  contains : Kind → Bool

namespace KindSet

/-- All kinds. -/
def all : KindSet :=
  ⟨fun _ => true⟩

/-- No kind. -/
def none : KindSet :=
  ⟨fun _ => false⟩

/-- The set with one kind put in or taken out. -/
def set (kinds : KindSet) (kind : Kind) (wanted : Bool) : KindSet :=
  ⟨fun other => if other = kind then wanted else kinds.contains other⟩

/-- The kinds of a list. -/
def ofList (kinds : List Kind) : KindSet :=
  ⟨fun kind => decide (kind ∈ kinds)⟩

/-- The members, in the order in which kinds are listed. -/
def toList (kinds : KindSet) : List Kind :=
  Kind.all.filter kinds.contains

/-- The letters of the members. -/
def letters (kinds : KindSet) : String :=
  String.ofList (kinds.toList.map Kind.letter)

instance : DecidableEq KindSet := fun a b =>
  decidable_of_iff (∀ kind ∈ Kind.all, a.contains kind = b.contains kind) <| by
    constructor
    · intro h
      ext kind
      exact h kind (Kind.mem_all kind)
    · rintro rfl _ _
      rfl

/-- The kinds with the given letters, or the first letter that no kind has. -/
def ofLetters (letters : List Char) : Except Char KindSet :=
  ofList <$> letters.mapM Kind.ofLetter

end KindSet

end CamlIndex
