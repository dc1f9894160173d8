import CamlIndex.Proofs.Language.Chains

/-!
# Members of classes

Behind the name of a method the machine waits for an `=`, and until then every
name is a parameter and every keyword means nothing.  So a method that has a type
and no body swallows what follows up to the next `=`: members, the `end` of the
class, and the first binding behind it, after which the class is still on the
stack.  A `val` is tagged before the last method has been left, and not at all if
it is `mutable`.

* `Stage` — where the machine is among the members;
* `Stage.reads`, `reads_swallowedRest` — a member is read from stage to stage, and
  what stands behind the class is read if that has swallowed its `end`;
* `ClassInModules.reads_found` — a class inside of modules is read.
-/

namespace CamlIndex

/-! ## What is meant, and what is found -/

/-- A module around a place, with the bindings behind its `end`. -/
structure LetModule where
  name : UpperName
  after : List LetItem

/-- The modules around a place, the innermost first. -/
def Nesting.ofModules : List LetModule → Nesting
  | [] => .outside
  | module :: outer => .inside module.name (.ofLets module.after) (ofModules outer)

/-- A class inside of modules, and the bindings behind it. -/
structure ClassInModules where
  modules : List LetModule
  definition : ClassDef
  further : List LetItem

/-- Where the machine is among the members of a class. -/
inductive Stage where
  /-- Inside of the class, perhaps with a method on the stack. -/
  | within (last : Option LowerName)
  /-- Behind a method without a body, where everything is read as parameters. -/
  | awaiting (method : LowerName)

namespace Stage

/-- The stage behind a member. -/
def after : Stage → Member → Stage
  | .within last, .variable _ _ _ => .within last
  | .within _, .method _ name _ _ => .within (some name)
  | .within _, .signature _ _ name _ => .awaiting name
  | .awaiting method, .signature _ _ _ _ => .awaiting method
  | .awaiting method, .method _ _ _ _ | .awaiting method, .variable _ _ _ => .within (some method)

/-- The stage behind members. -/
def afterAll (stage : Stage) (members : List Member) : Stage :=
  members.foldl after stage

/-- The mark of the name of a member, in a class with the given scope. -/
def nameMark (scope : Option Scope) : Stage → Member → Option Mark
  | .within last, .variable isMutable name _ =>
    if isMutable then none
    else some ⟨name.text, .valSpec, false,
      last.elim scope fun method => Scope.inside scope .methodDef method.text⟩
  | .within _, member => some ⟨member.name.text, member.kind, false, scope⟩
  | .awaiting method, member =>
    some ⟨member.name.text, .variableDef, true, Scope.inside scope .methodDef method.text⟩

/-- The scope of what is taken for parameters. -/
def bodyScope (scope : Option Scope) : Stage → Member → Option Scope
  | .within _, member => Scope.inside scope .methodDef member.name.text
  | .awaiting method, _ => Scope.inside scope .methodDef method.text

end Stage

/-- The type of a method without a body is taken for a parameter. -/
def Member.typeMark (scope : Option Scope) : Member → Option Mark
  | .signature _ _ _ type => some ⟨type.text, .variableDef, true, scope⟩
  | .method _ _ _ _ | .variable _ _ _ => none

/-- A member with the marks that the machine gives it. -/
def Stage.found (scope : Option Scope) (stage : Stage) (member : Member) : List Piece :=
  member.pieces (stage.nameMark scope member) (stage.bodyScope scope member)
    (member.typeMark (stage.bodyScope scope member))

def foundMembers (scope : Option Scope) (stage : Stage) : List Member → List Piece
  | [] => []
  | member :: members => stage.found scope member ++ foundMembers scope (stage.after member) members

/-- A binding that a method without a body swallows: its names are taken for
parameters, and what it binds for the body of the method. -/
def LetItem.swallowed (scope : Option Scope) : LetItem → List Piece
  | .binding header body =>
    .fixed .kwLet :: Piece.optional header.isRec .kwRec
      ++ paramPieces scope (header.name :: header.params)
      ++ .fixed .equals :: body.pieces scope
  | .unit body =>
    .fixed .kwLet :: .fixed .parenOpen :: .fixed .parenClose :: .fixed .equals
      :: body.pieces scope
  | .wildcard body =>
    .fixed .kwLet :: .silent .wildcard :: .fixed .equals
      :: body.pieces scope

/-- What stands behind the `end` of a class that a method without a body has
swallowed, where `opened` are the modules on the stack below the class. -/
def swallowedRest (bodyScope classScope : Option Scope) (opened : Nesting)
    (items : List LetItem) (modules : List LetModule) : List Piece :=
  match items, modules with
  | item :: items, modules =>
    item.swallowed bodyScope ++ letPieces classScope items
      ++ (Nesting.ofModules modules).closingTo opened
  | [], [] => []
  | [], module :: outer =>
    .fixed .kwEnd :: swallowedRest bodyScope classScope opened module.after outer

namespace ClassInModules

variable (source : ClassInModules)

def levels : Nesting :=
  .ofModules source.modules

/-- The scope inside the class. -/
def inner : Option Scope :=
  Scope.inside source.levels.scope .classDef source.definition.name.text

/-- The words up to the members. -/
def headPieces : List Piece :=
  source.levels.opening
    ++ .fixed .kwClass :: source.definition.sort.words.map .silent
    ++ [source.definition.name.declares .classDef source.levels.scope,
      .fixed .equals, .fixed .kwObject]

/-- What stands behind the `end` of the class, as it is meant. -/
def restPieces : List Piece :=
  letPieces source.levels.scope source.further ++ source.levels.closing source.levels

/-- The words with the marks that they are meant to have. -/
def meant : List Piece :=
  source.headPieces ++ source.definition.members.flatMap (Member.meant source.inner)
    ++ .fixed .kwEnd :: source.restPieces

/-- The stage behind the last member. -/
def stage : Stage :=
  (Stage.within none).afterAll source.definition.members

/-- What stands behind the `end` of the class, as the machine reads it. -/
def foundRest : List Piece :=
  match source.stage with
  | .within _ => source.restPieces
  | .awaiting method =>
    swallowedRest (Scope.inside source.inner .methodDef method.text) source.inner source.levels
      source.further source.modules

/-- The words with the marks that the machine gives them. -/
def found : List Piece :=
  source.headPieces ++ foundMembers source.inner (.within none) source.definition.members
    ++ .fixed .kwEnd :: source.foundRest

end ClassInModules

/-! ## Reading members -/

/-- Inside of a class, with the frame of the last method on the stack if there was one. -/
structure Inside (scope : Option Scope) (frames : List Frame) (last : Option LowerName)
    (mode : Mode) (view : View) : Prop extends
    At mode (last.elim frames fun method => .declared .methodScope scope method.text :: frames)
      view where
  closing : view.closing = last.isSome

/-- What holds at a stage. -/
def Stage.Holds (scope : Option Scope) (frames : List Frame) (stage : Stage) (view : View) :
    Prop :=
  match stage with
  | .within last =>
    Inside scope frames last .topLevel view ∨
      last.isSome = true ∧ Inside scope frames last .expression view
  | .awaiting method => At .parameters (.declared .methodScope scope method.text :: frames) view

section

variable {frames : List Frame} {scope : Option Scope}

theorem Inside.goto {m : Machine} {last : Option LowerName} {mode : Mode}
    (h : Inside scope frames last mode m.view) (other : Mode) :
    Inside scope frames last other (m.goto other).view :=
  ⟨h.toAt.goto other, h.closing⟩

theorem Stage.Holds.settled {last : Option LowerName} {view : View}
    (h : (Stage.within last).Holds scope frames view) : Settled frames view := by
  cases last with
  | none =>
      have hinside := h.resolve_right nofun
      exact Begun.settled ⟨hinside.toAt, hinside.closing⟩
  | some method =>
      have hframe := endless_method scope method
      rcases h with h | ⟨-, h⟩
      · have hat := h.toAt
        rw [← h.mode_eq] at hat
        exact .idle (.waiting hframe h.closing hat.over) (.inl h.mode_eq)
      · exact .expression hframe h.toAt.over

/-- A word that means nothing among parameters. -/
theorem reads_unheard {word : Word} (hword : word.kind ∉ [.arrow, .equals, .ident, .operator])
    (frames : List Frame) :
    Reads [.silent word] anyKind (At .parameters frames) (At .parameters frames) := by
  apply Reads.stay
  intro m token following hm hkind
  rw [← hkind] at hword
  unfold Machine.dispatch
  rw [hm.mode]
  dsimp only
  unfold Machine.atParameters
  split <;> simp_all

/-- What stands behind the name of a method with a body. -/
theorem reads_methodTail (method : LowerName) (params : List LowerName)
    (value : Lexeme .literal) :
    Reads (paramPieces (Scope.inside scope .methodDef method.text) params
        ++ [.fixed .equals, .silent value.word]) anyKind
      ((Stage.awaiting method).Holds scope frames)
      ((Stage.within (some method)).Holds scope frames) :=
  (reads_params (scoped_method scope frames method) params).seq
    ((reads_value value _).weaken fun _ hm => .inr ⟨rfl, hm.toAt, hm.closing⟩)

/-- The type of a method without a body. -/
theorem reads_methodType (method type : LowerName) :
    Reads (.fixed .colon :: paramPieces (Scope.inside scope .methodDef method.text) [type])
      anyKind ((Stage.awaiting method).Holds scope frames)
      ((Stage.awaiting method).Holds scope frames) :=
  Reads.cons (reads_unheard (by decide) _) (reads_params (scoped_method scope frames method) [type])

/-- The keyword of a method, and what stands in front of the name. -/
theorem reads_methodStart (last : Option LowerName) (isPrivate isVirtual : Bool) :
    Reads (.fixed .kwMethod :: (Word.optional isPrivate "private" .kwPrivate
        ++ Word.optional isVirtual "virtual" .kwVirtual).map .silent) anyKind
      ((Stage.within last).Holds scope frames) (Begun .methodName frames) := by
  have hkinds : ∀ word ∈ Word.optional isPrivate "private" .kwPrivate
      ++ Word.optional isVirtual "virtual" .kwVirtual, word.kind ∈ [.kwPrivate, .kwVirtual] := by
    cases isPrivate <;> cases isVirtual <;> decide
  have hkeyword : Reads [.fixed .kwMethod] anyKind ((Stage.within last).Holds scope frames)
      (Begun .methodName frames) :=
    (reads_start (by decide) (by decide) frames).mono fun _ hm => hm.settled
  refine Reads.cons hkeyword (Reads.words fun word hword => Reads.stay ?_)
  intro m token following hm hkind
  have hword := hkinds word hword
  simp only [List.mem_cons, List.not_mem_nil, or_false] at hword
  rcases hword with h | h <;> simp [Machine.dispatch, hm.mode, Machine.atMethodName, hkind, h]

/-- A `val` leaves nothing. -/
theorem reads_valWithin (last : Option LowerName) :
    Reads [.fixed .kwVal] anyKind ((Stage.within last).Holds scope frames)
      (Inside scope frames last .valName) := by
  apply Reads.silent
  intro m token following hspells _ hm _
  have hkind : token.kind = .kwVal := hspells.1
  rcases hm with hm | ⟨hlast, hm⟩
  · have hval : m.dispatch token following = m.goto .valName := by
      simp [Machine.dispatch, hm.mode, Machine.atTopLevel, hkind]
    rw [hval]
    exact ⟨hm.goto .valName, rfl⟩
  · have hval : m.dispatch token following = { m with closing := true }.goto .valName := by
      simp [Machine.dispatch, hm.mode, Machine.atExpression, Machine.atTopLevel, hkind]
    rw [hval]
    exact ⟨⟨⟨rfl, hm.frames, hm.staged⟩, hlast.symm⟩, rfl⟩

/-- The value of a `val` means nothing. -/
theorem reads_valTail (last : Option LowerName) (value : Lexeme .literal) :
    Reads [.fixed .equals, .silent value.word] anyKind (Inside scope frames last .topLevel)
      ((Stage.within last).Holds scope frames) := by
  have hquiet : ∀ word : Word, word.kind ∈ quiet →
      Reads [.silent word] anyKind (Inside scope frames last .topLevel)
        (Inside scope frames last .topLevel) :=
    fun word hword => reads_quiet hword fun _ hm => .inl hm.mode_eq
  exact (Reads.cons (hquiet _ (by decide)) (hquiet value.word (by simp [quiet]))).weaken
    fun _ hm => .inl hm

/-- The name of a `val` is in the scope of the last method. -/
theorem reads_valName (hscoped : Scoped frames scope) (last : Option LowerName)
    (name : LowerName) :
    Reads [name.declares .valSpec
        (last.elim scope fun method => Scope.inside scope .methodDef method.text)] anyKind
      (Inside scope frames last .valName) (Inside scope frames last .topLevel) := by
  have hinner : Scoped
      (last.elim frames fun method => .declared .methodScope scope method.text :: frames)
      (last.elim scope fun method => Scope.inside scope .methodDef method.text) := by
    cases last with
    | none => exact hscoped
    | some method => exact scoped_method scope frames method
  refine Reads.name (·.goto .topLevel) hinner (fun _ hm => hm.toAt) ?_ ?_
  · intro m token following hmode hkind _ _
    simp [Machine.dispatch, hmode, Machine.atValName, hkind]
  · intro m hm _
    exact ⟨hm.goto .topLevel, rfl⟩

/-- Behind `mutable` a name means nothing. -/
theorem reads_mutableName (last : Option LowerName) (name : LowerName) :
    Reads [.silent (.keyword "mutable" .kwMutable), .silent name.word] anyKind
      (Inside scope frames last .valName) (Inside scope frames last .topLevel) := by
  have hmutable : Reads [.silent (.keyword "mutable" .kwMutable)] anyKind
      (Inside scope frames last .valName) (Inside scope frames last .topLevel) := by
    apply Reads.rule (·.goto .topLevel)
    · intro m token following hm hkind _
      have hkind : token.kind = .kwMutable := hkind
      simp [Machine.dispatch, hm.mode, Machine.atValName, hkind]
    · intro m hm _
      exact ⟨hm.goto .topLevel, rfl⟩
  exact Reads.cons hmutable (reads_quiet (by simp [quiet]) fun _ hm => .inl hm.mode_eq)

/-- **A `val`** is in the scope of the last method, and nothing if it is `mutable`. -/
theorem reads_variable (hscoped : Scoped frames scope) (last : Option LowerName)
    (isMutable : Bool) (name : LowerName) (value : Lexeme .literal) :
    Reads ((Stage.within last).found scope (.variable isMutable name value)) anyKind
      ((Stage.within last).Holds scope frames) ((Stage.within last).Holds scope frames) := by
  have hval : Reads [.fixed .kwVal] anyKind ((Stage.within last).Holds scope frames)
      (Inside scope frames last .valName) := reads_valWithin last
  cases isMutable with
  | true => exact Reads.cons hval ((reads_mutableName last name).seq (reads_valTail last value))
  | false =>
      exact Reads.cons hval ((reads_valName hscoped last name).seq (reads_valTail last value))

/-- Among parameters keywords mean nothing. -/
theorem reads_unheardWords (words : List Word)
    (h : ∀ word ∈ words, word.kind ∈ [.kwMethod, .kwVal, .kwPrivate, .kwVirtual, .kwMutable])
    (frames : List Frame) :
    Reads (words.map .silent) anyKind (At .parameters frames) (At .parameters frames) := by
  refine Reads.words fun word hword => reads_unheard (fun hheard => ?_) frames
  have hkind := h word hword
  simp only [List.mem_cons, List.not_mem_nil, or_false] at hkind hheard
  rcases hkind with h | h | h | h | h <;> simp [h] at hheard

/-- **A member** is read from stage to stage. -/
theorem Stage.reads (hscoped : Scoped frames scope) (stage : Stage) (member : Member) :
    Reads (stage.found scope member) anyKind (stage.Holds scope frames)
      ((stage.after member).Holds scope frames) := by
  cases stage with
  | within last =>
      cases member with
      | method isPrivate name params value =>
          have hstart : Reads (.fixed .kwMethod
              :: (Word.optional isPrivate "private" .kwPrivate).map .silent) anyKind
              ((Stage.within last).Holds scope frames) (Begun .methodName frames) := by
            cases isPrivate with
            | false => exact reads_methodStart last false false
            | true => exact reads_methodStart last true false
          rw [Stage.found, Member.pieces, List.append_assoc]
          exact hstart.seq (Reads.cons (reads_methodName hscoped name)
            (reads_methodTail name params value))
      | signature isPrivate isVirtual name type =>
          exact (reads_methodStart last isPrivate isVirtual).seq
            (Reads.cons (reads_methodName hscoped name) (reads_methodType name type))
      | «variable» isMutable name value => exact reads_variable hscoped last isMutable name value
  | awaiting method =>
      have hname := fun name => reads_params (scoped_method scope frames method) [name]
      cases member with
      | method isPrivate name params value =>
          have hwords := reads_unheardWords (.fixed .kwMethod
            :: Word.optional isPrivate "private" .kwPrivate) (by cases isPrivate <;> decide)
          rw [Stage.found, Member.pieces, List.append_assoc]
          exact (hwords _).seq (reads_methodTail method (name :: params) value)
      | signature isPrivate isVirtual name type =>
          have hwords := reads_unheardWords (.fixed .kwMethod
            :: (Word.optional isPrivate "private" .kwPrivate
              ++ Word.optional isVirtual "virtual" .kwVirtual))
            (by cases isPrivate <;> cases isVirtual <;> decide)
          exact (hwords _).seq ((hname name).seq (reads_methodType method type))
      | «variable» isMutable name value =>
          have hwords := reads_unheardWords (.fixed .kwVal
            :: Word.optional isMutable "mutable" .kwMutable) (by cases isMutable <;> decide)
          exact (hwords _).seq (reads_methodTail method [name] value)

/-- **Members** are read from stage to stage. -/
theorem Stage.reads_all (hscoped : Scoped frames scope) (stage : Stage) (members : List Member) :
    Reads (foundMembers scope stage members) anyKind (stage.Holds scope frames)
      ((stage.afterAll members).Holds scope frames) := by
  induction members generalizing stage with
  | nil => exact Reads.nil _ _
  | cons member members ih => exact (stage.reads hscoped member).seq (ih (stage.after member))

/-! ## Reading the class, and what stands behind it -/

/-- What stands between `class` and the name means nothing. -/
theorem reads_classSort (sort : ClassSort) :
    Reads (sort.words.map .silent) anyKind (Begun .className frames) (Begun .className frames) := by
  refine Reads.words fun word hword => Reads.stay fun m token following hm hkind => ?_
  have hsort : word.kind = .kwVirtual ∨ word.kind = .kwType := by
    cases sort with
    | plain => cases hword
    | isVirtual => exact .inl (by rw [List.mem_singleton.mp hword]; rfl)
    | isType => exact .inr (by rw [List.mem_singleton.mp hword]; rfl)
  rcases hsort with h | h <;> simp [Machine.dispatch, hm.mode, Machine.atClassName, hkind, h]

/-- **The head of a class** puts it on the stack. -/
theorem ClassDef.reads_head (hscoped : Scoped frames scope) (definition : ClassDef) :
    Reads (.fixed .kwClass :: definition.sort.words.map .silent
        ++ [definition.name.declares .classDef scope, .fixed .equals, .fixed .kwObject]) anyKind
      (Settled frames)
      ((Stage.within none).Holds (Scope.inside scope .classDef definition.name.text)
        (.declared .classScope scope definition.name.text :: frames)) := by
  have hkeyword : Reads [.fixed .kwClass] anyKind (Settled frames) (Begun .className frames) :=
    reads_start (by decide) (by decide) frames
  have hobject := (reads_object hscoped definition.name).weaken fun _ hm =>
    (.inl ⟨hm.toAt, hm.closing⟩ : (Stage.within none).Holds
      (Scope.inside scope .classDef definition.name.text) _ _)
  exact Reads.cons hkeyword ((reads_classSort definition.sort).seq
    (Reads.cons (reads_className hscoped definition.name)
      (Reads.cons (reads_classMark definition.name.text) hobject)))

/-- A binding that a method without a body swallows leaves the method. -/
theorem LetItem.reads_swallowed (method : LowerName) (item : LetItem) :
    Reads (item.swallowed (Scope.inside scope .methodDef method.text)) anyKind
      ((Stage.awaiting method).Holds scope frames) (Settled frames) := by
  have hbody := reads_definition (endless_method scope method) (scoped_method scope frames method)
  have hlet : Reads [.fixed .kwLet] anyKind ((Stage.awaiting method).Holds scope frames)
      ((Stage.awaiting method).Holds scope frames) := reads_unheard (by decide) _
  cases item with
  | binding header body =>
      have hrec : Reads [.fixed .kwRec] anyKind ((Stage.awaiting method).Holds scope frames)
          ((Stage.awaiting method).Holds scope frames) := reads_unheard (by decide) _
      have hnames := reads_params (scoped_method scope frames method) (header.name :: header.params)
      exact ((Reads.cons hlet (reads_optional hrec header.isRec)).seq hnames).seq (hbody body)
  | unit body =>
      exact Reads.cons hlet (Reads.cons (reads_unheard (by decide) _)
        (Reads.cons (reads_unheard (by decide) _) (hbody body)))
  | wildcard body =>
      exact Reads.cons hlet (Reads.cons (reads_unheard (by decide) _) (hbody body))

end

/-- **What stands behind a class** whose `end` has been swallowed. -/
theorem reads_swallowedRest (opened : Nesting) (name method : LowerName) (items : List LetItem)
    (modules : List LetModule) :
    Reads (swallowedRest
        (Scope.inside (Scope.inside opened.scope .classDef name.text) .methodDef method.text)
        (Scope.inside opened.scope .classDef name.text) opened items modules) Apart
      ((Stage.awaiting method).Holds (Scope.inside opened.scope .classDef name.text)
        (.declared .classScope opened.scope name.text :: opened.frames))
      fun _ => True := by
  have hclass : Scoped (.declared .classScope opened.scope name.text :: opened.frames)
      (Scope.inside opened.scope .classDef name.text) :=
    .declared rfl opened.scope opened.frames name.stands.ne_empty
  -- the `end` of a module around the class is the first that is heard
  have hend := (reads_end (Frame.ended_declared (.inl rfl) opened.scope name.text)
    opened.frames).weaken fun _ hm => hm.settled
  induction modules generalizing items with
  | nil =>
      cases items with
      | nil => exact (Reads.nil _ _).weaken fun _ _ => trivial
      | cons item items =>
          exact ((item.reads_swallowed method).seq (reads_letPieces hclass items)).seq
            ((Nesting.ofModules []).reads_closingTo opened hend)
  | cons module outer ih =>
      cases items with
      | nil => exact Reads.cons (reads_unheard (by decide) _) (ih module.after)
      | cons item items =>
          exact ((item.reads_swallowed method).seq (reads_letPieces hclass items)).seq
            ((Nesting.ofModules (module :: outer)).reads_closingTo opened hend)

namespace ClassInModules

variable (source : ClassInModules)

/-- What stands behind the last member. -/
theorem reads_foundRest :
    Reads (.fixed .kwEnd :: source.foundRest) Apart
      (source.stage.Holds source.inner
        (.declared .classScope source.levels.scope source.definition.name.text
          :: source.levels.frames))
      fun _ => True := by
  unfold foundRest
  cases source.stage with
  | within last =>
      have hend := (reads_end (Frame.ended_declared (.inl rfl) source.levels.scope
        source.definition.name.text) source.levels.frames).mono
          fun _ (hm : (Stage.within last).Holds source.inner _ _) => hm.settled
      have hrest := source.levels.reads_behind (.ofLets source.further) source.levels
      have hwhole := (hend.weaken fun _ hm => hm.settled).append hrest fun _ h =>
        Nesting.leads_after (.ofLets source.further) source.levels source.levels h
      rw [Program.pieces_ofLets] at hwhole
      exact hwhole.weaken fun _ _ => trivial
  | awaiting method =>
      exact Reads.cons (reads_unheard (by decide) _)
        (reads_swallowedRest source.levels source.definition.name method source.further
          source.modules)

theorem reads_found : Reads source.found Apart (Begun .topLevel []) fun _ => True := by
  have hscoped := source.levels.frames_scoped
  have hclass : Scoped (.declared .classScope source.levels.scope source.definition.name.text
      :: source.levels.frames) source.inner :=
    .declared rfl source.levels.scope source.levels.frames source.definition.name.stands.ne_empty
  have hhead := (source.levels.reads_opening.mono fun _ hm => Begun.settled hm).seq
    (source.definition.reads_head hscoped)
  have hmembers := (Stage.within none).reads_all hclass source.definition.members
  have hwhole := (hhead.seq hmembers).seq source.reads_foundRest
  rw [← List.append_assoc] at hwhole
  exact hwhole

end ClassInModules

end CamlIndex
