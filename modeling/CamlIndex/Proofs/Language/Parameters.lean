import Mathlib.Data.List.Chain
import CamlIndex.Proofs.Language.Contents
import CamlIndex.Proofs.Language.Hearing

/-!
# Parameters of all forms

Whether a binding is a function is decided when its name is read, from the word
behind it: a name, a parenthesis or the sign of a label starts a parameter.  A
literal does not, and the wildcard is one, so a function whose first parameter is
the wildcard is taken for a value.

Of the parameters all names are heard that are meant to be, except that behind a
label without parentheses a plain name is lost, for the machine is still in the
label.  What is heard can be told from the forms of the parameters
(`heardPieces`), and so can what is lost (`NamedParameter.heard_eq_iff`).

* `ParametrisedBinding.contents` — the tags of a binding are what is heard of it;
* `extract_parametrised` — a binding has one tag outside of itself, and is a
  function just if its first parameter is not a literal;
* `extract_namedParameters` — all parameters are tagged if and only if no plain name
  stands directly behind a label.
-/

namespace CamlIndex

/-! ## Syntax -/

/-- A parameter with a name that its function is called by or that its body sees. -/
inductive NamedParameter where
  | plain (name : Lexeme .ident)
  | label (name : Lexeme .ident)
  | optional (name : Lexeme .ident)
  | typedLabel (name type : Lexeme .ident)
  | defaulted (name : Lexeme .ident) (value : Lexeme .literal)

/-- A parameter.  The wildcard is a literal. -/
inductive Parameter where
  | named (param : NamedParameter)
  | literal (value : Lexeme .literal)
  | unit
  | pair (first second : Lexeme .ident)
  | typed (name type : Lexeme .ident)

/-- A binding of a literal, with parameters. -/
structure ParametrisedBinding where
  isRec : Bool
  name : LowerName
  params : List Parameter
  value : Lexeme .literal

def NamedParameter.words : NamedParameter → List Word
  | .plain name => [name.word]
  | .label name => [.tilde, name.word]
  | .optional name => [.question, name.word]
  | .typedLabel name type =>
    [.tilde, .fixed .parenOpen, name.word, .fixed .colon, type.word, .fixed .parenClose]
  | .defaulted name value =>
    [.question, .fixed .parenOpen, name.word, .fixed .equals, value.word, .fixed .parenClose]

def Parameter.words : Parameter → List Word
  | .named param => param.words
  | .literal value => [value.word]
  | .unit => [.fixed .parenOpen, .fixed .parenClose]
  | .pair first second =>
    [.fixed .parenOpen, first.word, .comma, second.word, .fixed .parenClose]
  | .typed name type =>
    [.fixed .parenOpen, name.word, .fixed .colon, type.word, .fixed .parenClose]

namespace ParametrisedBinding

/-- What the binding binds: a function if it has parameters. -/
def kind (binding : ParametrisedBinding) : Kind :=
  if binding.params.isEmpty then .variableDef else .functionDef

def words (binding : ParametrisedBinding) : List Word :=
  .fixed .kwLet :: (if binding.isRec then [.fixed .kwRec] else [])
    ++ binding.name.word :: binding.params.flatMap Parameter.words
    ++ [.fixed .equals, binding.value.word]

end ParametrisedBinding

/-! ## What the machine hears -/

namespace NamedParameter

def name : NamedParameter → Lexeme .ident
  | .plain name | .label name | .optional name | .typedLabel name _ | .defaulted name _ => name

/-- Whether the machine is still in a label behind the parameter, if it was in front of it. -/
def leavesLabel (inLabel : Bool) : NamedParameter → Bool
  | .plain _ => inLabel
  | .label _ => true
  | .optional _ | .typedLabel _ _ | .defaulted _ _ => false

/-- The words of a parameter, with the names that are heard.  In a label, a name is
taken for that of the label, which has one already. -/
def pieces (scope : Option Scope) (inLabel : Bool) : NamedParameter → List Piece
  | .plain name => [name.bound scope !inLabel]
  | .label name => [.silent .tilde, name.bound scope true]
  | .optional name => [.silent .question, name.bound scope true]
  | .typedLabel name type =>
    [.silent .tilde, .fixed .parenOpen, name.bound scope true, .fixed .colon,
      .silent type.word, .fixed .parenClose]
  | .defaulted name value =>
    [.silent .question, .fixed .parenOpen, name.bound scope true, .fixed .equals,
      .silent value.word, .fixed .parenClose]

end NamedParameter

namespace Parameter

def leavesLabel (inLabel : Bool) : Parameter → Bool
  | .named param => param.leavesLabel inLabel
  | .literal _ | .unit | .pair _ _ | .typed _ _ => false

/-- The words of a parameter, with the names that are heard. -/
def pieces (scope : Option Scope) (inLabel : Bool) : Parameter → List Piece
  | .named param => param.pieces scope inLabel
  | .literal value => [.silent value.word]
  | .unit => [.fixed .parenOpen, .fixed .parenClose]
  | .pair first second =>
    [.fixed .parenOpen, first.bound scope !inLabel, .silent .comma,
      second.bound scope !inLabel, .fixed .parenClose]
  | .typed name type =>
    [.fixed .parenOpen, name.bound scope !inLabel, .fixed .colon, type.bound scope !inLabel,
      .fixed .parenClose]

/-- Whether the machine takes a binding whose first parameter this is for a function. -/
def isNoticed : Parameter → Bool
  | .literal _ => false
  | _ => true

end Parameter

/-- The words of parameters, with the names that are heard. -/
def heardPieces (scope : Option Scope) : (inLabel : Bool) → List Parameter → List Piece
  | _, [] => []
  | inLabel, param :: params =>
    param.pieces scope inLabel ++ heardPieces scope (param.leavesLabel inLabel) params

namespace ParametrisedBinding

variable (binding : ParametrisedBinding)

/-- Whether the machine takes the binding for a function. -/
def isNoticed : Bool :=
  binding.params.head?.any Parameter.isNoticed

/-- What the machine takes the binding for. -/
def heardKind : Kind :=
  if binding.isNoticed then .functionDef else .variableDef

/-- The scope of the parameters. -/
def inner : Scope :=
  ⟨if binding.isNoticed then .functionDef else .valSpec, binding.name.text⟩

/-- The words of the binding, as the machine hears them. -/
def pieces : List Piece :=
  .fixed .kwLet :: Piece.optional binding.isRec .kwRec
    ++ binding.name.declares binding.heardKind none
    :: heardPieces (some binding.inner) false binding.params
    ++ [.fixed .equals, .silent binding.value.word]

end ParametrisedBinding

theorem words_heardPieces (scope : Option Scope) (inLabel : Bool) (params : List Parameter) :
    (heardPieces scope inLabel params).map Piece.word = params.flatMap Parameter.words := by
  induction params generalizing inLabel with
  | nil => rfl
  | cons param params ih =>
      rw [heardPieces, List.map_append, ih, List.flatMap_cons]
      congr 1
      cases param with
      | named param => cases param <;> rfl
      | _ => rfl

/-- What is heard are the words of the binding. -/
theorem ParametrisedBinding.words_pieces (binding : ParametrisedBinding) :
    binding.pieces.map Piece.word = binding.words := by
  obtain ⟨isRec, name, params, value⟩ := binding
  have hrec : (Piece.optional isRec .kwRec).map Piece.word =
      if isRec then [.fixed .kwRec] else [] := by
    cases isRec <;> rfl
  simp only [pieces, words, List.map_cons, List.map_append, hrec, words_heardPieces]
  rfl

/-! ## Parameters -/

section Parameters

variable {stack : ScopeStack} {scope : Option Scope}

theorem NamedParameter.hears (hscope : stack.scope? = scope) (param : NamedParameter)
    (inLabel : Bool) :
    Hears (param.pieces scope inLabel) anyToken (AfterParam inLabel stack)
      (AfterParam (param.leavesLabel inLabel) stack) := by
  cases param with
  | plain name =>
      cases inLabel with
      | false => exact hears_name hscope name
      | true => exact hears_swallowed name
  | label name => exact .cons (hears_sign .labelled inLabel) (hears_labelName hscope 0 name)
  | optional name => exact .cons (hears_sign .optional inLabel) (hears_optionalName hscope name)
  | typedLabel name type =>
      exact .cons (hears_sign .labelled inLabel) (.cons (hears_open .labelled false)
        (.cons (hears_labelName hscope 1 name) (.cons (hears_inner .labelled (by decide))
          (.cons (hears_inner .labelled (by simp)) (hears_close .labelled true)))))
  | defaulted name value =>
      exact .cons (hears_sign .optional inLabel) (.cons (hears_open .optional false)
        (.cons (hears_defaultedName hscope name) (.cons (hears_inner .optional (by decide))
          (.cons (hears_inner .optional (by simp)) (hears_close .optional true)))))

/-- Two names in parentheses.  Behind a label they are taken for what belongs to the label. -/
theorem hears_twoNames (hscope : stack.scope? = scope) (inLabel : Bool)
    (first second : Lexeme .ident) {separator : Word}
    (hseparator : separator.kind = .comma ∨ separator.kind = .colon) :
    Hears [.fixed .parenOpen, first.bound scope !inLabel, .silent separator,
      second.bound scope !inLabel, .fixed .parenClose] anyToken
      (AfterParam inLabel stack) (InParams stack) := by
  cases inLabel with
  | false =>
      have hmiddle : Hears [.silent separator] anyToken (InParams stack) (InParams stack) :=
        hears_ignored (by rcases hseparator with h | h <;> simp [h])
      exact .cons (hears_ignored (by decide)) (.cons (hears_name hscope first)
        (.cons hmiddle (.cons (hears_name hscope second) (hears_ignored (by decide)))))
  | true =>
      have hinner : ∀ name : Lexeme .ident, Hears [name.bound scope false] anyToken
          (InLabel .labelled true 1 stack) (InLabel .labelled true 1 stack) :=
        fun name => hears_inner .labelled (by simp)
      have hmiddle : Hears [.silent separator] anyToken (InLabel .labelled true 1 stack)
          (InLabel .labelled true 1 stack) :=
        hears_inner .labelled (by rcases hseparator with h | h <;> simp [h])
      exact .cons (hears_open .labelled true) (.cons (hinner first)
        (.cons hmiddle (.cons (hinner second) (hears_close .labelled true))))

theorem Parameter.hears (hscope : stack.scope? = scope) (param : Parameter) (inLabel : Bool) :
    Hears (param.pieces scope inLabel) anyToken (AfterParam inLabel stack)
      (AfterParam (param.leavesLabel inLabel) stack) := by
  cases param with
  | named param => exact param.hears hscope inLabel
  | literal value =>
      have hbetween : Hears [.silent value.word] anyToken (InParams stack) (InParams stack) :=
        hears_ignored (by simp)
      cases inLabel with
      | false => exact hbetween
      | true => exact hbetween.behindLabel (by simp [Piece.silent]) (by simp [Piece.silent])
  | unit =>
      cases inLabel with
      | false => exact .cons (hears_ignored (by decide)) (hears_ignored (by decide))
      | true => exact .cons (hears_open .labelled true) (hears_close .labelled true)
  | pair first second => exact hears_twoNames hscope inLabel first second (.inl rfl)
  | typed name type => exact hears_twoNames hscope inLabel name type (.inr rfl)

/-- Whether the machine is in a label behind parameters. -/
def leftInLabel (inLabel : Bool) (params : List Parameter) : Bool :=
  params.foldl (fun behind param => param.leavesLabel behind) inLabel

/-- **Parameters one after the other.** -/
theorem hears_params (hscope : stack.scope? = scope) (params : List Parameter) (inLabel : Bool) :
    Hears (heardPieces scope inLabel params) anyToken (AfterParam inLabel stack)
      (AfterParam (leftInLabel inLabel params) stack) := by
  induction params generalizing inLabel with
  | nil => exact Hears.nil _ _
  | cons param params ih => exact (param.hears hscope inLabel).seq (ih _)

end Parameters

/-! ## Bindings -/

/-- Before the first parameter, with no declaration to leave. -/
structure Waiting (mode : Mode) (stack : ScopeStack) (view : ParamView) : Prop extends
    Keeping mode stack view where
  closing : view.closing = false
  depths : view.depths = (0, 0)

theorem hears_let (stack : ScopeStack) :
    Hears [.fixed .kwLet] anyToken (Waiting .topLevel stack)
      (Waiting .letName stack) := by
  apply Hears.rule fun m => { m with mode := .letName, chained := .letName }
  · intro m token following hm hspells
    have hmode : m.mode = .topLevel := hm.mode
    have hkind : token.kind = .kwLet := hspells.1
    have hclosing : m.closing = false := hm.closing
    simp [Machine.dispatch, hmode, Machine.atTopLevel, hkind, Machine.opening,
      Machine.closePrevious, hclosing]
  · intro m hm
    exact ⟨⟨⟨rfl, hm.stack, hm.staged⟩, hm.closing, hm.depths⟩, rfl⟩

theorem hears_rec (isRec : Bool) (stack : ScopeStack) :
    Hears (Piece.optional isRec .kwRec) anyToken (Waiting .letName stack)
      (Waiting .letName stack) := by
  cases isRec with
  | false => exact Hears.nil _ _
  | true =>
      apply Hears.stay
      intro m token following hm hspells
      have hmode : m.mode = .letName := hm.mode
      have hkind : token.kind = .kwRec := hspells.1
      simp [Machine.dispatch, hmode, Machine.atLetName, hkind]

theorem hears_equals (inLabel : Bool) (stack : ScopeStack) :
    Hears [.fixed .equals] anyToken (AfterParam inLabel stack)
      (Keeping .bodyStart stack) := by
  have hbetween : Hears [.fixed .equals] anyToken (InParams stack)
      (Keeping .bodyStart stack) := by
    apply Hears.rule (·.goto .bodyStart)
    · intro m token following hm hspells
      have hmode : m.mode = .parameters := hm.mode
      have hkind : token.kind = .equals := hspells.1
      simp [Machine.dispatch, hmode, Machine.atParameters, hkind]
    · intro m hm
      exact ⟨⟨rfl, hm.stack, hm.staged⟩, rfl⟩
  cases inLabel with
  | false => exact hbetween
  | true => exact hbetween.behindLabel (by decide) (by decide)

theorem hears_value (value : Lexeme .literal) (stack : ScopeStack) :
    Hears [.silent value.word] anyToken (Keeping .bodyStart stack) (Keeping .expression stack) := by
  apply Hears.rule fun m => { m with mode := .expression, closing := true }
  · intro m token following hm hspells
    have hmode : m.mode = .bodyStart := hm.mode
    have hkind : token.kind = .literal := hspells.1
    simp [Machine.dispatch, hmode, Machine.atBodyStart, hkind, Machine.atExpression,
      Machine.atTopLevel, Machine.goto]
  · intro m hm
    exact ⟨⟨rfl, hm.stack, hm.staged⟩, rfl⟩

/-- Whether a parameter follows a name is told from its first word. -/
theorem startsParameter_of_spells {token : Token} {word : Word} (h : token.Spells word) :
    Machine.startsParameter token = Machine.startsParameter ⟨word.kind, word.text, 0, 0⟩ := by
  simp [Machine.startsParameter, Token.initial?, h.1, h.2]

theorem Parameter.startsParameter {param : Parameter} {scope : Option Scope} {back : List Piece}
    {next : Token → Prop} {token : Token}
    (h : Ahead (param.pieces scope false ++ back) next token) :
    Machine.startsParameter token = param.isNoticed := by
  cases param with
  | named param => cases param <;> exact startsParameter_of_spells h
  | _ => exact startsParameter_of_spells h

namespace ParametrisedBinding

variable (binding : ParametrisedBinding)

theorem startsParameter {next : Token → Prop} {back : List Piece} {token : Token}
    (h : Ahead (heardPieces (some binding.inner) false binding.params ++
      .fixed .equals :: back) next token) :
    Machine.startsParameter token = binding.isNoticed := by
  unfold isNoticed
  cases hparams : binding.params with
  | nil =>
      rw [hparams] at h
      exact startsParameter_of_spells h
  | cons param params =>
      rw [hparams, heardPieces, List.append_assoc] at h
      exact param.startsParameter h

/-- The role of the frame of the binding. -/
def role : Role :=
  if binding.isNoticed then .functionScope else .valueScope

/-- The stack inside of the binding. -/
def stack (capacity : Nat) : ScopeStack :=
  ⟨[⟨true, binding.role, .topLevel, binding.name.text⟩], capacity, 0⟩

theorem scope_stack (capacity : Nat) : (binding.stack capacity).scope? = some binding.inner := by
  have hnamed : Frame.isNamed ⟨true, binding.role, .topLevel, binding.name.text⟩ = true := by
    simp [Frame.isNamed, binding.name.stands.ne_empty]
  have hkind : binding.role.scopeKind? = some binding.inner.kind := by
    unfold role inner
    split <;> rfl
  simp [stack, ScopeStack.scope?, ScopeStack.nearestNamed?, hnamed, hkind]
  rfl

/-- The name is declared, and opens the scope of the parameters. -/
theorem hears_name {capacity : Nat} (hroom : 0 < capacity) :
    Hears [binding.name.declares binding.heardKind none]
      (fun token => Machine.startsParameter token = binding.isNoticed)
      (Waiting .letName (.empty capacity)) (InParams (binding.stack capacity)) := by
  apply Hears.piece
  intro m token following hspells hnext hm
  have hstack : m.stack = .empty capacity := hm.stack
  have hfull : m.stack.isFull = false := by
    simp [hstack, ScopeStack.isFull, ScopeStack.empty, Nat.ne_of_gt hroom]
  have hbinding : Machine.bindingOf following = (binding.heardKind, binding.role) := by
    unfold Machine.bindingOf heardKind role
    rw [hnext]
    split <;> rfl
  have hdispatch : m.dispatch token following =
      { m.declare token binding.heardKind with
        stack := binding.stack capacity, closing := true, mode := .parameters } := by
    have hmode : m.mode = .letName := hm.mode
    have hkind : token.kind = .ident := hspells.1
    have htext : token.text = binding.name.text := hspells.2
    simp only [Machine.dispatch, hmode, Machine.atLetName, hkind, hbinding, Machine.openBinding,
      Machine.pushBoundary]
    rw [Machine.push_of_not_isFull (m.declare token binding.heardKind) _ _ _ _ hfull]
    simp [stack, hstack, ScopeStack.empty, ScopeStack.qualify, ScopeStack.nearestNamed?, htext,
      Machine.declare, Machine.declareAs, Machine.note]
  rw [hdispatch]
  refine ⟨⟨⟨rfl, rfl, hm.staged⟩, hm.depths⟩, ?_⟩
  have hstaged : m.staged = none := hm.staged
  simp [Machine.found, Machine.declare, Machine.declareAs, Machine.note, hstaged, Machine.findings,
    Note.finding?, Piece.findings, Lexeme.declares, Mark.finding, Machine.declaration, hstack,
    ScopeStack.scope?, ScopeStack.nearestNamed?, ScopeStack.empty, hspells.2]

/-- **A binding is heard** from the start of a text. -/
theorem hears {capacity : Nat} (hroom : 0 < capacity) :
    Hears binding.pieces anyToken (Waiting .topLevel (.empty capacity))
      (Keeping .expression (binding.stack capacity)) := by
  have hbody : Hears [.fixed .equals, .silent binding.value.word] anyToken
      (AfterParam (leftInLabel false binding.params) (binding.stack capacity))
      (Keeping .expression (binding.stack capacity)) :=
    .cons (hears_equals _ _) (hears_value binding.value _)
  have hparams := (hears_params (binding.scope_stack capacity) binding.params false).seq hbody
  have hname := (binding.hears_name hroom).append hparams fun _ h => binding.startsParameter h
  have hall := (Hears.cons (hears_let _) (hears_rec binding.isRec _)).seq hname
  simpa [pieces] using hall

/-- **The tags of a binding** are what is heard of it, and nothing is refused. -/
theorem contents {text : String}
    (hspells : List.Forall₂ Token.Spells (tokenize text) binding.words) (localBindings : Bool) :
    (extract { localBindings } text).diagnostics = [] ∧
      (extract { localBindings } text).tags.map Tag.content =
        binding.pieces.filterMap (Piece.content? localBindings) := by
  have hspell : Spell (tokenize text) binding.pieces := by
    rw [← binding.words_pieces] at hspells
    exact List.forall₂_map_right_iff.mp hspells
  have hstart : Waiting .topLevel (.empty ScopeStack.defaultCapacity)
      (Machine.start ScopeStack.defaultCapacity).paramView := ⟨⟨rfl, rfl, rfl⟩, rfl, rfl⟩
  obtain ⟨hend, hfound⟩ := binding.hears (by decide) _ _ (Token.endAt text.utf8ByteSize) hspell
    trivial hstart
  constructor
  · rw [diagnostics_eq_nil_iff]
    exact congrArg ScopeStack.refused hend.stack
  · have hfindings : findingsOf ScopeStack.defaultCapacity text =
        expected (tokenize text) binding.pieces := by
      rw [findingsOf, Machine.read_ofText, ← Machine.found_eq_confirm, hfound]
      rfl
    have htags : (extract { localBindings } text).tags =
        markedTags binding.pieces localBindings text ((tokenize text).map Token.start) := by
      rw [extract_tags_eq, hfindings, tags_expected]
      rfl
    rw [htags, content_markedTags]
    rw [List.length_map, hspell.length_eq]

end ParametrisedBinding

/-! ## What is said of a binding -/

@[simp] theorem Lexeme.content_bound (name : Lexeme .ident) (scope : Option Scope)
    (heard localBindings : Bool) :
    (name.bound scope heard).content? localBindings =
      if heard && localBindings then some (name.text, .variableDef, scope) else none := by
  cases heard <;> cases localBindings <;> rfl

/-- Parameters are local. -/
theorem contents_heardPieces_hidden (scope : Option Scope) (params : List Parameter)
    (inLabel : Bool) :
    (heardPieces scope inLabel params).filterMap (Piece.content? false) = [] := by
  induction params generalizing inLabel with
  | nil => rfl
  | cons param params ih =>
      rw [heardPieces, List.filterMap_append, ih, List.append_nil]
      cases param with
      | named param => cases param <;> simp [Parameter.pieces, NamedParameter.pieces]
      | _ => simp [Parameter.pieces]

namespace NamedParameter

def isPlain : NamedParameter → Bool
  | .plain _ => true
  | _ => false

def isLabel : NamedParameter → Bool
  | .label _ => true
  | _ => false

/-- The parameters that are heard: a plain name is not behind a label. -/
def heard : (inLabel : Bool) → List NamedParameter → List NamedParameter
  | _, [] => []
  | inLabel, param :: params =>
    (if inLabel && param.isPlain then [] else [param])
      ++ heard (param.leavesLabel inLabel) params

/-- What a parameter says in the scope of its function. -/
def content (scope : Option Scope) (param : NamedParameter) : String × Kind × Option Scope :=
  (param.name.text, .variableDef, scope)

theorem contents_heardPieces (scope : Option Scope) (params : List NamedParameter)
    (inLabel : Bool) :
    (heardPieces scope inLabel (params.map .named)).filterMap (Piece.content? true) =
      (heard inLabel params).map (content scope) := by
  induction params generalizing inLabel with
  | nil => rfl
  | cons param params ih =>
      rw [List.map_cons, heardPieces, List.filterMap_append, ih, heard, List.map_append]
      congr 1
      cases param <;> cases inLabel <;> rfl

/-- No plain name stands directly behind a label. -/
def Separated (params : List NamedParameter) : Prop :=
  params.IsChain fun param following => ¬ (param.isLabel = true ∧ following.isPlain = true)

theorem heard_sublist (params : List NamedParameter) (inLabel : Bool) :
    (heard inLabel params).Sublist params := by
  induction params generalizing inLabel with
  | nil => exact List.Sublist.refl _
  | cons param params ih =>
      rw [heard]
      split
      · exact (ih _).cons param
      · exact (ih _).cons_cons param

/-- In a label a plain name is left out, and no other parameter is. -/
theorem heard_cons_eq_iff (param : NamedParameter) (params : List NamedParameter)
    (inLabel : Bool) :
    heard inLabel (param :: params) = param :: params ↔
      ¬ (inLabel = true ∧ param.isPlain = true) ∧
        heard (param.leavesLabel inLabel) params = params := by
  rw [heard]
  cases hswallowed : inLabel && param.isPlain with
  | true =>
      obtain ⟨rfl, hplain⟩ : inLabel = true ∧ param.isPlain = true := by simpa using hswallowed
      have hfewer : heard (param.leavesLabel true) params ≠ param :: params := by
        intro heq
        have hle := (heard_sublist params (param.leavesLabel true)).length_le
        rw [heq, List.length_cons] at hle
        omega
      simp [hplain, hfewer]
  | false =>
      have hnot : ¬ (inLabel = true ∧ param.isPlain = true) := by
        rintro ⟨hlabel, hplain⟩
        simp [hlabel, hplain] at hswallowed
      simp [hnot]

/-- **All parameters are heard** if and only if no plain name stands directly behind a label. -/
theorem heard_eq_iff (params : List NamedParameter) (inLabel : Bool) :
    heard inLabel params = params ↔
      (inLabel = true → ∀ param ∈ params.head?, param.isPlain = false) ∧ Separated params := by
  induction params generalizing inLabel with
  | nil => simp [heard, Separated]
  | cons param params ih =>
      have hlabel : ¬ (inLabel = true ∧ param.isPlain = true) →
          param.leavesLabel inLabel = param.isLabel := by
        cases param <;> cases inLabel <;> simp [leavesLabel, isLabel, isPlain]
      unfold Separated at ih ⊢
      rw [heard_cons_eq_iff, ih, List.isChain_cons]
      constructor
      · rintro ⟨hheard, hbehind, hrest⟩
        rw [hlabel hheard] at hbehind
        refine ⟨?_, ?_, hrest⟩
        · simpa using hheard
        · rintro following hfollowing ⟨hparam, hplain⟩
          simp [hbehind hparam following hfollowing] at hplain
      · rintro ⟨hhead, hbehind, hrest⟩
        have hheard : ¬ (inLabel = true ∧ param.isPlain = true) := by simpa using hhead
        refine ⟨hheard, ?_, hrest⟩
        rw [hlabel hheard]
        intro hparam following hfollowing
        simpa using fun hplain => hbehind following hfollowing ⟨hparam, hplain⟩

end NamedParameter

/-! ## Main theorems -/

/-- **Kinds of bindings.**  A binding with parameters of whatever forms has one tag outside
of itself, that of its name.  It is a function if the first parameter is neither the
wildcard nor another literal; so it is what it is meant to be unless that is the case. -/
theorem extract_parametrised (binding : ParametrisedBinding) {text : String}
    (hspells : List.Forall₂ Token.Spells (tokenize text) binding.words) :
    (extract {} text).diagnostics = [] ∧
      (extract {} text).tags.map Tag.content =
        [(binding.name.text, binding.heardKind, none)] ∧
      (binding.heardKind = binding.kind ↔
        ∀ value, binding.params.head? ≠ some (.literal value)) := by
  obtain ⟨hfits, hcontents⟩ := binding.contents hspells false
  refine ⟨hfits, ?_, ?_⟩
  · rw [hcontents]
    simp [ParametrisedBinding.pieces, List.filterMap_cons, contents_heardPieces_hidden]
  · unfold ParametrisedBinding.heardKind ParametrisedBinding.kind ParametrisedBinding.isNoticed
    cases binding.params with
    | nil => simp
    | cons param params => cases param <;> simp [Parameter.isNoticed]

/-- A function whose parameters are an optional label with a default, a pair, the wildcard
and a label. -/
theorem extract_parametrised_forms :
    let name (c : Char) (hname : startsWord c = true)
        (hkind : wordKind (String.ofList [c]) = .ident) : Lexeme .ident :=
      ⟨String.ofList [c], stands_word hname (by simp) hkind⟩
    let one : Lexeme .literal := ⟨String.ofList ['1'], stands_number rfl (by simp)⟩
    let wildcard : Lexeme .literal := ⟨Word.wildcard.text, Word.wildcard.stands⟩
    let f : LowerName := ⟨⟨String.ofList ['f'], stands_word rfl (by simp) rfl⟩, rfl⟩
    let binding : ParametrisedBinding :=
      ⟨true, f,
        [.named (.defaulted (name 'o' rfl rfl) one), .pair (name 'y' rfl rfl) (name 'z' rfl rfl),
          .literal wildcard, .named (.label (name 'l' rfl rfl))], one⟩
    let text := "let rec f ?(o = 1) (y, z) _ ~l = 1"
    List.Forall₂ Token.Spells (tokenize text) binding.words ∧
      (extract {} text).tags.map Tag.content = [("f", .functionDef, none)] := by
  intro name one wildcard f binding text
  have hspells : List.Forall₂ Token.Spells (tokenize text) binding.words := by
    decide +kernel
  exact ⟨hspells, (extract_parametrised binding hspells).2.1⟩

/-- With the wildcard for its first parameter a function is taken for a value. -/
theorem wildcard_hides_function :
    (extract {} "let f _ = 1").tags.map Tag.content = [("f", .variableDef, none)] ∧
      (extract {} "let f x _ = 1").tags.map Tag.content = [("f", .functionDef, none)] := by
  decide +kernel

/-- **Parameters of a function.**  Of a function with named parameters there are the tag of
the function and those of the parameters that are heard, in order and in its scope.
These are all parameters if and only if no plain name stands directly behind a label. -/
theorem extract_namedParameters (isRec : Bool) (name : LowerName)
    (first : NamedParameter) (others : List NamedParameter) (value : Lexeme .literal)
    {text : String}
    (hspells : List.Forall₂ Token.Spells (tokenize text)
      (ParametrisedBinding.words ⟨isRec, name, (first :: others).map .named, value⟩)) :
    (extract { localBindings := true } text).diagnostics = [] ∧
      (extract { localBindings := true } text).tags.map Tag.content =
        (name.text, .functionDef, none) ::
          (NamedParameter.heard false (first :: others)).map
            (NamedParameter.content (some ⟨.functionDef, name.text⟩)) ∧
      ((extract { localBindings := true } text).tags.map Tag.content =
          (name.text, .functionDef, none) ::
            (first :: others).map (NamedParameter.content (some ⟨.functionDef, name.text⟩)) ↔
        NamedParameter.Separated (first :: others)) := by
  obtain ⟨hfits, hcontents⟩ := ParametrisedBinding.contents _ hspells true
  have hheard : (extract { localBindings := true } text).tags.map Tag.content =
      (name.text, .functionDef, none) ::
        (NamedParameter.heard false (first :: others)).map
          (NamedParameter.content (some ⟨.functionDef, name.text⟩)) := by
    rw [hcontents, ← NamedParameter.contents_heardPieces]
    simp [ParametrisedBinding.pieces, ParametrisedBinding.heardKind, ParametrisedBinding.inner,
      ParametrisedBinding.isNoticed, Parameter.isNoticed, List.filterMap_cons]
  refine ⟨hfits, hheard, ?_⟩
  rw [hheard, List.cons_inj_right]
  constructor
  · intro hall
    have hlengths := congrArg List.length hall
    rw [List.length_map, List.length_map] at hlengths
    have hsame := (NamedParameter.heard_sublist (first :: others) false).eq_of_length hlengths
    exact ((NamedParameter.heard_eq_iff _ _).mp hsame).2
  · intro hseparated
    rw [(NamedParameter.heard_eq_iff _ _).mpr ⟨by simp, hseparated⟩]

/-- A function with parameters of all sorts, of which the name behind the label is last. -/
theorem extract_namedParameters_forms :
    let name (c : Char) (hname : startsWord c = true)
        (hkind : wordKind (String.ofList [c]) = .ident) : Lexeme .ident :=
      ⟨String.ofList [c], stands_word hname (by simp) hkind⟩
    let one : Lexeme .literal := ⟨String.ofList ['1'], stands_number rfl (by simp)⟩
    let f : LowerName := ⟨⟨String.ofList ['f'], stands_word rfl (by simp) rfl⟩, rfl⟩
    let others : List NamedParameter :=
      [.optional (name 'o' rfl rfl), .typedLabel (name 'm' rfl rfl) (name 't' rfl rfl),
        .plain (name 'x' rfl rfl), .label (name 'l' rfl rfl)]
    let text := "let f ?(d = 1) ?o ~(m : t) x ~l = 1"
    List.Forall₂ Token.Spells (tokenize text) (ParametrisedBinding.words
        ⟨false, f, (.defaulted (name 'd' rfl rfl) one :: others).map .named, one⟩) ∧
      (extract { localBindings := true } text).tags.map Tag.content =
        [("f", .functionDef, none), ("d", .variableDef, some ⟨.functionDef, "f"⟩),
          ("o", .variableDef, some ⟨.functionDef, "f"⟩),
          ("m", .variableDef, some ⟨.functionDef, "f"⟩),
          ("x", .variableDef, some ⟨.functionDef, "f"⟩),
          ("l", .variableDef, some ⟨.functionDef, "f"⟩)] := by
  intro name one f others text
  have hspells : List.Forall₂ Token.Spells (tokenize text) (ParametrisedBinding.words
      ⟨false, f, (.defaulted (name 'd' rfl rfl) one :: others).map .named, one⟩) := by
    decide +kernel
  exact ⟨hspells, (extract_namedParameters false f (.defaulted (name 'd' rfl rfl) one) others one
    hspells).2.1⟩

/-- A name behind a label is not heard. -/
theorem label_swallows_name :
    (extract { localBindings := true } "let f ~l x = 1").tags.map Tag.content =
        [("f", .functionDef, none), ("l", .variableDef, some ⟨.functionDef, "f"⟩)] ∧
      (extract { localBindings := true } "let f ?l x = 1").tags.map Tag.content =
        [("f", .functionDef, none), ("l", .variableDef, some ⟨.functionDef, "f"⟩),
          ("x", .variableDef, some ⟨.functionDef, "f"⟩)] := by
  decide +kernel

end CamlIndex
