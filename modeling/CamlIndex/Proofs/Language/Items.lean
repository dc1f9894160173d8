import CamlIndex.Proofs.Language.Types

/-!
# Reading declarations

Between declarations the frames are those of the modules around, and the scope
is that of the innermost.  Each declaration begins with a word of its own and
leaves the machine settled in the same frames, whatever it had inside.

* `Item.reads`, `Program.reads` — declarations are read from settled to settled.
-/

namespace CamlIndex

section

variable {frames : List Frame} {scope : Option Scope}

/-! ## Bindings -/

/-- The right-hand side of a declaration whose boundary has been pushed. -/
theorem reads_definition {frame : Frame} {inner : Option Scope} (hframe : frame.Endless)
    (hscoped : Scoped (frame :: frames) inner) (body : Body) :
    Reads (.fixed .equals :: body.pieces inner) anyKind (At .parameters (frame :: frames))
      (Settled frames) :=
  (Reads.cons (reads_bodyStart (.inl rfl) (by decide) _) (Body.reads hscoped body)).weaken
    fun _ hm => .expression hframe hm

theorem Header.endless (header : Header) :
    (Frame.declared header.role scope header.name.text).Endless := by
  refine Frame.endless_declared ?_ scope header.name.text
  unfold Header.role
  split <;> decide

theorem reads_rec (frames : List Frame) :
    Reads [.fixed .kwRec] anyKind (At .letName frames) (At .letName frames) := by
  apply Reads.stay
  intro m token following hm hkind
  simp [Machine.dispatch, hm.mode, Machine.atLetName, hkind]

/-- The name of a binding between declarations opens a boundary. -/
theorem Header.reads_name (hscoped : Scoped frames scope) (header : Header)
    {next : TokenKind → Prop} (hnext : ∀ following : Token, next following.kind →
      Machine.bindingOf following = (header.kind, header.role)) :
    Reads [⟨header.name.word, some ⟨header.name.text, header.kind, false, scope⟩⟩] next
      (At .letName frames)
      (At .parameters (.declared header.role scope header.name.text :: frames)) := by
  refine Reads.name (·.openBinding header.role header.name.text) hscoped (fun _ hm => hm) ?_ ?_
  · intro m token following hmode hkind htext hfollowing
    simp [Machine.dispatch, hmode, Machine.atLetName, hkind, hnext following hfollowing, htext]
  · intro m hm hrefused
    have hpushed := hm.pushNamed hscoped header.name.stands.ne_empty hrefused
    exact ⟨⟨rfl, hpushed.frames, hpushed.staged⟩, m.found_push _ _ _ _⟩

/-- The header of a binding between declarations. -/
theorem Header.reads_boundary (hscoped : Scoped frames scope) (header : Header) :
    Reads (header.pieces false scope) (· = .equals) (At .letName frames)
      (At .parameters
        (.declared header.role scope header.name.text :: frames)) :=
  header.reads_of_name (reads_rec frames)
    (header.reads_name hscoped fun _ hfollowing => header.bindingOf_eq hfollowing)
    (header.scoped_opened scope frames true .topLevel)

/-- A binding between declarations, behind its `let`. -/
theorem Header.reads_bound (hscoped : Scoped frames scope) (header : Header) (body : Body) :
    Reads (header.pieces false scope ++ .fixed .equals :: body.pieces (header.inner scope)) anyKind
      (At .letName frames) (Settled frames) := by
  have hinner := header.scoped_opened scope frames true .topLevel
  have hbody := reads_definition header.endless hinner body
  exact (header.reads_boundary hscoped).append hbody fun _ h => h

/-- The `()` that a `let` declares. -/
theorem reads_unit (hscoped : Scoped frames scope) :
    Reads [⟨.fixed .parenOpen, some ⟨"()", .functionDef, false, scope⟩⟩] (· = .parenClose)
      (Begun .letName frames)
      (At .parameters (.declared .functionScope scope "()" :: frames)) := by
  refine Reads.declares (·.openBinding .functionScope "()") hscoped (fun _ hm => hm.toAt) ?_ ?_
  · intro m token following hmode hkind _ hnext
    simp [Machine.dispatch, hmode, Machine.atLetName, hkind, hnext, Machine.declareAs]
  · intro m hm hrefused
    have hpushed := hm.toAt.pushNamed hscoped (by decide) hrefused
    exact ⟨⟨rfl, hpushed.frames, hpushed.staged⟩, m.found_push _ _ _ _⟩

theorem reads_parenClose (frames : List Frame) :
    Reads [.fixed .parenClose] anyKind (At .parameters frames) (At .parameters frames) := by
  apply Reads.stay
  intro m token following hm hkind
  simp [Machine.dispatch, hm.mode, Machine.atParameters, hkind]

/-- The `_` that a `let` declares. -/
theorem reads_wildcard (hscoped : Scoped frames scope) :
    Reads [⟨.wildcard, some ⟨"_", .functionDef, false, scope⟩⟩] anyKind (Begun .letName frames)
      (At .parameters (.declared .functionScope scope "_" :: frames)) := by
  refine Reads.declares (·.openBinding .functionScope "_") hscoped (fun _ hm => hm.toAt) ?_ ?_
  · intro m token following hmode hspelled htext _
    have hkind : token.kind = .literal := hspelled
    have htext : token.text = "_" := htext
    have hwildcard : Machine.isWildcard token = true := by
      rw [Machine.isWildcard, Token.initial?, htext]
      rfl
    simp [Machine.dispatch, hmode, Machine.atLetName, hkind, hwildcard, Machine.declare,
      Machine.declareAs, htext]
  · intro m hm hrefused
    have hpushed := hm.toAt.pushNamed hscoped (by decide) hrefused
    exact ⟨⟨rfl, hpushed.frames, hpushed.staged⟩, m.found_push _ _ _ _⟩

/-- The declaration of `()`, behind its `let`. -/
theorem reads_unitBound (hscoped : Scoped frames scope) (body : Body) :
    Reads (⟨.fixed .parenOpen, some ⟨"()", .functionDef, false, scope⟩⟩ :: .fixed .parenClose
        :: .fixed .equals :: body.pieces (Scope.inside scope .functionDef "()")) anyKind
      (Begun .letName frames) (Settled frames) := by
  have hinner : Scoped (.declared .functionScope scope "()" :: frames)
      (Scope.inside scope .functionDef "()") := .declared rfl scope frames (by decide)
  have hbody := reads_definition (Frame.endless_declared (by decide) scope "()") hinner body
  exact (reads_unit hscoped).append (Reads.cons (reads_parenClose _) hbody) fun _ h => h

/-- The declaration of `_`, behind its `let`. -/
theorem reads_wildcardBound (hscoped : Scoped frames scope) (body : Body) :
    Reads (⟨.wildcard, some ⟨"_", .functionDef, false, scope⟩⟩ :: .fixed .equals
        :: body.pieces (Scope.inside scope .functionDef "_")) anyKind
      (Begun .letName frames) (Settled frames) := by
  have hinner : Scoped (.declared .functionScope scope "_" :: frames)
      (Scope.inside scope .functionDef "_") := .declared rfl scope frames (by decide)
  have hbody := reads_definition (Frame.endless_declared (by decide) scope "_") hinner body
  exact Reads.cons (reads_wildcard hscoped) hbody

/-! ## Exceptions -/

theorem reads_exception (hscoped : Scoped frames scope) (name : UpperName)
    (payload : Option LowerName) :
    Reads (name.declares .exceptionDef scope
        :: payload.elim [] fun type => [.fixed .kwOf, .silent type.word]) anyKind
      (Begun .exceptionName frames) (Begun .topLevel frames) := by
  have hname : Reads [name.declares .exceptionDef scope] anyKind (Begun .exceptionName frames)
      (Begun .topLevel frames) := by
    refine Reads.name (·.goto .topLevel) hscoped (fun _ hm => hm.toAt) ?_ ?_
    · intro m token following hmode hkind _ _
      simp [Machine.dispatch, hmode, Machine.atExceptionName, hkind]
    · intro m hm _
      exact ⟨hm.goto .topLevel, rfl⟩
  have hopen : ∀ view, Begun .topLevel frames view → Open view := fun _ hm => .inl hm.mode_eq
  cases payload with
  | none => exact hname
  | some type =>
      have hof : Reads [.fixed .kwOf] anyKind (Begun .topLevel frames) (Begun .topLevel frames) :=
        reads_quiet (by decide) hopen
      have htype : Reads [.silent type.word] anyKind (Begun .topLevel frames)
          (Begun .topLevel frames) :=
        reads_quiet (by simp [Lexeme.word, quiet]) hopen
      exact Reads.cons hname (Reads.cons hof htype)

/-! ## Modules -/

/-- Behind the name of a module. -/
structure Headed (name : String) (frames : List Frame) (view : View) : Prop extends
    Begun .moduleBody frames view where
  name_eq : view.moduleName = name

/-- Inside a signature, whose module has a name. -/
structure InSignature (name : String) (frames : List Frame) (view : View) : Prop extends
    Begun .topLevel frames view where
  name_eq : view.moduleName = name

theorem reads_moduleName (hscoped : Scoped frames scope) (name : UpperName) :
    Reads [name.declares .moduleDef scope] (fun kind => kind = .colon ∨ kind = .equals)
      (Begun .moduleName frames) (Headed name.text frames) := by
  refine Reads.name (fun m => { m with moduleName := name.text }.goto .moduleBody) hscoped
    (fun _ hm => hm.toAt) ?_ ?_
  · intro m token following hmode hkind htext hnext
    rcases hnext with hnext | hnext <;>
      simp [Machine.dispatch, hmode, Machine.atModuleName, hkind, hnext, htext]
  · intro m hm _
    exact ⟨⟨⟨⟨rfl, hm.frames, hm.staged⟩, hm.closing⟩, rfl⟩, rfl⟩

/-- A colon or `=` in front of a signature or a structure. -/
theorem reads_moduleMark {kind : TokenKind} (hkind : kind = .colon ∨ kind = .equals)
    (hfixed : kind.spelling ≠ "") (name : String) (frames : List Frame) :
    Reads [.fixed kind hfixed] anyKind (Headed name frames) (Headed name frames) := by
  apply Reads.stay
  intro m token following hm hspelled
  rcases hkind with rfl | rfl <;>
    simp [Machine.dispatch, hm.mode, Machine.atModuleBody, hspelled]

/-- A `struct` or `sig` opens the scope of the module. -/
theorem reads_moduleBody {kind : TokenKind} (hkind : kind = .kwStruct ∨ kind = .kwSig)
    (hfixed : kind.spelling ≠ "") (hscoped : Scoped frames scope) (name : UpperName) :
    Reads [.fixed kind hfixed] anyKind (Headed name.text frames)
      (InSignature name.text (.declared .moduleScope scope name.text :: frames)) := by
  apply Reads.rule fun m =>
    { m.pushBoundary .moduleScope name.text with mode := .topLevel, closing := false }
  · intro m token following hm hspelled _
    have hname : m.moduleName = name.text := hm.name_eq
    rcases hkind with rfl | rfl <;>
      simp [Machine.dispatch, hm.mode, Machine.atModuleBody, hspelled, hname]
  · intro m hm hrefused
    have hpushed := hm.toAt.pushNamed hscoped name.stands.ne_empty hrefused
    have hkept := congrArg View.moduleName (Machine.view_push hrefused)
    exact ⟨⟨⟨⟨rfl, hpushed.frames, hpushed.staged⟩, rfl⟩, hkept.trans hm.name_eq⟩,
      m.found_push _ _ _ _⟩

/-- The header of a module with a signature. -/
theorem reads_signatureHeader (hscoped : Scoped frames scope) (name : UpperName) :
    Reads [.fixed .kwModule, name.declares .moduleDef scope, .fixed .colon, .fixed .kwSig] anyKind
      (Settled frames)
      (InSignature name.text (.declared .moduleScope scope name.text :: frames)) := by
  have hsig := Reads.cons (reads_moduleMark (.inl rfl) (by decide) name.text frames)
    (reads_moduleBody (.inr rfl) (by decide) hscoped name)
  exact Reads.cons (reads_start (by decide) (by decide) frames)
    ((reads_moduleName hscoped name).append hsig fun _ h => .inl h)

/-- A value is read over any condition that a change of the mode keeps. -/
theorem ValSpec.reads_from {before : View → Prop} (during : Mode → View → Prop)
    (hscoped : Scoped frames scope) (hat : ∀ mode view, during mode view → At mode frames view)
    (hgoto : ∀ (m : Machine) (mode other : Mode), during mode m.view →
      during other (m.goto other).view)
    (hval : Reads [.fixed .kwVal] anyKind before (during .valName)) (spec : ValSpec) :
    Reads (spec.pieces scope) anyKind before (during .topLevel) := by
  have hopen : ∀ view, during .topLevel view → Open view := fun _ hm => .inl (hat _ _ hm).mode_eq
  have hcolon : Reads [.fixed .colon] anyKind (during .topLevel) (during .topLevel) :=
    reads_quiet (by decide) hopen
  have htype : Reads [.silent spec.type.word] anyKind (during .topLevel) (during .topLevel) :=
    reads_quiet (by simp [Lexeme.word, quiet]) hopen
  refine Reads.cons hval (Reads.cons ?_ (Reads.cons hcolon htype))
  refine Reads.name (·.goto .topLevel) hscoped (hat .valName) ?_ ?_
  · intro m token following hmode hkind _ _
    simp [Machine.dispatch, hmode, Machine.atValName, hkind]
  · intro m hm _
    exact ⟨hgoto m .valName .topLevel hm, rfl⟩

/-- A `val` where declarations may start. -/
theorem reads_val {before after : View → Prop} (hopen : ∀ view, before view → Open view)
    (hafter : ∀ m : Machine, before m.view → after (m.goto .valName).view) :
    Reads [.fixed .kwVal] anyKind before after := by
  apply Reads.rule (·.goto .valName)
  · intro m token following hm hkind _
    have hkind : token.kind = .kwVal := hkind
    unfold Machine.dispatch
    rcases hopen _ hm with hmode | ⟨hmode, hwaited⟩ | ⟨hmode, hwaited, hterminating⟩
    · rw [show m.mode = .topLevel from hmode]
      simp [Machine.atTopLevel, hkind]
    · have hwaited : m.skip.waited = .pipe := hwaited
      rw [show m.mode = .skipOpen from hmode]
      simp [Machine.atSkipOpen, Machine.atTopLevel, hkind, hwaited]
    · have hwaited : m.skip.waited = .semicolon := hwaited
      have hterminating : m.skip.terminating = .braceClose := hterminating
      rw [show m.mode = .skipOpenTo from hmode]
      simp [Machine.atSkipOpenTo, Machine.atTopLevel, hkind, hwaited, hterminating]
  · intro m hm _
    exact ⟨hafter m hm, rfl⟩

theorem ValSpec.reads {name : String} (hscoped : Scoped frames scope) (spec : ValSpec) :
    Reads (spec.pieces scope) anyKind (InSignature name frames) (InSignature name frames) := by
  have hval : Reads [.fixed .kwVal] anyKind (InSignature name frames)
      (fun view => Begun .valName frames view ∧ view.moduleName = name) :=
    reads_val (fun _ hm => .inl hm.mode_eq) fun _ hm => ⟨hm.toBegun.goto .valName, hm.name_eq⟩
  have hspec := ValSpec.reads_from
    (fun mode view => Begun mode frames view ∧ view.moduleName = name) hscoped
    (fun _ _ hm => hm.1.toAt) (fun _ _ other hm => ⟨hm.1.goto other, hm.2⟩) hval spec
  exact hspec.weaken fun _ hm => ⟨hm.1, hm.2⟩

theorem reads_specs {name : String} (hscoped : Scoped frames scope) (specs : List ValSpec) :
    Reads (specs.flatMap (ValSpec.pieces scope)) anyKind (InSignature name frames)
      (InSignature name frames) := by
  induction specs with
  | nil => exact Reads.nil _ _
  | cons spec specs ih => exact (spec.reads hscoped).seq ih

/-- The `end` of a signature leads back to its module. -/
theorem reads_endSignature {frame : Frame} (hframe : frame.Ended)
    (hrole : frame.role = .moduleScope) (name : String) (frames : List Frame) :
    Reads [.fixed .kwEnd] (· = .equals) (InSignature name (frame :: frames))
      (Headed name frames) := by
  apply Reads.silent
  intro m token following hspells hequals hm _
  have hspelled : token.kind = .kwEnd := hspells.1
  have hat : At m.mode (frame :: frames) m.view := ⟨rfl, hm.frames, hm.staged⟩
  obtain ⟨stack, hclosed, hframes, -⟩ := (Ready.clear hm.closing hat).closeEnd hframe
  have hend : m.dispatch token following =
      { m with stack, chained := .moduleName, mode := .moduleBody, closing := false } := by
    unfold Machine.dispatch
    rw [hm.mode]
    dsimp only
    unfold Machine.atTopLevel
    rw [hspelled]
    dsimp only
    rw [Machine.readEnd, hclosed]
    simp [hrole, Machine.afterModule, hequals]
  rw [hend]
  exact ⟨⟨⟨⟨rfl, hframes, hm.staged⟩, rfl⟩, hm.name_eq⟩, rfl⟩

/-! ## Classes -/

/-- Behind the name of a class. -/
structure ClassHeaded (name : String) (frames : List Frame) (view : View) : Prop extends
    Begun .skipBalanced frames view where
  name_eq : view.className = name
  waited : view.skip.waited = .equals
  resume : view.skip.resume = .classBody
  balance : view.balance = {}

theorem reads_className (hscoped : Scoped frames scope) (name : LowerName) :
    Reads [name.declares .classDef scope] anyKind (Begun .className frames)
      (ClassHeaded name.text frames) := by
  refine Reads.name (fun m => { m with className := name.text }.skipTo .skipBalanced .equals
    .classBody) hscoped (fun _ hm => hm.toAt) ?_ ?_
  · intro m token following hmode hkind htext _
    simp [Machine.dispatch, hmode, Machine.atClassName, hkind, htext]
  · intro m hm _
    exact ⟨⟨⟨⟨rfl, hm.frames, hm.staged⟩, hm.closing⟩, rfl, rfl, rfl, rfl⟩, rfl⟩

theorem reads_classMark (name : String) :
    Reads [.fixed .equals] anyKind (ClassHeaded name frames)
      (fun view => Begun .classBody frames view ∧ view.className = name) := by
  apply Reads.rule (·.goto .classBody)
  · intro m token following hm hkind _
    have hwaited : m.skip.waited = .equals := hm.waited
    have hresume : m.skip.resume = .classBody := hm.resume
    have hbalance : m.balance = {} := hm.balance
    simp [Machine.dispatch, hm.mode, Machine.atSkipBalanced, hkind, hwaited, hresume, hbalance,
      Balance.count, Balance.isEven, Machine.goto]
  · intro m hm _
    exact ⟨⟨hm.toBegun.goto .classBody, hm.name_eq⟩, rfl⟩

theorem reads_object (hscoped : Scoped frames scope) (name : LowerName) :
    Reads [.fixed .kwObject] anyKind
      (fun view => Begun .classBody frames view ∧ view.className = name.text)
      (Begun .topLevel (.declared .classScope scope name.text :: frames)) := by
  apply Reads.rule fun m => (m.pushBoundary .classScope name.text).goto .topLevel
  · intro m token following hm hkind _
    have hname : m.className = name.text := hm.2
    simp [Machine.dispatch, hm.1.mode, Machine.atClassBody, hkind, hname]
  · intro m hm hrefused
    have hpushed := hm.1.toAt.pushNamed hscoped name.stands.ne_empty hrefused
    have hkept := congrArg View.closing (Machine.view_push hrefused)
    exact ⟨⟨hpushed.goto .topLevel, hkept.trans hm.1.closing⟩, m.found_push _ _ _ _⟩

theorem reads_methodName (hscoped : Scoped frames scope) (name : LowerName) :
    Reads [name.declares .methodDef scope] anyKind (Begun .methodName frames)
      (At .parameters (.declared .methodScope scope name.text :: frames)) := by
  refine Reads.name (fun m => (m.pushBoundary .methodScope name.text).goto .parameters) hscoped
    (fun _ hm => hm.toAt) ?_ ?_
  · intro m token following hmode hkind htext _
    simp [Machine.dispatch, hmode, Machine.atMethodName, hkind, htext]
  · intro m hm hrefused
    have hpushed := hm.toAt.pushNamed hscoped name.stands.ne_empty hrefused
    exact ⟨hpushed.goto .parameters, m.found_push _ _ _ _⟩

/-- The frame of a method is one that has no `end`. -/
theorem endless_method (scope : Option Scope) (name : LowerName) :
    (Frame.declared .methodScope scope name.text).Endless :=
  Frame.endless_declared (by decide) scope name.text

theorem scoped_method (scope : Option Scope) (frames : List Frame) (name : LowerName) :
    Scoped (.declared .methodScope scope name.text :: frames)
      (Scope.inside scope .methodDef name.text) :=
  .declared rfl scope frames name.stands.ne_empty

theorem Method.reads (hscoped : Scoped frames scope) (method : Method) :
    Reads (method.pieces scope) anyKind (Settled frames) (Settled frames) := by
  have hframe := endless_method scope method.name
  have hinner := scoped_method scope frames method.name
  have hkeyword : Reads [.fixed .kwMethod] anyKind (Settled frames) (Begun .methodName frames) :=
    reads_start (by decide) (by decide) frames
  exact Reads.cons hkeyword (Reads.cons (reads_methodName hscoped method.name)
    ((reads_params hinner method.params).seq (reads_definition hframe hinner method.body)))

theorem reads_methods (hscoped : Scoped frames scope) (methods : List Method) :
    Reads (methods.flatMap (Method.pieces scope)) anyKind (Settled frames) (Settled frames) := by
  induction methods with
  | nil => exact Reads.nil _ _
  | cons method methods ih => exact (method.reads hscoped).seq ih

/-! ## Declarations -/

theorem leads_types (types : List TypeDef) {kind : TokenKind}
    (h : Leads (types.flatMap fun type => .fixed .kwAnd :: type.pieces scope) Apart kind) :
    kind ≠ .equals := by
  cases types with
  | nil => exact h.1
  | cons _ _ =>
      have hand : kind = .kwAnd := h
      simp [hand]

/-- Types that are defined together. -/
theorem reads_types (hscoped : Scoped frames scope) (types : List TypeDef) :
    Reads (types.flatMap fun type => .fixed .kwAnd :: type.pieces scope) Apart
      (AfterType frames) (AfterType frames) := by
  induction types with
  | nil => exact Reads.nil _ _
  | cons type types ih =>
      have hone := (Reads.cons (reads_and frames) (type.reads hscoped))
      exact hone.append ih fun _ hkind => leads_types types hkind

end

/-- Declarations keep apart from what stands before them. -/
theorem Item.leads {scope : Option Scope} (item : Item) {rest : List Piece}
    {next : TokenKind → Prop} {kind : TokenKind}
    (h : Leads (item.pieces scope ++ rest) next kind) : Apart kind := by
  have hkind : kind ∈ [.kwLet, .kwType, .kwException, .kwModule, .kwClass] := by
    cases item <;> simp [show kind = _ from h, Piece.fixed, Piece.silent, Word.fixed]
  simp only [List.mem_cons, List.not_mem_nil, or_false] at hkind
  rcases hkind with rfl | rfl | rfl | rfl | rfl <;> exact ⟨by decide, by decide⟩

theorem Program.leads {scope : Option Scope} (program : Program) {kind : TokenKind}
    (h : Leads (program.pieces scope) Apart kind) : Apart kind := by
  cases program with
  | empty => exact h
  | more item items => exact item.leads h

/-- What stands between the words of a module, up to its `end`. -/
theorem reads_structure {frames : List Frame} {scope : Option Scope} (name : UpperName)
    (hscoped : Scoped frames scope) (items : Program)
    (hitems : ∀ {frames}, Scoped frames (Scope.inside scope .moduleDef name.text) →
      Reads (items.pieces (Scope.inside scope .moduleDef name.text)) Apart (Settled frames)
        (Settled frames)) :
    Reads (.fixed .equals :: .fixed .kwStruct
        :: items.pieces (Scope.inside scope .moduleDef name.text) ++ [.fixed .kwEnd]) Apart
      (Headed name.text frames) (Settled frames) := by
  have hinner : Scoped (.declared .moduleScope scope name.text :: frames)
      (Scope.inside scope .moduleDef name.text) :=
    .declared rfl scope frames name.stands.ne_empty
  have hopen := (reads_moduleBody (.inl rfl) (by decide) hscoped name).weaken
    fun _ hm => hm.toBegun.settled
  have hclose := (reads_end (Frame.ended_declared (.inr rfl) scope name.text) frames).weaken
    fun _ hm => hm.settled
  refine Reads.cons (reads_moduleMark (.inr rfl) (by decide) name.text frames)
    (Reads.cons hopen ((hitems hinner).append hclose fun kind hkind => ?_))
  have hend : kind = .kwEnd := hkind
  simp [hend, Apart]

-- The induction is on the trees; what a module holds is read over one more frame.
mutual

/-- **A declaration** leaves the machine settled. -/
theorem Item.reads {frames : List Frame} {scope : Option Scope} (hscoped : Scoped frames scope)
    (item : Item) : Reads (item.pieces scope) Apart (Settled frames) (Settled frames) := by
  cases item with
  | binding header body =>
      have hbound := (header.reads_bound hscoped body).mono fun _ hm => Begun.toAt hm
      exact (Reads.cons (reads_startLet frames) hbound).narrow fun _ _ => trivial
  | unit body =>
      exact (Reads.cons (reads_startLet frames) (reads_unitBound hscoped body)).narrow
        fun _ _ => trivial
  | wildcard body =>
      exact (Reads.cons (reads_startLet frames) (reads_wildcardBound hscoped body)).narrow
        fun _ _ => trivial
  | types first others =>
      have htypes := (first.reads hscoped).append (reads_types hscoped others)
        fun _ hkind => leads_types others hkind
      exact (Reads.cons (reads_type frames) htypes).weaken fun _ hm => hm.1
  | exceptionDef name payload =>
      have hname := (reads_exception hscoped name payload).weaken fun _ hm => hm.settled
      exact (Reads.cons (reads_start (by decide) (by decide) frames) hname).narrow
        fun _ _ => trivial
  | moduleDef name items =>
      have hbody := reads_structure name hscoped items fun hscoped => Program.reads hscoped items
      have hname := (reads_moduleName hscoped name).append hbody fun _ hkind => .inr hkind
      exact Reads.cons (reads_start (by decide) (by decide) frames) hname
  | sealedModule name specs items =>
      have hbody := reads_structure name hscoped items fun hscoped => Program.reads hscoped items
      have hinner : Scoped (.declared .moduleScope scope name.text :: frames)
          (Scope.inside scope .moduleDef name.text) :=
        .declared rfl scope frames name.stands.ne_empty
      have hend := (reads_endSignature (Frame.ended_declared (.inr rfl) scope name.text) rfl name.text
        frames).append hbody fun _ hkind => hkind
      have hsig := Reads.cons (reads_moduleMark (.inl rfl) (by decide) name.text frames)
        (Reads.cons (reads_moduleBody (.inr rfl) (by decide) hscoped name)
          ((reads_specs hinner specs).seq hend))
      have hname := (reads_moduleName hscoped name).append hsig fun _ hkind => .inl hkind
      simpa [Item.pieces] using Reads.cons (reads_start (by decide) (by decide) frames) hname
  | classDef name methods =>
      have hinner : Scoped (.declared .classScope scope name.text :: frames)
          (Scope.inside scope .classDef name.text) :=
        .declared rfl scope frames name.stands.ne_empty
      have hobject := (reads_object hscoped name).weaken fun _ hm => hm.settled
      have hclose := (reads_end (Frame.ended_declared (.inl rfl) scope name.text) frames).weaken
        fun _ hm => hm.settled
      exact Reads.cons (reads_start (by decide) (by decide) frames)
        (Reads.cons (reads_className hscoped name) (Reads.cons (reads_classMark name.text)
          (Reads.cons hobject ((reads_methods hinner methods).seq hclose))))

theorem Program.reads {frames : List Frame} {scope : Option Scope} (hscoped : Scoped frames scope)
    (program : Program) :
    Reads (program.pieces scope) Apart (Settled frames) (Settled frames) := by
  cases program with
  | empty => exact Reads.nil _ _
  | more item items =>
      exact (Item.reads hscoped item).append (Program.reads hscoped items) fun _ hkind =>
        items.leads hkind

end

end CamlIndex
