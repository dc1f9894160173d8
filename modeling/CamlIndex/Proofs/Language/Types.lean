import CamlIndex.Proofs.Language.Settling

/-!
# Reading types

The definition of a type opens a boundary that stays behind it.  A capitalised
name in it is held back, and after a payload or another type the machine seeks
the next alternative while declarations may start already.  A record is read
field by field.

* `TypeDef.reads_behind` — a type is read from its name, and its right-hand side tells
  whether it is still on the stack then;
* `TypeDef.reads` — either way the machine is settled, and an `and` may follow.
-/

namespace CamlIndex

/-! ## Words that mean nothing -/

/-- Words that change nothing between declarations. -/
def quiet : List TokenKind :=
  [.ident, .literal, .operator, .colon, .equals, .arrow, .parenOpen, .parenClose, .bracketOpen,
    .bracketClose, .kwOf, .kwWith, .kwStruct]

/-- The modes in which declarations may start. -/
def Open (view : View) : Prop :=
  view.mode = .topLevel ∨ view.mode = .skipOpen ∧ view.skip.waited = .pipe ∨
    view.mode = .skipOpenTo ∧ view.skip.waited = .semicolon ∧ view.skip.terminating = .braceClose

theorem Machine.dispatch_quiet {m : Machine} {token following : Token} (hmode : Open m.view)
    (hkind : token.kind ∈ quiet) : m.dispatch token following = m := by
  have htop : m.atTopLevel token following = m := by
    unfold atTopLevel
    split <;> simp_all [quiet]
  have hother : ∀ kind ∈ quiet, kind ≠ .pipe ∧ kind ≠ .semicolon ∧ kind ≠ .braceClose := by
    decide
  have hother := hother token.kind hkind
  unfold dispatch
  rcases hmode with hmode | ⟨hmode, hwaited⟩ | ⟨hmode, hwaited, hterminating⟩
  · rw [show m.mode = .topLevel from hmode]
    exact htop
  · have hwaited : m.skip.waited = .pipe := hwaited
    rw [show m.mode = .skipOpen from hmode]
    dsimp only
    rw [atSkipOpen, hwaited, if_neg hother.1, htop]
  · have hwaited : m.skip.waited = .semicolon := hwaited
    have hterminating : m.skip.terminating = .braceClose := hterminating
    rw [show m.mode = .skipOpenTo from hmode]
    dsimp only
    rw [atSkipOpenTo, hwaited, hterminating, if_neg hother.2.1, if_neg hother.2.2, htop]

theorem reads_quiet {word : Word} (hword : word.kind ∈ quiet) {condition : View → Prop}
    (hmode : ∀ view, condition view → Open view) :
    Reads [.silent word] anyKind condition condition :=
  Reads.stay fun m _ _ hm hkind => m.dispatch_quiet (hmode _ hm) (hkind ▸ hword)

/-! ## Conditions -/

/-- Inside the definition of a type. -/
structure InType (mode : Mode) (frame : Frame) (frames : List Frame) (view : View) : Prop extends
    At mode (frame :: frames) view where
  closing : view.closing = true
  chained : view.chained = .typeName

/-- Behind a type. -/
def AfterType (frames : List Frame) (view : View) : Prop :=
  Settled frames view ∧ view.mode ≠ .expression ∧ view.chained = .typeName

/-- Where an alternative may follow. -/
structure Seeking (frame : Frame) (frames : List Frame) (view : View) : Prop extends
    InType .skipOpen frame frames view where
  waited : view.skip.waited = .pipe
  resume : view.skip.resume = .typeBody

/-- Behind the name of a constructor, which is held back. -/
structure Constructed (frame : Frame) (frames : List Frame) (view : View) : Prop where
  mode_eq : view.mode = .constructorCheck
  frames_eq : view.frames = frame :: frames
  closing : view.closing = true
  chained : view.chained = .typeName

/-- Behind the name of a field. -/
structure InField (frame : Frame) (frames : List Frame) (view : View) : Prop extends
    InType .skipOpenTo frame frames view where
  skip : view.skip = ⟨.semicolon, .braceClose, .recordFields⟩

/-- Behind a type that is still on the stack. -/
structure Lingering (frame : Frame) (frames : List Frame) (view : View) : Prop where
  inType : InType view.mode frame frames view
  mode : view.mode = .topLevel ∨ view.mode = .skipOpen ∧ view.skip.waited = .pipe

/-- Behind a type that has been left, or is left with the next word. -/
inductive Departed (frame : Frame) (frames : List Frame) (view : View) : Prop where
  | left (begun : Begun .topLevel frames view)
  | held (constructed : Constructed frame frames view)

/-- Behind the right-hand side of a type. -/
def TypeBody.Behind (body : TypeBody) (frame : Frame) (frames : List Frame) (view : View) : Prop :=
  (if body.lingers then Lingering frame frames view else Departed frame frames view) ∧
    view.chained = .typeName

/-- Behind a constructor: its name is held back, or the payload has been read. -/
def Constructor.Behind (constructor : Constructor) (frame : Frame) (frames : List Frame)
    (view : View) : Prop :=
  if constructor.payload.isSome then Seeking frame frames view else Constructed frame frames view

theorem InType.goto {m : Machine} {mode : Mode} {frame : Frame} {frames : List Frame}
    (h : InType mode frame frames m.view) (other : Mode) :
    InType other frame frames (m.goto other).view :=
  ⟨h.toAt.goto other, h.closing, h.chained⟩

section

variable {frame : Frame} {frames : List Frame} {view : View}

theorem Lingering.settled (hframe : frame.Endless) (h : Lingering frame frames view) :
    Settled frames view := by
  have hat : At view.mode (frame :: frames) view := h.inType.toAt
  exact .idle (.waiting hframe h.inType.closing hat.over) h.mode

theorem Departed.settled (hframe : frame.Endless) (h : Departed frame frames view) :
    Settled frames view := by
  cases h with
  | left hbegun => exact hbegun.settled
  | held hheld => exact .constructor hframe hheld.mode_eq hheld.frames_eq

theorem TypeBody.Behind.afterType {body : TypeBody} (hframe : frame.Endless)
    (h : body.Behind frame frames view) : AfterType frames view := by
  obtain ⟨hbehind, hchained⟩ := h
  split at hbehind
  · refine ⟨hbehind.settled hframe, ?_, hchained⟩
    rcases hbehind.mode with hmode | ⟨hmode, -⟩ <;> simp [hmode]
  · refine ⟨hbehind.settled hframe, ?_, hchained⟩
    cases hbehind with
    | left hbegun => simp [hbegun.mode_eq]
    | held hheld => simp [hheld.mode_eq]

theorem Seeking.lingering (h : Seeking frame frames view) : Lingering frame frames view := by
  have hinType := h.toInType
  rw [← h.mode_eq] at hinType
  exact ⟨hinType, .inr ⟨h.mode_eq, h.waited⟩⟩

/-- Behind the constructors of a type the last of them tells where the machine is. -/
theorem Constructor.Behind.typeBody {first : Constructor} {others : List Constructor}
    (h : (others.getLastD first).Behind frame frames view) (bar : Bool) :
    (TypeBody.variants bar first others).Behind frame frames view := by
  unfold Constructor.Behind at h
  unfold TypeBody.Behind TypeBody.lingers
  dsimp only
  split at h
  · next hpayload => exact ⟨by rw [if_pos hpayload]; exact h.lingering, h.chained⟩
  · next hpayload => exact ⟨by rw [if_neg hpayload]; exact .held h, h.chained⟩

end

/-! ## The words of types -/

section Words

variable (frame : Frame) (frames : List Frame)

/-- An `=` or a bar in front of the first alternative. -/
theorem reads_typeMark {kind : TokenKind} (hkind : kind = .equals ∨ kind = .pipe)
    (hfixed : kind.spelling ≠ "") :
    Reads [.fixed kind hfixed] anyKind (InType .typeBody frame frames)
      (InType .typeBody frame frames) := by
  apply Reads.stay
  intro m token following hm hspelled
  rcases hkind with rfl | rfl <;> simp [Machine.dispatch, hm.mode, Machine.atTypeBody, hspelled]

/-- The name of another type. -/
theorem reads_synonym (type : LowerName) :
    Reads [.silent type.word] anyKind (InType .typeBody frame frames) (Seeking frame frames) := by
  apply Reads.silent
  intro m token following hspells _ hm _
  have hkind : token.kind = .ident := hspells.1
  have htext : token.text = type.text := hspells.2
  have hlower : token.isCapitalized = false := by
    rw [Token.isCapitalized, Token.initial?, htext]
    exact type.lower
  have hseek : m.dispatch token following = m.seekAlternative := by
    simp [Machine.dispatch, hm.mode, Machine.atTypeBody, hkind, hlower]
  rw [hseek]
  exact ⟨⟨⟨⟨rfl, hm.frames, hm.staged⟩, hm.closing, hm.chained⟩, rfl, rfl⟩, rfl⟩

/-- The name of a constructor is held back. -/
theorem reads_heldName {frames : List Frame} {scope : Option Scope} (hscoped : Scoped frames scope)
    (name : UpperName) {before after : View → Prop}
    (hbefore : ∀ view, before view → At .typeBody frames view)
    (hafter : ∀ (m : Machine) (token : Token), before m.view →
      after ((m.stage token).goto .constructorCheck).view) :
    Reads [name.declares .constructorDef scope] anyKind before after := by
  apply Reads.piece
  intro m token following hspells _ hm _
  have hat := hbefore _ hm
  have hkind : token.kind = .ident := hspells.1
  have htext : token.text = name.text := hspells.2
  have hupper : token.isCapitalized = true := by
    rw [Token.isCapitalized, Token.initial?, htext]
    exact name.upper
  have hstage : m.dispatch token following = (m.stage token).goto .constructorCheck := by
    simp [Machine.dispatch, hat.mode, Machine.atTypeBody, hkind, hupper]
  have hscope : m.stack.scope? = scope := by
    rw [← hat.frames] at hscoped
    exact hscoped.scope?
  rw [hstage]
  refine ⟨hafter m token hm, ?_⟩
  simp [Machine.found, hat.staged, Machine.stage, Machine.goto, Machine.findings, Piece.findings,
    Lexeme.declares, Mark.finding, Machine.declaration, hscope, htext]

theorem reads_constructor {scope : Option Scope} (hscoped : Scoped (frame :: frames) scope)
    (name : UpperName) :
    Reads [name.declares .constructorDef scope] anyKind (InType .typeBody frame frames)
      (Constructed frame frames) :=
  reads_heldName hscoped name (fun _ hm => hm.toAt) fun _ _ hm =>
    ⟨rfl, hm.frames, hm.closing, hm.chained⟩

/-- What confirming the constructor makes of the machine behind it. -/
theorem Constructed.confirm {m : Machine} {frame : Frame} {frames : List Frame}
    (h : Constructed frame frames m.view) :
    InType .constructorCheck frame frames m.confirm.view ∧ m.confirm.found = m.found := by
  obtain ⟨notes, hconfirm⟩ := m.confirm_eq
  constructor
  · rw [hconfirm]
    exact ⟨⟨h.mode_eq, h.frames_eq, rfl⟩, h.closing, h.chained⟩
  · rw [m.found_eq_confirm, Machine.found, m.staged_confirm]
    exact List.append_nil _

/-- An `of` confirms the constructor. -/
theorem reads_of :
    Reads [.fixed .kwOf] anyKind (Constructed frame frames) (Seeking frame frames) := by
  apply Reads.rule (·.confirm.seekAlternative)
  · intro m token following hm hkind _
    have hmode : m.mode = .constructorCheck := hm.mode_eq
    simp [Machine.dispatch, hmode, Machine.atConstructorCheck, hkind]
  · intro m hm _
    obtain ⟨hconfirmed, hfound⟩ := hm.confirm
    exact ⟨⟨⟨⟨rfl, hconfirmed.frames, hconfirmed.staged⟩, hconfirmed.closing, hconfirmed.chained⟩,
      rfl, rfl⟩, hfound⟩

/-- A bar before the next alternative. -/
theorem reads_alternative (constructor : Constructor) :
    Reads [.fixed .pipe] anyKind (constructor.Behind frame frames)
      (InType .typeBody frame frames) := by
  apply Reads.silent
  intro m token following hspells _ hm _
  have hkind : token.kind = .pipe := hspells.1
  unfold Constructor.Behind at hm
  split at hm
  · have hwaited : m.skip.waited = .pipe := hm.waited
    have hresume : m.skip.resume = .typeBody := hm.resume
    have hnext : m.dispatch token following = m.goto .typeBody := by
      simp [Machine.dispatch, hm.mode, Machine.atSkipOpen, hkind, hwaited, hresume]
    rw [hnext]
    exact ⟨hm.toInType.goto .typeBody, rfl⟩
  · have hmode : m.mode = .constructorCheck := hm.mode_eq
    obtain ⟨hconfirmed, hfound⟩ := hm.confirm
    have hnext : m.dispatch token following = m.confirm.goto .typeBody := by
      simp [Machine.dispatch, hmode, Machine.atConstructorCheck, hkind]
    rw [hnext]
    exact ⟨hconfirmed.goto .typeBody, hfound⟩

theorem reads_braceOpen :
    Reads [.fixed .braceOpen] anyKind (InType .typeBody frame frames)
      (InType .recordFields frame frames) := by
  apply Reads.rule (·.goto .recordFields)
  · intro m token following hm hkind _
    simp [Machine.dispatch, hm.mode, Machine.atTypeBody, hkind]
  · intro m hm _
    exact ⟨hm.goto .recordFields, rfl⟩

/-- The name of a field. -/
theorem reads_fieldName {scope : Option Scope} (hscoped : Scoped (frame :: frames) scope)
    (name : LowerName) :
    Reads [name.declares .fieldDef scope] anyKind (InType .recordFields frame frames)
      (InField frame frames) := by
  refine Reads.name (·.skipToOrStop .semicolon .braceClose .recordFields) hscoped
    (fun _ hm => hm.toAt) ?_ ?_
  · intro m token following hmode hkind _ _
    simp [Machine.dispatch, hmode, Machine.atRecordFields, hkind]
  · intro m hm _
    exact ⟨⟨⟨⟨rfl, hm.frames, hm.staged⟩, hm.closing, hm.chained⟩, rfl⟩, rfl⟩

/-- A semicolon before another field or the closing brace. -/
theorem reads_fieldEnd :
    Reads [.fixed .semicolon] anyKind (InField frame frames)
      (InType .recordFields frame frames) := by
  apply Reads.rule (·.goto .recordFields)
  · intro m token following hm hkind _
    have hskip : m.skip = ⟨.semicolon, .braceClose, .recordFields⟩ := hm.skip
    simp [Machine.dispatch, hm.mode, Machine.atSkipOpenTo, hkind, hskip]
  · intro m hm _
    exact ⟨hm.toInType.goto .recordFields, rfl⟩

variable {frame}

/-- A brace behind a field leaves the type on the stack. -/
theorem reads_braceClose :
    Reads [.fixed .braceClose] anyKind (InField frame frames) (Lingering frame frames) := by
  apply Reads.rule (·.goto .topLevel)
  · intro m token following hm hkind _
    have hskip : m.skip = ⟨.semicolon, .braceClose, .recordFields⟩ := hm.skip
    simp [Machine.dispatch, hm.mode, Machine.atSkipOpenTo, hkind, hskip]
  · intro m hm _
    exact ⟨⟨hm.toInType.goto .topLevel, .inl rfl⟩, rfl⟩

/-- A brace behind a semicolon leaves the type. -/
theorem reads_braceCloseEmpty (hframe : frame.Endless) :
    Reads [.fixed .braceClose] anyKind (InType .recordFields frame frames)
      (fun view => Begun .topLevel frames view ∧ view.chained = .typeName) := by
  apply Reads.rule (·.leaveType.goto .topLevel)
  · intro m token following hm hkind _
    simp [Machine.dispatch, hm.mode, Machine.atRecordFields, hkind]
  · intro m hm _
    obtain ⟨-, hpopped⟩ := Over.popBoundary hframe.boundary hm.toAt.over
    exact ⟨⟨⟨⟨rfl, hpopped.frames, hpopped.staged⟩, rfl⟩, hm.chained⟩, rfl⟩

end Words

/-! ## Definitions of types -/

/-- The frame of a type. -/
def TypeDef.frame (type : TypeDef) (scope : Option Scope) : Frame :=
  .declared .typeScope scope type.name.text

theorem TypeDef.endless_frame (type : TypeDef) (scope : Option Scope) :
    (type.frame scope).Endless :=
  Frame.endless_declared (by decide) scope type.name.text

section Definitions

variable {frame : Frame} {frames : List Frame} {scope : Option Scope}

theorem Constructor.reads (hscoped : Scoped (frame :: frames) scope) (constructor : Constructor) :
    Reads (constructor.pieces scope) anyKind (InType .typeBody frame frames)
      (constructor.Behind frame frames) := by
  obtain ⟨name, payload⟩ := constructor
  have hname := reads_constructor frame frames hscoped name
  cases payload with
  | none => exact hname
  | some type =>
      have htype : Reads [.silent type.word] anyKind (Seeking frame frames)
          (Seeking frame frames) :=
        reads_quiet (by simp [Lexeme.word, quiet]) fun _ hm => .inr (.inl ⟨hm.mode_eq, hm.waited⟩)
      exact Reads.cons hname (Reads.cons (reads_of frame frames) htype)

/-- The constructors behind the first one; where the reading ends is up to the last. -/
theorem reads_constructors (hscoped : Scoped (frame :: frames) scope) (first : Constructor)
    (others : List Constructor) :
    Reads (others.flatMap fun constructor => .fixed .pipe :: constructor.pieces scope) anyKind
      (first.Behind frame frames) ((others.getLastD first).Behind frame frames) := by
  induction others generalizing first with
  | nil => exact Reads.nil _ _
  | cons constructor others ih =>
      have hone := Reads.cons (reads_alternative frame frames first) (constructor.reads hscoped)
      rw [List.getLastD_cons]
      exact hone.seq (ih constructor)

theorem Field.reads (hscoped : Scoped (frame :: frames) scope) (field : Field) :
    Reads (field.pieces scope) anyKind (InType .recordFields frame frames)
      (InField frame frames) := by
  have hopen : ∀ view, InField frame frames view → Open view := by
    intro view hm
    exact .inr (.inr ⟨hm.mode_eq, by rw [hm.skip], by rw [hm.skip]⟩)
  have hcolon : Reads [.fixed .colon] anyKind (InField frame frames) (InField frame frames) :=
    reads_quiet (by decide) hopen
  have htype : Reads [.silent field.type.word] anyKind (InField frame frames)
      (InField frame frames) :=
    reads_quiet (by simp [Lexeme.word, quiet]) hopen
  exact Reads.cons (reads_fieldName frame frames hscoped field.name) (Reads.cons hcolon htype)

theorem reads_fields (hscoped : Scoped (frame :: frames) scope) (fields : List Field) :
    Reads (fields.flatMap fun field => .fixed .semicolon :: field.pieces scope) anyKind
      (InField frame frames) (InField frame frames) := by
  induction fields with
  | nil => exact Reads.nil _ _
  | cons field fields ih =>
      have hone := Reads.cons (reads_fieldEnd frame frames) (field.reads hscoped)
      exact hone.seq ih

/-- **The right-hand side of a type**, if it has one. -/
theorem TypeBody.reads (hframe : frame.Endless) (hscoped : Scoped (frame :: frames) scope)
    {body : TypeBody} (hbody : body ≠ .abstract) :
    Reads (body.pieces scope) anyKind (InType .typeBody frame frames)
      (body.Behind frame frames) := by
  have hequals := reads_typeMark frame frames (.inl rfl) (by decide)
  cases body with
  | abstract => exact absurd rfl hbody
  | synonym type =>
      exact (Reads.cons hequals (reads_synonym frame frames type)).weaken
        fun _ hm => ⟨hm.lingering, hm.chained⟩
  | variants bar first others =>
      have hbar := reads_optional (reads_typeMark frame frames (.inr rfl) (by decide)) bar
      have hwhole := Reads.cons hequals (hbar.seq ((first.reads hscoped).seq
        (reads_constructors hscoped first others)))
      have hpieces : Reads ((TypeBody.variants bar first others).pieces scope) anyKind
          (InType .typeBody frame frames) ((others.getLastD first).Behind frame frames) := by
        simpa only [TypeBody.pieces, List.append_assoc, List.cons_append] using hwhole
      exact hpieces.weaken fun _ hm => hm.typeBody bar
  | record first others semicolon =>
      have hfields := (first.reads hscoped).seq (reads_fields hscoped others)
      have hclose : Reads (Piece.optional semicolon .semicolon ++ [.fixed .braceClose]) anyKind
          (InField frame frames) ((TypeBody.record first others semicolon).Behind frame frames) := by
        cases semicolon with
        | true =>
            exact (Reads.cons (reads_fieldEnd frame frames)
              (reads_braceCloseEmpty frames hframe)).weaken fun _ hm => ⟨.left hm.1, hm.2⟩
        | false =>
            exact (reads_braceClose frames).weaken fun _ hm => ⟨hm, hm.inType.chained⟩
      have hwhole := Reads.cons hequals (Reads.cons (reads_braceOpen frame frames)
        (hfields.seq hclose))
      simpa [TypeBody.pieces] using hwhole

/-- The name of a type that has a right-hand side. -/
theorem reads_typeName (hscoped : Scoped frames scope) (name : LowerName) :
    Reads [name.declares .typeDef scope] (· = .equals)
      (fun view => Begun .typeName frames view ∧ view.chained = .typeName)
      (InType .typeBody (.declared .typeScope scope name.text) frames) := by
  refine Reads.name (fun m => { m.pushBoundary .typeScope name.text with
    closing := true, mode := .typeBody }) hscoped (fun _ hm => hm.1.toAt) ?_ ?_
  · intro m token following hmode hkind htext hnext
    simp [Machine.dispatch, hmode, Machine.atTypeName, hkind, hnext, htext]
  · intro m hm hrefused
    obtain ⟨hbegun, hchained⟩ := hm
    have hpushed := hbegun.toAt.pushNamed hscoped name.stands.ne_empty hrefused
    have hkept := congrArg View.chained (Machine.view_push hrefused)
    exact ⟨⟨⟨rfl, hpushed.frames, hpushed.staged⟩, rfl, hkept.trans hchained⟩,
      m.found_push _ _ _ _⟩

/-- **The definition of a type**, behind which comes no `=`. -/
theorem TypeDef.reads_behind (hscoped : Scoped frames scope) (type : TypeDef) :
    Reads (type.pieces scope) (· ≠ .equals)
      (fun view => Begun .typeName frames view ∧ view.chained = .typeName)
      (type.body.Behind (type.frame scope) frames) := by
  by_cases hbody : type.body = .abstract
  · unfold TypeDef.pieces
    rw [hbody]
    refine Reads.name (·.goto .topLevel) hscoped (fun _ hm => hm.1.toAt) ?_ ?_
    · intro m token following hmode hkind _ hnext
      simp [Machine.dispatch, hmode, Machine.atTypeName, hkind, hnext]
    · intro m hm _
      obtain ⟨hbegun, hchained⟩ := hm
      exact ⟨⟨.left (hbegun.goto .topLevel), hchained⟩, rfl⟩
  · have hinner : Scoped (type.frame scope :: frames)
        (Scope.inside scope .typeDef type.name.text) :=
      .declared rfl scope frames type.name.stands.ne_empty
    have hrest := TypeBody.reads (type.endless_frame scope) hinner hbody
    refine (reads_typeName hscoped type.name).append (hrest.narrow fun _ _ => trivial) ?_
    intro kind hkind
    cases htype : type.body with
    | abstract => exact absurd htype hbody
    | synonym _ | variants _ _ _ | record _ _ _ =>
        rw [htype] at hkind
        exact hkind

/-- Behind the definition of a type the machine is settled. -/
theorem TypeDef.reads (hscoped : Scoped frames scope) (type : TypeDef) :
    Reads (type.pieces scope) (· ≠ .equals)
      (fun view => Begun .typeName frames view ∧ view.chained = .typeName) (AfterType frames) :=
  (type.reads_behind hscoped).weaken fun _ hm => hm.afterType (type.endless_frame scope)

end Definitions

end CamlIndex
