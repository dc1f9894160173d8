import CamlIndex.Proofs.Language.Leftovers

/-!
# Reading expressions

An expression begins where the machine is about to start one, ends inside of
one, and leaves only marks behind.  A body may leave frames of matches behind,
too.  The words come first, each with the frames it pushes and takes off, and
then the trees by induction.

* `Expr.reads`, `Body.reads`, `Cases.reads` — expressions, bodies and cases are
  read over the frames they began with.
-/

namespace CamlIndex

/-! ## Single words -/

/-- A silent word that is read by one rule. -/
theorem Reads.rule {word : Word} {next : TokenKind → Prop} {before after : View → Prop}
    (rule : Machine → Machine)
    (hrule : ∀ (m : Machine) (token following : Token), before m.view → token.kind = word.kind →
      next following.kind → m.dispatch token following = rule m)
    (hafter : ∀ m : Machine, before m.view → (rule m).stack.refused = 0 →
      after (rule m).view ∧ (rule m).found = m.found) :
    Reads [.silent word] next before after := by
  apply Reads.silent
  intro m token following hspells hnext hm hrefused
  rw [hrule m token following hm hspells.1 hnext] at hrefused ⊢
  exact hafter m hm hrefused

/-- A word that a condition does not notice. -/
theorem Reads.stay {word : Word} {condition : View → Prop}
    (h : ∀ (m : Machine) (token following : Token), condition m.view → token.kind = word.kind →
      m.dispatch token following = m) :
    Reads [.silent word] anyKind condition condition := by
  apply Reads.rule id
  · intro m token following hm hkind _
    exact h m token following hm hkind
  · intro m hm _
    exact ⟨hm, rfl⟩

/-- Words none of which a condition notices. -/
theorem Reads.words {words : List Word} {condition : View → Prop}
    (h : ∀ word ∈ words, Reads [.silent word] anyKind condition condition) :
    Reads (words.map .silent) anyKind condition condition := by
  induction words with
  | nil => exact Reads.nil _ _
  | cons word words ih =>
      obtain ⟨hword, hwords⟩ := List.forall_mem_cons.mp h
      exact Reads.cons hword (ih hwords)

/-- A silent word that a rule for expressions reads where one may start. -/
theorem Reads.start {word : Word} {frames : List Frame} {after : View → Prop}
    (hword : word.kind ∉ [.kwLet, .kwValue, .kwVal, .kwObject, .kwFor, .kwWhile, .kwTry,
      .kwFunction, .kwFun, .kwAnd])
    (rule : Machine → Machine)
    (hrule : ∀ (m : Machine) (token following : Token), token.kind = word.kind →
      m.atExpression token following = rule m)
    (hafter : ∀ m : Machine, At .expression frames m.view → (rule m).stack.refused = 0 →
      after (rule m).view ∧ (rule m).found = m.found) :
    Reads [.silent word] anyKind (AtStart frames) after := by
  apply Reads.silent
  intro m token following hspells _ hm hrefused
  have hkind : token.kind = word.kind := hspells.1
  rcases hm with hm | hm
  · have hdispatch : m.dispatch token following = rule (m.goto .expression) := by
      rw [← hrule _ token following hkind]
      unfold Machine.dispatch
      rw [hm.mode]
      dsimp only
      unfold Machine.atBodyStart
      split <;> simp_all
    rw [hdispatch] at hrefused ⊢
    exact hafter (m.goto .expression) (hm.goto .expression) hrefused
  · have hdispatch : m.dispatch token following = rule m := by
      rw [← hrule _ token following hkind]
      unfold Machine.dispatch
      rw [hm.mode]
    rw [hdispatch] at hrefused ⊢
    exact hafter m hm hrefused

/-- A word that a rule declares before anything else happens. -/
theorem Reads.declares {word : Word} {mark : Mark} {mode : Mode} {frames : List Frame}
    {next : TokenKind → Prop} {before after : View → Prop} (rule : Machine → Machine)
    (hscoped : Scoped frames mark.scope) (hbefore : ∀ view, before view → At mode frames view)
    (hrule : ∀ (m : Machine) (token following : Token), m.mode = mode → token.kind = word.kind →
      token.text = word.text → next following.kind → m.dispatch token following =
        rule (m.note (.declared (m.declaration mark.name token mark.kind) mark.isLocal)))
    (hafter : ∀ m : Machine, before m.view → (rule m).stack.refused = 0 →
      after (rule m).view ∧ (rule m).found = m.found) :
    Reads [⟨word, some mark⟩] next before after := by
  apply Reads.piece
  intro m token following hspells hnext hm hrefused
  have hat := hbefore _ hm
  rw [hrule m token following hat.mode hspells.1 hspells.2 hnext] at hrefused ⊢
  obtain ⟨hreached, hfound⟩ := hafter (m.note _) hm hrefused
  refine ⟨hreached, ?_⟩
  have hscope : m.stack.scope? = mark.scope := by
    rw [← hat.frames] at hscoped
    exact hscoped.scope?
  rw [hfound, Machine.found, Machine.found, Machine.findings_note]
  simp [Machine.note, hat.staged, Note.finding?, Piece.findings, Mark.finding,
    Machine.declaration, hscope]

/-- A name that a rule declares between declarations. -/
theorem Reads.name {kind : TokenKind} {lexeme : Lexeme kind} {sort : Kind}
    {scope : Option Scope} {mode : Mode} {frames : List Frame} {next : TokenKind → Prop}
    {before after : View → Prop} (rule : Machine → Machine)
    (hscoped : Scoped frames scope) (hbefore : ∀ view, before view → At mode frames view)
    (hrule : ∀ (m : Machine) (token following : Token), m.mode = mode → token.kind = kind →
      token.text = lexeme.text → next following.kind → m.dispatch token following =
        rule (m.declare token sort))
    (hafter : ∀ m : Machine, before m.view → (rule m).stack.refused = 0 →
      after (rule m).view ∧ (rule m).found = m.found) :
    Reads [lexeme.declares sort scope] next before after := by
  refine Reads.declares rule hscoped hbefore ?_ hafter
  intro m token following hmode hkind htext hnext
  rw [hrule m token following hmode hkind htext hnext, Machine.declare, htext]
  rfl

/-- A word that only changes the mode. -/
theorem Reads.goes {word : Word} {next : TokenKind → Prop} {mode other : Mode}
    (frames : List Frame)
    (hrule : ∀ (m : Machine) (token following : Token), m.mode = mode → token.kind = word.kind →
      next following.kind → m.dispatch token following = m.goto other) :
    Reads [.silent word] next (At mode frames) (At other frames) := by
  apply Reads.rule (·.goto other)
  · intro m token following hm hkind hnext
    exact hrule m token following hm.mode hkind hnext
  · intro m hm _
    exact ⟨hm.goto other, rfl⟩

/-! ## Words of expressions -/

/-- Behind a word that may be the last of a declaration: the next one leaves it. -/
structure Closing (frames : List Frame) (view : View) : Prop extends
    At .expression frames view where
  closing : view.closing = true

/-- An identifier or a literal may end a declaration. -/
theorem reads_lastAtom {word : Word} (hword : word.kind = .ident ∨ word.kind = .literal)
    (frames : List Frame) :
    Reads [.silent word] anyKind (AtStart frames) (Closing frames) := by
  apply Reads.start (by rcases hword with h | h <;> simp [h]) fun m => { m with closing := true }
  · intro m token following hkind
    unfold Machine.atExpression
    rcases hword with h | h <;> simp [hkind, h, Machine.atTopLevel]
  · intro m hm _
    exact ⟨⟨⟨hm.mode, hm.frames, hm.staged⟩, rfl⟩, rfl⟩

theorem reads_atom {word : Word} (hword : word.kind = .ident ∨ word.kind = .literal)
    (frames : List Frame) :
    Reads [.silent word] anyKind (AtStart frames) (At .expression frames) :=
  (reads_lastAtom hword frames).weaken fun _ hm => hm.toAt

/-- A word that means nothing inside an expression. -/
theorem reads_ignored {word : Word} (hword : word.kind ∈ [.ident, .literal, .equals, .arrow])
    (frames : List Frame) :
    Reads [.silent word] anyKind (At .expression frames) (At .expression frames) := by
  apply Reads.rule fun m => { m with closing := true }
  · intro m token following hm hkind _
    simp only [List.mem_cons, List.not_mem_nil, or_false] at hword
    rcases hword with h | h | h | h <;>
      simp [Machine.dispatch, hm.mode, Machine.atExpression, hkind, h, Machine.atTopLevel]
  · intro m hm _
    exact ⟨⟨hm.mode, hm.frames, hm.staged⟩, rfl⟩

/-- A word that opens a part of an expression. -/
theorem reads_open {kind : TokenKind} (hkind : kind ∈ [.parenOpen, .bracketOpen, .kwIf, .kwMatch])
    (hfixed : kind.spelling ≠ "") (frames : List Frame) :
    Reads [.fixed kind hfixed] anyKind (AtStart frames)
      (At .bodyStart (.mark .expression :: frames)) := by
  simp only [List.mem_cons, List.not_mem_nil, or_false] at hkind
  refine Reads.start ?_ Machine.enterPart ?_ ?_
  · rcases hkind with rfl | rfl | rfl | rfl <;> simp
  · intro m token following hspelled
    unfold Machine.atExpression
    rw [hspelled]
    rcases hkind with rfl | rfl | rfl | rfl <;> rfl
  · intro m hm hrefused
    exact hm.enterPart hrefused

theorem reads_if (frames : List Frame) :
    Reads [.fixed .kwIf] anyKind (At .bodyStart frames)
      (At .bodyStart (.mark .expression :: frames)) :=
  (reads_open (by decide) _ frames).mono fun _ hm => .inl hm

theorem reads_match (frames : List Frame) :
    Reads [.fixed .kwMatch] anyKind (At .bodyStart frames)
      (At .bodyStart (.mark .expression :: frames)) :=
  (reads_open (by decide) _ frames).mono fun _ hm => .inl hm

/-- A closing bracket takes off a frame, whatever it is. -/
theorem reads_pop {kind : TokenKind} (hkind : kind ∈ [.parenClose, .bracketClose, .braceClose])
    (hfixed : kind.spelling ≠ "") (frame : Frame) (frames : List Frame) :
    Reads [.fixed kind hfixed] anyKind (At .expression (frame :: frames))
      (At frame.resume frames) := by
  simp only [List.mem_cons, List.not_mem_nil, or_false] at hkind
  apply Reads.rule Machine.pop
  · intro m token following hm hspelled _
    rcases hkind with rfl | rfl | rfl <;>
      simp [Machine.dispatch, hm.mode, Machine.atExpression, hspelled]
  · intro m hm _
    exact ⟨hm.pop, rfl⟩

/-- A bracket that closes a part of an expression. -/
theorem reads_close {kind : TokenKind} (hkind : kind = .parenClose ∨ kind = .bracketClose)
    (hfixed : kind.spelling ≠ "") (left : List Frame) (hleft : ∀ frame ∈ left, frame.IsMark)
    (frames : List Frame) :
    Reads [.fixed kind hfixed] anyKind (AtStart (left ++ .mark .expression :: frames))
      (Over Frame.IsMark .expression frames) := by
  refine Reads.start ?_ Machine.pop ?_ ?_
  · rcases hkind with rfl | rfl <;> simp
  · intro m token following hspelled
    unfold Machine.atExpression
    rw [hspelled]
    rcases hkind with rfl | rfl <;> rfl
  · intro m hm _
    exact ⟨Over.pop Frame.isMark_mark ⟨left, hleft, hm⟩, rfl⟩

/-- The boundary that a `begin` pushes. -/
def Frame.block : Frame :=
  ⟨true, .blockScope, .expression, ""⟩

theorem reads_begin (frames : List Frame) :
    Reads [.fixed .kwBegin] anyKind (AtStart frames) (At .bodyStart (.block :: frames)) := by
  refine Reads.start (by decide)
    (fun m => (m.push true .blockScope .expression "").goto .bodyStart) ?_ ?_
  · intro m token following hspelled
    unfold Machine.atExpression
    rw [hspelled]
    rfl
  · intro m hm hrefused
    exact ⟨(hm.push hrefused).goto .bodyStart, m.found_push _ _ _ _⟩

/-- An `end` closes the innermost boundary if that is not one of a binding, a
type or a match. -/
theorem Machine.closeEnd_of_role {m : Machine} {role : Role} (h : m.boundaryRole? = some role)
    (hrole : role = .blockScope ∨ role = .classScope ∨ role = .moduleScope) :
    m.closeEnd = (m.popBoundary, some role) := by
  rcases hrole with rfl | rfl | rfl <;> simp [closeEnd, h]

/-- A declaration inside an expression is one behind it. -/
theorem Machine.dispatch_declaration {m : Machine} {token following : Token}
    (hmode : m.mode = .expression)
    (hkind : token.kind ∈ [.kwType, .kwClass, .kwModule, .kwLet, .kwMethod, .kwException, .kwEnd]) :
    m.dispatch token following = { m with closing := true }.atTopLevel token following := by
  unfold dispatch
  rw [hmode]
  dsimp only
  unfold atExpression
  split <;> simp_all

/-- The `end` of a block leaves the frames of bodies inside it. -/
theorem reads_endBlock (frames : List Frame) :
    Reads [.fixed .kwEnd] anyKind (Over Frame.IsLoose .expression (.block :: frames))
      (At .expression frames) := by
  have hpopped : ∀ m : Machine, Over Frame.IsLoose .expression (.block :: frames) m.view →
      { m with closing := true }.boundaryRole? = some .blockScope ∧
        At .expression frames { m with closing := true }.popBoundary.view := by
    intro m hm
    obtain ⟨left, hleft, hat⟩ := hm
    have hclosing : Over Frame.IsLoose .expression (.block :: frames)
        { m with closing := true }.view := ⟨left, hleft, hat.mode, hat.frames, hat.staged⟩
    exact hclosing.popBoundary rfl
  apply Reads.rule fun m => { { m with closing := true }.popBoundary with closing := false }
  · intro m token following hm hkind _
    have hfollows : token.kind ∈ [.kwType, .kwClass, .kwModule, .kwLet, .kwMethod, .kwException,
        .kwEnd] := by simp [hkind]
    rw [Machine.dispatch_declaration hm.mode_eq hfollows]
    unfold Machine.atTopLevel
    rw [hkind]
    dsimp only [Word.kind_fixed]
    rw [Machine.readEnd, Machine.closeEnd_of_role (hpopped m hm).1 (.inl rfl)]
    rfl
  · intro m hm _
    obtain ⟨-, hat⟩ := hpopped m hm
    exact ⟨⟨hat.mode, hat.frames, hat.staged⟩, rfl⟩

/-- An operator. -/
theorem reads_operator (operator : Lexeme .operator) (frames : List Frame) :
    Reads [.silent operator.word] anyKind (At .expression frames) (At .bodyStart frames) := by
  apply Reads.goes frames
  intro m token following hmode hkind _
  simp [Machine.dispatch, hmode, Machine.atExpression, hkind]

/-- A semicolon, but not two of them. -/
theorem reads_semicolon (frames : List Frame) :
    Reads [.fixed .semicolon] (· ≠ .semicolon) (At .expression frames) (At .bodyStart frames) := by
  apply Reads.goes frames
  intro m token following hmode hkind hnext
  simp [Machine.dispatch, hmode, Machine.atExpression, hkind, hnext]

/-- A `then` or `else` gives up one mark and pushes another. -/
theorem reads_branch {kind : TokenKind} (hkind : kind = .kwThen ∨ kind = .kwElse)
    (hfixed : kind.spelling ≠ "") (frames : List Frame) :
    Reads [.fixed kind hfixed] anyKind
      (Over Frame.IsMark .expression (.mark .expression :: frames))
      (Over Frame.IsMark .bodyStart (.mark .expression :: frames)) := by
  apply Reads.rule (·.pop.enterPart)
  · intro m token following hm hspelled _
    have hmode : m.mode = .expression := hm.mode_eq
    rcases hkind with rfl | rfl <;>
      simp [Machine.dispatch, hmode, Machine.atExpression, hspelled]
  · intro m hm hrefused
    exact hm.exchange hrefused

/-- An `in` leaves a binding and all inside it. -/
theorem reads_in {frame : Frame} (hnamed : frame.name ≠ "") (frames : List Frame) :
    Reads [.fixed .kwIn] anyKind (Over Frame.IsLoose .expression (frame :: frames))
      (At .bodyStart (.mark .expression :: frames)) := by
  apply Reads.rule (·.popToNamed.enterPart)
  · intro m token following hm hkind _
    have hmode : m.mode = .expression := hm.mode_eq
    simp [Machine.dispatch, hmode, Machine.atExpression, hkind]
  · intro m hm hrefused
    exact (hm.popToNamed hnamed).enterPart hrefused

/-! ## Words of matches -/

/-- A `with` gives up the mark of the scrutinee for the frame of a match. -/
theorem reads_with (frames : List Frame) :
    Reads [.fixed .kwWith] anyKind (Over Frame.IsMark .expression (.mark .expression :: frames))
      (InMatch .pattern frames) := by
  apply Reads.rule (·.pop.enterMatch)
  · intro m token following hm hkind _
    have hmode : m.mode = .expression := hm.mode_eq
    simp [Machine.dispatch, hmode, Machine.atExpression, hkind]
  · intro m hm hrefused
    obtain ⟨left, hleft, hat⟩ := hm.pop Frame.isMark_mark
    exact hat.enterMatch (fun frame hframe => (hleft frame hframe).isLoose) hrefused

theorem reads_function (frames : List Frame) :
    Reads [.fixed .kwFunction] anyKind (At .bodyStart frames) (InMatch .pattern frames) := by
  apply Reads.rule Machine.enterMatch
  · intro m token following hm hkind _
    simp [Machine.dispatch, hm.mode, Machine.atBodyStart, hkind]
  · intro m hm hrefused
    have hat : At .bodyStart ([] ++ frames) m.view := hm
    exact hat.enterMatch (by simp) hrefused

/-- Most words mean nothing in a pattern. -/
theorem Machine.dispatch_pattern {m : Machine} {token following : Token} (hmode : m.mode = .pattern)
    (hkind : token.kind ∉ [.arrow, .kwIn, .kwValue, .kwAnd, .kwEnd]) :
    m.dispatch token following = m := by
  unfold Machine.dispatch
  rw [hmode]
  dsimp only
  unfold Machine.atPattern
  split <;> simp_all

/-- A word inside a pattern. -/
theorem reads_pattern {word : Word}
    (hword : word.kind ∉ [.arrow, .kwIn, .kwValue, .kwAnd, .kwEnd]) (frames : List Frame) :
    Reads [.silent word] anyKind (InMatch .pattern frames) (InMatch .pattern frames) :=
  Reads.stay fun _ _ _ hm hkind => Machine.dispatch_pattern hm.mode_eq (hkind ▸ hword)

/-- Behind an arrow of a match, over the mark of that arrow. -/
def Arrowed (mode : Mode) (frames : List Frame) (view : View) : Prop :=
  ∃ left, (∀ frame ∈ left, frame.IsLoose) ∧ (∃ frame ∈ left, frame.role = .matchScope) ∧
    At mode (.mark .pattern :: (left ++ frames)) view

theorem Arrowed.over {mode : Mode} {frames : List Frame} {view : View}
    (h : Arrowed mode frames view) : Over Frame.IsLoose mode frames view := by
  obtain ⟨left, hleft, -, hat⟩ := h
  exact ⟨.mark .pattern :: left,
    List.forall_mem_cons.mpr ⟨Frame.isLoose_mark .pattern, hleft⟩, hat⟩

theorem Arrowed.inMatch {mode : Mode} {frames : List Frame} {view : View}
    (h : Arrowed mode frames view) : InMatch mode frames view := by
  obtain ⟨left, hleft, ⟨frame, hframe, hrole⟩, hat⟩ := h
  exact ⟨.mark .pattern :: left,
    List.forall_mem_cons.mpr ⟨Frame.isLoose_mark .pattern, hleft⟩,
    ⟨frame, List.mem_cons_of_mem _ hframe, hrole⟩, hat⟩

theorem reads_arrowed (frames : List Frame) :
    Reads [.fixed .arrow] anyKind (InMatch .pattern frames) (Arrowed .bodyStart frames) := by
  apply Reads.rule fun m => (m.pushMark .pattern).goto .bodyStart
  · intro m token following hm hkind _
    have hmode : m.mode = .pattern := hm.mode_eq
    simp [Machine.dispatch, hmode, Machine.atPattern, hkind]
  · intro m hm hrefused
    obtain ⟨left, hleft, hmatch, hat⟩ := hm
    exact ⟨⟨left, hleft, hmatch, (hat.push hrefused).goto .bodyStart⟩, m.found_push _ _ _ _⟩

theorem reads_arrow (frames : List Frame) :
    Reads [.fixed .arrow] anyKind (InMatch .pattern frames) (InMatch .bodyStart frames) :=
  (reads_arrowed frames).weaken fun _ hm => hm.inMatch

/-- A bar behind a case begins the next one. -/
theorem reads_bar (frames : List Frame) :
    Reads [.fixed .pipe] anyKind (InMatch .expression frames) (InMatch .pattern frames) := by
  apply Reads.rule Machine.returnToMatch
  · intro m token following hm hkind _
    have hmode : m.mode = .expression := hm.mode_eq
    simp [Machine.dispatch, hmode, Machine.atExpression, hkind]
  · intro m hm _
    exact hm.returnToMatch

/-! ## Words of bindings -/

/-- A fixed word that may be missing. -/
theorem reads_optional {kind : TokenKind} {hfixed : kind.spelling ≠ ""} {condition : View → Prop}
    (h : Reads [.fixed kind hfixed] anyKind condition condition) (present : Bool) :
    Reads (Piece.optional present kind hfixed) anyKind condition condition := by
  unfold Piece.optional
  split
  · exact h
  · exact Reads.nil _ _

/-- The parameters of a binding. -/
theorem reads_params {frames : List Frame} {scope : Option Scope} (hscoped : Scoped frames scope)
    (params : List LowerName) :
    Reads (paramPieces scope params) anyKind (At .parameters frames) (At .parameters frames) := by
  induction params with
  | nil => exact Reads.nil _ _
  | cons param params ih =>
      refine Reads.cons (Reads.declares id hscoped (fun _ h => h) ?_ fun m hm _ => ⟨hm, rfl⟩) ih
      intro m token following hmode hkind htext _
      simp [Machine.dispatch, hmode, Machine.atParameters, hkind, Machine.declareLocal, htext]

/-- The `=` or `->` behind parameters. -/
theorem reads_bodyStart {kind : TokenKind} (hkind : kind = .equals ∨ kind = .arrow)
    (hfixed : kind.spelling ≠ "") (frames : List Frame) :
    Reads [.fixed kind hfixed] anyKind (At .parameters frames) (At .bodyStart frames) := by
  apply Reads.goes frames
  intro m token following hmode hspelled _
  rcases hkind with rfl | rfl <;>
    simp [Machine.dispatch, hmode, Machine.atParameters, hspelled]

/-- A `let` or `fun` where an expression starts. -/
theorem reads_let (frames : List Frame) :
    Reads [.fixed .kwLet] anyKind (At .bodyStart frames) (At .localLetName frames) := by
  apply Reads.goes frames
  intro m token following hmode hkind _
  simp [Machine.dispatch, hmode, Machine.atBodyStart, hkind]

theorem reads_fun (frames : List Frame) :
    Reads [.fixed .kwFun] anyKind (At .bodyStart frames) (At .parameters frames) := by
  apply Reads.goes frames
  intro m token following hmode hkind _
  simp [Machine.dispatch, hmode, Machine.atBodyStart, hkind]

namespace Header

variable (header : Header) {scope : Option Scope} {frames : List Frame}

/-- The role of the frame of a binding. -/
def role : Role :=
  if header.params.isEmpty then .valueScope else .functionScope

/-- What comes behind the name of a binding. -/
def Follows (kind : TokenKind) : Prop :=
  kind = if header.params.isEmpty then .equals else .ident

theorem bindingOf_eq {next : Token} (h : header.Follows next.kind) :
    Machine.bindingOf next = (header.kind, header.role) := by
  unfold Follows at h
  unfold Machine.bindingOf Machine.startsParameter Header.kind role
  split at h <;> simp_all

/-- A header is read from its name and from its parameters. -/
theorem reads_of_name {isLocal : Bool} {frame : Frame} {before : View → Prop}
    (hrec : Reads [.fixed .kwRec] anyKind before before)
    (hname : Reads [⟨header.name.word, some ⟨header.name.text, header.kind, isLocal, scope⟩⟩]
      header.Follows before (At .parameters (frame :: frames)))
    (hscoped : Scoped (frame :: frames) (header.inner scope)) :
    Reads (header.pieces isLocal scope) (· = .equals) before
      (At .parameters (frame :: frames)) := by
  refine (reads_optional hrec header.isRec).seq
    (Reads.append hname ((reads_params hscoped header.params).narrow fun _ _ => trivial) ?_)
  · intro kind hkind
    unfold Follows
    cases hparams : header.params with
    | nil => simpa [hparams, paramPieces, Leads] using hkind
    | cons param params =>
        rw [hparams] at hkind
        exact hkind

theorem scoped_opened (scope : Option Scope) (frames : List Frame) (boundary : Bool)
    (resume : Mode) :
    Scoped (.opened boundary header.role resume scope header.name.text :: frames)
      (header.inner scope) := by
  refine Scoped.opened scope frames header.name.stands.ne_empty ?_ boundary resume
  unfold role
  split <;> rfl

/-- The header of a local binding opens a frame that is not a boundary. -/
theorem reads_local (hscoped : Scoped frames scope) :
    Reads (header.pieces true scope) (· = .equals) (At .localLetName frames)
      (At .parameters
        (.opened false header.role .bodyStart scope header.name.text :: frames)) := by
  refine header.reads_of_name ?_ ?_ (header.scoped_opened scope frames false .bodyStart)
  · apply Reads.stay
    intro m token following hm hkind
    simp [Machine.dispatch, hm.mode, Machine.atLocalLetName, hkind]
  · refine Reads.declares
      (fun m => (m.pushSoft .bodyStart header.role header.name.text).goto .parameters)
      hscoped (fun _ h => h) ?_ ?_
    · intro m token following hmode hkind htext hnext
      simp [Machine.dispatch, hmode, Machine.atLocalLetName, hkind, header.bindingOf_eq hnext,
        Machine.declareLocal, htext]
    · intro m hm hrefused
      exact ⟨(hm.pushNamed hscoped header.name.stands.ne_empty hrefused).goto .parameters,
        m.found_push _ _ _ _⟩

end Header

/-! ## Expressions and bodies -/

section Leads

variable (scope : Option Scope) (rest : List Piece) {next : TokenKind → Prop} {kind : TokenKind}

/-- No expression begins with a semicolon. -/
theorem Atom.leads (atom : Atom) (h : Leads (atom.pieces scope ++ rest) next kind) :
    kind ≠ .semicolon := by
  have hkind : kind = .ident ∨ kind = .literal ∨ kind = .parenOpen ∨ kind = .bracketOpen ∨
      kind = .kwBegin := by
    cases atom with
    | ident _ => exact .inl h
    | literal _ => exact .inr (.inl h)
    | parens _ | unit => exact .inr (.inr (.inl h))
    | brackets _ => exact .inr (.inr (.inr (.inl h)))
    | block _ => exact .inr (.inr (.inr (.inr h)))
  rcases hkind with rfl | rfl | rfl | rfl | rfl <;> simp

theorem Atoms.leads (atoms : Atoms) (h : Leads (atoms.pieces scope ++ rest) next kind) :
    kind ≠ .semicolon := by
  cases atoms with
  | one atom => exact atom.leads scope rest h
  | more atom atoms =>
      rw [Atoms.pieces, List.append_assoc] at h
      exact atom.leads scope _ h

theorem Expr.leads (expr : Expr) (rest : List Piece)
    (h : Leads (expr.pieces scope ++ rest) next kind) : kind ≠ .semicolon := by
  cases expr with
  | apply atoms => exact atoms.leads scope rest h
  | binary left _ _ | sequence left _ =>
      rw [Expr.pieces, List.append_assoc] at h
      exact left.leads _ h
  | ifThen _ _ | ifThenElse _ _ _ | letIn _ _ _ | lambda _ _ _ =>
      rintro rfl
      exact absurd h (by simp [Expr.pieces, Leads, Piece.fixed, Piece.silent, Word.fixed])

end Leads

/-- Brackets around an expression. -/
theorem reads_brackets {frames : List Frame} {opening closing : TokenKind}
    (hopening : opening ∈ [.parenOpen, .bracketOpen, .kwIf, .kwMatch])
    (hclosing : closing = .parenClose ∨ closing = .bracketClose)
    {hfixed : opening.spelling ≠ ""} {hfixed' : closing.spelling ≠ ""} {inner : List Piece}
    (hinner : Reads inner anyKind (At .bodyStart (.mark .expression :: frames))
      (Over Frame.IsMark .expression (.mark .expression :: frames))) :
    Reads (.fixed opening hfixed :: inner ++ [.fixed closing hfixed']) anyKind (AtStart frames)
      (Over Frame.IsMark .expression frames) := by
  refine Reads.cons (reads_open hopening hfixed frames) (Reads.seq hinner ?_)
  exact Reads.each fun left hleft =>
    (reads_close hclosing hfixed' left hleft frames).mono fun _ hm => .inr hm

/-- A word between two parts of an expression. -/
theorem reads_between {piece : Piece} {next : TokenKind → Prop} {mode : Mode} {frames : List Frame}
    (h : ∀ frames, Reads [piece] next (At .expression frames) (At mode frames)) :
    Reads [piece] next (Over Frame.IsMark .expression frames) (Over Frame.IsMark mode frames) :=
  Reads.each fun left hleft => (h _).weaken fun _ hm => ⟨left, hleft, hm⟩

/-- A bar in front of the first case. -/
theorem reads_leadingBar (frames : List Frame) (bar : Bool) :
    Reads (Piece.optional bar .pipe) anyKind (InMatch .pattern frames)
      (InMatch .pattern frames) := by
  have hpipe : Reads [.fixed .pipe] anyKind (InMatch .pattern frames) (InMatch .pattern frames) :=
    reads_pattern (by decide) frames
  exact reads_optional hpipe bar

/-- A local binding up to its `in`. -/
theorem Header.reads_binding {frames : List Frame} {scope : Option Scope}
    (hscoped : Scoped frames scope) (header : Header) {bound : List Piece}
    (hbound : ∀ {frames}, Scoped frames (header.inner scope) →
      Reads bound anyKind (At .bodyStart frames) (Over Frame.IsLoose .expression frames)) :
    Reads (.fixed .kwLet :: header.pieces true scope ++ .fixed .equals :: bound ++ [.fixed .kwIn])
      anyKind (At .bodyStart frames) (At .bodyStart (.mark .expression :: frames)) := by
  have hinner := header.scoped_opened scope frames false .bodyStart
  have hnamed := Frame.opened_name_ne header.name.stands.ne_empty false header.role .bodyStart scope
  have hbody := Reads.cons (reads_bodyStart (.inl rfl) (by decide) _)
    ((hbound hinner).seq (reads_in hnamed frames))
  have hheader := (header.reads_local hscoped).append hbody fun _ h => h
  simpa using Reads.cons (reads_let frames) hheader

/-- The words of a pattern. -/
theorem reads_patternWords (frames : List Frame) (pattern : List PatternWord) :
    Reads (pattern.map (Piece.silent ·.word)) anyKind (InMatch .pattern frames)
      (InMatch .pattern frames) := by
  induction pattern with
  | nil => exact Reads.nil _ _
  | cons word pattern ih =>
      refine Reads.cons (reads_pattern ?_ frames) ih
      have hallowed := word.allowed
      simp only [List.mem_cons, List.not_mem_nil, or_false] at hallowed ⊢
      rcases hallowed with h | h | h | h | h <;> simp [h]

/-- What a body leaves behind in a case leaves the match in place. -/
theorem Reads.inMatch {pieces : List Piece} {scope : Option Scope}
    (h : ∀ {frames}, Scoped frames scope →
      Reads pieces anyKind (At .bodyStart frames) (Over Frame.IsLoose .expression frames))
    {frames : List Frame} (hscoped : Scoped frames scope) :
    Reads pieces anyKind (InMatch .bodyStart frames) (InMatch .expression frames) := by
  intro m tokens last hspell hnext hm hrefused
  obtain ⟨left, hleft, ⟨frame, hframe, hrole⟩, hat⟩ := hm
  obtain ⟨⟨upper, hupper, hreached⟩, hfound⟩ :=
    h (hscoped.over hleft) m tokens last hspell hnext hat hrefused
  rw [← List.append_assoc] at hreached
  exact ⟨⟨upper ++ left, List.forall_mem_append.mpr ⟨hupper, hleft⟩,
    ⟨frame, List.mem_append_right _ hframe, hrole⟩, hreached⟩, hfound⟩

-- The induction is on the trees.  Frames and scope vary: a part of a tree is read
-- over what the parts before it have left, and a binding is read in its own scope.
mutual

/-- An atom leaves only marks. -/
theorem Atom.reads {frames : List Frame} {scope : Option Scope} (hscoped : Scoped frames scope)
    (atom : Atom) :
    Reads (atom.pieces scope) anyKind (AtStart frames) (Over Frame.IsMark .expression frames) := by
  cases atom with
  | ident name => exact (reads_atom (.inl rfl) frames).weaken fun _ hm => hm.over
  | literal value => exact (reads_atom (.inr rfl) frames).weaken fun _ hm => hm.over
  | parens inner =>
      exact reads_brackets (by decide) (.inl rfl) (Expr.reads (.mark rfl hscoped) inner)
  | brackets inner =>
      exact reads_brackets (by decide) (.inr rfl) (Expr.reads (.mark rfl hscoped) inner)
  | unit =>
      refine Reads.cons (reads_open (by decide) _ frames) ?_
      exact (reads_close (.inl rfl) _ [] (by simp) frames).mono fun _ hm => .inl hm
  | block inner =>
      refine Reads.cons (reads_begin frames) (Reads.seq (Body.reads (.mark rfl hscoped) inner) ?_)
      exact (reads_endBlock frames).weaken fun _ hm => hm.over

theorem Atoms.reads {frames : List Frame} {scope : Option Scope} (hscoped : Scoped frames scope)
    (atoms : Atoms) :
    Reads (atoms.pieces scope) anyKind (AtStart frames) (Over Frame.IsMark .expression frames) := by
  cases atoms with
  | one atom => exact Atom.reads hscoped atom
  | more atom atoms =>
      refine Reads.seq (Atom.reads hscoped atom) (Reads.over (fun frames hscoped => ?_) hscoped)
      exact (Atoms.reads hscoped atoms).mono fun _ hm => .inr hm

/-- **An expression** leaves only marks. -/
theorem Expr.reads {frames : List Frame} {scope : Option Scope} (hscoped : Scoped frames scope)
    (expr : Expr) :
    Reads (expr.pieces scope) anyKind (At .bodyStart frames)
      (Over Frame.IsMark .expression frames) := by
  cases expr with
  | apply atoms => exact (Atoms.reads hscoped atoms).mono fun _ hm => .inl hm
  | binary left operator right =>
      have hright := Reads.over (fun _ hscoped => Expr.reads hscoped right) hscoped
      exact (Expr.reads hscoped left).seq
        (Reads.cons (reads_between (reads_operator operator)) hright)
  | sequence left right =>
      have hright := Reads.over (fun _ hscoped => Expr.reads hscoped right) hscoped
      refine (Expr.reads hscoped left).seq
        (Reads.append (reads_between reads_semicolon) hright fun kind hkind => ?_)
      exact right.leads scope [] (by simpa using hkind)
  | ifThen condition yes =>
      have hinner : Scoped (.mark .expression :: frames) scope := .mark rfl hscoped
      have hyes := Reads.over (fun _ hscoped => Expr.reads hscoped yes) hinner
      have hwhole := Reads.cons (reads_if frames) ((Expr.reads hinner condition).seq
        (Reads.cons (reads_branch (.inl rfl) (by decide) frames) hyes))
      exact hwhole.weaken fun _ hm => hm.absorb Frame.isMark_mark
  | ifThenElse condition yes no =>
      have hinner : Scoped (.mark .expression :: frames) scope := .mark rfl hscoped
      have hyes := Reads.over (fun _ hscoped => Expr.reads hscoped yes) hinner
      have hno := Reads.over (fun _ hscoped => Expr.reads hscoped no) hinner
      have hwhole := Reads.cons (reads_if frames) ((Expr.reads hinner condition).seq
        (Reads.cons (reads_branch (.inl rfl) (by decide) frames) (hyes.seq
          (Reads.cons (reads_branch (.inr rfl) (by decide) frames) hno))))
      simpa [Expr.pieces] using hwhole.weaken fun _ hm => hm.absorb Frame.isMark_mark
  | letIn header bound inner =>
      have hbinding := header.reads_binding hscoped fun hscoped => Body.reads hscoped bound
      have hwhole := hbinding.seq (Expr.reads (.mark rfl hscoped) inner)
      simpa [Expr.pieces] using hwhole.weaken fun _ hm => hm.absorb Frame.isMark_mark
  | lambda param params inner =>
      exact Reads.cons (reads_fun frames) ((reads_params hscoped (param :: params)).seq
        (Reads.cons (reads_bodyStart (.inr rfl) (by decide) frames) (Expr.reads hscoped inner)))

/-- **A body** leaves only loose frames. -/
theorem Body.reads {frames : List Frame} {scope : Option Scope} (hscoped : Scoped frames scope)
    (body : Body) :
    Reads (body.pieces scope) anyKind (At .bodyStart frames)
      (Over Frame.IsLoose .expression frames) := by
  cases body with
  | expr inner => exact (Expr.reads hscoped inner).weaken fun _ hm => hm.imp fun _ h => h.isLoose
  | matchWith scrutinee bar cases =>
      have hbar := reads_leadingBar frames bar
      have hinner : Scoped (.mark .expression :: frames) scope := .mark rfl hscoped
      have hwhole := Reads.cons (reads_match frames) ((Expr.reads hinner scrutinee).seq
        (Reads.cons (reads_with frames) (hbar.seq (Cases.reads hscoped cases))))
      simpa [Body.pieces] using hwhole.weaken fun _ hm => hm.over
  | function bar cases =>
      have hbar := reads_leadingBar frames bar
      have hwhole := Reads.cons (reads_function frames) (hbar.seq (Cases.reads hscoped cases))
      simpa [Body.pieces] using hwhole.weaken fun _ hm => hm.over
  | letIn header bound inner =>
      have hbinding := header.reads_binding hscoped fun hscoped => Body.reads hscoped bound
      have hwhole := hbinding.seq (Body.reads (.mark rfl hscoped) inner)
      simpa [Body.pieces] using hwhole.weaken fun _ hm => hm.absorb (Frame.isLoose_mark _)

/-- **Cases** leave the frame of their match, and loose frames. -/
theorem Cases.reads {frames : List Frame} {scope : Option Scope} (hscoped : Scoped frames scope)
    (cases : Cases) :
    Reads (cases.pieces scope) anyKind (InMatch .pattern frames) (InMatch .expression frames) := by
  cases cases with
  | one pattern body =>
      have hbody := Reads.inMatch (fun hscoped => Body.reads hscoped body) hscoped
      exact (reads_patternWords frames pattern).seq (Reads.cons (reads_arrow frames) hbody)
  | more pattern body cases =>
      have hbody := Reads.inMatch (fun hscoped => Body.reads hscoped body) hscoped
      have hwhole := (reads_patternWords frames pattern).seq (Reads.cons (reads_arrow frames)
        (hbody.seq (Reads.cons (reads_bar frames) (Cases.reads hscoped cases))))
      simpa [Cases.pieces] using hwhole

end

end CamlIndex
