import CamlIndex.Proofs.Language.Contents
import CamlIndex.Proofs.Language.Chains

/-!
# Types in the header of a binding

Among the parameters of a binding the machine does not know types: every name is
a parameter, and the first arrow ends the header as an `=` would.  What is left
of the header is then read as an expression, without a mark for the parentheses
that were open before the arrow.  The arrows of a header all stand in
parentheses, so one of these closes more than has been opened and takes off the
frame of the binding itself (`TypeExpr.readsHeader`).

* `ReadsHeader` — reading words of a header, up to an arrow and behind it;
* `TypedFunction.reads_header` — a header with an arrow leaves the binding;
* `extract_typedFunction` — the tags of a binding with types in its header, and
  when they are those of the binding without.
-/

namespace CamlIndex

/-! ## What is found in a header -/

/-- Whether an arrow is among the words. -/
def hasArrow (words : List Word) : Bool :=
  words.any (·.kind == .arrow)

/-- A word of a header: a name is taken for a parameter. -/
def Word.asParam (scope : Option Scope) (word : Word) : Piece :=
  ⟨word, if word.kind = .ident then some ⟨word.text, .variableDef, true, scope⟩ else none⟩

/-- The words of a header: the names in front of the first arrow are taken for parameters. -/
def takenPieces (scope : Option Scope) : List Word → List Piece
  | [] => []
  | word :: words =>
    if word.kind = .arrow then (word :: words).map .silent
    else word.asParam scope :: takenPieces scope words

/-- The names that are taken for parameters. -/
def takenNames (words : List Word) : List String :=
  ((words.takeWhile (·.kind != .arrow)).filter (·.kind == .ident)).map Word.text

/-- A binding with types in its header, and the bindings behind it. -/
structure TypedProgram where
  function : TypedFunction
  further : List LetItem

/-- A body of local bindings where the binding around it has been left: the first
of them is a declaration. -/
def declaredBody (value : Operand) : List NamedLiteral → List Piece
  | [] => [.silent value.word]
  | binding :: bindings =>
    .fixed .kwLet :: LiteralBinding.pieces ⟨binding.name, [], binding.value⟩ false false none
      ++ .fixed .kwIn :: (localBody value bindings).pieces none

namespace TypedFunction

/-- The body of the binding. -/
def body (function : TypedFunction) : Body :=
  localBody function.value function.bindings

/-- The binding up to its `=`, with the marks that the machine gives it. -/
def foundHeader (function : TypedFunction) : List Piece :=
  Piece.optional function.isRec .kwRec
    ++ ⟨function.name.word, some ⟨function.name.text, function.header.kind, false, none⟩⟩
    :: takenPieces (function.header.inner none) function.headerWords

/-- The body with the marks that the machine gives it. -/
def foundBody (function : TypedFunction) : List Piece :=
  if hasArrow function.headerWords then declaredBody function.value function.bindings
  else function.body.pieces (function.header.inner none)

/-- The binding with the marks that the machine gives it. -/
def found (function : TypedFunction) : List Piece :=
  .fixed .kwLet :: function.foundHeader
    ++ .fixed .equals :: function.foundBody

/-- Types make no difference: no arrow stands in front of local bindings, and if
local bindings are wanted, then just the parameters are taken for parameters. -/
def IsTransparent (function : TypedFunction) (localBindings : Bool) : Prop :=
  (hasArrow function.headerWords = true → function.bindings = []) ∧
    (localBindings = true →
      takenNames function.headerWords = function.params.map (·.name.text))

end TypedFunction

namespace TypedProgram

/-- The words of the binding with its types, and of those behind it. -/
def words (source : TypedProgram) : List Word :=
  .fixed .kwLet :: (Piece.optional source.function.isRec .kwRec).map Piece.word
    ++ source.function.name.word :: source.function.headerWords
    ++ .fixed .equals
      :: (source.function.body.pieces none ++ letPieces none source.further).map Piece.word

/-- The same without the types. -/
def erased (source : TypedProgram) : List Piece :=
  letPieces none (.binding source.function.header source.function.body :: source.further)

/-- The words with the marks that the machine gives them. -/
def found (source : TypedProgram) : List Piece :=
  source.function.found ++ letPieces none source.further

end TypedProgram

/-! ## Reading headers -/

/-- Nothing is on the stack. -/
def Bare (view : View) : Prop :=
  At .topLevel [] view

/-- Inside the body of a binding that is nowhere inside of another one, or behind it. -/
def Astray (frame : Frame) (view : View) : Prop :=
  At .expression [frame] view ∨ Bare view

/-- **Reading words of a header**: up to an arrow the machine waits for
parameters, and behind an arrow it meets the condition. -/
def ReadsHeader (frame : Frame) (scope : Option Scope) (words : List Word)
    (behind : View → Prop) : Prop :=
  Reads (takenPieces scope words) anyKind (At .parameters [frame])
    (if hasArrow words then behind else At .parameters [frame])

theorem hasArrow_append (front back : List Word) :
    hasArrow (front ++ back) = (hasArrow front || hasArrow back) :=
  List.any_append

/-- Behind an arrow nothing is taken for a parameter. -/
theorem takenPieces_append (scope : Option Scope) (front back : List Word) :
    takenPieces scope (front ++ back) = takenPieces scope front ++
      if hasArrow front then back.map .silent else takenPieces scope back := by
  induction front with
  | nil => rfl
  | cons word front ih =>
      by_cases harrow : word.kind = .arrow
      · simp [takenPieces, hasArrow, harrow]
      · have hrest : hasArrow (word :: front) = hasArrow front := by simp [hasArrow, harrow]
        simp only [List.cons_append, takenPieces, if_neg harrow, ih, hrest]

namespace ReadsHeader

variable {frame : Frame} {scope : Option Scope} {front back : List Word}
  {between after : View → Prop}

theorem nil : ReadsHeader frame scope [] after :=
  Reads.nil _ _

/-- Words of a header one after the other; those behind an arrow are silent. -/
theorem append (hfront : ReadsHeader frame scope front between)
    (hsilent : Reads (back.map .silent) anyKind between after)
    (hback : ReadsHeader frame scope back after) :
    ReadsHeader frame scope (front ++ back) after := by
  unfold ReadsHeader at hfront ⊢
  rw [takenPieces_append, hasArrow_append]
  split at hfront
  · next harrow =>
      rw [if_pos harrow, harrow, Bool.true_or, if_pos rfl]
      exact hfront.seq hsilent
  · next harrow =>
      rw [if_neg harrow, Bool.eq_false_iff.mpr harrow, Bool.false_or]
      exact hfront.seq hback

theorem weaken (h : ReadsHeader frame scope front between)
    (hafter : ∀ view, between view → after view) : ReadsHeader frame scope front after := by
  unfold ReadsHeader at h ⊢
  split at h
  · next harrow => exact h.weaken (by simpa [harrow] using hafter)
  · next harrow => simpa [harrow] using h

/-- A word that is not an arrow, in front of others. -/
theorem cons {word : Word} (hword : word.kind ∈ [.ident, .colon, .parenOpen, .parenClose])
    (hscoped : Scoped [frame] scope) (hback : ReadsHeader frame scope back after) :
    ReadsHeader frame scope (word :: back) after := by
  have harrow : word.kind ≠ .arrow := by
    intro h
    simp [h] at hword
  have hrest : hasArrow (word :: back) = hasArrow back := by simp [hasArrow, harrow]
  unfold ReadsHeader at hback ⊢
  rw [takenPieces, if_neg harrow, hrest]
  refine Reads.cons ?_ hback
  by_cases hident : word.kind = .ident
  · rw [Word.asParam, if_pos hident]
    refine Reads.declares id hscoped (fun _ h => h) ?_ fun m hm _ => ⟨hm, rfl⟩
    intro m token following hmode hkind htext _
    simp [Machine.dispatch, hmode, Machine.atParameters, hkind, hident, Machine.declareLocal, htext]
  · rw [Word.asParam, if_neg hident]
    apply Reads.stay
    intro m token following hm hkind
    simp only [List.mem_cons, List.not_mem_nil, or_false] at hword
    rcases hword with h | h | h | h
    · exact absurd h hident
    all_goals simp [Machine.dispatch, hm.mode, Machine.atParameters, hkind, h]

theorem word {word : Word} (hword : word.kind ∈ [.ident, .colon, .parenOpen, .parenClose])
    (hscoped : Scoped [frame] scope) : ReadsHeader frame scope [word] after :=
  .cons hword hscoped .nil

/-- The first arrow begins what is taken for the body. -/
theorem arrow : ReadsHeader frame scope [.fixed .arrow] (At .bodyStart [frame]) :=
  reads_bodyStart (.inr rfl) (by decide) [frame]

end ReadsHeader

/-- What is read from each of two conditions. -/
theorem Reads.either {pieces : List Piece} {next : TokenKind → Prop}
    {before before' after : View → Prop} (h : Reads pieces next before after)
    (h' : Reads pieces next before' after) :
    Reads pieces next (fun view => before view ∨ before' view) after := by
  intro m tokens last hspell hnext hm hrefused
  rcases hm with hm | hm
  · exact h m tokens last hspell hnext hm hrefused
  · exact h' m tokens last hspell hnext hm hrefused

section

variable {frame : Frame} {scope : Option Scope}

/-- With nothing on the stack the words of types mean nothing. -/
theorem reads_bare (words : List Word) (h : ∀ word ∈ words, word.kind ∈ quiet) :
    Reads (words.map .silent) anyKind Bare Bare :=
  Reads.words fun word hword => reads_quiet (h word hword) fun _ hm => .inl hm.mode_eq

/-- An arrow behind another one. -/
theorem reads_arrowAstray :
    Reads [.fixed .arrow] anyKind (Astray frame) (Astray frame) :=
  Reads.either ((reads_ignored (by decide) [frame]).weaken fun _ hm => .inl hm)
    ((reads_bare [.fixed .arrow] (by decide)).weaken fun _ hm => .inr hm)

/-- A closing parenthesis behind an arrow leaves the binding. -/
theorem reads_closeAstray (hresume : frame.resume = .topLevel) :
    Reads [.fixed .parenClose] anyKind (Astray frame) Bare := by
  have hinside := @reads_pop .parenClose (by decide) (by decide) frame []
  rw [hresume] at hinside
  exact hinside.either (reads_bare [.fixed .parenClose] (by decide))

/-- Words in parentheses: with an arrow among them, the binding is left behind them. -/
theorem ReadsHeader.parens (hscoped : Scoped [frame] scope) (hresume : frame.resume = .topLevel)
    {words : List Word} (h : ReadsHeader frame scope words (Astray frame)) :
    ReadsHeader frame scope (.fixed .parenOpen :: words ++ [.fixed .parenClose]) Bare :=
  have hclose : ReadsHeader frame scope [.fixed .parenClose] Bare := .word (by decide) hscoped
  .cons (by decide) hscoped (h.append (reads_closeAstray hresume) hclose)

end

namespace TypeExpr

theorem kind_mem_quiet (type : TypeExpr) : ∀ word ∈ type.words, word.kind ∈ quiet := by
  induction type with
  | named name => simp [words, quiet]
  | applied argument constructor ih =>
      exact List.forall_mem_append.mpr ⟨ih, by simp [quiet]⟩
  | arrow domain codomain ih ih' =>
      exact List.forall_mem_append.mpr ⟨ih, List.forall_mem_cons.mpr ⟨by decide, ih'⟩⟩
  | parens inner ih =>
      exact List.forall_mem_cons.mpr ⟨by decide, List.forall_mem_append.mpr ⟨ih, by decide⟩⟩

/-- A type that is read as an expression leaves nothing. -/
theorem reads_balanced (type : TypeExpr) (frames : List Frame) :
    Reads (type.words.map .silent) anyKind (AtStart frames) (At .expression frames) := by
  induction type generalizing frames with
  | named name => exact reads_atom (.inl rfl) frames
  | applied argument constructor ih =>
      rw [words, List.map_append]
      exact (ih frames).seq (reads_ignored (by simp) frames)
  | arrow domain codomain ih ih' =>
      have hcodomain := Reads.cons (reads_ignored (by decide : (Word.fixed .arrow).kind ∈ _) frames)
        ((ih' frames).mono fun _ hm => .inr hm)
      rw [words, List.map_append]
      exact (ih frames).seq hcodomain
  | parens inner ih =>
      have hopen := @reads_open .parenOpen (by decide) (by decide) frames
      have hinner := (ih (.mark .expression :: frames)).mono fun _ hm => .inl hm
      have hclose := @reads_pop .parenClose (by decide) (by decide) (.mark .expression) frames
      rw [words, List.cons_append, List.map_cons, List.map_append]
      exact Reads.cons hopen (hinner.seq hclose)

/-- Behind a type that holds an arrow. -/
def Behind (frame : Frame) (type : TypeExpr) (view : View) : Prop :=
  if type.isGuarded then Bare view else Astray frame view

variable {frame : Frame} {scope : Option Scope}

theorem Behind.astray {type : TypeExpr} {view : View} (h : type.Behind frame view) :
    Astray frame view := by
  unfold Behind at h
  split at h
  · exact .inr h
  · exact h

/-- A type behind an arrow. -/
theorem reads_astray (type : TypeExpr) :
    Reads (type.words.map .silent) anyKind (Astray frame) (Astray frame) :=
  Reads.either
    ((type.reads_balanced [frame]).mono (fun _ hm => .inr hm) |>.weaken fun _ hm => .inl hm)
    ((reads_bare type.words type.kind_mem_quiet).weaken fun _ hm => .inr hm)

/-- A type behind another one that holds an arrow. -/
theorem reads_behind (type other : TypeExpr) :
    Reads (other.words.map .silent) anyKind (type.Behind frame) (type.Behind frame) := by
  unfold Behind
  split
  · exact reads_bare other.words other.kind_mem_quiet
  · exact other.reads_astray

/-- **A type in a header**, which leaves the binding if it holds arrows and these
stand in parentheses. -/
theorem readsHeader (hscoped : Scoped [frame] scope) (hresume : frame.resume = .topLevel)
    (type : TypeExpr) : ReadsHeader frame scope type.words (type.Behind frame) := by
  induction type with
  | named name => exact .word (by simp) hscoped
  | applied argument constructor ih =>
      exact ih.append (argument.reads_behind (.named constructor)) (.word (by simp) hscoped)
  | arrow domain codomain ih ih' =>
      have hdomain := ih.weaken fun _ hm => hm.astray
      have hcodomain := ReadsHeader.arrow.append
        ((codomain.reads_balanced [frame]).mono (fun _ hm => .inl hm) |>.weaken fun _ hm => .inl hm)
        (ih'.weaken fun _ hm => hm.astray)
      exact hdomain.append (Reads.cons reads_arrowAstray codomain.reads_astray) hcodomain
  | parens inner ih => exact (ih.weaken fun _ hm => hm.astray).parens hscoped hresume

end TypeExpr

/-! ## Reading the binding -/

section

variable {frame : Frame} {scope : Option Scope}

theorem TypedParam.kind_mem_quiet (param : TypedParam) : ∀ word ∈ param.words, word.kind ∈ quiet := by
  unfold TypedParam.words
  split
  · simp [quiet]
  · next type _ =>
      have hname : param.name.word.kind ∈ quiet := by simp [quiet]
      exact List.forall_mem_append.mpr ⟨List.forall_mem_cons.mpr ⟨by decide,
        List.forall_mem_cons.mpr ⟨hname, List.forall_mem_cons.mpr ⟨by decide,
          type.kind_mem_quiet⟩⟩⟩, by decide⟩

theorem TypedParam.readsHeader (hscoped : Scoped [frame] scope) (hresume : frame.resume = .topLevel)
    (param : TypedParam) : ReadsHeader frame scope param.words Bare := by
  unfold TypedParam.words
  split
  · exact .word (by simp) hscoped
  · next type _ =>
      have htype := (type.readsHeader hscoped hresume).weaken fun _ hm => hm.astray
      exact (ReadsHeader.cons (by simp) hscoped (.cons (by decide) hscoped htype)).parens hscoped
        hresume

theorem readsHeader_params (hscoped : Scoped [frame] scope) (hresume : frame.resume = .topLevel)
    (params : List TypedParam) :
    ReadsHeader frame scope (params.flatMap TypedParam.words) Bare := by
  induction params with
  | nil => exact .nil
  | cons param params ih =>
      refine (param.readsHeader hscoped hresume).append (reads_bare _ fun word hword => ?_) ih
      obtain ⟨other, -, hmem⟩ := List.mem_flatMap.mp hword
      exact other.kind_mem_quiet word hmem

end

namespace TypedFunction

variable (function : TypedFunction)

/-- The frame of the binding. -/
def frame : Frame :=
  .declared function.header.role none function.name.text

theorem frame_scoped : Scoped [function.frame] (function.header.inner none) :=
  function.header.scoped_opened none [] true .topLevel

/-- The words behind the name: with an arrow among them, the binding is left. -/
theorem readsHeader :
    ReadsHeader function.frame (function.header.inner none) function.headerWords Bare := by
  have hscoped := function.frame_scoped
  unfold headerWords
  cases hresult : function.result with
  | none => simpa using readsHeader_params hscoped rfl function.params
  | some result =>
      have htype : ReadsHeader function.frame (function.header.inner none) result.type.words Bare :=
        (result.type.readsHeader hscoped rfl).weaken fun _ hm => by
          simpa [TypeExpr.Behind, result.guarded] using hm
      refine (readsHeader_params hscoped rfl function.params).append (reads_bare _ ?_)
        (.cons (by decide) hscoped htype)
      exact List.forall_mem_cons.mpr ⟨by decide, result.type.kind_mem_quiet⟩

/-- What may come behind the name. -/
def Follows (kind : TokenKind) : Prop :=
  kind ∈ (if function.params.isEmpty then [.colon, .equals] else [.ident, .parenOpen])

theorem bindingOf_eq {following : Token} (h : function.Follows following.kind) :
    Machine.bindingOf following = (function.header.kind, function.header.role) := by
  have hparams : function.header.params.isEmpty = function.params.isEmpty := List.isEmpty_map
  unfold Follows at h
  unfold Machine.bindingOf Machine.startsParameter Header.kind Header.role
  rw [hparams]
  split at h
  all_goals
    simp only [List.mem_cons, List.not_mem_nil, or_false] at h
    rcases h with h | h <;> simp_all

theorem leads_headerWords {scope : Option Scope} {kind : TokenKind}
    (h : Leads (takenPieces scope function.headerWords) (· = .equals) kind) :
    function.Follows kind := by
  unfold Follows
  unfold headerWords at h
  cases hparams : function.params with
  | nil =>
      cases hresult : function.result with
      | none =>
          have hequals : kind = .equals := by simpa [hparams, hresult, takenPieces, Leads] using h
          simp [hequals]
      | some result =>
          have hcolon : kind = .colon := by
            simpa [hparams, hresult, takenPieces, Leads, Word.asParam] using h
          simp [hcolon]
  | cons param params =>
      cases htype : param.type with
      | none =>
          have hident : kind = .ident := by
            simpa [hparams, TypedParam.words, htype, takenPieces, Leads, Word.asParam] using h
          simp [hident]
      | some type =>
          have hopen : kind = .parenOpen := by
            simpa [hparams, TypedParam.words, htype, takenPieces, Leads, Word.asParam] using h
          simp [hopen]

/-- **The header of the binding.**  With an arrow in it, the binding is left. -/
theorem reads_header :
    Reads function.foundHeader (· = .equals) (At .letName [])
      (if hasArrow function.headerWords then Bare else At .parameters [function.frame]) := by
  have hname := function.header.reads_name .outside fun _ h => function.bindingOf_eq h
  have hwords := Reads.narrow function.readsHeader fun kind (_ : kind = .equals) => trivial
  exact (reads_optional (reads_rec []) function.isRec).seq
    (Reads.append hname hwords fun _ h => function.leads_headerWords h)

end TypedFunction

/-! ## Reading the body -/

/-- Nothing is on the stack, or the marks of a body. -/
def Unbound (view : View) : Prop :=
  Bare view ∨ Over Frame.IsLoose .expression [] view

/-- What waits to be left goes together with the marks around it. -/
theorem Machine.closePrevious_soft {m : Machine}
    (hsoft : ∀ frame ∈ m.stack.frames, frame.boundary = false)
    (hclosing : m.closing = true ∨ m.stack.frames = []) :
    ∃ stack mode, m.closePrevious = { m with stack, mode, closing := false } ∧
      stack.frames = [] := by
  have hdrop : m.stack.frames.dropWhile (! ·.boundary) = [] := by
    rw [List.dropWhile_eq_nil_iff]
    intro frame hframe
    simp [hsoft frame hframe]
  cases hflag : m.closing with
  | true =>
      refine ⟨{ m.stack with frames := [] }, .topLevel, ?_, rfl⟩
      simp [closePrevious, hflag, popBoundary, ScopeStack.popBoundary, hdrop]
  | false =>
      refine ⟨m.stack, m.mode, ?_, hclosing.resolve_left (by simp [hflag])⟩
      rw [closePrevious, if_neg (by simp [hflag]), ← hflag]

/-- A `let` leaves the marks and begins a declaration. -/
theorem reads_letUnbound : Reads [.fixed .kwLet] anyKind Unbound (Begun .letName []) := by
  have hopening : ∀ m : Machine, (∀ frame ∈ m.stack.frames, frame.boundary = false) →
      m.closing = true ∨ m.stack.frames = [] → m.staged = none →
      Begun .letName [] (m.opening .letName).view ∧ (m.opening .letName).found = m.found := by
    intro m hsoft hclosing hstaged
    obtain ⟨stack, mode, hclosed, hframes⟩ := Machine.closePrevious_soft hsoft hclosing
    rw [Machine.opening, hclosed]
    exact ⟨⟨⟨rfl, hframes, hstaged⟩, rfl⟩, rfl⟩
  apply Reads.silent
  intro m token following hspells _ hm _
  have hkind : token.kind = .kwLet := hspells.1
  rcases hm with hm | ⟨left, hleft, hat⟩
  · have hlet : m.dispatch token following = m.opening .letName := by
      simp [Machine.dispatch, hm.mode, Machine.atTopLevel, hkind]
    rw [hlet]
    exact hopening m (by simp [hm.frames]) (.inr hm.frames) hm.staged
  · have hlet : m.dispatch token following = { m with closing := true }.opening .letName := by
      rw [Machine.dispatch_declaration hat.mode (by simp [hkind])]
      simp [Machine.atTopLevel, hkind]
    rw [hlet]
    refine hopening { m with closing := true } (fun frame hframe => ?_) (.inl rfl) hat.staged
    have hframe : frame ∈ left ++ [] := by rwa [← hat.frames]
    exact (hleft frame (by simpa using hframe)).soft

/-- **A body whose binding has been left.** -/
theorem reads_declaredBody (value : Operand) (bindings : List NamedLiteral) :
    Reads (.fixed .equals :: declaredBody value bindings) anyKind Bare Unbound := by
  have hequals : Reads [.fixed .equals] anyKind Bare Bare :=
    reads_bare [.fixed .equals] (by decide)
  cases bindings with
  | nil =>
      have hvalue : Reads [.silent value.word] anyKind Bare Bare :=
        reads_bare [value.word] (by cases value <;> simp [Operand.word, quiet])
      exact (Reads.cons hequals hvalue).weaken fun _ hm => .inl hm
  | cons binding bindings =>
      let first : LiteralBinding := ⟨binding.name, [], binding.value⟩
      have hlet := reads_letUnbound.mono fun _ (hm : Bare _) => .inl hm
      have hfirst := (first.reads_boundary .outside false).mono
        fun _ (hm : Begun .letName [] _) => hm.toAt
      have hname := Frame.opened_name_ne binding.name.stands.ne_empty true
        (first.header false).role .topLevel none
      have hin := (reads_in hname []).mono fun _ (hm : Closing _ _) => hm.toAt.over
      have hmark : Scoped [.mark .expression] none := .mark rfl .outside
      have hrest : Reads ((localBody value bindings).pieces none) anyKind
          (At .bodyStart [.mark .expression]) Unbound :=
        (Body.reads hmark (localBody value bindings)).weaken
          fun _ hm => .inr (hm.absorb (Frame.isLoose_mark .expression))
      exact Reads.cons hequals (Reads.cons hlet (hfirst.seq (Reads.cons hin hrest)))

namespace TypedProgram

variable (source : TypedProgram)

/-- **The binding with its types**, and the bindings behind it. -/
theorem reads_found : Reads source.found anyKind (Settled []) fun _ => True := by
  have hkeyword := (reads_startLet []).weaken fun _ hm => hm.toAt
  have hheader := source.function.reads_header
  have hscoped := source.function.frame_scoped
  suffices hrest : Reads (.fixed .equals :: source.function.foundBody
      ++ letPieces none source.further) anyKind
      (if hasArrow source.function.headerWords then Bare else At .parameters [source.function.frame])
      fun _ => True by
    have hwhole := Reads.cons hkeyword (hheader.append hrest fun _ h => h)
    simpa [found, TypedFunction.found] using hwhole
  unfold TypedFunction.foundBody
  split
  · exact ((reads_declaredBody _ _).seq
      (reads_letPiecesFrom .outside reads_letUnbound source.further)).weaken fun _ _ => trivial
  · exact ((reads_definition source.function.header.endless hscoped source.function.body).seq
      (reads_letPieces .outside source.further)).weaken fun _ _ => trivial

end TypedProgram

/-! ## Words and contents -/

theorem words_takenPieces (scope : Option Scope) (words : List Word) :
    (takenPieces scope words).map Piece.word = words := by
  induction words with
  | nil => rfl
  | cons word words ih =>
      unfold takenPieces
      split
      · rw [List.map_map]
        exact List.map_id _
      · rw [List.map_cons, ih]
        rfl

theorem words_declaredBody (value : Operand) (bindings : List NamedLiteral)
    (scope : Option Scope) :
    (declaredBody value bindings).map Piece.word =
      ((localBody value bindings).pieces scope).map Piece.word := by
  cases bindings with
  | nil => cases value <;> rfl
  | cons binding bindings =>
      have hrest := words_eq_of_unscoped
        ((localBody value bindings).unscoped_pieces none scope)
      simp only [declaredBody, localBody, List.foldr_cons, Body.pieces, List.map_cons,
        List.map_append] at hrest ⊢
      rw [hrest]
      rfl

/-- The names that are taken for parameters are what a header says. -/
theorem contents_takenPieces (scope : Option Scope) (words : List Word) (localBindings : Bool) :
    (takenPieces scope words).filterMap (Piece.content? localBindings) =
      if localBindings then (takenNames words).map fun name => (name, .variableDef, scope)
      else [] := by
  induction words with
  | nil => cases localBindings <;> rfl
  | cons word words ih =>
      by_cases harrow : word.kind = .arrow
      · have hnames : takenNames (word :: words) = [] := by simp [takenNames, harrow]
        rw [takenPieces, if_pos harrow, hnames, contents_silent]
        cases localBindings <;> rfl
      · have hnames : takenNames (word :: words) =
            (if word.kind = .ident then [word.text] else []) ++ takenNames words := by
          by_cases hident : word.kind = .ident <;> simp [takenNames, harrow, hident]
        rw [takenPieces, if_neg harrow, List.filterMap_cons, ih, hnames]
        by_cases hident : word.kind = .ident <;> cases localBindings <;>
          simp [Word.asParam, Piece.content?, hident]

/-- What local bindings say. -/
theorem contents_localBody (scope : Option Scope) (value : Operand)
    (bindings : List NamedLiteral) (localBindings : Bool) :
    ((localBody value bindings).pieces scope).filterMap (Piece.content? localBindings) =
      if localBindings then bindings.map fun binding => (binding.name.text, .variableDef, scope)
      else [] := by
  induction bindings with
  | nil => cases value <;> cases localBindings <;> rfl
  | cons binding bindings ih =>
      have hcons : ((localBody value (binding :: bindings)).pieces scope).filterMap
          (Piece.content? localBindings) =
            (if localBindings then [(binding.name.text, .variableDef, scope)] else []) ++
              ((localBody value bindings).pieces scope).filterMap (Piece.content? localBindings) := by
        cases localBindings <;> rfl
      rw [hcons, ih]
      cases localBindings <;> rfl

namespace TypedFunction

/-- What a binding says is its name, what is taken for its parameters, and its body. -/
theorem contents_found (function : TypedFunction) (localBindings : Bool) :
    function.found.filterMap (Piece.content? localBindings) =
      (function.name.text, function.header.kind, none) ::
        ((takenPieces (function.header.inner none) function.headerWords).filterMap
            (Piece.content? localBindings)
          ++ function.foundBody.filterMap (Piece.content? localBindings)) := by
  simp [found, foundHeader, List.filterMap_cons]

theorem contents_erased (function : TypedFunction) (localBindings : Bool) :
    (Item.pieces none (.binding function.header function.body)).filterMap
        (Piece.content? localBindings) =
      (function.name.text, function.header.kind, none) ::
        ((paramPieces (function.header.inner none) function.header.params).filterMap
            (Piece.content? localBindings)
          ++ (function.body.pieces (function.header.inner none)).filterMap
            (Piece.content? localBindings)) := by
  simp [Item.pieces, Header.pieces, List.filterMap_cons, header]

/-- The header says the same as the one without types if and only if just the
parameters are taken for parameters. -/
theorem contents_params_iff (function : TypedFunction) (scope : Option Scope)
    (localBindings : Bool) :
    (takenPieces scope function.headerWords).filterMap (Piece.content? localBindings) =
        (paramPieces scope function.header.params).filterMap (Piece.content? localBindings) ↔
      (localBindings = true →
        takenNames function.headerWords = function.params.map (·.name.text)) := by
  have hparams : (function.header.params.map fun param => (param.text, Kind.variableDef, scope)) =
      (function.params.map (·.name.text)).map fun name => (name, Kind.variableDef, scope) := by
    simp [header]
  have hinjective : Function.Injective fun name : String => (name, Kind.variableDef, scope) :=
    fun _ _ h => congrArg Prod.fst h
  rw [contents_takenPieces, contents_params, hparams]
  cases localBindings with
  | false => simp
  | true =>
      simp only [if_true, forall_const]
      exact (List.map_injective_iff.mpr hinjective).eq_iff

/-- **A binding says the same as the one without types** if and only if these make
no difference. -/
theorem contents_iff (function : TypedFunction) (localBindings : Bool) :
    function.found.filterMap (Piece.content? localBindings) =
        (Item.pieces none (.binding function.header function.body)).filterMap
          (Piece.content? localBindings) ↔
      function.IsTransparent localBindings := by
  have hparams := function.contents_params_iff (function.header.inner none) localBindings
  rw [contents_found, contents_erased, IsTransparent, ← hparams, foundBody, body]
  simp only [List.cons.injEq, true_and]
  split
  · next harrow =>
      cases hbindings : function.bindings with
      | nil => simp [declaredBody, contents_localBody, List.filterMap_cons]
      | cons binding bindings =>
          -- the first local binding is found outside, and nothing else but the name is
          have hmem : (binding.name.text, Kind.variableDef, none) ∈
              (declaredBody function.value (binding :: bindings)).filterMap
                (Piece.content? localBindings) := by
            simp [declaredBody, LiteralBinding.pieces, LiteralBinding.header, Header.pieces,
              Header.kind, paramPieces, List.filterMap_cons]
          have hall : ∀ content ∈
              (paramPieces (function.header.inner none) function.header.params).filterMap
                  (Piece.content? localBindings)
                ++ ((localBody function.value (binding :: bindings)).pieces
                  (function.header.inner none)).filterMap (Piece.content? localBindings),
              content.2.2 = function.header.inner none := by
            rw [contents_params, contents_localBody]
            cases localBindings with
            | false => simp
            | true =>
                simp only [if_true, List.forall_mem_append, List.forall_mem_map, implies_true,
                  and_self]
          refine ⟨fun h => ?_, fun h => absurd (h.1 harrow) (List.cons_ne_nil _ _)⟩
          have hscope := hall _ (h ▸ List.mem_append_right _ hmem)
          cases hscope
  · next harrow => simp [harrow]

end TypedFunction

namespace TypedProgram

variable (source : TypedProgram)

theorem words_found : source.found.map Piece.word = source.words := by
  have hbody : source.function.foundBody.map Piece.word =
      (source.function.body.pieces none).map Piece.word := by
    unfold TypedFunction.foundBody
    split
    · exact words_declaredBody _ _ none
    · exact words_eq_of_unscoped (source.function.body.unscoped_pieces _ none)
  simp only [found, TypedFunction.found, words, TypedFunction.foundHeader, List.map_cons,
    List.map_append, words_takenPieces, hbody, List.cons_append, List.append_assoc]
  rfl

/-- The readings say the same if and only if types make no difference. -/
theorem contents_found_iff (localBindings : Bool) :
    source.found.filterMap (Piece.content? localBindings) =
        source.erased.filterMap (Piece.content? localBindings) ↔
      source.function.IsTransparent localBindings := by
  have herased : source.erased =
      Item.pieces none (.binding source.function.header source.function.body)
        ++ letPieces none source.further := rfl
  rw [found, herased, List.filterMap_append, List.filterMap_append, List.append_cancel_right_eq]
  exact source.function.contents_iff localBindings

end TypedProgram

/-- **Types in the header of a binding.**  Where the tokens of a text are the words
of a binding whose parameters and result may have types, and of bindings behind
it, the tags are those that are found when every name up to the first arrow is a
parameter and the body behind an arrow stands outside, unless a frame did not
fit; a frame of room for each word is enough.  They say the same as those of the
text without types if and only if no arrow stands in front of local bindings and,
where local bindings are wanted, just the parameters are taken for parameters. -/
theorem extract_typedFunction (source : TypedProgram) (localBindings : Bool) (maxDepth : Nat)
    {text : String} (hspell : Spell (tokenize text) (source.words.map .silent)) :
    (source.words.length ≤ maxDepth →
        (extract { localBindings, maxDepth } text).diagnostics = []) ∧
      ((extract { localBindings, maxDepth } text).diagnostics = [] →
        (extract { localBindings, maxDepth } text).tags =
            markedTags source.found localBindings text ((tokenize text).map Token.start) ∧
          ∀ plain : String, Spell (tokenize plain) source.erased →
            (extract { localBindings, maxDepth } plain).diagnostics = [] →
            ((extract { localBindings, maxDepth } text).tags.map Tag.content =
                (extract { localBindings, maxDepth } plain).tags.map Tag.content ↔
              source.function.IsTransparent localBindings)) := by
  have hwords : source.found.map Piece.word = (source.words.map Piece.silent).map Piece.word := by
    rw [source.words_found, List.map_map]
    exact (List.map_id _).symm
  have hfound : Spell (tokenize text) source.found := hspell.of_words hwords
  have hreads := source.reads_found.narrow fun kind (_ : Apart kind) => trivial
  refine ⟨fun hroom => ?_, fun hfits => ⟨?_, ?_⟩⟩
  · exact diagnostics_of_spell hspell localBindings (by rwa [List.length_map])
  · exact tags_of_reads hreads hfound localBindings hfits
  · intro plain hplain hplainFits
    have herased : Reads source.erased Apart (Settled []) (Settled []) :=
      (reads_letPieces .outside _).narrow fun _ _ => trivial
    rw [contents_of_reads hreads hfound localBindings hfits,
      contents_of_reads herased hplain localBindings hplainFits]
    exact source.contents_found_iff localBindings

/-- A function whose parameter has a type with an arrow, and a binding behind it. -/
theorem extract_typedFunction_arrow :
    let lower (name : Char) (hname : startsWord name = true)
        (hkind : wordKind (String.ofList [name]) = .ident)
        (hlower : startsUpper (String.ofList [name]) = false) : LowerName :=
      ⟨⟨String.ofList [name], stands_word hname (by simp) hkind⟩, hlower⟩
    let one : Lexeme .literal := ⟨String.ofList ['1'], stands_number rfl (by simp)⟩
    let y := lower 'y' rfl rfl rfl
    let type : TypeExpr := .arrow (.named (lower 'a' rfl rfl rfl)) (.named (lower 'b' rfl rfl rfl))
    let function : TypedFunction := ⟨false, lower 'f' rfl rfl rfl,
      [⟨lower 'x' rfl rfl rfl, some type⟩], none, [⟨y, one⟩], .ident y.toLexeme⟩
    let source : TypedProgram := ⟨function,
      [.binding ⟨false, lower 'g' rfl rfl rfl, []⟩ (.expr (.apply (.one (.literal one))))]⟩
    let text := String.ofList (spaced ((source.words.map Piece.silent).map Piece.word))
    Spell (tokenize text) (source.words.map .silent) ∧
      (extract { localBindings := true, maxDepth := 256 } text).tags.map Tag.content =
        [("f", .functionDef, none), ("x", .variableDef, some ⟨.functionDef, "f"⟩),
          ("a", .variableDef, some ⟨.functionDef, "f"⟩), ("y", .variableDef, none),
          ("g", .variableDef, none)] := by
  intro lower one y type function source text
  have hspell : Spell (tokenize text) (source.words.map .silent) := spell_spaced _
  obtain ⟨hroom, htags⟩ := extract_typedFunction source true 256 hspell
  obtain ⟨htags, -⟩ := htags (hroom (by decide))
  have hlength : source.found.length = (tokenize text).length := by
    rw [hspell.length_eq, List.length_map, ← source.words_found, List.length_map]
  refine ⟨hspell, ?_⟩
  rw [htags, content_markedTags (by rw [List.length_map, hlength])]
  decide

/-- The arrow in the type of `x` makes a declaration of the local binding `y`. -/
theorem typeArrow_leaves_binding :
    (extract {} "let f (x : a -> b) = let y = 1 in y let g = 2").tags.map Tag.content =
        [("f", .functionDef, none), ("y", .variableDef, none), ("g", .variableDef, none)] ∧
      (extract {} "let f x = let y = 1 in y let g = 2").tags.map Tag.content =
        [("f", .functionDef, none), ("g", .variableDef, none)] := by
  decide +kernel

end CamlIndex
