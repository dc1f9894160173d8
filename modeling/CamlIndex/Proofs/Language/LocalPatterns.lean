import CamlIndex.Proofs.Language.Nesting
import CamlIndex.Proofs.Language.Passing
import CamlIndex.Proofs.Spacing

/-!
# Patterns of local bindings

An `in` takes off the innermost named frame, for a local binding has pushed one
with its name.  But only a pattern that is a single word has a name to push.  At
`()` and at a record pattern the machine takes the binding for an expression,
and then the `in` takes off the frame of the function around it, and another
such binding that of the module.  The brace that closes a record pattern takes
off a frame of its own, and in the first binding that is the function's.

Frames with names are never pushed for good, so what is lost stays lost
(`Lost`), and it is enough to count them.

* `extract_localPatterns` — the frames of a function and of the modules around
  it are still there behind its body if and only if all patterns are single
  words, and then all is found where it stands.
-/

namespace CamlIndex

/-! ## Functions that bind patterns -/

/-- The frame of the function. -/
def BindingFunction.frame (function : BindingFunction) (scope : Option Scope) : Frame :=
  .declared .functionScope scope function.name.text

/-- A function inside of modules, with further bindings behind it. -/
structure FunctionInModules where
  levels : Nesting
  function : BindingFunction
  further : List LetItem

namespace FunctionInModules

/-- The words up to the end of the body of the function. -/
def upToBody (source : FunctionInModules) : List Piece :=
  source.levels.opening ++ source.function.pieces source.levels.scope

/-- All words, with the marks that they are meant to have. -/
def meant (source : FunctionInModules) : List Piece :=
  source.upToBody ++ letPieces source.levels.scope source.further
    ++ source.levels.closing source.levels

/-- The frames of the function and the modules are on the stack, with no other
named frame above them. -/
def Keeps (source : FunctionInModules) (frames : List Frame) : Prop :=
  ∃ left, (∀ frame ∈ left, frame.name = "") ∧
    frames = left ++ source.function.frame source.levels.scope :: source.levels.frames

end FunctionInModules

/-! ## Patterns that are single words -/

section

variable {frames : List Frame} {scope : Option Scope}

theorem reads_localWildcard (hscoped : Scoped frames scope) :
    Reads [⟨.wildcard, some ⟨"_", .variableDef, true, scope⟩⟩] (· = .equals)
      (At .localLetName frames)
      (At .parameters (.opened false .valueScope .bodyStart scope "_" :: frames)) := by
  refine Reads.declares (fun m => (m.pushSoft .bodyStart .valueScope "_").goto .parameters) hscoped
    (fun _ h => h) ?_ ?_
  · intro m token following hmode hspelled htext hnext
    have hkind : token.kind = .literal := hspelled
    have htext : token.text = "_" := htext
    have hwildcard : Machine.isWildcard token = true := by
      rw [Machine.isWildcard, Token.initial?, htext]
      rfl
    simp [Machine.dispatch, hmode, Machine.atLocalLetName, hkind, hwildcard, Machine.bindingOf,
      Machine.startsParameter, hnext, Machine.declareLocal, htext]
  · intro m hm hrefused
    exact ⟨(hm.pushNamed hscoped (by decide) hrefused).goto .parameters, m.found_push _ _ _ _⟩

/-- The value of a local binding up to its `in`, over the frame of the binding. -/
theorem reads_localValue {frame : Frame} (hnamed : frame.name ≠ "") (value : Lexeme .literal)
    (frames : List Frame) :
    Reads [.fixed .equals, .silent value.word, .fixed .kwIn] anyKind
      (At .parameters (frame :: frames)) (At .bodyStart (.mark .expression :: frames)) := by
  have hvalue : Reads [.silent value.word] anyKind (At .bodyStart (frame :: frames))
      (At .expression (frame :: frames)) := (reads_atom (.inr rfl) _).mono fun _ hm => .inl hm
  have hin := (reads_in hnamed frames).mono fun _ hm => At.over hm
  exact Reads.cons (reads_bodyStart (.inl rfl) (by decide) _) (Reads.cons hvalue hin)

/-- **A single word** leaves only a mark. -/
theorem LocalBinding.reads_word (hscoped : Scoped frames scope) (binding : LocalBinding)
    (hword : binding.pattern.isWord = true) :
    Reads (binding.pieces scope) anyKind (At .bodyStart frames)
      (At .bodyStart (.mark .expression :: frames)) := by
  obtain ⟨pattern, value⟩ := binding
  cases pattern with
  | named name =>
      let header : Header := ⟨false, name, []⟩
      have hnamed := Frame.opened_name_ne name.stands.ne_empty false header.role .bodyStart scope
      have hbinding := (header.reads_local hscoped).append (reads_localValue hnamed value frames)
        fun _ h => h
      exact (Reads.cons (reads_let frames) hbinding :)
  | wildcard =>
      have hnamed := Frame.opened_name_ne (by decide : "_" ≠ "") false .valueScope .bodyStart scope
      have hbinding := (reads_localWildcard hscoped).append (reads_localValue hnamed value frames)
        fun _ h => h
      exact (Reads.cons (reads_let frames) hbinding :)
  | unit => cases hword
  | record field => cases hword

/-- Single words leave only marks. -/
theorem reads_words (hscoped : Scoped frames scope) (bindings : List LocalBinding)
    (hwords : bindings.all (·.pattern.isWord) = true) :
    Reads (bindings.flatMap (LocalBinding.pieces scope)) anyKind
      (Over Frame.IsMark .bodyStart frames) (Over Frame.IsMark .bodyStart frames) := by
  induction bindings with
  | nil => exact Reads.nil _ _
  | cons binding bindings ih =>
      simp only [List.all_cons, Bool.and_eq_true] at hwords
      refine Reads.seq (Reads.each fun left hleft => ?_) (ih hwords.2)
      have hover := hscoped.over fun frame hframe => (hleft frame hframe).isLoose
      exact (binding.reads_word hover hwords.1).weaken fun _ hm =>
        ⟨.mark .expression :: left, List.forall_mem_cons.mpr ⟨Frame.isMark_mark, hleft⟩, hm⟩

end

/-! ## Patterns that push no frame -/

section

variable (frames : List Frame)

/-- A word that means nothing between declarations. -/
theorem reads_passed {word : Word}
    (hword : word.kind ∈ [.ident, .literal, .equals, .kwIn, .braceClose]) :
    Reads [.silent word] anyKind (At .topLevel frames) (At .topLevel frames) := by
  apply Reads.stay
  intro m token following hm hkind
  simp only [List.mem_cons, List.not_mem_nil, or_false] at hword
  rcases hword with h | h | h | h | h <;>
    simp [Machine.dispatch, hm.mode, Machine.atTopLevel, hkind, h]

/-- The `=` and the value behind a pattern that is taken for an expression. -/
theorem reads_ignoredValue (value : Lexeme .literal) :
    Reads [.fixed .equals, .silent value.word] anyKind (At .expression frames)
      (At .expression frames) :=
  Reads.cons (reads_ignored (by decide) frames) (reads_ignored (by simp) frames)

theorem reads_localUnit :
    Reads [.fixed .parenOpen, .fixed .parenClose] anyKind (At .localLetName frames)
      (At .expression frames) := by
  have hopen : Reads [.fixed .parenOpen] anyKind (At .localLetName frames)
      (At .localLetName frames) := by
    apply Reads.stay
    intro m token following hm hkind
    simp [Machine.dispatch, hm.mode, Machine.atLocalLetName, hkind]
  refine Reads.cons hopen (Reads.goes frames ?_)
  intro m token following hmode hkind _
  simp [Machine.dispatch, hmode, Machine.atLocalLetName, hkind]

/-- A record pattern up to its closing brace. -/
theorem reads_localRecord (field : LowerName) :
    Reads [.fixed .braceOpen, .silent field.word] anyKind (At .localLetName frames)
      (At .expression frames) := by
  refine Reads.cons (Reads.goes frames ?_) (reads_ignored (by simp) frames)
  intro m token following hmode hkind _
  simp [Machine.dispatch, hmode, Machine.atLocalLetName, hkind]

end

/-! ## What is lost stays lost -/

/-- At the start of an expression behind an `in`, or between declarations, with
at most `n` named frames. -/
def Lost (n : Nat) (view : View) : Prop :=
  Amid (FewMarked n) .bodyStart view ∨ Amid (FewNamed n) .topLevel view

section Lost

variable (n : Nat)

theorem passes_in :
    Passes [.fixed .kwIn] anyKind (Amid (FewNamed (n + 1)) .expression)
      (Amid (FewMarked n) .bodyStart) := by
  apply Passes.word
  intro m token following hkind _ hm hrefused
  have hmode : m.mode = .expression := hm.mode_eq
  have hdispatch : m.dispatch token following = m.popToNamed.enterPart := by
    have hkind : token.kind = .kwIn := hkind
    simp [Machine.dispatch, hmode, Machine.atExpression, hkind]
  rw [hdispatch] at hrefused ⊢
  obtain ⟨frames, hframes, hat⟩ := hm.popToNamed
  exact ⟨_, ⟨frames, rfl, hframes⟩, (hat.enterPart hrefused).1⟩

/-- A word that names a local binding. -/
theorem passes_localName {piece : Piece}
    (hpiece : piece.word.kind = .ident ∨ piece.word.kind = .literal) :
    Passes [piece] anyKind (Amid (FewNamed n) .localLetName)
      (Amid (FewNamed (n + 1)) .parameters) := by
  apply Passes.word
  intro m token following hkind _ hm hrefused
  have hmode : m.mode = .localLetName := hm.mode_eq
  obtain ⟨noted, role, hview, hdispatch⟩ : ∃ noted : Machine, ∃ role, noted.view = m.view ∧
      m.dispatch token following =
        (noted.pushSoft .bodyStart role token.text).goto .parameters := by
    unfold Machine.dispatch Machine.atLocalLetName
    rw [hmode, hkind]
    rcases hpiece with h | h
    · rw [h]
      exact ⟨m.declareLocal token (Machine.bindingOf following).1, _, rfl, rfl⟩
    · rw [h]
      refine ⟨if Machine.isWildcard token then m.declareLocal token (Machine.bindingOf following).1
        else m, _, ?_, rfl⟩
      split <;> rfl
  rw [hdispatch] at hrefused ⊢
  rw [← hview] at hm
  exact (hm.push hrefused).goto .parameters

/-- A word that names a binding between declarations. -/
theorem passes_letName {piece : Piece}
    (hpiece : piece.word.kind = .ident ∨ piece.word.kind = .literal) :
    Passes [piece] anyKind (Amid (FewNamed n) .letName) (Amid (FewNamed (n + 1)) .parameters) := by
  apply Passes.word
  intro m token following hkind _ hm hrefused
  have hmode : m.mode = .letName := hm.mode_eq
  obtain ⟨noted, role, hview, hdispatch⟩ : ∃ noted : Machine, ∃ role, noted.view = m.view ∧
      m.dispatch token following = noted.openBinding role token.text := by
    unfold Machine.dispatch Machine.atLetName
    rw [hmode, hkind]
    rcases hpiece with h | h
    · rw [h]
      exact ⟨m.declare token (Machine.bindingOf following).1, _, rfl, rfl⟩
    · rw [h]
      refine ⟨if Machine.isWildcard token then m.declare token .functionDef else m, _, ?_, rfl⟩
      split <;> rfl
  rw [hdispatch] at hrefused ⊢
  rw [← hview] at hm
  exact hm.openBinding hrefused

/-- A `()` that is declared between declarations. -/
theorem passes_letUnit :
    Passes [.fixed .parenOpen] (· = .parenClose) (Amid (FewNamed n) .letName)
      (Amid (FewNamed (n + 1)) .parameters) := by
  apply Passes.word
  intro m token following hkind hnext hm hrefused
  have hdispatch : m.dispatch token following =
      (m.declareAs "()" token .functionDef).openBinding .functionScope "()" := by
    have hkind : token.kind = .parenOpen := hkind
    simp [Machine.dispatch, hm.mode_eq, Machine.atLetName, hkind, hnext]
  rw [hdispatch] at hrefused ⊢
  exact Amid.openBinding (m := m.declareAs "()" token .functionDef) hm hrefused

/-- A `let` between declarations. -/
theorem passes_let :
    Passes [.fixed .kwLet] anyKind (Amid (FewNamed n) .topLevel) (Amid (FewNamed n) .letName) := by
  apply Passes.word
  intro m token following hkind _ hm _
  have hdispatch : m.dispatch token following = m.opening .letName := by
    have hkind : token.kind = .kwLet := hkind
    simp [Machine.dispatch, hm.mode_eq, Machine.atTopLevel, hkind]
  rw [hdispatch]
  obtain ⟨frames, hframes, hat⟩ := hm.closePrevious .letName
  exact ⟨frames, hframes, rfl, hat.frames, hat.staged⟩

/-- The value of a binding up to its `in`, where the binding has pushed a frame. -/
theorem passes_value (value : Lexeme .literal) :
    Passes [.fixed .equals, .silent value.word, .fixed .kwIn] anyKind
      (Amid (FewNamed (n + 1)) .parameters) (Amid (FewMarked n) .bodyStart) := by
  have hequals := Reads.amid (reads_bodyStart (.inl rfl) (by decide)) (FewNamed (n + 1))
  have hvalue : ∀ frames, Reads [.silent value.word] anyKind (At .bodyStart frames)
      (At .expression frames) :=
    fun frames => (reads_atom (.inr rfl) frames).mono fun _ hm => .inl hm
  exact hequals.seq ((Reads.amid hvalue (FewNamed (n + 1))).seq (passes_in n))

/-- The value of a binding up to its `in`, where the binding has pushed none. -/
theorem passes_ignoredValue (value : Lexeme .literal) :
    Passes [.fixed .equals, .silent value.word, .fixed .kwIn] anyKind
      (Amid (FewNamed n) .expression) (Amid (FewMarked n) .bodyStart) := by
  have hvalue := Reads.amid (reads_ignoredValue · value) (FewNamed n)
  have hin := (passes_in n).mono fun view (hm : Amid (FewNamed n) .expression view) =>
    hm.imp fun _ h => ⟨h.1.more, h.2⟩
  exact hvalue.seq hin

/-- **Inside an expression** a binding leaves no more names than it found. -/
theorem LocalBinding.passes_local (scope : Option Scope) (binding : LocalBinding) :
    Passes (binding.pieces scope) anyKind (Amid (FewMarked n) .bodyStart)
      (Amid (FewMarked n) .bodyStart) := by
  have hfew : ∀ mode view, Amid (FewMarked n) mode view → Amid (FewNamed n) mode view :=
    fun _ _ hm => hm.imp fun _ h => ⟨h.1.few, h.2⟩
  have hlet := Reads.amid reads_let (FewMarked n)
  obtain ⟨pattern, value⟩ := binding
  cases pattern with
  | named name =>
      have hname : Passes (LocalPattern.pieces scope (.named name)) anyKind
          (Amid (FewNamed n) .localLetName) (Amid (FewNamed (n + 1)) .parameters) :=
        passes_localName n (.inl rfl)
      exact hlet.seq ((hname.mono (hfew _)).seq (passes_value n value))
  | wildcard =>
      have hname : Passes (LocalPattern.pieces scope .wildcard) anyKind
          (Amid (FewNamed n) .localLetName) (Amid (FewNamed (n + 1)) .parameters) :=
        passes_localName n (.inr rfl)
      exact hlet.seq ((hname.mono (hfew _)).seq (passes_value n value))
  | unit =>
      have hunit := (Reads.amid reads_localUnit (FewMarked n)).weaken (hfew _)
      exact hlet.seq (hunit.seq (passes_ignoredValue n value))
  | record field =>
      have hrecord := Reads.amid (reads_localRecord · field) (FewMarked n)
      have hclose : Passes [.fixed .braceClose] anyKind (Amid (FewMarked n) .expression)
          (Amid (FewNamed n) .expression) := by
        intro m tokens last hspell hnext hm hrefused
        obtain ⟨_, ⟨outer, rfl, houter⟩, hat⟩ := hm
        exact ⟨outer, houter,
          (reads_pop (by decide) _ _ outer m tokens last hspell hnext hat hrefused).1⟩
      exact hlet.seq (hrecord.seq (hclose.seq (passes_ignoredValue n value)))

/-- **Between declarations** a binding leaves no more names than it found, or
goes by as a whole. -/
theorem LocalBinding.passes_declared (scope : Option Scope) (binding : LocalBinding) :
    Passes (binding.pieces scope) anyKind (Amid (FewNamed n) .topLevel) (Lost n) := by
  obtain ⟨pattern, value⟩ := binding
  cases pattern with
  | named name =>
      have hname : Passes (LocalPattern.pieces scope (.named name)) anyKind
          (Amid (FewNamed n) .letName) (Amid (FewNamed (n + 1)) .parameters) :=
        passes_letName n (.inl rfl)
      exact ((passes_let n).seq (hname.seq (passes_value n value))).weaken fun _ hm => .inl hm
  | wildcard =>
      have hname : Passes (LocalPattern.pieces scope .wildcard) anyKind
          (Amid (FewNamed n) .letName) (Amid (FewNamed (n + 1)) .parameters) :=
        passes_letName n (.inr rfl)
      exact ((passes_let n).seq (hname.seq (passes_value n value))).weaken fun _ hm => .inl hm
  | unit =>
      have hclose := (Reads.amid reads_parenClose (FewNamed (n + 1))).seq (passes_value n value)
      have hunit := (passes_letUnit n).append hclose fun _ h => h
      exact ((passes_let n).seq hunit).weaken fun _ hm => .inl hm
  | record field =>
      have hopen : ∀ frames, Reads [.fixed .braceOpen] anyKind (At .letName frames)
          (At .topLevel frames) := by
        intro frames
        apply Reads.goes frames
        intro m token following hmode hkind _
        simp [Machine.dispatch, hmode, Machine.atLetName, hkind]
      have hrest : ∀ frames, Reads [.silent field.word, .fixed .braceClose, .fixed .equals,
          .silent value.word, .fixed .kwIn] anyKind (At .topLevel frames) (At .topLevel frames) :=
        fun frames => Reads.cons (reads_passed frames (by simp)) (Reads.cons
          (reads_passed frames (by decide)) (Reads.cons (reads_passed frames (by decide))
            (Reads.cons (reads_passed frames (by simp)) (reads_passed frames (by decide)))))
      have hrecord := (Reads.amid hopen (FewNamed n)).seq (Reads.amid hrest (FewNamed n))
      exact ((passes_let n).seq hrecord).weaken fun _ hm => .inr hm

theorem passes_lost (scope : Option Scope) (bindings : List LocalBinding) :
    Passes (bindings.flatMap (LocalBinding.pieces scope)) anyKind (Lost n) (Lost n) := by
  induction bindings with
  | nil => exact (Reads.nil _ _).passes
  | cons binding bindings ih =>
      refine Passes.seq ?_ ih
      intro m tokens last hspell hnext hm hrefused
      rcases hm with hm | hm
      · exact .inl (binding.passes_local n scope m tokens last hspell hnext hm hrefused)
      · exact binding.passes_declared n scope m tokens last hspell hnext hm hrefused

end Lost

/-! ## The first pattern that is not a single word -/

section

variable {frame : Frame} {scope : Option Scope}

/-- **The frame of the function is lost** at a pattern that is not a single word. -/
theorem LocalBinding.reads_loss (hnamed : frame.name ≠ "") (hresume : frame.resume = .topLevel)
    {left : List Frame} (hleft : ∀ other ∈ left, other.IsMark) (frames : List Frame)
    (binding : LocalBinding) (hword : binding.pattern.isWord = false) :
    Reads (binding.pieces scope) anyKind (At .bodyStart (left ++ frame :: frames))
      (Lost (frames.countP Frame.isNamed)) := by
  have hin : ∀ left, (∀ other ∈ left, Frame.IsMark other) →
      Reads [.fixed .kwIn] anyKind (At .expression (left ++ frame :: frames))
        (Lost (frames.countP Frame.isNamed)) := by
    intro left hleft
    refine ((reads_in hnamed frames).mono fun _ hm =>
      ⟨left, fun other hother => (hleft other hother).isLoose, hm⟩).weaken fun _ hm => ?_
    exact .inl ⟨_, ⟨frames, rfl, Nat.le_refl _⟩, hm⟩
  obtain ⟨pattern, value⟩ := binding
  cases pattern with
  | named name => cases hword
  | wildcard => cases hword
  | unit =>
      exact Reads.cons (reads_let _) ((reads_localUnit _).seq
        ((reads_ignoredValue _ value).seq (hin left hleft)))
  | record field =>
      refine Reads.cons (reads_let _) ((reads_localRecord _ field).seq ?_)
      cases left with
      | nil =>
          -- the brace has taken off the frame of the function itself
          have hclose := @reads_pop .braceClose (by decide) (by decide) frame frames
          rw [hresume] at hclose
          have hrest : Reads [.fixed .equals, .silent value.word, .fixed .kwIn] anyKind
              (At .topLevel frames) (At .topLevel frames) :=
            Reads.cons (reads_passed frames (by decide))
              (Reads.cons (reads_passed frames (by simp)) (reads_passed frames (by decide)))
          exact (Reads.cons hclose hrest).weaken fun _ hm =>
            .inr ⟨frames, Nat.le_refl _, hm⟩
      | cons top left =>
          obtain ⟨htop, hleft⟩ := List.forall_mem_cons.mp hleft
          have hclose := @reads_pop .braceClose (by decide) (by decide) top (left ++ frame :: frames)
          rw [htop.resume] at hclose
          exact Reads.cons hclose ((reads_ignoredValue _ value).seq (hin left hleft))

theorem passes_loss (hnamed : frame.name ≠ "") (hresume : frame.resume = .topLevel)
    {frames : List Frame} (hscoped : Scoped (frame :: frames) scope) (bindings : List LocalBinding)
    (hwords : bindings.all (·.pattern.isWord) = false) :
    Passes (bindings.flatMap (LocalBinding.pieces scope)) anyKind
      (Over Frame.IsMark .bodyStart (frame :: frames)) (Lost (frames.countP Frame.isNamed)) := by
  induction bindings with
  | nil => cases hwords
  | cons binding bindings ih =>
      cases hword : binding.pattern.isWord with
      | true =>
          have hone := (reads_words hscoped [binding] (by simp [hword])).passes
          rw [List.flatMap_singleton] at hone
          exact hone.seq (ih (by simpa [hword] using hwords))
      | false =>
          refine Passes.seq ?_ (passes_lost _ scope bindings)
          intro m tokens last hspell hnext hm hrefused
          obtain ⟨left, hleft, hat⟩ := hm
          exact (binding.reads_loss hnamed hresume hleft frames hword m tokens last hspell hnext
            hat hrefused).1

end

/-! ## The whole function -/

theorem Param.reads {frames : List Frame} {scope : Option Scope} (hscoped : Scoped frames scope)
    (param : Param) :
    Reads (param.pieces scope) anyKind (At .parameters frames) (At .parameters frames) := by
  cases param with
  | named name => exact reads_params hscoped [name]
  | unit =>
      refine Reads.cons (Reads.stay ?_) (reads_parenClose frames)
      intro m token following hm hkind
      simp [Machine.dispatch, hm.mode, Machine.atParameters, hkind]

namespace BindingFunction

variable (function : BindingFunction) {frames : List Frame} {scope : Option Scope}

theorem scoped_frame (frames : List Frame) (scope : Option Scope) :
    Scoped (function.frame scope :: frames)
      (Scope.inside scope .functionDef function.name.text) :=
  .declared rfl scope frames function.name.stands.ne_empty

theorem frame_name_ne (scope : Option Scope) : (function.frame scope).name ≠ "" :=
  Frame.opened_name_ne function.name.stands.ne_empty true .functionScope .topLevel scope

theorem reads_head (hscoped : Scoped frames scope) :
    Reads (function.headPieces scope) anyKind (Settled frames)
      (At .parameters (function.frame scope :: frames)) := by
  have hrec : Reads [.fixed .kwRec] anyKind (Begun .letName frames) (Begun .letName frames) := by
    apply Reads.stay
    intro m token following hm hkind
    simp [Machine.dispatch, hm.mode, Machine.atLetName, hkind]
  have hname : Reads [function.name.declares .functionDef scope]
      (fun kind => kind = .ident ∨ kind = .parenOpen) (Begun .letName frames)
      (At .parameters (function.frame scope :: frames)) := by
    refine Reads.name (·.openBinding .functionScope function.name.text) hscoped
      (fun _ hm => hm.toAt) ?_ ?_
    · intro m token following hmode hkind htext hnext
      rcases hnext with hnext | hnext <;>
        simp [Machine.dispatch, hmode, Machine.atLetName, hkind, Machine.bindingOf,
          Machine.startsParameter, hnext, htext]
    · intro m hm hrefused
      have hpushed := hm.toAt.pushNamed hscoped function.name.stands.ne_empty hrefused
      exact ⟨⟨rfl, hpushed.frames, hpushed.staged⟩, m.found_push _ _ _ _⟩
  have hparams : ∀ params : List Param,
      Reads (params.flatMap (Param.pieces (Scope.inside scope .functionDef function.name.text)))
        anyKind (At .parameters (function.frame scope :: frames))
        (At .parameters (function.frame scope :: frames)) := by
    intro params
    induction params with
    | nil => exact Reads.nil _ _
    | cons param params ih => exact (param.reads (function.scoped_frame frames scope)).seq ih
  refine Reads.cons (reads_startLet frames) ((reads_optional hrec function.isRec).seq
    (hname.append (hparams (function.param :: function.params)) fun kind hkind => ?_))
  cases hparam : function.param with
  | named name =>
      rw [hparam] at hkind
      exact .inl hkind
  | unit =>
      rw [hparam] at hkind
      exact .inr hkind

/-- The function up to its body. -/
theorem reads_upToBody (hscoped : Scoped frames scope) :
    Reads (function.headPieces scope ++ [.fixed .equals]) anyKind (Settled frames)
      (Over Frame.IsMark .bodyStart (function.frame scope :: frames)) :=
  (function.reads_head hscoped).seq
    ((reads_bodyStart (.inl rfl) (by decide) _).weaken fun _ hm => hm.over)

/-- **Single words** leave the frame of the function. -/
theorem reads_words (hscoped : Scoped frames scope) (hwords : function.bindsWords = true) :
    Reads (function.pieces scope) anyKind (Settled frames)
      (Over Frame.IsMark .expression (function.frame scope :: frames)) := by
  have hinner := function.scoped_frame frames scope
  have hresult : Reads [.silent function.result.word] anyKind
      (Over Frame.IsMark .bodyStart (function.frame scope :: frames))
      (Over Frame.IsMark .expression (function.frame scope :: frames)) :=
    Reads.each fun left hleft => ((reads_atom (.inl rfl) _).mono fun _ hm => .inl hm).weaken
      fun _ hm => ⟨left, hleft, hm⟩
  have hbody := (CamlIndex.reads_words hinner function.bindings hwords).seq hresult
  simpa [pieces, bodyPieces] using (function.reads_upToBody hscoped).seq hbody

/-- **Other patterns** leave fewer names than the function and all around it have. -/
theorem passes_lost (hscoped : Scoped frames scope) (hwords : function.bindsWords = false) :
    Passes (function.pieces scope) anyKind (Settled frames)
      fun view => FewNamed (frames.countP Frame.isNamed) view.frames := by
  have hinner := function.scoped_frame frames scope
  have hresult : Passes [.silent function.result.word] anyKind
      (Lost (frames.countP Frame.isNamed))
      fun view => FewNamed (frames.countP Frame.isNamed) view.frames := by
    intro m tokens last hspell hnext hm hrefused
    rcases hm with ⟨outer, houter, hat⟩ | ⟨outer, houter, hat⟩
    · have hreached := (reads_atom (.inl rfl) outer m tokens last hspell hnext (.inl hat)
        hrefused).1
      rw [hreached.frames_eq]
      exact houter.few
    · have hreached := (reads_passed outer (by simp) m tokens last hspell hnext hat hrefused).1
      rw [hreached.frames_eq]
      exact houter
  have hbody := (passes_loss (function.frame_name_ne scope) rfl hinner function.bindings hwords).seq hresult
  have hwhole := (function.reads_upToBody hscoped).passes.seq hbody
  simpa [pieces, bodyPieces] using hwhole

end BindingFunction

/-- The words of a function that binds single words are read as they are meant. -/
theorem FunctionInModules.reads_meant (source : FunctionInModules)
    (hwords : source.function.bindsWords = true) :
    Reads source.meant Apart (Settled []) fun view => ∃ left : Nesting, Settled left.frames view := by
  have hscoped := source.levels.frames_scoped
  have hendless : (source.function.frame source.levels.scope).Endless :=
    Frame.endless_declared (by decide) _ _
  have hfunction := (source.function.reads_words hscoped hwords).weaken fun _ hm =>
    Settled.expression hendless (hm.imp fun _ h => h.isLoose)
  have hfurther := (reads_letPieces hscoped source.further).seq
    (source.levels.reads_closing source.levels)
  have hwhole := source.levels.reads_opening.seq (hfunction.seq hfurther)
  simpa [meant, upToBody] using hwhole

/-- **The frames behind the body** of a function. -/
theorem FunctionInModules.keeps_iff (source : FunctionInModules) {maxDepth : Nat} {last : Token}
    {tokens : List Token} (hspell : Spell tokens source.upToBody)
    (hrefused : ((Machine.start maxDepth).readAll last tokens).stack.refused = 0) :
    source.Keeps ((Machine.start maxDepth).readAll last tokens).stack.frames ↔
      source.function.bindsWords = true := by
  have hscoped := source.levels.frames_scoped
  have hbefore : Settled [] (Machine.start maxDepth).view := Begun.settled ⟨⟨rfl, rfl, rfl⟩, rfl⟩
  cases hwords : source.function.bindsWords with
  | true =>
      have hreads := source.levels.reads_opening.seq (source.function.reads_words hscoped hwords)
      obtain ⟨⟨left, hleft, hat⟩, -⟩ := hreads _ tokens last hspell trivial hbefore hrefused
      simp only [iff_true]
      exact ⟨left, fun frame hframe => (hleft frame hframe).unnamed, hat.frames⟩
  | false =>
      have hpasses := source.levels.reads_opening.passes.seq
        (source.function.passes_lost hscoped hwords)
      have hfew := hpasses _ tokens last hspell trivial hbefore hrefused
      simp only [Bool.false_eq_true, iff_false]
      rintro ⟨left, -, hframes⟩
      have hnamed : (source.function.frame source.levels.scope).isNamed = true := by
        simp [Frame.isNamed, source.function.frame_name_ne]
      have hcount : ((Machine.start maxDepth).readAll last tokens).stack.frames.countP
          Frame.isNamed ≤ source.levels.frames.countP Frame.isNamed := hfew
      rw [hframes, List.countP_append, List.countP_cons, if_pos hnamed] at hcount
      omega

/-- **Patterns of local bindings.**  Where a function that binds patterns is laid
out on a text, inside of modules, its frame and those of the modules are on the
stack behind its body if and only if every pattern is a single word, and then
the tags are those that are meant, unless a frame did not fit; a frame of room
for each word is enough. -/
theorem extract_localPatterns (source : FunctionInModules) (localBindings : Bool) (maxDepth : Nat)
    {text : String} {starts : List Nat}
    (hlaid : LaidOut 0 (source.meant.map Piece.word) starts text.toList) :
    (source.meant.length ≤ maxDepth →
        (extract { localBindings, maxDepth } text).diagnostics = []) ∧
      ((extract { localBindings, maxDepth } text).diagnostics = [] →
        (∀ front back, tokenize text = front ++ back → front.length = source.upToBody.length →
          (source.Keeps (Machine.partway maxDepth text front back).stack.frames ↔
            source.function.bindsWords = true)) ∧
        (source.function.bindsWords = true →
          (extract { localBindings, maxDepth } text).tags =
            markedTags source.meant localBindings text starts)) := by
  refine ⟨fun hroom => diagnostics_of_laidOut hlaid localBindings hroom, fun hfits => ⟨?_, ?_⟩⟩
  · intro front back htokens hlength
    have hspell : Spell (tokenize text) source.meant :=
      List.forall₂_map_right_iff.mp (tokenize_laidOut hlaid).1
    rw [htokens, FunctionInModules.meant, List.append_assoc] at hspell
    have hfront : Spell front source.upToBody := by
      have htake := List.forall₂_take_append _ _ _ hspell
      rwa [← hlength, List.take_left] at htake
    have hrefused := (diagnostics_eq_nil_iff _ _).mp hfits
    rw [runOver, htokens, Machine.readAll_append] at hrefused
    have hle := (Machine.fills_readAll (Machine.partway maxDepth text front back)
      (Token.endAt text.utf8ByteSize) back).refused_le
    exact source.keeps_iff hfront (Nat.le_zero.mp (hrefused ▸ hle))
  · intro hwords
    exact extract_of_reads (source.reads_meant hwords) hlaid localBindings hfits

/-- A function that binds a name and the wildcard in a module, with another
binding behind it. -/
theorem extract_localPatterns_words :
    let name (c : Char) (hname : startsWord c = true)
        (hkind : wordKind (String.ofList [c]) = .ident)
        (hlower : startsUpper (String.ofList [c]) = false) : LowerName :=
      ⟨⟨String.ofList [c], stands_word hname (by simp) hkind⟩, hlower⟩
    let value (c : Char) (hvalue : c.isDigit = true) : Lexeme .literal :=
      ⟨String.ofList [c], stands_number hvalue (by simp)⟩
    let f := name 'f' rfl rfl rfl
    let g := name 'g' rfl rfl rfl
    let x := name 'x' rfl rfl rfl
    let y := name 'y' rfl rfl rfl
    let m : UpperName := ⟨⟨String.ofList ['M'], stands_word rfl (by simp) rfl⟩, rfl⟩
    let function : BindingFunction :=
      ⟨false, f, .named x, [.unit], ⟨.named y, value '1' rfl⟩, [⟨.wildcard, value '2' rfl⟩], y.toLexeme⟩
    let source : FunctionInModules := ⟨.inside m .empty .outside, function,
      [.binding ⟨false, g, []⟩ (.expr (.apply (.one (.literal (value '3' rfl)))))]⟩
    let words := source.meant.map Piece.word
    let text := String.ofList (spaced words)
    LaidOut 0 words (spacedStarts 0 words) text.toList ∧
      (extract { localBindings := false, maxDepth := 256 } text).tags =
        [⟨"M", .moduleDef, 1, 8, 8, none⟩,
          ⟨"f", .functionDef, 1, 23, 23, some ⟨.moduleDef, "M"⟩⟩,
          ⟨"g", .variableDef, 1, 65, 65, some ⟨.moduleDef, "M"⟩⟩] := by
  intro name value f g x y m function source words text
  have hlaid : LaidOut 0 words (spacedStarts 0 words) text.toList := by
    rw [String.toList_ofList]
    exact laidOut_spaced 0 words
  obtain ⟨hroom, hfound⟩ := extract_localPatterns source false 256 hlaid
  obtain ⟨-, htags⟩ := hfound (hroom (by decide))
  refine ⟨hlaid, (htags (by decide)).trans ?_⟩
  decide

/-- In the module `M` the `in` behind `()` leaves the function, and the binding
behind the function has lost its scope. -/
theorem unitPattern_leaves_function :
    (extract {} "module M = struct let f x = let () = 1 in y let g = 2 end").tags.map Tag.content =
      [("M", .moduleDef, none), ("f", .functionDef, some ⟨.moduleDef, "M"⟩),
        ("g", .variableDef, none)] := by
  decide +kernel

end CamlIndex
