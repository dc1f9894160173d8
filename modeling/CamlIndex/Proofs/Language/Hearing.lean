import CamlIndex.Proofs.Labels
import CamlIndex.Proofs.Language.Reading

/-!
# Hearing parameters

Among parameters the mode and the frames are not all that counts: in a label the
machine counts parentheses and remembers whether it has noted the name.  So its
view is a wider one here (`ParamView`).  On the other hand, parameters leave the
stack alone, so that no room is asked for.

Behind a parameter the machine is between parameters again (`InParams`), with one
exception: a label without parentheses does not end with its name.  There it is
still in the label (`AfterParam true`), and a word is read as if it stood between
parameters if it cannot belong to the label (`Hears.behindLabel`).  Names and
parentheses can.

* `Hears.append` — pieces one after the other;
* `hears_name`, `hears_swallowed` — a name is a parameter, or it is taken for
  the name that the label has already;
* `hears_open`, `hears_inner`, `hears_close` — the parentheses of a label.
-/

namespace CamlIndex

/-! ## Words of parameters -/

theorem stands_tilde : Stands .operator "~" :=
  @stands_operator '~' [] _ (by decide) (by simp) rfl

theorem stands_question : Stands .operator "?" :=
  @stands_operator '?' [] _ (by decide) (by simp) rfl

theorem stands_comma : Stands .comma "," :=
  @stands_character ',' (by decide)

/-- The sign in front of a label. -/
def Word.tilde : Word :=
  ⟨.operator, "~", stands_tilde⟩

/-- The sign in front of an optional label. -/
def Word.question : Word :=
  ⟨.operator, "?", stands_question⟩

def Word.comma : Word :=
  ⟨.comma, ",", stands_comma⟩

/-- The sign that begins a label of the sort. -/
def Machine.Label.sign : Machine.Label → Word
  | .labelled => .tilde
  | .optional => .question

/-- A name among parameters, which is a variable if it is heard. -/
def Lexeme.bound (scope : Option Scope) (heard : Bool) (name : Lexeme .ident) : Piece :=
  ⟨name.word, if heard then some ⟨name.text, .variableDef, true, scope⟩ else none⟩

/-! ## Hearing -/

/-- What decides how a machine reads parameters. -/
structure ParamView where
  mode : Mode
  stack : ScopeStack
  closing : Bool
  staged : Option Declaration
  labelNoted : Bool
  depths : Int × Int

def Machine.paramView (m : Machine) : ParamView :=
  ⟨m.mode, m.stack, m.closing, m.staged, m.labelNoted, m.depths⟩

/-- **Hearing pieces** leads from one condition to another and finds what the pieces are
marked with, provided that a token that satisfies `next` comes behind them. -/
def Hears (pieces : List Piece) (next : Token → Prop) (before after : ParamView → Prop) : Prop :=
  ∀ (m : Machine) (tokens : List Token) (last : Token), Spell tokens pieces → next last →
    before m.paramView → after (m.readAll last tokens).paramView ∧
      (m.readAll last tokens).found = m.found ++ expected tokens pieces

/-- Any token may come behind. -/
def anyToken (_ : Token) : Prop :=
  True

/-- The tokens that may come first where pieces and then `next` follow. -/
def Ahead (pieces : List Piece) (next : Token → Prop) (token : Token) : Prop :=
  match pieces with
  | [] => next token
  | piece :: _ => token.Spells piece.word

namespace Hears

variable {front back : List Piece} {next middle : Token → Prop}
  {before between after : ParamView → Prop}

theorem nil (next : Token → Prop) (condition : ParamView → Prop) :
    Hears [] next condition condition := by
  intro m tokens last hspell _ hm
  cases hspell
  exact ⟨hm, by simp [Machine.readAll, expected]⟩

/-- **Pieces one after the other.** -/
theorem append (hfront : Hears front middle before between) (hback : Hears back next between after)
    (hmiddle : ∀ token, Ahead back next token → middle token) :
    Hears (front ++ back) next before after := by
  intro m tokens last hspell hnext hm
  obtain ⟨first, second, rfl, hfirst, hsecond⟩ := hspell.split
  have hhead : Ahead back next (second.headD last) := by
    cases hsecond with
    | nil => exact hnext
    | cons hspells _ => exact hspells
  rw [Machine.readAll_append]
  obtain ⟨hreached, hfound⟩ := hfront m first _ hfirst (hmiddle _ hhead) hm
  obtain ⟨hafter, hfoundAll⟩ := hback _ second last hsecond hnext hreached
  exact ⟨hafter, by rw [hfoundAll, hfound, expected_append hfirst, List.append_assoc]⟩

theorem seq (hfront : Hears front anyToken before between) (hback : Hears back next between after) :
    Hears (front ++ back) next before after :=
  hfront.append hback fun _ _ => trivial

theorem cons {piece : Piece} (hfront : Hears [piece] anyToken before between)
    (hback : Hears back next between after) : Hears (piece :: back) next before after :=
  hfront.seq hback

theorem paramView_step (m : Machine) (token last : Token) :
    (m.step token last).paramView = (m.dispatched token last).paramView := by
  unfold Machine.step Machine.dispatched
  dsimp only
  split <;> rfl

/-- **A single piece** is read by one rule. -/
theorem piece {piece : Piece} (h : ∀ (m : Machine) (token following : Token),
    token.Spells piece.word → next following → before m.paramView →
    after (m.dispatch token following).paramView ∧
      (m.dispatch token following).found = m.found ++ piece.findings token.start) :
    Hears [piece] next before after := by
  intro m tokens last hspell hnext hm
  obtain ⟨token, rest, hspells, hrest, rfl⟩ := List.forall₂_cons_right_iff.mp hspell
  cases hrest
  obtain ⟨-, hfound, -⟩ := m.step_eq token last
  obtain ⟨hafter, hfoundAll⟩ := h { m with offset := token.start } token last hspells hnext hm
  have hone : expected [token] [piece] = piece.findings token.start := by
    simp [expected]
  change after (m.step token last).paramView ∧ (m.step token last).found = _
  rw [paramView_step, hfound, hone]
  exact ⟨hafter, hfoundAll⟩

/-- A word that declares nothing and is read by one rule. -/
theorem rule {word : Word} (rule : Machine → Machine)
    (hrule : ∀ (m : Machine) (token following : Token), before m.paramView → token.Spells word →
      m.dispatch token following = rule m)
    (hafter : ∀ m : Machine, before m.paramView →
      after (rule m).paramView ∧ (rule m).found = m.found) :
    Hears [.silent word] next before after := by
  apply piece
  intro m token following hspells _ hm
  rw [hrule m token following hm hspells]
  obtain ⟨hreached, hfound⟩ := hafter m hm
  exact ⟨hreached, by rw [hfound]; exact (List.append_nil _).symm⟩

/-- A word that a condition does not notice. -/
theorem stay {word : Word} {condition : ParamView → Prop}
    (h : ∀ (m : Machine) (token following : Token), condition m.paramView → token.Spells word →
      m.dispatch token following = m) :
    Hears [.silent word] next condition condition := by
  apply rule id
  · intro m token following hm hspells
    exact h m token following hm hspells
  · intro m hm
    exact ⟨hm, rfl⟩

end Hears

/-! ## Between parameters and in labels -/

/-- With this stack, and no constructor held back. -/
structure Keeping (mode : Mode) (stack : ScopeStack) (view : ParamView) : Prop where
  mode : view.mode = mode
  stack : view.stack = stack
  staged : view.staged = none

/-- Between two parameters no parenthesis of a label is open. -/
structure InParams (stack : ScopeStack) (view : ParamView) : Prop extends
    Keeping .parameters stack view where
  depths : view.depths = (0, 0)

/-- What the counters are when parentheses are open in a label. -/
def Machine.Label.depths (depth : Int) : Machine.Label → Int × Int
  | .labelled => (depth, 0)
  | .optional => (0, depth)

/-- In a label, which may have been noted, with parentheses open. -/
structure InLabel (label : Machine.Label) (noted : Bool) (depth : Int) (stack : ScopeStack)
    (view : ParamView) : Prop extends Keeping label.mode stack view where
  noted : view.labelNoted = noted
  depths : view.depths = label.depths depth

/-- Behind a parameter: in a label that is complete, or out of all labels. -/
def AfterParam : (inLabel : Bool) → ScopeStack → ParamView → Prop
  | true => InLabel .labelled true 0
  | false => InParams

section Words

variable {stack : ScopeStack} {scope : Option Scope} {next : Token → Prop}

/-- Noting a name finds it, in the scope of the stack. -/
theorem found_declareLocal {m : Machine} {token : Token} {word : Word}
    (hscope : stack.scope? = scope) (hstack : m.stack = stack) (hstaged : m.staged = none)
    (hspells : token.Spells word) :
    (m.declareLocal token .variableDef).found = m.found ++
      Piece.findings ⟨word, some ⟨word.text, .variableDef, true, scope⟩⟩ token.start := by
  simp [Machine.found, Machine.declareLocal, Machine.note, hstaged, Machine.findings,
    Note.finding?, Piece.findings, Mark.finding, Machine.declaration, hstack, hscope, hspells.2]

/-- A name between parameters is a parameter. -/
theorem hears_name (hscope : stack.scope? = scope) (name : Lexeme .ident) :
    Hears [name.bound scope true] next (InParams stack) (InParams stack) := by
  apply Hears.piece
  intro m token following hspells _ hm
  have hdispatch : m.dispatch token following = m.declareLocal token .variableDef := by
    have hmode : m.mode = .parameters := hm.mode
    have hkind : token.kind = .ident := hspells.1
    simp [Machine.dispatch, hmode, Machine.atParameters, hkind]
  rw [hdispatch, found_declareLocal hscope hm.stack hm.staged hspells]
  exact ⟨⟨⟨hm.mode, hm.stack, hm.staged⟩, hm.depths⟩, rfl⟩

/-- Words that mean nothing between parameters. -/
theorem hears_ignored {word : Word}
    (hword : word.kind ∈ [.literal, .parenOpen, .parenClose, .comma, .colon]) :
    Hears [.silent word] next (InParams stack) (InParams stack) := by
  apply Hears.stay
  intro m token following hm hspells
  have hmode : m.mode = .parameters := hm.mode
  have hkind : token.kind = word.kind := hspells.1
  simp only [List.mem_cons, List.not_mem_nil, or_false] at hword
  unfold Machine.dispatch
  rw [hmode]
  dsimp only
  unfold Machine.atParameters
  rw [hkind]
  rcases hword with h | h | h | h | h <;> rw [h]

/-- Behind a label that is complete, a token is read as between parameters, unless it may
still belong to the label. -/
theorem atLabelled_of_complete {m : Machine} (hcomplete : m.labelComplete = true) {token : Token}
    (hkind : token.kind ∉ [.ident, .parenOpen, .parenClose, .colon])
    (htype : token.opensType = false) :
    m.atLabelled token = (m.goto .parameters).atParameters token := by
  unfold Machine.atLabelled
  dsimp only
  rw [if_pos hcomplete]
  split <;> simp_all [Token.opensType]

/-- A word behind a label that is complete is read as between parameters. -/
theorem Hears.behindLabel {piece : Piece} {after : ParamView → Prop}
    (hkind : piece.word.kind ∉ [.ident, .parenOpen, .parenClose, .colon])
    (htype : piece.word.kind = .operator → piece.word.text.toList.head? ≠ some ':')
    (h : Hears [piece] next (InParams stack) after) :
    Hears [piece] next (AfterParam true stack) after := by
  intro m tokens last hspell hnext hm
  obtain ⟨token, rest, hspells, hrest, rfl⟩ := List.forall₂_cons_right_iff.mp hspell
  cases hrest
  have hbetween : InParams stack (m.goto .parameters).paramView :=
    ⟨⟨rfl, hm.stack, hm.staged⟩, hm.depths⟩
  have hsame : m.dispatched token last = (m.goto .parameters).dispatched token last := by
    have hcomplete : m.labelComplete = true := by
      have hdepth : m.labelDepth = 0 := congrArg Prod.fst hm.depths
      have hnoted : m.labelNoted = true := hm.noted
      simp [Machine.labelComplete, hdepth, hnoted]
    rw [Machine.dispatched_labelled _ _ hm.mode]
    refine (atLabelled_of_complete (m := { m with offset := token.start }) hcomplete
      (hspells.1 ▸ hkind) ?_ :)
    simpa [Token.opensType, Token.initial?, hspells.1, hspells.2] using htype
  obtain ⟨hafter, hfound⟩ := h (m.goto .parameters) [token] last hspell hnext hbetween
  change after ((m.goto .parameters).step token last).paramView at hafter
  change ((m.goto .parameters).step token last).found = m.found ++ _ at hfound
  change after (m.step token last).paramView ∧ (m.step token last).found = _
  rw [paramView_step, ← hsame, ← paramView_step] at hafter
  rw [(Machine.step_eq _ _ _).2.1, ← hsame, ← (Machine.step_eq _ _ _).2.1] at hfound
  exact ⟨hafter, hfound⟩

/-- The sign of a label. -/
theorem hears_sign (label : Machine.Label) (inLabel : Bool) :
    Hears [.silent label.sign] next (AfterParam inLabel stack) (InLabel label false 0 stack) := by
  suffices h : Hears [.silent label.sign] next (InParams stack) (InLabel label false 0 stack) by
    cases inLabel with
    | false => exact h
    | true => exact h.behindLabel (by cases label <;> decide) (by cases label <;> decide)
  apply Hears.rule (·.enterLabel label.mode)
  · intro m token following hm hspells
    have hmode : m.mode = .parameters := hm.mode
    cases label with
    | labelled =>
        have hkind : token.kind = .operator := hspells.1
        have hsign : token.initial? = some '~' := by
          rw [Token.initial?, hspells.2]
          rfl
        simp [Machine.dispatch, hmode, Machine.atParameters, hkind, hsign, Machine.Label.mode]
    | optional =>
        have hkind : token.kind = .operator := hspells.1
        have hsign : token.initial? = some '?' := by
          rw [Token.initial?, hspells.2]
          rfl
        simp [Machine.dispatch, hmode, Machine.atParameters, hkind, hsign, Machine.Label.mode]
  · intro m hm
    cases label <;> exact ⟨⟨⟨rfl, hm.stack, hm.staged⟩, rfl, hm.depths⟩, rfl⟩

/-- The name of a label, with parentheses around it or without. -/
theorem hears_labelName (hscope : stack.scope? = scope) (depth : Int) (name : Lexeme .ident) :
    Hears [name.bound scope true] next (InLabel .labelled false depth stack)
      (InLabel .labelled true depth stack) := by
  apply Hears.piece
  intro m token following hspells _ hm
  have hdispatch : m.dispatch token following =
      { m.declareLocal token .variableDef with labelNoted := true } := by
    have hmode : m.mode = .labelled := hm.mode
    have hkind : token.kind = .ident := hspells.1
    have hnoted : m.labelNoted = false := hm.noted
    simp [Machine.dispatch, hmode, Machine.atLabelled, hkind, Machine.noteLabel, hnoted]
  rw [hdispatch]
  exact ⟨⟨⟨hm.mode, hm.stack, hm.staged⟩, rfl, hm.depths⟩,
    found_declareLocal hscope hm.stack hm.staged hspells⟩

/-- The name of an optional label is all of the parameter. -/
theorem hears_optionalName (hscope : stack.scope? = scope) (name : Lexeme .ident) :
    Hears [name.bound scope true] next (InLabel .optional false 0 stack) (InParams stack) := by
  apply Hears.piece
  intro m token following hspells _ hm
  have hdispatch : m.dispatch token following =
      { m.declareLocal token .variableDef with labelNoted := true, mode := .parameters } := by
    have hmode : m.mode = .optional := hm.mode
    have hkind : token.kind = .ident := hspells.1
    have hnoted : m.labelNoted = false := hm.noted
    have hdepth : m.optionalDepth = 0 := congrArg Prod.snd hm.depths
    simp [Machine.dispatch, hmode, Machine.atOptional, hkind, Machine.noteLabel, hnoted, hdepth,
      Machine.goto]
  rw [hdispatch]
  exact ⟨⟨⟨rfl, hm.stack, hm.staged⟩, hm.depths⟩,
    found_declareLocal hscope hm.stack hm.staged hspells⟩

/-- The name of an optional label in parentheses. -/
theorem hears_defaultedName (hscope : stack.scope? = scope) (name : Lexeme .ident) :
    Hears [name.bound scope true] next (InLabel .optional false 1 stack)
      (InLabel .optional true 1 stack) := by
  apply Hears.piece
  intro m token following hspells _ hm
  have hdispatch : m.dispatch token following =
      { m.declareLocal token .variableDef with labelNoted := true } := by
    have hmode : m.mode = .optional := hm.mode
    have hkind : token.kind = .ident := hspells.1
    have hnoted : m.labelNoted = false := hm.noted
    have hdepth : m.optionalDepth = 1 := congrArg Prod.snd hm.depths
    simp [Machine.dispatch, hmode, Machine.atOptional, hkind, Machine.noteLabel, hnoted, hdepth]
  rw [hdispatch]
  exact ⟨⟨⟨hm.mode, hm.stack, hm.staged⟩, rfl, hm.depths⟩,
    found_declareLocal hscope hm.stack hm.staged hspells⟩

/-- A parenthesis that a label opens. -/
theorem hears_open (label : Machine.Label) (noted : Bool) :
    Hears [.fixed .parenOpen] next (InLabel label noted 0 stack)
      (InLabel label noted 1 stack) := by
  cases label with
  | labelled =>
      apply Hears.rule fun m => { m with labelDepth := 1 }
      · intro m token following hm hspells
        have hmode : m.mode = .labelled := hm.mode
        have hkind : token.kind = .parenOpen := hspells.1
        have hdepth : m.labelDepth = 0 := congrArg Prod.fst hm.depths
        simp [Machine.dispatch, hmode, Machine.atLabelled, hkind, hdepth]
      · intro m hm
        have hdepth : m.optionalDepth = 0 := congrArg Prod.snd hm.depths
        exact ⟨⟨⟨hm.mode, hm.stack, hm.staged⟩, hm.noted, congrArg (Prod.mk 1) hdepth⟩, rfl⟩
  | optional =>
      apply Hears.rule fun m => { m with optionalDepth := 1 }
      · intro m token following hm hspells
        have hmode : m.mode = .optional := hm.mode
        have hkind : token.kind = .parenOpen := hspells.1
        have hdepth : m.optionalDepth = 0 := congrArg Prod.snd hm.depths
        simp [Machine.dispatch, hmode, Machine.atOptional, hkind, hdepth]
      · intro m hm
        have hdepth : m.labelDepth = 0 := congrArg Prod.fst hm.depths
        exact ⟨⟨⟨hm.mode, hm.stack, hm.staged⟩, hm.noted, congrArg (Prod.mk · 1) hdepth⟩, rfl⟩

/-- The parenthesis that ends a label. -/
theorem hears_close (label : Machine.Label) (noted : Bool) :
    Hears [.fixed .parenClose] next (InLabel label noted 1 stack)
      (InParams stack) := by
  cases label with
  | labelled =>
      apply Hears.rule fun m => { m with labelDepth := 0, mode := .parameters }
      · intro m token following hm hspells
        have hmode : m.mode = .labelled := hm.mode
        have hkind : token.kind = .parenClose := hspells.1
        have hdepth : m.labelDepth = 1 := congrArg Prod.fst hm.depths
        simp [Machine.dispatch, hmode, Machine.atLabelled, hkind, hdepth, Machine.goto]
      · intro m hm
        have hdepth : m.optionalDepth = 0 := congrArg Prod.snd hm.depths
        exact ⟨⟨⟨rfl, hm.stack, hm.staged⟩, congrArg (Prod.mk 0) hdepth⟩, rfl⟩
  | optional =>
      apply Hears.rule fun m => { m with optionalDepth := 0, mode := .parameters }
      · intro m token following hm hspells
        have hmode : m.mode = .optional := hm.mode
        have hkind : token.kind = .parenClose := hspells.1
        have hdepth : m.optionalDepth = 1 := congrArg Prod.snd hm.depths
        simp [Machine.dispatch, hmode, Machine.atOptional, hkind, hdepth, Machine.goto]
      · intro m hm
        have hdepth : m.labelDepth = 0 := congrArg Prod.fst hm.depths
        exact ⟨⟨⟨rfl, hm.stack, hm.staged⟩, congrArg (Prod.mk · 0) hdepth⟩, rfl⟩

/-- Inside the parentheses of a label that has its name nothing counts but parentheses. -/
theorem hears_inner (label : Machine.Label) {word : Word}
    (hword : word.kind ∈ [.ident, .literal, .equals, .comma, .colon]) :
    Hears [.silent word] next (InLabel label true 1 stack) (InLabel label true 1 stack) := by
  apply Hears.stay
  intro m token following hm hspells
  have hkind : token.kind = word.kind := hspells.1
  have hnoted : m.labelNoted = true := hm.noted
  simp only [List.mem_cons, List.not_mem_nil, or_false] at hword
  cases label with
  | labelled =>
      have hmode : m.mode = .labelled := hm.mode
      have hdepth : m.labelDepth = 1 := congrArg Prod.fst hm.depths
      rcases hword with h | h | h | h | h <;>
        simp [Machine.dispatch, hmode, Machine.atLabelled, hkind, h, Machine.noteLabel, hnoted,
          Machine.labelComplete, hdepth]
  | optional =>
      have hmode : m.mode = .optional := hm.mode
      rcases hword with h | h | h | h | h <;>
        simp [Machine.dispatch, hmode, Machine.atOptional, hkind, h, hnoted]

/-- A name behind a label is taken for that of the label. -/
theorem hears_swallowed (name : Lexeme .ident) :
    Hears [name.bound scope false] next (AfterParam true stack) (AfterParam true stack) := by
  apply Hears.stay
  intro m token following hm hspells
  have hmode : m.mode = .labelled := hm.mode
  have hkind : token.kind = .ident := hspells.1
  have hnoted : m.labelNoted = true := hm.noted
  simp [Machine.dispatch, hmode, Machine.atLabelled, hkind, Machine.noteLabel, hnoted]

end Words

end CamlIndex
