import CamlIndex.Proofs.Language.Syntax
import CamlIndex.Proofs.Room

/-!
# Reading the pieces of a program

A machine *reads* pieces from one condition to another if it gets from the first
to the second over any tokens that spell the pieces, and finds on the way
exactly what the pieces are marked with (`Reads`).  Conditions speak of a
machine's `View`, which leaves its notes out.  A condition on the token behind
the pieces can be asked for, since some words are read with the next one in
view.  Frames that did not fit would spoil all this, so a run counts only if
none was refused.

* `Reads.append` — pieces one after the other;
* `Scoped` — what the frames on the stack have to do with the scope that the
  traversal is in.
-/

namespace CamlIndex

/-! ## What is to be found -/

/-- The finding that a mark makes at an offset. -/
def Mark.finding (mark : Mark) (start : Nat) : Finding :=
  ⟨⟨mark.name, mark.kind, start, mark.scope⟩, mark.isLocal⟩

/-- What is to be found at a piece. -/
def Piece.findings (piece : Piece) (start : Nat) : List Finding :=
  (piece.mark.map (·.finding start)).toList

/-- What is to be found over tokens that spell pieces. -/
def expected (tokens : List Token) (pieces : List Piece) : List Finding :=
  (List.zipWith (fun token piece => piece.findings token.start) tokens pieces).flatten

/-- Tokens spell pieces, one for one. -/
def Spell (tokens : List Token) (pieces : List Piece) : Prop :=
  List.Forall₂ (fun token piece => token.Spells piece.word) tokens pieces

theorem Spell.split {tokens : List Token} {front back : List Piece}
    (h : Spell tokens (front ++ back)) :
    ∃ before after, tokens = before ++ after ∧ Spell before front ∧ Spell after back := by
  refine ⟨tokens.take front.length, tokens.drop front.length, ?_, ?_, ?_⟩
  · rw [List.take_append_drop]
  · exact List.forall₂_take_append _ _ _ h
  · exact List.forall₂_drop_append _ _ _ h

theorem expected_append {before after : List Token} {front back : List Piece}
    (h : Spell before front) :
    expected (before ++ after) (front ++ back) = expected before front ++ expected after back := by
  rw [expected, List.zipWith_append h.length_eq, List.flatten_append]
  rfl

/-! ## Frames and scopes -/

/-- The frames are those of a scope of the traversal: marks, and a named frame
for the scope. -/
inductive Scoped : List Frame → Option Scope → Prop where
  | outside : Scoped [] none
  | mark {frame : Frame} {frames : List Frame} {scope : Option Scope} (unnamed : frame.name = "")
      (outer : Scoped frames scope) : Scoped (frame :: frames) scope
  | named {frame : Frame} {frames : List Frame} {kind : Kind} (named : frame.name ≠ "")
      (role : frame.role.scopeKind? = some kind) :
      Scoped (frame :: frames) (some ⟨kind, frame.name⟩)

/-- The frame of what is declared in a scope. -/
def Frame.opened (boundary : Bool) (role : Role) (resume : Mode) (scope : Option Scope)
    (name : String) : Frame :=
  ⟨boundary, role, resume, scope.elim name (·.qualify name)⟩

theorem Frame.opened_name_ne {name : String} (hname : name ≠ "") (boundary : Bool) (role : Role)
    (resume : Mode) (scope : Option Scope) :
    (Frame.opened boundary role resume scope name).name ≠ "" := by
  cases scope with
  | none => exact hname
  | some outer =>
      intro hempty
      have := congrArg String.length hempty
      simp [Frame.opened, Scope.qualify] at this

namespace Scoped

variable {stack : ScopeStack} {scope : Option Scope}

theorem marks {frames left : List Frame} (h : Scoped frames scope)
    (hleft : ∀ frame ∈ left, frame.name = "") : Scoped (left ++ frames) scope := by
  induction left with
  | nil => exact h
  | cons frame left ih =>
      exact .mark (hleft frame (by simp)) (ih fun other hother => hleft other (by simp [hother]))

/-- The innermost named frame is that of the scope. -/
theorem nearestNamed? (h : Scoped stack.frames scope) :
    (scope = none ∧ stack.nearestNamed? = none) ∨
      ∃ frame kind, stack.nearestNamed? = some frame ∧ frame.role.scopeKind? = some kind ∧
        scope = some ⟨kind, frame.name⟩ := by
  unfold ScopeStack.nearestNamed?
  generalize stack.frames = frames at h
  induction h with
  | outside => exact .inl ⟨rfl, rfl⟩
  | mark hunnamed _ ih => simpa [Frame.isNamed, hunnamed] using ih
  | @named frame frames kind hnamed hrole =>
      refine .inr ⟨frame, kind, ?_, hrole, rfl⟩
      simp [Frame.isNamed, hnamed]

theorem scope? (h : Scoped stack.frames scope) : stack.scope? = scope := by
  rcases h.nearestNamed? with ⟨hscope, hnearest⟩ | ⟨frame, kind, hnearest, hrole, hscope⟩
  · simp [ScopeStack.scope?, hnearest, hscope]
  · simp [ScopeStack.scope?, hnearest, hrole, hscope]

theorem separator_eq {role : Role} {kind : Kind} (h : role.scopeKind? = some kind) :
    role.separator = kind.separator := by
  cases role <;> cases h <;> rfl

/-- A name is qualified as the traversal does it. -/
theorem qualify (h : Scoped stack.frames scope) {name : String} (hname : name ≠ "") :
    stack.qualify name = scope.elim name (·.qualify name) := by
  rcases h.nearestNamed? with ⟨hscope, hnearest⟩ | ⟨frame, kind, hnearest, hrole, hscope⟩
  · simp [ScopeStack.qualify, hname, hnearest, hscope]
  · simp [ScopeStack.qualify, hname, hnearest, hscope, Frame.qualify, Scope.qualify,
      separator_eq hrole]

/-- A frame with the name of what is declared in a scope opens the scope inside. -/
theorem opened (scope : Option Scope) (frames : List Frame) {name : String} (hname : name ≠ "")
    {role : Role} {kind : Kind} (hrole : role.scopeKind? = some kind) (boundary : Bool)
    (resume : Mode) :
    Scoped (.opened boundary role resume scope name :: frames) (Scope.inside scope kind name) :=
  .named (Frame.opened_name_ne hname boundary role resume scope) hrole

end Scoped

/-! ## Views and runs -/

/-- What decides how a machine goes on. -/
structure View where
  mode : Mode
  frames : List Frame
  closing : Bool
  chained : Mode
  skip : Skip
  balance : Balance
  staged : Option Declaration
  moduleName : String
  className : String

namespace Machine

def view (m : Machine) : View :=
  ⟨m.mode, m.stack.frames, m.closing, m.chained, m.skip, m.balance, m.staged, m.moduleName,
    m.className⟩

/-- What has been found, with the constructor that is held back. -/
def found (m : Machine) : List Finding :=
  m.findings ++ m.staged.toList.map (⟨·, false⟩)

theorem found_eq_confirm (m : Machine) : m.found = m.confirm.findings :=
  m.findings_confirm.symm

/-- A step is seen and finds as its rule does. -/
theorem step_eq (m : Machine) (current next : Token) :
    (m.step current next).view = (m.dispatched current next).view ∧
      (m.step current next).found = (m.dispatched current next).found ∧
      (m.step current next).stack = (m.dispatched current next).stack := by
  obtain ⟨-, hstack, hstaged, hfindings⟩ := step_fields m current next
  refine ⟨?_, by rw [found, found, hstaged, hfindings], hstack⟩
  unfold step dispatched
  dsimp only
  split <;> rfl

end Machine

/-- **Reading pieces** leads from one condition to another and finds what the
pieces are marked with, provided that a token of a kind in `next` comes behind
them and no frame is refused. -/
def Reads (pieces : List Piece) (next : TokenKind → Prop) (before after : View → Prop) : Prop :=
  ∀ (m : Machine) (tokens : List Token) (last : Token), Spell tokens pieces → next last.kind →
    before m.view → (m.readAll last tokens).stack.refused = 0 →
    after (m.readAll last tokens).view ∧
      (m.readAll last tokens).found = m.found ++ expected tokens pieces

/-- Any token may come behind. -/
def anyKind (_ : TokenKind) : Prop :=
  True

/-- The kinds of token that may come first where pieces and then `next` follow. -/
def Leads (pieces : List Piece) (next : TokenKind → Prop) (kind : TokenKind) : Prop :=
  match pieces with
  | [] => next kind
  | piece :: _ => kind = piece.word.kind

/-- A run over pieces one after the other, of which no frame is refused. -/
theorem Spell.readAll {m : Machine} {tokens : List Token} {last : Token} {front back : List Piece}
    {next : TokenKind → Prop} (h : Spell tokens (front ++ back)) (hnext : next last.kind)
    (hrefused : (m.readAll last tokens).stack.refused = 0) :
    ∃ first second, tokens = first ++ second ∧ Spell first front ∧ Spell second back ∧
      Leads back next (second.headD last).kind ∧
      m.readAll last tokens = (m.readAll (second.headD last) first).readAll last second ∧
      (m.readAll (second.headD last) first).stack.refused = 0 := by
  obtain ⟨first, second, rfl, hfirst, hsecond⟩ := h.split
  rw [Machine.readAll_append] at hrefused
  have hhead : Leads back next (second.headD last).kind := by
    cases hsecond with
    | nil => exact hnext
    | cons hspells _ => exact hspells.1
  have hle := (Machine.fills_readAll (m.readAll (second.headD last) first) last second).refused_le
  exact ⟨first, second, rfl, hfirst, hsecond, hhead, m.readAll_append last first second, by omega⟩

namespace Reads

variable {front back : List Piece} {next middle : TokenKind → Prop}
  {before between after : View → Prop}

theorem nil (next : TokenKind → Prop) (condition : View → Prop) :
    Reads [] next condition condition := by
  intro m tokens last hspell _ hbefore _
  cases hspell
  exact ⟨hbefore, by simp [Machine.readAll, expected]⟩

theorem mono (h : Reads front next between after) (hbefore : ∀ view, before view → between view) :
    Reads front next before after := by
  intro m tokens last hspell hnext hm hrefused
  exact h m tokens last hspell hnext (hbefore _ hm) hrefused

theorem weaken (h : Reads front next before between) (hafter : ∀ view, between view → after view) :
    Reads front next before after := by
  intro m tokens last hspell hnext hm hrefused
  obtain ⟨hreached, hfound⟩ := h m tokens last hspell hnext hm hrefused
  exact ⟨hafter _ hreached, hfound⟩

theorem narrow (h : Reads front middle before after) (hnext : ∀ kind, next kind → middle kind) :
    Reads front next before after := by
  intro m tokens last hspell hlast hm hrefused
  exact h m tokens last hspell (hnext _ hlast) hm hrefused

/-- **Pieces one after the other.** -/
theorem append (hfront : Reads front middle before between)
    (hback : Reads back next between after)
    (hmiddle : ∀ kind, Leads back next kind → middle kind) :
    Reads (front ++ back) next before after := by
  intro m tokens last hspell hnext hm hrefused
  obtain ⟨first, second, rfl, hfirst, hsecond, hhead, hrun, hunrefused⟩ :=
    hspell.readAll hnext hrefused
  rw [hrun] at hrefused ⊢
  obtain ⟨hreached, hfound⟩ := hfront m first _ hfirst (hmiddle _ hhead) hm hunrefused
  obtain ⟨hafter, hfoundAll⟩ := hback _ second last hsecond hnext hreached hrefused
  exact ⟨hafter, by rw [hfoundAll, hfound, expected_append hfirst, List.append_assoc]⟩

/-- Pieces behind which any token may come. -/
theorem seq (hfront : Reads front anyKind before between)
    (hback : Reads back next between after) : Reads (front ++ back) next before after :=
  hfront.append hback fun _ _ => trivial

theorem cons {piece : Piece} (hfront : Reads [piece] anyKind before between)
    (hback : Reads back next between after) : Reads (piece :: back) next before after :=
  hfront.seq hback

/-- **A single piece** is read by one rule. -/
theorem piece {piece : Piece} (h : ∀ (m : Machine) (token following : Token),
    token.Spells piece.word → next following.kind → before m.view →
    (m.dispatch token following).stack.refused = 0 →
    after (m.dispatch token following).view ∧
      (m.dispatch token following).found = m.found ++ piece.findings token.start) :
    Reads [piece] next before after := by
  intro m tokens last hspell hnext hm hrefused
  obtain ⟨token, rest, hspells, hrest, rfl⟩ := List.forall₂_cons_right_iff.mp hspell
  cases hrest
  obtain ⟨hview, hfound, hstack⟩ := m.step_eq token last
  change (m.step token last).stack.refused = 0 at hrefused
  rw [hstack] at hrefused
  obtain ⟨hafter, hfoundAll⟩ :=
    h { m with offset := token.start } token last hspells hnext hm hrefused
  have hone : expected [token] [piece] = piece.findings token.start := by
    simp [expected]
  change after (m.step token last).view ∧ (m.step token last).found = _
  rw [hview, hfound, hone]
  exact ⟨hafter, hfoundAll⟩

/-- A word that declares nothing. -/
theorem silent {word : Word} (h : ∀ (m : Machine) (token following : Token),
    token.Spells word → next following.kind → before m.view →
    (m.dispatch token following).stack.refused = 0 →
    after (m.dispatch token following).view ∧ (m.dispatch token following).found = m.found) :
    Reads [.silent word] next before after := by
  apply piece
  intro m token following hspells hnext hm hrefused
  obtain ⟨hafter, hfound⟩ := h m token following hspells hnext hm hrefused
  exact ⟨hafter, by rw [hfound]; exact (List.append_nil _).symm⟩

end Reads

end CamlIndex
