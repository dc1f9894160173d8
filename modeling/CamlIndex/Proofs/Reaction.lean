import CamlIndex.Proofs.Announcement

/-!
# What a reaction depends on

A rule of the machine goes by the control fields, by the frames on the stack and
by the kinds and texts of two tokens.  Everything else it only passes on or adds
to: how many frames fit, how many were refused, the constructor held back, the
notes, and where tokens stand in the text.  These are the `Circumstance` of a
reading.

Let one machine read the same words under two circumstances.  `Alike` says that
it makes the same remark about the token, unwinds to the same frames, sets the
same control fields, and pushes the same frame or none.  The push comes last, so
that nothing else hangs on whether the frame fits; where a rule sets control
fields after it has pushed, it might have set them before (`push_setControl`).
-/

namespace CamlIndex

/-- What no rule goes by when it reads a token. -/
structure Circumstance where
  capacity : Nat
  refused : Nat
  staged : Option Declaration
  notes : List Note
  /-- Where the token being read starts and ends. -/
  start : Nat
  stop : Nat
  /-- Where the token in view starts and ends. -/
  nextStart : Nat
  nextStop : Nat

/-- A token as it is read under a circumstance. -/
def Token.under (token : Token) (w : Circumstance) : Token :=
  { token with start := w.start, stop := w.stop }

/-- The token in view under a circumstance. -/
def Token.beyond (token : Token) (w : Circumstance) : Token :=
  { token with start := w.nextStart, stop := w.nextStop }

@[simp] theorem Token.under_kind (token : Token) (w : Circumstance) :
    (token.under w).kind = token.kind := rfl

@[simp] theorem Token.beyond_kind (token : Token) (w : Circumstance) :
    (token.beyond w).kind = token.kind := rfl

@[simp] theorem Token.under_text (token : Token) (w : Circumstance) :
    (token.under w).text = token.text := rfl

@[simp] theorem Token.under_initial? (token : Token) (w : Circumstance) :
    (token.under w).initial? = token.initial? := rfl

@[simp] theorem Token.under_isCapitalized (token : Token) (w : Circumstance) :
    (token.under w).isCapitalized = token.isCapitalized := rfl

/-- What a rule may say about the token that it reads. -/
inductive Remark where
  | nothing
  /-- A declaration at the token. -/
  | declared (name : String) (kind : Kind) (scope : Option Scope) (isLocal : Bool)
  /-- A constructor, which the next token may turn into a module path. -/
  | held (name : String) (scope : Option Scope)
  | withdrawn
  | confirmed

namespace Circumstance

/-- The circumstance after a remark. -/
def hear (w : Circumstance) : Remark → Circumstance
  | .nothing => w
  | .declared name kind scope isLocal =>
    { w with notes := .declared ⟨name, kind, w.start, scope⟩ isLocal :: w.notes }
  | .held name scope => { w with staged := some ⟨name, .constructorDef, w.start, scope⟩ }
  | .withdrawn => { w with staged := none }
  | .confirmed =>
    match w.staged with
    | some declaration => { w with staged := none, notes := .declared declaration false :: w.notes }
    | none => w

/-- A remark says nothing about where tokens stand. -/
theorem hear_place (w : Circumstance) (remark : Remark) :
    (w.hear remark).start = w.start ∧ (w.hear remark).stop = w.stop ∧
      (w.hear remark).nextStart = w.nextStart ∧ (w.hear remark).nextStop = w.nextStop := by
  cases remark with
  | confirmed =>
      unfold hear
      dsimp only
      split <;> exact ⟨rfl, rfl, rfl, rfl⟩
  | _ => exact ⟨rfl, rfl, rfl, rfl⟩

end Circumstance

theorem Token.under_hear (token : Token) (w : Circumstance) (remark : Remark) :
    token.under (w.hear remark) = token.under w := by
  obtain ⟨hstart, hstop, -, -⟩ := w.hear_place remark
  rw [Token.under, hstart, hstop]
  rfl

theorem Token.beyond_hear (token : Token) (w : Circumstance) (remark : Remark) :
    token.beyond (w.hear remark) = token.beyond w := by
  obtain ⟨-, -, hstart, hstop⟩ := w.hear_place remark
  rw [Token.beyond, hstart, hstop]
  rfl

namespace Machine

/-- The machine under another circumstance. -/
def under (m : Machine) (w : Circumstance) : Machine :=
  { m with
    stack := ⟨m.stack.frames, w.capacity, w.refused⟩
    staged := w.staged
    offset := w.start
    notes := w.notes }

/-- **The same reaction.**  Under two circumstances the same remark is made, the
same control fields and frames are left behind, and last of all the same frame
is pushed, if any. -/
inductive Alike (w w' : Circumstance) : Machine → Machine → Prop
  | moves (remark : Remark) (m : Machine) :
      Alike w w' (m.under (w.hear remark)) (m.under (w'.hear remark))
  | pushes (remark : Remark) (m : Machine) (boundary : Bool) (role : Role) (resume : Mode)
      (name : String) :
      Alike w w' ((m.under (w.hear remark)).push boundary role resume name)
        ((m.under (w'.hear remark)).push boundary role resume name)

/-! ## Rules that only move about -/

section Under

variable (m : Machine) (w : Circumstance) (current next : Token)

@[simp] theorem under_mode : (m.under w).mode = m.mode := rfl

@[simp] theorem under_skip : (m.under w).skip = m.skip := rfl

@[simp] theorem under_labelNoted : (m.under w).labelNoted = m.labelNoted := rfl

@[simp] theorem under_labelDepth : (m.under w).labelDepth = m.labelDepth := rfl

@[simp] theorem under_optionalDepth : (m.under w).optionalDepth = m.optionalDepth := rfl

@[simp] theorem skipTo_under (mode : Mode) (waited : TokenKind) (resume : Mode) :
    (m.under w).skipTo mode waited resume = (m.skipTo mode waited resume).under w := rfl

@[simp] theorem popToNamed_under : (m.under w).popToNamed = m.popToNamed.under w := by
  unfold popToNamed ScopeStack.popToNamed under
  dsimp only
  split <;> rfl

@[simp] theorem pop_under : (m.under w).pop = m.pop.under w := by
  unfold pop ScopeStack.pop under
  dsimp only
  split
  · next h => simp [h]
  · rfl

@[simp] theorem popBoundary_under : (m.under w).popBoundary = m.popBoundary.under w := by
  unfold popBoundary ScopeStack.popBoundary under
  dsimp only
  split <;> rfl

@[simp] theorem boundaryRole?_under : (m.under w).boundaryRole? = m.boundaryRole? := by
  unfold boundaryRole? ScopeStack.popBoundary under
  dsimp only
  split <;> rfl

@[simp] theorem returnToMatch_under : (m.under w).returnToMatch = m.returnToMatch.under w := by
  unfold returnToMatch ScopeStack.returnToMatch? under
  dsimp only
  cases m.stack.frames.dropWhile (·.role != .matchScope) <;> rfl

@[simp] theorem closePrevious_under : (m.under w).closePrevious = m.closePrevious.under w := by
  unfold closePrevious
  change (if m.closing then ({ m with closing := false }.under w).popBoundary else m.under w) = _
  rw [popBoundary_under]
  split <;> rfl

theorem closeEnd_under : (m.under w).closeEnd = (m.closeEnd.1.under w, m.closeEnd.2) := by
  unfold closeEnd
  simp only [boundaryRole?_under, popBoundary_under]
  split <;> rfl

theorem readEnd_under : (m.under w).readEnd (next.beyond w) = (m.readEnd next).under w := by
  have hafter : ∀ closed : Machine,
      (closed.under w).afterModule (next.beyond w) = (closed.afterModule next).under w := by
    intro closed
    unfold afterModule
    rw [Token.beyond_kind]
    split <;> rfl
  unfold readEnd
  simp only [closeEnd_under, hafter]
  split <;> rfl

/-- The words between declarations are read alike under all circumstances. -/
@[simp] theorem atTopLevel_under :
    (m.under w).atTopLevel (current.under w) (next.beyond w) =
      (m.atTopLevel current next).under w := by
  have hopening : ∀ mode, (m.under w).opening mode = (m.opening mode).under w := by
    intro mode
    unfold opening
    rw [closePrevious_under]
    rfl
  unfold atTopLevel
  simp only [Token.under_kind, hopening, closePrevious_under, readEnd_under]
  split <;> rfl

@[simp] theorem atSkipBalanced_under :
    (m.under w).atSkipBalanced (current.under w) (next.beyond w) =
      (m.atSkipBalanced current next).under w := by
  let counted : Machine := { m with balance := m.balance.count current.kind }
  change (if current.kind = m.skip.waited ∧ counted.balance.isEven then
      (counted.under w).goto m.skip.resume
    else if current.kind = .kwEnd then
      (counted.under w).atTopLevel (current.under w) (next.beyond w)
    else counted.under w) = _
  rw [atTopLevel_under]
  unfold atSkipBalanced
  by_cases hdone : current.kind = m.skip.waited ∧ counted.balance.isEven
  · rw [if_pos hdone, if_pos hdone]
    rfl
  · rw [if_neg hdone, if_neg hdone]
    split <;> rfl

theorem leaveType_under : (m.under w).leaveType = m.leaveType.under w := by
  unfold leaveType
  rw [popBoundary_under]
  rfl

theorem confirm_under : (m.under w).confirm = m.under (w.hear .confirmed) := by
  unfold confirm Circumstance.hear
  cases h : w.staged <;> simp [under, h, withdraw, note]

end Under

/-! ## Pushing comes last -/

section Push

variable (m : Machine) (boundary : Bool) (role : Role) (resume : Mode) (name : String)

/-- Control fields may be set before a push as well as after it. -/
theorem push_setControl (mode : Mode) (closing : Bool) :
    { m.push boundary role resume name with mode, closing } =
      { m with mode, closing }.push boundary role resume name := by
  unfold push
  dsimp only
  split <;> rfl

theorem goto_push (mode : Mode) :
    (m.push boundary role resume name).goto mode =
      (m.goto mode).push boundary role resume name := by
  unfold push goto
  dsimp only
  split <;> rfl

end Push

section Alike

variable {w w' : Circumstance} {here there : Machine}

/-- A rule that says nothing and pushes nothing. -/
theorem Alike.quiet (m : Machine) : Alike w w' (m.under w) (m.under w') :=
  .moves .nothing m

/-- A rule that says nothing before it pushes a frame. -/
theorem Alike.push (m : Machine) (boundary : Bool) (role : Role) (resume : Mode) (name : String) :
    Alike w w' ((m.under w).push boundary role resume name)
      ((m.under w').push boundary role resume name) :=
  .pushes .nothing m boundary role resume name

theorem Alike.goto (h : Alike w w' here there) (mode : Mode) :
    Alike w w' (here.goto mode) (there.goto mode) := by
  cases h with
  | moves remark m => exact .moves remark (m.goto mode)
  | pushes remark m boundary role resume name =>
      rw [goto_push, goto_push]
      exact .pushes remark (m.goto mode) boundary role resume name

theorem Alike.setControl (h : Alike w w' here there) (mode : Mode) (closing : Bool) :
    Alike w w' { here with mode, closing } { there with mode, closing } := by
  cases h with
  | moves remark m => exact .moves remark { m with mode, closing }
  | pushes remark m boundary role resume name =>
      rw [push_setControl, push_setControl]
      exact .pushes remark { m with mode, closing } boundary role resume name

theorem Alike.enterPart (m : Machine) :
    Alike w w' (m.under w).enterPart (m.under w').enterPart :=
  (Alike.push m false .valueScope .expression "").goto .bodyStart

theorem Alike.enterMatch (m : Machine) :
    Alike w w' (m.under w).enterMatch (m.under w').enterMatch :=
  (Alike.push m false .matchScope .pattern "").goto .pattern

end Alike

end Machine

end CamlIndex
