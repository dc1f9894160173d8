import Mathlib.Data.List.TakeWhile
import CamlIndex.Proofs.Language.Reading

/-!
# Frames that are left behind

The machine does not take off every frame that it pushes.  An expression may
leave marks behind, which `if` and brackets push, and a body may leave frames of
matches behind as well.  None of these is a boundary or has a name, so they
change neither the scope nor what the end of a declaration unwinds to, and all
that follows can be read over them (`Over`).

* `Reads.over` — what can be read from any frames can be read over marks;
* `Over.pop`, `Over.popToNamed`, `Over.popBoundary`, `InMatch.returnToMatch` —
  the frames that are taken off over such leftovers.
-/

namespace CamlIndex

/-! ## Conditions -/

/-- A machine in a mode with these frames that holds no constructor back. -/
structure At (mode : Mode) (frames : List Frame) (view : View) : Prop where
  mode_eq : view.mode = mode
  frames_eq : view.frames = frames
  staged_eq : view.staged = none

/-- Above the frames lie only frames that satisfy `p`. -/
def Over (p : Frame → Prop) (mode : Mode) (frames : List Frame) (view : View) : Prop :=
  ∃ left, (∀ frame ∈ left, p frame) ∧ At mode (left ++ frames) view

/-- The start of an expression, or the place behind an atom. -/
def AtStart (frames : List Frame) (view : View) : Prop :=
  At .bodyStart frames view ∨ At .expression frames view

/-- A frame that an expression may leave behind. -/
structure Frame.IsMark (frame : Frame) : Prop where
  soft : frame.boundary = false
  unnamed : frame.name = ""
  role : frame.role ≠ .matchScope
  resume : frame.resume = .expression

/-- A frame that a body may leave behind. -/
structure Frame.IsLoose (frame : Frame) : Prop where
  soft : frame.boundary = false
  unnamed : frame.name = ""
  resume : frame.role = .matchScope → frame.resume = .pattern

/-- Among the loose frames above is that of a match. -/
def InMatch (mode : Mode) (frames : List Frame) (view : View) : Prop :=
  ∃ left, (∀ frame ∈ left, frame.IsLoose) ∧ (∃ frame ∈ left, frame.role = .matchScope) ∧
    At mode (left ++ frames) view

/-- The mark where to resume. -/
def Frame.mark (resume : Mode) : Frame :=
  ⟨false, .valueScope, resume, ""⟩

theorem Frame.isMark_mark : (Frame.mark .expression).IsMark :=
  ⟨rfl, rfl, by simp [Frame.mark], rfl⟩

theorem Frame.IsMark.isLoose {frame : Frame} (h : frame.IsMark) : frame.IsLoose :=
  ⟨h.soft, h.unnamed, fun hrole => absurd hrole h.role⟩

theorem Frame.isLoose_mark (resume : Mode) : (Frame.mark resume).IsLoose :=
  ⟨rfl, rfl, by simp [Frame.mark]⟩

section Conditions

variable {p q : Frame → Prop} {mode : Mode} {frames : List Frame} {view : View}

theorem At.over (h : At mode frames view) : Over p mode frames view :=
  ⟨[], by simp, h⟩

theorem Over.mode_eq (h : Over p mode frames view) : view.mode = mode := by
  obtain ⟨_, -, hat⟩ := h
  exact hat.mode_eq

theorem InMatch.mode_eq (h : InMatch mode frames view) : view.mode = mode := by
  obtain ⟨_, -, -, hat⟩ := h
  exact hat.mode_eq

theorem Over.imp (hpq : ∀ frame, p frame → q frame) (h : Over p mode frames view) :
    Over q mode frames view := by
  obtain ⟨left, hleft, hat⟩ := h
  exact ⟨left, fun frame hframe => hpq frame (hleft frame hframe), hat⟩

theorem InMatch.over (h : InMatch mode frames view) : Over Frame.IsLoose mode frames view := by
  obtain ⟨left, hleft, -, hat⟩ := h
  exact ⟨left, hleft, hat⟩

theorem Over.append {left : List Frame} (hleft : ∀ frame ∈ left, p frame)
    (h : Over p mode (left ++ frames) view) : Over p mode frames view := by
  obtain ⟨upper, hupper, hat⟩ := h
  exact ⟨upper ++ left, List.forall_mem_append.mpr ⟨hupper, hleft⟩, by simpa using hat⟩

/-- What lies over a frame that may lie over others lies over these. -/
theorem Over.absorb {frame : Frame} (hframe : p frame) (h : Over p mode (frame :: frames) view) :
    Over p mode frames view := by
  have hone : ∀ other ∈ [frame], p other := List.forall_mem_singleton.mpr hframe
  exact Over.append hone h

theorem Scoped.over {scope : Option Scope} {left : List Frame} (h : Scoped frames scope)
    (hleft : ∀ frame ∈ left, frame.IsLoose) : Scoped (left ++ frames) scope :=
  h.marks fun frame hframe => (hleft frame hframe).unnamed

end Conditions

/-- What is read from any marks over frames is read over marks. -/
theorem Reads.each {p : Frame → Prop} {pieces : List Piece} {next : TokenKind → Prop}
    {mode : Mode} {frames : List Frame} {after : View → Prop}
    (h : ∀ left, (∀ frame ∈ left, p frame) → Reads pieces next (At mode (left ++ frames)) after) :
    Reads pieces next (Over p mode frames) after := by
  intro m tokens last hspell hnext hm hrefused
  obtain ⟨left, hleft, hat⟩ := hm
  exact h left hleft m tokens last hspell hnext hat hrefused

/-- What is read from any frames of a scope can be read over marks. -/
theorem Reads.over {pieces : List Piece} {scope : Option Scope} {mode : Mode}
    {next : TokenKind → Prop} (h : ∀ frames, Scoped frames scope →
      Reads pieces next (At mode frames) (Over Frame.IsMark .expression frames))
    {frames : List Frame} (hscoped : Scoped frames scope) :
    Reads pieces next (Over Frame.IsMark mode frames) (Over Frame.IsMark .expression frames) := by
  apply Reads.each
  intro left hleft
  have hover : Scoped (left ++ frames) scope :=
    hscoped.over fun frame hframe => (hleft frame hframe).isLoose
  exact (h _ hover).weaken fun _ hm => hm.append hleft

/-! ## Frames that are pushed and taken off -/

theorem At.mode {m : Machine} {mode : Mode} {frames : List Frame} (h : At mode frames m.view) :
    m.mode = mode :=
  h.mode_eq

theorem At.frames {m : Machine} {mode : Mode} {frames : List Frame} (h : At mode frames m.view) :
    m.stack.frames = frames :=
  h.frames_eq

theorem At.staged {m : Machine} {mode : Mode} {frames : List Frame} (h : At mode frames m.view) :
    m.staged = none :=
  h.staged_eq

section Moves

variable {m : Machine} {mode : Mode} {frames : List Frame}

theorem At.goto (h : At mode frames m.view) (other : Mode) :
    At other frames (m.goto other).view :=
  ⟨rfl, h.frames, h.staged⟩

theorem Machine.found_push (m : Machine) (boundary : Bool) (role : Role) (resume : Mode)
    (name : String) : (m.push boundary role resume name).found = m.found := by
  obtain ⟨hfindings, hstaged, -⟩ := m.push_fields boundary role resume name
  rw [found, found, hfindings, hstaged]

/-- A push that is not refused leaves the frame on the stack. -/
theorem Machine.push_of_unrefused {boundary : Bool} {role : Role} {resume : Mode} {name : String}
    (h : (m.push boundary role resume name).stack.refused = 0) :
    m.push boundary role resume name =
      { m with stack := { m.stack with
        frames := ⟨boundary, role, resume, m.stack.qualify name⟩ :: m.stack.frames } } := by
  cases hfull : m.stack.isFull with
  | true =>
      rw [m.push_of_isFull _ _ _ _ hfull] at h
      exact absurd h (Nat.succ_ne_zero _)
  | false => exact m.push_of_not_isFull _ _ _ _ hfull

theorem Machine.view_push {boundary : Bool} {role : Role} {resume : Mode} {name : String}
    (h : (m.push boundary role resume name).stack.refused = 0) :
    (m.push boundary role resume name).view = { m.view with
      frames := ⟨boundary, role, resume, m.stack.qualify name⟩ :: m.stack.frames } := by
  rw [push_of_unrefused h]
  rfl

theorem At.push (h : At mode frames m.view) {boundary : Bool} {role : Role} {resume : Mode}
    {name : String} (hrefused : (m.push boundary role resume name).stack.refused = 0) :
    At mode (⟨boundary, role, resume, m.stack.qualify name⟩ :: frames)
      (m.push boundary role resume name).view := by
  rw [Machine.push_of_unrefused hrefused]
  exact ⟨h.mode, congrArg (_ :: ·) h.frames, h.staged⟩

/-- A frame for what is declared in the scope of the frames. -/
theorem At.pushNamed (h : At mode frames m.view) {scope : Option Scope}
    (hscoped : Scoped frames scope) {boundary : Bool} {role : Role} {resume : Mode}
    {name : String} (hname : name ≠ "")
    (hrefused : (m.push boundary role resume name).stack.refused = 0) :
    At mode (.opened boundary role resume scope name :: frames)
      (m.push boundary role resume name).view := by
  have hqualified : m.stack.qualify name = scope.elim name (·.qualify name) := by
    rw [← h.frames] at hscoped
    exact hscoped.qualify hname
  rw [Frame.opened, ← hqualified]
  exact h.push hrefused

/-- A part of an expression begins over the mark where the expression resumes. -/
theorem At.enterPart (h : At mode frames m.view) (hrefused : m.enterPart.stack.refused = 0) :
    At .bodyStart (.mark .expression :: frames) m.enterPart.view ∧
      m.enterPart.found = m.found :=
  ⟨(h.push hrefused).goto .bodyStart, m.found_push _ _ _ _⟩

/-- The alternatives of a match begin over the frame of the match. -/
theorem At.enterMatch {left : List Frame} (h : At mode (left ++ frames) m.view)
    (hleft : ∀ frame ∈ left, frame.IsLoose) (hrefused : m.enterMatch.stack.refused = 0) :
    InMatch .pattern frames m.enterMatch.view ∧ m.enterMatch.found = m.found := by
  have hmatch : (⟨false, .matchScope, .pattern, ""⟩ : Frame).IsLoose := ⟨rfl, rfl, fun _ => rfl⟩
  exact ⟨⟨_ :: left, List.forall_mem_cons.mpr ⟨hmatch, hleft⟩, ⟨_, List.mem_cons_self, rfl⟩,
    (h.push hrefused).goto .pattern⟩, m.found_push _ _ _ _⟩

theorem At.pop {frame : Frame} (h : At mode (frame :: frames) m.view) :
    At frame.resume frames m.pop.view := by
  have hpop : m.stack.pop = ({ m.stack with frames := frames }, frame.resume) := by
    simp [ScopeStack.pop, h.frames]
  refine ⟨?_, ?_, h.staged⟩ <;> simp [Machine.view, Machine.pop, hpop]

/-- Taking off a mark leaves marks over the frames below it. -/
theorem Over.pop {frame : Frame} (hframe : frame.IsMark)
    (h : Over Frame.IsMark mode (frame :: frames) m.view) :
    Over Frame.IsMark .expression frames m.pop.view := by
  obtain ⟨left, hleft, hat⟩ := h
  cases left with
  | nil =>
      rw [← hframe.resume]
      exact At.over hat.pop
  | cons top left =>
      obtain ⟨htop, hleft⟩ := List.forall_mem_cons.mp hleft
      have hpopped : At top.resume (left ++ frame :: frames) m.pop.view := hat.pop
      rw [htop.resume] at hpopped
      have hover : Over Frame.IsMark .expression (frame :: frames) m.pop.view :=
        ⟨left, hleft, hpopped⟩
      exact hover.absorb hframe

/-- A mark is taken off for another one. -/
theorem Over.exchange (h : Over Frame.IsMark mode (.mark .expression :: frames) m.view)
    (hrefused : m.pop.enterPart.stack.refused = 0) :
    Over Frame.IsMark .bodyStart (.mark .expression :: frames) m.pop.enterPart.view ∧
      m.pop.enterPart.found = m.found := by
  obtain ⟨left, hleft, hat⟩ := h
  cases left with
  | nil =>
      obtain ⟨hentered, hfound⟩ := (At.pop hat).enterPart hrefused
      exact ⟨hentered.over, hfound⟩
  | cons top left =>
      obtain ⟨hentered, hfound⟩ := (At.pop hat).enterPart hrefused
      have hmarks := List.forall_mem_cons.mpr
        ⟨Frame.isMark_mark, (List.forall_mem_cons.mp hleft).2⟩
      exact ⟨⟨.mark .expression :: left, hmarks, hentered⟩, hfound⟩

theorem dropWhile_unnamed (frames : List Frame) {left : List Frame}
    (hleft : ∀ frame ∈ left, frame.IsLoose) {frame : Frame} (hframe : frame.name ≠ "") :
    (left ++ frame :: frames).dropWhile (! ·.isNamed) = frame :: frames := by
  rw [List.dropWhile_append_of_pos]
  · simp [Frame.isNamed, hframe]
  · intro other hother
    simp [Frame.isNamed, (hleft other hother).unnamed]

/-- Taking off frames to the innermost name takes off loose frames and that one. -/
theorem Over.popToNamed {frame : Frame} (hframe : frame.name ≠ "")
    (h : Over Frame.IsLoose mode (frame :: frames) m.view) :
    At frame.resume frames m.popToNamed.view := by
  obtain ⟨left, hleft, hat⟩ := h
  have hdrop := dropWhile_unnamed frames hleft hframe
  rw [← hat.frames] at hdrop
  refine ⟨?_, ?_, hat.staged⟩ <;>
    simp [Machine.view, Machine.popToNamed, ScopeStack.popToNamed, hdrop]

theorem dropWhile_soft (frames : List Frame) {left : List Frame}
    (hleft : ∀ frame ∈ left, frame.IsLoose) {frame : Frame} (hframe : frame.boundary = true) :
    (left ++ frame :: frames).dropWhile (! ·.boundary) = frame :: frames := by
  rw [List.dropWhile_append_of_pos]
  · simp [hframe]
  · intro other hother
    simp [(hleft other hother).soft]

/-- Taking off frames to the innermost boundary takes off loose frames and that one. -/
theorem Over.popBoundary {frame : Frame} (hframe : frame.boundary = true)
    (h : Over Frame.IsLoose mode (frame :: frames) m.view) :
    m.boundaryRole? = some frame.role ∧ At frame.resume frames m.popBoundary.view := by
  obtain ⟨left, hleft, hat⟩ := h
  have hdrop := dropWhile_soft frames hleft hframe
  rw [← hat.frames] at hdrop
  refine ⟨?_, ?_, ?_, hat.staged⟩ <;>
    simp [Machine.view, Machine.boundaryRole?, Machine.popBoundary, ScopeStack.popBoundary, hdrop]

/-- The next alternative goes back to the frame of the match. -/
theorem InMatch.returnToMatch (h : InMatch mode frames m.view) :
    InMatch .pattern frames m.returnToMatch.view ∧ m.returnToMatch.found = m.found := by
  obtain ⟨left, hleft, ⟨frame, hframe, hrole⟩, hat⟩ := h
  have hkept : ∃ other inner, left.dropWhile (·.role != .matchScope) = other :: inner ∧
      other.role = .matchScope := by
    cases hdrop : left.dropWhile (·.role != .matchScope) with
    | nil =>
        have := List.dropWhile_eq_nil_iff.mp hdrop frame hframe
        simp [hrole] at this
    | cons other inner =>
        have := List.head?_dropWhile_not (·.role != .matchScope) left
        rw [hdrop] at this
        exact ⟨other, inner, rfl, by simpa using this⟩
  obtain ⟨other, inner, hdrop, hmatch⟩ := hkept
  have hloose : ∀ frame ∈ other :: inner, frame.IsLoose := by
    intro frame hframe
    rw [← hdrop] at hframe
    exact hleft frame ((List.dropWhile_sublist _).subset hframe)
  have hwhole : m.stack.frames.dropWhile (·.role != .matchScope) = other :: (inner ++ frames) := by
    rw [hat.frames, List.dropWhile_append, hdrop]
    rfl
  have hreturned : m.returnToMatch =
      { m with stack := { m.stack with frames := other :: (inner ++ frames) },
               mode := other.resume } := by
    simp [Machine.returnToMatch, ScopeStack.returnToMatch?, hwhole]
  rw [hreturned]
  refine ⟨⟨other :: inner, hloose, ⟨other, by simp, hmatch⟩, ?_, rfl, hat.staged⟩, rfl⟩
  exact (hloose other (by simp)).resume hmatch

end Moves

end CamlIndex
