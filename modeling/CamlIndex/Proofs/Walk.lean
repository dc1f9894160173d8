import CamlIndex.Proofs.Sliding

/-!
# What happens to the stack of a machine

A machine takes frames off in four ways and puts them on in one.  Taking off leaves
outer frames and goes on where one of the frames says, or at the top level (`Unwound`).
Putting on adds a frame that has a right form (`Frame.IsProper`), if there is room.

A `Walk` is a way from one machine to another on which these are the only things that
happen to the stack, and on which nothing is announced.
-/

namespace CamlIndex

/-- The frames that rules push: a boundary resumes the top level unless it is a
block or an object, and a match is neither a boundary nor a scope. -/
structure Frame.IsProper (boundary : Bool) (role : Role) (resume : Mode) (name : String) :
    Prop where
  resume_of_boundary : boundary = true →
    resume = .topLevel ∨
      resume = .expression ∧ name = "" ∧ (role = .blockScope ∨ role = .classScope)
  resume_of_soft : boundary = false →
    resume = .expression ∨ resume = .bodyStart ∨ resume = .pattern
  match_soft : role = .matchScope → boundary = false ∧ resume = .pattern ∧ name = ""
  block_unnamed : role = .blockScope → name = ""

namespace Machine

/-! ## Taking off -/

/-- A machine that has only taken off frames: outer frames are left, and the machine goes on
at the top level or where a frame says. -/
inductive Unwound (m : Machine) : Machine → Prop
  | intro {frames : List Frame} {mode : Mode} (suffix : frames <:+ m.stack.frames)
      (resumes : mode = .topLevel ∨ ∃ frame ∈ m.stack.frames, mode = frame.resume) :
      Unwound m { m with stack := { m.stack with frames }, mode }

section Unwinding

variable (m : Machine)

/-- Behind the frames that are passed over, one frame more may go. -/
theorem unwound_of_dropWhile {p : Frame → Bool} {frame : Frame} {outer : List Frame}
    (hdrop : m.stack.frames.dropWhile p = frame :: outer) {frames : List Frame}
    (hframes : frames <:+ frame :: outer) :
    Unwound m { m with stack := { m.stack with frames }, mode := frame.resume } := by
  have hsuffix := List.dropWhile_suffix (l := m.stack.frames) p
  rw [hdrop] at hsuffix
  exact .intro (hframes.trans hsuffix) (.inr ⟨frame, hsuffix.subset List.mem_cons_self, rfl⟩)

theorem unwound_popToNamed : Unwound m m.popToNamed := by
  unfold popToNamed ScopeStack.popToNamed
  split
  · exact .intro (List.nil_suffix) (.inl rfl)
  · next frame outer hdrop => exact m.unwound_of_dropWhile hdrop (List.suffix_cons frame outer)

theorem unwound_pop : Unwound m m.pop := by
  unfold pop ScopeStack.pop
  split
  · exact .intro (List.suffix_refl _) (.inl rfl)
  · next frame outer hframes =>
      have hsuffix : outer <:+ m.stack.frames := hframes ▸ List.suffix_cons frame outer
      exact .intro hsuffix (.inr ⟨frame, hframes ▸ List.mem_cons_self, rfl⟩)

theorem unwound_popBoundary : Unwound m m.popBoundary := by
  unfold popBoundary ScopeStack.popBoundary
  split
  · exact .intro (List.nil_suffix) (.inl rfl)
  · next frame outer hdrop => exact m.unwound_of_dropWhile hdrop (List.suffix_cons frame outer)

/-- Where there is no match to return to nothing happens. -/
theorem unwound_returnToMatch : m.returnToMatch = m ∨ Unwound m m.returnToMatch := by
  unfold returnToMatch ScopeStack.returnToMatch?
  cases hdrop : m.stack.frames.dropWhile (·.role != .matchScope) with
  | nil => exact .inl rfl
  | cons frame outer => exact .inr (m.unwound_of_dropWhile hdrop (List.suffix_refl _))

end Unwinding

/-! ## Putting on -/

section Push

variable (m : Machine) (boundary : Bool) (role : Role) (resume : Mode) (name : String)

theorem push_of_isFull (h : m.stack.isFull = true) :
    m.push boundary role resume name =
      { m with stack := { m.stack with refused := m.stack.refused + 1 } }.note
        (.refused m.offset) := by
  simp [push, ScopeStack.push, h]

theorem push_of_not_isFull (h : m.stack.isFull = false) :
    m.push boundary role resume name =
      { m with stack := { m.stack with
        frames := ⟨boundary, role, resume, m.stack.qualify name⟩ :: m.stack.frames } } := by
  simp [push, ScopeStack.push, h]

end Push

/-! ## Walks -/

/-- A way from one machine to another that announces nothing and pushes at most
`room` frames. -/
inductive Walk (m : Machine) : (room : Nat) → Machine → Prop
  | start {room : Nat} : Walk m room m
  /-- Only fields beside the stack, the notes and the constructor held back change. -/
  | control {room : Nat} {before after : Machine} (walk : Walk m room before)
      (stack : after.stack = before.stack) (notes : after.notes = before.notes)
      (staged : after.staged = before.staged) (offset : after.offset = before.offset) :
      Walk m room after
  | push {room : Nat} {before : Machine} {boundary : Bool} {role : Role} {resume : Mode}
      {name : String} (walk : Walk m room before)
      (proper : Frame.IsProper boundary role resume name) :
      Walk m (room + 1) (before.push boundary role resume name)
  | popToNamed {room : Nat} {before : Machine} (walk : Walk m room before) :
      Walk m room before.popToNamed
  | pop {room : Nat} {before : Machine} (walk : Walk m room before) : Walk m room before.pop
  | popBoundary {room : Nat} {before : Machine} (walk : Walk m room before) :
      Walk m room before.popBoundary
  | returnToMatch {room : Nat} {before : Machine} (walk : Walk m room before) :
      Walk m room before.returnToMatch

/-! ## Frames that rules push -/

/-- A mark is a proper frame wherever it resumes inside an expression. -/
theorem isProper_mark {resume : Mode}
    (h : resume = .expression ∨ resume = .bodyStart ∨ resume = .pattern) :
    Frame.IsProper false .valueScope resume "" := by
  constructor <;> simp_all

theorem isProper_block : Frame.IsProper true .blockScope .expression "" := by
  constructor <;> simp

theorem isProper_object : Frame.IsProper true .classScope .expression "" := by
  constructor <;> simp

theorem isProper_match : Frame.IsProper false .matchScope .pattern "" := by
  constructor <;> simp

/-- The word `try` gives its name to the scope that it opens. -/
theorem isProper_try {name : String} : Frame.IsProper false .functionScope .pattern name := by
  constructor <;> simp

/-- The scope of a local binding is a proper frame. -/
theorem isProper_local {role : Role} (name : String)
    (h : role = .functionScope ∨ role = .valueScope) :
    Frame.IsProper false role .bodyStart name := by
  constructor <;> grind

/-- The boundary of a declaration is a proper frame. -/
theorem isProper_boundary {role : Role} (name : String)
    (h : role ≠ .matchScope ∧ role ≠ .blockScope) :
    Frame.IsProper true role .topLevel name := by
  constructor <;> grind

end Machine

end CamlIndex
