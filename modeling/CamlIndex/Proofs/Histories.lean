import CamlIndex.ScopeStack
import Mathlib.Data.List.Induction

/-!
# Stacks of scopes and their histories

A stack of scopes may be used in any way at all: frames of any sort are pushed,
and frames are taken off in five ways that stop at five different places.  A
*history* is any sequence of such operations on the stack without frames.

The name of a frame is made once, from the frames that are there when it is
pushed.  It stays right because of how little an operation can do to a frame
that stays (`frames_apply`): it is not changed, and what lies below it is not
touched either.  So whatever a frame has below it now lay there already when it
was pushed (`exists_heldSince`), and the name says so.

* `frames_apply` — an operation takes innermost frames off or puts one on;
* `exists_heldSince` — every frame has been there, with all that is below it,
  since some push;
* `history_sound` — what is true of a stack after every history: its size, its
  count of refusals, what the next operation can do, and the names of its frames.
-/

namespace CamlIndex

namespace ScopeStack

/-- Something that is done to a stack.  A push without a name, or with the empty
one, makes a mark. -/
inductive Operation where
  | push (boundary : Bool) (role : Role) (resume : Mode) (name : Option String)
  /-- The frame of a declaration, after which the top level resumes. -/
  | pushBoundary (role : Role) (name : Option String)
  /-- A frame that lives inside an expression. -/
  | pushSoft (resume : Mode) (role : Role) (name : Option String)
  | pushMark (resume : Mode)
  | popToNamed
  | pop
  | popBoundary
  | returnToMatch
  | clear
  deriving DecidableEq, Repr

/-- The frame that a push asks for, under the name that it gives. -/
def Operation.asked? : Operation → Option Frame
  | .push boundary role resume name => some ⟨boundary, role, resume, name.getD ""⟩
  | .pushBoundary role name => some ⟨true, role, .topLevel, name.getD ""⟩
  | .pushSoft resume role name => some ⟨false, role, resume, name.getD ""⟩
  | .pushMark resume => some ⟨false, .valueScope, resume, ""⟩
  | .popToNamed | .pop | .popBoundary | .returnToMatch | .clear => none

/-- The stack after an operation. -/
def apply (stack : ScopeStack) (operation : Operation) : ScopeStack :=
  match operation with
  | .push boundary role resume name => stack.push boundary role resume (name.getD "")
  | .pushBoundary role name => stack.push true role .topLevel (name.getD "")
  | .pushSoft resume role name => stack.push false role resume (name.getD "")
  | .pushMark resume => stack.push false .valueScope resume ""
  | .popToNamed => stack.popToNamed.1
  | .pop => stack.pop.1
  | .popBoundary => stack.popBoundary.1
  | .returnToMatch => (stack.returnToMatch?.map Prod.fst).getD stack
  | .clear => stack.clear

/-- What a push answers: whether there was room for its frame. -/
def Operation.answer? (operation : Operation) (stack : ScopeStack) : Option Bool :=
  operation.asked?.map fun _ => !stack.isFull

/-- The stack after a history. -/
def after (capacity : Nat) (history : List Operation) : ScopeStack :=
  history.foldl apply (empty capacity)

/-- How many of some operations on a stack are pushes that answer `false`. -/
def refusalsOver (stack : ScopeStack) : List Operation → Nat
  | [] => 0
  | operation :: later =>
    (if operation.answer? stack = some false then 1 else 0)
      + (stack.apply operation).refusalsOver later

/-- What is pushed with a name has one. -/
theorem qualify_ne_empty (stack : ScopeStack) {name : String} (hname : name ≠ "") :
    stack.qualify name ≠ "" := by
  have hempty : name.isEmpty = false := by simpa using hname
  unfold ScopeStack.qualify
  rw [hempty]
  cases stack.nearestNamed? with
  | none => exact hname
  | some frame =>
      intro h
      have := congrArg String.length h
      simp [Frame.qualify] at this

/-! ## One operation -/

section Apply

variable (stack : ScopeStack) {operation : Operation}

theorem apply_of_asked {frame : Frame} (h : operation.asked? = some frame) :
    stack.apply operation = stack.push frame.boundary frame.role frame.resume frame.name := by
  cases operation <;> cases h <;> rfl

theorem apply_of_full {frame : Frame} (h : operation.asked? = some frame)
    (hfull : stack.isFull = true) :
    stack.apply operation = { stack with refused := stack.refused + 1 } := by
  rw [stack.apply_of_asked h, push, if_pos hfull]

theorem apply_of_room {frame : Frame} (h : operation.asked? = some frame)
    (hroom : stack.isFull = false) :
    stack.apply operation =
      { stack with frames := { frame with name := stack.qualify frame.name } :: stack.frames } := by
  rw [stack.apply_of_asked h, push, if_neg (by simp [hroom])]

/-- Frames below one that was searched for and found. -/
theorem suffix_of_dropWhile {p : Frame → Bool} {frames outer : List Frame} {frame : Frame}
    (h : frames.dropWhile p = frame :: outer) : outer <:+ frames :=
  (List.suffix_cons frame outer).trans (h ▸ List.dropWhile_suffix p)

/-- What is no push only takes innermost frames off, and clearing the stack forgets
all refusals. -/
theorem apply_of_unasked (h : operation.asked? = none) :
    ∃ frames, frames <:+ stack.frames ∧ stack.apply operation =
      { stack with frames, refused := if operation = .clear then 0 else stack.refused } := by
  cases operation with
  | push | pushBoundary | pushSoft | pushMark => cases h
  | popToNamed =>
      unfold apply popToNamed
      dsimp only
      split
      · exact ⟨[], List.nil_suffix, rfl⟩
      · next frame outer hdrop => exact ⟨outer, suffix_of_dropWhile hdrop, rfl⟩
  | pop =>
      unfold apply pop
      dsimp only
      split
      · exact ⟨stack.frames, List.suffix_refl _, rfl⟩
      · next frame outer hframes => exact ⟨outer, hframes ▸ List.suffix_cons frame outer, rfl⟩
  | popBoundary =>
      unfold apply popBoundary
      dsimp only
      split
      · exact ⟨[], List.nil_suffix, rfl⟩
      · next frame outer hdrop => exact ⟨outer, suffix_of_dropWhile hdrop, rfl⟩
  | returnToMatch =>
      unfold apply returnToMatch?
      dsimp only
      split
      · exact ⟨stack.frames, List.suffix_refl _, rfl⟩
      · next frame outer hdrop => exact ⟨frame :: outer, hdrop ▸ List.dropWhile_suffix _, rfl⟩
  | clear => exact ⟨[], List.nil_suffix, rfl⟩

/-- What is no push takes innermost frames off, or none. -/
theorem frames_apply_suffix (h : operation.asked? = none) :
    (stack.apply operation).frames <:+ stack.frames := by
  obtain ⟨frames, hframes, happly⟩ := stack.apply_of_unasked h
  rw [happly]
  exact hframes

/-- The capacity is for good. -/
@[simp] theorem capacity_apply : (stack.apply operation).capacity = stack.capacity := by
  cases hasked : operation.asked? with
  | none =>
      obtain ⟨frames, -, happly⟩ := stack.apply_of_unasked hasked
      rw [happly]
  | some frame =>
      cases hfull : stack.isFull with
      | true => rw [stack.apply_of_full hasked hfull]
      | false => rw [stack.apply_of_room hasked hfull]

/-- **Off or on.**  An operation takes innermost frames off, or it is a push that
finds room and puts its frame, under its qualified name, on the others. -/
theorem frames_apply (operation : Operation) :
    (stack.apply operation).frames <:+ stack.frames ∨
      ∃ frame, operation.asked? = some frame ∧ operation.answer? stack = some true ∧
        (stack.apply operation).frames =
          { frame with name := stack.qualify frame.name } :: stack.frames := by
  cases hasked : operation.asked? with
  | none => exact .inl (stack.frames_apply_suffix hasked)
  | some frame =>
      cases hfull : stack.isFull with
      | true =>
          rw [stack.apply_of_full hasked hfull]
          exact .inl (List.suffix_refl _)
      | false =>
          rw [stack.apply_of_room hasked hfull]
          exact .inr ⟨frame, rfl, by simp [Operation.answer?, hasked, hfull], rfl⟩

/-- Only a push that answers `false` adds to the refusals. -/
theorem refused_apply_of_ne_clear (h : operation ≠ .clear) :
    (stack.apply operation).refused =
      stack.refused + if operation.answer? stack = some false then 1 else 0 := by
  cases hasked : operation.asked? with
  | none =>
      obtain ⟨frames, -, happly⟩ := stack.apply_of_unasked hasked
      simp [happly, h, Operation.answer?, hasked]
  | some frame =>
      cases hfull : stack.isFull with
      | true => simp [stack.apply_of_full hasked hfull, Operation.answer?, hasked, hfull]
      | false => simp [stack.apply_of_room hasked hfull, Operation.answer?, hasked, hfull]

end Apply

/-! ## Histories -/

section History

variable (capacity : Nat) (history : List Operation)

theorem after_append (later : List Operation) :
    after capacity (history ++ later) = later.foldl apply (after capacity history) :=
  List.foldl_append

theorem after_concat (operation : Operation) :
    after capacity (history ++ [operation]) = (after capacity history).apply operation :=
  after_append capacity history [operation]

@[simp] theorem capacity_after : (after capacity history).capacity = capacity := by
  induction history using List.reverseRecOn with
  | nil => rfl
  | append_singleton history operation ih => rw [after_concat, capacity_apply, ih]

/-- No history gets more frames onto a stack than it may hold. -/
theorem length_frames_after_le : (after capacity history).frames.length ≤ capacity := by
  induction history using List.reverseRecOn with
  | nil => exact Nat.zero_le _
  | append_singleton history operation ih =>
      rw [after_concat]
      rcases (after capacity history).frames_apply operation with
        hoff | ⟨frame, -, hanswer, hon⟩
      · exact Nat.le_trans hoff.length_le ih
      · have hroom : (after capacity history).isFull = false := by
          obtain ⟨-, -, hroom⟩ := Option.map_eq_some_iff.mp hanswer
          simpa using hroom
        have hlt : (after capacity history).frames.length < capacity := by
          simpa [isFull] using hroom
        rw [hon, List.length_cons]
        exact hlt

/-- Operations that do not clear the stack add their refusals to those before. -/
theorem refused_foldl {later : List Operation} (h : .clear ∉ later) (stack : ScopeStack) :
    (later.foldl apply stack).refused = stack.refused + stack.refusalsOver later := by
  induction later generalizing stack with
  | nil => rfl
  | cons operation later ih =>
      simp only [List.mem_cons, not_or] at h
      rw [List.foldl_cons, ih h.2, stack.refused_apply_of_ne_clear (Ne.symm h.1), refusalsOver,
        Nat.add_assoc]

/-- A stack without refusals: the first one, and every stack just cleared. -/
theorem refused_of_cleared {earlier : List Operation}
    (h : earlier = [] ∨ earlier.getLast? = some .clear) :
    (after capacity earlier).refused = 0 := by
  rcases h with rfl | h
  · rfl
  · obtain ⟨before, rfl⟩ := List.getLast?_eq_some_iff.mp h
    rw [after_concat]
    rfl

/-- Every history falls in two behind its last clearing. -/
theorem exists_split_cleared :
    ∃ earlier later, history = earlier ++ later ∧
      (earlier = [] ∨ earlier.getLast? = some .clear) ∧ .clear ∉ later := by
  induction history using List.reverseRecOn with
  | nil => exact ⟨[], [], rfl, .inl rfl, List.not_mem_nil⟩
  | append_singleton history operation ih =>
      obtain ⟨earlier, later, rfl, hcleared, hlater⟩ := ih
      by_cases hclear : operation = .clear
      · exact ⟨earlier ++ later ++ [operation], [], by simp, .inr (by simp [hclear]),
          List.not_mem_nil⟩
      · exact ⟨earlier, later ++ [operation], by simp, hcleared,
          by simp [hlater, Ne.symm hclear]⟩

/-- A frame is held, on the frames that are below it, since it was pushed under
the name `own`. -/
def HeldSince (frame : Frame) (below : List Frame) (own : String) : Prop :=
  ∃ earlier operation later asked,
    history = earlier ++ operation :: later ∧ operation.asked? = some asked ∧ asked.name = own ∧
      (after capacity earlier).frames = below ∧
      ∀ front back, later = front ++ back →
        frame :: below <:+ (after capacity (earlier ++ operation :: front)).frames

variable {capacity history}

/-- What is still there after one more operation has been held a little longer. -/
theorem HeldSince.concat {frame : Frame} {below : List Frame} {own : String}
    (h : HeldSince capacity history frame below own) {operation : Operation}
    (hthere : frame :: below <:+ (after capacity (history ++ [operation])).frames) :
    HeldSince capacity (history ++ [operation]) frame below own := by
  obtain ⟨earlier, pushed, later, asked, rfl, hasked, hown, hbelow, hheld⟩ := h
  refine ⟨earlier, pushed, later ++ [operation], asked, by simp, hasked, hown, hbelow, ?_⟩
  intro front back hsplit
  rcases List.eq_nil_or_concat back with rfl | ⟨back, last, rfl⟩
  · rw [List.append_nil] at hsplit
    rw [← hsplit, ← List.cons_append, ← List.append_assoc]
    exact hthere
  · rw [List.concat_eq_append, ← List.append_assoc] at hsplit
    exact hheld front back (List.append_inj_left' hsplit rfl)

/-- The name that a frame gets from the frames below it and from its own name. -/
def nameOver (below : List Frame) (own : String) : String :=
  if own.isEmpty then "" else (below.find? Frame.isNamed).elim own (·.qualify own)

/-- **Frames stay what they were.**  Every frame has been there, with all that is
below it, since some push, and has had its name since. -/
theorem exists_heldSince {frame : Frame} {below : List Frame}
    (h : frame :: below <:+ (after capacity history).frames) :
    ∃ own, HeldSince capacity history frame below own ∧ frame.name = nameOver below own := by
  induction history using List.reverseRecOn with
  | nil => cases List.suffix_nil.mp h
  | append_singleton history operation ih =>
      have hstill : frame :: below <:+ (after capacity history).frames →
          ∃ own, HeldSince capacity (history ++ [operation]) frame below own ∧
            frame.name = nameOver below own := by
        intro hbefore
        obtain ⟨own, hheld, hname⟩ := ih hbefore
        exact ⟨own, hheld.concat h, hname⟩
      have happly := h
      rw [after_concat] at happly
      rcases (after capacity history).frames_apply operation with
        hoff | ⟨asked, hasked, -, hon⟩
      · exact hstill (happly.trans hoff)
      · rw [hon] at happly
        rcases List.suffix_cons_iff.mp happly with hnew | hbefore
        · -- the frame is the one that this operation has put there
          obtain ⟨rfl, rfl⟩ := List.cons.inj hnew
          refine ⟨asked.name, ⟨history, operation, [], asked, rfl, hasked, rfl, rfl, ?_⟩, rfl⟩
          intro front back hsplit
          obtain ⟨rfl, -⟩ := List.append_eq_nil_iff.mp hsplit.symm
          exact h
        · exact hstill hbefore

end History

/-! ## What holds after every history -/

/-- What can be relied on after a history, whatever it is. -/
structure Sound (capacity : Nat) (history : List Operation) : Prop where
  length_le : (after capacity history).frames.length ≤ capacity
  /-- The refusals counted are the pushes that answered `false`, from the last
  clearing on. -/
  refused : ∃ earlier later, history = earlier ++ later ∧
    (earlier = [] ∨ earlier.getLast? = some .clear) ∧ .clear ∉ later ∧
    (after capacity history).refused = (after capacity earlier).refusalsOver later
  /-- Any next operation takes innermost frames off or puts one frame on. -/
  next : ∀ operation, (after capacity (history ++ [operation])).frames <:+
      (after capacity history).frames ∨
    ∃ frame, (after capacity (history ++ [operation])).frames =
      frame :: (after capacity history).frames
  /-- A push puts its frame on if and only if it answers `true`. -/
  answer : ∀ operation, operation.answer? (after capacity history) = some true ↔
    (after capacity (history ++ [operation])).frames.length =
      (after capacity history).frames.length + 1
  /-- A named frame was pushed under a name of its own.  Its name is this one, behind
  the name and the separator of the innermost named frame below it, if there is one. -/
  named : ∀ frame below, frame :: below <:+ (after capacity history).frames →
    frame.isNamed = true →
    ∃ own, own ≠ "" ∧ HeldSince capacity history frame below own ∧
      (∀ parent, below.find? Frame.isNamed = some parent →
        frame.name = parent.name ++ String.singleton parent.role.separator ++ own) ∧
      (below.find? Frame.isNamed = none → frame.name = own)

theorem qualify_eq (parent : Frame) (own : String) :
    parent.qualify own = parent.name ++ String.singleton parent.role.separator ++ own := by
  rw [Frame.qualify, ← String.toList_inj]
  simp

/-- **Stacks of scopes are sound** after every history. -/
theorem history_sound (capacity : Nat) (history : List Operation) : Sound capacity history where
  length_le := length_frames_after_le capacity history
  refused := by
    obtain ⟨earlier, later, rfl, hcleared, hlater⟩ := exists_split_cleared history
    refine ⟨earlier, later, rfl, hcleared, hlater, ?_⟩
    rw [after_append, refused_foldl hlater, refused_of_cleared capacity hcleared, Nat.zero_add]
  next := by
    intro operation
    rw [after_concat]
    rcases (after capacity history).frames_apply operation with hoff | ⟨frame, -, -, hon⟩
    · exact .inl hoff
    · exact .inr ⟨_, hon⟩
  answer := by
    intro operation
    rw [after_concat]
    constructor
    · intro hanswer
      obtain ⟨frame, hasked, hroom⟩ := Option.map_eq_some_iff.mp hanswer
      rw [apply_of_room _ hasked (by simpa using hroom), List.length_cons]
    · intro hlonger
      rcases (after capacity history).frames_apply operation with hoff | ⟨_, -, hanswer, -⟩
      · have := hoff.length_le
        omega
      · exact hanswer
  named := by
    intro frame below hthere hnamed
    obtain ⟨own, hheld, hname⟩ := exists_heldSince hthere
    have hown : own ≠ "" := by
      rintro rfl
      simp [Frame.isNamed, hname, nameOver] at hnamed
    refine ⟨own, hown, hheld, ?_, ?_⟩
    · intro parent hparent
      simp [hname, nameOver, hown, hparent, qualify_eq]
    · intro hnone
      simp [hname, nameOver, hown, hnone]

end ScopeStack

end CamlIndex
