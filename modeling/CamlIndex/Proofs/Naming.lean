import CamlIndex.Proofs.Finding
import CamlIndex.Proofs.Histories

/-!
# What is put on the stack

A rule takes frames off and puts a frame on.  Where it does the latter it gives the
frame a name of its own, under which the frame is qualified by the frames below it.
This own name is nothing new: it is empty, the sign `()`, the text of the token being
read, or the name of the last module header or class header, which the machine has
remembered.  So what is true of every frame that may be pushed (`FrameProperty`) is
true of every frame that there is.

Not every token gives its text to a frame.  A literal does so only right behind a
`let` (`Machine.Binds`): there every token is taken for the name of the binding,
while the other rules that name something wait for a word.

* `Course.obeys` — every move of a rule keeps what is true of all frames;
* `Obeys.step` — so does a step, and nothing but the token that is read matters.
-/

namespace CamlIndex

/-- What is to be true of frames, each together with the frames below it.  It is true
of every frame that is pushed under a name of a certain sort. -/
structure FrameProperty where
  /-- Names under which frames are pushed. -/
  Own : String → Prop
  Holds : Frame → List Frame → Prop
  empty : Own ""
  unit : Own "()"
  pushed : ∀ (boundary : Bool) (role : Role) (resume : Mode) {own : String} (below : List Frame),
    Own own → Holds ⟨boundary, role, resume, ScopeStack.nameOver below own⟩ below

namespace Machine

/-- All frames have a property, and the names that are remembered may be pushed. -/
structure Obeys (property : FrameProperty) (m : Machine) : Prop where
  frames : ∀ {frame : Frame} {below : List Frame}, frame :: below <:+ m.stack.frames →
    property.Holds frame below
  moduleName : property.Own m.moduleName
  className : property.Own m.className

/-! ## Moves -/

section Moves

variable {property : FrameProperty} {m : Machine}

/-- A frame may be pushed if it has the property where it comes to lie. -/
theorem Obeys.push (h : Obeys property m) {boundary : Bool} {role : Role} {resume : Mode}
    {name : String}
    (hframe : property.Holds ⟨boundary, role, resume, m.stack.qualify name⟩ m.stack.frames) :
    Obeys property (m.push boundary role resume name) := by
  cases hfull : m.stack.isFull with
  | true =>
      rw [push_of_isFull _ _ _ _ _ hfull]
      exact ⟨h.frames, h.moduleName, h.className⟩
  | false =>
      rw [push_of_not_isFull _ _ _ _ _ hfull]
      refine ⟨fun hsuffix => ?_, h.moduleName, h.className⟩
      rcases List.suffix_cons_iff.mp hsuffix with hnew | hold
      · cases hnew
        exact hframe
      · exact h.frames hold

/-- **Every move keeps what is true of all frames**, if the token may give its text to a
frame, and if a literal may do so where it is bound. -/
theorem Course.obeys {token : Token} {room : Nat} {after : Machine}
    (course : Course token m room after) (h : Obeys property m)
    (hname : token.kind ≠ .literal → property.Own token.text)
    (hliteral : m.Binds token → ∀ boundary role resume,
      property.Holds ⟨boundary, role, resume, m.stack.qualify token.text⟩ m.stack.frames) :
    Obeys property after := by
  have hknown : ∀ {name}, name = "" ∨ token.kind ≠ .literal ∧ name = token.text →
      property.Own name := by
    rintro _ (rfl | ⟨hkind, rfl⟩)
    · exact property.empty
    · exact hname hkind
  refine course.keeps h ?_ ?_ ?_
  · intro before after h change
    cases change with
    | setModuleName known => exact ⟨h.frames, hknown known, h.className⟩
    | setClassName known => exact ⟨h.frames, h.moduleName, hknown known⟩
    | _ => exact ⟨h.frames, h.moduleName, h.className⟩
  · intro before boundary role resume name h _ lends
    apply h.push
    cases lends with
    | nothing => exact property.pushed _ _ _ _ property.empty
    | unit => exact property.pushed _ _ _ _ property.unit
    | word kind => exact property.pushed _ _ _ _ (hname kind)
    | literal binds stack =>
        rw [stack]
        exact hliteral binds boundary role resume
    | moduleName => exact property.pushed _ _ _ _ h.moduleName
    | className => exact property.pushed _ _ _ _ h.className
  · rintro before _ h ⟨hsuffix, -⟩
    exact ⟨fun hframe => h.frames (hframe.trans hsuffix), h.moduleName, h.className⟩

end Moves

/-- **Every token keeps what is true of all frames.** -/
theorem Obeys.step {property : FrameProperty} {m : Machine} (h : Obeys property m)
    (current next : Token) (hname : current.kind ≠ .literal → property.Own current.text)
    (hliteral : m.Binds current → ∀ boundary role resume,
      property.Holds ⟨boundary, role, resume, m.stack.qualify current.text⟩ m.stack.frames) :
    Obeys property (m.step current next) := by
  obtain ⟨_, _, _, _, _, hcourse⟩ := dispatched_course m current next
  have hdispatched : Obeys property (m.dispatched current next) :=
    hcourse.obeys ⟨h.frames, h.moduleName, h.className⟩ hname hliteral
  rw [step_dispatched]
  split
  · exact hdispatched
  · exact ⟨hdispatched.frames, hdispatched.moduleName, hdispatched.className⟩

end Machine

end CamlIndex
