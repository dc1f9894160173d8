import CamlIndex.Proofs.Histories
import CamlIndex.Proofs.Pointing

/-!
# What is remembered for later

A rule leaves behind where reading is to go on, and much later another rule goes
there without asking who has left it.  Frames remember a mode, the machine remembers
one for the next `and`, and a skip remembers what it waits for and what follows.

The targets of a skip are there all the time, though they mean something only while
tokens are skipped, and five modes share them.  An old target does no harm as long as
no mode of skipping is ever returned to: then such a mode is only entered by a word
that sets all that the mode looks at.  So what has to be shown is that frames, skips
and an `and` lead to other modes (`Machine.Regular`), and that a body of a class is
never reached without a name for it (`Machine.Disciplined`).

Both are shown of two machines at once.  A second machine may remember any other
targets, as long as its mode does not look at them (`Machine.Conceals`), and the two
stay alike but for such targets, whatever is read.

* `Conceals.dispatch`, `Conceals.step`, `Conceals.readAll` — every rule, a token, a run;
* `keeps_discipline` — what holds of every machine that is reached in a text.
-/

namespace CamlIndex

/-- The modes that frames resume. -/
def Frame.resumed : List Mode :=
  [.topLevel, .expression, .bodyStart, .pattern]

/-- What every frame on the stack is like, whoever has pushed it.  Only blocks and
objects are boundaries inside of expressions. -/
structure Frame.IsRegular (frame : Frame) : Prop where
  resumes : frame.resume ∈ Frame.resumed
  ofBoundary : frame.boundary = true → frame.resume =
    if frame.role = .blockScope ∨ (frame.role = .classScope ∧ frame.isNamed = false)
    then .expression else .topLevel
  ofMatch : frame.role = .matchScope →
    frame.boundary = false ∧ frame.isNamed = false ∧ frame.resume = .pattern

/-- The modes that an `and` between declarations returns to. -/
def Mode.repeated : List Mode :=
  [.topLevel, .letName, .typeName, .className, .moduleName]

/-- Neither a mode of skipping nor the body of a class, for which a name is needed. -/
def Mode.isPlain (mode : Mode) : Bool :=
  !mode.isSkip && mode != .classBody

/-- The targets that a mode looks at, the others set back. -/
def Skip.seenIn (skip : Skip) : Mode → Skip
  | .skipUntil | .skipBalanced | .skipOpen => { waited := skip.waited, resume := skip.resume }
  | .skipOpenTo => skip
  | .skipOne => { resume := skip.resume }
  | _ => {}

theorem Mode.isSkip_of_isPlain {mode : Mode} (h : mode.isPlain = true) : mode.isSkip = false := by
  cases mode <;> first | rfl | cases h

theorem Mode.ne_classBody_of_isPlain {mode : Mode} (h : mode.isPlain = true) :
    mode ≠ .classBody := by
  rintro rfl
  cases h

/-- Outside of skipping no targets are looked at. -/
theorem Skip.seenIn_eq {mode : Mode} (h : mode.isSkip = false) (skip : Skip) :
    skip.seenIn mode = {} := by
  cases mode <;> first | rfl | cases h

/-- While tokens are skipped it is looked at where to go on. -/
theorem Skip.resume_eq {mode : Mode} (h : mode.isSkip = true) {a b : Skip}
    (hseen : a.seenIn mode = b.seenIn mode) : a.resume = b.resume := by
  cases mode <;> first | exact (congrArg Skip.resume hseen :) | cases h

theorem Frame.isPlain_of_mem_resumed {mode : Mode} (h : mode ∈ Frame.resumed) :
    mode.isPlain = true := by
  simp only [Frame.resumed, List.mem_cons, List.not_mem_nil, or_false] at h
  rcases h with rfl | rfl | rfl | rfl <;> rfl

theorem Mode.isPlain_of_mem_repeated {mode : Mode} (h : mode ∈ Mode.repeated) :
    mode.isPlain = true := by
  simp only [Mode.repeated, List.mem_cons, List.not_mem_nil, or_false] at h
  rcases h with rfl | rfl | rfl | rfl | rfl <;> rfl

/-! ## Unwinding -/

section Unwinding

variable {stack : ScopeStack} (h : ∀ frame ∈ stack.frames, frame.IsRegular)
include h

/-- Behind the frames that are passed over stands a frame that says where to go on. -/
theorem mem_resumed_of_dropWhile {p : Frame → Bool} {frame : Frame} {outer : List Frame}
    (hdrop : stack.frames.dropWhile p = frame :: outer) : frame.resume ∈ Frame.resumed :=
  (h frame ((List.dropWhile_sublist p).subset (hdrop ▸ List.mem_cons_self))).resumes

theorem mem_resumed_popToNamed : stack.popToNamed.2 ∈ Frame.resumed := by
  unfold ScopeStack.popToNamed
  split
  · exact List.mem_cons_self
  · next hdrop => exact mem_resumed_of_dropWhile h hdrop

theorem mem_resumed_pop : stack.pop.2 ∈ Frame.resumed := by
  unfold ScopeStack.pop
  split
  · exact List.mem_cons_self
  · next frame outer hframes => exact (h frame (hframes ▸ List.mem_cons_self)).resumes

theorem mem_resumed_popBoundary : stack.popBoundary.2.1 ∈ Frame.resumed := by
  unfold ScopeStack.popBoundary
  split
  · exact List.mem_cons_self
  · next hdrop => exact mem_resumed_of_dropWhile h hdrop

/-- **A match is returned to** in its pattern. -/
theorem mode_of_returnToMatch? {found : ScopeStack × Mode}
    (hfound : stack.returnToMatch? = some found) : found.2 = .pattern := by
  unfold ScopeStack.returnToMatch? at hfound
  split at hfound
  · cases hfound
  · next frame outer hdrop =>
      cases hfound
      have hmem : frame ∈ stack.frames :=
        (List.dropWhile_sublist _).subset (hdrop ▸ List.mem_cons_self)
      have hrole : frame.role = .matchScope := by
        have := List.head?_dropWhile_not (·.role != .matchScope) stack.frames
        simpa [hdrop] using this
      exact ((h frame hmem).ofMatch hrole).2.2

end Unwinding

/-! ## Two machines -/

namespace Machine

/-- What a machine remembers leads where it should. -/
structure Regular (m : Machine) : Prop where
  frames : ∀ frame ∈ m.stack.frames, frame.IsRegular
  skip : m.skip.resume.isSkip = false
  chained : m.chained ∈ Mode.repeated

/-- The machine is about to read the body of a class. -/
def ExpectsClass (m : Machine) : Prop :=
  m.mode = .classBody ∨ m.mode.isSkip = true ∧ m.skip.resume = .classBody

/-- Regular, and a class that has a body has a name. -/
structure Disciplined (m : Machine) : Prop extends Regular m where
  className : m.ExpectsClass → m.className ≠ ""

/-- What a machine is doing, and what it remembers for later. -/
def remembered (m : Machine) : Mode × ScopeStack × Skip × Mode :=
  (m.mode, m.stack, m.skip, m.chained)

/-- The machine with other targets. -/
def retarget (m : Machine) (skip : Skip) : Machine :=
  { m with skip }

/-- Two machines that are alike but for targets that their mode does not look at. -/
structure Conceals (m there : Machine) : Prop where
  disciplined : m.Disciplined
  retargeted : there = m.retarget there.skip
  seen : there.skip.seenIn m.mode = m.skip.seenIn m.mode

theorem Regular.disciplined_of {m : Machine} (h : m.Regular) (hmode : m.mode ≠ .classBody)
    (hclass : m.skip.resume = .classBody → m.className ≠ "") : m.Disciplined :=
  ⟨h, fun hexpects => hexpects.elim (absurd · hmode) fun hskip => hclass hskip.2⟩

theorem Regular.disciplined {m : Machine} (h : m.Regular) (hmode : m.mode.isPlain = true) :
    m.Disciplined := by
  refine ⟨h, ?_⟩
  rintro (hclass | ⟨hskip, -⟩)
  · exact absurd hclass (Mode.ne_classBody_of_isPlain hmode)
  · rw [Mode.isSkip_of_isPlain hmode] at hskip
    cases hskip

/-! ## Ways to go on -/

section Ways

variable {m there : Machine}

theorem Disciplined.conceals (h : m.Disciplined) : m.Conceals m :=
  ⟨h, rfl, rfl⟩

/-- In a mode without targets any targets are concealed. -/
theorem Regular.conceals (h : m.Regular) (hmode : m.mode.isPlain = true) (skip : Skip) :
    m.Conceals (m.retarget skip) := by
  refine ⟨h.disciplined hmode, rfl, ?_⟩
  have hskip := Mode.isSkip_of_isPlain hmode
  rw [Skip.seenIn_eq hskip, Skip.seenIn_eq hskip]

/-- What can be told without the targets is the same for both. -/
theorem Conceals.same {α : Type} (h : m.Conceals there) (f : Machine → α)
    (hf : ∀ skip, f (m.retarget skip) = f m) : f there = f m := by
  rw [h.retargeted, hf]

theorem Conceals.stack_eq (h : m.Conceals there) : there.stack = m.stack :=
  h.same (·.stack) fun _ => rfl

theorem Conceals.mode_eq (h : m.Conceals there) : there.mode = m.mode :=
  h.same (·.mode) fun _ => rfl

/-- What changes neither the mode nor anything that is remembered for later. -/
theorem Conceals.alter (h : m.Conceals there) (change : Machine → Machine)
    (hchange : ∀ skip, change (m.retarget skip) = (change m).retarget skip)
    (hkept : (change m).remembered = m.remembered)
    (hclass : m.className ≠ "" → (change m).className ≠ "") :
    (change m).Conceals (change there) := by
  simp only [remembered, Prod.mk.injEq] at hkept
  obtain ⟨hmode, hstack, hskip, hchained⟩ := hkept
  obtain ⟨⟨⟨hframes, hresume, hmem⟩, hname⟩, hthere, hseen⟩ := h
  rw [hthere, hchange]
  refine ⟨⟨⟨hstack ▸ hframes, hskip ▸ hresume, hchained ▸ hmem⟩, ?_⟩, rfl, ?_⟩
  · unfold ExpectsClass
    rw [hmode, hskip]
    exact fun hexpects => hclass (hname hexpects)
  · rw [hmode, hskip]
    exact hseen

/-- What leads to a mode without targets, and leaves what is remembered for later. -/
theorem Conceals.leads (h : m.Conceals there) (change : Machine → Machine)
    (hchange : ∀ skip, change (m.retarget skip) = (change m).retarget skip)
    (hkept : ((change m).stack, (change m).skip) = (m.stack, m.skip))
    (hmode : (change m).mode.isPlain = true) (hchained : (change m).chained ∈ Mode.repeated) :
    (change m).Conceals (change there) := by
  obtain ⟨hstack, hskip⟩ := Prod.mk.inj hkept
  obtain ⟨⟨⟨hframes, hresume, -⟩, -⟩, hthere, -⟩ := h
  rw [hthere, hchange]
  exact Regular.conceals ⟨hstack ▸ hframes, hskip ▸ hresume, hchained⟩ hmode _

theorem Conceals.goto (h : m.Conceals there) (mode : Mode) (hmode : mode.isPlain = true) :
    (m.goto mode).Conceals (there.goto mode) :=
  h.leads (·.goto mode) (fun _ => rfl) rfl hmode h.disciplined.chained

theorem Conceals.setControl (h : m.Conceals there) (mode : Mode) (closing : Bool)
    (hmode : mode.isPlain = true) :
    { m with mode, closing }.Conceals { there with mode, closing } :=
  h.leads ({ · with mode, closing }) (fun _ => rfl) rfl hmode h.disciplined.chained

theorem Conceals.setChained (h : m.Conceals there) (mode chained : Mode)
    (hmode : mode.isPlain = true) (hchained : chained ∈ Mode.repeated) :
    { m with mode, chained }.Conceals { there with mode, chained } :=
  h.leads ({ · with mode, chained }) (fun _ => rfl) rfl hmode hchained

theorem Conceals.setClosing (h : m.Conceals there) (closing : Bool) :
    { m with closing }.Conceals { there with closing } :=
  h.alter ({ · with closing }) (fun _ => rfl) rfl id

theorem Conceals.note (h : m.Conceals there) (entry : Note) :
    (m.note entry).Conceals (there.note entry) :=
  h.alter (·.note entry) (fun _ => rfl) rfl id

theorem Conceals.declareAs (h : m.Conceals there) (name : String) (token : Token) (kind : Kind) :
    (m.declareAs name token kind).Conceals (there.declareAs name token kind) :=
  h.alter (·.declareAs name token kind) (fun _ => rfl) rfl id

theorem Conceals.declare (h : m.Conceals there) (token : Token) (kind : Kind) :
    (m.declare token kind).Conceals (there.declare token kind) :=
  h.declareAs token.text token kind

theorem Conceals.declareLocal (h : m.Conceals there) (token : Token) (kind : Kind) :
    (m.declareLocal token kind).Conceals (there.declareLocal token kind) :=
  h.alter (·.declareLocal token kind) (fun _ => rfl) rfl id

/-- An `and` between declarations goes where such an `and` may go. -/
theorem Conceals.chain (h : m.Conceals there) :
    (m.goto m.chained).Conceals (there.goto there.chained) := by
  have hchained := h.disciplined.chained
  exact h.leads (fun m => m.goto m.chained)
    (fun _ => rfl) rfl (Mode.isPlain_of_mem_repeated hchained) hchained

/-- **A skip that is over** leads outside of skipping. -/
theorem Conceals.resume (h : m.Conceals there) (hmode : m.mode.isSkip = true) :
    (m.goto m.skip.resume).Conceals (there.goto there.skip.resume) := by
  obtain ⟨⟨hregular, hname⟩, hthere, hseen⟩ := h
  rw [Skip.resume_eq hmode hseen, hthere]
  refine ⟨⟨⟨hregular.frames, hregular.skip, hregular.chained⟩, ?_⟩, rfl, ?_⟩
  · rintro (hclass | ⟨hskip, -⟩)
    · exact hname (.inr ⟨hmode, hclass⟩)
    · have : m.skip.resume.isSkip = true := hskip
      rw [hregular.skip] at this
      cases this
  · exact (Skip.seenIn_eq hregular.skip _).trans (Skip.seenIn_eq hregular.skip _).symm

/-- **Taking off frames** leads to the top level or to where one of them says. -/
theorem Conceals.unwind (h : m.Conceals there) {stack : ScopeStack} {mode : Mode}
    (hframes : stack.frames <:+ m.stack.frames) (hmode : mode ∈ Frame.resumed) :
    { m with stack, mode }.Conceals { there with stack, mode } := by
  have hunwound : { m with stack, mode }.Regular :=
    ⟨fun frame hframe => h.disciplined.frames frame (hframes.subset hframe),
      h.disciplined.skip, h.disciplined.chained⟩
  rw [h.retargeted]
  exact hunwound.conceals (Frame.isPlain_of_mem_resumed hmode) _

open ScopeStack (Operation)

theorem Conceals.popToNamed (h : m.Conceals there) : m.popToNamed.Conceals there.popToNamed := by
  unfold Machine.popToNamed
  rw [h.stack_eq]
  exact h.unwind (m.stack.frames_apply_suffix (rfl : Operation.popToNamed.asked? = none))
    (mem_resumed_popToNamed h.disciplined.frames)

theorem Conceals.pop (h : m.Conceals there) : m.pop.Conceals there.pop := by
  unfold Machine.pop
  rw [h.stack_eq]
  exact h.unwind (m.stack.frames_apply_suffix (rfl : Operation.pop.asked? = none))
    (mem_resumed_pop h.disciplined.frames)

theorem Conceals.popBoundary (h : m.Conceals there) : m.popBoundary.Conceals there.popBoundary := by
  unfold Machine.popBoundary
  rw [h.stack_eq]
  exact h.unwind (m.stack.frames_apply_suffix (rfl : Operation.popBoundary.asked? = none))
    (mem_resumed_popBoundary h.disciplined.frames)

/-- The frames inside the innermost match are taken off, and its pattern goes on. -/
theorem Conceals.returnToMatch (h : m.Conceals there) :
    m.returnToMatch.Conceals there.returnToMatch := by
  unfold Machine.returnToMatch
  rw [h.stack_eq]
  cases hreturned : m.stack.returnToMatch? with
  | none => exact h
  | some found =>
      have hsuffix := m.stack.frames_apply_suffix (rfl : Operation.returnToMatch.asked? = none)
      have hstack : m.stack.apply .returnToMatch = found.1 := by
        simp [ScopeStack.apply, hreturned]
      refine h.unwind (hstack ▸ hsuffix) ?_
      rw [mode_of_returnToMatch? h.disciplined.frames hreturned]
      decide

/-- A push of a regular frame, whether there is room for it or not. -/
theorem Conceals.push (h : m.Conceals there) (boundary : Bool) (role : Role) (resume : Mode)
    (name : String)
    (hframe : (⟨boundary, role, resume, m.stack.qualify name⟩ : Frame).IsRegular) :
    (m.push boundary role resume name).Conceals (there.push boundary role resume name) := by
  obtain ⟨⟨⟨hframes, hresume, hchained⟩, hname⟩, hthere, hseen⟩ := h
  rw [hthere]
  cases hfull : m.stack.isFull with
  | true =>
      rw [push_of_isFull _ _ _ _ _ hfull,
        push_of_isFull (m.retarget there.skip) _ _ _ _ hfull]
      exact ⟨⟨⟨hframes, hresume, hchained⟩, hname⟩, rfl, hseen⟩
  | false =>
      rw [push_of_not_isFull _ _ _ _ _ hfull,
        push_of_not_isFull (m.retarget there.skip) _ _ _ _ hfull]
      exact ⟨⟨⟨List.forall_mem_cons.mpr ⟨hframe, hframes⟩, hresume, hchained⟩, hname⟩, rfl, hseen⟩

/-- The frame of a declaration with an end of its own. -/
theorem Conceals.pushBoundary (h : m.Conceals there) (role : Role) (name : String)
    (hrole : role ∉ [.blockScope, .classScope, .matchScope]) :
    (m.pushBoundary role name).Conceals (there.pushBoundary role name) := by
  simp only [List.mem_cons, List.not_mem_nil, or_false, not_or] at hrole
  obtain ⟨hblock, hclass, hmatch⟩ := hrole
  refine h.push true role .topLevel name
    ⟨List.mem_cons_self, fun _ => ?_, fun hrole => absurd hrole hmatch⟩
  simp [hblock, hclass]

/-- A frame inside of an expression, not that of a match. -/
theorem Conceals.pushSoft (h : m.Conceals there) (resume : Mode) (role : Role) (name : String)
    (hresume : resume ∈ Frame.resumed) (hrole : role ≠ .matchScope) :
    (m.pushSoft resume role name).Conceals (there.pushSoft resume role name) :=
  h.push false role resume name ⟨hresume, nofun, fun hmatch => absurd hmatch hrole⟩

theorem Conceals.enterPart (h : m.Conceals there) : m.enterPart.Conceals there.enterPart :=
  (h.pushSoft .expression .valueScope "" (by decide) nofun).goto .bodyStart rfl

theorem Conceals.enterMatch (h : m.Conceals there) : m.enterMatch.Conceals there.enterMatch :=
  (h.push false .matchScope .pattern ""
    ⟨by simp [Frame.resumed], nofun, fun _ => ⟨rfl, rfl, rfl⟩⟩).goto .pattern rfl

/-- A skip by which all that it looks at is set. -/
theorem Conceals.skipTo (h : m.Conceals there) (mode : Mode) (waited : TokenKind) (resume : Mode)
    (hmode : mode ∈ [.skipUntil, .skipBalanced, .skipOpen]) (hresume : resume.isSkip = false)
    (hclass : resume = .classBody → m.className ≠ "") :
    (m.skipTo mode waited resume).Conceals (there.skipTo mode waited resume) := by
  obtain ⟨⟨⟨hframes, -, hchained⟩, -⟩, hthere, -⟩ := h
  have hregular : (m.skipTo mode waited resume).Regular := ⟨hframes, hresume, hchained⟩
  rw [hthere]
  simp only [List.mem_cons, List.not_mem_nil, or_false] at hmode
  rcases hmode with rfl | rfl | rfl <;>
    exact ⟨hregular.disciplined_of nofun hclass, rfl, rfl⟩

/-- A skip with two ways to end. -/
theorem Conceals.skipToOrStop (h : m.Conceals there) (waited terminating : TokenKind)
    (resume : Mode) (hresume : resume.isPlain = true) :
    (m.skipToOrStop waited terminating resume).Conceals
      (there.skipToOrStop waited terminating resume) := by
  obtain ⟨⟨⟨hframes, -, hchained⟩, -⟩, hthere, -⟩ := h
  have hregular : (m.skipToOrStop waited terminating resume).Regular :=
    ⟨hframes, Mode.isSkip_of_isPlain hresume, hchained⟩
  rw [hthere]
  exact ⟨hregular.disciplined_of nofun fun hbody =>
    absurd hbody (Mode.ne_classBody_of_isPlain hresume), rfl, rfl⟩

/-- A skip of one token. -/
theorem Conceals.skipNext (h : m.Conceals there) (resume : Mode) (hresume : resume.isPlain = true) :
    (m.skipNext resume).Conceals (there.skipNext resume) := by
  obtain ⟨⟨⟨hframes, -, hchained⟩, -⟩, hthere, -⟩ := h
  have hregular : (m.skipNext resume).Regular :=
    ⟨hframes, Mode.isSkip_of_isPlain hresume, hchained⟩
  rw [hthere]
  exact ⟨hregular.disciplined_of nofun fun hbody =>
    absurd hbody (Mode.ne_classBody_of_isPlain hresume), rfl, rfl⟩

end Ways

/-! ## Between declarations -/

section Rules

variable {m there : Machine} (h : m.Conceals there)
include h

theorem Conceals.closePrevious : m.closePrevious.Conceals there.closePrevious := by
  unfold Machine.closePrevious
  rw [h.same (·.closing) fun _ => rfl]
  split
  · exact (h.setClosing false).popBoundary
  · exact h

theorem Conceals.boundaryRole?_eq : there.boundaryRole? = m.boundaryRole? :=
  h.same (·.boundaryRole?) fun _ => rfl

theorem Conceals.closeEnd :
    m.closeEnd.1.Conceals there.closeEnd.1 ∧ there.closeEnd.2 = m.closeEnd.2 := by
  unfold Machine.closeEnd
  rw [h.boundaryRole?_eq]
  split
  all_goals first
    | exact ⟨h.popBoundary.popBoundary, h.popBoundary.boundaryRole?_eq⟩
    | exact ⟨h.popBoundary, rfl⟩

theorem Conceals.afterModule (next : Token) :
    (m.afterModule next).Conceals (there.afterModule next) := by
  unfold Machine.afterModule
  split
  · exact h.setChained .moduleBody .moduleName rfl (by decide)
  · exact h.goto _ rfl
  · exact h

theorem Conceals.readEnd (next : Token) : (m.readEnd next).Conceals (there.readEnd next) := by
  obtain ⟨hclosed, hrole⟩ := h.closeEnd
  unfold Machine.readEnd
  dsimp only
  rw [hrole]
  split
  · exact (hclosed.afterModule next).setClosing false
  · exact hclosed.setClosing false

theorem Conceals.opening {mode : Mode} (hmode : mode ∈ Mode.repeated) :
    (m.opening mode).Conceals (there.opening mode) :=
  h.closePrevious.setChained mode mode (Mode.isPlain_of_mem_repeated hmode) hmode

variable (current next : Token)

theorem Conceals.atTopLevel :
    (m.atTopLevel current next).Conceals (there.atTopLevel current next) := by
  unfold Machine.atTopLevel
  split
  · exact h.closePrevious.chain
  · exact h.opening (by decide)
  · exact h.opening (by decide)
  · exact h.opening (by decide)
  · exact h.opening (by decide)
  · exact h.closePrevious.goto _ rfl
  · exact h.closePrevious.setChained .exceptionName .topLevel rfl (by decide)
  · exact h.goto _ rfl
  · exact h.readEnd next
  · exact h

/-! ## Skips -/

/-- What a skip waits for is looked at by every mode of skipping but that of one token. -/
theorem Conceals.waited_eq (hmode : m.mode ∈ [.skipUntil, .skipBalanced, .skipOpen, .skipOpenTo]) :
    there.skip.waited = m.skip.waited := by
  have hseen := h.seen
  simp only [List.mem_cons, List.not_mem_nil, or_false] at hmode
  rcases hmode with hmode | hmode | hmode | hmode <;>
    (rw [hmode] at hseen; exact (congrArg Skip.waited hseen :))

theorem Conceals.atSkipUntil (hmode : m.mode = .skipUntil) :
    (m.atSkipUntil current).Conceals (there.atSkipUntil current) := by
  unfold Machine.atSkipUntil
  rw [h.waited_eq (by simp [hmode])]
  split
  · exact h.resume (by rw [hmode]; rfl)
  · split
    · exact h.popBoundary.goto _ rfl
    · exact h

theorem Conceals.atSkipBalanced (hmode : m.mode = .skipBalanced) :
    (m.atSkipBalanced current next).Conceals (there.atSkipBalanced current next) := by
  have hcounted := h.alter (fun m => { m with balance := m.balance.count current.kind })
    (fun _ => rfl) rfl id
  unfold Machine.atSkipBalanced
  dsimp only
  rw [h.waited_eq (by simp [hmode]), h.same (·.balance) fun _ => rfl] at *
  split
  · exact hcounted.resume (by rw [hmode]; rfl)
  · split
    · exact hcounted.atTopLevel current next
    · exact hcounted

theorem Conceals.atSkipOpen (hmode : m.mode = .skipOpen) :
    (m.atSkipOpen current next).Conceals (there.atSkipOpen current next) := by
  unfold Machine.atSkipOpen
  rw [h.waited_eq (by simp [hmode])]
  split
  · exact h.resume (by rw [hmode]; rfl)
  · exact h.atTopLevel current next

theorem Conceals.atSkipOpenTo (hmode : m.mode = .skipOpenTo) :
    (m.atSkipOpenTo current next).Conceals (there.atSkipOpenTo current next) := by
  have hterminating : there.skip.terminating = m.skip.terminating := by
    have hseen := h.seen
    rw [hmode] at hseen
    exact congrArg Skip.terminating hseen
  unfold Machine.atSkipOpenTo
  rw [h.waited_eq (by simp [hmode]), hterminating]
  split
  · exact h.resume (by rw [hmode]; rfl)
  · split
    · exact h.goto _ rfl
    · exact h.atTopLevel current next

/-! ## Expressions -/

theorem Conceals.chainBinding : m.chainBinding.Conceals there.chainBinding := by
  unfold Machine.chainBinding
  rw [h.mode_eq]
  dsimp only
  rw [h.popToNamed.stack_eq]
  split
  · exact (h.pop.pushSoft .expression .valueScope "" (by decide) nofun).goto .localLetName rfl
  · split <;> exact h.popToNamed.goto _ rfl

theorem Conceals.atExpression :
    (m.atExpression current next).Conceals (there.atExpression current next) := by
  unfold Machine.atExpression
  split
  · exact h.returnToMatch
  · exact h.pop
  · exact h.pop
  · exact h.pop
  · exact h.enterPart
  · exact h.enterPart
  · exact h.enterPart
  · exact h.enterPart
  · exact h.pop.enterPart
  · exact h.pop.enterPart
  · exact (h.push true .blockScope .expression ""
      ⟨by simp [Frame.resumed], fun _ => rfl, nofun⟩).goto .bodyStart rfl
  · exact h.popToNamed.enterPart
  · exact h.chainBinding
  · exact h.pop.enterMatch
  · exact h.enterMatch
  · exact h.goto _ rfl
  · exact (h.skipTo .skipBalanced .braceClose .expression (by decide) rfl nofun).atSkipBalanced
      current next rfl
  · split
    · exact h.popBoundary.goto _ rfl
    · exact h.goto _ rfl
  · exact h.goto _ rfl
  · exact h
  · exact (h.setClosing true).atTopLevel current next

/-- An object has no name, so it goes on in the expression. -/
theorem Conceals.enterObject (hmode : m.mode.isPlain = true) :
    { { m with className := "" }.push true .classScope .expression "" with
      closing := false, mode := .topLevel }.Conceals
    { { there with className := "" }.push true .classScope .expression "" with
      closing := false, mode := .topLevel } := by
  have hcleared := h.leads ({ · with className := "" })
    (fun _ => rfl) rfl hmode h.disciplined.chained
  exact (hcleared.push true .classScope .expression ""
    ⟨by simp [Frame.resumed], fun _ => rfl, nofun⟩).setControl .topLevel false rfl

theorem Conceals.atBodyStart (hmode : m.mode = .bodyStart) :
    (m.atBodyStart current next).Conceals (there.atBodyStart current next) := by
  unfold Machine.atBodyStart
  split
  · exact h.goto _ rfl
  · exact h.goto _ rfl
  · exact h.goto _ rfl
  · exact h.enterObject (by rw [hmode]; rfl)
  · exact h.skipTo .skipUntil .kwDo .bodyStart (by decide) rfl nofun
  · exact h.skipTo .skipUntil .kwDo .bodyStart (by decide) rfl nofun
  · exact h.pushSoft .pattern .functionScope current.text (by decide) nofun
  · exact h.enterMatch
  · exact h.goto _ rfl
  · exact h.atExpression current next
  · exact (h.goto .expression rfl).atExpression current next

theorem Conceals.atPattern :
    (m.atPattern current next).Conceals (there.atPattern current next) := by
  unfold Machine.atPattern
  split
  · exact (h.pushSoft .pattern .valueScope "" (by decide) nofun).goto .bodyStart rfl
  · exact h.popToNamed
  · exact h.popToNamed.atExpression current next
  · exact h.atExpression current next
  · exact h.atExpression current next
  · exact h

/-! ## Bindings -/

theorem Conceals.openBinding {role : Role} (name : String)
    (hrole : role = .functionScope ∨ role = .valueScope) :
    (m.openBinding role name).Conceals (there.openBinding role name) := by
  have hboundary : role ∉ [.blockScope, .classScope, .matchScope] := by
    rcases hrole with rfl | rfl <;> decide
  exact (h.pushBoundary role name hboundary).setControl .parameters true rfl

theorem Conceals.atLetName :
    (m.atLetName current next).Conceals (there.atLetName current next) := by
  unfold Machine.atLetName
  split
  · split
    · exact (h.declareAs "()" current .functionDef).openBinding "()" (.inl rfl)
    · exact h
  · exact h
  · exact h
  · exact h
  · exact ((h.declare current .functionDef).pushBoundary .functionScope current.text
      (by decide)).goto .parameters rfl
  · split
    · exact (h.declare current .functionDef).openBinding current.text (.inl rfl)
    · exact h.openBinding current.text (.inl rfl)
  · exact (h.declare current _).openBinding current.text (bindingOf_role next)
  · exact h.atTopLevel current next
  · exact h.goto _ rfl

/-- The frame of a local binding. -/
theorem Conceals.enterLocal {role : Role} (name : String)
    (hrole : role = .functionScope ∨ role = .valueScope) :
    ((m.pushSoft .bodyStart role name).goto .parameters).Conceals
      ((there.pushSoft .bodyStart role name).goto .parameters) :=
  (h.pushSoft .bodyStart role name (by decide) (by rcases hrole with rfl | rfl <;> nofun)).goto
    .parameters rfl

theorem Conceals.atLocalLetName :
    (m.atLocalLetName current next).Conceals (there.atLocalLetName current next) := by
  unfold Machine.atLocalLetName
  split
  · exact h
  · exact h
  · exact (h.declareLocal current .functionDef).enterLocal current.text (.inl rfl)
  · exact (h.declareLocal current _).enterLocal current.text (bindingOf_role next)
  · dsimp only
    split
    · exact (h.declareLocal current _).enterLocal current.text (bindingOf_role next)
    · exact h.enterLocal current.text (bindingOf_role next)
  · exact h.atExpression current next
  · exact h.goto _ rfl

theorem Conceals.enterLabel (mode : Mode) (hmode : mode.isPlain = true) :
    (m.enterLabel mode).Conceals (there.enterLabel mode) :=
  h.leads (·.enterLabel mode) (fun _ => rfl) rfl hmode h.disciplined.chained

theorem Conceals.atParameters : (m.atParameters current).Conceals (there.atParameters current) := by
  unfold Machine.atParameters
  split
  · exact h.goto _ rfl
  · exact h.goto _ rfl
  · exact h.declareLocal current .variableDef
  · split
    · exact h.skipTo .skipOpen .equals .bodyStart (by decide) rfl nofun
    · exact h.enterLabel .labelled rfl
    · exact h.enterLabel .optional rfl
    · exact h
  · exact h

theorem Conceals.noteLabel : (m.noteLabel current).Conceals (there.noteLabel current) := by
  unfold Machine.noteLabel
  rw [h.same (·.labelNoted) fun _ => rfl]
  split
  · exact h
  · exact (h.declareLocal current .variableDef).alter ({ · with labelNoted := true })
      (fun _ => rfl) rfl id

theorem Conceals.atLabelled : (m.atLabelled current).Conceals (there.atLabelled current) := by
  have hcomplete : there.labelComplete = m.labelComplete := h.same (·.labelComplete) fun _ => rfl
  have hotherwise : (if m.labelComplete then (m.goto .parameters).atParameters current
      else m).Conceals
      (if there.labelComplete then (there.goto .parameters).atParameters current else there) := by
    rw [hcomplete]
    split
    · exact (h.goto .parameters rfl).atParameters current
    · exact h
  have hclosed := h.alter (fun m => { m with labelDepth := m.labelDepth - 1 }) (fun _ => rfl) rfl id
  unfold Machine.atLabelled
  dsimp only
  split
  · exact h.noteLabel current
  · exact h.alter (fun m => { m with labelDepth := m.labelDepth + 1 }) (fun _ => rfl) rfl id
  · rw [h.same (·.labelDepth) fun _ => rfl] at hclosed ⊢
    split
    · exact hclosed.goto .parameters rfl
    · exact hclosed
  · rw [hcomplete] at hotherwise ⊢
    split
    · exact h.skipNext .parameters rfl
    · exact h
  · split
    · exact h.skipNext .parameters rfl
    · exact hotherwise
  · exact hotherwise

theorem Conceals.atOptional : (m.atOptional current).Conceals (there.atOptional current) := by
  have hdepth : there.optionalDepth = m.optionalDepth := h.same (·.optionalDepth) fun _ => rfl
  have hclosed := h.alter (fun m => { m with optionalDepth := m.optionalDepth - 1 })
    (fun _ => rfl) rfl id
  unfold Machine.atOptional
  dsimp only
  split
  · rw [h.same (·.labelNoted) fun _ => rfl, hdepth]
    split
    · exact h
    · split
      · exact (h.noteLabel current).goto _ rfl
      · exact h.noteLabel current
  · exact h.alter (fun m => { m with optionalDepth := m.optionalDepth + 1 }) (fun _ => rfl) rfl id
  · rw [hdepth] at hclosed ⊢
    split
    · exact hclosed.goto .parameters rfl
    · exact hclosed
  · exact h

/-! ## Definitions -/

theorem Conceals.atTypeName :
    (m.atTypeName current next).Conceals (there.atTypeName current next) := by
  unfold Machine.atTypeName
  split
  · exact h.skipNext .typeName rfl
  · exact h.skipTo .skipUntil .parenClose .typeName (by decide) rfl nofun
  · exact h
  · dsimp only
    split
    · exact ((h.declare current .typeDef).pushBoundary .typeScope current.text
        (by decide)).setControl .typeBody true rfl
    · exact (h.declare current .typeDef).goto _ rfl
  · exact h.atTopLevel current next

theorem Conceals.seekAlternative : m.seekAlternative.Conceals there.seekAlternative :=
  h.skipTo .skipOpen .pipe .typeBody (by decide) rfl nofun

theorem Conceals.atTypeBody : (m.atTypeBody current).Conceals (there.atTypeBody current) := by
  unfold Machine.atTypeBody
  split
  · split
    · exact h.leads (fun m => (m.stage current).goto .constructorCheck)
        (fun _ => rfl) rfl rfl h.disciplined.chained
    · exact h.seekAlternative
  · exact h.goto _ rfl
  · exact h.goto _ rfl
  · exact h.goto _ rfl
  · exact h

theorem Conceals.leaveType : m.leaveType.Conceals there.leaveType :=
  h.popBoundary.setClosing false

theorem Conceals.withdraw : m.withdraw.Conceals there.withdraw :=
  h.alter (·.withdraw) (fun _ => rfl) rfl id

theorem Conceals.confirm : m.confirm.Conceals there.confirm := by
  unfold Machine.confirm
  rw [h.same (·.staged) fun _ => rfl]
  split
  · exact h.withdraw.note _
  · exact h

theorem Conceals.atConstructorCheck :
    (m.atConstructorCheck current next).Conceals (there.atConstructorCheck current next) := by
  unfold Machine.atConstructorCheck
  split
  · exact h.withdraw.leaveType
  · exact h.confirm.seekAlternative
  · exact h.confirm.goto _ rfl
  · exact h.confirm.leaveType.seekAlternative.atTopLevel current next

theorem Conceals.atRecordFields :
    (m.atRecordFields current).Conceals (there.atRecordFields current) := by
  unfold Machine.atRecordFields
  split
  · exact (h.declare current .fieldDef).skipToOrStop .semicolon .braceClose .recordFields rfl
  · exact h.leaveType.goto _ rfl
  · exact h

theorem Conceals.atExceptionName :
    (m.atExceptionName current next).Conceals (there.atExceptionName current next) := by
  unfold Machine.atExceptionName
  split
  · exact (h.declare current .exceptionDef).goto _ rfl
  · exact (h.atTopLevel current next).goto _ rfl

theorem Conceals.atValName : (m.atValName current).Conceals (there.atValName current) := by
  unfold Machine.atValName
  split
  · exact h
  · exact h
  · exact (h.declare current .valSpec).goto _ rfl
  · exact (h.declare current .valSpec).goto _ rfl
  · exact h.goto _ rfl

theorem Conceals.atModuleName :
    (m.atModuleName current next).Conceals (there.atModuleName current next) := by
  unfold Machine.atModuleName
  split
  · have hnamed := (h.declare current .moduleDef).alter ({ · with moduleName := current.text })
      (fun _ => rfl) rfl id
    dsimp only
    split
    · exact hnamed.goto _ rfl
    · exact hnamed.goto _ rfl
    · exact hnamed.skipTo .skipBalanced .equals .moduleBody (by decide) rfl nofun
  · exact h

theorem Conceals.atModuleBody :
    (m.atModuleBody current next).Conceals (there.atModuleBody current next) := by
  unfold Machine.atModuleBody
  rw [h.same (·.moduleName) fun _ => rfl]
  split
  · exact h.skipTo .skipBalanced .arrow .moduleBody (by decide) rfl nofun
  · exact (h.pushBoundary .moduleScope m.moduleName (by decide)).setControl .topLevel false rfl
  · exact (h.pushBoundary .moduleScope m.moduleName (by decide)).setControl .topLevel false rfl
  · exact (h.skipTo .skipBalanced .parenClose .topLevel (by decide) rfl nofun).atSkipBalanced
      current next rfl
  · exact h
  · exact h
  · exact h.leads ({ · with moduleName := "", mode := .topLevel })
      (fun _ => rfl) rfl rfl h.disciplined.chained

theorem Conceals.atClassName (htext : current.text ≠ "") :
    (m.atClassName current).Conceals (there.atClassName current) := by
  unfold Machine.atClassName
  split
  · have hnamed := (h.declare current .classDef).alter ({ · with className := current.text })
      (fun _ => rfl) rfl fun _ => htext
    exact hnamed.skipTo .skipBalanced .equals .classBody (by decide) rfl fun _ => htext
  · exact h.skipTo .skipUntil .bracketClose .className (by decide) rfl nofun
  · exact h

/-- **The frame of a class has a name**: the body of a class is only read behind one. -/
theorem Conceals.atClassBody (hmode : m.mode = .classBody) :
    (m.atClassBody current).Conceals (there.atClassBody current) := by
  have hnamed := m.stack.qualify_ne_empty (h.disciplined.className (.inl hmode))
  unfold Machine.atClassBody
  rw [h.same (·.className) fun _ => rfl]
  split
  · refine (h.push true .classScope .topLevel m.className
      ⟨List.mem_cons_self, fun _ => ?_, nofun⟩).goto _ rfl
    simp [Frame.isNamed, hnamed]
  · exact h.leads (fun m => { m with className := "" }.goto .topLevel)
      (fun _ => rfl) rfl rfl h.disciplined.chained

theorem Conceals.atMethodName :
    (m.atMethodName current next).Conceals (there.atMethodName current next) := by
  unfold Machine.atMethodName
  split
  case h_6 =>
    exact ((h.declare current .methodDef).pushBoundary .methodScope current.text
      (by decide)).goto _ rfl
  case h_7 => exact h.atExpression current next
  case h_8 => exact h.goto _ rfl
  all_goals exact h

end Rules

/-! ## All rules together -/

section Runs

variable {m there : Machine}

/-- **Every rule keeps to the discipline**, and sees nothing that is concealed. -/
theorem Conceals.dispatch (h : m.Conceals there) {current : Token} (htext : current.text ≠ "")
    (next : Token) : (m.dispatch current next).Conceals (there.dispatch current next) := by
  unfold Machine.dispatch
  rw [h.mode_eq]
  split
  case h_1 => exact h.atTopLevel current next
  case h_2 => exact h.atLetName current next
  case h_3 => exact h.atLocalLetName current next
  case h_4 => exact h.atParameters current
  case h_5 => exact h.atLabelled current
  case h_6 => exact h.atOptional current
  case h_7 hmode => exact h.atBodyStart current next hmode
  case h_8 => exact h.atExpression current next
  case h_9 => exact h.atPattern current next
  case h_10 => exact h.atTypeName current next
  case h_11 => exact h.atTypeBody current
  case h_12 => exact h.atRecordFields current
  case h_13 => exact h.atConstructorCheck current next
  case h_14 => exact h.atExceptionName current next
  case h_15 => exact h.atValName current
  case h_16 => exact h.atModuleName current next
  case h_17 => exact h.atModuleBody current next
  case h_18 => exact h.atClassName current htext
  case h_19 hmode => exact h.atClassBody current hmode
  case h_20 => exact h.atMethodName current next
  case h_21 hmode => exact h.atSkipUntil current hmode
  case h_22 hmode => exact h.atSkipBalanced current next hmode
  case h_23 hmode => exact h.atSkipOpen current next hmode
  case h_24 hmode => exact h.atSkipOpenTo current next hmode
  case h_25 hmode => exact h.resume (by rw [hmode]; rfl)

theorem Conceals.step (h : m.Conceals there) {current : Token} (htext : current.text ≠ "")
    (next : Token) : (m.step current next).Conceals (there.step current next) := by
  have hplaced := h.alter ({ · with offset := current.start }) (fun _ => rfl) rfl id
  have hdispatched : (m.dispatched current next).Conceals (there.dispatched current next) :=
    hplaced.dispatch htext next
  rw [step_dispatched, step_dispatched, hdispatched.mode_eq, h.mode_eq]
  split
  · exact hdispatched
  · exact hdispatched.note _

/-- **A run keeps to the discipline**, and what is concealed is never looked at. -/
theorem Conceals.readAll (h : m.Conceals there) (last : Token) {tokens : List Token}
    (htexts : ∀ token ∈ tokens, token.text ≠ "") :
    (m.readAll last tokens).Conceals (there.readAll last tokens) := by
  induction tokens generalizing m there with
  | nil => exact h
  | cons token rest ih =>
      obtain ⟨htext, hrest⟩ := List.forall_mem_cons.mp htexts
      exact ih (h.step htext (rest.headD last)) hrest

theorem disciplined_start (capacity : Nat) : (start capacity).Disciplined :=
  Regular.disciplined ⟨nofun, rfl, List.mem_cons_self⟩ rfl

end Runs

end Machine

/-- No token of a text is empty. -/
theorem text_ne_empty {text : String} {token : Token} (h : token ∈ tokenize text) :
    token.text ≠ "" := by
  obtain ⟨c, cs, -, htext⟩ := Cursor.readToken_of_mem_tokens h
  rintro hempty
  rw [hempty] at htext
  cases htext

/-! ## Texts -/

/-- Where reading goes on when frames are taken off a stack. -/
structure ScopeStack.Resumes (stack : ScopeStack) : Prop where
  popToNamed : stack.popToNamed.2 ∈ Frame.resumed
  pop : stack.pop.2 ∈ Frame.resumed
  popBoundary : stack.popBoundary.2.1 ∈ Frame.resumed
  returnToMatch : ∀ found, stack.returnToMatch? = some found → found.2 = .pattern

/-- What holds of the machine behind the first `n` tokens of a text.  The stack is also
known to lead where it should when some of its frames have been taken off before. -/
structure KeepsDiscipline (maxDepth : Nat) (text : String) (n : Nat) : Prop where
  frames : ∀ frame ∈ (reached maxDepth text n).stack.frames, frame.IsRegular
  skip : (reached maxDepth text n).skip.resume.isSkip = false
  chained : (reached maxDepth text n).chained ∈ Mode.repeated
  unwound : ∀ stack : ScopeStack, stack.frames <:+ (reached maxDepth text n).stack.frames →
    stack.Resumes
  /-- With other targets in the place of those that the mode does not look at, reading
  goes on alike, and comes to the same targets wherever they are looked at. -/
  unseen : ∀ (skip : Skip) (k : Nat),
    skip.seenIn (reached maxDepth text n).mode =
        (reached maxDepth text n).skip.seenIn (reached maxDepth text n).mode →
      ∃ left : Skip,
        ((reached maxDepth text n).retarget skip).readOn text n k =
            (reached maxDepth text (n + k)).retarget left ∧
          left.seenIn (reached maxDepth text (n + k)).mode =
            (reached maxDepth text (n + k)).skip.seenIn (reached maxDepth text (n + k)).mode

theorem disciplined_reached (maxDepth : Nat) (text : String) (n : Nat) :
    (reached maxDepth text n).Disciplined :=
  ((Machine.disciplined_start maxDepth).conceals.readAll _
    fun _ htoken => text_ne_empty (List.mem_of_mem_take htoken)).disciplined

/-- **What is remembered for later is kept in discipline**, after any number of tokens of
any text.  Frames resume at the top level or in an expression, a body or a pattern, as
befits their sort, an `and` goes back to what it repeats, and a skip that is over leads
out of skipping.  So no mode of skipping is ever entered with targets that are left from
an earlier skip. -/
theorem keeps_discipline (options : Options) (text : String) (n : Nat) :
    KeepsDiscipline options.maxDepth text n := by
  have hdisciplined := disciplined_reached options.maxDepth text n
  refine ⟨hdisciplined.frames, hdisciplined.skip, hdisciplined.chained, ?_, ?_⟩
  · intro stack hsuffix
    have hframes : ∀ frame ∈ stack.frames, frame.IsRegular := fun frame hframe =>
      hdisciplined.frames frame (hsuffix.subset hframe)
    exact ⟨mem_resumed_popToNamed hframes, mem_resumed_pop hframes,
      mem_resumed_popBoundary hframes, fun _ => mode_of_returnToMatch? hframes⟩
  · intro skip k hseen
    have hconceals : (reached options.maxDepth text n).Conceals
        ((reached options.maxDepth text n).retarget skip) := ⟨hdisciplined, rfl, hseen⟩
    have htexts : ∀ token ∈ ((tokenize text).drop n).take k, token.text ≠ "" :=
      fun _ htoken => text_ne_empty (List.mem_of_mem_drop (List.mem_of_mem_take htoken))
    have hread := hconceals.readAll
      (((tokenize text).drop (n + k)).headD (Token.endAt text.utf8ByteSize)) htexts
    rw [reached_add]
    exact ⟨_, hread.retargeted, hread.seen⟩

end CamlIndex
