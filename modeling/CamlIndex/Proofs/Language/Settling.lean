import CamlIndex.Proofs.Language.Expressions

/-!
# Between declarations

A declaration that has ended stays on the stack until the next word says so.
What that word is decides nothing: any word that starts a declaration takes the
ended one off, and an `end` takes it off together with what it closes.  So the
machine may be in one of several conditions behind a declaration, which are all
the same to the words that can follow (`Settled`).

* `reads_keyword` — a word that starts a declaration leaves the ended one;
* `reads_end` — an `end` leaves the ended one and a module or class.
-/

namespace CamlIndex

/-! ## Ended declarations -/

/-- The boundary of a declaration that has no `end` of its own. -/
structure Frame.Endless (frame : Frame) : Prop where
  boundary : frame.boundary = true
  role : frame.role ∈ [.valueScope, .functionScope, .methodScope, .typeScope]

/-- The boundary of a declaration that an `end` closes. -/
structure Frame.Ended (frame : Frame) : Prop where
  boundary : frame.boundary = true
  resume : frame.resume = .topLevel
  role : frame.role = .classScope ∨ frame.role = .moduleScope

/-- The boundary of what is declared between declarations. -/
def Frame.declared (role : Role) (scope : Option Scope) (name : String) : Frame :=
  .opened true role .topLevel scope name

theorem Frame.endless_declared {role : Role}
    (hrole : role ∈ [.valueScope, .functionScope, .methodScope, .typeScope])
    (scope : Option Scope) (name : String) : (Frame.declared role scope name).Endless :=
  ⟨rfl, hrole⟩

theorem Frame.ended_declared {role : Role} (hrole : role = .classScope ∨ role = .moduleScope)
    (scope : Option Scope) (name : String) : (Frame.declared role scope name).Ended :=
  ⟨rfl, rfl, hrole⟩

theorem Scoped.declared {role : Role} {kind : Kind} (hrole : role.scopeKind? = some kind)
    (scope : Option Scope) (frames : List Frame) {name : String} (hname : name ≠ "") :
    Scoped (.declared role scope name :: frames) (Scope.inside scope kind name) :=
  .opened scope frames hname hrole true .topLevel

/-- Nothing waits to be taken off, or an ended declaration with all inside it. -/
inductive Ready (frames : List Frame) (view : View) : Prop where
  | clear (closing : view.closing = false) (frames : At view.mode frames view)
  | waiting {frame : Frame} (endless : frame.Endless) (closing : view.closing = true)
      (frames : Over Frame.IsLoose view.mode (frame :: frames) view)

/-- Behind a declaration, or before the first one. -/
inductive Settled (frames : List Frame) (view : View) : Prop where
  | idle (ready : Ready frames view)
      (mode : view.mode = .topLevel ∨ view.mode = .skipOpen ∧ view.skip.waited = .pipe)
  | constructor {frame : Frame} (endless : frame.Endless) (mode : view.mode = .constructorCheck)
      (frames : view.frames = frame :: frames)
  | expression {frame : Frame} (endless : frame.Endless)
      (frames : Over Frame.IsLoose .expression (frame :: frames) view)

/-- A declaration has just begun. -/
structure Begun (mode : Mode) (frames : List Frame) (view : View) : Prop extends
    At mode frames view where
  closing : view.closing = false

theorem Begun.goto {m : Machine} {mode : Mode} {frames : List Frame}
    (h : Begun mode frames m.view) (other : Mode) : Begun other frames (m.goto other).view :=
  ⟨h.toAt.goto other, h.closing⟩

/-- Nothing of a declaration is left. -/
theorem Begun.settled {frames : List Frame} {view : View} (h : Begun .topLevel frames view) :
    Settled frames view := by
  have hat : At view.mode frames view := ⟨rfl, h.frames_eq, h.staged_eq⟩
  exact .idle (.clear h.closing hat) (.inl h.mode_eq)

/-! ## What words make of them -/

/-- The words that follow a declaration, as far as an expression does not read
them in another way. -/
def followers : List TokenKind :=
  [.kwType, .kwClass, .kwModule, .kwLet, .kwMethod, .kwException, .kwEnd]

section

variable {m : Machine} {token following : Token} {frames : List Frame}

theorem Ready.closePrevious (h : Ready frames m.view) :
    ∃ stack mode, m.closePrevious = { m with stack, mode, closing := false } ∧
      stack.frames = frames ∧ m.staged = none := by
  cases h with
  | clear hclosing hat =>
      have hclosing : m.closing = false := hclosing
      refine ⟨m.stack, m.mode, ?_, hat.frames, hat.staged⟩
      rw [Machine.closePrevious, if_neg (by simp [hclosing]), ← hclosing]
  | @waiting frame hendless hclosing hover =>
      have hclosing : m.closing = true := hclosing
      obtain ⟨-, hat⟩ := hover.popBoundary hendless.boundary
      refine ⟨m.popBoundary.stack, m.popBoundary.mode, ?_, hat.frames, hat.staged⟩
      simp [Machine.closePrevious, hclosing, Machine.popBoundary]

/-- An `end` behind a declaration without one of its own leaves what is around it, too. -/
theorem Frame.Endless.closeEnd {frame : Frame} (hendless : frame.Endless)
    (hrole : m.boundaryRole? = some frame.role) :
    m.closeEnd = (m.popBoundary.popBoundary, m.popBoundary.boundaryRole?) := by
  have hendless := hendless.role
  simp only [List.mem_cons, List.not_mem_nil, or_false] at hendless
  unfold Machine.closeEnd
  rw [hrole]
  rcases hendless with h | h | h | h <;> rw [h]

theorem Ready.closeEnd {frame : Frame} (hframe : frame.Ended)
    (h : Ready (frame :: frames) m.view) :
    ∃ stack, m.closeEnd = ({ m with stack, mode := .topLevel }, some frame.role) ∧
      stack.frames = frames ∧ m.staged = none := by
  cases h with
  | clear _ hat =>
      obtain ⟨hrole, hpopped⟩ := Over.popBoundary hframe.boundary hat.over
      refine ⟨m.popBoundary.stack, ?_, hpopped.frames, hpopped.staged⟩
      rw [Machine.closeEnd_of_role hrole (.inr hframe.role), ← hframe.resume, ← hpopped.mode]
      rfl
  | @waiting inner hendless _ hover =>
      obtain ⟨hinner, hleft⟩ := hover.popBoundary hendless.boundary
      obtain ⟨hrole, hpopped⟩ := Over.popBoundary hframe.boundary hleft.over
      refine ⟨m.popBoundary.popBoundary.stack, ?_, hpopped.frames, hpopped.staged⟩
      rw [hendless.closeEnd hinner, hrole, ← hframe.resume, ← hpopped.mode]
      rfl

/-- A word behind a declaration is read as one between declarations. -/
theorem Settled.dispatch (h : Settled frames m.view)
    (hkind : token.kind ∈ followers ∨ token.kind = .kwAnd ∧ m.mode ≠ .expression) :
    ∃ ready : Machine, m.dispatch token following = ready.atTopLevel token following ∧
      Ready frames ready.view ∧ ready.found = m.found ∧ ready.chained = m.chained ∧
      ready.moduleName = m.moduleName := by
  cases h with
  | idle hready hmode =>
      refine ⟨m, ?_, hready, rfl, rfl, rfl⟩
      rcases hmode with hmode | ⟨hmode, hwaited⟩
      · unfold Machine.dispatch
        rw [show m.mode = .topLevel from hmode]
      · have hpipe : token.kind ≠ m.skip.waited := by
          rw [show m.skip.waited = .pipe from hwaited]
          intro heq
          simp [heq, followers] at hkind
        unfold Machine.dispatch
        rw [show m.mode = .skipOpen from hmode]
        exact if_neg hpipe
  | @constructor frame hendless hmode hframes =>
      obtain ⟨notes, hconfirm⟩ := m.confirm_eq
      have hat : At .constructorCheck (frame :: frames) m.confirm.view := by
        rw [hconfirm]
        exact ⟨hmode, hframes, rfl⟩
      obtain ⟨-, hpopped⟩ := Over.popBoundary hendless.boundary hat.over
      -- the type is left before the word is read, so nothing waits any more
      refine ⟨m.confirm.leaveType.seekAlternative, ?_, ?_, ?_, ?_, ?_⟩
      · unfold Machine.dispatch
        rw [show m.mode = .constructorCheck from hmode]
        dsimp only
        unfold Machine.atConstructorCheck
        split <;> simp_all [followers]
      · exact .clear rfl ⟨rfl, hpopped.frames, hpopped.staged⟩
      · have hnone : m.confirm.leaveType.seekAlternative.staged = none := hpopped.staged
        rw [m.found_eq_confirm, Machine.found, hnone]
        exact List.append_nil _
      · rw [hconfirm]
        rfl
      · rw [hconfirm]
        rfl
  | @expression frame hendless hover =>
      have hmode : m.mode = .expression := hover.mode_eq
      have hfollows : token.kind ∈ followers := hkind.resolve_right fun h => h.2 hmode
      refine ⟨{ m with closing := true }, Machine.dispatch_declaration hmode hfollows, ?_,
        rfl, rfl, rfl⟩
      obtain ⟨left, hleft, hat⟩ := hover
      exact .waiting hendless rfl ⟨left, hleft, rfl, hat.frames, hat.staged⟩

end

/-! ## Words behind declarations -/

/-- The mode that a word starts. -/
def startedMode : TokenKind → Mode
  | .kwType => .typeName
  | .kwClass => .className
  | .kwModule => .moduleName
  | .kwLet => .letName
  | .kwMethod => .methodName
  | .kwException => .exceptionName
  | _ => .topLevel

/-- A word that starts a declaration leaves the one that has ended. -/
theorem reads_keyword {kind : TokenKind}
    (hkind : kind ∈ [.kwType, .kwClass, .kwModule, .kwLet, .kwMethod, .kwException])
    (hfixed : kind.spelling ≠ "") (frames : List Frame) :
    Reads [.fixed kind hfixed] anyKind (Settled frames)
      fun view => Begun (startedMode kind) frames view ∧
        (kind = .kwType → view.chained = .typeName) := by
  apply Reads.silent
  intro m token following hspells _ hm _
  have hspelled : token.kind = kind := hspells.1
  have hfollows : token.kind ∈ followers := by
    rw [hspelled]
    simp only [List.mem_cons, List.not_mem_nil, or_false] at hkind
    rcases hkind with rfl | rfl | rfl | rfl | rfl | rfl <;> decide
  obtain ⟨ready, hdispatch, hready, hfound, -⟩ := hm.dispatch (.inl hfollows)
  obtain ⟨stack, mode, hclosed, hframes, hstaged⟩ := hready.closePrevious
  rw [hdispatch, ← hfound]
  unfold Machine.atTopLevel
  rw [hspelled]
  simp only [List.mem_cons, List.not_mem_nil, or_false] at hkind
  rcases hkind with rfl | rfl | rfl | rfl | rfl | rfl
  all_goals
    dsimp only [Machine.opening]
    rw [hclosed]
    exact ⟨⟨⟨⟨rfl, hframes, hstaged⟩, rfl⟩, by simp [Machine.view]⟩, rfl⟩

/-- A word that starts a declaration. -/
theorem reads_start {kind : TokenKind}
    (hkind : kind ∈ [.kwType, .kwClass, .kwModule, .kwLet, .kwMethod, .kwException])
    (hfixed : kind.spelling ≠ "") (frames : List Frame) :
    Reads [.fixed kind hfixed] anyKind (Settled frames) (Begun (startedMode kind) frames) :=
  (reads_keyword hkind hfixed frames).weaken fun _ hm => hm.1

theorem reads_startLet (frames : List Frame) :
    Reads [.fixed .kwLet] anyKind (Settled frames) (Begun .letName frames) :=
  reads_start (by decide) (by decide) frames

theorem reads_type (frames : List Frame) :
    Reads [.fixed .kwType] anyKind (Settled frames)
      fun view => Begun .typeName frames view ∧ view.chained = .typeName :=
  (reads_keyword (by decide) (by decide) frames).weaken fun _ hm => ⟨hm.1, hm.2 rfl⟩

/-- An `and` goes on with types after a type. -/
theorem reads_and (frames : List Frame) :
    Reads [.fixed .kwAnd] anyKind
      (fun view => Settled frames view ∧ view.mode ≠ .expression ∧ view.chained = .typeName)
      fun view => Begun .typeName frames view ∧ view.chained = .typeName := by
  apply Reads.silent
  intro m token following hspells _ hm _
  have hkind : token.kind = .kwAnd := hspells.1
  obtain ⟨hm, hmode, hchained⟩ := hm
  obtain ⟨ready, hdispatch, hready, hfound, hsame, -⟩ := hm.dispatch (.inr ⟨hkind, hmode⟩)
  obtain ⟨stack, mode, hclosed, hframes, hstaged⟩ := hready.closePrevious
  rw [hdispatch, ← hfound]
  unfold Machine.atTopLevel
  rw [hkind]
  dsimp only
  rw [hclosed]
  have hchained : ready.chained = .typeName := hsame.trans hchained
  exact ⟨⟨⟨⟨hchained, hframes, hstaged⟩, rfl⟩, hchained⟩, rfl⟩

/-- What may come behind a declaration. -/
def Apart (kind : TokenKind) : Prop :=
  kind ≠ .equals ∧ kind ≠ .kwAnd

/-- An `end` that nothing goes on from. -/
theorem Machine.readEnd_of_closeEnd {m closed : Machine} {following : Token} {role : Option Role}
    (h : m.closeEnd = (closed, role)) (hapart : Apart following.kind) :
    m.readEnd following = { closed with closing := false } := by
  obtain ⟨hequals, hand⟩ := hapart
  unfold readEnd
  rw [h]
  dsimp only
  split
  · unfold afterModule
    split
    · next hkind => exact absurd hkind hequals
    · next hkind => exact absurd hkind hand
    · rfl
  · rfl

/-- An `end` leaves an ended declaration and the module or class around it. -/
theorem reads_end {frame : Frame} (hframe : frame.Ended) (frames : List Frame) :
    Reads [.fixed .kwEnd] Apart (Settled (frame :: frames)) (Begun .topLevel frames) := by
  apply Reads.silent
  intro m token following hspells hapart hm _
  have hkind : token.kind = .kwEnd := hspells.1
  have hfollows : token.kind ∈ followers := by
    rw [hkind]
    decide
  obtain ⟨ready, hdispatch, hready, hfound, -⟩ := hm.dispatch (.inl hfollows)
  obtain ⟨stack, hclosed, hframes, hstaged⟩ := hready.closeEnd hframe
  rw [hdispatch, ← hfound]
  unfold Machine.atTopLevel
  rw [hkind]
  dsimp only
  rw [Machine.readEnd_of_closeEnd hclosed hapart]
  exact ⟨⟨⟨rfl, hframes, hstaged⟩, rfl⟩, rfl⟩

end CamlIndex
