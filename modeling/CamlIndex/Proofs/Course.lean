import CamlIndex.Proofs.Walk

/-!
# The course of a rule

The machine has a rule for each of its modes, and the rules hand tokens on to each
other.  Nearly all that is true of every run is true because of what the rules have in
common, and that is said here once for all of them.

A rule first counts the token, if its mode counts (`Machine.counted`).  Apart from what
it announces, it then only moves about: it turns, which changes control fields (`Turn`),
it takes frames off, and it pushes one frame at most.  A `Course` is made of such moves.
It tells where every mode, every name and every target of a skip comes from.  So an
invariant need not be looked at rule by rule: what every move keeps, all rules keep
(`Course.keeps`).

The rules between declarations push nothing at all (`Course.atTopLevel`), the rules of
expressions one mark or scope (`Course.atExpression`).
-/

namespace CamlIndex

/-- Whether tokens are skipped in a mode. -/
def Mode.isSkip : Mode → Bool
  | .skipUntil | .skipBalanced | .skipOpen | .skipOpenTo | .skipOne => true
  | _ => false

/-- The tokens that begin a balanced skip, each with what is then waited for. -/
def Skip.balanced : List (TokenKind × TokenKind) :=
  [(.ident, .equals), (.kwFunctor, .arrow), (.parenOpen, .parenClose), (.braceOpen, .braceClose)]

/-- What a token adds to the parentheses that are open. -/
def Token.opens (token : Token) : Int :=
  match token.kind with
  | .parenOpen => 1
  | .parenClose => -1
  | _ => 0

theorem Token.opens_eq_zero {token : Token} (hopen : token.kind ≠ .parenOpen)
    (hclose : token.kind ≠ .parenClose) : token.opens = 0 := by
  unfold Token.opens
  split
  · next hkind => exact absurd hkind hopen
  · next hkind => exact absurd hkind hclose
  · rfl

namespace Machine

/-! ## Counting -/

/-- The machine when it has counted a token: parentheses in labelled and in optional
parameters, brackets while a balanced skip is on. -/
def counted (m : Machine) (token : Token) : Machine :=
  match m.mode with
  | .labelled => { m with labelDepth := m.labelDepth + token.opens }
  | .optional => { m with optionalDepth := m.optionalDepth + token.opens }
  | .skipBalanced => { m with balance := m.balance.count token.kind }
  | _ => m

section Counting

variable {m : Machine} {token : Token}

/-- The modes that count. -/
def Counts (m : Machine) : Prop :=
  m.mode = .labelled ∨ m.mode = .optional ∨ m.mode = .skipBalanced

theorem counted_of_not_counts (h : ¬ m.Counts) : m.counted token = m := by
  unfold counted
  split
  · next hmode => exact absurd (.inl hmode) h
  · next hmode => exact absurd (.inr (.inl hmode)) h
  · next hmode => exact absurd (.inr (.inr hmode)) h
  · rfl

/-- In parameters only parentheses count. -/
theorem counted_of_opens (hmode : m.mode ≠ .skipBalanced) (hopens : token.opens = 0) :
    m.counted token = m := by
  unfold counted
  split
  · rw [hopens, Int.add_zero]
  · rw [hopens, Int.add_zero]
  · next hskip => exact absurd hskip hmode
  · rfl

/-- Counting changes nothing but counters. -/
theorem counted_eq (m : Machine) (token : Token) :
    ∃ labelDepth optionalDepth balance,
      m.counted token = { m with labelDepth, optionalDepth, balance } := by
  unfold counted
  split <;> exact ⟨_, _, _, rfl⟩

end Counting

/-! ## Moves -/

/-- A literal is bound: it comes where a `let` expects the name of a binding. -/
def Binds (m : Machine) (literal : Token) : Prop :=
  literal.kind = .literal ∧ (m.mode = .letName ∨ m.mode = .localLetName)

/-- A change of control fields.  The text of a literal is never remembered. -/
inductive Turn (token : Token) (m : Machine) : Machine → Prop
  | goto {mode : Mode} (plain : mode.isSkip = false) : Turn token m (m.goto mode)
  /-- To where a skip leads. -/
  | resume : Turn token m (m.goto m.skip.resume)
  /-- To what an `and` repeats. -/
  | chain : Turn token m (m.goto m.chained)
  | setChained {chained : Mode} (plain : chained.isSkip = false) : Turn token m { m with chained }
  | setClosing (closing : Bool) : Turn token m { m with closing }
  | setLabelNoted (labelNoted : Bool) : Turn token m { m with labelNoted }
  | setModuleName {moduleName : String}
      (known : moduleName = "" ∨ token.kind ≠ .literal ∧ moduleName = token.text) :
      Turn token m { m with moduleName }
  | setClassName {className : String}
      (known : className = "" ∨ token.kind ≠ .literal ∧ className = token.text) :
      Turn token m { m with className }
  | setTerminating (terminating : TokenKind) :
      Turn token m { m with skip := { m.skip with terminating } }
  /-- A skip that counts nothing. -/
  | skipTo {mode : Mode} {waited : TokenKind} {resume : Mode} (unbalanced : mode ≠ .skipBalanced)
      (plain : resume.isSkip = false) : Turn token m (m.skipTo mode waited resume)
  /-- A balanced skip counts the token that it begins with. -/
  | skipBalanced {waited : TokenKind} {resume : Mode}
      (begins : (token.kind, waited) ∈ Skip.balanced) (plain : resume.isSkip = false) :
      Turn token m { m.skipTo .skipBalanced waited resume with
        balance := ({} : Balance).count token.kind }
  | skipNext {resume : Mode} (plain : resume.isSkip = false) : Turn token m (m.skipNext resume)

/-- Where a frame has its own name from, on a course from `m` that has come to `before`.  A
literal lends its text where it is bound, and then to the first frame. -/
inductive Lends (token : Token) (m before : Machine) : String → Prop
  | nothing : Lends token m before ""
  | unit : Lends token m before "()"
  | word (kind : token.kind ≠ .literal) : Lends token m before token.text
  | literal (binds : m.Binds token) (stack : before.stack = m.stack) :
      Lends token m before token.text
  | moduleName : Lends token m before before.moduleName
  | className : Lends token m before before.className

/-- A way from one machine to another, while a token is read, that announces and counts
nothing and pushes at most `room` frames. -/
inductive Course (token : Token) (m : Machine) : (room : Nat) → Machine → Prop
  | start {room : Nat} : Course token m room m
  | turn {room : Nat} {before after : Machine} (course : Course token m room before)
      (change : Turn token before after) : Course token m room after
  | push {room : Nat} {before : Machine} {boundary : Bool} {role : Role} {resume : Mode}
      {name : String} (course : Course token m room before)
      (proper : Frame.IsProper boundary role resume name) (lends : Lends token m before name) :
      Course token m (room + 1) (before.push boundary role resume name)
  | popToNamed {room : Nat} {before : Machine} (course : Course token m room before) :
      Course token m room before.popToNamed
  | pop {room : Nat} {before : Machine} (course : Course token m room before) :
      Course token m room before.pop
  | popBoundary {room : Nat} {before : Machine} (course : Course token m room before) :
      Course token m room before.popBoundary
  | returnToMatch {room : Nat} {before : Machine} (course : Course token m room before) :
      Course token m room before.returnToMatch

/-- A turn leaves alone what is not control. -/
theorem Turn.same {token : Token} {m after : Machine} (h : Turn token m after) :
    after.stack = m.stack ∧ after.notes = m.notes ∧ after.staged = m.staged ∧
      after.offset = m.offset := by
  cases h <;> exact ⟨rfl, rfl, rfl, rfl⟩

namespace Course

variable {token : Token} {m before after : Machine} {room : Nat}

/-- **Move by move.**  What every move keeps, a course keeps. -/
@[elab_as_elim]
theorem keeps {P : Machine → Prop} (course : Course token m room after) (start : P m)
    (turn : ∀ {before after}, P before → Turn token before after → P after)
    (push : ∀ {before boundary role resume name}, P before →
      Frame.IsProper boundary role resume name → Lends token m before name →
      P (before.push boundary role resume name))
    (unwind : ∀ {before after}, P before → Unwound before after → P after) : P after := by
  induction course with
  | start => exact start
  | turn _ change ih => exact turn ih change
  | push _ proper lends ih => exact push ih proper lends
  | @popToNamed _ before _ ih => exact unwind ih before.unwound_popToNamed
  | @pop _ before _ ih => exact unwind ih before.unwound_pop
  | @popBoundary _ before _ ih => exact unwind ih before.unwound_popBoundary
  | @returnToMatch _ before _ ih =>
      rcases before.unwound_returnToMatch with hsame | hunwound
      · rwa [hsame]
      · exact unwind ih hunwound

/-- Where one push is allowed, none is needed. -/
theorem slack (course : Course token m room after) : Course token m (room + 1) after := by
  induction course with
  | start => exact .start
  | turn _ change ih => exact ih.turn change
  | push _ proper lends ih => exact ih.push proper lends
  | popToNamed _ ih => exact ih.popToNamed
  | pop _ ih => exact ih.pop
  | popBoundary _ ih => exact ih.popBoundary
  | returnToMatch _ ih => exact ih.returnToMatch

/-- A course goes on where a walk has come to. -/
theorem walk_from {begun : Machine} (course : Course token begun room after)
    (hbegun : ∀ room, Walk m room begun) : Walk m room after := by
  induction course with
  | start => exact hbegun _
  | turn _ change ih =>
      obtain ⟨hstack, hnotes, hstaged, hoffset⟩ := change.same
      exact ih.control hstack hnotes hstaged hoffset
  | push _ proper _ ih => exact ih.push proper
  | popToNamed _ ih => exact ih.popToNamed
  | pop _ ih => exact ih.pop
  | popBoundary _ ih => exact ih.popBoundary
  | returnToMatch _ ih => exact ih.returnToMatch

theorem walk (course : Course token m room after) : Walk m room after :=
  course.walk_from fun _ => .start

/-- Counting a token is the beginning of a walk. -/
theorem walk_of_counted (course : Course token (m.counted token) room after) :
    Walk m room after := by
  refine course.walk_from fun _ => ?_
  obtain ⟨_, _, _, hcounted⟩ := m.counted_eq token
  rw [hcounted]
  exact Walk.start.control rfl rfl rfl rfl

/-! ## Frequent moves -/

theorem goto (course : Course token m room before) (mode : Mode)
    (plain : mode.isSkip = false) : Course token m room (before.goto mode) :=
  course.turn (.goto plain)

theorem setClosing (course : Course token m room before) (closing : Bool) :
    Course token m room { before with closing } :=
  course.turn (.setClosing closing)

theorem setChained (course : Course token m room before) (chained : Mode)
    (plain : chained.isSkip = false) : Course token m room { before with chained } :=
  course.turn (.setChained plain)

theorem skipTo (course : Course token m room before) (mode : Mode) (waited : TokenKind)
    (resume : Mode) (unbalanced : mode ≠ .skipBalanced) (plain : resume.isSkip = false) :
    Course token m room (before.skipTo mode waited resume) :=
  course.turn (.skipTo unbalanced plain)

theorem enterPart (course : Course token m room before) :
    Course token m (room + 1) before.enterPart :=
  (course.push (isProper_mark (.inl rfl)) .nothing).goto _ rfl

theorem enterMatch (course : Course token m room before) :
    Course token m (room + 1) before.enterMatch :=
  (course.push isProper_match .nothing).goto _ rfl

/-! ## Between declarations -/

variable (next : Token)

theorem closePrevious (course : Course token m room before) :
    Course token m room before.closePrevious := by
  unfold Machine.closePrevious
  split
  · exact (course.setClosing false).popBoundary
  · exact course

theorem closeEnd (course : Course token m room before) :
    Course token m room before.closeEnd.1 := by
  unfold Machine.closeEnd
  split
  all_goals first
    | exact course.popBoundary.popBoundary
    | exact course.popBoundary

theorem readEnd (course : Course token m room before) :
    Course token m room (before.readEnd next) := by
  have hafter : ∀ closed : Machine, Course token m room closed →
      Course token m room (closed.afterModule next) := by
    intro closed hclosed
    unfold afterModule
    split
    · exact (hclosed.setChained .moduleName rfl).goto _ rfl
    · exact hclosed.goto _ rfl
    · exact hclosed
  unfold Machine.readEnd
  dsimp only
  split
  · exact (hafter _ course.closeEnd).setClosing false
  · exact course.closeEnd.setClosing false

theorem opening (course : Course token m room before) (mode : Mode)
    (plain : mode.isSkip = false) : Course token m room (before.opening mode) :=
  (course.closePrevious.setChained mode plain).goto mode plain

/-- **Between declarations** nothing is pushed. -/
theorem atTopLevel (course : Course token m room before) :
    Course token m room (before.atTopLevel token next) := by
  unfold Machine.atTopLevel
  split
  · exact course.closePrevious.turn .chain
  · exact course.opening _ rfl
  · exact course.opening _ rfl
  · exact course.opening _ rfl
  · exact course.opening _ rfl
  · exact course.closePrevious.goto _ rfl
  · exact (course.closePrevious.setChained .topLevel rfl).goto _ rfl
  · exact course.goto _ rfl
  · exact course.readEnd next
  · exact course

/-! ## Skipping -/

theorem atSkipUntil (course : Course token m room before) :
    Course token m room (before.atSkipUntil token) := by
  unfold Machine.atSkipUntil
  split
  · exact course.turn .resume
  · split
    · exact course.popBoundary.goto _ rfl
    · exact course

theorem atSkipOpen (course : Course token m room before) :
    Course token m room (before.atSkipOpen token next) := by
  unfold Machine.atSkipOpen
  split
  · exact course.turn .resume
  · exact course.atTopLevel next

theorem atSkipOpenTo (course : Course token m room before) :
    Course token m room (before.atSkipOpenTo token next) := by
  unfold Machine.atSkipOpenTo
  split
  · exact course.turn .resume
  · split
    · exact course.goto _ rfl
    · exact course.atTopLevel next

/-- A balanced skip counts before it looks at anything. -/
theorem atSkipBalanced (hmode : m.mode = .skipBalanced) :
    Course token (m.counted token) room (m.atSkipBalanced token next) := by
  have hcounted : m.counted token = { m with balance := m.balance.count token.kind } := by
    unfold counted
    rw [hmode]
  have hstart : Course token (m.counted token) room
      { m with balance := m.balance.count token.kind } := hcounted ▸ .start
  unfold Machine.atSkipBalanced
  dsimp only
  split
  · exact hstart.turn .resume
  · split
    · exact hstart.atTopLevel next
    · exact hstart

/-- A balanced skip that begins with the token that names what it belongs to. -/
theorem skipFrom (course : Course token m room before) (hkind : token.kind = .ident)
    {resume : Mode} (plain : resume.isSkip = false) :
    Course token m room (before.skipTo .skipBalanced .equals resume) := by
  have hbegins : (token.kind, .equals) ∈ Skip.balanced := by simp [hkind, Skip.balanced]
  have hskip : Course token m room { before.skipTo .skipBalanced .equals resume with
      balance := ({} : Balance).count token.kind } := course.turn (.skipBalanced hbegins plain)
  rwa [hkind] at hskip

/-- A bracket that begins a balanced skip does not end it. -/
theorem skipPair (course : Course token m room before) {waited : TokenKind} {resume : Mode}
    (hpair : (token.kind, waited) ∈ [(.parenOpen, .parenClose), (.braceOpen, .braceClose)])
    (plain : resume.isSkip = false) :
    Course token m room ((before.skipTo .skipBalanced waited resume).atSkipBalanced token next) := by
  have hbegins : (token.kind, waited) ∈ Skip.balanced := by
    rw [Skip.balanced]
    exact List.mem_cons_of_mem _ (List.mem_cons_of_mem _ hpair)
  have hcounted : (before.skipTo .skipBalanced waited resume).atSkipBalanced token next =
      { before.skipTo .skipBalanced waited resume with
        balance := ({} : Balance).count token.kind } := by
    simp only [List.mem_cons, Prod.mk.injEq, List.not_mem_nil, or_false] at hpair
    rcases hpair with ⟨hkind, rfl⟩ | ⟨hkind, rfl⟩ <;>
      simp [Machine.atSkipBalanced, Machine.skipTo, hkind]
  rw [hcounted]
  exact course.turn (.skipBalanced hbegins plain)

/-! ## Expressions -/

theorem chainBinding (course : Course token m room before) :
    Course token m (room + 1) before.chainBinding := by
  unfold Machine.chainBinding
  split
  · exact (course.pop.push (isProper_mark (.inl rfl)) .nothing).goto _ rfl
  · refine course.popToNamed.slack.goto _ ?_
    split <;> rfl

/-- **Inside an expression** at most one frame is pushed, and it has no name. -/
theorem atExpression (course : Course token m room before) :
    Course token m (room + 1) (before.atExpression token next) := by
  have hslack := course.slack
  unfold Machine.atExpression
  split
  case h_1 => exact hslack.returnToMatch
  case h_2 | h_3 | h_4 => exact hslack.pop
  case h_5 | h_6 | h_7 | h_8 => exact course.enterPart
  case h_9 | h_10 => exact course.pop.enterPart
  case h_11 => exact (course.push isProper_block .nothing).goto _ rfl
  case h_12 => exact course.popToNamed.enterPart
  case h_13 => exact course.chainBinding
  case h_14 => exact course.pop.enterMatch
  case h_15 => exact course.enterMatch
  case h_16 => exact hslack.goto _ rfl
  case h_17 hkind => exact hslack.skipPair next (by simp [hkind]) rfl
  case h_18 =>
      split
      · exact hslack.popBoundary.goto _ rfl
      · exact hslack.goto _ rfl
  case h_19 => exact hslack.goto _ rfl
  case h_20 => exact hslack
  case h_21 => exact (hslack.setClosing true).atTopLevel next

/-- The word `try` lends its text to the frame that it pushes. -/
theorem atBodyStart (course : Course token m room before) :
    Course token m (room + 1) (before.atBodyStart token next) := by
  have hslack := course.slack
  unfold Machine.atBodyStart
  split
  case h_1 | h_2 | h_3 | h_9 => exact hslack.goto _ rfl
  case h_4 =>
      have hpushed := (course.turn (.setClassName (.inl rfl))).push isProper_object .nothing
      exact (hpushed.setClosing false).goto _ rfl
  case h_5 | h_6 => exact hslack.skipTo .skipUntil .kwDo .bodyStart nofun rfl
  case h_7 hkind => exact course.push isProper_try (.word (by simp [hkind]))
  case h_8 => exact course.enterMatch
  case h_10 => exact course.atExpression next
  case h_11 => exact (course.goto .expression rfl).atExpression next

theorem atPattern (course : Course token m room before) :
    Course token m (room + 1) (before.atPattern token next) := by
  unfold Machine.atPattern
  split
  · exact (course.push (isProper_mark (.inr (.inr rfl))) .nothing).goto _ rfl
  · exact course.slack.popToNamed
  · exact course.popToNamed.atExpression next
  · exact course.atExpression next
  · exact course.atExpression next
  · exact course.slack

/-! ## Definitions -/

theorem leaveType (course : Course token m room before) :
    Course token m room before.leaveType :=
  course.popBoundary.setClosing false

theorem seekAlternative (course : Course token m room before) :
    Course token m room before.seekAlternative :=
  course.skipTo .skipOpen .pipe .typeBody nofun rfl

/-- A module is pushed under the name of its header. -/
theorem atModuleBody (course : Course token m room before) :
    Course token m (room + 1) (before.atModuleBody token next) := by
  have hslack := course.slack
  have hbody : Course token m (room + 1)
      { before.pushBoundary .moduleScope before.moduleName with
        mode := .topLevel, closing := false } :=
    ((course.push (isProper_boundary _ (by simp)) .moduleName).setClosing false).goto _ rfl
  unfold Machine.atModuleBody
  split
  case h_1 hkind =>
      have hbegins : (token.kind, .arrow) ∈ Skip.balanced := by simp [hkind, Skip.balanced]
      have hskip : Course token m (room + 1) { before.skipTo .skipBalanced .arrow .moduleBody with
          balance := ({} : Balance).count token.kind } := hslack.turn (.skipBalanced hbegins rfl)
      rwa [hkind] at hskip
  case h_2 | h_3 => exact hbody
  case h_4 hkind => exact hslack.skipPair next (by simp [hkind]) rfl
  case h_5 | h_6 => exact hslack
  case h_7 => exact (hslack.turn (.setModuleName (.inl rfl))).goto _ rfl

/-- A class is pushed under the name of its header. -/
theorem atClassBody (course : Course token m room before) :
    Course token m (room + 1) (before.atClassBody token) := by
  unfold Machine.atClassBody
  split
  · exact (course.push (isProper_boundary _ (by simp)) .className).goto _ rfl
  · exact (course.slack.turn (.setClassName (.inl rfl))).goto _ rfl

end Course

end Machine

end CamlIndex
