import CamlIndex.Proofs.Course

/-!
# What a token announces

A rule that reads a name announces a declaration, or holds a constructor back;
the token after a constructor settles it.  `dispatch_outcome` says that there
is nothing else: any token, in any mode, does exactly one of these

* it announces at most one declaration, named by itself, is counted if the mode
  counts, and then takes its course,
* it is a capitalised name in a type body and is held back,
* it settles the constructor held back before it, and then takes its course.

So no chain of rules handing a token on can announce twice.  And whoever asks
neither for what is announced nor for what is held back finds one course in all
cases (`dispatch_course`): every invariant of the counters, the names and the
targets follows from it.
-/

namespace CamlIndex

/-- The token of a name: an identifier, an operator or the wildcard. -/
def Token.IsName (token : Token) : Prop :=
  token.kind = .ident ∨ token.kind = .operator ∨
    token.kind = .literal ∧ Machine.isWildcard token = true

/-- The declaration stands at the token and has its text for a name, or it
stands at the first of two parentheses and is named after both. -/
structure Declaration.NamedBy (declaration : Declaration) (current next : Token) : Prop where
  offset : declaration.offset = current.start
  name : current.IsName ∧ declaration.name = current.text ∨
    current.kind = .parenOpen ∧ next.kind = .parenClose ∧ declaration.name = "()"

namespace Machine

/-- What a machine may say at once about the token that it reads. -/
structure Announces (m : Machine) (current next : Token) (declaration : Declaration)
    (isLocal : Bool) : Prop where
  named : declaration.NamedBy current next
  scope : declaration.scope = m.stack.scope?
  local_kind : isLocal = true → declaration.kind = .variableDef ∨ declaration.kind = .functionDef
  not_constructor : declaration.kind ≠ .constructorDef

/-- A machine as it is or with one announcement about the token that it reads. -/
inductive Heard (m : Machine) (current next : Token) : Machine → Prop
  | nothing : Heard m current next m
  | declared {declaration : Declaration} {isLocal : Bool}
      (announced : m.Announces current next declaration isLocal) :
      Heard m current next (m.note (.declared declaration isLocal))

/-- What comes of reading one token. -/
inductive Outcome (m : Machine) (current next : Token) (after : Machine) : Prop
  | moves {heard : Machine} (mode : m.mode ≠ .constructorCheck)
      (announcement : Heard m current next heard)
      (course : Course current (heard.counted current) 1 after)
  | holds (mode : m.mode = .typeBody) (kind : current.kind = .ident)
      (capitalized : current.isCapitalized = true)
      (result : after = (m.stage current).goto .constructorCheck)
  | settles (mode : m.mode = .constructorCheck)
      (course : Course current (if current.kind = .operator then m.withdraw else m.confirm) 0 after)

variable {m : Machine} {current next : Token}

/-! ## Announcing -/

theorem heard_declare {kind : Kind} (hname : current.IsName) (hkind : kind ≠ .constructorDef) :
    Heard m current next (m.declare current kind) :=
  .declared ⟨⟨rfl, .inl ⟨hname, rfl⟩⟩, rfl, by simp, hkind⟩

theorem heard_declareLocal {kind : Kind} (hname : current.IsName)
    (hkind : kind = .variableDef ∨ kind = .functionDef) :
    Heard m current next (m.declareLocal current kind) := by
  refine .declared ⟨⟨rfl, .inl ⟨hname, rfl⟩⟩, rfl, fun _ => hkind, ?_⟩
  rcases hkind with rfl | rfl <;> simp [declaration]

theorem heard_declareUnit (hopen : current.kind = .parenOpen) (hclose : next.kind = .parenClose) :
    Heard m current next (m.declareAs "()" current .functionDef) :=
  .declared ⟨⟨rfl, .inr ⟨hopen, hclose, rfl⟩⟩, rfl, by simp, by simp [declaration]⟩

theorem bindingOf_kind (next : Token) :
    (bindingOf next).1 = .variableDef ∨ (bindingOf next).1 = .functionDef := by
  unfold bindingOf
  split <;> simp

theorem bindingOf_role (next : Token) :
    (bindingOf next).2 = .functionScope ∨ (bindingOf next).2 = .valueScope := by
  unfold bindingOf
  split <;> simp

/-- A machine hears something at most, and then a rule takes its course. -/
def Hears (m : Machine) (current next : Token) (room : Nat) (after : Machine) : Prop :=
  ∃ heard, Heard m current next heard ∧ Course current heard room after

theorem Course.hears {room : Nat} {after : Machine} (course : Course current m room after) :
    Hears m current next room after :=
  ⟨m, .nothing, course⟩

theorem Hears.slack {room : Nat} {after : Machine} (h : Hears m current next room after) :
    Hears m current next (room + 1) after := by
  obtain ⟨heard, hheard, hcourse⟩ := h
  exact ⟨heard, hheard, hcourse.slack⟩

/-- Where the token does not count, hearing it is all that comes before the course. -/
theorem Hears.outcome {after : Machine} (h : Hears m current next 1 after)
    (hmode : m.mode ≠ .constructorCheck)
    (huncounted : ∀ heard : Machine, heard.mode = m.mode → heard.counted current = heard) :
    Outcome m current next after := by
  obtain ⟨heard, hheard, hcourse⟩ := h
  have hsame : heard.mode = m.mode := by cases hheard <;> rfl
  rw [← huncounted heard hsame] at hcourse
  exact .moves hmode hheard hcourse

/-- In most modes nothing counts. -/
theorem Hears.outside {mode : Mode} {after : Machine} (h : Hears m current next 1 after)
    (hmode : m.mode = mode)
    (hplain : mode ∉ [.constructorCheck, .labelled, .optional, .skipBalanced]) :
    Outcome m current next after := by
  simp only [List.mem_cons, List.not_mem_nil, or_false, not_or] at hplain
  obtain ⟨hchecked, hlabelled, hoptional, hskip⟩ := hplain
  refine h.outcome (hmode ▸ hchecked) fun heard hsame => counted_of_not_counts ?_
  rw [Counts, hsame, hmode]
  simp [hlabelled, hoptional, hskip]

/-- In a parameter, tokens that are no parenthesis do not count. -/
theorem Hears.inParameter {after : Machine} (h : Hears m current next 0 after)
    (hmode : m.mode = .labelled ∨ m.mode = .optional) (hopens : current.opens = 0) :
    Outcome m current next after := by
  refine h.slack.outcome ?_ fun heard hsame => counted_of_opens ?_ hopens
  · rcases hmode with hmode | hmode <;> simp [hmode]
  · rcases hmode with hmode | hmode <;> simp [hsame, hmode]

/-- A parenthesis counts before anything else happens. -/
theorem Course.inParameter {after : Machine} (course : Course current (m.counted current) 0 after)
    (hmode : m.mode = .labelled ∨ m.mode = .optional) : Outcome m current next after :=
  .moves (by rcases hmode with hmode | hmode <;> simp [hmode]) .nothing course.slack

/-! ## Bindings -/

theorem Course.openBinding {before after : Machine} {room : Nat} {role : Role} {name : String}
    (course : Course current before room after)
    (hrole : role = .functionScope ∨ role = .valueScope) (lends : Lends current before after name) :
    Course current before (room + 1) (after.openBinding role name) :=
  ((course.push (isProper_boundary name (by grind)) lends).setClosing true).goto _ rfl

/-- The frame of a local binding. -/
theorem Course.openLocal {before after : Machine} {room : Nat} {role : Role} {name : String}
    (course : Course current before room after)
    (hrole : role = .functionScope ∨ role = .valueScope) (lends : Lends current before after name) :
    Course current before (room + 1) ((after.pushSoft .bodyStart role name).goto .parameters) :=
  (course.push (isProper_local name hrole) lends).goto _ rfl

theorem hears_atLetName (hmode : m.mode = .letName) :
    Hears m current next 1 (m.atLetName current next) := by
  unfold atLetName
  split
  case h_1 hkind =>
      split
      · next hnext =>
          exact ⟨_, heard_declareUnit hkind hnext, Course.start.openBinding (.inl rfl) .unit⟩
      · exact Course.start.hears
  case h_2 | h_3 | h_4 => exact Course.start.hears
  case h_5 hkind =>
      exact ⟨_, heard_declare (.inr (.inl hkind)) (by simp),
        (Course.start.push (isProper_boundary _ (by simp)) (.word (by simp [hkind]))).goto _ rfl⟩
  case h_6 hkind =>
      by_cases hwild : isWildcard current = true
      · rw [if_pos hwild]
        exact ⟨_, heard_declare (.inr (.inr ⟨hkind, hwild⟩)) (by simp),
          Course.start.openBinding (.inl rfl) (.literal ⟨hkind, .inl hmode⟩ rfl)⟩
      · rw [if_neg hwild]
        exact (Course.start.openBinding (.inl rfl) (.literal ⟨hkind, .inl hmode⟩ rfl)).hears
  case h_7 hkind =>
      have hplain : (bindingOf next).1 ≠ .constructorDef := by
        rcases bindingOf_kind next with h | h <;> simp [h]
      exact ⟨_, heard_declare (.inl hkind) hplain,
        Course.start.openBinding (bindingOf_role next) (.word (by simp [hkind]))⟩
  case h_8 => exact (Course.start.atTopLevel next).hears
  case h_9 => exact (Course.start.goto _ rfl).hears

theorem hears_atLocalLetName (hmode : m.mode = .localLetName) :
    Hears m current next 1 (m.atLocalLetName current next) := by
  unfold atLocalLetName
  split
  case h_1 | h_2 => exact Course.start.hears
  case h_3 hkind =>
      exact ⟨_, heard_declareLocal (.inr (.inl hkind)) (.inr rfl),
        Course.start.openLocal (.inl rfl) (.word (by simp [hkind]))⟩
  case h_4 hkind =>
      exact ⟨_, heard_declareLocal (.inl hkind) (bindingOf_kind next),
        Course.start.openLocal (bindingOf_role next) (.word (by simp [hkind]))⟩
  case h_5 hkind =>
      dsimp only
      split
      · next hwild =>
          exact ⟨_, heard_declareLocal (.inr (.inr ⟨hkind, hwild⟩)) (bindingOf_kind next),
            Course.start.openLocal (bindingOf_role next) (.literal ⟨hkind, .inr hmode⟩ rfl)⟩
      · exact (Course.start.openLocal (bindingOf_role next)
          (.literal ⟨hkind, .inr hmode⟩ rfl)).hears
  case h_6 => exact (Course.start.atExpression next).hears
  case h_7 => exact (Course.start.goto _ rfl).hears

/-- Parameters are read alike behind a label and elsewhere. -/
theorem hears_atParameters :
    Hears m current next 0 ((m.goto .parameters).atParameters current) := by
  have hstart : Course current m 0 (m.goto .parameters) := Course.start.goto _ rfl
  unfold atParameters
  split
  · exact (hstart.goto _ rfl).hears
  · exact (hstart.goto _ rfl).hears
  · next hkind =>
      exact ⟨m.declareLocal current .variableDef, heard_declareLocal (.inl hkind) (.inl rfl),
        Course.start.goto .parameters rfl⟩
  · split
    · exact (hstart.skipTo .skipOpen .equals .bodyStart nofun rfl).hears
    · exact ((hstart.turn (.setLabelNoted false)).goto .labelled rfl).hears
    · exact ((hstart.turn (.setLabelNoted false)).goto .optional rfl).hears
    · exact hstart.hears
  · exact hstart.hears

theorem hears_noteLabel (hkind : current.kind = .ident) :
    Hears m current next 0 (m.noteLabel current) := by
  unfold noteLabel
  split
  · exact Course.start.hears
  · exact ⟨_, heard_declareLocal (.inl hkind) (.inl rfl), Course.start.turn (.setLabelNoted true)⟩

/-- A labelled parameter counts its own parentheses. -/
theorem outcome_atLabelled (hmode : m.mode = .labelled) :
    Outcome m current next (m.atLabelled current) := by
  have hcounted : Course current (m.counted current) 0
      { m with labelDepth := m.labelDepth + current.opens } := by
    simp only [counted, hmode]
    exact .start
  have hotherwise : Hears m current next 0
      (if m.labelComplete then (m.goto .parameters).atParameters current else m) := by
    split
    · exact hears_atParameters
    · exact Course.start.hears
  have hskips : Hears m current next 0 (m.skipNext .parameters) :=
    (Course.start.turn (.skipNext rfl)).hears
  unfold atLabelled
  dsimp only
  split
  case h_1 hkind =>
      exact (hears_noteLabel hkind).inParameter (.inl hmode) (by simp [Token.opens, hkind])
  case h_2 hkind =>
      refine Course.inParameter ?_ (.inl hmode)
      simpa [Token.opens, hkind] using hcounted
  case h_3 hkind =>
      have hclosed : Course current (m.counted current) 0
          { m with labelDepth := m.labelDepth - 1 } := by
        simpa [Token.opens, hkind, Int.sub_eq_add_neg] using hcounted
      refine Course.inParameter ?_ (.inl hmode)
      split
      · exact hclosed.goto _ rfl
      · exact hclosed
  case h_4 hkind =>
      refine Hears.inParameter ?_ (.inl hmode) (by simp [Token.opens, hkind])
      split
      · exact hskips
      · next hopen => simpa [hopen] using hotherwise
  case h_5 hkind =>
      refine Hears.inParameter ?_ (.inl hmode) (by simp [Token.opens, hkind])
      split
      · exact hskips
      · exact hotherwise
  case h_6 hopen hclose _ _ =>
      exact hotherwise.inParameter (.inl hmode) (Token.opens_eq_zero hopen hclose)

/-- So does an optional one. -/
theorem outcome_atOptional (hmode : m.mode = .optional) :
    Outcome m current next (m.atOptional current) := by
  have hcounted : Course current (m.counted current) 0
      { m with optionalDepth := m.optionalDepth + current.opens } := by
    simp only [counted, hmode]
    exact .start
  unfold atOptional
  split
  case h_1 hkind =>
      refine Hears.inParameter ?_ (.inr hmode) (by simp [Token.opens, hkind])
      split
      · exact Course.start.hears
      · have hnoted : Hears m current next 0 (m.noteLabel current) := hears_noteLabel hkind
        obtain ⟨heard, hheard, hcourse⟩ := hnoted
        dsimp only
        split
        · exact ⟨heard, hheard, hcourse.goto _ rfl⟩
        · exact ⟨heard, hheard, hcourse⟩
  case h_2 hkind =>
      refine Course.inParameter ?_ (.inr hmode)
      simpa [Token.opens, hkind] using hcounted
  case h_3 hkind =>
      have hclosed : Course current (m.counted current) 0
          { m with optionalDepth := m.optionalDepth - 1 } := by
        simpa [Token.opens, hkind, Int.sub_eq_add_neg] using hcounted
      refine Course.inParameter ?_ (.inr hmode)
      dsimp only
      split
      · exact hclosed.goto _ rfl
      · exact hclosed
  case h_4 hopen hclose =>
      exact Course.start.hears.inParameter (.inr hmode) (Token.opens_eq_zero hopen hclose)

/-! ## Definitions -/

theorem hears_atTypeName : Hears m current next 1 (m.atTypeName current next) := by
  unfold atTypeName
  split
  · exact (Course.start.turn (.skipNext rfl)).hears
  · exact (Course.start.skipTo .skipUntil .parenClose .typeName nofun rfl).hears
  · exact Course.start.hears
  · next hkind =>
      refine ⟨_, heard_declare (.inl hkind) (by simp : Kind.typeDef ≠ .constructorDef), ?_⟩
      dsimp only
      split
      · have hpushed : Course current (m.declare current .typeDef) 1
            ((m.declare current .typeDef).pushBoundary .typeScope current.text) :=
          Course.start.push (isProper_boundary _ (by simp)) (.word (by simp [hkind]))
        exact (hpushed.setClosing true).goto _ rfl
      · exact Course.start.goto _ rfl
  · exact (Course.start.atTopLevel next).hears

theorem hears_atRecordFields : Hears m current next 0 (m.atRecordFields current) := by
  unfold atRecordFields
  split
  · next hkind =>
      exact ⟨_, heard_declare (.inl hkind) (by simp : Kind.fieldDef ≠ .constructorDef),
        (Course.start.turn (.setTerminating _)).skipTo .skipOpenTo .semicolon .recordFields nofun rfl⟩
  · exact (Course.start.leaveType.goto _ rfl).hears
  · exact Course.start.hears

theorem hears_atExceptionName : Hears m current next 0 (m.atExceptionName current next) := by
  unfold atExceptionName
  split
  · next hkind =>
      exact ⟨_, heard_declare (.inl hkind) (by simp : Kind.exceptionDef ≠ .constructorDef),
        Course.start.goto _ rfl⟩
  · exact ((Course.start.atTopLevel next).goto _ rfl).hears

theorem hears_atValName : Hears m current next 0 (m.atValName current) := by
  unfold atValName
  split
  · exact Course.start.hears
  · exact Course.start.hears
  · next hkind =>
      exact ⟨_, heard_declare (.inl hkind) (by simp : Kind.valSpec ≠ .constructorDef),
        Course.start.goto _ rfl⟩
  · next hkind =>
      exact ⟨_, heard_declare (.inr (.inl hkind)) (by simp : Kind.valSpec ≠ .constructorDef),
        Course.start.goto _ rfl⟩
  · exact (Course.start.goto _ rfl).hears

theorem hears_atModuleName : Hears m current next 0 (m.atModuleName current next) := by
  unfold atModuleName
  split
  · next hkind =>
      refine ⟨_, heard_declare (.inl hkind) (by simp : Kind.moduleDef ≠ .constructorDef), ?_⟩
      have hnamed : Course current (m.declare current .moduleDef) 0
          { m.declare current .moduleDef with moduleName := current.text } :=
        Course.start.turn (.setModuleName (.inr ⟨by simp [hkind], rfl⟩))
      dsimp only
      split
      · exact hnamed.goto _ rfl
      · exact hnamed.goto _ rfl
      · exact hnamed.skipFrom hkind rfl
  · exact Course.start.hears

theorem hears_atClassName : Hears m current next 0 (m.atClassName current) := by
  unfold atClassName
  split
  · next hkind =>
      have hnamed : Course current (m.declare current .classDef) 0
          { m.declare current .classDef with className := current.text } :=
        Course.start.turn (.setClassName (.inr ⟨by simp [hkind], rfl⟩))
      exact ⟨_, heard_declare (.inl hkind) (by simp : Kind.classDef ≠ .constructorDef),
        hnamed.skipFrom hkind rfl⟩
  · exact (Course.start.skipTo .skipUntil .bracketClose .className nofun rfl).hears
  · exact Course.start.hears

theorem hears_atMethodName : Hears m current next 1 (m.atMethodName current next) := by
  unfold atMethodName
  split
  case h_6 hkind =>
      exact ⟨_, heard_declare (.inl hkind) (by simp : Kind.methodDef ≠ .constructorDef),
        (Course.start.push (isProper_boundary _ (by simp)) (.word (by simp [hkind]))).goto _ rfl⟩
  case h_7 => exact (Course.start.atExpression next).hears
  case h_8 => exact (Course.start.goto _ rfl).hears
  all_goals exact Course.start.hears

/-! ## Constructors -/

theorem outcome_atTypeBody (hmode : m.mode = .typeBody) :
    Outcome m current next (m.atTypeBody current) := by
  have hquiet : ∀ {after}, Course current m 1 after → Outcome m current next after :=
    fun hcourse => hcourse.hears.outside hmode (by decide)
  unfold atTypeBody
  split
  · next hkind =>
      split
      · next hcapital => exact .holds hmode hkind hcapital rfl
      · exact hquiet Course.start.seekAlternative
  · exact hquiet (Course.start.goto _ rfl)
  · exact hquiet (Course.start.goto _ rfl)
  · exact hquiet (Course.start.goto _ rfl)
  · exact hquiet .start

theorem outcome_atConstructorCheck (hmode : m.mode = .constructorCheck) :
    Outcome m current next (m.atConstructorCheck current next) := by
  refine .settles hmode ?_
  by_cases hpath : current.kind = .operator
  · simp only [atConstructorCheck, hpath]
    exact Course.start.leaveType
  · rw [if_neg hpath]
    unfold atConstructorCheck
    split
    · contradiction
    · exact Course.start.seekAlternative
    · exact Course.start.goto _ rfl
    · exact Course.start.leaveType.seekAlternative.atTopLevel next

/-! ## All rules together -/

/-- **One token, one announcement.**  Whatever its rule does, reading a token
announces one declaration at most, holds a constructor back or settles one. -/
theorem dispatch_outcome (m : Machine) (current next : Token) :
    Outcome m current next (m.dispatch current next) := by
  unfold dispatch
  split
  case h_1 h => exact (Course.start.atTopLevel next).hears.outside h (by decide)
  case h_2 h => exact (hears_atLetName h).outside h (by decide)
  case h_3 h => exact (hears_atLocalLetName h).outside h (by decide)
  case h_4 h =>
      have hsame : m.goto .parameters = m := by rw [← h]; rfl
      exact (hsame ▸ hears_atParameters.slack : Hears ..).outside h (by decide)
  case h_5 h => exact outcome_atLabelled h
  case h_6 h => exact outcome_atOptional h
  case h_7 h => exact (Course.start.atBodyStart next).hears.outside h (by decide)
  case h_8 h => exact (Course.start.atExpression next).hears.outside h (by decide)
  case h_9 h => exact (Course.start.atPattern next).hears.outside h (by decide)
  case h_10 h => exact hears_atTypeName.outside h (by decide)
  case h_11 h => exact outcome_atTypeBody h
  case h_12 h => exact hears_atRecordFields.slack.outside h (by decide)
  case h_13 h => exact outcome_atConstructorCheck h
  case h_14 h => exact hears_atExceptionName.slack.outside h (by decide)
  case h_15 h => exact hears_atValName.slack.outside h (by decide)
  case h_16 h => exact hears_atModuleName.slack.outside h (by decide)
  case h_17 h => exact (Course.start.atModuleBody next).hears.outside h (by decide)
  case h_18 h => exact hears_atClassName.slack.outside h (by decide)
  case h_19 h => exact Course.start.atClassBody.hears.outside h (by decide)
  case h_20 h => exact hears_atMethodName.outside h (by decide)
  case h_21 h => exact Course.start.atSkipUntil.hears.outside h (by decide)
  case h_22 h => exact .moves (by simp [h]) .nothing (Course.atSkipBalanced next h)
  case h_23 h => exact (Course.start.atSkipOpen next).hears.outside h (by decide)
  case h_24 h => exact (Course.start.atSkipOpenTo next).hears.outside h (by decide)
  case h_25 h => exact (Course.start.turn .resume).hears.outside h (by decide)

theorem confirm_eq (m : Machine) : ∃ notes, m.confirm = { m with staged := none, notes } := by
  unfold confirm
  split
  · exact ⟨_, rfl⟩
  · next h => exact ⟨m.notes, by rw [← h]⟩

/-- **One token, one course.**  Apart from what is announced and what is held back, a rule
counts the token and takes its course. -/
theorem dispatch_course (m : Machine) (current next : Token) :
    ∃ notes staged, Course current (({ m with notes, staged } : Machine).counted current) 1
      (m.dispatch current next) := by
  cases dispatch_outcome m current next with
  | moves _ hheard hcourse =>
      cases hheard with
      | nothing => exact ⟨m.notes, m.staged, hcourse⟩
      | @declared declaration isLocal _ =>
          exact ⟨.declared declaration isLocal :: m.notes, m.staged, hcourse⟩
  | holds hmode _ _ hresult =>
      have huncounted : (m.stage current).counted current = m.stage current :=
        counted_of_not_counts (by simp [Counts, stage, hmode])
      refine ⟨m.notes, (m.stage current).staged, ?_⟩
      rw [hresult]
      exact huncounted.symm ▸ Course.start.goto _ rfl
  | settles hmode hcourse =>
      obtain ⟨notes, hconfirm⟩ := m.confirm_eq
      have huncounted : ∀ notes, ({ m with notes, staged := none } : Machine).counted current =
          { m with notes, staged := none } :=
        fun _ => counted_of_not_counts (by simp [Counts, hmode])
      by_cases hpath : current.kind = .operator
      · rw [if_pos hpath] at hcourse
        exact ⟨m.notes, none, (huncounted m.notes).symm ▸ hcourse.slack⟩
      · rw [if_neg hpath, hconfirm] at hcourse
        exact ⟨notes, none, (huncounted notes).symm ▸ hcourse.slack⟩

end Machine

end CamlIndex
