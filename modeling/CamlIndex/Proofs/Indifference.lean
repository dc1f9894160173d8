import CamlIndex.Proofs.Reaction

/-!
# Every rule is indifferent to circumstances

One lemma for each mode: under two circumstances the rule of the mode reacts
alike.  A branch of a rule is one of three: it says nothing and only moves
(`Alike.quiet`), it makes a remark and moves (`Alike.moves`), or it pushes a
frame after that (`Alike.pushes`).

* `dispatch_alike` — all rules together.  Two runs that differ in their
  circumstances alone can be compared token by token, whatever the tokens are.
-/

namespace CamlIndex

namespace Machine

/-! ## Skipping and expressions -/

section Rules

variable (w w' : Circumstance) (m : Machine) (current next : Token)

theorem alike_atSkipUntil :
    Alike w w' ((m.under w).atSkipUntil (current.under w))
      ((m.under w').atSkipUntil (current.under w')) := by
  unfold atSkipUntil
  simp only [Token.under_kind, under_skip, popBoundary_under]
  split
  · exact .quiet (m.goto m.skip.resume)
  · split
    · exact .quiet (m.popBoundary.goto .topLevel)
    · exact .quiet m

theorem alike_atSkipOpen :
    Alike w w' ((m.under w).atSkipOpen (current.under w) (next.beyond w))
      ((m.under w').atSkipOpen (current.under w') (next.beyond w')) := by
  unfold atSkipOpen
  simp only [Token.under_kind, under_skip, atTopLevel_under]
  split
  · exact .quiet (m.goto m.skip.resume)
  · exact .quiet (m.atTopLevel current next)

theorem alike_atSkipOpenTo :
    Alike w w' ((m.under w).atSkipOpenTo (current.under w) (next.beyond w))
      ((m.under w').atSkipOpenTo (current.under w') (next.beyond w')) := by
  unfold atSkipOpenTo
  simp only [Token.under_kind, under_skip, atTopLevel_under]
  split
  · exact .quiet (m.goto m.skip.resume)
  · split
    · exact .quiet (m.goto .topLevel)
    · exact .quiet (m.atTopLevel current next)

theorem alike_chainBinding :
    Alike w w' (m.under w).chainBinding (m.under w').chainBinding := by
  unfold chainBinding
  simp only [under_mode, pop_under, popToNamed_under]
  split
  · exact (Alike.push m.pop false .valueScope .expression "").goto .localLetName
  · exact .quiet (m.popToNamed.goto
      (if m.popToNamed.stack.frames.isEmpty then .letName else .localLetName))

theorem alike_atExpression :
    Alike w w' ((m.under w).atExpression (current.under w) (next.beyond w))
      ((m.under w').atExpression (current.under w') (next.beyond w')) := by
  unfold atExpression
  simp only [Token.under_kind, Token.beyond_kind, returnToMatch_under, pop_under,
    popToNamed_under, popBoundary_under]
  split
  · exact .quiet m.returnToMatch
  · exact .quiet m.pop
  · exact .quiet m.pop
  · exact .quiet m.pop
  · exact .enterPart m
  · exact .enterPart m
  · exact .enterPart m
  · exact .enterPart m
  · exact .enterPart m.pop
  · exact .enterPart m.pop
  · exact (Alike.push m true .blockScope .expression "").goto .bodyStart
  · exact .enterPart m.popToNamed
  · exact alike_chainBinding w w' m
  · exact .enterMatch m.pop
  · exact .enterMatch m
  · exact .quiet (m.goto .parameters)
  · simp only [skipTo_under, atSkipBalanced_under]
    exact .quiet _
  · split
    · exact .quiet (m.popBoundary.goto .topLevel)
    · exact .quiet (m.goto .bodyStart)
  · exact .quiet (m.goto .bodyStart)
  · exact .quiet m
  · have hclosing : ∀ v : Circumstance,
        { m.under v with closing := true } = { m with closing := true }.under v := fun _ => rfl
    simp only [hclosing, atTopLevel_under]
    exact .quiet _

theorem alike_atBodyStart :
    Alike w w' ((m.under w).atBodyStart (current.under w) (next.beyond w))
      ((m.under w').atBodyStart (current.under w') (next.beyond w')) := by
  unfold atBodyStart
  simp only [Token.under_kind]
  split
  · exact .quiet (m.goto .localLetName)
  · exact .quiet (m.goto .localLetName)
  · exact .quiet (m.goto .valName)
  · exact (Alike.push { m with className := "" } true .classScope .expression "").setControl
      .topLevel false
  · exact .quiet (m.skipTo .skipUntil .kwDo .bodyStart)
  · exact .quiet (m.skipTo .skipUntil .kwDo .bodyStart)
  · exact .push m false .functionScope .pattern current.text
  · exact .enterMatch m
  · exact .quiet (m.goto .parameters)
  · exact alike_atExpression w w' m current next
  · exact alike_atExpression w w' (m.goto .expression) current next

theorem alike_atPattern :
    Alike w w' ((m.under w).atPattern (current.under w) (next.beyond w))
      ((m.under w').atPattern (current.under w') (next.beyond w')) := by
  unfold atPattern
  simp only [Token.under_kind, popToNamed_under]
  split
  · exact (Alike.push m false .valueScope .pattern "").goto .bodyStart
  · exact .quiet m.popToNamed
  · exact alike_atExpression w w' m.popToNamed current next
  · exact alike_atExpression w w' m current next
  · exact alike_atExpression w w' m current next
  · exact .quiet m

/-! ## Bindings -/

/-- What a machine says when it declares a name in its innermost scope. -/
def saying (name : String) (kind : Kind) (isLocal : Bool) : Remark :=
  .declared name kind m.stack.scope? isLocal

theorem bindingOf_beyond : bindingOf (next.beyond w) = bindingOf next := rfl

theorem isWildcard_under : isWildcard (current.under w) = isWildcard current := by
  simp only [isWildcard, Token.under_initial?]

theorem Alike.openBinding {here there : Machine} (remark : Remark)
    (hhere : here = m.under (w.hear remark)) (hthere : there = m.under (w'.hear remark))
    (role : Role) (name : String) :
    Alike w w' (here.openBinding role name) (there.openBinding role name) := by
  subst hhere hthere
  exact (Alike.pushes remark m true role .topLevel name).setControl .parameters true

theorem alike_atLetName :
    Alike w w' ((m.under w).atLetName (current.under w) (next.beyond w))
      ((m.under w').atLetName (current.under w') (next.beyond w')) := by
  unfold atLetName
  simp only [Token.under_kind, Token.under_text, Token.beyond_kind, bindingOf_beyond,
    isWildcard_under, atTopLevel_under]
  split
  · -- Both machines ask for the same token in view, so the case is taken once for both.
    by_cases hunit : next.kind = .parenClose
    · simp only [hunit, ↓reduceIte]
      exact .openBinding w w' m (m.saying "()" .functionDef false) rfl rfl _ _
    · simp only [hunit, ↓reduceIte]
      exact .quiet m
  · exact .quiet m
  · exact .quiet m
  · exact .quiet m
  · exact (Alike.pushes (m.saying current.text .functionDef false) m true .functionScope .topLevel
      current.text).goto .parameters
  · split
    · exact .openBinding w w' m (m.saying current.text .functionDef false) rfl rfl _ _
    · exact .openBinding w w' m .nothing rfl rfl _ _
  · exact .openBinding w w' m (m.saying current.text (bindingOf next).1 false) rfl rfl _ _
  · exact .quiet (m.atTopLevel current next)
  · exact .quiet (m.goto .topLevel)

theorem alike_atLocalLetName :
    Alike w w' ((m.under w).atLocalLetName (current.under w) (next.beyond w))
      ((m.under w').atLocalLetName (current.under w') (next.beyond w')) := by
  have hlocal : ∀ (remark : Remark) (role : Role),
      Alike w w'
        (((m.under (w.hear remark)).pushSoft .bodyStart role current.text).goto .parameters)
        (((m.under (w'.hear remark)).pushSoft .bodyStart role current.text).goto .parameters) :=
    fun remark role =>
      (Alike.pushes remark m false role .bodyStart current.text).goto .parameters
  unfold atLocalLetName
  simp only [Token.under_kind, Token.under_text, bindingOf_beyond, isWildcard_under]
  split
  · exact .quiet m
  · exact .quiet m
  · exact hlocal (m.saying current.text .functionDef true) .functionScope
  · exact hlocal (m.saying current.text (bindingOf next).1 true) (bindingOf next).2
  · split
    · exact hlocal (m.saying current.text (bindingOf next).1 true) (bindingOf next).2
    · exact hlocal .nothing (bindingOf next).2
  · exact alike_atExpression w w' m current next
  · exact .quiet (m.goto .expression)

theorem alike_atParameters :
    Alike w w' ((m.under w).atParameters (current.under w))
      ((m.under w').atParameters (current.under w')) := by
  unfold atParameters
  simp only [Token.under_kind, Token.under_initial?]
  split
  · exact .quiet (m.goto .bodyStart)
  · exact .quiet (m.goto .bodyStart)
  · exact .moves (m.saying current.text .variableDef true) m
  · split
    · exact .quiet (m.skipTo .skipOpen .equals .bodyStart)
    · exact .quiet (m.enterLabel .labelled)
    · exact .quiet (m.enterLabel .optional)
    · exact .quiet m
  · exact .quiet m

theorem alike_noteLabel :
    Alike w w' ((m.under w).noteLabel (current.under w))
      ((m.under w').noteLabel (current.under w')) := by
  unfold noteLabel
  simp only [under_labelNoted]
  by_cases hnoted : m.labelNoted = true
  · simp only [hnoted]
    exact .quiet m
  · simp only [hnoted]
    exact .moves (m.saying current.text .variableDef true) { m with labelNoted := true }

theorem alike_atLabelled :
    Alike w w' ((m.under w).atLabelled (current.under w))
      ((m.under w').atLabelled (current.under w')) := by
  have hcomplete : ∀ v : Circumstance, (m.under v).labelComplete = m.labelComplete :=
    fun _ => rfl
  -- A complete label is over at any other word, which is read among the parameters.
  have hotherwise : Alike w w'
      (if m.labelComplete then ((m.under w).goto .parameters).atParameters (current.under w)
        else m.under w)
      (if m.labelComplete then ((m.under w').goto .parameters).atParameters (current.under w')
        else m.under w') := by
    split
    · exact alike_atParameters w w' (m.goto .parameters) current
    · exact .quiet m
  unfold atLabelled
  simp only [Token.under_kind, Token.under_initial?, under_labelDepth, hcomplete]
  split
  · exact alike_noteLabel w w' m current
  · exact .quiet { m with labelDepth := m.labelDepth + 1 }
  · let closed : Machine := { m with labelDepth := m.labelDepth - 1 }
    change Alike w w'
      (if closed.labelDepth = 0 then (closed.under w).goto .parameters else closed.under w)
      (if closed.labelDepth = 0 then (closed.under w').goto .parameters else closed.under w')
    split
    · exact .quiet (closed.goto .parameters)
    · exact .quiet closed
  · split
    · exact .quiet (m.skipNext .parameters)
    · exact .quiet m
  · split
    · exact .quiet (m.skipNext .parameters)
    · exact hotherwise
  · exact hotherwise

theorem alike_atOptional :
    Alike w w' ((m.under w).atOptional (current.under w))
      ((m.under w').atOptional (current.under w')) := by
  unfold atOptional
  simp only [Token.under_kind, under_labelNoted, under_optionalDepth]
  split
  · by_cases hnoted : m.labelNoted = true
    · simp only [hnoted]
      exact .quiet m
    · simp only [hnoted]
      by_cases hbare : m.optionalDepth = 0
      · simp only [hbare, ↓reduceIte]
        exact (alike_noteLabel w w' m current).goto .parameters
      · simp only [hbare, ↓reduceIte]
        exact alike_noteLabel w w' m current
  · exact .quiet { m with optionalDepth := m.optionalDepth + 1 }
  · let closed : Machine := { m with optionalDepth := m.optionalDepth - 1 }
    change Alike w w'
      (if closed.optionalDepth = 0 then (closed.under w).goto .parameters else closed.under w)
      (if closed.optionalDepth = 0 then (closed.under w').goto .parameters else closed.under w')
    split
    · exact .quiet (closed.goto .parameters)
    · exact .quiet closed
  · exact .quiet m

/-! ## Definitions -/

theorem alike_atTypeName :
    Alike w w' ((m.under w).atTypeName (current.under w) (next.beyond w))
      ((m.under w').atTypeName (current.under w') (next.beyond w')) := by
  unfold atTypeName
  simp only [Token.under_kind, Token.under_text, Token.beyond_kind, atTopLevel_under]
  split
  · exact .quiet (m.skipNext .typeName)
  · exact .quiet (m.skipTo .skipUntil .parenClose .typeName)
  · exact .quiet m
  · by_cases hbody : next.kind = .equals
    · simp only [hbody, ↓reduceIte]
      exact (Alike.pushes (m.saying current.text .typeDef false) m true .typeScope .topLevel
        current.text).setControl .typeBody true
    · simp only [hbody, ↓reduceIte]
      exact .moves (m.saying current.text .typeDef false) (m.goto .topLevel)
  · exact .quiet (m.atTopLevel current next)

theorem alike_atTypeBody :
    Alike w w' ((m.under w).atTypeBody (current.under w))
      ((m.under w').atTypeBody (current.under w')) := by
  unfold atTypeBody
  simp only [Token.under_kind, Token.under_isCapitalized]
  split
  · by_cases hcapital : current.isCapitalized = true
    · simp only [hcapital]
      exact .moves (.held current.text m.stack.scope?) (m.goto .constructorCheck)
    · simp only [hcapital]
      exact .quiet m.seekAlternative
  · exact .quiet (m.goto .typeName)
  · exact .quiet (m.goto .valName)
  · exact .quiet (m.goto .recordFields)
  · exact .quiet m

theorem alike_atConstructorCheck :
    Alike w w' ((m.under w).atConstructorCheck (current.under w) (next.beyond w))
      ((m.under w').atConstructorCheck (current.under w') (next.beyond w')) := by
  have hwithdraw : ∀ v : Circumstance, (m.under v).withdraw = m.under (v.hear .withdrawn) :=
    fun _ => rfl
  -- A definition may end at this token, which is then read once more between
  -- declarations, with the constructor confirmed.
  have hover : ∀ v : Circumstance,
      (m.leaveType.under (v.hear .confirmed)).seekAlternative.atTopLevel (current.under v)
          (next.beyond v) =
        (m.leaveType.seekAlternative.atTopLevel current next).under (v.hear .confirmed) := by
    intro v
    rw [← current.under_hear v .confirmed, ← next.beyond_hear v .confirmed]
    exact atTopLevel_under m.leaveType.seekAlternative _ current next
  unfold atConstructorCheck
  simp only [Token.under_kind, hwithdraw, confirm_under, leaveType_under, hover]
  split
  · exact .moves .withdrawn m.leaveType
  · exact .moves .confirmed m.seekAlternative
  · exact .moves .confirmed (m.goto .typeBody)
  · exact .moves .confirmed (m.leaveType.seekAlternative.atTopLevel current next)

theorem alike_atRecordFields :
    Alike w w' ((m.under w).atRecordFields (current.under w))
      ((m.under w').atRecordFields (current.under w')) := by
  unfold atRecordFields
  simp only [Token.under_kind, leaveType_under]
  split
  · exact .moves (m.saying current.text .fieldDef false)
      (m.skipToOrStop .semicolon .braceClose .recordFields)
  · exact .quiet (m.leaveType.goto .topLevel)
  · exact .quiet m

theorem alike_atExceptionName :
    Alike w w' ((m.under w).atExceptionName (current.under w) (next.beyond w))
      ((m.under w').atExceptionName (current.under w') (next.beyond w')) := by
  unfold atExceptionName
  simp only [Token.under_kind, atTopLevel_under]
  split
  · exact .moves (m.saying current.text .exceptionDef false) (m.goto .topLevel)
  · exact .quiet ((m.atTopLevel current next).goto .topLevel)

theorem alike_atValName :
    Alike w w' ((m.under w).atValName (current.under w))
      ((m.under w').atValName (current.under w')) := by
  unfold atValName
  simp only [Token.under_kind]
  split
  · exact .quiet m
  · exact .quiet m
  · exact .moves (m.saying current.text .valSpec false) (m.goto .topLevel)
  · exact .moves (m.saying current.text .valSpec false) (m.goto .topLevel)
  · exact .quiet (m.goto .topLevel)

theorem alike_atModuleName :
    Alike w w' ((m.under w).atModuleName (current.under w) (next.beyond w))
      ((m.under w').atModuleName (current.under w') (next.beyond w')) := by
  unfold atModuleName
  simp only [Token.under_kind, Token.under_text, Token.beyond_kind]
  split
  · split
    · exact .moves (m.saying current.text .moduleDef false)
        ({ m with moduleName := current.text }.goto .moduleBody)
    · exact .moves (m.saying current.text .moduleDef false)
        ({ m with moduleName := current.text }.goto .moduleBody)
    · exact .moves (m.saying current.text .moduleDef false)
        ({ m with moduleName := current.text }.skipTo .skipBalanced .equals .moduleBody)
  · exact .quiet m

theorem alike_atModuleBody :
    Alike w w' ((m.under w).atModuleBody (current.under w) (next.beyond w))
      ((m.under w').atModuleBody (current.under w') (next.beyond w')) := by
  unfold atModuleBody
  simp only [Token.under_kind, skipTo_under, atSkipBalanced_under]
  split
  · exact .quiet (m.skipTo .skipBalanced .arrow .moduleBody)
  · exact (Alike.push m true .moduleScope .topLevel m.moduleName).setControl .topLevel false
  · exact (Alike.push m true .moduleScope .topLevel m.moduleName).setControl .topLevel false
  · exact .quiet ((m.skipTo .skipBalanced .parenClose .topLevel).atSkipBalanced current next)
  · exact .quiet m
  · exact .quiet m
  · exact .quiet { m with moduleName := "", mode := .topLevel }

theorem alike_atClassName :
    Alike w w' ((m.under w).atClassName (current.under w))
      ((m.under w').atClassName (current.under w')) := by
  unfold atClassName
  simp only [Token.under_kind, Token.under_text]
  split
  · exact .moves (m.saying current.text .classDef false)
      ({ m with className := current.text }.skipTo .skipBalanced .equals .classBody)
  · exact .quiet (m.skipTo .skipUntil .bracketClose .className)
  · exact .quiet m

theorem alike_atClassBody :
    Alike w w' ((m.under w).atClassBody (current.under w))
      ((m.under w').atClassBody (current.under w')) := by
  unfold atClassBody
  simp only [Token.under_kind]
  split
  · exact (Alike.push m true .classScope .topLevel m.className).goto .topLevel
  · exact .quiet ({ m with className := "" }.goto .topLevel)

theorem alike_atMethodName :
    Alike w w' ((m.under w).atMethodName (current.under w) (next.beyond w))
      ((m.under w').atMethodName (current.under w') (next.beyond w')) := by
  unfold atMethodName
  simp only [Token.under_kind, Token.under_text]
  split
  · exact .quiet m
  · exact .quiet m
  · exact .quiet m
  · exact .quiet m
  · exact .quiet m
  · exact (Alike.pushes (m.saying current.text .methodDef false) m true .methodScope .topLevel
      current.text).goto .parameters
  · exact alike_atExpression w w' m current next
  · exact .quiet (m.goto .topLevel)

/-! ## All rules together -/

/-- **Circumstances decide nothing.**  Whatever its rule, a machine reacts to the
same words alike under all circumstances. -/
theorem dispatch_alike :
    Alike w w' ((m.under w).dispatch (current.under w) (next.beyond w))
      ((m.under w').dispatch (current.under w') (next.beyond w')) := by
  unfold dispatch
  simp only [under_mode, under_skip, atTopLevel_under, atSkipBalanced_under]
  split
  · exact .quiet (m.atTopLevel current next)
  · exact alike_atLetName w w' m current next
  · exact alike_atLocalLetName w w' m current next
  · exact alike_atParameters w w' m current
  · exact alike_atLabelled w w' m current
  · exact alike_atOptional w w' m current
  · exact alike_atBodyStart w w' m current next
  · exact alike_atExpression w w' m current next
  · exact alike_atPattern w w' m current next
  · exact alike_atTypeName w w' m current next
  · exact alike_atTypeBody w w' m current
  · exact alike_atRecordFields w w' m current
  · exact alike_atConstructorCheck w w' m current next
  · exact alike_atExceptionName w w' m current next
  · exact alike_atValName w w' m current
  · exact alike_atModuleName w w' m current next
  · exact alike_atModuleBody w w' m current next
  · exact alike_atClassName w w' m current
  · exact alike_atClassBody w w' m current
  · exact alike_atMethodName w w' m current next
  · exact alike_atSkipUntil w w' m current
  · exact .quiet (m.atSkipBalanced current next)
  · exact alike_atSkipOpen w w' m current next
  · exact alike_atSkipOpenTo w w' m current next
  · exact .quiet (m.goto m.skip.resume)

end Rules

end Machine

end CamlIndex
