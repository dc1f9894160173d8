import CamlIndex.Proofs.Histories
import CamlIndex.Proofs.Lines
import CamlIndex.Proofs.Room

/-!
# Overflow is reported once and exactly

Frames are pushed in many places, and a full stack refuses them.  What is reported in
the end is a single diagnostic, made of a count and of the place of one token.

To say that it is right one has to know the pushes.  Whatever rule reads a token, all it
does to the stack is a few operations of its interface, and each push that is refused
leaves one note with the place of the token (`Machine.Does`).  So a run is a history of
the stack, cut in parts of one token each (`Account`).  The notes are as many as the
pushes refused in that history, and the earliest of them was left by the token in whose
part the first refused push is.  It does not matter how often the stack is filled and
emptied in between.

* `Machine.Walk.does`, `Machine.step_does` — what a token does to the stack;
* `exists_account` — a run is a history of the stack, token by token;
* `overflow_reported` — what is reported about every history that a run can be.
-/

namespace CamlIndex

/-! ## Refusals in a history -/

namespace ScopeStack

/-- The refusals over two histories, one behind the other. -/
theorem refusalsOver_append (stack : ScopeStack) (front back : List Operation) :
    stack.refusalsOver (front ++ back) =
      stack.refusalsOver front + (front.foldl apply stack).refusalsOver back := by
  induction front generalizing stack with
  | nil => simp [refusalsOver]
  | cons operation front ih =>
      rw [List.cons_append, refusalsOver, refusalsOver, ih, List.foldl_cons, Nat.add_assoc]

theorem refusalsOver_concat (stack : ScopeStack) (history : List Operation)
    (operation : Operation) :
    stack.refusalsOver (history ++ [operation]) =
      stack.refusalsOver history +
        if operation.answer? (history.foldl apply stack) = some false then 1 else 0 := by
  rw [refusalsOver_append]
  rfl

/-- A stack counts the pushes that it has refused. -/
theorem refused_after {capacity : Nat} {history : List Operation} (h : .clear ∉ history) :
    (after capacity history).refused = (empty capacity).refusalsOver history := by
  rw [after, refused_foldl h]
  exact Nat.zero_add _

end ScopeStack

open ScopeStack (Operation)

namespace Machine

/-! ## What a token does to the stack -/

/-- On the way from one machine to another the operations are done to the stack, and
nothing else is.  Every refused push leaves a note with the place of the token. -/
structure Does (m : Machine) (operations : List Operation) (after : Machine) : Prop where
  uncleared : .clear ∉ operations
  stack : after.stack = operations.foldl ScopeStack.apply m.stack
  offset : after.offset = m.offset
  refusals : after.refusals =
    List.replicate (m.stack.refusalsOver operations) m.offset ++ m.refusals

section Does

variable {m before after : Machine} {operations : List Operation}

theorem Does.nothing (m : Machine) : m.Does [] m :=
  ⟨List.not_mem_nil, rfl, rfl, rfl⟩

/-- Machines with the same stack, place and refusals do the same. -/
theorem Does.of_same (h : Does before operations after) (hstack : before.stack = m.stack)
    (hoffset : before.offset = m.offset) (hrefusals : before.refusals = m.refusals) :
    Does m operations after := by
  obtain ⟨huncleared, hdone, hplace, hnoted⟩ := h
  rw [hstack] at hdone hnoted
  rw [hoffset] at hplace hnoted
  rw [hrefusals] at hnoted
  exact ⟨huncleared, hdone, hplace, hnoted⟩

theorem Does.to_same (h : Does m operations before) (hstack : after.stack = before.stack)
    (hoffset : after.offset = before.offset) (hrefusals : after.refusals = before.refusals) :
    Does m operations after :=
  ⟨h.uncleared, hstack.trans h.stack, hoffset.trans h.offset, hrefusals.trans h.refusals⟩

/-- One more operation. -/
theorem Does.concat (h : Does m operations before) {operation : Operation}
    (huncleared : operation ≠ .clear) (hstack : after.stack = before.stack.apply operation)
    (hoffset : after.offset = before.offset)
    (hrefusals : after.refusals =
      (if operation.answer? before.stack = some false then [before.offset] else []) ++
        before.refusals) :
    Does m (operations ++ [operation]) after where
  uncleared := by
    intro hmem
    rcases List.mem_append.mp hmem with hmem | hmem
    · exact h.uncleared hmem
    · exact huncleared (List.mem_singleton.mp hmem).symm
  stack := by rw [hstack, h.stack, List.foldl_append, List.foldl_cons, List.foldl_nil]
  offset := hoffset.trans h.offset
  refusals := by
    rw [hrefusals, ScopeStack.refusalsOver_concat, ← h.stack, h.refusals, h.offset]
    by_cases hrefused : operation.answer? before.stack = some false
    · rw [if_pos hrefused, if_pos hrefused, List.replicate_succ]
      rfl
    · rw [if_neg hrefused, if_neg hrefused]
      rfl

/-- An operation that is no push leaves no note. -/
theorem Does.unasked (h : Does m operations before) (operation : Operation)
    (huncleared : operation ≠ .clear) (hunasked : operation.asked? = none)
    (hstack : after.stack = before.stack.apply operation)
    (hoffset : after.offset = before.offset) (hnotes : after.notes = before.notes) :
    Does m (operations ++ [operation]) after := by
  refine h.concat huncleared hstack hoffset ?_
  have hanswer : operation.answer? before.stack = none := by
    simp [Operation.answer?, hunasked]
  rw [hanswer, if_neg (by simp), Machine.refusals, hnotes]
  rfl

theorem Does.push (h : Does m operations before) (boundary : Bool) (role : Role) (resume : Mode)
    (name : String) :
    Does m (operations ++ [.push boundary role resume (some name)])
      (before.push boundary role resume name) := by
  have hstack := (push_fields before boundary role resume name).2.2
  cases hfull : before.stack.isFull with
  | true =>
      rw [push_of_isFull _ _ _ _ _ hfull] at hstack ⊢
      refine h.concat (by simp) hstack rfl ?_
      simp [Operation.answer?, Operation.asked?, hfull, Machine.refusals, Machine.note,
        Note.refusal?]
  | false =>
      rw [push_of_not_isFull _ _ _ _ _ hfull] at hstack ⊢
      refine h.concat (by simp) hstack rfl ?_
      simp [Operation.answer?, Operation.asked?, hfull, Machine.refusals]

theorem Does.returnToMatch (h : Does m operations before) :
    Does m (operations ++ [.returnToMatch]) before.returnToMatch := by
  have hstack : before.returnToMatch.stack = before.stack.apply .returnToMatch := by
    unfold Machine.returnToMatch ScopeStack.apply
    cases before.stack.returnToMatch? <;> rfl
  have hoffset : before.returnToMatch.offset = before.offset := by
    unfold Machine.returnToMatch
    split <;> rfl
  exact h.unasked .returnToMatch (by simp) rfl hstack hoffset (returnToMatch_fields before).1

/-- **A way between machines** is a history of the stack. -/
theorem Walk.does {room : Nat} (walk : Walk m room after) :
    ∃ operations, Does m operations after := by
  induction walk with
  | start => exact ⟨[], .nothing m⟩
  | control _ hstack hnotes _ hoffset ih =>
      obtain ⟨operations, hdoes⟩ := ih
      exact ⟨operations, hdoes.to_same hstack hoffset (by rw [Machine.refusals, hnotes]; rfl)⟩
  | push _ _ ih =>
      obtain ⟨operations, hdoes⟩ := ih
      exact ⟨_, hdoes.push _ _ _ _⟩
  | popToNamed _ ih =>
      obtain ⟨operations, hdoes⟩ := ih
      exact ⟨_, hdoes.unasked .popToNamed (by simp) rfl rfl rfl rfl⟩
  | pop _ ih =>
      obtain ⟨operations, hdoes⟩ := ih
      exact ⟨_, hdoes.unasked .pop (by simp) rfl rfl rfl rfl⟩
  | popBoundary _ ih =>
      obtain ⟨operations, hdoes⟩ := ih
      exact ⟨_, hdoes.unasked .popBoundary (by simp) rfl rfl rfl rfl⟩
  | returnToMatch _ ih =>
      obtain ⟨operations, hdoes⟩ := ih
      exact ⟨_, hdoes.returnToMatch⟩

end Does

theorem dispatch_does (m : Machine) (current next : Token) :
    ∃ operations, Does m operations (m.dispatch current next) := by
  cases dispatch_outcome m current next with
  | moves _ hheard hcourse =>
      obtain ⟨operations, hdoes⟩ := hcourse.walk_of_counted.does
      cases hheard with
      | nothing => exact ⟨operations, hdoes⟩
      | declared _ => exact ⟨operations, hdoes.of_same rfl rfl rfl⟩
  | holds _ _ _ hresult => exact ⟨[], hresult ▸ (Does.nothing m).to_same rfl rfl rfl⟩
  | settles _ hcourse =>
      obtain ⟨operations, hdoes⟩ := hcourse.walk.does
      by_cases hoperator : current.kind = .operator
      · rw [if_pos hoperator] at hdoes
        exact ⟨operations, hdoes.of_same rfl rfl rfl⟩
      · rw [if_neg hoperator] at hdoes
        obtain ⟨notes, hconfirm⟩ := confirm_eq m
        have hstack : m.confirm.stack = m.stack := by rw [hconfirm]
        have hoffset : m.confirm.offset = m.offset := by rw [hconfirm]
        exact ⟨operations, hdoes.of_same hstack hoffset m.refusals_confirm⟩

/-- **A step** is a history of the stack, and what is refused is noted at the token. -/
theorem step_does (m : Machine) (current next : Token) :
    ∃ operations, Does { m with offset := current.start } operations (m.step current next) := by
  obtain ⟨operations, hdoes⟩ := dispatch_does { m with offset := current.start } current next
  refine ⟨operations, ?_⟩
  unfold step
  dsimp only
  split
  · exact hdoes
  · exact hdoes.to_same rfl rfl rfl

/-! ## What a run does to the stack -/

/-- A run leaves the refusals that were there where they are. -/
theorem refusals_suffix_readAll (m : Machine) (last : Token) (tokens : List Token) :
    m.refusals <:+ (m.readAll last tokens).refusals := by
  induction tokens generalizing m with
  | nil => exact List.suffix_refl _
  | cons token rest ih =>
      obtain ⟨operations, hdoes⟩ := step_does m token (rest.headD last)
      have hstep : m.refusals <:+ (m.step token (rest.headD last)).refusals := by
        rw [hdoes.refusals]
        exact List.suffix_append _ _
      exact hstep.trans (ih _)

/-- **A run** is a history of the stack, in parts of one token each. -/
theorem readAll_does (m : Machine) (last : Token) (tokens : List Token) :
    ∃ parts : List (List Operation), parts.length = tokens.length ∧
      (∀ part ∈ parts, .clear ∉ part) ∧
      ∀ front back, tokens = front ++ back → (m.readAll (back.headD last) front).stack =
        (parts.take front.length).flatten.foldl ScopeStack.apply m.stack := by
  induction tokens generalizing m with
  | nil =>
      refine ⟨[], rfl, by simp, ?_⟩
      intro front back hsplit
      obtain ⟨rfl, rfl⟩ := List.append_eq_nil_iff.mp hsplit.symm
      rfl
  | cons token rest ih =>
      obtain ⟨operations, hdoes⟩ := step_does m token (rest.headD last)
      obtain ⟨parts, hlength, huncleared, hstack⟩ := ih (m.step token (rest.headD last))
      refine ⟨operations :: parts, by simp [hlength], ?_, ?_⟩
      · intro part hpart
        rcases List.mem_cons.mp hpart with rfl | hpart
        · exact hdoes.uncleared
        · exact huncleared part hpart
      · intro front back hsplit
        cases front with
        | nil => rfl
        | cons first front =>
            obtain ⟨rfl, hrest⟩ := List.cons.inj hsplit
            have hnext : front.headD (back.headD last) = rest.headD last := by
              rw [hrest]
              cases front <;> rfl
            rw [readAll, hnext, hstack front back hrest, hdoes.stack, List.length_cons,
              List.take_succ_cons, List.flatten_cons, List.foldl_append]

section Partway

variable {capacity : Nat} {text : String} {front back : List Token} {token : Token}

/-- The whole run goes on from where a part of it has come. -/
theorem partway_append :
    partway capacity text (front ++ back) [] =
      (partway capacity text front back).readAll (Token.endAt text.utf8ByteSize) back :=
  readAll_append _ _ _ _

/-- If anything is refused, there is a token with which that starts. -/
theorem exists_first_refusal (hnone : (partway capacity text front back).stack.refused = 0)
    (hsome : (partway capacity text (front ++ back) []).stack.refused ≠ 0) :
    ∃ before token behind, front ++ back = before ++ token :: behind ∧
      (partway capacity text before (token :: behind)).stack.refused = 0 ∧
      (partway capacity text (before ++ [token]) behind).stack.refused ≠ 0 := by
  induction back generalizing front with
  | nil =>
      rw [List.append_nil] at hsome
      exact absurd hnone hsome
  | cons token back ih =>
      by_cases hstill : (partway capacity text (front ++ [token]) back).stack.refused = 0
      · rw [List.append_cons] at hsome ⊢
        exact ih hstill hsome
      · exact ⟨front, token, back, rfl, hnone, hstill⟩

/-- **The earliest refusal** is noted at the token with which refusing starts. -/
theorem refusals_first (hnone : (partway capacity text front (token :: back)).stack.refused = 0)
    (hsome : (partway capacity text (front ++ [token]) back).stack.refused ≠ 0) :
    ∃ later, (partway capacity text (front ++ token :: back) []).refusals.reverse =
      token.start :: later := by
  have hbefore : (partway capacity text front (token :: back)).refusals = [] := by
    rw [← List.length_eq_zero_iff, partway_tallied, hnone]
  obtain ⟨operations, hdoes⟩ := step_does (partway capacity text front (token :: back)) token
    (back.headD (Token.endAt text.utf8ByteSize))
  rw [← partway_concat] at hdoes
  have hcount := ScopeStack.refused_foldl hdoes.uncleared
    (partway capacity text front (token :: back)).stack
  rw [hnone, Nat.zero_add] at hcount
  obtain ⟨k, hk⟩ : ∃ k, (partway capacity text front (token :: back)).stack.refusalsOver
      operations = k + 1 := by
    rw [hdoes.stack] at hsome
    exact Nat.exists_eq_succ_of_ne_zero (hcount ▸ hsome)
  have hnoted : (partway capacity text (front ++ [token]) back).refusals =
      List.replicate (k + 1) token.start := by
    rw [← hk, hdoes.refusals]
    exact (congrArg _ hbefore).trans (List.append_nil _)
  obtain ⟨later, hlater⟩ := refusals_suffix_readAll
    (partway capacity text (front ++ [token]) back) (Token.endAt text.utf8ByteSize) back
  refine ⟨List.replicate k token.start ++ later.reverse, ?_⟩
  rw [List.append_cons, partway_append, ← hlater, hnoted, List.reverse_append,
    List.reverse_replicate, List.replicate_succ, List.cons_append]

end Partway

end Machine

/-! ## A whole text -/

/-- A run over a text as a history of the stack, in parts of one token each: whenever some
tokens have been read, their parts make the stack that the machine has then. -/
structure Account (capacity : Nat) (text : String) (parts : List (List Operation)) : Prop where
  length : parts.length = (tokenize text).length
  uncleared : ∀ part ∈ parts, .clear ∉ part
  stack : ∀ front back, tokenize text = front ++ back →
    (Machine.partway capacity text front back).stack =
      ScopeStack.after capacity (parts.take front.length).flatten

/-- The number of pushes that are refused in some parts of a run. -/
def refusedIn (capacity : Nat) (parts : List (List Operation)) : Nat :=
  (ScopeStack.empty capacity).refusalsOver parts.flatten

/-- What it means that overflow is reported once and exactly. -/
structure OverflowReported (options : Options) (text : String) (parts : List (List Operation)) :
    Prop where
  atMostOne : (extract options text).diagnostics.length ≤ 1
  silent : refusedIn options.maxDepth parts = 0 → (extract options text).diagnostics = []
  /-- What is reported names the capacity and the number of all refusals, and the line of the
  token with which refusing starts. -/
  reported : 0 < refusedIn options.maxDepth parts →
    ∃ front token back before after,
      tokenize text = front ++ token :: back ∧
      refusedIn options.maxDepth (parts.take front.length) = 0 ∧
      0 < refusedIn options.maxDepth (parts.take (front.length + 1)) ∧
      text.toList = before ++ token.text.toList ++ after ∧ byteLength before = token.start ∧
      (extract options text).diagnostics =
        [⟨.warning, "scope nesting exceeded " ++ toString options.maxDepth ++ " levels; " ++
            toString (refusedIn options.maxDepth parts) ++ " scope(s) were not tracked",
          some "scope-overflow", before.count '\n' + 1⟩]

theorem exists_account (capacity : Nat) (text : String) :
    ∃ parts, Account capacity text parts := by
  obtain ⟨parts, hlength, huncleared, hstack⟩ := (Machine.start capacity).readAll_does
    (Token.endAt text.utf8ByteSize) (tokenize text)
  exact ⟨parts, hlength, huncleared, hstack⟩

/-- The stack counts the refusals in the parts of the tokens read so far. -/
theorem Account.refused {capacity : Nat} {text : String} {parts : List (List Operation)}
    (h : Account capacity text parts) {front back : List Token}
    (hsplit : tokenize text = front ++ back) :
    (Machine.partway capacity text front back).stack.refused =
      refusedIn capacity (parts.take front.length) := by
  have huncleared : .clear ∉ (parts.take front.length).flatten := by
    intro hmem
    obtain ⟨part, hpart, hclear⟩ := List.mem_flatten.mp hmem
    exact h.uncleared part (List.mem_of_mem_take hpart) hclear
  rw [h.stack front back hsplit, ScopeStack.refused_after huncleared, refusedIn]

/-- **The report** is about the token with which refusing starts, and about the tally in
the end. -/
theorem diagnostics_of_first_refusal {options : Options} {text : String}
    {front back : List Token} {token : Token} {before after : List Char}
    (hsplit : tokenize text = front ++ token :: back)
    (hnone :
      (Machine.partway options.maxDepth text front (token :: back)).stack.refused = 0)
    (hfirst : (Machine.partway options.maxDepth text (front ++ [token]) back).stack.refused ≠ 0)
    (htext : text.toList = before ++ token.text.toList ++ after)
    (hplace : byteLength before = token.start) :
    (extract options text).diagnostics =
      [.scopeOverflow options.maxDepth (runOver options.maxDepth text).stack.refused
        (before.count '\n' + 1)] := by
  obtain ⟨later, hlater⟩ := Machine.refusals_first hnone hfirst
  rw [← hsplit] at hlater
  have htallied := Machine.partway_tallied options.maxDepth text (tokenize text) []
  have hcount : later.length + 1 = (runOver options.maxDepth text).stack.refused := by
    have hlength := congrArg List.length hlater
    rw [List.length_reverse, htallied, List.length_cons] at hlength
    exact hlength.symm
  have hline : ((LineTable.ofText text).position token.start).line = before.count '\n' := by
    rw [List.append_assoc] at htext
    rw [← hplace, LineTable.line_position htext]
  calc
    (extract options text).diagnostics
        = overflowDiagnostics options.maxDepth (.ofText text) (token.start :: later) := by
          rw [← hlater]
          exact diagnostics_eq options text
    _ = _ := by rw [overflowDiagnostics, hcount, hline]

/-- **Overflow is reported once and exactly.**  Every run is a history of the stack, and
about whatever history it is, the right thing is reported. -/
theorem overflow_reported (options : Options) (text : String) :
    (∃ parts, Account options.maxDepth text parts) ∧
      ∀ parts, Account options.maxDepth text parts → OverflowReported options text parts := by
  refine ⟨exists_account options.maxDepth text, fun parts haccount => ?_⟩
  have htotal : (Machine.partway options.maxDepth text (tokenize text) []).stack.refused =
      refusedIn options.maxDepth parts := by
    rw [haccount.refused (List.append_nil _).symm, ← haccount.length, List.take_length]
  constructor
  case atMostOne =>
      rw [diagnostics_eq]
      cases (runOver options.maxDepth text).refusals.reverse <;> simp [overflowDiagnostics]
  case silent =>
      intro hnone
      exact (diagnostics_eq_nil_iff options text).mpr (htotal.trans hnone)
  case reported =>
      intro hsome
      have hstart : (Machine.partway options.maxDepth text [] (tokenize text)).stack.refused = 0 :=
        rfl
      have hend : (Machine.partway options.maxDepth text ([] ++ tokenize text) []).stack.refused
          ≠ 0 := by
        rw [List.nil_append, htotal]
        omega
      obtain ⟨front, token, back, hsplit, hnone, hfirst⟩ :=
        Machine.exists_first_refusal hstart hend
      rw [List.nil_append] at hsplit
      have hparted : tokenize text = front ++ [token] ++ back := by
        rw [hsplit, List.append_cons]
      have hbegun := haccount.refused hparted
      rw [List.length_append, List.length_singleton] at hbegun
      obtain ⟨before, after, htext, hplace⟩ : ∃ before after,
          text.toList = before ++ token.text.toList ++ after ∧ byteLength before = token.start :=
        mem_tokenize (hsplit ▸ List.mem_append_right front List.mem_cons_self)
      refine ⟨front, token, back, before, after, hsplit, ?_, by omega, htext, hplace, ?_⟩
      · rw [← haccount.refused hsplit, hnone]
      · rw [← htotal]
        exact diagnostics_of_first_refusal hsplit hnone hfirst htext hplace

/-- A stack that is full, empty and full again. -/
example : (extract { maxDepth := 1 }
    "module A = struct\nmodule B = struct end end\nmodule C = struct\nmodule D = struct end end"
      ).diagnostics =
    [⟨.warning, "scope nesting exceeded 1 levels; 2 scope(s) were not tracked",
      some "scope-overflow", 2⟩] := by
  decide +kernel

end CamlIndex
