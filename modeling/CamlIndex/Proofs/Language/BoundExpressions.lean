import CamlIndex.Proofs.Histories
import CamlIndex.Proofs.Language.LocalPatterns

/-!
# What an expression leaves on the stack

A part of an expression puts a mark on the stack; a local binding and a `try`
put a frame with a name there.  The words that take them off again look at what
is innermost: `then`, `else`, `with` and a closing parenthesis take off a single
frame, whatever it is, and an `in` all frames up to a name.  So a frame stays
where the word that is meant to take it off finds another one above it.  And
where a closing parenthesis finds the frame of a match or the mark of an
alternative, reading goes on in a pattern, in which most words mean nothing.

What is left can be told from the expression alone (`BoundExpr.ending`): of a
frame only its sort counts (`Leftover`), and nothing below matters.

* `BoundExpr.acts` — an expression ends as it is computed to end, or it takes off
  the frame below;
* `BoundExpr.lays_of_isTame` — if no `try` is in parentheses and all that is
  tried are operands, no name is left.
-/

namespace CamlIndex

/-! ## Syntax -/

theorem stands_try : Stands .kwTry "try" :=
  stands_keyword (by decide)

def Word.kwTry : Word :=
  ⟨.kwTry, "try", stands_try⟩

/-- The words of a header. -/
def Header.words (header : Header) : List Word :=
  (if header.isRec then [.fixed .kwRec] else [])
    ++ header.name.word :: header.params.map (·.word)

/-- An expression that a local binding may bind. -/
inductive BoundExpr where
  | ident (name : Lexeme .ident)
  | literal (value : Lexeme .literal)
  | parens (inner : BoundExpr)
  | ifThen (condition yes : BoundExpr)
  | ifThenElse (condition yes no : BoundExpr)
  | letIn (header : Header) (bound inner : BoundExpr)
  /-- `try tried with _ -> handler`. -/
  | tryWith (tried handler : BoundExpr)

namespace BoundExpr

def words : BoundExpr → List Word
  | .ident name => [name.word]
  | .literal value => [value.word]
  | .parens inner =>
    .fixed .parenOpen :: inner.words ++ [.fixed .parenClose]
  | .ifThen condition yes =>
    .fixed .kwIf :: condition.words ++ .fixed .kwThen :: yes.words
  | .ifThenElse condition yes no =>
    .fixed .kwIf :: condition.words ++ .fixed .kwThen :: yes.words
      ++ .fixed .kwElse :: no.words
  | .letIn header bound inner =>
    .fixed .kwLet :: header.words ++ .fixed .equals :: bound.words
      ++ .fixed .kwIn :: inner.words
  | .tryWith tried handler =>
    .kwTry :: tried.words ++ [.fixed .kwWith, .wildcard, .fixed .arrow]
      ++ handler.words

end BoundExpr

/-! ## What is left behind -/

/-- A frame that is left on the stack. -/
inductive Leftover where
  /-- The mark of a part of an expression. -/
  | part
  /-- The mark of an alternative, or the frame of a match. -/
  | arm
  /-- The frame of a `try`. -/
  | tried
  /-- The frame of a local binding. -/
  | bound
  deriving DecidableEq

namespace Leftover

def isNamed : Leftover → Bool
  | .part | .arm => false
  | .tried | .bound => true

/-- The mode in which reading goes on when the frame is taken off. -/
def resume : Leftover → Mode
  | .part => .expression
  | .arm | .tried => .pattern
  | .bound => .bodyStart

/-- A frame is of this sort. -/
structure Fits (leftover : Leftover) (frame : Frame) : Prop where
  named : frame.isNamed = leftover.isNamed
  resume : frame.resume = leftover.resume

/-- Taking off all up to a name stops at the frame of a binding. -/
theorem dropWhile_bound {laid : List Leftover} (hlaid : ∀ leftover ∈ laid, leftover.isNamed = false)
    (left : List Leftover) :
    (laid ++ .bound :: left).dropWhile (! ·.isNamed) = .bound :: left := by
  rw [List.dropWhile_append_of_pos fun leftover h => by simp [hlaid leftover h]]
  rfl

end Leftover

/-- How the machine comes out of an expression: whether it takes what follows for a pattern,
and what it has left on the stack, the innermost first. -/
structure Ending where
  inPattern : Bool
  left : List Leftover
  deriving DecidableEq

namespace Ending

/-- Nothing is left behind. -/
def clear : Ending :=
  ⟨false, []⟩

/-- In a pattern, words that open something mean nothing. -/
def push (leftover : Leftover) (ending : Ending) : Ending :=
  if ending.inPattern then ending else ⟨false, leftover :: ending.left⟩

/-- A closing parenthesis takes off what is innermost. -/
def close (ending : Ending) : Option Ending :=
  if ending.inPattern then some ending
  else
    match ending.left with
    | [] => none
    | top :: left => some ⟨top.resume == .pattern, left⟩

/-- A `then` or `else` puts a mark in place of what is innermost. -/
def branch (ending : Ending) : Option Ending :=
  if ending.inPattern then some ending
  else
    match ending.left with
    | [] => none
    | _ :: left => some ⟨false, .part :: left⟩

/-- An `in` takes off what is innermost up to a name. -/
def leave (ending : Ending) : Option Ending :=
  match ending.left.dropWhile (! ·.isNamed) with
  | [] => none
  | top :: left =>
    some (if ending.inPattern then ⟨top.resume == .pattern, left⟩ else ⟨false, .part :: left⟩)

/-- The words `with _ ->` put a match in place of what is innermost, and begin its alternative. -/
def handle (ending : Ending) : Option Ending :=
  if ending.inPattern then some ⟨false, .arm :: ending.left⟩
  else
    match ending.left with
    | [] => none
    | _ :: left => some ⟨false, .arm :: .arm :: left⟩

end Ending

/-- How the machine comes out of an expression, from how it went in.  There is none if more
is taken off than there was and has been put on the stack. -/
def BoundExpr.ending : BoundExpr → Ending → Option Ending
  | .ident _, ending | .literal _, ending => some ending
  | .parens inner, ending => (inner.ending (ending.push .part)).bind Ending.close
  | .ifThen condition yes, ending =>
    ((condition.ending (ending.push .part)).bind Ending.branch).bind yes.ending
  | .ifThenElse condition yes no, ending =>
    ((((condition.ending (ending.push .part)).bind Ending.branch).bind yes.ending).bind
      Ending.branch).bind no.ending
  | .letIn _ bound inner, ending =>
    ((bound.ending (ending.push .bound)).bind Ending.leave).bind inner.ending
  | .tryWith tried handler, ending =>
    ((tried.ending (ending.push .tried)).bind Ending.handle).bind handler.ending

/-! ## Conditions -/

/-- Frames of these sorts lie on the stack, and an expression may start. -/
def Ending.Starts (ending : Ending) (frames : List Frame) (view : View) : Prop :=
  ∃ upper, List.Forall₂ Leftover.Fits ending.left upper ∧
    At (if ending.inPattern then .pattern else .bodyStart) (upper ++ frames) view

/-- Frames of these sorts lie on the stack behind an expression. -/
def Ending.Ends (ending : Ending) (frames : List Frame) (view : View) : Prop :=
  ∃ upper, List.Forall₂ Leftover.Fits ending.left upper ∧
    if ending.inPattern then At .pattern (upper ++ frames) view else AtStart (upper ++ frames) view

/-! ## Single words -/

/-- Passing words, whatever comes behind them. -/
def PassesWords (words : List Word) (before after : View → Prop) : Prop :=
  Passes (words.map .silent) anyKind before after

namespace PassesWords

variable {front back : List Word} {before between after : View → Prop}

theorem nil (condition : View → Prop) : PassesWords [] condition condition :=
  (Reads.nil _ _).passes

theorem mono (h : PassesWords front between after) (hbefore : ∀ view, before view → between view) :
    PassesWords front before after :=
  Passes.mono h hbefore

theorem weaken (h : PassesWords front before between)
    (hafter : ∀ view, between view → after view) : PassesWords front before after :=
  Passes.weaken h hafter

/-- **Words one after the other.** -/
theorem seq (hfront : PassesWords front before between) (hback : PassesWords back between after) :
    PassesWords (front ++ back) before after := by
  unfold PassesWords
  rw [List.map_append]
  exact Passes.seq hfront hback

end PassesWords

/-- A word that means nothing in a pattern. -/
theorem reads_inPattern (word : Word)
    (hword : word.kind ∉ [.arrow, .kwIn, .kwValue, .kwAnd, .kwEnd]) (frames : List Frame) :
    Reads [.silent word] anyKind (At .pattern frames) (At .pattern frames) :=
  Reads.stay fun _ _ _ hm hkind => Machine.dispatch_pattern hm.mode (hkind ▸ hword)

theorem passes_inPattern (word : Word)
    (hword : word.kind ∉ [.arrow, .kwIn, .kwValue, .kwAnd, .kwEnd]) (frames : List Frame) :
    PassesWords [word] (At .pattern frames) (At .pattern frames) :=
  (reads_inPattern word hword frames).passes

/-- An arrow in a pattern begins an alternative. -/
theorem passes_arrow (frames : List Frame) :
    PassesWords [.fixed .arrow] (At .pattern frames)
      (At .bodyStart (.mark .pattern :: frames)) := by
  apply Reads.passes
  apply Reads.rule fun m => (m.pushMark .pattern).goto .bodyStart
  · intro m token following hm hkind _
    simp [Machine.dispatch, hm.mode, Machine.atPattern, hkind]
  · intro m hm hrefused
    exact ⟨(hm.push hrefused).goto .bodyStart, m.found_push _ _ _ _⟩

/-- A frame that is pushed with a name. -/
theorem Leftover.fits_named (leftover : Leftover) (stack : ScopeStack) {name : String}
    (hname : name ≠ "") (hnamed : leftover.isNamed = true) (role : Role) :
    leftover.Fits ⟨false, role, leftover.resume, stack.qualify name⟩ := by
  refine ⟨?_, rfl⟩
  rw [hnamed]
  simp [Frame.isNamed, stack.qualify_ne_empty hname]

theorem At.popToNamed {m : Machine} {mode : Mode} {above rest : List Frame} {frame : Frame}
    (h : At mode above m.view) (hdrop : above.dropWhile (! ·.isNamed) = frame :: rest) :
    At frame.resume rest m.popToNamed.view := by
  rw [← h.frames] at hdrop
  refine ⟨?_, ?_, h.staged⟩ <;>
    simp [Machine.view, Machine.popToNamed, ScopeStack.popToNamed, hdrop]

section Words

variable {frames : List Frame}

theorem Leftover.fits_part : Leftover.part.Fits (.mark .expression) := ⟨rfl, rfl⟩

theorem Leftover.fits_arm : Leftover.arm.Fits (.mark .pattern) := ⟨rfl, rfl⟩

theorem Leftover.fits_match : Leftover.arm.Fits ⟨false, .matchScope, .pattern, ""⟩ := ⟨rfl, rfl⟩

/-- What is passed from any frames of these sorts. -/
theorem PassesWords.starting {words : List Word} {ending : Ending} {after : View → Prop}
    (h : ∀ upper, List.Forall₂ Leftover.Fits ending.left upper →
      PassesWords words (At (if ending.inPattern then .pattern else .bodyStart)
        (upper ++ frames)) after) :
    PassesWords words (ending.Starts frames) after := by
  intro m tokens last hspell hnext hm hrefused
  obtain ⟨upper, hfits, hat⟩ := hm
  exact h upper hfits m tokens last hspell hnext hat hrefused

theorem PassesWords.ending {words : List Word} {ending : Ending} {after : View → Prop}
    (h : ∀ upper, List.Forall₂ Leftover.Fits ending.left upper →
      PassesWords words
        (fun view => if ending.inPattern then At .pattern (upper ++ frames) view
          else AtStart (upper ++ frames) view) after) :
    PassesWords words (ending.Ends frames) after := by
  intro m tokens last hspell hnext hm hrefused
  obtain ⟨upper, hfits, hat⟩ := hm
  exact h upper hfits m tokens last hspell hnext hat hrefused

/-- In a pattern what is left stays as it is. -/
theorem passes_stay (word : Word) (hword : word.kind ∉ [.arrow, .kwIn, .kwValue, .kwAnd, .kwEnd])
    (left : List Leftover) :
    PassesWords [word] (Ending.Starts ⟨true, left⟩ frames) (Ending.Starts ⟨true, left⟩ frames) :=
  PassesWords.starting fun upper hfits =>
    (passes_inPattern word hword (upper ++ frames)).weaken fun _ hm => ⟨upper, hfits, hm⟩

/-- An identifier or a literal. -/
theorem passes_operand {word : Word} (hword : word.kind = .ident ∨ word.kind = .literal)
    (ending : Ending) :
    PassesWords [word] (ending.Starts frames) (ending.Ends frames) := by
  obtain ⟨inPattern, left⟩ := ending
  cases inPattern with
  | true => exact passes_stay word (by rcases hword with h | h <;> simp [h]) left
  | false =>
      refine PassesWords.starting fun upper hfits => ?_
      have hatom := (reads_atom hword (upper ++ frames)).passes
      exact (hatom.mono fun _ hm => .inl hm).weaken fun _ hm => ⟨upper, hfits, .inr hm⟩

/-- A word that opens a part of an expression. -/
theorem passes_part {kind : TokenKind} (hkind : kind = .parenOpen ∨ kind = .kwIf)
    (hfixed : kind.spelling ≠ "") (ending : Ending) :
    PassesWords [.fixed kind hfixed] (ending.Starts frames)
      ((ending.push .part).Starts frames) := by
  obtain ⟨inPattern, left⟩ := ending
  cases inPattern with
  | true =>
      exact passes_stay (.fixed kind hfixed) (by rcases hkind with rfl | rfl <;> simp) left
  | false =>
      refine PassesWords.starting fun upper hfits => ?_
      have hopen := (@reads_open kind (by rcases hkind with rfl | rfl <;> simp) hfixed
        (upper ++ frames)).passes
      exact (hopen.mono fun _ hm => .inl hm).weaken fun _ hm =>
        ⟨.mark .expression :: upper, .cons Leftover.fits_part hfits, hm⟩

/-- A closing parenthesis takes off what is innermost. -/
theorem reads_closeTop (frame : Frame) (frames : List Frame) :
    Reads [.fixed .parenClose] anyKind (AtStart (frame :: frames))
      (At frame.resume frames) := by
  refine Reads.start (by decide) Machine.pop ?_ fun m hm _ => ⟨hm.pop, rfl⟩
  intro m token following hspelled
  unfold Machine.atExpression
  rw [hspelled]
  rfl

theorem passes_close {ending after : Ending} (h : ending.close = some after) :
    PassesWords [.fixed .parenClose] (ending.Ends frames)
      (after.Ends frames) := by
  obtain ⟨inPattern, left⟩ := ending
  cases inPattern with
  | true =>
      obtain rfl : ⟨true, left⟩ = after := by simpa [Ending.close] using h
      exact passes_stay (.fixed .parenClose) (by decide) left
  | false =>
      refine PassesWords.ending fun upper hfits => ?_
      cases hfits with
      | nil => simp [Ending.close] at h
      | @cons top frame left upper htop hleft =>
          obtain rfl : ⟨top.resume == .pattern, left⟩ = after := by
            simpa [Ending.close] using h
          have hclose := (reads_closeTop frame (upper ++ frames)).passes
          refine hclose.weaken fun view hm => ⟨upper, hleft, ?_⟩
          rw [htop.resume] at hm
          cases top with
          | part => exact .inr hm
          | bound => exact .inl hm
          | arm => exact hm
          | tried => exact hm

/-- A `then` or `else` puts a mark in place of what is innermost. -/
theorem reads_branchTop {kind : TokenKind} (hkind : kind = .kwThen ∨ kind = .kwElse)
    (hfixed : kind.spelling ≠ "") (frame : Frame) (frames : List Frame) :
    Reads [.fixed kind hfixed] anyKind (AtStart (frame :: frames))
      (At .bodyStart (.mark .expression :: frames)) := by
  refine Reads.start (by rcases hkind with rfl | rfl <;> simp) (·.pop.enterPart) ?_
    fun m hm hrefused => hm.pop.enterPart hrefused
  intro m token following hspelled
  unfold Machine.atExpression
  rw [hspelled]
  rcases hkind with rfl | rfl <;> rfl

theorem passes_branch {kind : TokenKind} (hkind : kind = .kwThen ∨ kind = .kwElse)
    (hfixed : kind.spelling ≠ "") {ending after : Ending} (h : ending.branch = some after) :
    PassesWords [.fixed kind hfixed] (ending.Ends frames) (after.Starts frames) := by
  obtain ⟨inPattern, left⟩ := ending
  cases inPattern with
  | true =>
      obtain rfl : ⟨true, left⟩ = after := by simpa [Ending.branch] using h
      exact passes_stay (.fixed kind hfixed) (by rcases hkind with rfl | rfl <;> simp) left
  | false =>
      refine PassesWords.ending fun upper hfits => ?_
      cases hfits with
      | nil => simp [Ending.branch] at h
      | @cons top frame left upper htop hleft =>
          obtain rfl : ⟨false, .part :: left⟩ = after := by simpa [Ending.branch] using h
          exact (reads_branchTop hkind hfixed frame (upper ++ frames)).passes.weaken fun _ hm =>
            ⟨.mark .expression :: upper, .cons Leftover.fits_part hleft, hm⟩

/-- An `in` inside an expression. -/
theorem passes_inStart {frame : Frame} {above rest : List Frame}
    (hdrop : above.dropWhile (! ·.isNamed) = frame :: rest) :
    PassesWords [.fixed .kwIn] (AtStart above)
      (At .bodyStart (.mark .expression :: rest)) := by
  apply Reads.passes
  refine Reads.start (by decide) (·.popToNamed.enterPart) ?_ fun m hm hrefused =>
    (hm.popToNamed hdrop).enterPart hrefused
  intro m token following hspelled
  unfold Machine.atExpression
  rw [hspelled]
  rfl

/-- An `in` in a pattern. -/
theorem passes_inHere {frame : Frame} {above rest : List Frame}
    (hdrop : above.dropWhile (! ·.isNamed) = frame :: rest) :
    PassesWords [.fixed .kwIn] (At .pattern above) (At frame.resume rest) := by
  apply Reads.passes
  apply Reads.rule Machine.popToNamed
  · intro m token following hm hkind _
    simp [Machine.dispatch, hm.mode, Machine.atPattern, hkind]
  · intro m hm _
    exact ⟨hm.popToNamed hdrop, rfl⟩

/-- What is left when an `in` has taken off all up to a name. -/
theorem Leftover.dropWhile_fits (frames : List Frame) {left : List Leftover} {upper : List Frame}
    (hfits : List.Forall₂ Leftover.Fits left upper) {top : Leftover} {rest : List Leftover}
    (h : left.dropWhile (! ·.isNamed) = top :: rest) :
    ∃ frame inner, (upper ++ frames).dropWhile (! ·.isNamed) = frame :: (inner ++ frames) ∧
      top.isNamed = true ∧ top.Fits frame ∧ List.Forall₂ Leftover.Fits rest inner := by
  induction hfits with
  | nil => cases h
  | @cons leftover frame left upper hone hleft ih =>
      rw [List.dropWhile_cons] at h
      rw [List.cons_append, List.dropWhile_cons, hone.named]
      cases hnamed : leftover.isNamed with
      | false =>
          rw [hnamed] at h
          exact ih h
      | true =>
          rw [hnamed] at h
          obtain ⟨rfl, rfl⟩ : leftover = top ∧ left = rest := by simpa using h
          exact ⟨frame, upper, rfl, hnamed, hone, hleft⟩

/-- Where no name is left, all is taken off up to a name below. -/
theorem Leftover.dropWhile_lost {left : List Leftover} {upper : List Frame}
    (hfits : List.Forall₂ Leftover.Fits left upper) (h : left.dropWhile (! ·.isNamed) = [])
    {frame : Frame} (hnamed : frame.isNamed = true) (frames : List Frame) :
    (upper ++ frame :: frames).dropWhile (! ·.isNamed) = frame :: frames := by
  induction hfits with
  | nil => simp [hnamed]
  | @cons leftover other left upper hone hleft ih =>
      rw [List.dropWhile_cons] at h
      rw [List.cons_append, List.dropWhile_cons, hone.named]
      cases hleftover : leftover.isNamed with
      | false =>
          rw [hleftover] at h
          exact ih h
      | true => simp [hleftover] at h

/-- An `in` over the frame of another binding. -/
theorem passes_leave {ending after : Ending} (h : ending.leave = some after) :
    PassesWords [.fixed .kwIn] (ending.Ends frames) (after.Starts frames) := by
  obtain ⟨inPattern, left⟩ := ending
  refine PassesWords.ending fun upper hfits => ?_
  unfold Ending.leave at h
  cases hdrop : left.dropWhile (! ·.isNamed) with
  | nil => simp [hdrop] at h
  | cons top rest =>
      simp only [hdrop, Option.some.injEq] at h
      obtain ⟨frame, inner, hframes, hnamed, htop, hinner⟩ :=
        Leftover.dropWhile_fits frames hfits hdrop
      cases inPattern with
      | true =>
          obtain rfl : ⟨top.resume == .pattern, rest⟩ = after := h
          refine (passes_inHere hframes).weaken fun view hm => ⟨inner, hinner, ?_⟩
          rw [htop.resume] at hm
          cases top with
          | part => cases hnamed
          | arm => cases hnamed
          | tried => exact hm
          | bound => exact hm
      | false =>
          obtain rfl : ⟨false, .part :: rest⟩ = after := h
          exact (passes_inStart hframes).weaken fun _ hm =>
            ⟨.mark .expression :: inner, .cons Leftover.fits_part hinner, hm⟩

/-- A `with` puts the frame of a match in place of what is innermost. -/
theorem reads_withTop (frame : Frame) (frames : List Frame) :
    Reads [.fixed .kwWith] anyKind (AtStart (frame :: frames))
      (At .pattern (⟨false, .matchScope, .pattern, ""⟩ :: frames)) := by
  refine Reads.start (by decide) (·.pop.enterMatch) ?_ fun m hm hrefused =>
    ⟨(hm.pop.push hrefused).goto .pattern, Machine.found_push _ _ _ _ _⟩
  intro m token following hspelled
  unfold Machine.atExpression
  rw [hspelled]
  rfl

/-- The words `with _ ->`. -/
theorem passes_handle {ending after : Ending} (h : ending.handle = some after) :
    PassesWords [.fixed .kwWith, .wildcard, .fixed .arrow]
      (ending.Ends frames) (after.Starts frames) := by
  have hpattern : ∀ above, PassesWords [.wildcard, .fixed .arrow]
      (At .pattern above) (At .bodyStart (.mark .pattern :: above)) := fun above =>
    (passes_inPattern .wildcard (by decide) above).seq (passes_arrow above)
  obtain ⟨inPattern, left⟩ := ending
  refine PassesWords.ending fun upper hfits => ?_
  cases inPattern with
  | true =>
      obtain rfl : ⟨false, .arm :: left⟩ = after := by simpa [Ending.handle] using h
      have hwith := passes_inPattern (.fixed .kwWith) (by decide)
        (upper ++ frames)
      exact (hwith.seq (hpattern _)).weaken fun _ hm =>
        ⟨.mark .pattern :: upper, .cons Leftover.fits_arm hfits, hm⟩
  | false =>
      cases hfits with
      | nil => simp [Ending.handle] at h
      | @cons top frame left upper htop hleft =>
          obtain rfl : ⟨false, .arm :: .arm :: left⟩ = after := by
            simpa [Ending.handle] using h
          have hwith : PassesWords [.fixed .kwWith] _ _ :=
            (reads_withTop frame (upper ++ frames)).passes
          exact (hwith.seq (hpattern _)).weaken fun _ hm =>
            ⟨.mark .pattern :: ⟨false, .matchScope, .pattern, ""⟩ :: upper,
              .cons Leftover.fits_arm (.cons Leftover.fits_match hleft), hm⟩

/-- The word `try`. -/
theorem passes_try (ending : Ending) :
    PassesWords [.kwTry] (ending.Starts frames)
      ((ending.push .tried).Starts frames) := by
  obtain ⟨inPattern, left⟩ := ending
  cases inPattern with
  | true => exact passes_stay .kwTry (by decide) left
  | false =>
      refine PassesWords.starting fun upper hfits => ?_
      apply Passes.piece
      intro m token following hspells _ hm hrefused
      have hmode : m.mode = .bodyStart := hm.mode_eq
      have hdispatch : m.dispatch token following = m.pushSoft .pattern .functionScope "try" := by
        have hkind : token.kind = .kwTry := hspells.1
        have htext : token.text = "try" := hspells.2
        simp [Machine.dispatch, hmode, Machine.atBodyStart, hkind, htext]
      rw [hdispatch] at hrefused ⊢
      have htried := Leftover.fits_named .tried m.stack (by decide : "try" ≠ "") rfl .functionScope
      exact ⟨_ :: upper, .cons htried hfits, hm.push hrefused⟩

/-- Words that mean nothing in a pattern. -/
theorem passes_wordsInPattern {words : List Word}
    (hwords : ∀ word ∈ words, word.kind ∉ [.arrow, .kwIn, .kwValue, .kwAnd, .kwEnd])
    (frames : List Frame) :
    PassesWords words (At .pattern frames) (At .pattern frames) := by
  induction words with
  | nil => exact PassesWords.nil _
  | cons word words ih =>
      obtain ⟨hword, hrest⟩ := List.forall_mem_cons.mp hwords
      exact (passes_inPattern word hword frames).seq (ih hrest)

/-- The name of a local binding. -/
theorem passes_boundName (name : LowerName) (above : List Frame) :
    PassesWords [name.word] (At .localLetName above) fun view =>
      ∃ frame, Leftover.bound.Fits frame ∧ At .parameters (frame :: above) view := by
  apply Passes.piece
  intro m token following hspells _ hm hrefused
  have hdispatch : m.dispatch token following =
      ((m.declareLocal token (Machine.bindingOf following).1).pushSoft .bodyStart
        (Machine.bindingOf following).2 name.text).goto .parameters := by
    have hkind : token.kind = .ident := hspells.1
    have htext : token.text = name.text := hspells.2
    simp [Machine.dispatch, hm.mode, Machine.atLocalLetName, hkind, htext]
  rw [hdispatch] at hrefused ⊢
  have hnoted : At .localLetName above
      (m.declareLocal token (Machine.bindingOf following).1).view := hm
  exact ⟨_, Leftover.fits_named .bound _ name.stands.ne_empty rfl _,
    (hnoted.push hrefused).goto .parameters⟩

/-- A parameter of a local binding. -/
theorem passes_param (param : LowerName) (above : List Frame) :
    PassesWords [param.word] (At .parameters above) (At .parameters above) := by
  apply Passes.word
  intro m token following hkind _ hm _
  have hdispatch : m.dispatch token following = m.declareLocal token .variableDef := by
    have hkind : token.kind = .ident := hkind
    simp [Machine.dispatch, hm.mode, Machine.atParameters, hkind]
  rw [hdispatch]
  exact hm

theorem passes_boundParams (params : List LowerName) (above : List Frame) :
    PassesWords (params.map (·.word)) (At .parameters above)
      (At .parameters above) := by
  induction params with
  | nil => exact PassesWords.nil _
  | cons param params ih => exact (passes_param param above).seq ih

/-- A header behind its `let`. -/
theorem passes_headerWords (header : Header) (above : List Frame) :
    PassesWords header.words (At .localLetName above) fun view =>
      ∃ frame, Leftover.bound.Fits frame ∧ At .parameters (frame :: above) view := by
  have hrec : PassesWords (if header.isRec then [Word.fixed .kwRec] else [])
      (At .localLetName above) (At .localLetName above) := by
    cases header.isRec with
    | false => exact PassesWords.nil _
    | true =>
        refine (Reads.stay ?_).passes
        intro m token following hm hkind
        simp [Machine.dispatch, hm.mode, Machine.atLocalLetName, hkind]
  have hparams : PassesWords (header.params.map (·.word))
      (fun view => ∃ frame, Leftover.bound.Fits frame ∧ At .parameters (frame :: above) view)
      (fun view => ∃ frame, Leftover.bound.Fits frame ∧ At .parameters (frame :: above) view) := by
    intro m tokens last hspell hnext hm hrefused
    obtain ⟨frame, hfits, hat⟩ := hm
    exact ⟨frame, hfits, passes_boundParams _ _ m tokens last hspell hnext hat hrefused⟩
  exact hrec.seq ((passes_boundName header.name above).seq hparams)

/-- The words of a header mean nothing in a pattern. -/
theorem Header.quiet_words (header : Header) {word : Word} (h : word ∈ header.words) :
    word.kind ∉ [.arrow, .kwIn, .kwValue, .kwAnd, .kwEnd] := by
  simp only [Header.words, List.mem_append, List.mem_cons, List.mem_map] at h
  rcases h with hrec | rfl | ⟨param, -, rfl⟩
  · split at hrec
    · rw [List.mem_singleton.mp hrec]
      decide
    · cases hrec
  · simp
  · simp

/-- A local binding up to its `=`. -/
theorem passes_header (header : Header) (ending : Ending) :
    PassesWords (.fixed .kwLet :: header.words ++ [.fixed .equals])
      (ending.Starts frames)
      ((ending.push .bound).Starts frames) := by
  obtain ⟨inPattern, left⟩ := ending
  refine PassesWords.starting fun upper hfits => ?_
  cases inPattern with
  | true =>
      have hlet := passes_inPattern (.fixed .kwLet) (by decide) (upper ++ frames)
      have hheader := passes_wordsInPattern (fun _ => header.quiet_words) (upper ++ frames)
      have hequals := passes_inPattern (.fixed .equals) (by decide) (upper ++ frames)
      exact ((hlet.seq hheader).seq hequals).weaken fun _ hm => ⟨upper, hfits, hm⟩
  | false =>
      have hequals : PassesWords [.fixed .equals]
          (fun view => ∃ frame, Leftover.bound.Fits frame ∧
            At .parameters (frame :: (upper ++ frames)) view)
          (Ending.Starts (⟨false, .bound :: left⟩) frames) := by
        intro m tokens last hspell hnext hm hrefused
        obtain ⟨frame, hframe, hat⟩ := hm
        exact ⟨frame :: upper, .cons hframe hfits, (reads_bodyStart (.inl rfl) (by decide)
          (frame :: (upper ++ frames))).passes m tokens last hspell hnext hat hrefused⟩
      have hlet : PassesWords [.fixed .kwLet] (At .bodyStart (upper ++ frames))
          (At .localLetName (upper ++ frames)) := (reads_let _).passes
      exact (hlet.seq (passes_headerWords header (upper ++ frames))).seq hequals

end Words

/-! ## Words that take off too much -/

/-- On the way through words, no more than `n` names are on the stack at some point. -/
def Loses (n : Nat) (words : List Word) (before : View → Prop) : Prop :=
  ∃ front, front <+: words ∧ PassesWords front before fun view => FewNamed n view.frames

namespace Loses

variable {n : Nat} {front back : List Word} {before between after : View → Prop}

theorem of_passes (h : PassesWords front before after)
    (hafter : ∀ view, after view → FewNamed n view.frames) : Loses n front before :=
  ⟨front, List.prefix_rfl, h.weaken hafter⟩

theorem append (h : Loses n front before) (back : List Word) : Loses n (front ++ back) before := by
  obtain ⟨lost, hlost, hpasses⟩ := h
  exact ⟨lost, hlost.trans (List.prefix_append front back), hpasses⟩

theorem behind (hfront : PassesWords front before between) (h : Loses n back between) :
    Loses n (front ++ back) before := by
  obtain ⟨lost, hlost, hpasses⟩ := h
  exact ⟨front ++ lost, (List.prefix_append_right_inj front).mpr hlost, hfront.seq hpasses⟩

end Loses

/-- **Words act as computed** over a frame with a name: they lead where they are computed to
lead, and if they are not computed to lead anywhere, the frame is taken off on the way. -/
structure Acts (frame : Frame) (frames : List Frame) (words : List Word)
    (effect : Ending → Option Ending) (before after : Ending → List Frame → View → Prop) :
    Prop where
  passes {ending reached : Ending} (h : effect ending = some reached) :
    PassesWords words (before ending (frame :: frames)) (after reached (frame :: frames))
  loses {ending : Ending} (h : effect ending = none) :
    Loses (frames.countP Frame.isNamed) words (before ending (frame :: frames))

section Acts

variable {frame : Frame} {frames : List Frame}

theorem Acts.total {words : List Word} {f : Ending → Ending}
    {before after : Ending → List Frame → View → Prop}
    (h : ∀ ending, PassesWords words (before ending (frame :: frames))
      (after (f ending) (frame :: frames))) :
    Acts frame frames words (fun ending => some (f ending)) before after where
  passes heq := by
    obtain rfl := Option.some_inj.mp heq
    exact h _
  loses heq := by cases heq

theorem Acts.of_words {words others : List Word} {effect : Ending → Option Ending}
    {before after : Ending → List Frame → View → Prop}
    (h : Acts frame frames words effect before after) (hwords : others = words) :
    Acts frame frames others effect before after :=
  hwords ▸ h

theorem Acts.seq {front back : List Word} {effect later : Ending → Option Ending}
    {before between after : Ending → List Frame → View → Prop}
    (hfront : Acts frame frames front effect before between)
    (hback : Acts frame frames back later between after) :
    Acts frame frames (front ++ back) (fun ending => (effect ending).bind later) before after where
  passes h := by
    obtain ⟨middle, hmiddle, hreached⟩ := Option.bind_eq_some_iff.mp h
    exact (hfront.passes hmiddle).seq (hback.passes hreached)
  loses {ending} h := by
    cases hmiddle : effect ending with
    | none => exact (hfront.loses hmiddle).append back
    | some middle =>
        have hlater : later middle = none := by simpa [hmiddle] using h
        exact (hback.loses hlater).behind (hfront.passes hmiddle)

/-- Where nothing is left, what is innermost is the frame below. -/
theorem Ending.Ends.top {view : View} (h : Ending.clear.Ends (frame :: frames) view) :
    AtStart (frame :: frames) view := by
  obtain ⟨upper, hfits, hstart⟩ := h
  cases hfits
  exact hstart

theorem fewNamed_cons_unnamed {frame : Frame} (hunnamed : frame.isNamed = false)
    (frames : List Frame) : FewNamed (frames.countP Frame.isNamed) (frame :: frames) := by
  simp [FewNamed, hunnamed]

theorem acts_part {kind : TokenKind} (hkind : kind = .parenOpen ∨ kind = .kwIf)
    (hfixed : kind.spelling ≠ "") :
    Acts frame frames [.fixed kind hfixed] (fun ending => some (ending.push .part)) Ending.Starts
      Ending.Starts :=
  .total (passes_part hkind hfixed)

theorem acts_close :
    Acts frame frames [.fixed .parenClose] Ending.close Ending.Ends
      Ending.Ends where
  passes h := passes_close h
  loses {ending} h := by
    obtain rfl : ending = .clear := by
      obtain ⟨_ | _, _ | _⟩ := ending <;> simp_all [Ending.close, Ending.clear]
    refine .of_passes ((reads_closeTop frame frames).passes.mono fun _ hm => hm.top) ?_
    intro view hm
    rw [hm.frames_eq]
    exact Nat.le_refl _

theorem acts_branch {kind : TokenKind} (hkind : kind = .kwThen ∨ kind = .kwElse)
    (hfixed : kind.spelling ≠ "") :
    Acts frame frames [.fixed kind hfixed] Ending.branch Ending.Ends Ending.Starts where
  passes h := passes_branch hkind hfixed h
  loses {ending} h := by
    obtain rfl : ending = .clear := by
      obtain ⟨_ | _, _ | _⟩ := ending <;> simp_all [Ending.branch, Ending.clear]
    refine .of_passes ((reads_branchTop hkind hfixed frame frames).passes.mono
      fun _ hm => hm.top) ?_
    intro view hm
    rw [hm.frames_eq]
    exact fewNamed_cons_unnamed rfl frames

theorem acts_handle :
    Acts frame frames [.fixed .kwWith, .wildcard, .fixed .arrow]
      Ending.handle Ending.Ends Ending.Starts where
  passes h := passes_handle h
  loses {ending} h := by
    obtain rfl : ending = .clear := by
      obtain ⟨_ | _, _ | _⟩ := ending <;> simp_all [Ending.handle, Ending.clear]
    have hwith : PassesWords [.fixed .kwWith]
        (Ending.clear.Ends (frame :: frames)) _ :=
      (reads_withTop frame frames).passes.mono fun _ hm => hm.top
    refine Loses.append (.of_passes hwith ?_) [.wildcard, .fixed .arrow]
    intro view hm
    rw [hm.frames_eq]
    exact fewNamed_cons_unnamed rfl frames

/-- Where no name is left, an `in` takes off the frame below. -/
theorem passes_inLost {ending : Ending} (h : ending.leave = none)
    (hnamed : frame.isNamed = true) :
    PassesWords [.fixed .kwIn] (ending.Ends (frame :: frames)) fun view =>
      At frame.resume frames view ∨ At .bodyStart (.mark .expression :: frames) view := by
  obtain ⟨inPattern, left⟩ := ending
  refine PassesWords.ending fun upper hfits => ?_
  have hunnamed : left.dropWhile (! ·.isNamed) = [] := by
    cases hleft : left.dropWhile (! ·.isNamed) with
    | nil => rfl
    | cons top rest => simp [Ending.leave, hleft] at h
  have hdrop := Leftover.dropWhile_lost hfits hunnamed hnamed frames
  cases inPattern with
  | true => exact (passes_inHere hdrop).weaken fun _ hm => .inl hm
  | false => exact (passes_inStart hdrop).weaken fun _ hm => .inr hm

theorem acts_leave (hnamed : frame.isNamed = true) :
    Acts frame frames [.fixed .kwIn] Ending.leave Ending.Ends Ending.Starts where
  passes h := passes_leave h
  loses h := by
    refine .of_passes (passes_inLost h hnamed) ?_
    rintro view (hm | hm)
    · rw [hm.frames_eq]
      exact Nat.le_refl _
    · rw [hm.frames_eq]
      exact fewNamed_cons_unnamed rfl frames

end Acts

/-! ## Expressions -/

/-- **An expression acts as computed**, over any frame with a name. -/
theorem BoundExpr.acts {frame : Frame} (hnamed : frame.isNamed = true) (frames : List Frame)
    (expr : BoundExpr) :
    Acts frame frames expr.words expr.ending Ending.Starts Ending.Ends := by
  induction expr with
  | ident name => exact Acts.total (passes_operand (.inl rfl))
  | literal value => exact Acts.total (passes_operand (.inr rfl))
  | parens inner ih =>
      exact ((acts_part (.inl rfl) (by decide)).seq ih).seq acts_close
  | ifThen condition yes ihc ihy =>
      have hthen := ((acts_part (.inr rfl) (by decide)).seq ihc).seq
        (acts_branch (.inl rfl) (by decide))
      exact (hthen.seq ihy).of_words (by simp [words])
  | ifThenElse condition yes no ihc ihy ihn =>
      have hthen := ((acts_part (.inr rfl) (by decide)).seq ihc).seq
        (acts_branch (.inl rfl) (by decide))
      have helse := (hthen.seq ihy).seq (acts_branch (.inr rfl) (by decide))
      exact (helse.seq ihn).of_words (by simp [words])
  | letIn header bound inner ihb ihi =>
      have hlet : Acts frame frames _ _ Ending.Starts Ending.Starts :=
        Acts.total (passes_header header)
      have hin := (hlet.seq ihb).seq (acts_leave hnamed)
      exact (hin.seq ihi).of_words (by simp [words])
  | tryWith tried handler iht ihh =>
      have htry : Acts frame frames [.kwTry] _ Ending.Starts Ending.Starts :=
        Acts.total passes_try
      exact ((htry.seq iht).seq acts_handle).seq ihh

/-! ## Expressions that leave no names -/

namespace BoundExpr

/-- An identifier or a literal, in parentheses or not. -/
def isOperand : BoundExpr → Bool
  | .ident _ | .literal _ => true
  | .parens inner => inner.isOperand
  | _ => false

def isTryFree : BoundExpr → Bool
  | .ident _ | .literal _ => true
  | .parens inner => inner.isTryFree
  | .ifThen condition yes => condition.isTryFree && yes.isTryFree
  | .ifThenElse condition yes no => condition.isTryFree && yes.isTryFree && no.isTryFree
  | .letIn _ bound inner => bound.isTryFree && inner.isTryFree
  | .tryWith _ _ => false

/-- No `try` is in parentheses, and all that is tried are operands. -/
def isTame : BoundExpr → Bool
  | .ident _ | .literal _ => true
  | .parens inner => inner.isTryFree
  | .ifThen condition yes => condition.isTame && yes.isTame
  | .ifThenElse condition yes no => condition.isTame && yes.isTame && no.isTame
  | .letIn _ bound inner => bound.isTame && inner.isTame
  | .tryWith tried handler => tried.isOperand && handler.isTame

/-- An expression only puts frames on the stack, and only such as satisfy `p`. -/
def Lays (p : Leftover → Prop) (expr : BoundExpr) : Prop :=
  ∀ left, ∃ laid, (∀ leftover ∈ laid, p leftover) ∧
    expr.ending ⟨false, left⟩ = some ⟨false, laid ++ left⟩

namespace Lays

variable {p q : Leftover → Prop} {condition yes no bound inner : BoundExpr}

/-- What lays nothing. -/
theorem of_eq {expr : BoundExpr}
    (h : ∀ left, expr.ending ⟨false, left⟩ = some ⟨false, left⟩) : expr.Lays p :=
  fun left => ⟨[], by simp, h left⟩

theorem imp {expr : BoundExpr} (h : expr.Lays p) (hpq : ∀ leftover, p leftover → q leftover) :
    expr.Lays q := by
  intro left
  obtain ⟨laid, hlaid, hleft⟩ := h left
  exact ⟨laid, fun leftover hleftover => hpq leftover (hlaid leftover hleftover), hleft⟩

/-- A part of an expression with the mark that the next part exchanges for its own. -/
theorem branch (hpart : p .part) (h : condition.Lays p) (left : List Leftover) :
    ∃ laid, (∀ leftover ∈ laid, p leftover) ∧
      (condition.ending ⟨false, .part :: left⟩).bind Ending.branch =
        some ⟨false, .part :: (laid ++ left)⟩ := by
  obtain ⟨laid, hlaid, hcondition⟩ := h (.part :: left)
  rw [hcondition]
  cases laid with
  | nil => exact ⟨[], by simp, rfl⟩
  | cons top laid =>
      have hlaid := (List.forall_mem_cons.mp hlaid).2
      exact ⟨laid ++ [.part],
        List.forall_mem_append.mpr ⟨hlaid, List.forall_mem_singleton.mpr hpart⟩,
        by simp [Ending.branch]⟩

/-- An expression that comes behind others. -/
theorem behind (h : inner.Lays p) {laid : List Leftover} (hlaid : ∀ leftover ∈ laid, p leftover)
    (left : List Leftover) :
    ∃ more, (∀ leftover ∈ more, p leftover) ∧
      inner.ending ⟨false, laid ++ left⟩ = some ⟨false, more ++ left⟩ := by
  obtain ⟨upper, hupper, hinner⟩ := h (laid ++ left)
  exact ⟨upper ++ laid, List.forall_mem_append.mpr ⟨hupper, hlaid⟩, by simpa using hinner⟩

theorem ifThen (hpart : p .part) (hcondition : condition.Lays p) (hyes : yes.Lays p) :
    (BoundExpr.ifThen condition yes).Lays p := by
  intro left
  obtain ⟨laid, hlaid, hthen⟩ := hcondition.branch hpart left
  obtain ⟨more, hmore, hending⟩ := hyes.behind (List.forall_mem_cons.mpr ⟨hpart, hlaid⟩) left
  refine ⟨more, hmore, ?_⟩
  simp only [ending, Ending.push, Bool.false_eq_true, if_false, hthen, Option.bind_some]
  exact hending

theorem ifThenElse (hpart : p .part) (hcondition : condition.Lays p) (hyes : yes.Lays p)
    (hno : no.Lays p) : (BoundExpr.ifThenElse condition yes no).Lays p := by
  intro left
  obtain ⟨laid, hlaid, hthen⟩ := hcondition.branch hpart left
  obtain ⟨between, hbetween, helse⟩ := hyes.branch hpart (laid ++ left)
  have hall : ∀ leftover ∈ .part :: (between ++ laid), p leftover :=
    List.forall_mem_cons.mpr ⟨hpart, List.forall_mem_append.mpr ⟨hbetween, hlaid⟩⟩
  obtain ⟨more, hmore, hending⟩ := hno.behind hall left
  refine ⟨more, hmore, ?_⟩
  simp only [ending, Ending.push, Bool.false_eq_true, if_false, hthen, Option.bind_some, helse]
  simpa using hending

/-- The frame of a binding goes with all that lies above it. -/
theorem letIn (hpart : p .part) (hp : ∀ leftover, p leftover → leftover.isNamed = false)
    (hbound : bound.Lays p) (hinner : inner.Lays p) (header : Header) :
    (BoundExpr.letIn header bound inner).Lays p := by
  intro left
  obtain ⟨laid, hlaid, hleft⟩ := hbound (.bound :: left)
  have hdrop := Leftover.dropWhile_bound (fun leftover h => hp leftover (hlaid leftover h)) left
  obtain ⟨more, hmore, hending⟩ := hinner.behind (List.forall_mem_singleton.mpr hpart) left
  refine ⟨more, hmore, ?_⟩
  simp only [ending, Ending.push, Bool.false_eq_true, if_false, hleft, Option.bind_some,
    Ending.leave, hdrop]
  exact hending

/-- A closing parenthesis takes off a single frame. -/
theorem parens (hpart : p .part) (hp : ∀ leftover, p leftover → leftover.resume ≠ .pattern)
    (h : inner.Lays p) : (BoundExpr.parens inner).Lays p := by
  intro left
  obtain ⟨laid, hlaid, hleft⟩ := h (.part :: left)
  cases laid with
  | nil =>
      refine ⟨[], by simp, ?_⟩
      simp only [ending, Ending.push, Bool.false_eq_true, if_false, hleft, Option.bind_some]
      rfl
  | cons top laid =>
      obtain ⟨htop, hlaid⟩ := List.forall_mem_cons.mp hlaid
      refine ⟨laid ++ [.part],
        List.forall_mem_append.mpr ⟨hlaid, List.forall_mem_singleton.mpr hpart⟩, ?_⟩
      simp only [ending, Ending.push, Bool.false_eq_true, if_false, hleft, Option.bind_some]
      simp [Ending.close, hp top htop]

end Lays

theorem ending_of_isOperand {expr : BoundExpr} (h : expr.isOperand = true)
    (left : List Leftover) : expr.ending ⟨false, left⟩ = some ⟨false, left⟩ := by
  induction expr generalizing left with
  | ident name => rfl
  | literal value => rfl
  | parens inner ih =>
      simp only [ending, Ending.push, Bool.false_eq_true, if_false, ih h, Option.bind_some]
      rfl
  | _ => cases h

/-- Without a `try`, there are only marks of parts. -/
theorem lays_of_isTryFree {expr : BoundExpr} (h : expr.isTryFree = true) :
    expr.Lays (· = .part) := by
  induction expr with
  | ident name => exact .of_eq fun _ => rfl
  | literal value => exact .of_eq fun _ => rfl
  | parens inner ih => exact .parens rfl (by rintro _ rfl; decide) (ih h)
  | ifThen condition yes ihc ihy =>
      obtain ⟨hcondition, hyes⟩ := Bool.and_eq_true_iff.mp h
      exact .ifThen rfl (ihc hcondition) (ihy hyes)
  | ifThenElse condition yes no ihc ihy ihn =>
      obtain ⟨hboth, hno⟩ := Bool.and_eq_true_iff.mp h
      obtain ⟨hcondition, hyes⟩ := Bool.and_eq_true_iff.mp hboth
      exact .ifThenElse rfl (ihc hcondition) (ihy hyes) (ihn hno)
  | letIn header bound inner ihb ihi =>
      obtain ⟨hbound, hinner⟩ := Bool.and_eq_true_iff.mp h
      exact Lays.letIn (p := (· = .part)) rfl (by rintro _ rfl; rfl) (ihb hbound) (ihi hinner)
        header
  | tryWith tried handler => cases h

/-- **Tame expressions leave no names behind.** -/
theorem lays_of_isTame {expr : BoundExpr} (h : expr.isTame = true) :
    expr.Lays (·.isNamed = false) := by
  induction expr with
  | ident name => exact .of_eq fun _ => rfl
  | literal value => exact .of_eq fun _ => rfl
  | parens inner =>
      have hparts : (BoundExpr.parens inner).Lays (· = .part) := lays_of_isTryFree h
      exact hparts.imp (by rintro _ rfl; rfl)
  | ifThen condition yes ihc ihy =>
      obtain ⟨hcondition, hyes⟩ := Bool.and_eq_true_iff.mp h
      exact .ifThen rfl (ihc hcondition) (ihy hyes)
  | ifThenElse condition yes no ihc ihy ihn =>
      obtain ⟨hboth, hno⟩ := Bool.and_eq_true_iff.mp h
      obtain ⟨hcondition, hyes⟩ := Bool.and_eq_true_iff.mp hboth
      exact .ifThenElse rfl (ihc hcondition) (ihy hyes) (ihn hno)
  | letIn header bound inner ihb ihi =>
      obtain ⟨hbound, hinner⟩ := Bool.and_eq_true_iff.mp h
      exact Lays.letIn (p := (·.isNamed = false)) rfl (fun _ hunnamed => hunnamed) (ihb hbound)
        (ihi hinner) header
  | tryWith tried handler iht ihh =>
      obtain ⟨htried, hhandler⟩ := Bool.and_eq_true_iff.mp h
      intro left
      -- nothing lies above the frame of the `try` when `with` takes it off
      have harms : ∀ leftover ∈ [Leftover.arm, .arm], leftover.isNamed = false := by decide
      obtain ⟨more, hmore, hending⟩ := (ihh hhandler).behind harms left
      refine ⟨more, hmore, ?_⟩
      simp only [ending, Ending.push, Bool.false_eq_true, if_false,
        ending_of_isOperand htried, Option.bind_some]
      exact hending

end BoundExpr

end CamlIndex
