import CamlIndex.Proofs.Language.Contents
import CamlIndex.Proofs.Spacing

/-!
# Matches in brackets

An arrow marks that a pattern comes next, once its case is over, and only a bar
takes the machine back there.  A closing bracket takes off one frame, whatever
it is, so behind a match in brackets it takes off the mark of the last arrow,
not that of the opening bracket, and the machine goes on as in a pattern.  There
it stays: closing brackets and even a `let` are words of a pattern like others.
Only the arrow of another case ends it.

So what follows a definition is swallowed if and only if the last arrow of the
definition stands in brackets (`Term.endsInPattern`).

* `extract_bracketedMatch` — the tags of a definition and of what follows it.
-/

namespace CamlIndex

/-! ## Terms -/

/-- Whether there is a match in a term, and so an arrow. -/
def Term.hasMatch : Term → Bool
  | .ident _ | .literal _ => false
  | .apply callee argument => callee.hasMatch || argument.hasMatch
  | .parens inner | .brackets inner => inner.hasMatch
  | .matchWith _ _ _ | .function _ _ => true

mutual

/-- Whether the last arrow of a term stands in brackets inside the term. -/
def Term.endsInPattern : Term → Bool
  | .ident _ | .literal _ => false
  | .apply callee argument =>
    if argument.hasMatch then argument.endsInPattern else callee.endsInPattern
  | .parens inner | .brackets inner => inner.hasMatch
  | .matchWith _ _ arms | .function _ arms => arms.endsInPattern

def Arms.endsInPattern : Arms → Bool
  | .one _ body => body.endsInPattern
  | .more _ _ arms => arms.endsInPattern

end

theorem Term.endsInPattern_of_plain (term : Term) (h : term.hasMatch = false) :
    term.endsInPattern = false := by
  cases term with
  | ident _ | literal _ => rfl
  | apply callee argument =>
      simp only [hasMatch, Bool.or_eq_false_iff] at h
      rw [endsInPattern, if_neg (by simp [h.2])]
      exact callee.endsInPattern_of_plain h.1
  | parens _ | brackets _ => exact h
  | matchWith _ _ _ | function _ _ => cases h

/-! ## Where a term leads -/

/-- Where a term with a match may begin: at the start of an expression or behind
an atom, over loose frames, or in a pattern. -/
def Admits (frames : List Frame) (view : View) : Prop :=
  (∃ left, (∀ frame ∈ left, frame.IsLoose) ∧ AtStart (left ++ frames) view) ∨
    InMatch .pattern frames view

/-- Behind a term with a match. -/
def BehindMatch (inPattern : Bool) (frames : List Frame) (view : View) : Prop :=
  if inPattern then InMatch .pattern frames view else Arrowed .expression frames view

section

variable {frames : List Frame} {view : View}

theorem admits_of_over {mode : Mode} (hmode : mode = .bodyStart ∨ mode = .expression)
    (h : Over Frame.IsLoose mode frames view) : Admits frames view := by
  obtain ⟨left, hleft, hat⟩ := h
  rcases hmode with rfl | rfl
  · exact .inl ⟨left, hleft, .inl hat⟩
  · exact .inl ⟨left, hleft, .inr hat⟩

theorem BehindMatch.admits {inPattern : Bool} (h : BehindMatch inPattern frames view) :
    Admits frames view := by
  unfold BehindMatch at h
  split at h
  · exact .inr h
  · exact admits_of_over (.inr rfl) h.over

end

section

variable {pieces : List Piece} {next : TokenKind → Prop} {frames : List Frame}
  {after : View → Prop}

/-- What is read wherever a term with a match may begin. -/
theorem Reads.admits (hstart : ∀ left, (∀ frame ∈ left, Frame.IsLoose frame) →
      Reads pieces next (AtStart (left ++ frames)) after)
    (hpattern : Reads pieces next (InMatch .pattern frames) after) :
    Reads pieces next (Admits frames) after := by
  intro m tokens last hspell hnext hm hrefused
  rcases hm with ⟨left, hleft, hstarts⟩ | hm
  · exact hstart left hleft m tokens last hspell hnext hstarts hrefused
  · exact hpattern m tokens last hspell hnext hm hrefused

/-- What is read behind an arrow, over all frames there can be. -/
theorem Reads.arrowed {mode : Mode} (h : ∀ left, (∀ frame ∈ left, Frame.IsLoose frame) →
      (∃ frame ∈ left, Frame.role frame = .matchScope) →
      Reads pieces next (At mode (.mark .pattern :: (left ++ frames))) after) :
    Reads pieces next (Arrowed mode frames) after := by
  intro m tokens last hspell hnext hm hrefused
  obtain ⟨left, hleft, hmatch, hat⟩ := hm
  exact h left hleft hmatch m tokens last hspell hnext hat hrefused

end

/-! ## Terms without a match -/

/-- **A term without a match** leaves nothing behind. -/
theorem Term.reads_plain (term : Term) (h : term.hasMatch = false) (frames : List Frame) :
    Reads term.pieces anyKind (AtStart frames) (At .expression frames) := by
  have hbrackets : ∀ {opening closing : TokenKind} {hopen : opening.spelling ≠ ""}
      {hclose : closing.spelling ≠ ""} {inner : List Piece},
      opening ∈ [.parenOpen, .bracketOpen, .kwIf, .kwMatch] →
      closing ∈ [.parenClose, .bracketClose, .braceClose] →
      Reads inner anyKind (AtStart (.mark .expression :: frames))
        (At .expression (.mark .expression :: frames)) →
      Reads (.fixed opening hopen :: inner ++ [.fixed closing hclose]) anyKind (AtStart frames)
        (At .expression frames) := by
    intro opening closing hopen hclose inner hopening hclosing hinner
    exact Reads.cons (reads_open hopening hopen frames)
      ((hinner.mono fun _ hm => .inl hm).seq (reads_pop hclosing hclose _ frames))
  cases term with
  | ident name => exact reads_atom (.inl rfl) frames
  | literal value => exact reads_atom (.inr rfl) frames
  | apply callee argument =>
      simp only [hasMatch, Bool.or_eq_false_iff] at h
      exact (callee.reads_plain h.1 frames).seq
        ((argument.reads_plain h.2 frames).mono fun _ hm => .inr hm)
  | parens inner => exact hbrackets (by decide) (by decide) (inner.reads_plain h _)
  | brackets inner => exact hbrackets (by decide) (by decide) (inner.reads_plain h _)
  | matchWith _ _ _ | function _ _ => cases h

/-- In a pattern, a term without a match means nothing. -/
theorem Term.reads_inPattern (term : Term) (h : term.hasMatch = false) (frames : List Frame) :
    Reads term.pieces anyKind (InMatch .pattern frames) (InMatch .pattern frames) := by
  cases term with
  | ident name | literal name => exact reads_pattern (by simp) frames
  | apply callee argument =>
      simp only [hasMatch, Bool.or_eq_false_iff] at h
      exact (callee.reads_inPattern h.1 frames).seq (argument.reads_inPattern h.2 frames)
  | parens inner | brackets inner =>
      exact Reads.cons (reads_pattern (by decide) frames)
        ((inner.reads_inPattern h frames).seq (reads_pattern (by decide) frames))
  | matchWith _ _ _ | function _ _ => cases h

/-- A term without a match changes nothing behind one with a match. -/
theorem Term.reads_behind (term : Term) (h : term.hasMatch = false) (inPattern : Bool)
    (frames : List Frame) :
    Reads term.pieces anyKind (BehindMatch inPattern frames) (BehindMatch inPattern frames) := by
  cases inPattern with
  | true => exact term.reads_inPattern h frames
  | false =>
      exact Reads.arrowed fun left hleft hmatch =>
        ((term.reads_plain h _).mono fun _ hm => .inr hm).weaken
          fun _ hm => ⟨left, hleft, hmatch, hm⟩

/-! ## The words of matches, in any place -/

section

variable (frames : List Frame)

/-- A word that opens a part of a term, and is passed over in a pattern. -/
theorem reads_openAny {kind : TokenKind} (hkind : kind = .parenOpen ∨ kind = .bracketOpen)
    (hfixed : kind.spelling ≠ "") :
    Reads [.fixed kind hfixed] anyKind (Admits frames) (Admits frames) := by
  refine Reads.admits (fun left hleft => ?_) ?_
  · refine (reads_open (by rcases hkind with rfl | rfl <;> decide) hfixed _).weaken fun _ hm => ?_
    exact .inl ⟨.mark .expression :: left,
      List.forall_mem_cons.mpr ⟨Frame.isLoose_mark _, hleft⟩, .inl hm⟩
  · exact (reads_pattern (by rcases hkind with rfl | rfl <;> simp) frames).weaken
      fun _ hm => .inr hm

/-- **A closing bracket behind a match** leads back into a pattern. -/
theorem reads_closeAny {kind : TokenKind} (hkind : kind = .parenClose ∨ kind = .bracketClose)
    (hfixed : kind.spelling ≠ "") (inPattern : Bool) :
    Reads [.fixed kind hfixed] anyKind (BehindMatch inPattern frames)
      (InMatch .pattern frames) := by
  cases inPattern with
  | true => exact reads_pattern (by rcases hkind with rfl | rfl <;> simp) frames
  | false =>
      -- the top frame is the mark of the last arrow
      refine Reads.arrowed fun left hleft hmatch => ?_
      exact (reads_pop (by rcases hkind with rfl | rfl <;> decide) hfixed _ _).weaken
        fun _ hm => ⟨left, hleft, hmatch, hm⟩

/-- A `with` takes off one frame, and opens the alternatives of a match. -/
theorem reads_withOver {left : List Frame} (hleft : ∀ frame ∈ left, frame.IsLoose)
    (top : Frame) :
    Reads [.fixed .kwWith] anyKind (At .expression (top :: (left ++ frames)))
      (InMatch .pattern frames) := by
  apply Reads.rule (·.pop.enterMatch)
  · intro m token following hm hkind _
    simp [Machine.dispatch, hm.mode, Machine.atExpression, hkind]
  · intro m hm hrefused
    exact hm.pop.enterMatch hleft hrefused

theorem reads_withAny (inPattern : Bool) :
    Reads [.fixed .kwWith] anyKind (BehindMatch inPattern frames) (InMatch .pattern frames) := by
  cases inPattern with
  | true => exact reads_pattern (by decide) frames
  | false => exact Reads.arrowed fun left hleft _ => reads_withOver frames hleft _

theorem reads_functionAny :
    Reads [.fixed .kwFunction] anyKind (Admits frames) (InMatch .pattern frames) := by
  refine Reads.admits (fun left hleft => ?_) (reads_pattern (by decide) frames)
  apply Reads.rule Machine.enterMatch
  · intro m token following hm hkind _
    rcases hm with hm | hm
    · simp [Machine.dispatch, hm.mode, Machine.atBodyStart, hkind]
    · simp [Machine.dispatch, hm.mode, Machine.atExpression, hkind]
  · intro m hm hrefused
    rcases hm with hm | hm
    · exact hm.enterMatch hleft hrefused
    · exact hm.enterMatch hleft hrefused

theorem reads_barAny (inPattern : Bool) :
    Reads [.fixed .pipe] anyKind (BehindMatch inPattern frames) (InMatch .pattern frames) := by
  cases inPattern with
  | true => exact reads_pattern (by decide) frames
  | false => exact (reads_bar frames).mono fun _ hm => Arrowed.inMatch hm

end

/-! ## Terms with a match -/

-- The induction is on the trees.  The frames below stay the same: what a term
-- leaves behind is loose, so the next one begins over frames of the same sort.
mutual

/-- **A term with a match** leads behind its last arrow, or into a pattern. -/
theorem Term.reads_match (term : Term) (h : term.hasMatch = true) (frames : List Frame) :
    Reads term.pieces anyKind (Admits frames) (BehindMatch term.endsInPattern frames) := by
  cases term with
  | ident _ | literal _ => cases h
  | apply callee argument =>
      cases hargument : argument.hasMatch with
      | true =>
          rw [Term.endsInPattern, if_pos hargument]
          refine Reads.seq ?_ (argument.reads_match hargument frames)
          cases hcallee : callee.hasMatch with
          | true => exact (callee.reads_match hcallee frames).weaken fun _ hm => hm.admits
          | false =>
              exact Reads.admits (fun left hleft => (callee.reads_plain hcallee _).weaken
                  fun _ hm => .inl ⟨left, hleft, .inr hm⟩)
                ((callee.reads_inPattern hcallee frames).weaken fun _ hm => .inr hm)
      | false =>
          have hcallee : callee.hasMatch = true := by simpa [Term.hasMatch, hargument] using h
          rw [Term.endsInPattern, if_neg (by simp [hargument])]
          exact (callee.reads_match hcallee frames).seq
            (argument.reads_behind hargument _ frames)
  | parens inner =>
      have hinner : inner.hasMatch = true := h
      rw [Term.endsInPattern, hinner]
      exact Reads.cons (reads_openAny frames (.inl rfl) (by decide))
        ((inner.reads_match hinner frames).seq (reads_closeAny frames (.inl rfl) (by decide) _))
  | brackets inner =>
      have hinner : inner.hasMatch = true := h
      rw [Term.endsInPattern, hinner]
      exact Reads.cons (reads_openAny frames (.inr rfl) (by decide))
        ((inner.reads_match hinner frames).seq (reads_closeAny frames (.inr rfl) (by decide) _))
  | matchWith scrutinee bar arms =>
      have hmatch : Reads [.fixed .kwMatch] anyKind (InMatch .pattern frames)
          (InMatch .pattern frames) := reads_pattern (by decide) frames
      have hopen : ∀ left : List Frame, Reads [.fixed .kwMatch] anyKind (AtStart (left ++ frames))
          (At .bodyStart (.mark .expression :: (left ++ frames))) :=
        fun left => reads_open (by decide) (by decide) _
      have hwith : Reads (.fixed .kwMatch :: scrutinee.pieces ++ [.fixed .kwWith]) anyKind
          (Admits frames) (InMatch .pattern frames) := by
        cases hscrutinee : scrutinee.hasMatch with
        | true =>
            refine Reads.cons (Reads.admits (fun left hleft => ?_)
              (hmatch.weaken fun _ hm => .inr hm))
              ((scrutinee.reads_match hscrutinee frames).seq (reads_withAny frames _))
            exact (hopen left).weaken fun _ hm => .inl ⟨.mark .expression :: left,
              List.forall_mem_cons.mpr ⟨Frame.isLoose_mark _, hleft⟩, .inl hm⟩
        | false =>
            refine Reads.admits (fun left hleft => ?_) ?_
            · exact Reads.cons (hopen left)
                (((scrutinee.reads_plain hscrutinee _).mono fun _ hm => .inl hm).seq
                  (reads_withOver frames hleft _))
            · exact Reads.cons hmatch ((scrutinee.reads_inPattern hscrutinee frames).seq
                (reads_pattern (by decide) frames))
      simpa [Term.pieces, Term.endsInPattern] using hwith.seq (arms.reads_barred bar frames)
  | function bar arms =>
      exact Reads.cons (reads_functionAny frames) (arms.reads_barred bar frames)

/-- The cases of a match, behind a bar or not. -/
theorem Arms.reads_barred (arms : Arms) (bar : Bool) (frames : List Frame) :
    Reads (Piece.optional bar .pipe ++ arms.pieces) anyKind (InMatch .pattern frames)
      (BehindMatch arms.endsInPattern frames) :=
  (reads_optional (reads_pattern (by decide) frames) bar).seq (arms.reads frames)

/-- The cases of a match. -/
theorem Arms.reads (arms : Arms) (frames : List Frame) :
    Reads arms.pieces anyKind (InMatch .pattern frames)
      (BehindMatch arms.endsInPattern frames) := by
  cases arms with
  | one pattern body =>
      exact (reads_patternWords frames pattern).seq
        (Reads.cons (reads_arrowed frames) (body.reads_arm frames))
  | more pattern body arms =>
      have hrest := (body.reads_arm frames).seq
        (Reads.cons (reads_barAny frames _) (arms.reads frames))
      have hwhole := (reads_patternWords frames pattern).seq
        (Reads.cons (reads_arrowed frames) hrest)
      simpa [Arms.pieces, Arms.endsInPattern] using hwhole

/-- The body of a case. -/
theorem Term.reads_arm (term : Term) (frames : List Frame) :
    Reads term.pieces anyKind (Arrowed .bodyStart frames)
      (BehindMatch term.endsInPattern frames) := by
  cases h : term.hasMatch with
  | true =>
      exact (term.reads_match h frames).mono fun _ hm => admits_of_over (.inl rfl) hm.over
  | false =>
      rw [term.endsInPattern_of_plain h]
      exact Reads.arrowed fun left hleft hmatch =>
        ((term.reads_plain h _).mono fun _ hm => .inl hm).weaken
          fun _ hm => ⟨left, hleft, hmatch, hm⟩

end

/-! ## A definition and what follows it -/

/-- The binding as a declaration. -/
def NamedLiteral.toLetItem (binding : NamedLiteral) : LetItem :=
  .binding ⟨false, binding.name, []⟩ (.expr (.apply (.one (.literal binding.value))))

/-- Bindings where their words are words of a pattern. -/
def swallowedPieces (further : List NamedLiteral) : List Piece :=
  (letPieces none (further.map NamedLiteral.toLetItem)).map (Piece.silent ·.word)

namespace TermDefinition

variable (source : TermDefinition)

/-- The words with the marks that they are meant to have. -/
def meant : List Piece :=
  source.headPieces ++ letPieces none (source.further.map NamedLiteral.toLetItem)

/-- The words with the marks that the machine gives them. -/
def found : List Piece :=
  source.headPieces ++
    if source.term.endsInPattern then swallowedPieces source.further
    else letPieces none (source.further.map NamedLiteral.toLetItem)

/-- What the tags of the words say. -/
def contents : List (String × Kind × Option Scope) :=
  (source.name.text, .variableDef, none) ::
    if source.term.endsInPattern then []
    else source.further.map fun binding => (binding.name.text, .variableDef, none)

theorem words_found : source.found.map Piece.word = source.meant.map Piece.word := by
  have hsilent : (Piece.word ∘ fun piece : Piece => Piece.silent piece.word) = Piece.word := rfl
  unfold found meant
  split
  · rw [List.map_append, List.map_append, swallowedPieces, List.map_map, hsilent]
  · rfl

/-- The frame of the definition. -/
def frame : Frame :=
  .declared .valueScope none source.name.text

theorem reads_upToTerm :
    Reads (.fixed .kwLet :: Header.pieces ⟨false, source.name, []⟩ false none ++ [.fixed .equals])
      anyKind (Settled []) (At .bodyStart [source.frame]) := by
  have hname := Header.reads_boundary .outside ⟨false, source.name, []⟩
  have hequals := reads_bodyStart (.inl rfl : TokenKind.equals = .equals ∨ _) (by decide)
    [source.frame]
  exact Reads.cons (reads_startLet [])
    ((hname.mono fun _ hm => hm.toAt).append hequals fun _ h => h)

/-- **A definition that does not end in a pattern** leaves the machine settled. -/
theorem reads_settled (h : source.term.endsInPattern = false) :
    Reads source.headPieces anyKind (Settled []) (Settled []) := by
  have hendless : source.frame.Endless := Frame.endless_declared (by decide) none source.name.text
  have hterm : Reads source.term.pieces anyKind (At .bodyStart [source.frame])
      (Over Frame.IsLoose .expression [source.frame]) := by
    cases hmatch : source.term.hasMatch with
    | true =>
        have hreads := source.term.reads_match hmatch [source.frame]
        rw [h] at hreads
        exact (hreads.mono fun _ hm => admits_of_over (.inl rfl) hm.over).weaken
          fun _ hm => Arrowed.over hm
    | false =>
        exact ((source.term.reads_plain hmatch _).mono fun _ hm => .inl hm).weaken
          fun _ hm => hm.over
  have hwhole := source.reads_upToTerm.seq
    (hterm.weaken fun _ hm => Settled.expression hendless hm)
  simpa [headPieces] using hwhole

/-- **A definition that ends in a pattern** leaves the machine there. -/
theorem reads_unsettled (h : source.term.endsInPattern = true) :
    Reads source.headPieces anyKind (Settled []) (InMatch .pattern [source.frame]) := by
  have hmatch : source.term.hasMatch = true := by
    by_contra hplain
    have hends := source.term.endsInPattern_of_plain (by simpa using hplain)
    simp [h] at hends
  have hreads := source.term.reads_match hmatch [source.frame]
  rw [h] at hreads
  have hterm : Reads source.term.pieces anyKind (At .bodyStart [source.frame])
      (InMatch .pattern [source.frame]) :=
    hreads.mono fun _ hm => admits_of_over (.inl rfl) hm.over
  simpa [headPieces] using source.reads_upToTerm.seq hterm

end TermDefinition

/-- In a pattern, bindings mean nothing. -/
theorem reads_swallowed (frames : List Frame) (further : List NamedLiteral) :
    Reads (swallowedPieces further) anyKind (InMatch .pattern frames)
      (InMatch .pattern frames) := by
  induction further with
  | nil => exact Reads.nil _ _
  | cons binding further ih =>
      exact Reads.cons (reads_pattern (by decide) frames)
        (Reads.cons (reads_pattern (by simp) frames)
          (Reads.cons (reads_pattern (by decide) frames)
            (Reads.cons (reads_pattern (by simp [Piece.silent]) frames) ih)))

theorem TermDefinition.reads_found (source : TermDefinition) :
    Reads source.found Apart (Settled []) fun view =>
      if source.term.endsInPattern then InMatch .pattern [source.frame] view
      else Settled [] view := by
  unfold found
  cases h : source.term.endsInPattern with
  | true =>
      exact (source.reads_unsettled h).seq
        ((reads_swallowed _ source.further).narrow fun _ _ => trivial)
  | false =>
      exact (source.reads_settled h).seq
        ((reads_letPieces .outside _).narrow fun _ _ => trivial)

/-! ## What the tags say -/

mutual

/-- A term declares nothing. -/
theorem Term.mark_eq_none (term : Term) : ∀ piece ∈ term.pieces, piece.mark = none := by
  cases term with
  | ident name | literal name => simp [Term.pieces, Piece.silent]
  | apply callee argument =>
      exact List.forall_mem_append.mpr ⟨callee.mark_eq_none, argument.mark_eq_none⟩
  | parens inner | brackets inner =>
      have hinner := inner.mark_eq_none
      simpa [Term.pieces, Piece.fixed, Piece.silent, or_imp, forall_and] using hinner
  | matchWith scrutinee bar arms =>
      have hscrutinee := scrutinee.mark_eq_none
      have harms := arms.mark_eq_none
      cases bar <;>
        simpa [Term.pieces, Piece.optional, Piece.fixed, Piece.silent, or_imp, forall_and]
          using ⟨hscrutinee, harms⟩
  | function bar arms =>
      have harms := arms.mark_eq_none
      cases bar <;>
        simpa [Term.pieces, Piece.optional, Piece.fixed, Piece.silent, or_imp, forall_and]
          using harms

theorem Arms.mark_eq_none (arms : Arms) : ∀ piece ∈ arms.pieces, piece.mark = none := by
  cases arms with
  | one pattern body =>
      have hbody := body.mark_eq_none
      simpa [Arms.pieces, Piece.fixed, Piece.silent, or_imp, forall_and] using hbody
  | more pattern body arms =>
      have hbody := body.mark_eq_none
      have harms := arms.mark_eq_none
      simpa [Arms.pieces, Piece.fixed, Piece.silent, or_imp, forall_and] using ⟨hbody, harms⟩

end

theorem TermDefinition.contents_found (source : TermDefinition) (localBindings : Bool) :
    source.found.filterMap (Piece.content? localBindings) = source.contents := by
  have hterm : source.term.pieces.filterMap (Piece.content? localBindings) = [] := by
    rw [List.filterMap_eq_nil_iff]
    intro piece hpiece
    rw [Piece.content?, source.term.mark_eq_none piece hpiece]
    rfl
  have hhead : source.headPieces.filterMap (Piece.content? localBindings) =
      [(source.name.text, .variableDef, none)] := by
    rw [headPieces, List.filterMap_append]
    exact congrArg (_ :: ·) hterm
  have hswallowed : (swallowedPieces source.further).filterMap (Piece.content? localBindings) =
      [] := by
    simp [swallowedPieces, Piece.silent, Piece.content?]
  have hdeclared : (letPieces none (source.further.map NamedLiteral.toLetItem)).filterMap
        (Piece.content? localBindings) =
      source.further.map fun binding => (binding.name.text, .variableDef, none) := by
    induction source.further with
    | nil => rfl
    | cons binding further ih =>
        rw [letPieces] at ih ⊢
        rw [List.map_cons, List.flatMap_cons, List.filterMap_append, ih]
        rfl
  unfold found contents
  rw [List.filterMap_append, hhead]
  split
  · exact congrArg (_ :: ·) hswallowed
  · exact congrArg (_ :: ·) hdeclared

/-- **Matches in brackets.**  Where the definition of a name by a term is laid
out on a text, with bindings behind it, the name has a tag; the bindings have
tags if the last arrow of the term does not stand in brackets, and else none
has, unless a frame did not fit.  A frame of room for each word is enough. -/
theorem extract_bracketedMatch (source : TermDefinition) (localBindings : Bool) (maxDepth : Nat)
    {text : String} {starts : List Nat}
    (hlaid : LaidOut 0 (source.meant.map Piece.word) starts text.toList) :
    (source.meant.length ≤ maxDepth →
        (extract { localBindings, maxDepth } text).diagnostics = []) ∧
      ((extract { localBindings, maxDepth } text).diagnostics = [] →
        (extract { localBindings, maxDepth } text).tags =
            markedTags source.found localBindings text starts ∧
          (extract { localBindings, maxDepth } text).tags.map Tag.content = source.contents) := by
  refine ⟨fun hroom => diagnostics_of_laidOut hlaid localBindings hroom, fun hfits => ?_⟩
  rw [← source.words_found] at hlaid
  have htags := extract_of_reads source.reads_found hlaid localBindings hfits
  have hlength : source.found.length = starts.length := by
    obtain ⟨hspells, hstarts⟩ := tokenize_laidOut hlaid
    rw [← hstarts, List.length_map, hspells.length_eq, List.length_map]
  refine ⟨htags, ?_⟩
  rw [htags, content_markedTags hlength, source.contents_found]

/-- A match behind a match in brackets, with a binding behind it. -/
theorem extract_bracketedMatch_behind :
    let name (c : Char) (hname : startsWord c = true)
        (hkind : wordKind (String.ofList [c]) = .ident)
        (hlower : startsUpper (String.ofList [c]) = false) : LowerName :=
      ⟨⟨String.ofList [c], stands_word hname (by simp) hkind⟩, hlower⟩
    let value (c : Char) (hvalue : c.isDigit = true) : Lexeme .literal :=
      ⟨String.ofList [c], stands_number hvalue (by simp)⟩
    let f := name 'f' rfl rfl rfl
    let x := name 'x' rfl rfl rfl
    let y := name 'y' rfl rfl rfl
    let pattern : List PatternWord := [⟨x.word, by decide⟩]
    let arms : Arms := .one pattern (.literal (value '1' rfl))
    let source : TermDefinition := ⟨f,
      .matchWith (.parens (.matchWith (.ident x.toLexeme) false arms)) true arms,
      [⟨y, value '2' rfl⟩]⟩
    let words := source.meant.map Piece.word
    let text := String.ofList (spaced words)
    LaidOut 0 words (spacedStarts 0 words) text.toList ∧
      (extract { localBindings := true, maxDepth := 256 } text).tags.map Tag.content =
        [("f", .variableDef, none), ("y", .variableDef, none)] := by
  intro name value f x y pattern arms source words text
  have hlaid : LaidOut 0 words (spacedStarts 0 words) text.toList := by
    rw [String.toList_ofList]
    exact laidOut_spaced 0 words
  obtain ⟨hroom, htags⟩ := extract_bracketedMatch source true 256 hlaid
  obtain ⟨-, hcontents⟩ := htags (hroom (by decide))
  refine ⟨hlaid, hcontents.trans ?_⟩
  decide

/-- The binding behind a match in brackets has no tag. -/
theorem bracketedMatch_swallows :
    (extract {} "let f = (match x with A -> 1) let y = 2").tags.map Tag.content =
      [("f", .variableDef, none)] := by
  decide +kernel

end CamlIndex
