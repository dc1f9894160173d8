import CamlIndex.Proofs.Language.Nesting
import CamlIndex.Proofs.Spacing

/-!
# Bindings chained with `and`

An `and` behind a binding takes off the innermost named frame, which is that of
the binding, and looks at what is left.  With no frame left the chain goes on as
it began.  But with any frame left the `and` is taken for one inside an
expression, and the frame that is left may be that of a module.  Then the other
bindings of the chain are local ones: they have no tags unless local bindings
are wanted, and what follows the chain takes off the module along with the last
of them, so that it is found outside of the module (`ChainInModules.astray`).

* `extract_letChain` — the tags of a chain between modules, and of all that
  follows it: as the text means them if the chain has one binding or no module
  is around, and astray otherwise.
-/

namespace CamlIndex

/-! ## Chains -/

/-- A chain of bindings inside of modules, with further bindings behind it. -/
structure ChainInModules where
  levels : Nesting
  chain : LetChain
  further : List LetItem

namespace ChainInModules

/-- The words with the marks that they are meant to have: every binding declares
something in the innermost module around it. -/
def meant (source : ChainInModules) : List Piece :=
  source.levels.opening ++ source.chain.pieces false source.levels.scope
    ++ letPieces source.levels.scope source.further ++ source.levels.closing source.levels

/-- The words with the marks that they have where the chain goes on as a local
one.  The first word behind the chain leaves the innermost module; if that is
not its `end`, then every `end` leaves one module too many. -/
def astray (source : ChainInModules) : List Piece :=
  source.levels.opening ++ source.chain.pieces true source.levels.scope
    ++ letPieces source.levels.left.scope source.further
    ++ source.levels.closing (if source.further.isEmpty then source.levels else source.levels.left)

/-- Whether there is an `and` inside of a module. -/
def isAstray (source : ChainInModules) : Bool :=
  !source.chain.others.isEmpty && !source.levels.frames.isEmpty

/-- The words with the marks that the machine gives them. -/
def found (source : ChainInModules) : List Piece :=
  if source.isAstray then source.astray else source.meant

/-- Both are readings of the same words. -/
theorem words_astray (source : ChainInModules) :
    source.astray.map Piece.word = source.meant.map Piece.word := by
  have hfurther := words_letPieces source.levels.left.scope source.levels.scope source.further
  have hclosing := source.levels.words_closing
    (if source.further.isEmpty then source.levels else source.levels.left) source.levels
  have hchain : (source.chain.pieces true source.levels.scope).map Piece.word =
      (source.chain.pieces false source.levels.scope).map Piece.word := by
    simp [LetChain.pieces, chainedPieces, LiteralBinding.pieces, List.map_flatMap,
      fun binding : LiteralBinding => (binding.header false).words_pieces source.levels.scope
        source.levels.scope true false]
  simp only [astray, meant, List.map_append, hchain, hfurther, hclosing]

end ChainInModules

/-! ## Reading a chain -/

section

variable {frames : List Frame} {scope : Option Scope}

/-- At the end of a binding that has the top frame of the stack. -/
def InBinding (p : Frame → Prop) (frames : List Frame) (view : View) : Prop :=
  ∃ frame, p frame ∧ frame.name ≠ "" ∧ At .expression (frame :: frames) view

/-- The value of a binding whose frame has been pushed. -/
theorem reads_value (value : Lexeme .literal) (frames : List Frame) :
    Reads [.fixed .equals, .silent value.word] anyKind (At .parameters frames) (Closing frames) :=
  Reads.cons (reads_bodyStart (.inl rfl) (by decide) frames)
    ((reads_lastAtom (.inr rfl) frames).mono fun _ hm => .inl hm)

theorem LiteralBinding.reads_boundary (hscoped : Scoped frames scope) (binding : LiteralBinding)
    (isRec : Bool) :
    Reads (binding.pieces isRec false scope) anyKind (At .letName frames)
      (Closing (.declared (binding.header isRec).role scope binding.name.text :: frames)) :=
  ((binding.header isRec).reads_boundary hscoped).append (reads_value binding.value _)
    fun _ h => h

theorem LiteralBinding.reads_declared (hscoped : Scoped frames scope) (binding : LiteralBinding)
    (isRec : Bool) :
    Reads (binding.pieces isRec false scope) anyKind (At .letName frames)
      (InBinding Frame.Endless frames) := by
  have hname := Frame.opened_name_ne binding.name.stands.ne_empty true
    (binding.header isRec).role .topLevel scope
  exact (binding.reads_boundary hscoped isRec).weaken fun _ hm =>
    ⟨_, (binding.header isRec).endless, hname, hm.toAt⟩

theorem LiteralBinding.reads_local (hscoped : Scoped frames scope) (binding : LiteralBinding) :
    Reads (binding.pieces false true scope) anyKind (At .localLetName frames)
      (InBinding (·.boundary = false) frames) := by
  have hname := Frame.opened_name_ne binding.name.stands.ne_empty false
    (binding.header false).role .bodyStart scope
  have hvalue := (reads_value binding.value (.opened false (binding.header false).role .bodyStart
    scope binding.name.text :: frames)).weaken fun _ hm =>
      (⟨_, rfl, hname, hm.toAt⟩ : InBinding (·.boundary = false) frames _)
  exact ((binding.header false).reads_local hscoped).append hvalue fun _ h => h

/-- **An `and`** goes by whether a frame is left below that of the binding. -/
theorem reads_chain {p : Frame → Prop} (frames : List Frame) :
    Reads [.fixed .kwAnd] anyKind (InBinding p frames)
      (At (if frames.isEmpty then .letName else .localLetName) frames) := by
  apply Reads.rule Machine.chainBinding
  · intro m token following hm hkind _
    obtain ⟨_, -, -, hat⟩ := hm
    simp [Machine.dispatch, hat.mode, Machine.atExpression, hkind]
  · intro m hm _
    obtain ⟨frame, -, hname, hat⟩ := hm
    have hpopped := Over.popToNamed hname hat.over
    have hmode : m.mode ≠ .bodyStart := by simp [hat.mode]
    rw [Machine.chainBinding, if_neg hmode]
    dsimp only
    rw [hpopped.frames]
    exact ⟨hpopped.goto _, rfl⟩

/-- With no module around, every binding of a chain is a declaration. -/
theorem reads_chained_outside (others : List LiteralBinding) :
    Reads (chainedPieces false none others) anyKind (InBinding Frame.Endless [])
      (InBinding Frame.Endless []) := by
  induction others with
  | nil => exact Reads.nil _ _
  | cons binding others ih =>
      exact (Reads.cons (reads_chain []) (binding.reads_declared .outside false)).seq ih

/-- Inside a module, the bindings behind the first one are local. -/
theorem reads_chained_inside (hscoped : Scoped frames scope) (hframes : frames ≠ [])
    {p : Frame → Prop} (first : LiteralBinding) (others : List LiteralBinding) :
    Reads (chainedPieces true scope (first :: others)) anyKind (InBinding p frames)
      (InBinding (·.boundary = false) frames) := by
  have hand : ∀ p : Frame → Prop, Reads [.fixed .kwAnd] anyKind (InBinding p frames)
      (At .localLetName frames) := by
    intro p
    have hchain := reads_chain (p := p) frames
    rwa [if_neg (by simpa using hframes)] at hchain
  induction others generalizing first p with
  | nil => exact (Reads.cons (hand p) (first.reads_local hscoped)).seq (Reads.nil _ _)
  | cons second others ih =>
      exact (Reads.cons (hand p) (first.reads_local hscoped)).seq (ih second)

end

/-! ## What follows a chain -/

/-- At the end of a local binding between declarations of a module. -/
def Adrift (levels : Nesting) (view : View) : Prop :=
  levels.frames ≠ [] ∧ InBinding (·.boundary = false) levels.frames view

section Adrift

variable {levels : Nesting} {m : Machine}

/-- The innermost boundary is that of the module, not of the binding. -/
theorem Adrift.popBoundary (h : Adrift levels m.view) :
    m.boundaryRole? = some .moduleScope ∧ At .topLevel levels.left.frames m.popBoundary.view := by
  obtain ⟨hinside, frame, hsoft, -, hat⟩ := h
  cases levels with
  | outside => exact absurd rfl hinside
  | inside name after outer =>
      have hframes : m.stack.frames.dropWhile (! ·.boundary) =
          .declared .moduleScope outer.scope name.text :: outer.frames := by
        rw [hat.frames, Nesting.frames]
        simp [hsoft, Frame.declared, Frame.opened]
      refine ⟨?_, ?_, ?_, hat.staged⟩ <;>
        simp [Machine.view, Machine.boundaryRole?, Machine.popBoundary, ScopeStack.popBoundary,
          hframes, Frame.declared, Frame.opened, Nesting.left]

theorem Adrift.setClosing (h : Adrift levels m.view) :
    Adrift levels { m with closing := true }.view := by
  obtain ⟨hinside, frame, hsoft, hname, hat⟩ := h
  exact ⟨hinside, frame, hsoft, hname, hat.mode, hat.frames, hat.staged⟩

/-- A `let` behind the chain leaves the module, too. -/
theorem reads_let_adrift (levels : Nesting) :
    Reads [.fixed .kwLet] anyKind (Adrift levels) (Begun .letName levels.left.frames) := by
  apply Reads.silent
  intro m token following hspells _ hm _
  have hkind : token.kind = .kwLet := hspells.1
  obtain ⟨-, hpopped⟩ := hm.setClosing.popBoundary
  obtain ⟨-, _, -, -, hat⟩ := hm
  rw [Machine.dispatch_declaration hat.mode (by simp [hkind])]
  unfold Machine.atTopLevel
  rw [hkind]
  dsimp only [Machine.opening, Machine.closePrevious]
  exact ⟨⟨⟨rfl, hpopped.frames, hpopped.staged⟩, rfl⟩, rfl⟩

/-- An `end` behind the chain leaves the module, as it should. -/
theorem reads_end_adrift (levels : Nesting) :
    Reads [.fixed .kwEnd] Apart (Adrift levels) (Settled levels.left.frames) := by
  apply Reads.silent
  intro m token following hspells hapart hm _
  have hkind : token.kind = .kwEnd := hspells.1
  obtain ⟨hrole, hpopped⟩ := hm.setClosing.popBoundary
  obtain ⟨-, _, -, -, hat⟩ := hm
  rw [Machine.dispatch_declaration hat.mode (by simp [hkind])]
  unfold Machine.atTopLevel
  rw [hkind]
  dsimp only
  rw [Machine.readEnd_of_closeEnd (Machine.closeEnd_of_role hrole (.inr (.inr rfl))) hapart]
  exact ⟨Begun.settled ⟨⟨hpopped.mode, hpopped.frames, hpopped.staged⟩, rfl⟩, rfl⟩

end Adrift

/-! ## Chains in modules -/

/-- The first binding of a chain is a declaration in any case. -/
theorem LetChain.reads_first (chain : LetChain) (levels : Nesting) :
    Reads (.fixed .kwLet :: chain.first.pieces chain.isRec false levels.scope) anyKind
      (Settled levels.frames) (InBinding Frame.Endless levels.frames) :=
  Reads.cons (reads_startLet levels.frames)
    ((chain.first.reads_declared levels.frames_scoped chain.isRec).mono fun _ hm => hm.toAt)

/-- **A chain as it is meant** leaves the machine settled in the innermost module. -/
theorem LetChain.reads_meant (chain : LetChain) (levels : Nesting)
    (h : chain.others = [] ∨ levels = .outside) :
    Reads (chain.pieces false levels.scope) anyKind (Settled levels.frames)
      (Settled levels.frames) := by
  have hsettled : ∀ view, InBinding Frame.Endless levels.frames view →
      Settled levels.frames view :=
    fun _ ⟨_, hendless, _, hat⟩ => .expression hendless hat.over
  refine ((chain.reads_first levels).seq ?_).weaken hsettled
  rcases h with hothers | rfl
  · rw [hothers]
    exact Reads.nil _ _
  · exact reads_chained_outside chain.others

/-- **A chain astray** leaves the machine in a local binding. -/
theorem LetChain.reads_astray (chain : LetChain) (levels : Nesting) (hothers : chain.others ≠ [])
    (hinside : levels.frames ≠ []) :
    Reads (chain.pieces true levels.scope) anyKind (Settled levels.frames) (Adrift levels) := by
  obtain ⟨second, others, hcons⟩ := List.exists_cons_of_ne_nil hothers
  refine ((chain.reads_first levels).seq ?_).weaken fun _ hm => ⟨hinside, hm⟩
  rw [hcons]
  exact reads_chained_inside levels.frames_scoped hinside second others

/-- What follows a chain astray. -/
theorem reads_adrift (levels : Nesting) (further : List LetItem) :
    Reads (letPieces levels.left.scope further
        ++ levels.closing (if further.isEmpty then levels else levels.left)) Apart (Adrift levels)
      fun view => ∃ left : Nesting, Settled left.frames view := by
  cases further with
  | nil =>
      cases levels with
      | outside => exact (Reads.nil _ _).weaken fun _ hm => absurd rfl hm.1
      | inside name after outer =>
          exact (reads_end_adrift (.inside name after outer)).append
            (Nesting.reads_behind after outer outer)
            fun _ h => Nesting.leads_after after outer outer h
  | cons item items =>
      have hscoped := levels.left.frames_scoped
      have hitems := (item.reads hscoped (reads_let_adrift levels)).seq
        (reads_letPieces hscoped items)
      exact hitems.seq (levels.reads_closing levels.left)

namespace ChainInModules

theorem reads_found (source : ChainInModules) :
    Reads source.found Apart (Settled []) fun view => ∃ left : Nesting, Settled left.frames view := by
  unfold found isAstray
  split
  · next h =>
      simp only [Bool.and_eq_true, Bool.not_eq_true', List.isEmpty_eq_false_iff] at h
      have hchain := source.chain.reads_astray source.levels h.1 h.2
      have hwhole := source.levels.reads_opening.seq
        (hchain.seq (reads_adrift source.levels source.further))
      simpa [astray] using hwhole
  · next h =>
      have hplain : source.chain.others = [] ∨ source.levels = .outside := by
        cases hlevels : source.levels with
        | outside => exact .inr rfl
        | inside name after outer =>
            simpa [hlevels, Nesting.frames] using h
      have hfurther := (reads_letPieces source.levels.frames_scoped source.further).seq
        (source.levels.reads_closing source.levels)
      have hwhole := source.levels.reads_opening.seq
        ((source.chain.reads_meant source.levels hplain).seq hfurther)
      simpa [meant] using hwhole

end ChainInModules

/-- **Chains.**  Where a chain inside of modules is laid out on a text, the tags
are those that are meant if there is one binding or no module, and the others
are found astray, unless a frame did not fit; a frame of room for each word is
enough. -/
theorem extract_letChain (source : ChainInModules) (localBindings : Bool) (maxDepth : Nat)
    {text : String} {starts : List Nat}
    (hlaid : LaidOut 0 (source.meant.map Piece.word) starts text.toList) :
    (source.meant.length ≤ maxDepth →
        (extract { localBindings, maxDepth } text).diagnostics = []) ∧
      ((extract { localBindings, maxDepth } text).diagnostics = [] →
        (extract { localBindings, maxDepth } text).tags =
          markedTags source.found localBindings text starts) := by
  have hwords : source.found.map Piece.word = source.meant.map Piece.word := by
    unfold ChainInModules.found
    split
    · exact source.words_astray
    · rfl
  refine ⟨fun hroom => diagnostics_of_laidOut hlaid localBindings hroom, fun hfits => ?_⟩
  rw [← hwords] at hlaid
  exact extract_of_reads source.reads_found hlaid localBindings hfits

/-- A chain of two bindings in a module, with a third binding behind it. -/
theorem extract_letChain_pair :
    let binding (name value : Char) (hname : startsWord name = true)
        (hkind : wordKind (String.ofList [name]) = .ident)
        (hlower : startsUpper (String.ofList [name]) = false) (hvalue : value.isDigit = true) :
        LiteralBinding :=
      ⟨⟨⟨String.ofList [name], stands_word hname (by simp) hkind⟩, hlower⟩, [],
        ⟨String.ofList [value], stands_number hvalue (by simp)⟩⟩
    let a := binding 'a' '1' rfl rfl rfl rfl
    let b := binding 'b' '2' rfl rfl rfl rfl
    let c := binding 'c' '3' rfl rfl rfl rfl
    let m : UpperName := ⟨⟨String.ofList ['M'], stands_word rfl (by simp) rfl⟩, rfl⟩
    let source : ChainInModules := ⟨.inside m .empty .outside, ⟨false, a, [b]⟩,
      [.binding (c.header false) (.expr (.apply (.one (.literal c.value))))]⟩
    let words := source.meant.map Piece.word
    let text := String.ofList (spaced words)
    LaidOut 0 words (spacedStarts 0 words) text.toList ∧
      (extract { localBindings := true, maxDepth := 256 } text).tags =
        [⟨"M", .moduleDef, 1, 8, 8, none⟩,
          ⟨"a", .variableDef, 1, 23, 23, some ⟨.moduleDef, "M"⟩⟩,
          ⟨"b", .variableDef, 1, 33, 33, some ⟨.moduleDef, "M"⟩⟩,
          ⟨"c", .variableDef, 1, 43, 43, none⟩] := by
  intro binding a b c m source words text
  have hlaid : LaidOut 0 words (spacedStarts 0 words) text.toList := by
    rw [String.toList_ofList]
    exact laidOut_spaced 0 words
  obtain ⟨hroom, htags⟩ := extract_letChain source true 256 hlaid
  refine ⟨hlaid, (htags (hroom ?_)).trans ?_⟩
  · decide
  · decide

/-- In the module `M` the second binding of a chain has no tag, and the binding
behind the chain has lost its scope. -/
theorem letChain_leaves_module :
    (extract {} "module M = struct let a = 1 and b = 2 let c = 3 end").tags.map Tag.content =
      [("M", .moduleDef, none), ("a", .variableDef, some ⟨.moduleDef, "M"⟩),
        ("c", .variableDef, none)] := by
  decide +kernel

end CamlIndex
