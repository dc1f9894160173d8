import CamlIndex.Proofs.Language.Contents

/-!
# Variant types that end early

Behind the name of a constructor the next word says whether the type may be over.
If it is neither an `of` nor a bar, the machine leaves the type, and yet a bar
further on takes the type up again.  So an attribute or a signature behind a
constructor ends the scope of the type for the constructors that follow.  And as
the machine does not keep in mind that it has left the type, the next such
constructor leaves once more, which is then a module.

* `Variant.reads` — a constructor is read, with the type on the stack or without;
* `extract_variantType` — the tags of a variant type inside of modules, up to the
  constructor that leaves a module, and all of them if there is none.
-/

namespace CamlIndex

/-! ## What is intended, and what is found -/

/-- A variant type inside of modules, and the bindings behind it. -/
structure VariantInModules where
  levels : Nesting
  type : VariantType
  further : List LetItem

/-- Whether the type is left behind the last constructor. -/
def ConstructorForm.leavesAtEnd : ConstructorForm → Bool
  | .payload _ => false
  | .plain | .attributed _ | .signature _ _ => true

section

-- `again` says which modules are left on the stack when a type is left once more.
variable (again : Nesting → Nesting) (levels : Nesting) (inner : Option Scope)

/-- The modules on the stack when the type is left: `place` holds those that were
left before, or nothing while the type itself is on the stack. -/
def Nesting.leave (place : Option Nesting) : Nesting :=
  place.elim levels again

/-- What is on the stack behind a constructor that is not the last one. -/
def ConstructorForm.after (place : Option Nesting) (form : ConstructorForm) : Option Nesting :=
  if form.leaves then some (levels.leave again place) else place

/-- The constructors of a type. -/
def variantPieces (place : Option Nesting) (first : Variant) : List Variant → List Piece
  | [] => first.pieces (place.elim inner Nesting.scope)
  | next :: others =>
    first.pieces (place.elim inner Nesting.scope) ++ .fixed .pipe
      :: variantPieces (first.form.after again levels place) next others

/-- The modules on the stack behind the type. -/
def behindVariants (place : Option Nesting) (first : Variant) : List Variant → Nesting
  | [] => if first.form.leavesAtEnd then levels.leave again place else place.getD levels
  | next :: others => behindVariants (first.form.after again levels place) next others

end

/-- The constructors of a type up to the second one that leaves it. -/
def surePieces (levels : Nesting) (inner : Option Scope) (isLeft : Bool) (first : Variant) :
    List Variant → List Piece
  | [] => first.pieces (if isLeft then levels.scope else inner)
  | next :: others =>
    first.pieces (if isLeft then levels.scope else inner) ++
      if isLeft && first.form.leaves then []
      else .fixed .pipe
        :: surePieces levels inner (isLeft || first.form.leaves) next others

/-- How often a type is left. -/
def leavingsOf (first : Variant) : List Variant → Nat
  | [] => first.form.leavesAtEnd.toNat
  | next :: others => first.form.leaves.toNat + leavingsOf next others

namespace VariantInModules

variable (source : VariantInModules)

/-- The scope inside the type. -/
def inner : Option Scope :=
  Scope.inside source.levels.scope .typeDef source.type.name.text

/-- The words up to the constructors. -/
def headPieces : List Piece :=
  source.levels.opening ++ [.fixed .kwType,
    source.type.name.declares .typeDef source.levels.scope, .fixed .equals]
    ++ Piece.optional source.type.bar .pipe

/-- The words with the marks that they have if leaving the type once more leaves
the modules that `again` says. -/
def pieces (again : Nesting → Nesting) : List Piece :=
  let behind := behindVariants again source.levels none source.type.first source.type.others
  source.headPieces
    ++ variantPieces again source.levels source.inner none source.type.first source.type.others
    ++ (letPieces behind.scope source.further ++ source.levels.closing behind)

/-- The words with the marks that they have if the type is left only once. -/
def intended : List Piece :=
  source.pieces id

/-- The words with the marks that the machine gives them. -/
def found : List Piece :=
  source.pieces Nesting.left

/-- The words up to the second constructor that leaves the type. -/
def sure : List Piece :=
  source.headPieces ++
    surePieces source.levels source.inner false source.type.first source.type.others

/-- How often the type is left. -/
def leavings : Nat :=
  leavingsOf source.type.first source.type.others

end VariantInModules

/-! ## Reading constructors -/

/-- Inside a type: its frame is on the stack and waits to be left, or it has been
left and only modules are on the stack. -/
structure Standing (frame : Frame) (levels : Nesting) (place : Option Nesting) (mode : Mode)
    (view : View) : Prop extends
    At mode (place.elim (frame :: levels.frames) Nesting.frames) view where
  closing : view.closing = place.isNone

/-- Behind the name of a constructor, which is held back. -/
structure Held (frame : Frame) (levels : Nesting) (place : Option Nesting) (view : View) :
    Prop where
  mode_eq : view.mode = .constructorCheck
  frames_eq : view.frames = place.elim (frame :: levels.frames) Nesting.frames
  closing : view.closing = place.isNone

/-- Where a bar takes up the type again. -/
structure Sought (frame : Frame) (levels : Nesting) (place : Option Nesting) (view : View) :
    Prop extends Standing frame levels place .skipOpen view where
  waited : view.skip.waited = .pipe
  resume : view.skip.resume = .typeBody

/-- Behind a constructor. -/
def Variant.Behind (frame : Frame) (levels : Nesting) (place : Option Nesting) (variant : Variant)
    (view : View) : Prop :=
  match variant.form with
  | .plain => Held frame levels place view
  | .payload _ => Sought frame levels place view
  | .attributed _ | .signature _ _ =>
    Sought frame levels (some (levels.leave Nesting.left place)) view

section

variable {frame : Frame} {levels : Nesting} {place : Option Nesting}

theorem Sought.settled {view : View} (hframe : frame.Endless)
    (h : Sought frame levels place view) : Settled (place.getD levels).frames view := by
  have hat := h.toAt
  rw [← h.mode_eq] at hat
  cases place with
  | none => exact .idle (.waiting hframe h.closing hat.over) (.inr ⟨h.mode_eq, h.waited⟩)
  | some opened => exact .idle (.clear h.closing hat) (.inr ⟨h.mode_eq, h.waited⟩)

/-- The machine that has confirmed a constructor. -/
theorem Held.confirm {m : Machine} (h : Held frame levels place m.view) :
    Standing frame levels place .constructorCheck m.confirm.view ∧ m.confirm.found = m.found := by
  obtain ⟨notes, hconfirm⟩ := m.confirm_eq
  constructor
  · rw [hconfirm]
    exact ⟨⟨h.mode_eq, h.frames_eq, rfl⟩, h.closing⟩
  · rw [m.found_eq_confirm, Machine.found, m.staged_confirm]
    exact List.append_nil _

/-- The machine that has left the type behind a constructor: where the type was
not on the stack any more, that is a module less. -/
theorem Held.leaveType {m : Machine} (hframe : frame.boundary = true)
    (h : Held frame levels place m.view) :
    Sought frame levels (some (levels.leave Nesting.left place))
        m.confirm.leaveType.seekAlternative.view ∧
      m.confirm.leaveType.seekAlternative.found = m.found := by
  obtain ⟨hconfirmed, hfound⟩ := h.confirm
  have hpopped : m.confirm.popBoundary.stack.frames = (levels.leave Nesting.left place).frames ∧
      m.confirm.popBoundary.staged = none := by
    cases place with
    | none =>
        obtain ⟨-, hat⟩ := Over.popBoundary hframe hconfirmed.toAt.over
        exact ⟨hat.frames, hat.staged⟩
    | some opened =>
        obtain ⟨-, hat⟩ := opened.popBoundary hconfirmed.toAt
        exact ⟨hat.frames, hat.staged⟩
  exact ⟨⟨⟨⟨rfl, hpopped.1, hpopped.2⟩, rfl⟩, rfl, rfl⟩, hfound⟩

/-- Behind a held name most words are those behind a type that has been left. -/
theorem Machine.dispatch_check {m : Machine} {token following : Token}
    (hmode : m.mode = .constructorCheck) (hkind : token.kind ∉ [.operator, .kwOf, .pipe]) :
    m.dispatch token following =
      m.confirm.leaveType.seekAlternative.dispatch token following := by
  simp only [List.mem_cons, List.not_mem_nil, or_false, not_or] at hkind
  have hskip : m.confirm.leaveType.seekAlternative.dispatch token following =
      m.confirm.leaveType.seekAlternative.atTopLevel token following := if_neg hkind.2.2
  rw [hskip]
  unfold dispatch
  rw [hmode]
  dsimp only
  unfold atConstructorCheck
  split
  · next h => exact absurd h hkind.1
  · next h => exact absurd h hkind.2.1
  · next h => exact absurd h hkind.2.2
  · rfl

/-- **Behind a held name** most words are read as if the type had been left before. -/
theorem Reads.held {piece : Piece} {next : TokenKind → Prop} {after : View → Prop}
    (hframe : frame.boundary = true) (hword : piece.word.kind ∉ [.operator, .kwOf, .pipe])
    (h : Reads [piece] next (Sought frame levels (some (levels.leave Nesting.left place))) after) :
    Reads [piece] next (Held frame levels place) after := by
  intro m tokens last hspell hnext hm hrefused
  obtain ⟨token, rest, hspells, hrest, rfl⟩ := List.forall₂_cons_right_iff.mp hspell
  cases hrest
  let left := m.confirm.leaveType.seekAlternative
  obtain ⟨hsought, hfound⟩ := hm.leaveType hframe
  have hdispatched : m.dispatched token last = left.dispatched token last := by
    have hconfirm : { m with offset := token.start }.confirm =
        { m.confirm with offset := token.start } := by
      unfold Machine.confirm
      split <;> simp_all [Machine.note, Machine.withdraw]
    have hmode : { m with offset := token.start }.mode = .constructorCheck := hm.mode_eq
    have hkind : token.kind ∉ [.operator, .kwOf, .pipe] := hspells.1 ▸ hword
    rw [Machine.dispatched, Machine.dispatch_check hmode hkind, hconfirm]
    rfl
  obtain ⟨hview, hreached, hstack⟩ := m.step_eq token last
  obtain ⟨hview', hreached', hstack'⟩ := left.step_eq token last
  change (m.step token last).stack.refused = 0 at hrefused
  change after (m.step token last).view ∧ (m.step token last).found = _
  have hleft : (left.step token last).stack.refused = 0 := by
    rwa [hstack', ← hdispatched, ← hstack]
  have hstep := h left [token] last hspell hnext hsought hleft
  change after (left.step token last).view ∧ (left.step token last).found = _ at hstep
  rw [hview, hreached, hdispatched, ← hview', ← hreached', ← hfound]
  exact hstep

/-! ## Words of constructors -/

/-- A bar behind a held name. -/
theorem reads_barHeld :
    Reads [.fixed .pipe] anyKind (Held frame levels place)
      (Standing frame levels place .typeBody) := by
  apply Reads.rule (·.confirm.goto .typeBody)
  · intro m token following hm hkind _
    have hmode : m.mode = .constructorCheck := hm.mode_eq
    simp [Machine.dispatch, hmode, Machine.atConstructorCheck, hkind]
  · intro m hm _
    obtain ⟨hconfirmed, hfound⟩ := hm.confirm
    exact ⟨⟨hconfirmed.toAt.goto .typeBody, hconfirmed.closing⟩, hfound⟩

/-- A bar takes up the type again. -/
theorem reads_barSought :
    Reads [.fixed .pipe] anyKind (Sought frame levels place)
      (Standing frame levels place .typeBody) := by
  apply Reads.rule (·.goto .typeBody)
  · intro m token following hm hkind _
    have hwaited : m.skip.waited = .pipe := hm.waited
    have hresume : m.skip.resume = .typeBody := hm.resume
    simp [Machine.dispatch, hm.mode, Machine.atSkipOpen, hkind, hwaited, hresume]
  · intro m hm _
    exact ⟨⟨hm.toAt.goto .typeBody, hm.closing⟩, rfl⟩

/-- An `of` behind a held name. -/
theorem reads_ofHeld :
    Reads [.fixed .kwOf] anyKind (Held frame levels place) (Sought frame levels place) := by
  apply Reads.rule (·.confirm.seekAlternative)
  · intro m token following hm hkind _
    have hmode : m.mode = .constructorCheck := hm.mode_eq
    simp [Machine.dispatch, hmode, Machine.atConstructorCheck, hkind]
  · intro m hm _
    obtain ⟨hconfirmed, hfound⟩ := hm.confirm
    exact ⟨⟨⟨⟨rfl, hconfirmed.frames, hconfirmed.staged⟩, hconfirmed.closing⟩, rfl, rfl⟩, hfound⟩

/-- Words of types where a bar is sought. -/
theorem reads_sought {words : List Word} (h : ∀ word ∈ words, word.kind ∈ quiet) :
    Reads (words.map .silent) anyKind (Sought frame levels place) (Sought frame levels place) :=
  Reads.words fun word hword =>
    reads_quiet (h word hword) fun _ hm => .inr (.inl ⟨hm.mode_eq, hm.waited⟩)

theorem scoped_place {inner : Option Scope} (hinner : Scoped (frame :: levels.frames) inner)
    (place : Option Nesting) :
    Scoped (place.elim (frame :: levels.frames) Nesting.frames)
      (place.elim inner Nesting.scope) := by
  cases place with
  | none => exact hinner
  | some opened => exact opened.frames_scoped

/-- **A constructor**, in the scope of the type or of the modules that are left. -/
theorem Variant.reads (hframe : frame.boundary = true) {inner : Option Scope}
    (hinner : Scoped (frame :: levels.frames) inner) (place : Option Nesting) (variant : Variant) :
    Reads (variant.pieces (place.elim inner Nesting.scope)) anyKind
      (Standing frame levels place .typeBody) (variant.Behind frame levels place) := by
  have hname : Reads [variant.name.declares .constructorDef (place.elim inner Nesting.scope)]
      anyKind (Standing frame levels place .typeBody) (Held frame levels place) :=
    reads_heldName (scoped_place hinner place) variant.name (fun _ hm => hm.toAt)
      fun _ _ hm => ⟨rfl, hm.frames, hm.closing⟩
  have hleaves : ∀ (word : Word) (words : List Word), word.kind ∉ [.operator, .kwOf, .pipe] →
      (∀ other ∈ word :: words, other.kind ∈ quiet) →
      Reads ((word :: words).map .silent) anyKind (Held frame levels place)
        (Sought frame levels (some (levels.leave Nesting.left place))) := by
    intro word words hword hquiet
    obtain ⟨hfirst, hrest⟩ := List.forall_mem_cons.mp hquiet
    exact Reads.cons (Reads.held hframe hword (reads_sought (List.forall_mem_singleton.mpr hfirst)))
      (reads_sought hrest)
  unfold Variant.pieces Variant.Behind
  cases variant.form with
  | plain => exact hname
  | payload type =>
      exact Reads.cons hname (Reads.cons reads_ofHeld
        (reads_sought (List.forall_mem_singleton.mpr (by simp [quiet]))))
  | attributed name =>
      exact Reads.cons hname (hleaves _ _ (by decide) (by simp [quiet, Word.attributeSign]))
  | signature argument result =>
      exact Reads.cons hname (hleaves _ _ (by decide) (by simp [quiet]))

/-- Behind the constructors of a type, with the modules on the stack once it is left. -/
def Ended (frame : Frame) (levels behind : Nesting) (view : View) : Prop :=
  ∃ (place : Option Nesting) (last : Variant), last.Behind frame levels place view ∧
    behind = if last.form.leavesAtEnd then levels.leave Nesting.left place else place.getD levels

/-- A bar behind a constructor. -/
theorem reads_barVariant (variant : Variant) :
    Reads [.fixed .pipe] anyKind (variant.Behind frame levels place)
      (Standing frame levels (variant.form.after Nesting.left levels place) .typeBody) := by
  unfold Variant.Behind
  cases variant.form with
  | plain => exact reads_barHeld
  | payload _ | attributed _ | signature _ _ => exact reads_barSought

/-- **The constructors of a type.** -/
theorem reads_variants (hframe : frame.boundary = true) {inner : Option Scope}
    (hinner : Scoped (frame :: levels.frames) inner) (place : Option Nesting) (first : Variant)
    (others : List Variant) :
    Reads (variantPieces Nesting.left levels inner place first others) anyKind
      (Standing frame levels place .typeBody)
      (Ended frame levels (behindVariants Nesting.left levels place first others)) := by
  induction others generalizing place first with
  | nil => exact (first.reads hframe hinner place).weaken fun _ hm => ⟨place, first, hm, rfl⟩
  | cons next others ih =>
      exact (first.reads hframe hinner place).seq (Reads.cons (reads_barVariant first) (ih _ next))

/-- What is read behind a declaration is read behind a type that is left by then. -/
theorem Reads.ended {piece : Piece} {next : TokenKind → Prop} {behind : Nesting}
    {after : View → Prop} (hframe : frame.Endless)
    (hword : piece.word.kind ∉ [.operator, .kwOf, .pipe])
    (h : Reads [piece] next (Settled behind.frames) after) :
    Reads [piece] next (Ended frame levels behind) after := by
  intro m tokens last hspell hnext hm hrefused
  obtain ⟨place, variant, hm, hbehind⟩ := hm
  have hsettled : ∀ place : Option Nesting, behind = place.getD levels →
      Reads [piece] next (Sought frame levels place) after := by
    intro place hplace
    rw [hplace] at h
    exact h.mono fun _ hm => hm.settled hframe
  unfold Variant.Behind at hm
  cases hform : variant.form with
  | plain =>
      rw [hform] at hm hbehind
      exact Reads.held hframe.boundary hword (hsettled _ hbehind) m tokens last hspell hnext hm
        hrefused
  | payload _ =>
      rw [hform] at hm hbehind
      exact hsettled place hbehind m tokens last hspell hnext hm hrefused
  | attributed _ | signature _ _ =>
      rw [hform] at hm hbehind
      exact hsettled (some _) hbehind m tokens last hspell hnext hm hrefused

end

namespace VariantInModules

variable (source : VariantInModules)

/-- The frame of the type. -/
def frame : Frame :=
  .declared .typeScope source.levels.scope source.type.name.text

theorem endless_frame : source.frame.Endless :=
  Frame.endless_declared (by decide) source.levels.scope source.type.name.text

theorem frame_scoped : Scoped (source.frame :: source.levels.frames) source.inner :=
  .declared rfl source.levels.scope source.levels.frames source.type.name.stands.ne_empty

theorem reads_head :
    Reads source.headPieces anyKind (Settled [])
      (Standing source.frame source.levels none .typeBody) := by
  have hbar := reads_optional (reads_typeMark source.frame source.levels.frames (.inr rfl)
    (by decide)) source.type.bar
  have hequals := Reads.cons (reads_typeMark source.frame source.levels.frames (.inl rfl)
    (by decide)) hbar
  have hname := (reads_typeName source.levels.frames_scoped source.type.name).append hequals
    fun _ h => h
  have hwhole := source.levels.reads_opening.seq
    (Reads.cons (reads_type source.levels.frames) hname)
  have hhead : Reads source.headPieces anyKind (Settled [])
      (InType .typeBody source.frame source.levels.frames) := by
    simpa [headPieces] using hwhole
  exact hhead.weaken fun _ hm => ⟨hm.toAt, hm.closing⟩

/-- **The type and what stands behind it.** -/
theorem reads_found : Reads source.found Apart (Settled []) fun _ => True := by
  let behind := behindVariants Nesting.left source.levels none source.type.first source.type.others
  have hframe := source.endless_frame
  have hvariants := reads_variants hframe.boundary source.frame_scoped none source.type.first
    source.type.others
  have hlet : Reads [.fixed .kwLet] anyKind (Ended source.frame source.levels behind)
      (Begun .letName behind.frames) := Reads.ended hframe (by decide) (reads_startLet behind.frames)
  have hend : Reads [.fixed .kwEnd] Apart (Ended source.frame source.levels behind)
      (Settled behind.left.frames) := Reads.ended hframe (by decide) behind.reads_leave
  have hbehind := reads_letPiecesClosing source.levels behind hlet hend source.further
  exact (source.reads_head.seq hvariants).seq hbehind

end VariantInModules

/-! ## Where the readings agree -/

section

variable (levels : Nesting) (inner : Option Scope)

theorem variantPieces_unscoped (again again' : Nesting → Nesting) (place place' : Option Nesting)
    (first : Variant) (others : List Variant) :
    (variantPieces again levels inner place first others).map Piece.unscoped =
      (variantPieces again' levels inner place' first others).map Piece.unscoped := by
  have hone : ∀ (scope other : Option Scope) (variant : Variant),
      (variant.pieces scope).map Piece.unscoped = (variant.pieces other).map Piece.unscoped :=
    fun _ _ _ => rfl
  induction others generalizing place place' first with
  | nil => exact hone _ _ first
  | cons next others ih =>
      simp only [variantPieces, List.map_append, List.map_cons,
        hone (place.elim inner Nesting.scope) (place'.elim inner Nesting.scope) first]
      rw [ih]

/-- Up to the second constructor that leaves the type, nothing is left once more. -/
theorem surePieces_prefix (again : Nesting → Nesting) (isLeft : Bool) (first : Variant)
    (others : List Variant) :
    surePieces levels inner isLeft first others <+:
      variantPieces again levels inner (if isLeft then some levels else none) first others := by
  let place (isLeft : Bool) : Option Nesting := if isLeft then some levels else none
  have hscope : ∀ isLeft, (place isLeft).elim inner Nesting.scope =
      if isLeft then levels.scope else inner := by
    intro isLeft
    cases isLeft <;> rfl
  induction others generalizing isLeft first with
  | nil => exact ⟨[], by rw [surePieces, variantPieces, hscope, List.append_nil]⟩
  | cons next others ih =>
      rw [surePieces, variantPieces, hscope, List.prefix_append_right_inj]
      split
      · exact List.nil_prefix
      · next hagain =>
          have hafter : first.form.after again levels (place isLeft) =
              place (isLeft || first.form.leaves) := by
            cases isLeft <;> cases hleaves : first.form.leaves <;>
              simp_all [ConstructorForm.after, Nesting.leave, place]
          rw [hafter, List.prefix_cons_inj]
          exact ih _ next

/-- A type is left as it should be where that happens once only, or takes off nothing more. -/
theorem leave_eq {again : Nesting → Nesting} {place : Option Nesting}
    (hplace : place = none ∨ place = some levels) (hkept : again levels = levels ∨ place = none) :
    levels.leave again place = levels ∧ levels.leave id place = levels := by
  rcases hplace with rfl | rfl
  · exact ⟨rfl, rfl⟩
  · exact ⟨hkept.resolve_right nofun, rfl⟩

/-- **A type that is left as it should be**: with no module to leave once more, or
left only once at most. -/
theorem variants_congr (again : Nesting → Nesting) (place : Option Nesting) (first : Variant)
    (others : List Variant) (hplace : place = none ∨ place = some levels)
    (h : again levels = levels ∨ place = none ∧ leavingsOf first others ≤ 1 ∨
      leavingsOf first others = 0) :
    variantPieces again levels inner place first others =
        variantPieces id levels inner place first others ∧
      behindVariants again levels place first others =
        behindVariants id levels place first others := by
  induction others generalizing place first with
  | nil =>
      refine ⟨rfl, ?_⟩
      rw [behindVariants, behindVariants]
      split
      · next hleaves =>
          have hkept : again levels = levels ∨ place = none := by
            rcases h with h | ⟨h, -⟩ | h
            · exact .inl h
            · exact .inr h
            · simp [leavingsOf, hleaves] at h
          obtain ⟨hagain, hid⟩ := leave_eq levels hplace hkept
          rw [hagain, hid]
      · rfl
  | cons next others ih =>
      rw [leavingsOf] at h
      rw [variantPieces, variantPieces, behindVariants, behindVariants]
      cases hleaves : first.form.leaves with
      | false =>
          simp only [ConstructorForm.after, hleaves, Bool.false_eq_true, if_false]
          obtain ⟨hpieces, hbehind⟩ := ih place next hplace (by simpa [hleaves] using h)
          rw [hpieces, hbehind]
          exact ⟨rfl, rfl⟩
      | true =>
          have hkept : again levels = levels ∨ place = none ∧ leavingsOf next others = 0 := by
            rw [hleaves, Bool.toNat_true] at h
            rcases h with h | ⟨h, hone⟩ | h
            · exact .inl h
            · exact .inr ⟨h, by omega⟩
            · omega
          obtain ⟨hagain, hid⟩ := leave_eq levels hplace (hkept.imp_right And.left)
          obtain ⟨hpieces, hbehind⟩ := ih (some levels) next (.inr rfl)
            (hkept.imp_right fun h => .inr h.2)
          simp only [ConstructorForm.after, hleaves, if_true, hagain, hid]
          rw [hpieces, hbehind]
          exact ⟨rfl, rfl⟩

end

namespace VariantInModules

variable (source : VariantInModules)

/-- The readings differ in scopes alone. -/
theorem unscoped_found :
    source.found.map Piece.unscoped = source.intended.map Piece.unscoped := by
  let behind := fun again =>
    behindVariants again source.levels none source.type.first source.type.others
  have hvariants := variantPieces_unscoped source.levels source.inner Nesting.left id none none
    source.type.first source.type.others
  have hfurther := unscoped_letPieces (behind Nesting.left).scope (behind id).scope source.further
  have hclosing := source.levels.unscoped_closing (behind Nesting.left) (behind id)
  simp only [found, intended, pieces, List.map_append, hvariants]
  rw [hfurther, hclosing]

theorem sure_prefix : source.sure <+: source.found := by
  have hprefix := surePieces_prefix source.levels source.inner Nesting.left false
    source.type.first source.type.others
  unfold sure found pieces
  rw [List.append_assoc, List.prefix_append_right_inj]
  exact hprefix.trans (List.prefix_append _ _)

theorem found_eq_intended (h : source.leavings ≤ 1 ∨ source.levels = .outside) :
    source.found = source.intended := by
  have hkept : source.levels.left = source.levels ∨ (none : Option Nesting) = none ∧
      leavingsOf source.type.first source.type.others ≤ 1 ∨
      leavingsOf source.type.first source.type.others = 0 := by
    rcases h with h | h
    · exact .inr (.inl ⟨rfl, h⟩)
    · exact .inl (by rw [h]; rfl)
  obtain ⟨hpieces, hbehind⟩ := variants_congr source.levels source.inner Nesting.left
    none source.type.first source.type.others (.inl rfl) hkept
  unfold found intended pieces
  rw [hpieces, hbehind]

end VariantInModules

/-- **Variant types.**  Where the tokens of a text are the words of a variant type
inside of modules, with bindings behind it, the tags are those that are intended
apart from scopes, unless a frame did not fit; a frame of room for each word is
enough.  Up to the second constructor that leaves the type they have the scopes
that are intended, too: that of the type as far as the first such constructor,
and that of the modules around behind it.  If there is no second one, or no
module around, all tags are those that are intended. -/
theorem extract_variantType (source : VariantInModules) (localBindings : Bool) (maxDepth : Nat)
    {text : String} (hspell : Spell (tokenize text) source.intended) :
    (source.intended.length ≤ maxDepth →
        (extract { localBindings, maxDepth } text).diagnostics = []) ∧
      ((extract { localBindings, maxDepth } text).diagnostics = [] →
        (extract { localBindings, maxDepth } text).tags.map Tag.unscoped =
            (markedTags source.intended localBindings text
              ((tokenize text).map Token.start)).map Tag.unscoped ∧
          markedTags source.sure localBindings text ((tokenize text).map Token.start) <+:
            (extract { localBindings, maxDepth } text).tags ∧
          (source.leavings ≤ 1 ∨ source.levels = .outside →
            (extract { localBindings, maxDepth } text).tags =
              markedTags source.intended localBindings text ((tokenize text).map Token.start))) := by
  have hfound : Spell (tokenize text) source.found :=
    hspell.of_words (words_eq_of_unscoped source.unscoped_found)
  refine ⟨fun hroom => diagnostics_of_spell hspell localBindings hroom, fun hfits => ?_⟩
  rw [tags_of_reads source.reads_found hfound localBindings hfits]
  refine ⟨?_, ?_, fun h => ?_⟩
  · exact markedTags_unscoped source.unscoped_found _ _ _
  · exact markedTags_prefix source.sure_prefix _ _ _
  · rw [source.found_eq_intended h]

/-- An attribute in the middle of a type, inside of a module. -/
theorem extract_variantType_attribute :
    let upper (name : Char) (hname : startsWord name = true)
        (hkind : wordKind (String.ofList [name]) = .ident)
        (hupper : startsUpper (String.ofList [name]) = true) : UpperName :=
      ⟨⟨String.ofList [name], stands_word hname (by simp) hkind⟩, hupper⟩
    let lower (name : Char) (hname : startsWord name = true)
        (hkind : wordKind (String.ofList [name]) = .ident)
        (hlower : startsUpper (String.ofList [name]) = false) : LowerName :=
      ⟨⟨String.ofList [name], stands_word hname (by simp) hkind⟩, hlower⟩
    let one : Lexeme .literal := ⟨String.ofList ['1'], stands_number rfl (by simp)⟩
    let u := lower 'u' rfl rfl rfl
    let type : VariantType := ⟨lower 't' rfl rfl rfl, false,
      ⟨upper 'A' rfl rfl rfl, .attributed u.toLexeme⟩, [⟨upper 'B' rfl rfl rfl, .payload u⟩]⟩
    let source : VariantInModules := ⟨.inside (upper 'M' rfl rfl rfl) .empty .outside, type,
      [.binding ⟨false, lower 'x' rfl rfl rfl, []⟩ (.expr (.apply (.one (.literal one))))]⟩
    let text := String.ofList (spaced (source.intended.map Piece.word))
    Spell (tokenize text) source.intended ∧ source.leavings ≤ 1 ∧
      (extract { localBindings := true, maxDepth := 256 } text).tags.map Tag.content =
        [("M", .moduleDef, none), ("t", .typeDef, some ⟨.moduleDef, "M"⟩),
          ("A", .constructorDef, some ⟨.typeDef, "M/t"⟩),
          ("B", .constructorDef, some ⟨.moduleDef, "M"⟩),
          ("x", .variableDef, some ⟨.moduleDef, "M"⟩)] := by
  intro upper lower one u type source text
  have hspell : Spell (tokenize text) source.intended := spell_spaced source.intended
  have hleavings : source.leavings ≤ 1 := by decide
  obtain ⟨hroom, htags⟩ := extract_variantType source true 256 hspell
  obtain ⟨-, -, htags⟩ := htags (hroom (by decide))
  refine ⟨hspell, hleavings, ?_⟩
  rw [htags (.inl hleavings), content_markedTags (by rw [List.length_map, hspell.length_eq])]
  decide

/-- The attribute of `A` takes `B` out of the scope of the type. -/
theorem attribute_ends_type :
    (extract {} "type t = A [@a] | B of u let x = 1").tags.map Tag.content =
      [("t", .typeDef, none), ("A", .constructorDef, some ⟨.typeDef, "t"⟩),
        ("B", .constructorDef, none), ("x", .variableDef, none)] := by
  decide +kernel

end CamlIndex
