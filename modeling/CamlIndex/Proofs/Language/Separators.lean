import CamlIndex.Proofs.Language.Chains
import CamlIndex.Proofs.Language.Contents

/-!
# Bindings with `;;` between them

A `;;` behind a binding takes off the boundary of the binding.  Yet the binding
has left word behind that the next declaration has to take off a boundary, and
`;;` does not withdraw it.  So the next `let` takes off one more, which is that
of the module around.  An `end` takes off one boundary in any case, and with no
module around there is nothing to lose.

* `extract_separators` — the tags of bindings in modules with `;;` behind some of
  them, and when they are those of the same bindings without any `;;`.
-/

namespace CamlIndex

/-! ## Bindings in modules -/

/-- Bindings inside of modules, with `;;` behind some of them. -/
structure SeparatedInModules where
  levels : Nesting
  items : List SeparatedBinding

/-- The modules that are left where a declaration begins, if `;;` stands in front or not. -/
def Nesting.past (opened : Nesting) (separated : Bool) : Nesting :=
  if separated then opened.left else opened

/-- The words of bindings with the marks that the machine gives them. -/
def foundItems (opened : Nesting) (separated : Bool) : List SeparatedBinding → List Piece
  | [] => []
  | item :: items =>
    item.pieces (opened.past separated).scope
      ++ foundItems (opened.past separated) item.separated items

/-- The modules that are left behind bindings. -/
def leftBehind (opened : Nesting) (separated : Bool) : List SeparatedBinding → Nesting
  | [] => opened
  | item :: items => leftBehind (opened.past separated) item.separated items

/-- Whether `;;` stands behind the last binding. -/
def lastSeparated (separated : Bool) : List SeparatedBinding → Bool
  | [] => separated
  | item :: items => lastSeparated item.separated items

namespace SeparatedInModules

/-- The words with the marks that they are meant to have. -/
def meant (source : SeparatedInModules) : List Piece :=
  source.levels.opening ++ source.items.flatMap (SeparatedBinding.pieces source.levels.scope)
    ++ source.levels.closing source.levels

/-- The words with the marks that the machine gives them. -/
def found (source : SeparatedInModules) : List Piece :=
  source.levels.opening ++ foundItems source.levels false source.items
    ++ source.levels.closing (leftBehind source.levels false source.items)

/-- The same without any `;;`. -/
def unseparated (source : SeparatedInModules) : SeparatedInModules :=
  ⟨source.levels, source.items.map fun item => { item with separated := false }⟩

/-- No module is around, or `;;` stands behind the last binding only, if at all. -/
def KeepsModules (source : SeparatedInModules) : Prop :=
  source.levels = .outside ∨ ∀ item ∈ source.items.dropLast, item.separated = false

end SeparatedInModules

/-! ## Reading bindings -/

/-- Behind a `;;`: the binding has been left, but not the word that it has to be. -/
structure Parted (frames : List Frame) (view : View) : Prop extends At .topLevel frames view where
  closing : view.closing = true

/-- Behind a binding, or in front of the first one. -/
def Behind (opened : Nesting) (separated : Bool) (view : View) : Prop :=
  if separated then Parted opened.frames view else Settled opened.frames view

section

variable {opened : Nesting}

/-- **A `let` behind `;;`** leaves a module. -/
theorem reads_letParted (opened : Nesting) :
    Reads [.fixed .kwLet] anyKind (Parted opened.frames) (Begun .letName opened.left.frames) := by
  apply Reads.rule (·.opening .letName)
  · intro m token following hm hkind _
    simp [Machine.dispatch, hm.mode, Machine.atTopLevel, hkind]
  · intro m hm _
    have hclosing : m.closing = true := hm.closing
    have hat : At .topLevel opened.frames { m with closing := false }.view :=
      ⟨hm.mode, hm.frames, hm.staged⟩
    obtain ⟨-, hpopped⟩ := opened.popBoundary hat
    rw [Machine.opening, Machine.closePrevious, if_pos hclosing]
    exact ⟨⟨⟨rfl, hpopped.frames, hpopped.staged⟩, rfl⟩, rfl⟩

/-- An `end` behind `;;` leaves one module, as it should. -/
theorem reads_endParted (opened : Nesting) :
    Reads [.fixed .kwEnd] Apart (Parted opened.frames) (Settled opened.left.frames) := by
  apply Reads.rule fun m => { m.popBoundary with closing := false }
  · intro m token following hm hkind hapart
    obtain ⟨hclosed, -⟩ := opened.popBoundary hm.toAt
    have htop : m.dispatch token following = m.readEnd following := by
      simp [Machine.dispatch, hm.mode, Machine.atTopLevel, hkind]
    rw [htop, Machine.readEnd_of_closeEnd hclosed hapart]
  · intro m hm _
    obtain ⟨-, hpopped⟩ := opened.popBoundary hm.toAt
    exact ⟨Begun.settled ⟨⟨hpopped.mode, hpopped.frames, hpopped.staged⟩, rfl⟩, rfl⟩

theorem reads_letBehind (opened : Nesting) (separated : Bool) :
    Reads [.fixed .kwLet] anyKind (Behind opened separated)
      (Begun .letName (opened.past separated).frames) := by
  cases separated with
  | true => exact reads_letParted opened
  | false => exact reads_startLet opened.frames

theorem reads_endBehind (opened : Nesting) (separated : Bool) :
    Reads [.fixed .kwEnd] Apart (Behind opened separated) (Settled opened.left.frames) := by
  cases separated with
  | true => exact reads_endParted opened
  | false => exact opened.reads_leave

/-- **A `;;`** takes off the boundary of the binding that it stands behind. -/
theorem reads_separator {frame : Frame} (hframe : frame.boundary = true) (frames : List Frame) :
    Reads (separatorPieces true) anyKind (Closing (frame :: frames)) (Parted frames) := by
  have hfirst : Reads [.fixed .semicolon] (· = .semicolon) (Closing (frame :: frames))
      (Parted frames) := by
    apply Reads.rule (·.popBoundary.goto .topLevel)
    · intro m token following hm hkind hnext
      simp [Machine.dispatch, hm.mode, Machine.atExpression, hkind, hnext]
    · intro m hm _
      obtain ⟨-, hpopped⟩ := Over.popBoundary hframe hm.toAt.over
      exact ⟨⟨hpopped.goto .topLevel, hm.closing⟩, rfl⟩
  have hsecond : Reads [.fixed .semicolon] anyKind (Parted frames) (Parted frames) := by
    apply Reads.stay
    intro m token following hm hkind
    simp [Machine.dispatch, hm.mode, Machine.atTopLevel, hkind]
  exact hfirst.append hsecond fun _ h => h

theorem SeparatedBinding.reads (item : SeparatedBinding) (opened : Nesting) (separated : Bool) :
    Reads (item.pieces (opened.past separated).scope) anyKind (Behind opened separated)
      (Behind (opened.past separated) item.separated) := by
  have hendless := @Header.endless (opened.past separated).scope (item.binding.header false)
  have hbinding := Reads.cons (reads_letBehind opened separated)
    ((item.binding.reads_boundary (opened.past separated).frames_scoped false).mono
      fun _ hm => hm.toAt)
  refine hbinding.seq ?_
  cases item.separated with
  | true => exact reads_separator hendless.boundary _
  | false => exact (Reads.nil _ _).weaken fun _ hm => .expression hendless hm.toAt.over

theorem reads_foundItems (items : List SeparatedBinding) (opened : Nesting) (separated : Bool) :
    Reads (foundItems opened separated items) anyKind (Behind opened separated)
      (Behind (leftBehind opened separated items) (lastSeparated separated items)) := by
  induction items generalizing opened separated with
  | nil => exact Reads.nil _ _
  | cons item items ih =>
      exact (item.reads opened separated).seq (ih (opened.past separated) item.separated)

theorem SeparatedInModules.reads_found (source : SeparatedInModules) :
    Reads source.found Apart (Settled []) fun _ => True :=
  (source.levels.reads_opening.seq (reads_foundItems source.items source.levels false)).seq
    (source.levels.reads_closingFrom _ (reads_endBehind _ _))

end

/-! ## What the marks say -/

section

variable {opened : Nesting} {items : List SeparatedBinding}

/-- The words are the same whatever is on the stack. -/
theorem words_foundItems (scope : Option Scope) (opened : Nesting) (separated : Bool)
    (items : List SeparatedBinding) :
    (foundItems opened separated items).map Piece.word =
      (items.flatMap (SeparatedBinding.pieces scope)).map Piece.word := by
  induction items generalizing opened separated with
  | nil => rfl
  | cons item items ih =>
      have hheader := (item.binding.header false).words_pieces (opened.past separated).scope scope
        false false
      simp [foundItems, ih, SeparatedBinding.pieces, LiteralBinding.pieces, hheader]

theorem SeparatedInModules.words_found (source : SeparatedInModules) :
    source.found.map Piece.word = source.meant.map Piece.word := by
  simp only [found, meant, List.map_append,
    words_foundItems source.levels.scope source.levels false source.items,
    source.levels.words_closing (leftBehind source.levels false source.items) source.levels]

/-- Without a `;;` in front of a binding, every module is kept. -/
theorem foundItems_of_kept (h : ∀ item ∈ items.dropLast, opened.past item.separated = opened)
    {separated : Bool} (hfirst : opened.past separated = opened) :
    foundItems opened separated items = items.flatMap (SeparatedBinding.pieces opened.scope) ∧
      leftBehind opened separated items = opened := by
  induction items generalizing separated with
  | nil => exact ⟨rfl, rfl⟩
  | cons item items ih =>
      rw [foundItems, leftBehind, hfirst, List.flatMap_cons]
      cases items with
      | nil => exact ⟨rfl, rfl⟩
      | cons second others =>
          rw [List.dropLast_cons_cons, List.forall_mem_cons] at h
          obtain ⟨hitems, hleft⟩ := ih h.2 h.1
          exact ⟨by rw [hitems], hleft⟩

/-- What a binding declares first. -/
theorem SeparatedBinding.content_head (item : SeparatedBinding) (localBindings : Bool)
    (scope : Option Scope) :
    ∃ rest, (item.pieces scope).filterMap (Piece.content? localBindings) =
      (item.binding.name.text, (item.binding.header false).kind, scope) :: rest :=
  ⟨_, rfl⟩

/-- The first `;;` in front of a binding gives the scope of that away. -/
theorem unseparated_of_contents (hscope : opened.left.scope ≠ opened.scope)
    {localBindings : Bool} {back back' : List (String × Kind × Option Scope)}
    (h : (foundItems opened false items).filterMap (Piece.content? localBindings) ++ back =
      (items.flatMap (SeparatedBinding.pieces opened.scope)).filterMap
        (Piece.content? localBindings) ++ back') :
    ∀ item ∈ items.dropLast, item.separated = false := by
  induction items with
  | nil => simp
  | cons item items ih =>
      cases items with
      | nil => simp
      | cons second others =>
          rw [foundItems, List.flatMap_cons, List.filterMap_append, List.filterMap_append,
            List.append_assoc, List.append_assoc] at h
          have hbehind := List.append_cancel_left h
          have hitem : item.separated = false := by
            by_contra hseparated
            rw [Bool.not_eq_false] at hseparated
            obtain ⟨rest, hfound⟩ := second.content_head localBindings opened.left.scope
            obtain ⟨rest', hmeant⟩ := second.content_head localBindings opened.scope
            rw [hseparated, foundItems, List.flatMap_cons, List.filterMap_append,
              List.filterMap_append, hmeant] at hbehind
            change (second.pieces opened.left.scope).filterMap (Piece.content? localBindings) ++ _
              ++ _ = _ at hbehind
            rw [hfound] at hbehind
            simp only [List.cons_append, List.cons.injEq, Prod.mk.injEq, true_and] at hbehind
            exact hscope hbehind.1
          rw [List.dropLast_cons_cons, List.forall_mem_cons]
          refine ⟨hitem, ih ?_⟩
          rwa [hitem] at hbehind

namespace SeparatedInModules

theorem found_of_keepsModules {source : SeparatedInModules} (h : source.KeepsModules) :
    source.found = source.meant := by
  have hkept : ∀ item ∈ source.items.dropLast,
      source.levels.past item.separated = source.levels := by
    intro item hitem
    rcases h with houtside | hlast
    · rw [houtside]
      cases item.separated <;> rfl
    · rw [hlast item hitem]
      rfl
  obtain ⟨hitems, hleft⟩ := @foundItems_of_kept source.levels source.items hkept false rfl
  rw [found, hitems, hleft, meant]

/-- The readings say the same if and only if no module is lost. -/
theorem contents_found_iff (source : SeparatedInModules) (localBindings : Bool) :
    source.found.filterMap (Piece.content? localBindings) =
        source.meant.filterMap (Piece.content? localBindings) ↔ source.KeepsModules := by
  constructor
  · intro h
    cases hlevels : source.levels with
    | outside => exact .inl hlevels
    | inside name after outer =>
        have hscope : source.levels.left.scope ≠ source.levels.scope := by
          rw [hlevels]
          exact (Scope.inside_ne outer.scope .moduleDef name.text).symm
        simp only [found, meant, List.filterMap_append, List.append_assoc,
          List.append_cancel_left_eq] at h
        exact .inr (unseparated_of_contents hscope h)
  · intro h
    rw [found_of_keepsModules h]

theorem keepsModules_unseparated (source : SeparatedInModules) :
    source.unseparated.KeepsModules := by
  refine .inr fun item hitem => ?_
  obtain ⟨kept, -, rfl⟩ := List.mem_map.mp ((List.dropLast_sublist _).subset hitem)
  rfl

/-- A `;;` says nothing by itself. -/
theorem contents_unseparated (source : SeparatedInModules) (localBindings : Bool) :
    source.unseparated.meant.filterMap (Piece.content? localBindings) =
      source.meant.filterMap (Piece.content? localBindings) := by
  have hone : ∀ (item : SeparatedBinding) (scope : Option Scope),
      (item.pieces scope).filterMap (Piece.content? localBindings) =
        (SeparatedBinding.pieces scope { item with separated := false }).filterMap
          (Piece.content? localBindings) := by
    intro item scope
    rw [SeparatedBinding.pieces, SeparatedBinding.pieces, List.filterMap_append,
      List.filterMap_append]
    cases item.separated <;> rfl
  simp only [meant, unseparated, List.filterMap_append, List.filterMap_flatMap, List.flatMap_map,
    hone]

end SeparatedInModules

end

/-- **Separators.**  Where the tokens of a text are the words of bindings inside of
modules, with `;;` behind some of them, the tags are those that the machine finds
with one module less for each `;;` in front of a binding, unless a frame did not
fit; a frame of room for each word is enough.  They say the same as those of the
bindings without any `;;` if and only if no module is around, or no binding but
the last one has a `;;` behind it. -/
theorem extract_separators (source : SeparatedInModules) (localBindings : Bool) (maxDepth : Nat)
    {text : String} (hspell : Spell (tokenize text) source.meant) :
    (source.meant.length ≤ maxDepth →
        (extract { localBindings, maxDepth } text).diagnostics = []) ∧
      ((extract { localBindings, maxDepth } text).diagnostics = [] →
        (extract { localBindings, maxDepth } text).tags =
            markedTags source.found localBindings text ((tokenize text).map Token.start) ∧
          ∀ plain : String, Spell (tokenize plain) source.unseparated.meant →
            (extract { localBindings, maxDepth } plain).diagnostics = [] →
            ((extract { localBindings, maxDepth } text).tags.map Tag.content =
                (extract { localBindings, maxDepth } plain).tags.map Tag.content ↔
              source.KeepsModules)) := by
  have hfound : Spell (tokenize text) source.found := hspell.of_words source.words_found
  refine ⟨fun hroom => diagnostics_of_spell hspell localBindings hroom, fun hfits => ⟨?_, ?_⟩⟩
  · exact tags_of_reads source.reads_found hfound localBindings hfits
  · intro plain hplain hplainFits
    have hreads := source.unseparated.reads_found
    rw [SeparatedInModules.found_of_keepsModules source.keepsModules_unseparated] at hreads
    rw [contents_of_reads source.reads_found hfound localBindings hfits,
      contents_of_reads hreads hplain localBindings hplainFits, source.contents_unseparated]
    exact source.contents_found_iff localBindings

/-- Two bindings in a module with a `;;` between them, and a third behind the module:
the second one loses its scope, which it keeps without the `;;`. -/
theorem extract_separators_pair :
    let binding (name value : Char) (hname : startsWord name = true)
        (hkind : wordKind (String.ofList [name]) = .ident)
        (hlower : startsUpper (String.ofList [name]) = false) (hvalue : value.isDigit = true) :
        LiteralBinding :=
      ⟨⟨⟨String.ofList [name], stands_word hname (by simp) hkind⟩, hlower⟩, [],
        ⟨String.ofList [value], stands_number hvalue (by simp)⟩⟩
    let a := binding 'a' '1' rfl rfl rfl rfl
    let b := binding 'b' '2' rfl rfl rfl rfl
    let c := binding 'c' '3' rfl rfl rfl rfl
    let m : UpperName := ⟨⟨String.ofList ['M'], stands_word rfl (by simp) rfl⟩, rfl⟩
    let after : Program :=
      .more (.binding (c.header false) (.expr (.apply (.one (.literal c.value))))) .empty
    let source : SeparatedInModules := ⟨.inside m after .outside, [⟨a, true⟩, ⟨b, false⟩]⟩
    let text := String.ofList (spaced (source.meant.map Piece.word))
    let plain := String.ofList (spaced (source.unseparated.meant.map Piece.word))
    let contents (text : String) :=
      (extract { localBindings := true, maxDepth := 256 } text).tags.map Tag.content
    Spell (tokenize text) source.meant ∧ Spell (tokenize plain) source.unseparated.meant ∧
      contents text =
        [("M", .moduleDef, none), ("a", .variableDef, some ⟨.moduleDef, "M"⟩),
          ("b", .variableDef, none), ("c", .variableDef, none)] ∧
      contents text ≠ contents plain := by
  intro binding a b c m after source text plain contents
  have hspell : Spell (tokenize text) source.meant := spell_spaced source.meant
  have hplain : Spell (tokenize plain) source.unseparated.meant :=
    spell_spaced source.unseparated.meant
  have hfound : Spell (tokenize text) source.found := hspell.of_words source.words_found
  obtain ⟨hroom, htags⟩ := extract_separators source true 256 hspell
  obtain ⟨htags, hsame⟩ := htags (hroom (by decide))
  have hfits := @diagnostics_of_spell _ plain hplain true 256 (by decide)
  refine ⟨hspell, hplain, ?_, fun hcontents => ?_⟩
  · dsimp only [contents]
    rw [htags, content_markedTags (by rw [List.length_map, hfound.length_eq])]
    decide
  · rcases (hsame plain hplain hfits).mp hcontents with houtside | hlast
    · exact Nesting.noConfusion houtside
    · exact absurd (hlast ⟨a, true⟩ (List.mem_singleton.mpr rfl)) (by decide)

/-- The `;;` behind `a` takes the module `M` away from `b`. -/
theorem separator_leaves_module :
    (extract {} "module M = struct let a = 1;; let b = 2 end").tags.map Tag.content =
      [("M", .moduleDef, none), ("a", .variableDef, some ⟨.moduleDef, "M"⟩),
        ("b", .variableDef, none)] := by
  decide +kernel

end CamlIndex
