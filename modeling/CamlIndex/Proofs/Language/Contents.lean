import CamlIndex.Proofs.Language.Nesting
import CamlIndex.Proofs.Spacing

/-!
# What tags say

A tag says which name is declared, of which kind and in which scope; where it
stands is another matter.  What the tags of a text say can be told from the
marks of its pieces (`contents_of_reads`).  So two texts can be compared that do
not have the same words, or two readings of one text.

Declarations tell the scope that they are read in: the first of them has its
mark there (`Program.scope_eq_of_contents`).
-/

namespace CamlIndex

/-- What the tag of a piece says, if it has one. -/
def Piece.content? (localBindings : Bool) (piece : Piece) : Option (String × Kind × Option Scope) :=
  piece.mark.bind fun mark =>
    if mark.isLocal && !localBindings then none else some (mark.name, mark.kind, mark.scope)

@[simp] theorem Piece.content_silent (word : Word) (localBindings : Bool) :
    (Piece.silent word).content? localBindings = none := rfl

@[simp] theorem Piece.content_fixed (kind : TokenKind) (h : kind.spelling ≠ "")
    (localBindings : Bool) : (Piece.fixed kind h).content? localBindings = none := rfl

@[simp] theorem Lexeme.content_declares {kind : TokenKind} (lexeme : Lexeme kind) (sort : Kind)
    (scope : Option Scope) (localBindings : Bool) :
    (lexeme.declares sort scope).content? localBindings = some (lexeme.text, sort, scope) := rfl

@[simp] theorem Piece.content_unmarked (word : Word) (localBindings : Bool) :
    (⟨word, none⟩ : Piece).content? localBindings = none := rfl

@[simp] theorem Piece.content_mark (word : Word) (mark : Mark) (localBindings : Bool) :
    (⟨word, some mark⟩ : Piece).content? localBindings =
      if mark.isLocal && !localBindings then none else some (mark.name, mark.kind, mark.scope) :=
  rfl

/-- Words that declare nothing say nothing. -/
@[simp] theorem contents_silent (words : List Word) (localBindings : Bool) :
    (words.map Piece.silent).filterMap (Piece.content? localBindings) = [] := by
  simp [List.filterMap_map, Function.comp_def]

@[simp] theorem contents_optional (present : Bool) (kind : TokenKind) (h : kind.spelling ≠ "")
    (localBindings : Bool) :
    (Piece.optional present kind h).filterMap (Piece.content? localBindings) = [] := by
  cases present <;> rfl

/-- What parameters say. -/
@[simp] theorem contents_params (scope : Option Scope) (params : List LowerName)
    (localBindings : Bool) :
    (paramPieces scope params).filterMap (Piece.content? localBindings) =
      if localBindings then params.map fun param => (param.text, .variableDef, scope) else [] := by
  cases localBindings <;> simp [paramPieces, List.filterMap_map, Function.comp_def]

/-- What tags say does not depend on where their words stand. -/
theorem content_markedTags {pieces : List Piece} {starts : List Nat}
    (h : pieces.length = starts.length) (localBindings : Bool) (text : String) :
    (markedTags pieces localBindings text starts).map Tag.content =
      pieces.filterMap (Piece.content? localBindings) := by
  have hone : ∀ entry : Piece × Nat,
      (entry.1.mark.bind (·.tag? localBindings (.ofText text) entry.2)).map Tag.content =
        entry.1.content? localBindings := by
    intro entry
    unfold Piece.content?
    cases entry.1.mark with
    | none => rfl
    | some mark =>
        dsimp only [Option.bind_some, Mark.tag?]
        split <;> rfl
  calc (markedTags pieces localBindings text starts).map Tag.content
      = (pieces.zip starts).filterMap fun entry => entry.1.content? localBindings := by
        rw [markedTags, List.map_filterMap]
        exact congrArg (fun f => (pieces.zip starts).filterMap f) (funext hone)
    _ = ((pieces.zip starts).map Prod.fst).filterMap (Piece.content? localBindings) := by
        rw [List.filterMap_map]
        rfl
    _ = pieces.filterMap (Piece.content? localBindings) := by
        rw [List.map_fst_zip h.le]

/-- Tokens spell any pieces that have the same words. -/
theorem Spell.of_words {tokens : List Token} {pieces others : List Piece}
    (hwords : others.map Piece.word = pieces.map Piece.word) (h : Spell tokens pieces) :
    Spell tokens others := by
  have hspells : List.Forall₂ Token.Spells tokens (pieces.map Piece.word) :=
    List.forall₂_map_right_iff.mpr h
  rw [← hwords] at hspells
  exact List.forall₂_map_right_iff.mp hspells

/-- **What the tags of a text say** is what the pieces are marked with that a
machine reads in it. -/
theorem contents_of_start {pieces : List Piece} {after : View → Prop}
    (hreads : Reads pieces Apart (Begun .topLevel []) after) {text : String}
    (hspell : Spell (tokenize text) pieces) (localBindings : Bool) {maxDepth : Nat}
    (hfits : (extract { localBindings, maxDepth } text).diagnostics = []) :
    (extract { localBindings, maxDepth } text).tags.map Tag.content =
      pieces.filterMap (Piece.content? localBindings) := by
  rw [tags_of_start hreads hspell localBindings hfits, content_markedTags]
  rw [List.length_map, hspell.length_eq]

theorem contents_of_reads {pieces : List Piece} {after : View → Prop}
    (hreads : Reads pieces Apart (Settled []) after) {text : String}
    (hspell : Spell (tokenize text) pieces) (localBindings : Bool) {maxDepth : Nat}
    (hfits : (extract { localBindings, maxDepth } text).diagnostics = []) :
    (extract { localBindings, maxDepth } text).tags.map Tag.content =
      pieces.filterMap (Piece.content? localBindings) :=
  contents_of_start (hreads.mono fun _ hm => Begun.settled hm) hspell localBindings hfits

/-! ## Readings that differ in scopes -/

/-- The names and kinds in what tags say. -/
def declaredNames (localBindings : Bool) (pieces : List Piece) : List (String × Kind) :=
  (pieces.filterMap (Piece.content? localBindings)).map fun content => (content.1, content.2.1)

@[simp] theorem declaredNames_append (localBindings : Bool) (front back : List Piece) :
    declaredNames localBindings (front ++ back) =
      declaredNames localBindings front ++ declaredNames localBindings back := by
  simp [declaredNames]

/-- The names and kinds do not depend on scopes. -/
theorem declaredNames_eq (pieces : List Piece) (localBindings : Bool) :
    declaredNames localBindings pieces =
      (pieces.map Piece.unscoped).filterMap fun entry => entry.2.bind fun (name, kind, isLocal) =>
        if isLocal && !localBindings then none else some (name, kind) := by
  rw [declaredNames, List.map_filterMap, List.filterMap_map]
  congr 1
  funext piece
  unfold Function.comp Piece.unscoped Piece.content?
  cases piece.mark with
  | none => rfl
  | some mark =>
      dsimp only [Option.bind_some, Option.map_some]
      split <;> rfl

theorem names_eq_of_unscoped {pieces others : List Piece}
    (h : pieces.map Piece.unscoped = others.map Piece.unscoped) (localBindings : Bool) :
    declaredNames localBindings pieces = declaredNames localBindings others := by
  rw [declaredNames_eq, declaredNames_eq, h]

/-- **Readings that differ in scopes alone** can be compared part by part. -/
theorem contents_append_inj {front front' back back' : List Piece}
    (h : front.map Piece.unscoped = front'.map Piece.unscoped) {localBindings : Bool}
    (hcontents : (front ++ back).filterMap (Piece.content? localBindings) =
      (front' ++ back').filterMap (Piece.content? localBindings)) :
    front.filterMap (Piece.content? localBindings) =
        front'.filterMap (Piece.content? localBindings) ∧
      back.filterMap (Piece.content? localBindings) =
        back'.filterMap (Piece.content? localBindings) := by
  rw [List.filterMap_append, List.filterMap_append] at hcontents
  have hlengths := congrArg List.length (names_eq_of_unscoped h localBindings)
  rw [declaredNames, declaredNames, List.length_map, List.length_map] at hlengths
  exact List.append_inj hcontents hlengths

/-- A tag apart from its scope. -/
def Tag.unscoped (tag : Tag) : Tag :=
  { tag with scope := none }

/-- **Readings that differ in scopes alone** have the same tags apart from scopes. -/
theorem markedTags_unscoped {pieces others : List Piece}
    (h : pieces.map Piece.unscoped = others.map Piece.unscoped) (localBindings : Bool)
    (text : String) (starts : List Nat) :
    (markedTags pieces localBindings text starts).map Tag.unscoped =
      (markedTags others localBindings text starts).map Tag.unscoped := by
  have hone : ∀ pieces : List Piece,
      (markedTags pieces localBindings text starts).map Tag.unscoped =
        ((pieces.map Piece.unscoped).zip starts).filterMap fun (entry, start) =>
          entry.2.bind fun (name, kind, isLocal) =>
            Mark.tag? ⟨name, kind, isLocal, none⟩ localBindings (.ofText text) start := by
    intro pieces
    rw [markedTags, List.map_filterMap, List.zip_map_left, List.filterMap_map]
    congr 1
    funext ⟨⟨word, mark⟩, start⟩
    cases mark with
    | none => rfl
    | some mark =>
        simp only [Function.comp, Prod.map, Piece.unscoped, Option.bind_some, Option.map_some,
          Mark.tag?]
        split <;> rfl
  rw [hone, hone, h]

/-- What is found in the first pieces are the first tags. -/
theorem markedTags_prefix {front pieces : List Piece} (h : front <+: pieces) (localBindings : Bool)
    (text : String) (starts : List Nat) :
    markedTags front localBindings text starts <+: markedTags pieces localBindings text starts := by
  apply List.IsPrefix.filterMap
  obtain ⟨back, rfl⟩ := h
  induction front generalizing starts with
  | nil => exact List.nil_prefix
  | cons piece front ih =>
      cases starts with
      | nil => exact List.nil_prefix
      | cons start starts => exact List.prefix_cons_inj _ |>.mpr (ih starts)

/-! ## Scopes that can be told apart -/

/-- A scope is not the one around it. -/
theorem Scope.inside_ne (outer : Option Scope) (kind : Kind) (name : String) :
    Scope.inside outer kind name ≠ outer := by
  intro h
  cases outer with
  | none => cases h
  | some outer =>
      have hnames := congrArg Scope.name (Option.some.inj h)
      have hlengths := congrArg String.length hnames
      simp [Scope.qualify] at hlengths
      omega

theorem Scope.inside_inj {outer : Option Scope} {kind : Kind} {name other : String}
    (h : Scope.inside outer kind name = Scope.inside outer kind other) : name = other := by
  have hnames := congrArg Scope.name (Option.some.inj h)
  cases outer with
  | none => exact hnames
  | some outer => simpa [Scope.qualify] using hnames

/-! ## What declarations say first -/

/-- A declaration says first what it declares in its own scope. -/
theorem Item.content_head (item : Item) (localBindings : Bool) :
    ∃ name kind, ∀ scope, ∃ rest,
      (item.pieces scope).filterMap (Piece.content? localBindings) = (name, kind, scope) :: rest := by
  cases item with
  | binding header body =>
      refine ⟨header.name.text, header.kind, fun scope => ?_⟩
      cases hrec : header.isRec <;>
        exact ⟨_, by rw [Item.pieces, Header.pieces, hrec]; rfl⟩
  | unit body => exact ⟨"()", .functionDef, fun _ => ⟨_, rfl⟩⟩
  | wildcard body => exact ⟨"_", .functionDef, fun _ => ⟨_, rfl⟩⟩
  | types first others => exact ⟨first.name.text, .typeDef, fun _ => ⟨_, rfl⟩⟩
  | exceptionDef name payload => exact ⟨name.text, .exceptionDef, fun _ => ⟨_, rfl⟩⟩
  | moduleDef name items => exact ⟨name.text, .moduleDef, fun _ => ⟨_, rfl⟩⟩
  | sealedModule name specs items => exact ⟨name.text, .moduleDef, fun _ => ⟨_, rfl⟩⟩
  | classDef name methods => exact ⟨name.text, .classDef, fun _ => ⟨_, rfl⟩⟩

theorem Program.content_head {items : Program} (h : items ≠ .empty) (localBindings : Bool) :
    ∃ name kind, ∀ scope, ∃ rest,
      (items.pieces scope).filterMap (Piece.content? localBindings) =
        (name, kind, scope) :: rest := by
  cases items with
  | empty => exact absurd rfl h
  | more item items =>
      obtain ⟨name, kind, hhead⟩ := item.content_head localBindings
      refine ⟨name, kind, fun scope => ?_⟩
      obtain ⟨rest, hrest⟩ := hhead scope
      exact ⟨_, by rw [Program.pieces, List.filterMap_append, hrest, List.cons_append]⟩

/-- **Declarations tell their scope**, whatever is said behind them. -/
theorem Program.scope_eq_of_contents {items : Program} (h : items ≠ .empty)
    {scope other : Option Scope} {localBindings : Bool}
    {back back' : List (String × Kind × Option Scope)}
    (hcontents : (items.pieces scope).filterMap (Piece.content? localBindings) ++ back =
      (items.pieces other).filterMap (Piece.content? localBindings) ++ back') : scope = other := by
  obtain ⟨name, kind, hhead⟩ := items.content_head h localBindings
  obtain ⟨rest, hrest⟩ := hhead scope
  obtain ⟨rest', hrest'⟩ := hhead other
  rw [hrest, hrest'] at hcontents
  simp only [List.cons_append, List.cons.injEq, Prod.mk.injEq, true_and] at hcontents
  exact hcontents.1

end CamlIndex
