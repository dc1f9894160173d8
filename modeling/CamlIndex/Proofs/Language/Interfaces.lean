import CamlIndex.Proofs.Language.Contents

/-!
# Types and values in signatures

A value in a signature is tagged with the scope that is innermost, and only then
does a word come that could leave an ended declaration: `val` leaves nothing.
So a type that is still on the stack behind its definition is the scope of all
values up to the next word that does leave it.  Which types these are can be
read off their right-hand sides (`TypeDef.lingers`).

* `InterfaceItem.reads`, `Interface.reads` — a signature is read, and which type
  is around behind each item;
* `extract_interface` — the tags of a signature: those that are meant if and only
  if no value stands behind a type that lingers.
-/

namespace CamlIndex

/-! ## What is meant, and what is found -/

namespace Interface

/-- The words with the marks that they are meant to have: no type lingers. -/
def meant (items : Interface) : List Piece :=
  items.pieces (fun _ => false) none none

/-- The words with the marks that the machine gives them. -/
def found (items : Interface) : List Piece :=
  items.pieces TypeDef.lingers none none

end Interface

mutual

/-- Whether no type is around a value in the item, with `around` in front of it. -/
def InterfaceItem.keepsScopes (around : Option LowerName) : InterfaceItem → Bool
  | .type _ => true
  | .value _ => around.isNone
  | .submodule _ items => items.keepsScopes none

/-- Whether no type is around a value, with `around` in front of the first item. -/
def Interface.keepsScopes (around : Option LowerName) : Interface → Bool
  | .empty => true
  | .more item items =>
    item.keepsScopes around && items.keepsScopes (item.behind TypeDef.lingers around)

end

/-! ## Reading signatures -/

/-- Between the items of a signature: a type is around, or none. -/
def Between (around : Option LowerName) (scope : Option Scope) (frames : List Frame)
    (view : View) : Prop :=
  match around with
  | none => ∃ frame : Frame, frame.Endless ∧ Departed frame frames view
  | some type => Lingering (.declared .typeScope scope type.text) frames view

section

variable {frames : List Frame} {scope : Option Scope}

theorem Begun.between {view : View} (h : Begun .topLevel frames view) (scope : Option Scope) :
    Between none scope frames view :=
  ⟨_, Frame.endless_declared (by decide : .typeScope ∈ _) none "", .left h⟩

theorem Between.settled {around : Option LowerName} {view : View}
    (h : Between around scope frames view) : Settled frames view := by
  cases around with
  | none =>
      obtain ⟨frame, hframe, hdeparted⟩ := h
      exact hdeparted.settled hframe
  | some type =>
      have hlingering : Lingering (.declared .typeScope scope type.text) frames view := h
      exact hlingering.settled (Frame.endless_declared (by decide) scope type.text)

/-- Behind a type it is around if it lingers. -/
theorem TypeBody.Behind.between {type : TypeDef} {view : View}
    (h : type.body.Behind (type.frame scope) frames view) :
    Between ((InterfaceItem.type type).behind TypeDef.lingers none) scope frames view := by
  obtain ⟨hbehind, -⟩ := h
  unfold InterfaceItem.behind TypeDef.lingers
  dsimp only
  split
  · next hlingers => rwa [if_pos hlingers] at hbehind
  · next hlingers =>
      rw [if_neg hlingers] at hbehind
      exact ⟨type.frame scope, type.endless_frame scope, hbehind⟩

/-- Where no type is around, a `val` leaves one that it finds unfinished. -/
theorem reads_valDeparted (scope : Option Scope) :
    Reads [.fixed .kwVal] anyKind (Between none scope frames) (Begun .valName frames) := by
  apply Reads.silent
  intro m token following hspells _ hm _
  have hkind : token.kind = .kwVal := hspells.1
  obtain ⟨frame, hframe, hdeparted⟩ := hm
  cases hdeparted with
  | left hbegun =>
      have hval : m.dispatch token following = m.goto .valName := by
        simp [Machine.dispatch, hbegun.mode, Machine.atTopLevel, hkind]
      rw [hval]
      exact ⟨hbegun.goto .valName, rfl⟩
  | held hheld =>
      have hmode : m.mode = .constructorCheck := hheld.mode_eq
      obtain ⟨hconfirmed, hfound⟩ := hheld.confirm
      obtain ⟨-, hpopped⟩ := Over.popBoundary hframe.boundary hconfirmed.toAt.over
      have hval : m.dispatch token following =
          m.confirm.leaveType.seekAlternative.goto .valName := by
        simp [Machine.dispatch, hmode, Machine.atConstructorCheck, Machine.atTopLevel, hkind]
      rw [hval]
      refine ⟨⟨⟨rfl, hpopped.frames, hpopped.staged⟩, rfl⟩, ?_⟩
      rw [← hfound]
      rfl

/-- **A value** is in the scope of the type that is around. -/
theorem ValSpec.reads_between (hscoped : Scoped frames scope) (around : Option LowerName)
    (spec : ValSpec) :
    Reads (spec.pieces (around.elim scope fun type => Scope.inside scope .typeDef type.text))
      anyKind (Between around scope frames) (Between around scope frames) := by
  cases around with
  | none =>
      have hspec := ValSpec.reads_from (fun mode => Begun mode frames) hscoped
        (fun _ _ hm => hm.toAt) (fun _ _ other hm => hm.goto other) (reads_valDeparted scope) spec
      exact hspec.weaken fun _ hm => hm.between scope
  | some type =>
      let frame := Frame.declared .typeScope scope type.text
      have hinner : Scoped (frame :: frames) (Scope.inside scope .typeDef type.text) :=
        .declared rfl scope frames type.stands.ne_empty
      have hval : Reads [.fixed .kwVal] anyKind (Lingering frame frames)
          (InType .valName frame frames) :=
        reads_val (fun _ hm => hm.mode.imp_right .inl) fun _ hm => hm.inType.goto .valName
      have hspec := ValSpec.reads_from (fun mode => InType mode frame frames) hinner
        (fun _ _ hm => hm.toAt) (fun _ _ other hm => hm.goto other) hval spec
      refine hspec.weaken fun view hm => ?_
      have hinType := hm
      rw [← hm.mode_eq] at hinType
      exact ⟨hinType, .inl hm.mode_eq⟩

end

/-- What stands in a signature keeps apart from what stands before it. -/
theorem Interface.leads {lingers : TypeDef → Bool} {scope : Option Scope}
    {around : Option LowerName} (items : Interface) {kind : TokenKind}
    (h : Leads (items.pieces lingers scope around) Apart kind) : Apart kind := by
  cases items with
  | empty => exact h
  | more item items =>
      have hkind : kind ∈ [.kwType, .kwVal, .kwModule] := by
        cases item <;> simp [show kind = _ from h, Piece.fixed, Piece.silent, Word.fixed]
      simp only [List.mem_cons, List.not_mem_nil, or_false] at hkind
      rcases hkind with rfl | rfl | rfl <;> exact ⟨by decide, by decide⟩

-- The induction is on the trees; the type that is around goes from item to item.
mutual

theorem InterfaceItem.reads {frames : List Frame} {scope : Option Scope}
    (hscoped : Scoped frames scope) (item : InterfaceItem) (around : Option LowerName) :
    Reads (item.pieces TypeDef.lingers scope around) Apart (Between around scope frames)
      (Between (item.behind TypeDef.lingers around) scope frames) := by
  cases item with
  | type definition =>
      have hkeyword := (reads_type frames).mono
        fun _ (hm : Between around scope frames _) => hm.settled
      have hdefinition := (definition.reads_behind hscoped).weaken fun _ hm => hm.between
      exact Reads.cons hkeyword (hdefinition.narrow fun _ h => h.1)
  | value spec => exact (spec.reads_between hscoped around).narrow fun _ _ => trivial
  | submodule name items =>
      have hinner : Scoped (.declared .moduleScope scope name.text :: frames)
          (Scope.inside scope .moduleDef name.text) :=
        .declared rfl scope frames name.stands.ne_empty
      have hheader := ((reads_signatureHeader hscoped name).mono
        fun _ (hm : Between around scope frames _) => hm.settled).weaken
          fun _ hm => hm.toBegun.between (Scope.inside scope .moduleDef name.text)
      have hclose := (reads_end (Frame.ended_declared (.inr rfl) scope name.text) frames).weaken
        fun _ hm => hm.between scope
      have hitems := (Interface.reads hinner items none).append hclose fun kind hkind => by
        have hend : kind = .kwEnd := hkind
        simp [hend, Apart]
      exact hheader.seq hitems

/-- **A signature** is read from item to item with the type that is around. -/
theorem Interface.reads {frames : List Frame} {scope : Option Scope}
    (hscoped : Scoped frames scope) (items : Interface) (around : Option LowerName) :
    Reads (items.pieces TypeDef.lingers scope around) Apart (Between around scope frames)
      (Settled frames) := by
  cases items with
  | empty => exact (Reads.nil _ _).weaken fun _ hm => hm.settled
  | more item items =>
      exact (InterfaceItem.reads hscoped item around).append
        (Interface.reads hscoped items (item.behind TypeDef.lingers around))
        fun _ hkind => items.leads hkind

end

/-! ## Where the readings agree -/

mutual

/-- The words of an item are the same whatever lingers. -/
theorem InterfaceItem.unscoped_pieces (lingers lingers' : TypeDef → Bool)
    (scope other : Option Scope) (around around' : Option LowerName) (item : InterfaceItem) :
    (item.pieces lingers scope around).map Piece.unscoped =
      (item.pieces lingers' other around').map Piece.unscoped := by
  cases item with
  | type definition => simp [InterfaceItem.pieces, definition.unscoped_pieces scope other]
  | value spec => exact spec.unscoped_pieces _ _
  | submodule name items =>
      simp [InterfaceItem.pieces, Lexeme.declares, Piece.unscoped,
        items.unscoped_pieces lingers lingers' (Scope.inside scope .moduleDef name.text)
          (Scope.inside other .moduleDef name.text) none none]

theorem Interface.unscoped_pieces (lingers lingers' : TypeDef → Bool)
    (scope other : Option Scope) (around around' : Option LowerName) (items : Interface) :
    (items.pieces lingers scope around).map Piece.unscoped =
      (items.pieces lingers' other around').map Piece.unscoped := by
  cases items with
  | empty => rfl
  | more item items =>
      simp [Interface.pieces, item.unscoped_pieces lingers lingers' scope other around around',
        items.unscoped_pieces lingers lingers' scope other (item.behind lingers around)
          (item.behind lingers' around')]

end

theorem InterfaceItem.behind_never (item : InterfaceItem) :
    item.behind (fun _ => false) none = none := by
  cases item <;> rfl

mutual

/-- What an item says is what is meant if and only if no type is around a value. -/
theorem InterfaceItem.contents_iff (scope : Option Scope) (around : Option LowerName)
    (item : InterfaceItem) (localBindings : Bool) :
    (item.pieces TypeDef.lingers scope around).filterMap (Piece.content? localBindings) =
        (item.pieces (fun _ => false) scope none).filterMap (Piece.content? localBindings) ↔
      item.keepsScopes around = true := by
  cases item with
  | type definition => exact ⟨fun _ => rfl, fun _ => rfl⟩
  | value spec =>
      cases around with
      | none => exact ⟨fun _ => rfl, fun _ => rfl⟩
      | some type =>
          refine ⟨fun h => ?_, nofun⟩
          have hscopes := congrArg (List.map fun content => content.2.2) h
          simp [InterfaceItem.pieces, ValSpec.pieces, List.filterMap_cons, Scope.inside_ne] at hscopes
  | submodule name items =>
      have hitems := items.contents_iff (Scope.inside scope .moduleDef name.text) none localBindings
      simp [InterfaceItem.pieces, InterfaceItem.keepsScopes, List.filterMap_cons, ← hitems]

theorem Interface.contents_iff (scope : Option Scope) (around : Option LowerName)
    (items : Interface) (localBindings : Bool) :
    (items.pieces TypeDef.lingers scope around).filterMap (Piece.content? localBindings) =
        (items.pieces (fun _ => false) scope none).filterMap (Piece.content? localBindings) ↔
      items.keepsScopes around = true := by
  cases items with
  | empty => exact ⟨fun _ => rfl, fun _ => rfl⟩
  | more item items =>
      have hitem := item.contents_iff scope around localBindings
      have hitems := items.contents_iff scope (item.behind TypeDef.lingers around) localBindings
      simp only [Interface.pieces, Interface.keepsScopes, Bool.and_eq_true, ← hitem, ← hitems,
        item.behind_never]
      refine ⟨contents_append_inj (item.unscoped_pieces _ _ scope scope around none), ?_⟩
      rintro ⟨hfront, hback⟩
      rw [List.filterMap_append, List.filterMap_append, hfront, hback]

end

/-! ## The whole signature -/

/-- **Signatures with types.**  Where the tokens of a text are the words of types,
values and modules in a signature, the tags are those that are meant, but that a
value behind a type that lingers has that type for its scope, unless a frame did
not fit; a frame of room for each word is enough.  So the tags say what is meant
if and only if no value stands behind a type that lingers. -/
theorem extract_interface (items : Interface) (localBindings : Bool) (maxDepth : Nat)
    {text : String} (hspell : Spell (tokenize text) items.meant) :
    (items.meant.length ≤ maxDepth →
        (extract { localBindings, maxDepth } text).diagnostics = []) ∧
      ((extract { localBindings, maxDepth } text).diagnostics = [] →
        (extract { localBindings, maxDepth } text).tags =
            markedTags items.found localBindings text ((tokenize text).map Token.start) ∧
          ((extract { localBindings, maxDepth } text).tags.map Tag.content =
              items.meant.filterMap (Piece.content? localBindings) ↔
            items.keepsScopes none = true)) := by
  have hwords : items.found.map Piece.word = items.meant.map Piece.word :=
    words_eq_of_unscoped (items.unscoped_pieces _ _ none none none none)
  have hfound : Spell (tokenize text) items.found := hspell.of_words hwords
  have hreads : Reads items.found Apart (Begun .topLevel []) (Settled []) :=
    (Interface.reads .outside items none).mono fun _ hm => hm.between none
  refine ⟨fun hroom => diagnostics_of_spell hspell localBindings hroom, fun hfits => ⟨?_, ?_⟩⟩
  · exact tags_of_start hreads hfound localBindings hfits
  · rw [contents_of_start hreads hfound localBindings hfits]
    exact items.contents_iff none none localBindings

/-- A value behind another name for a type, and one behind an abstract type. -/
theorem extract_interface_synonym :
    let upper (name : Char) (hname : startsWord name = true)
        (hkind : wordKind (String.ofList [name]) = .ident)
        (hupper : startsUpper (String.ofList [name]) = true) : UpperName :=
      ⟨⟨String.ofList [name], stands_word hname (by simp) hkind⟩, hupper⟩
    let lower (name : Char) (hname : startsWord name = true)
        (hkind : wordKind (String.ofList [name]) = .ident)
        (hlower : startsUpper (String.ofList [name]) = false) : LowerName :=
      ⟨⟨String.ofList [name], stands_word hname (by simp) hkind⟩, hlower⟩
    let t := lower 't' rfl rfl rfl
    let s := lower 's' rfl rfl rfl
    let values : Interface := .more (.type ⟨t, .synonym (lower 'u' rfl rfl rfl)⟩)
      (.more (.value ⟨lower 'x' rfl rfl rfl, t⟩) (.more (.type ⟨s, .abstract⟩)
        (.more (.value ⟨lower 'y' rfl rfl rfl, s⟩) .empty)))
    let items : Interface := .more (.submodule (upper 'M' rfl rfl rfl) values) .empty
    let text := String.ofList (spaced (items.meant.map Piece.word))
    Spell (tokenize text) items.meant ∧
      (extract { localBindings := true, maxDepth := 256 } text).tags.map Tag.content =
        [("M", .moduleDef, none), ("t", .typeDef, some ⟨.moduleDef, "M"⟩),
          ("x", .valSpec, some ⟨.typeDef, "M/t"⟩), ("s", .typeDef, some ⟨.moduleDef, "M"⟩),
          ("y", .valSpec, some ⟨.moduleDef, "M"⟩)] := by
  intro upper lower t s values items text
  have hspell : Spell (tokenize text) items.meant := spell_spaced items.meant
  have hwords : items.found.map Piece.word = items.meant.map Piece.word :=
    words_eq_of_unscoped (items.unscoped_pieces _ _ none none none none)
  obtain ⟨hroom, htags⟩ := extract_interface items true 256 hspell
  obtain ⟨htags, -⟩ := htags (hroom (by decide))
  refine ⟨hspell, ?_⟩
  rw [htags, content_markedTags (by rw [List.length_map, (hspell.of_words hwords).length_eq])]
  decide

/-- The value `x` is in the scope of the type in front of it. -/
theorem interface_type_keeps_value :
    (extract {} "module M : sig type t = u val x : t end").tags.map Tag.content =
      [("M", .moduleDef, none), ("t", .typeDef, some ⟨.moduleDef, "M"⟩),
        ("x", .valSpec, some ⟨.typeDef, "M/t"⟩)] := by
  decide +kernel

end CamlIndex
