import CamlIndex.Proofs.Language.Contents

/-!
# Headers of modules

Between the name of a module and its `struct` there may stand a parameter, what
the module is sealed by, and a type that is given there.  One word of foresight
decides how the machine takes this.  Behind the name, a colon leads straight to
where a body is expected, so the signature that seals the module is taken for
another name of the module, which has no body.  A parameter leads there by way of
the next `=`, which is that of the body unless a type is given.

So `struct` opens a scope if and only if it stands behind the `=` that the
machine waits for (`ModuleHeader.opensScope`).  If it does not, then the
declarations of the module are found in the scope around it, and its `end`
closes the module around it.

* `ModuleHeader.reads` — which modules are on the stack behind a header;
* `extract_moduleHeader` — the tags of a module with such a header, inside of
  modules.
-/

namespace CamlIndex

/-! ## Headers -/

/-- The mark of a type in what seals a module, if it were a declaration. -/
def Seal.typeMark? (scope : Option Scope) : Seal → Option Mark
  | .unsealed | .named _ => none
  | .constrained _ type _ => some ⟨type.text, .typeDef, false, scope⟩

namespace ModuleHeader

/-- Whether the machine opens a scope for the module. -/
def opensScope (header : ModuleHeader) : Bool :=
  match header.sealedBy with
  | .unsealed => true
  | .named _ => header.param.isSome
  | .constrained _ _ _ => false

/-- The mark that the machine gives to the type in the header, which it takes for
a declaration unless a parameter has made it skip to the `=` behind the type. -/
def typeMark? (header : ModuleHeader) (scope : Option Scope) : Option Mark :=
  if header.param.isSome then none else header.sealedBy.typeMark? scope

/-- The modules on the stack behind the header. -/
def opened (header : ModuleHeader) (levels : Nesting) : Nesting :=
  if header.opensScope then .inside header.name .empty levels else levels

end ModuleHeader

namespace HeadedModule

/-- The words with the marks that they are meant to have. -/
def meant (source : HeadedModule) : List Piece :=
  source.pieces none (.inside source.header.name .empty source.levels)

/-- The words with the marks that the machine gives them. -/
def found (source : HeadedModule) : List Piece :=
  source.pieces (source.header.typeMark? source.levels.scope) (source.header.opened source.levels)

end HeadedModule

/-! ## Skipping to the body -/

/-- Behind the name of a module with a parameter, where the next `=` outside of
brackets is waited for. -/
structure Parametrised (name : String) (balance : Balance) (frames : List Frame) (view : View) :
    Prop extends Begun .skipBalanced frames view where
  name_eq : view.moduleName = name
  waited : view.skip.waited = .equals
  resume : view.skip.resume = .moduleBody
  balance_eq : view.balance = balance

section

variable {frames : List Frame} {scope : Option Scope}

theorem reads_parametrisedName (hscoped : Scoped frames scope) (name : UpperName) :
    Reads [name.declares .moduleDef scope] (· = .parenOpen) (Begun .moduleName frames)
      (Parametrised name.text {} frames) := by
  refine Reads.name (fun m => { m with moduleName := name.text }.skipTo .skipBalanced .equals
    .moduleBody) hscoped (fun _ hm => hm.toAt) ?_ ?_
  · intro m token following hmode hkind htext hnext
    simp [Machine.dispatch, hmode, Machine.atModuleName, hkind, hnext, htext]
  · intro m hm _
    exact ⟨⟨⟨⟨rfl, hm.frames, hm.staged⟩, hm.closing⟩, rfl, rfl, rfl, rfl⟩, rfl⟩

/-- A word that is skipped is counted. -/
theorem reads_skipped (word : Word) (hword : word.kind ≠ .equals ∧ word.kind ≠ .kwEnd)
    (name : String) (balance : Balance) (frames : List Frame) :
    Reads [.silent word] anyKind (Parametrised name balance frames)
      (Parametrised name (balance.count word.kind) frames) := by
  apply Reads.rule fun m => { m with balance := m.balance.count word.kind }
  · intro m token following hm hkind _
    have hwaited : m.skip.waited = .equals := hm.waited
    simp [Machine.dispatch, hm.mode, Machine.atSkipBalanced, hkind, hwaited, hword]
  · intro m hm _
    have hbalance : m.balance = balance := hm.balance_eq
    exact ⟨⟨⟨⟨hm.mode, hm.frames, hm.staged⟩, hm.closing⟩, hm.name_eq, hm.waited, hm.resume,
      congrArg (Balance.count · word.kind) hbalance⟩, rfl⟩

theorem reads_skippedEquals (name : String) (frames : List Frame) :
    Reads [.fixed .equals] anyKind (Parametrised name {} frames) (Headed name frames) := by
  apply Reads.rule (·.goto .moduleBody)
  · intro m token following hm hkind _
    have hwaited : m.skip.waited = .equals := hm.waited
    have hresume : m.skip.resume = .moduleBody := hm.resume
    have hbalance : m.balance = {} := hm.balance_eq
    simp [Machine.dispatch, hm.mode, Machine.atSkipBalanced, hkind, hwaited, hresume, hbalance,
      Balance.count, Balance.isEven, Machine.goto]
  · intro m hm _
    exact ⟨⟨hm.toBegun.goto .moduleBody, hm.name_eq⟩, rfl⟩

/-- A path is made of identifiers and dots. -/
theorem NamePath.kind_of_mem (path : NamePath) {word : Word} (h : word ∈ path.words) :
    word.kind = .ident ∨ word.kind = .operator := by
  rcases List.mem_cons.mp h with rfl | htail
  · exact .inl rfl
  · obtain ⟨name, -, hname⟩ := List.mem_flatMap.mp htail
    rcases List.mem_cons.mp hname with rfl | hname
    · exact .inr rfl
    · rw [List.mem_singleton.mp hname]
      exact .inl rfl

theorem NamePath.reads (path : NamePath) (name : String) (balance : Balance)
    (frames : List Frame) :
    Reads (path.words.map .silent) anyKind (Parametrised name balance frames)
      (Parametrised name balance frames) := by
  refine Reads.words fun word hword => ?_
  have hskipped : word.kind ≠ .equals ∧ word.kind ≠ .kwEnd := by
    rcases path.kind_of_mem hword with h | h <;> simp [h]
  have hcount : balance.count word.kind = balance := by
    rcases path.kind_of_mem hword with h | h <;> simp [h, Balance.count]
  have hreads := reads_skipped word hskipped name balance frames
  rwa [hcount] at hreads

/-- Where declarations may start, nothing in a path matters but its first name. -/
theorem NamePath.reads_tail (path : NamePath) {condition : View → Prop}
    (hopen : ∀ view, condition view → Open view) :
    Reads (path.tail.map .silent) anyKind condition condition := by
  refine Reads.words fun word hword => reads_quiet ?_ hopen
  rcases path.kind_of_mem (List.mem_cons_of_mem _ hword) with h | h <;> simp [h, quiet]

/-- **A parameter** is skipped: its brackets go together. -/
theorem ModuleParam.reads (param : ModuleParam) (name : String) (frames : List Frame) :
    Reads (param.words.map .silent) anyKind (Parametrised name {} frames)
      (Parametrised name {} frames) := by
  have hinside := (param.signature.reads name (({} : Balance).count .parenOpen) frames).seq
    (reads_skipped (.fixed .parenClose) (by decide) name _ frames)
  have hname := Reads.cons (reads_skipped param.name.word (by simp) name _ frames)
    (Reads.cons (reads_skipped (.fixed .colon) (by decide) name _ frames) hinside)
  have hwhole := Reads.cons (reads_skipped (.fixed .parenOpen) (by decide) name {} frames) hname
  have hbalance : (({} : Balance).count .parenOpen).count .parenClose = {} := by decide
  rw [ModuleParam.words, List.map_append, List.map_cons, List.map_cons, List.map_cons]
  exact hwhole.weaken fun _ hm => hbalance ▸ hm

/-! ## From the header to the declarations -/

theorem reads_struct (hscoped : Scoped frames scope) (name : UpperName) :
    Reads [.fixed .kwStruct] anyKind (Headed name.text frames)
      (Settled (.declared .moduleScope scope name.text :: frames)) :=
  (reads_moduleBody (.inl rfl) (by decide) hscoped name).weaken fun _ hm => hm.toBegun.settled

/-- Where a body is expected, a name is another name of the module. -/
theorem reads_alias (other : Lexeme .ident) (name : String) (frames : List Frame) :
    Reads [.silent other.word] anyKind (Headed name frames) (Begun .topLevel frames) := by
  apply Reads.rule fun m => { m with moduleName := "", mode := .topLevel }
  · intro m token following hm hkind _
    have hkind : token.kind = .ident := hkind
    simp [Machine.dispatch, hm.mode, Machine.atModuleBody, hkind]
  · intro m hm _
    exact ⟨⟨⟨rfl, hm.frames, hm.staged⟩, hm.closing⟩, rfl⟩

/-- Behind another name, the words of a body open nothing. -/
theorem reads_bodyless {condition : View → Prop} (hopen : ∀ view, condition view → Open view) :
    Reads [.fixed .equals, .fixed .kwStruct] anyKind condition condition :=
  Reads.cons (reads_quiet (by decide) hopen) (reads_quiet (by decide) hopen)

theorem Begun.open_ {view : View} (h : Begun .topLevel frames view) : Open view :=
  .inl h.mode_eq

/-- **Behind the name**, any signature is taken for another name of the module. -/
theorem Seal.reads_behindName (hscoped : Scoped frames scope) (name : UpperName) (sealing : Seal) :
    Reads (sealing.pieces (sealing.typeMark? scope) ++ [.fixed .equals, .fixed .kwStruct]) anyKind
      (Headed name.text frames)
      (Settled (match sealing with
        | .unsealed => .declared .moduleScope scope name.text :: frames
        | .named _ | .constrained _ _ _ => frames)) := by
  have hopen : ∀ view, Begun .topLevel frames view → Open view := fun _ hm => hm.open_
  have hpath : ∀ signature : NamePath,
      Reads (.fixed .colon :: signature.words.map .silent) anyKind (Headed name.text frames)
        (Begun .topLevel frames) := fun signature =>
    Reads.cons (reads_moduleMark (.inl rfl) (by decide) name.text frames)
      (Reads.cons (reads_alias signature.first name.text frames) (signature.reads_tail hopen))
  cases sealing with
  | unsealed =>
      exact Reads.cons (reads_moduleMark (.inr rfl) (by decide) name.text frames)
        (reads_struct hscoped name)
  | named signature =>
      exact ((hpath signature).seq (reads_bodyless hopen)).weaken fun _ hm => hm.settled
  | constrained signature type definition =>
      have hseeking : ∀ view,
          Seeking (.declared .typeScope scope type.text) frames view → Open view :=
        fun _ hm => .inr (.inl ⟨hm.mode_eq, hm.waited⟩)
      have hdefinition := Reads.cons (reads_typeMark _ frames (.inl rfl) (by decide))
        (Reads.cons (reads_synonym _ frames definition) (reads_bodyless hseeking))
      have htype := (reads_typeName hscoped type).append hdefinition fun _ h => h
      have hkeyword : Reads [.fixed .kwWith] anyKind (Begun .topLevel frames)
          (Begun .topLevel frames) := reads_quiet (by decide) hopen
      have hwith := Reads.cons hkeyword
        (Reads.cons ((reads_type frames).mono fun _ hm => Begun.settled hm) htype)
      have hwhole := ((hpath signature).seq hwith).weaken fun _ hm =>
        hm.lingering.settled (Frame.endless_declared (by decide) scope type.text)
      rw [Seal.pieces, List.append_assoc]
      exact hwhole

/-- **Behind a parameter**, the first `=` is taken for that of the body. -/
theorem Seal.reads_behindParam (hscoped : Scoped frames scope) (name : UpperName) (sealing : Seal) :
    Reads (sealing.pieces none ++ [.fixed .equals, .fixed .kwStruct]) anyKind
      (Parametrised name.text {} frames)
      (Settled (match sealing with
        | .unsealed | .named _ => .declared .moduleScope scope name.text :: frames
        | .constrained _ _ _ => frames)) := by
  have hbody := Reads.cons (reads_skippedEquals name.text frames) (reads_struct hscoped name)
  have hpath : ∀ signature : NamePath,
      Reads (.fixed .colon :: signature.words.map .silent) anyKind (Parametrised name.text {} frames)
        (Parametrised name.text {} frames) := fun signature =>
    Reads.cons (reads_skipped (.fixed .colon) (by decide) name.text {} frames)
      (signature.reads name.text {} frames)
  cases sealing with
  | unsealed => exact hbody
  | named signature => exact (hpath signature).seq hbody
  | constrained signature type definition =>
      have hopen : ∀ view, Begun .topLevel frames view → Open view := fun _ hm => hm.open_
      have hdefinition := Reads.cons (reads_skippedEquals name.text frames)
        (Reads.cons (reads_alias definition.toLexeme name.text frames) (reads_bodyless hopen))
      have hwith := Reads.cons (reads_skipped (.fixed .kwWith) (by decide) name.text {} frames)
        (Reads.cons (reads_skipped (.fixed .kwType) (by decide) name.text _ frames)
          (Reads.cons (reads_skipped type.word (by simp) name.text _ frames) hdefinition))
      have hwhole := ((hpath signature).seq hwith).weaken fun _ hm => Begun.settled hm
      rw [Seal.pieces, List.append_assoc]
      exact hwhole

end

/-- **A header** opens a scope if and only if its `struct` is expected. -/
theorem ModuleHeader.reads (header : ModuleHeader) (levels : Nesting) :
    Reads (header.pieces (header.typeMark? levels.scope) levels.scope) anyKind
      (Settled levels.frames) (Settled (header.opened levels).frames) := by
  obtain ⟨name, param, sealing⟩ := header
  have hscoped := levels.frames_scoped
  have hkeyword : Reads [.fixed .kwModule] anyKind (Settled levels.frames)
      (Begun .moduleName levels.frames) := reads_start (by decide) (by decide) levels.frames
  cases param with
  | none =>
      have hseal := sealing.reads_behindName hscoped name
      have hname := (reads_moduleName hscoped name).append hseal fun kind hkind => by
        cases sealing with
        | unsealed => exact .inr hkind
        | named _ | constrained _ _ _ => exact .inl hkind
      have hwhole := Reads.cons hkeyword hname
      rw [ModuleHeader.pieces, List.append_assoc]
      cases sealing <;> exact hwhole
  | some param =>
      have hseal := (param.reads name.text levels.frames).seq (sealing.reads_behindParam hscoped name)
      have hname := (reads_parametrisedName hscoped name).append hseal fun _ h => h
      have hwhole := Reads.cons hkeyword hname
      rw [ModuleHeader.pieces, List.append_assoc]
      cases sealing <;> exact hwhole

/-! ## The whole module -/

/-- The type in a header is all that the machine may find in it besides the module. -/
theorem ModuleHeader.content_pieces (header : ModuleHeader) (scope : Option Scope)
    (localBindings : Bool) :
    ∃ types : List (String × Kind × Option Scope), (∀ content ∈ types, content.2.2 = scope) ∧
      (header.pieces (header.typeMark? scope) scope).filterMap (Piece.content? localBindings) =
        (header.pieces none scope).filterMap (Piece.content? localBindings) ++ types := by
  obtain ⟨name, param, sealing⟩ := header
  have hnone : ∀ sealing : Seal, sealing.typeMark? scope = none ∨ param.isSome = true →
      ModuleHeader.typeMark? ⟨name, param, sealing⟩ scope = none := by
    intro sealing h
    unfold ModuleHeader.typeMark?
    split
    · rfl
    · next hparam => exact h.resolve_right hparam
  cases sealing with
  | unsealed => exact ⟨[], by simp, by rw [hnone _ (.inl rfl), List.append_nil]⟩
  | named signature => exact ⟨[], by simp, by rw [hnone _ (.inl rfl), List.append_nil]⟩
  | constrained signature type definition =>
      cases param with
      | some param => exact ⟨[], by simp, by rw [hnone _ (.inr rfl), List.append_nil]⟩
      | none =>
          refine ⟨[(type.text, .typeDef, scope)], by simp, ?_⟩
          rw [ModuleHeader.pieces, ModuleHeader.pieces, Seal.pieces, Seal.pieces]
          simp only [List.filterMap_append, List.append_assoc]
          rfl

namespace HeadedModule

/-- The words are the same whatever is on the stack. -/
theorem words_pieces (source : HeadedModule) (typeMark : Option Mark) (opened other : Nesting) :
    (source.pieces typeMark opened).map Piece.word = (source.pieces none other).map Piece.word := by
  have hheader : (source.header.pieces typeMark source.levels.scope).map Piece.word =
      (source.header.pieces none source.levels.scope).map Piece.word := by
    rw [ModuleHeader.pieces, ModuleHeader.pieces]
    cases source.header.sealedBy <;> simp [Seal.pieces]
  simp only [pieces, List.map_append, List.map_cons, hheader,
    source.items.words_pieces opened.scope other.scope,
    source.behind.words_pieces opened.left.scope other.left.scope,
    source.levels.words_closing opened.left other.left]

theorem words_found (source : HeadedModule) :
    source.found.map Piece.word = source.meant.map Piece.word :=
  source.words_pieces _ _ _

theorem reads_found (source : HeadedModule) :
    Reads source.found Apart (Settled []) fun view => ∃ left : Nesting, Settled left.frames view := by
  have hheader := source.levels.reads_opening.seq (source.header.reads source.levels)
  have hbehind := (source.header.opened source.levels).reads_leave.append
    (Nesting.reads_behind source.behind source.levels (source.header.opened source.levels).left)
    fun _ hkind => Nesting.leads_after source.behind source.levels _ hkind
  have hitems := (source.items.reads (source.header.opened source.levels).frames_scoped).append
    hbehind fun kind hkind => by
      have hend : kind = .kwEnd := hkind
      simp [hend, Apart]
  have hwhole := hheader.seq hitems
  rw [found, pieces, List.append_assoc (source.levels.opening ++ _)]
  exact hwhole

theorem found_of_opensScope {source : HeadedModule} (h : source.header.opensScope = true) :
    source.found = source.meant := by
  have hopened : source.header.opened source.levels =
      .inside source.header.name .empty source.levels := by
    rw [ModuleHeader.opened, if_pos h]
  have hmark : source.header.typeMark? source.levels.scope = none := by
    unfold ModuleHeader.opensScope at h
    unfold ModuleHeader.typeMark?
    split
    · rfl
    · cases hsealed : source.header.sealedBy with
      | unsealed => rfl
      | named _ => rfl
      | constrained _ _ _ => simp [hsealed] at h
  rw [found, meant, hopened, hmark]

/-- The readings say the same if and only if the header opens a scope. -/
theorem contents_found_iff (source : HeadedModule) (hitems : source.items ≠ .empty)
    (localBindings : Bool) :
    source.found.filterMap (Piece.content? localBindings) =
        source.meant.filterMap (Piece.content? localBindings) ↔
      source.header.opensScope = true := by
  refine ⟨fun h => ?_, fun h => by rw [found_of_opensScope h]⟩
  by_contra hclosed
  have hinner := Scope.inside_ne source.levels.scope .moduleDef source.header.name.text
  obtain ⟨types, hscopes, htypes⟩ := source.header.content_pieces source.levels.scope localBindings
  rw [found, meant, ModuleHeader.opened, if_neg hclosed] at h
  simp only [pieces, List.filterMap_append, List.append_assoc, List.append_cancel_left_eq,
    htypes] at h
  -- the first declaration tells the scope, be it the type or one of the module
  cases types with
  | nil => exact hinner (Program.scope_eq_of_contents hitems h).symm
  | cons type types =>
      obtain ⟨name, kind, hhead⟩ := source.items.content_head hitems localBindings
      obtain ⟨rest, hrest⟩ := hhead (Nesting.inside source.header.name .empty source.levels).scope
      rw [hrest] at h
      have htype := (List.cons.inj h).1
      have hscope := hscopes type List.mem_cons_self
      rw [htype] at hscope
      exact hinner hscope

end HeadedModule

/-- **Headers of modules.**  Where the tokens of a text are the words of a module
inside of modules, with a parameter or not, sealed or not, the tags are those
that the machine finds with the scope of the module if its header opens one, and
without it otherwise, unless a frame did not fit; a frame of room for each word
is enough.  So if the module declares anything, the tags say what is meant if and
only if its header opens a scope. -/
theorem extract_moduleHeader (source : HeadedModule) (localBindings : Bool) (maxDepth : Nat)
    {text : String} (hspell : Spell (tokenize text) source.meant) :
    (source.meant.length ≤ maxDepth →
        (extract { localBindings, maxDepth } text).diagnostics = []) ∧
      ((extract { localBindings, maxDepth } text).diagnostics = [] →
        (extract { localBindings, maxDepth } text).tags =
            markedTags source.found localBindings text ((tokenize text).map Token.start) ∧
          (source.items ≠ .empty →
            ((extract { localBindings, maxDepth } text).tags.map Tag.content =
                source.meant.filterMap (Piece.content? localBindings) ↔
              source.header.opensScope = true))) := by
  have hfound : Spell (tokenize text) source.found := hspell.of_words source.words_found
  refine ⟨fun hroom => diagnostics_of_spell hspell localBindings hroom, fun hfits => ⟨?_, ?_⟩⟩
  · exact tags_of_reads source.reads_found hfound localBindings hfits
  · intro hitems
    rw [contents_of_reads source.reads_found hfound localBindings hfits]
    exact source.contents_found_iff hitems localBindings

/-- A module sealed by a path, inside of a module and with a binding behind it: its
`end` closes the module around it. -/
theorem extract_moduleHeader_path :
    let upper (name : Char) (hname : startsWord name = true)
        (hkind : wordKind (String.ofList [name]) = .ident)
        (hupper : startsUpper (String.ofList [name]) = true) : UpperName :=
      ⟨⟨String.ofList [name], stands_word hname (by simp) hkind⟩, hupper⟩
    let lower (name : Char) (hname : startsWord name = true)
        (hkind : wordKind (String.ofList [name]) = .ident)
        (hlower : startsUpper (String.ofList [name]) = false) : LowerName :=
      ⟨⟨String.ofList [name], stands_word hname (by simp) hkind⟩, hlower⟩
    let one : Lexeme .literal := ⟨String.ofList ['1'], stands_number rfl (by simp)⟩
    let define (name : LowerName) : Program :=
      .more (.binding ⟨false, name, []⟩ (.expr (.apply (.one (.literal one))))) .empty
    let path : NamePath := ⟨(upper 'P' rfl rfl rfl).toLexeme, [(upper 'Q' rfl rfl rfl).toLexeme]⟩
    let header : ModuleHeader := ⟨upper 'M' rfl rfl rfl, none, .named path⟩
    let source : HeadedModule := ⟨.inside (upper 'A' rfl rfl rfl) .empty .outside, header,
      define (lower 'a' rfl rfl rfl), define (lower 'b' rfl rfl rfl)⟩
    let text := String.ofList (spaced (source.meant.map Piece.word))
    Spell (tokenize text) source.meant ∧
      (extract { localBindings := true, maxDepth := 256 } text).tags.map Tag.content =
        [("A", .moduleDef, none), ("M", .moduleDef, some ⟨.moduleDef, "A"⟩),
          ("a", .variableDef, some ⟨.moduleDef, "A"⟩), ("b", .variableDef, none)] := by
  intro upper lower one define path header source text
  have hspell : Spell (tokenize text) source.meant := spell_spaced source.meant
  have hfound : Spell (tokenize text) source.found := hspell.of_words source.words_found
  obtain ⟨hroom, htags⟩ := extract_moduleHeader source true 256 hspell
  obtain ⟨htags, -⟩ := htags (hroom (by decide))
  refine ⟨hspell, ?_⟩
  rw [htags, content_markedTags (by rw [List.length_map, hfound.length_eq])]
  decide

/-- The module `M`, sealed by `P`, is no scope for what it declares. -/
theorem seal_closes_structure :
    (extract {} "module M : P = struct let a = 1 end").tags.map Tag.content =
      [("M", .moduleDef, none), ("a", .variableDef, none)] := by
  decide +kernel

end CamlIndex
