import CamlIndex.Proofs.Language.Contents

/-!
# Structures behind signatures

A module may have its signature in its header, and the structure stands behind
the `end` of the signature.  By then the machine has to know the name of the
module again, and it remembers one name only: that of the last header it has
read.  A signature may hold modules, whose headers are headers, too.  What the
signature holds is found in the scopes of the text, but the structure is taken
for that of the last module in the signature, at whatever depth.

* `Signature.reads` — a signature is read, and which name is remembered then;
* `extract_signedModule` — the tags of a module with its signature, inside of
  modules: those that are meant if and only if the last header has the name of
  the module.
-/

namespace CamlIndex

/-! ## Modules with signatures -/

namespace SignedModule

/-- The words with the marks that they are meant to have. -/
def meant (source : SignedModule) : List Piece :=
  source.pieces source.name

/-- The module whose header is the last one in front of the structure. -/
def lastHeader (source : SignedModule) : UpperName :=
  source.signature.lastHeader source.name

/-- The words with the marks that the machine gives them. -/
def found (source : SignedModule) : List Piece :=
  source.pieces source.lastHeader

end SignedModule

/-! ## Reading signatures -/

section

variable {frames : List Frame} {scope : Option Scope}

/-- The `end` of a module in a signature leads back to the signature around it;
the name that is remembered stays. -/
theorem reads_endSubmodule {frame : Frame} (hframe : frame.Ended) (name : String)
    (frames : List Frame) :
    Reads [.fixed .kwEnd] Apart (InSignature name (frame :: frames)) (InSignature name frames) := by
  apply Reads.silent
  intro m token following hspells hapart hm _
  have hkind : token.kind = .kwEnd := hspells.1
  have hat : At m.mode (frame :: frames) m.view := ⟨rfl, hm.frames, hm.staged⟩
  obtain ⟨stack, hclosed, hframes, -⟩ := (Ready.clear hm.closing hat).closeEnd hframe
  have hend : m.dispatch token following =
      { m with stack, mode := .topLevel, closing := false } := by
    unfold Machine.dispatch
    rw [hm.mode]
    dsimp only
    unfold Machine.atTopLevel
    rw [hkind]
    dsimp only
    rw [Machine.readEnd_of_closeEnd hclosed hapart]
  rw [hend]
  exact ⟨⟨⟨⟨rfl, hframes, hm.staged⟩, rfl⟩, hm.name_eq⟩, rfl⟩

end

/-- What stands in a signature keeps apart from what stands before it. -/
theorem Signature.leads {scope : Option Scope} (signature : Signature) {kind : TokenKind}
    (h : Leads (signature.pieces scope) Apart kind) : Apart kind := by
  cases signature with
  | empty => exact h
  | more item items =>
      cases item with
      | value _ =>
          have hval : kind = .kwVal := h
          simp [hval, Apart]
      | submodule _ _ =>
          have hmodule : kind = .kwModule := h
          simp [hmodule, Apart]

-- The induction is on the trees, and the name in the condition goes from header to header.
mutual

theorem SignatureItem.reads {frames : List Frame} {scope : Option Scope}
    (hscoped : Scoped frames scope) (item : SignatureItem) (name : UpperName) :
    Reads (item.pieces scope) Apart (InSignature name.text frames)
      (InSignature (item.lastHeader name).text frames) := by
  cases item with
  | value spec => exact (spec.reads hscoped).narrow fun _ _ => trivial
  | submodule inner items =>
      have hinner : Scoped (.declared .moduleScope scope inner.text :: frames)
          (Scope.inside scope .moduleDef inner.text) :=
        .declared rfl scope frames inner.stands.ne_empty
      have hclose := reads_endSubmodule (Frame.ended_declared (.inr rfl) scope inner.text)
        (items.lastHeader inner).text frames
      have hitems := (Signature.reads hinner items inner).append hclose fun kind hkind => by
        have hend : kind = .kwEnd := hkind
        simp [hend, Apart]
      have hheader := (reads_signatureHeader hscoped inner).mono
        fun _ (hm : InSignature name.text frames _) => hm.toBegun.settled
      exact hheader.seq hitems

/-- **A signature** is read from the scope of its module; the name that is
remembered behind it is that of the last header. -/
theorem Signature.reads {frames : List Frame} {scope : Option Scope}
    (hscoped : Scoped frames scope) (signature : Signature) (name : UpperName) :
    Reads (signature.pieces scope) Apart (InSignature name.text frames)
      (InSignature (signature.lastHeader name).text frames) := by
  cases signature with
  | empty => exact Reads.nil _ _
  | more item items =>
      exact (SignatureItem.reads hscoped item name).append
        (Signature.reads hscoped items (item.lastHeader name)) fun _ hkind => items.leads hkind

end

/-! ## The whole module -/

namespace SignedModule

/-- The words of the module are the same whatever the structure is taken for. -/
theorem words_found (source : SignedModule) :
    source.found.map Piece.word = source.meant.map Piece.word := by
  have hitems := source.items.words_pieces
    (Scope.inside source.levels.scope .moduleDef source.lastHeader.text)
    (Scope.inside source.levels.scope .moduleDef source.name.text)
  simp only [found, meant, pieces, List.map_append, List.map_cons, hitems]

/-- The header with the signature. -/
theorem reads_header (source : SignedModule) :
    Reads (.fixed .kwModule :: source.name.declares .moduleDef source.levels.scope
        :: .fixed .colon :: .fixed .kwSig
        :: source.signature.pieces (Scope.inside source.levels.scope .moduleDef source.name.text))
      Apart (Settled source.levels.frames)
      (InSignature source.lastHeader.text
        (.declared .moduleScope source.levels.scope source.name.text :: source.levels.frames)) := by
  have hinner : Scoped
      (.declared .moduleScope source.levels.scope source.name.text :: source.levels.frames)
      (Scope.inside source.levels.scope .moduleDef source.name.text) :=
    .declared rfl _ _ source.name.stands.ne_empty
  exact (reads_signatureHeader source.levels.frames_scoped source.name).seq
    (source.signature.reads hinner source.name)

/-- **The structure behind the signature** is read as that of the last header. -/
theorem reads_found (source : SignedModule) :
    Reads source.found Apart (Settled []) fun view => ∃ left : Nesting, Settled left.frames view := by
  have hscoped := source.levels.frames_scoped
  have hbehind := Nesting.reads_behind source.behind source.levels source.levels
  have hstruct := reads_structure source.lastHeader hscoped source.items
    fun hinner => source.items.reads hinner
  have hend := (reads_endSignature
    (Frame.ended_declared (.inr rfl) source.levels.scope source.name.text) rfl
    source.lastHeader.text source.levels.frames).append hstruct fun _ h => h
  have hbody := hend.append hbehind fun _ hkind =>
    Nesting.leads_after source.behind source.levels source.levels hkind
  have hwhole := source.levels.reads_opening.seq
    (source.reads_header.append hbody fun kind hkind => by
      have hkind : kind = .kwEnd := hkind
      simp [hkind, Apart])
  simpa [found, pieces] using hwhole

/-- The readings say the same if and only if the structure has the same name in both. -/
theorem contents_found_iff (source : SignedModule) (hitems : source.items ≠ .empty)
    (localBindings : Bool) :
    source.found.filterMap (Piece.content? localBindings) =
        source.meant.filterMap (Piece.content? localBindings) ↔
      source.lastHeader.text = source.name.text := by
  constructor
  · intro h
    simp only [found, meant, pieces, List.filterMap_append, List.append_assoc,
      List.append_cancel_left_eq] at h
    exact Scope.inside_inj (Program.scope_eq_of_contents hitems h)
  · intro h
    rw [found, meant, pieces, pieces, h]

end SignedModule

/-- **Modules with signatures.**  Where the tokens of a text are the words of a
module with its signature, inside of modules, the tags are those that are meant,
but that the structure is taken for that of the last header, unless a frame did
not fit; a frame of room for each word is enough.  So if the structure declares
anything, the tags say what is meant if and only if the last header has the name
of the module, as it has if the signature holds no modules. -/
theorem extract_signedModule (source : SignedModule) (localBindings : Bool) (maxDepth : Nat)
    {text : String} (hspell : Spell (tokenize text) source.meant) :
    (source.meant.length ≤ maxDepth →
        (extract { localBindings, maxDepth } text).diagnostics = []) ∧
      ((extract { localBindings, maxDepth } text).diagnostics = [] →
        (extract { localBindings, maxDepth } text).tags =
            markedTags source.found localBindings text ((tokenize text).map Token.start) ∧
          (source.items ≠ .empty →
            ((extract { localBindings, maxDepth } text).tags.map Tag.content =
                source.meant.filterMap (Piece.content? localBindings) ↔
              source.lastHeader.text = source.name.text))) := by
  have hfound : Spell (tokenize text) source.found := hspell.of_words source.words_found
  refine ⟨fun hroom => diagnostics_of_spell hspell localBindings hroom, fun hfits => ⟨?_, ?_⟩⟩
  · exact tags_of_reads source.reads_found hfound localBindings hfits
  · intro hitems
    rw [contents_of_reads source.reads_found hfound localBindings hfits]
    exact source.contents_found_iff hitems localBindings

/-- A module whose signature holds another one, inside of a module. -/
theorem extract_signedModule_submodule :
    let upper (name : Char) (hname : startsWord name = true)
        (hkind : wordKind (String.ofList [name]) = .ident)
        (hupper : startsUpper (String.ofList [name]) = true) : UpperName :=
      ⟨⟨String.ofList [name], stands_word hname (by simp) hkind⟩, hupper⟩
    let lower (name : Char) (hname : startsWord name = true)
        (hkind : wordKind (String.ofList [name]) = .ident)
        (hlower : startsUpper (String.ofList [name]) = false) : LowerName :=
      ⟨⟨String.ofList [name], stands_word hname (by simp) hkind⟩, hlower⟩
    let one : Lexeme .literal := ⟨String.ofList ['1'], stands_number rfl (by simp)⟩
    let define (name : LowerName) : Program :=
      .more (.binding ⟨false, name, []⟩ (.expr (.apply (.one (.literal one))))) .empty
    let x : ValSpec := ⟨lower 'x' rfl rfl rfl, lower 't' rfl rfl rfl⟩
    let signature : Signature :=
      .more (.submodule (upper 'N' rfl rfl rfl) (.more (.value x) .empty)) .empty
    let source : SignedModule := ⟨.inside (upper 'A' rfl rfl rfl) .empty .outside,
      upper 'M' rfl rfl rfl, signature, define (lower 'a' rfl rfl rfl),
      define (lower 'b' rfl rfl rfl)⟩
    let text := String.ofList (spaced (source.meant.map Piece.word))
    Spell (tokenize text) source.meant ∧
      (extract { localBindings := true, maxDepth := 256 } text).tags.map Tag.content =
        [("A", .moduleDef, none), ("M", .moduleDef, some ⟨.moduleDef, "A"⟩),
          ("N", .moduleDef, some ⟨.moduleDef, "A/M"⟩),
          ("x", .valSpec, some ⟨.moduleDef, "A/M/N"⟩),
          ("a", .variableDef, some ⟨.moduleDef, "A/N"⟩),
          ("b", .variableDef, some ⟨.moduleDef, "A"⟩)] := by
  intro upper lower one define x signature source text
  have hspell : Spell (tokenize text) source.meant := spell_spaced source.meant
  have hfound : Spell (tokenize text) source.found := hspell.of_words source.words_found
  obtain ⟨hroom, htags⟩ := extract_signedModule source true 256 hspell
  obtain ⟨htags, -⟩ := htags (hroom (by decide))
  refine ⟨hspell, ?_⟩
  rw [htags, content_markedTags (by rw [List.length_map, hfound.length_eq])]
  decide

/-- The structure behind the signature of `M` is taken for that of `N`. -/
theorem signature_renames_structure :
    (extract {} "module M : sig module N : sig val x : t end end = struct let a = 1 end").tags.map
        Tag.content =
      [("M", .moduleDef, none), ("N", .moduleDef, some ⟨.moduleDef, "M"⟩),
        ("x", .valSpec, some ⟨.moduleDef, "M/N"⟩), ("a", .variableDef, some ⟨.moduleDef, "N"⟩)] := by
  decide +kernel

end CamlIndex
