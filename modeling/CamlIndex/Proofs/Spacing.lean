import CamlIndex.Proofs.Lockstep

/-!
# Blanks and comments mean nothing

Two texts may have the same tokens, each with the same kind and the same text,
and differ in what stands between them.  A machine knows where tokens stand, but
only passes it on to declarations and refusals; `Circumstance.unplaced` forgets
it, and what is left is kept in step (`lockstep_unplaced`).  So the two texts
have the same declarations in the same scopes and the same diagnostics, only at
other places.

* `spacing_invisible` — the tags and diagnostics of two such texts.
-/

namespace CamlIndex

/-! ## Forgetting places -/

/-- What a tag says, wherever it stands. -/
def Tag.content (tag : Tag) : String × Kind × Option Scope :=
  (tag.name, tag.kind, tag.scope)

/-- What a diagnostic says, whatever its line. -/
def Diagnostic.content (diagnostic : Diagnostic) : Severity × Option String × String :=
  (diagnostic.severity, diagnostic.code, diagnostic.message)

/-- The declaration without its place. -/
def Declaration.unplaced (declaration : Declaration) : Declaration :=
  { declaration with offset := 0 }

/-- The note without its place. -/
def Note.unplaced : Note → Note
  | .declared declaration isLocal => .declared declaration.unplaced isLocal
  | .refused _ => .refused 0
  | .moved token before after => .moved token before after

/-- The circumstance without all places. -/
def Circumstance.unplaced (w : Circumstance) : Circumstance where
  capacity := w.capacity
  refused := w.refused
  staged := w.staged.map Declaration.unplaced
  notes := w.notes.map Note.unplaced
  start := 0
  stop := 0
  nextStart := 0
  nextStop := 0

theorem Circumstance.unplaced_hear (w : Circumstance) (remark : Remark) :
    (w.hear remark).unplaced = w.unplaced.hear remark := by
  cases remark with
  | confirmed =>
      unfold hear
      cases hstaged : w.staged <;> simp [unplaced, hstaged, Note.unplaced]
  | _ => rfl

/-- Circumstances that differ in places alone are kept in step, whatever stands
between the tokens. -/
theorem lockstep_unplaced :
    Machine.Lockstep (fun w w' => w.unplaced = w'.unplaced)
      (fun token token' => token.content = token'.content) where
  content h := h
  capacity := by
    intro w w' h
    have hcapacity := congrArg Circumstance.capacity h
    exact hcapacity
  reading h _ _ := h
  hear remark h := by
    rw [Circumstance.unplaced_hear, h, Circumstance.unplaced_hear]
  refuse := by
    intro w w' h
    have hrefuse : ∀ v : Circumstance, v.refuse.unplaced = v.unplaced.refuse := fun _ => rfl
    rw [hrefuse, hrefuse, h]
  note_moved token before after h := by
    have hmoved : ∀ v : Circumstance, (v.note (.moved token before after)).unplaced =
        v.unplaced.note (.moved token before after) := fun _ => rfl
    rw [hmoved, hmoved, h]

/-! ## What is left without places -/

/-- What the tag of a note says, if it has one. -/
def Note.content? (options : Options) : Note → Option (String × Kind × Option Scope)
  | .declared declaration isLocal =>
    if options.wants declaration isLocal then
      some (declaration.name, declaration.kind, declaration.scope)
    else none
  | _ => none

/-- What a tag says can be told without its place. -/
theorem Note.tag?_content (options : Options) (lines : LineTable) (note : Note) :
    (note.tag? options lines).map Tag.content = note.unplaced.content? options := by
  cases note with
  | declared declaration isLocal =>
      have hwants : options.wants declaration.unplaced isLocal =
          options.wants declaration isLocal := rfl
      unfold Note.tag? Note.unplaced Note.content?
      dsimp only
      rw [hwants]
      split <;> rfl
  | _ => rfl

/-- What the tags of notes say can be told without their places. -/
theorem content_filterMap_tag (options : Options) (lines : LineTable) (notes : List Note) :
    (notes.filterMap (Note.tag? options lines)).map Tag.content =
      (notes.map Note.unplaced).filterMap (Note.content? options) := by
  rw [List.map_filterMap, List.filterMap_map]
  exact congrArg (notes.filterMap ·) (funext (Note.tag?_content options lines))

/-- Refusals can be counted without their places. -/
theorem length_refusals_unplaced (notes : List Note) :
    ((notes.map Note.unplaced).filterMap Note.refusal?).length =
      (notes.filterMap Note.refusal?).length := by
  have hrefusal : Note.refusal? ∘ Note.unplaced = fun note => note.refusal?.map fun _ => 0 := by
    funext note
    cases note <;> rfl
  rw [List.filterMap_map, hrefusal, ← List.map_filterMap, List.length_map]

/-- What is reported about refusals hangs on their number alone, but for the line. -/
theorem content_overflowDiagnostics (capacity : Nat) (lines lines' : LineTable)
    {offsets offsets' : List Nat} (h : offsets.length = offsets'.length) :
    (overflowDiagnostics capacity lines offsets).map Diagnostic.content =
      (overflowDiagnostics capacity lines' offsets').map Diagnostic.content := by
  cases offsets with
  | nil =>
      rw [List.eq_nil_of_length_eq_zero h.symm]
      rfl
  | cons first later =>
      cases offsets' with
      | nil => cases h
      | cons first' later' =>
          have hlater : later.length = later'.length := Nat.succ.inj h
          simp [overflowDiagnostics, Diagnostic.scopeOverflow, Diagnostic.content, hlater]

/-! ## Two texts with the same tokens -/

section Texts

variable {text other : String}
  (htokens : (tokenize text).map Token.content = (tokenize other).map Token.content)
include htokens

/-- The notes of the two texts are the same but for the places. -/
theorem notesOf_unplaced (capacity : Nat) :
    (Machine.notesOf capacity text).map Note.unplaced =
      (Machine.notesOf capacity other).map Note.unplaced := by
  have hwords : List.Forall₂ (fun token token' => token.content = token'.content)
      (tokenize text) (tokenize other) := by
    rw [← List.forall₂_eq_eq_eq, List.forall₂_map_left_iff, List.forall₂_map_right_iff] at htokens
    exact htokens
  have hstart : Machine.Abreast (fun w w' => w.unplaced = w'.unplaced)
      (.start capacity) (.start capacity) :=
    ⟨.start capacity, (Machine.start capacity).circumstance, (Machine.start capacity).circumstance,
      rfl, rfl, rfl⟩
  have hlast : (Token.endAt text.utf8ByteSize).content = (Token.endAt other.utf8ByteSize).content :=
    rfl
  obtain ⟨m, w, w', hhere, hthere, hplaces⟩ :=
    lockstep_unplaced.readAll hstart hlast hwords
  have hconfirmed := (Circumstance.unplaced_hear w .confirmed).trans
    ((congrArg (·.hear .confirmed) hplaces).trans (w'.unplaced_hear .confirmed).symm)
  have hnotes := congrArg Circumstance.notes hconfirmed
  rw [Machine.notesOf, Machine.notesOf, Machine.read_ofText, Machine.read_ofText, hhere, hthere,
    Machine.confirm_under, Machine.confirm_under, List.map_reverse, List.map_reverse]
  exact congrArg List.reverse hnotes

/-- The module of the file has a tag in both texts or in none. -/
theorem fileModuleTags_eq (options : Options) :
    options.fileModuleTags text = options.fileModuleTags other := by
  have hempty : (tokenize text).isEmpty = (tokenize other).isEmpty := by
    rw [← List.isEmpty_map (f := Token.content), htokens, List.isEmpty_map]
  unfold Options.fileModuleTags
  rw [Window.isDone_ofText, Window.isDone_ofText, hempty]

/-- **Blanks and comments mean nothing.**  If two texts have the same tokens,
wherever these stand, then one by one their tags have the same names, kinds and
scopes, and their diagnostics the same severities, codes and messages. -/
theorem spacing_invisible (options : Options) :
    (extract options text).tags.map Tag.content = (extract options other).tags.map Tag.content ∧
      (extract options text).diagnostics.map Diagnostic.content =
        (extract options other).diagnostics.map Diagnostic.content := by
  have hnotes := notesOf_unplaced htokens options.maxDepth
  constructor
  · simp only [extract, List.map_append]
    rw [content_filterMap_tag, content_filterMap_tag, fileModuleTags_eq htokens, hnotes]
  · apply content_overflowDiagnostics
    rw [← length_refusals_unplaced, hnotes, length_refusals_unplaced]

end Texts

theorem spacing_invisible_value :
    (tokenize "let f ~x = x").map Token.content =
        (tokenize "(* f *)\nlet f\n  ~ x = (* the same *) x\n").map Token.content ∧
      ((extract { localBindings := true, maxDepth := 0 } "let f ~x = x").tags.map Tag.content =
          (extract { localBindings := true, maxDepth := 0 }
            "(* f *)\nlet f\n  ~ x = (* the same *) x\n").tags.map Tag.content ∧
        (extract { localBindings := true, maxDepth := 0 } "let f ~x = x").diagnostics.map
            Diagnostic.content =
          (extract { localBindings := true, maxDepth := 0 }
            "(* f *)\nlet f\n  ~ x = (* the same *) x\n").diagnostics.map Diagnostic.content) :=
  have htokens : (tokenize "let f ~x = x").map Token.content =
      (tokenize "(* f *)\nlet f\n  ~ x = (* the same *) x\n").map Token.content := by
    decide +kernel
  ⟨htokens, spacing_invisible htokens _⟩

end CamlIndex
