import CamlIndex.Proofs.Language.Items

/-!
# The machine agrees with the traversal of the tree

The tags of a program can be read off its syntax tree: each marked word gives
one, in the scope of the tree around it.  The machine has no tree, only tokens
and its stack, and still it finds the same tags, as long as the stack is deep
enough for all that the program leaves behind.

* `extract_program` — the tags of a text on which a program is laid out are
  those of the program.
-/

namespace CamlIndex

/-- The tag of a mark at an offset.  Local names have one only if they are wanted. -/
def Mark.tag? (mark : Mark) (localBindings : Bool) (lines : LineTable) (start : Nat) :
    Option Tag :=
  if mark.isLocal && !localBindings then none
  else
    let position := lines.position start
    some ⟨mark.name, mark.kind, position.line + 1, position.column, start, mark.scope⟩

/-- The tags of a program whose words start at the given offsets of a text. -/
def Program.tags (program : Program) (localBindings : Bool) (text : String) (starts : List Nat) :
    List Tag :=
  ((program.pieces none).zip starts).filterMap fun (piece, start) =>
    piece.mark.bind (·.tag? localBindings (.ofText text) start)

/-- What a run is expected to find becomes the tags of the marks. -/
theorem tags_expected (localBindings : Bool) (maxDepth : Nat) (lines : LineTable)
    (tokens : List Token) (pieces : List Piece) :
    (expected tokens pieces).filterMap (Finding.tag? { localBindings, maxDepth } lines) =
      (pieces.zip (tokens.map Token.start)).filterMap fun (piece, start) =>
        piece.mark.bind (·.tag? localBindings lines start) := by
  have hone : ∀ (mark : Mark) (start : Nat),
      Finding.tag? { localBindings, maxDepth } lines (mark.finding start) =
        mark.tag? localBindings lines start := by
    intro mark start
    have hall : KindSet.all.contains mark.kind = true := by
      cases mark.kind <;> rfl
    cases hlocal : mark.isLocal <;> cases localBindings <;>
      simp [Finding.tag?, Options.wants, Mark.finding, Mark.tag?, hall, hlocal, Declaration.toTag]
  induction tokens generalizing pieces with
  | nil => simp [expected]
  | cons token tokens ih =>
      cases pieces with
      | nil => simp [expected]
      | cons piece pieces =>
          have hcons : expected (token :: tokens) (piece :: pieces) =
              piece.findings token.start ++ expected tokens pieces := by
            simp [expected]
          rw [hcons, List.filterMap_append, ih]
          cases hmark : piece.mark with
          | none => simp [Piece.findings, hmark]
          | some mark =>
              cases htag : mark.tag? localBindings lines token.start <;>
                simp [Piece.findings, hmark, hone, htag]

/-- **The machine agrees with the traversal.**  Where a program is laid out on a
text, the tags of the text are those of the program, in its order, unless a
frame did not fit, and a frame of room for each word is enough. -/
theorem extract_program (program : Program) (localBindings : Bool) (maxDepth : Nat)
    {text : String} {starts : List Nat}
    (hlaid : LaidOut 0 ((program.pieces none).map Piece.word) starts text.toList) :
    ((program.pieces none).length ≤ maxDepth →
        (extract { localBindings, maxDepth } text).diagnostics = []) ∧
      ((extract { localBindings, maxDepth } text).diagnostics = [] →
        (extract { localBindings, maxDepth } text).tags =
          program.tags localBindings text starts) := by
  obtain ⟨hspells, hstarts⟩ := tokenize_laidOut hlaid
  have hspell : Spell (tokenize text) (program.pieces none) :=
    List.forall₂_map_right_iff.mp hspells
  constructor
  · intro hroom
    have htokens : (tokenize text).length ≤ maxDepth := by
      rw [hspell.length_eq]
      exact hroom
    exact @diagnostics_eq_nil_of_room { localBindings, maxDepth } text htokens
  · intro hfits
    have hrefused := (diagnostics_eq_nil_iff _ _).mp hfits
    have hbefore : Settled [] (Machine.start maxDepth).view :=
      Begun.settled ⟨⟨rfl, rfl, rfl⟩, rfl⟩
    have hlast : Apart (Token.endAt text.utf8ByteSize).kind := ⟨nofun, nofun⟩
    obtain ⟨-, hfound⟩ := program.reads .outside _ _ _ hspell hlast hbefore hrefused
    have hfindings : findingsOf maxDepth text = expected (tokenize text) (program.pieces none) := by
      rw [findingsOf, Machine.read_ofText, ← Machine.found_eq_confirm, hfound]
      rfl
    rw [extract_tags_eq, hfindings, tags_expected, hstarts]
    rfl

/-- The tags of `let f x = 1`. -/
theorem extract_program_constant :
    let f : LowerName := ⟨⟨String.ofList ['f'], stands_word rfl (by simp) rfl⟩, rfl⟩
    let x : LowerName := ⟨⟨String.ofList ['x'], stands_word rfl (by simp) rfl⟩, rfl⟩
    let one : Lexeme .literal := ⟨String.ofList ['1'], stands_number rfl (by simp)⟩
    let program : Program := .more (.binding ⟨false, f, [x]⟩ (.expr (.apply (.one (.literal one)))))
      .empty
    let words := (program.pieces none).map Piece.word
    let text := String.ofList (spaced words)
    LaidOut 0 words (spacedStarts 0 words) text.toList ∧
      (extract { localBindings := true, maxDepth := 256 } text).tags =
        [⟨"f", .functionDef, 1, 5, 5, none⟩,
          ⟨"x", .variableDef, 1, 7, 7, some ⟨.functionDef, "f"⟩⟩] := by
  intro f x one program words text
  have hlaid : LaidOut 0 words (spacedStarts 0 words) text.toList := by
    rw [String.toList_ofList]
    exact laidOut_spaced 0 words
  obtain ⟨hroom, htags⟩ := extract_program program true 256 hlaid
  refine ⟨hlaid, (htags (hroom ?_)).trans ?_⟩
  · decide
  · decide

end CamlIndex
