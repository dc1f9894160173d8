import CamlIndex.Listing.Entry
import CamlIndex.Proofs.Finding
import CamlIndex.Proofs.Lines

/-!
# Tags point at their names

A tag says where its declaration stands: by an offset, by a line and a column,
and, in a listing, by the text of a line.  `Tag.Placed` states what it takes for
all of them to be right, and `ownTags_placed` that they are, for every tag that
comes from the text itself.  The tag of the module that a file defines as a
whole points at the start of the text and at no name.

The names of tags are names of tokens, so they hold no line break
(`Token.IsName.characters`); that is why a name stands on one line.

`ownTags_offsets_increasing` says that tags come in the order of the text and
that no two of them stand at the same place.
-/

namespace CamlIndex

/-- A character that the name of a declaration may hold. -/
def isNameCharacter (c : Char) : Bool :=
  continuesWord c || isOperatorChar c

/-- Every token is read by `readToken`, from its first character on. -/
theorem Cursor.readToken_of_mem_tokens {cursor : Cursor} {token : Token}
    (h : token ∈ cursor.tokens) :
    ∃ c cs, (readToken c cs).1 = token.kind ∧ token.text.toList = c :: (readToken c cs).2 := by
  fun_induction tokens cursor with
  | case1 => simp at h
  | case2 cursor first behind hnext _ ih =>
      rcases List.mem_cons.mp h with rfl | h
      · simp only [next?] at hnext
        split at hnext
        · simp at hnext
        · next c cs _ =>
            simp only [Option.some.injEq, Prod.mk.injEq] at hnext
            obtain ⟨rfl, -⟩ := hnext
            exact ⟨c, cs, rfl, by simp⟩
      · exact ih h

theorem continuesWord_of_startsWord {c : Char} (h : startsWord c = true) :
    continuesWord c = true := by
  simp only [startsWord, continuesWord, Char.isAlphanum, Bool.or_eq_true] at h ⊢
  tauto

theorem readToken_word {c : Char} {cs : List Char} (h : startsWord c = true) :
    (readToken c cs).2 = cs.takeWhile continuesWord := by
  have hquote : c ≠ '"' := by
    rintro rfl
    revert h
    decide
  simp [readToken, hquote, h]

theorem readToken_operator {c : Char} {cs : List Char} (h : (readToken c cs).1 = .operator)
    (hword : startsWord c = false) :
    isOperatorChar c = true ∧ (readToken c cs).2 = cs.takeWhile isOperatorChar := by
  have hcharacter : characterKind c ≠ .operator := by
    unfold characterKind
    split <;> simp
  unfold readToken at h ⊢
  grind

theorem readToken_ident {c : Char} {cs : List Char} (h : (readToken c cs).1 = .ident) :
    startsWord c = true := by
  have hoperator : ∀ run, operatorKind run ≠ .ident := by
    intro run
    unfold operatorKind
    split <;> simp
  have hcharacter : characterKind c ≠ .ident := by
    unfold characterKind
    split <;> simp
  unfold readToken at h
  grind

/-- The token of a name holds nothing but characters of names. -/
theorem Token.IsName.characters {text : String} {token : Token} (hmem : token ∈ tokenize text)
    (hname : token.IsName) : ∀ c ∈ token.text.toList, isNameCharacter c = true := by
  obtain ⟨first, cs, hkind, htext⟩ := Cursor.readToken_of_mem_tokens hmem
  have hcases : startsWord first = true ∨ (readToken first cs).1 = .operator := by
    rcases hname with h | h | ⟨-, hwild⟩
    · exact .inl (readToken_ident (hkind.trans h))
    · exact .inr (hkind.trans h)
    · -- the wildcard is a word
      left
      have hfirst : first = '_' := by simpa [Machine.isWildcard, Token.initial?, htext] using hwild
      rw [hfirst]
      decide
  rw [htext]
  intro c hc
  by_cases hword : startsWord first = true
  · rw [readToken_word hword] at hc
    have : continuesWord c = true := by
      rcases List.mem_cons.mp hc with rfl | hc
      · exact continuesWord_of_startsWord hword
      · exact List.all_eq_true.mp List.all_takeWhile c hc
    simp [isNameCharacter, this]
  · obtain ⟨hfirst, htail⟩ := readToken_operator (hcases.resolve_left hword) (by simpa using hword)
    rw [htail] at hc
    have : isOperatorChar c = true := by
      rcases List.mem_cons.mp hc with rfl | hc
      · exact hfirst
      · exact List.all_eq_true.mp List.all_takeWhile c hc
    simp [isNameCharacter, this]

/-! ## The place of a tag -/

/-- The tags of a text that come from the text itself. -/
def ownTags (options : Options) (text : String) : List Tag :=
  (extract options text).tags.drop (options.fileModuleTags text).length

/-- What stands in the text where a tag points: its name or, for a binding of
`()`, the first of the two parentheses. -/
def Tag.shown (tag : Tag) : String :=
  if tag.name = "()" then "(" else tag.name

/-- A tag of a text is placed if it stands behind whole lines `above` and behind
`left` on its own line, if its numbers say so, and if the text of its line,
which a listing shows, has it at its column with `right` behind it. -/
structure Tag.Placed (text : String) (tag : Tag) (above left right after : String) : Prop where
  named : tag.name ≠ ""
  source : text = above ++ left ++ tag.shown ++ after
  offset : (above ++ left).utf8ByteSize = tag.offset
  line : tag.line = (above ++ left).toList.count '\n' + 1
  line_start : (LineTable.ofText text).lineStart? (tag.line - 1) = some above.utf8ByteSize
  left_of_name : '\n' ∉ left.toList
  column : tag.column = left.utf8ByteSize
  line_text : (LineTable.ofText text).lineText? (tag.line - 1) = some (left ++ tag.shown ++ right)
  unit : tag.name = "()" → ∃ pair ∈ pairUp (Token.endAt text.utf8ByteSize) (tokenize text),
    pair.1.kind = .parenOpen ∧ pair.1.start = tag.offset ∧ pair.2.kind = .parenClose
  listed : ∀ path, (TaggedFile.mk path text [tag]).entries = [⟨path, tag, left ++ tag.shown ++ right⟩]

theorem mem_of_mem_pairUp {last : Token} {tokens : List Token} {pair : Token × Token}
    (h : pair ∈ pairUp last tokens) : pair.1 ∈ tokens := by
  fun_induction pairUp last tokens with
  | case1 => cases h
  | case2 token => simp_all
  | case3 token next rest ih =>
      rcases List.mem_cons.mp h with rfl | h
      · exact List.mem_cons_self
      · exact List.mem_cons_of_mem _ (ih h)

/-- Tags of the text itself are findings that were wanted. -/
theorem ownTags_eq (options : Options) (text : String) :
    ownTags options text =
      (findingsOf options.maxDepth text).filterMap (Finding.tag? options (.ofText text)) := by
  rw [ownTags, extract_tags_eq, List.drop_left]

/-- **Where a tag comes from.**  The text is read up to a token that names the tag's
declaration, and the machine at that token has the scope. -/
theorem mem_ownTags {options : Options} {text : String} {tag : Tag}
    (h : tag ∈ ownTags options text) :
    ∃ front current back, ∃ declaration : Declaration,
      tokenize text = front ++ current :: back ∧
      declaration.NamedBy current (back.headD (Token.endAt text.utf8ByteSize)) ∧
      declaration.scope =
        (Machine.partway options.maxDepth text front (current :: back)).stack.scope? ∧
      tag = declaration.toTag (.ofText text) := by
  rw [ownTags_eq] at h
  obtain ⟨finding, hfinding, hwanted⟩ := List.mem_filterMap.mp h
  have hdeclared := List.mem_map_of_mem (f := Finding.declaration) hfinding
  rw [findingsOf_declarations] at hdeclared
  rcases Machine.declared_readAll_at (fun _ => rfl) hdeclared with
    h | ⟨front, current, back, hsplit, hnamed, hscope⟩
  · cases h
  · simp only [Finding.tag?, Option.ite_none_right_eq_some, Option.some.injEq] at hwanted
    exact ⟨front, current, back, _, hsplit, hnamed, hscope, hwanted.2.symm⟩

theorem readToken_parenOpen {c : Char} {cs : List Char} (h : (readToken c cs).1 = .parenOpen) :
    c = '(' ∧ (readToken c cs).2 = [] := by
  have hword : ∀ word, wordKind word ≠ .parenOpen := by
    intro word hopen
    obtain ⟨entry, hentry, heq⟩ : ∃ entry ∈ keywords, entry.2 = TokenKind.parenOpen := by
      unfold wordKind keyword? at hopen
      split at hopen
      · next kind hlookup =>
          obtain ⟨before, after, hkeys, -⟩ := List.lookup_eq_some_iff.mp hlookup
          exact ⟨(word, kind), by simp [hkeys], hopen⟩
      · split at hopen <;> cases hopen
    revert entry
    decide
  have hoperator : ∀ run, operatorKind run ≠ .parenOpen := by
    intro run
    unfold operatorKind
    split <;> simp
  have hcharacter : characterKind c = .parenOpen → c = '(' := by
    unfold characterKind
    split <;> simp_all
  unfold readToken at h ⊢
  grind

/-- A token that names a declaration is shown by the tag of the declaration. -/
theorem Declaration.NamedBy.shown {text : String} {current next : Token}
    {declaration : Declaration} (hnamed : declaration.NamedBy current next)
    (hmem : current ∈ tokenize text) :
    (declaration.toTag (.ofText text)).shown = current.text ∧
      (∀ c ∈ current.text.toList, c ≠ '\n' ∧ c ≠ '\r') ∧
      (declaration.name = "()" → current.kind = .parenOpen ∧ next.kind = .parenClose) := by
  have hshown : (declaration.toTag (.ofText text)).shown =
      if declaration.name = "()" then "(" else declaration.name := rfl
  rcases hnamed.name with ⟨hname, heq⟩ | ⟨hopen, hclose, heq⟩
  · have hcharacters := hname.characters hmem
    have hunit : declaration.name ≠ "()" := by
      intro h
      have := hcharacters '(' (by simp [← heq, h])
      revert this
      decide
    refine ⟨by rw [hshown, if_neg hunit, heq], ?_, fun h => absurd h hunit⟩
    intro c hc
    have hc := hcharacters c hc
    constructor <;> rintro rfl <;> revert hc <;> decide
  · obtain ⟨c, cs, hkind, htext⟩ := Cursor.readToken_of_mem_tokens hmem
    obtain ⟨rfl, htail⟩ := readToken_parenOpen (hkind.trans hopen)
    have htext : current.text = "(" := by
      rw [← String.toList_inj, htext, htail]
      rfl
    refine ⟨by rw [hshown, if_pos heq, htext], ?_, fun _ => ⟨hopen, hclose⟩⟩
    simp [htext]

/-- A declaration that a token of the text names has a tag that is placed. -/
theorem Declaration.NamedBy.placed {text : String} {declaration : Declaration}
    {pair : Token × Token}
    (hpair : pair ∈ pairUp (Token.endAt text.utf8ByteSize) (tokenize text))
    (hnamed : declaration.NamedBy pair.1 pair.2) :
    ∃ above left right after,
      (declaration.toTag (.ofText text)).Placed text above left right after := by
  have hmem := mem_of_mem_pairUp hpair
  obtain ⟨first, cs, -, hchars⟩ := Cursor.readToken_of_mem_tokens hmem
  obtain ⟨before, after, htext, hstart⟩ := mem_tokenize hmem
  obtain ⟨above, left, rfl, hwhole, hleft⟩ := exists_wholeLines before
  obtain ⟨hshown, hcharacters, hunit⟩ := hnamed.shown hmem
  have hoffset : declaration.offset = byteLength above + byteLength left := by
    rw [hnamed.offset, ← hstart, byteLength_append]
  -- the name does not end its line, so the line shows all of it
  have hfront : '\n' ∉ left ++ pair.1.text.toList := by
    simpa [hleft] using fun h => (hcharacters _ h).1 rfl
  have hlast : (left ++ pair.1.text.toList).getLast? ≠ some '\r' := by
    intro h
    rw [List.getLast?_append, List.getLast?_eq_some_getLast (by simp [hchars])] at h
    simp only [Option.some_or, Option.some.injEq] at h
    exact (hcharacters _ (List.getLast_mem _)).2 h
  have htextFront : text.toList = above ++ (left ++ pair.1.text.toList) ++ after := by
    simpa using htext
  have htextLeft : text.toList = above ++ left ++ (pair.1.text.toList ++ after) := by
    simpa using htext
  obtain ⟨right, hline⟩ := lineText?_wholeLines htextFront hwhole hfront hlast
  have hposition := LineTable.position_wholeLines htextLeft hwhole hleft
  rw [← hoffset] at hposition
  have htag : declaration.toTag (.ofText text) = ⟨declaration.name, declaration.kind,
      above.count '\n' + 1, byteLength left, declaration.offset, declaration.scope⟩ := by
    simp [Declaration.toTag, hposition]
  have hlineText : (LineTable.ofText text).lineText? (above.count '\n') =
      some (String.ofList left ++ pair.1.text ++ String.ofList right) := by
    rw [hline]
    simp [String.ofList_append, String.append_assoc]
  have hlineNumber : (declaration.toTag (.ofText text)).line - 1 = above.count '\n' := by
    simp [htag]
  refine ⟨.ofList above, .ofList left, .ofList right, .ofList after, ?_⟩
  constructor
  case named =>
      show declaration.name ≠ ""
      rcases hnamed.name with ⟨-, heq⟩ | ⟨-, -, heq⟩
      · rintro h
        simp [← heq, h] at hchars
      · simp [heq]
  case source =>
      rw [hshown, ← String.toList_inj, htext]
      simp
  case offset => simp [htag, utf8ByteSize_ofList, hoffset]
  case line => simp [htag, List.count_eq_zero.mpr hleft]
  case line_start =>
      rw [hlineNumber, utf8ByteSize_ofList]
      exact LineTable.lineStart?_wholeLines (by simpa using htext) hwhole
  case left_of_name => simpa using hleft
  case column => simp [htag, utf8ByteSize_ofList]
  case line_text => rw [hshown, hlineNumber, hlineText]
  case unit =>
      intro hname
      obtain ⟨hopen, hclose⟩ := hunit hname
      exact ⟨pair, hpair, hopen, hnamed.offset.symm, hclose⟩
  case listed =>
      intro path
      simp only [TaggedFile.entries, List.map_cons, List.map_nil, hlineNumber, hlineText,
        Option.getD_some, hshown]

/-- **Tags point at their names.**  Every tag that comes from the text stands
where it says, and the line that a listing shows for it holds its name. -/
theorem ownTags_placed (options : Options) (text : String) :
    ∀ tag ∈ ownTags options text,
      ∃ above left right after, tag.Placed text above left right after := by
  intro tag htag
  rw [ownTags_eq] at htag
  obtain ⟨finding, hfinding, hwanted⟩ := List.mem_filterMap.mp htag
  have hdeclared : finding.declaration ∈
      (findingsOf options.maxDepth text).map Finding.declaration :=
    List.mem_map_of_mem hfinding
  rw [findingsOf_declarations] at hdeclared
  rcases Machine.mem_declared_readAll (fun _ => rfl) hdeclared with h | ⟨pair, hpair, hnamed⟩
  · cases h
  · simp only [Finding.tag?, Option.ite_none_right_eq_some, Option.some.injEq] at hwanted
    obtain ⟨-, rfl⟩ := hwanted
    exact hnamed.placed hpair

theorem ownTags_placed_unit :
    ⟨"()", .functionDef, 2, 4, 14, none⟩ ∈ ownTags {} "(* α *)\r\nlet () = g\r\n" ∧
      ∃ above left right after, Tag.Placed "(* α *)\r\nlet () = g\r\n"
        ⟨"()", .functionDef, 2, 4, 14, none⟩ above left right after :=
  have hmem : ⟨"()", .functionDef, 2, 4, 14, none⟩ ∈ ownTags {} "(* α *)\r\nlet () = g\r\n" := by
    decide +kernel
  ⟨hmem, ownTags_placed _ _ _ hmem⟩

/-- **No tag twice, no tag out of order.**  The tags that come from the text
stand at ascending offsets. -/
theorem ownTags_offsets_increasing (options : Options) (text : String) :
    ((ownTags options text).map Tag.offset).Pairwise (· < ·) := by
  have hdeclared : Machine.Increasing
      ((findingsOf options.maxDepth text).map Finding.declaration) := by
    rw [findingsOf_declarations]
    exact Machine.declared_readAll_increasing (fun _ => rfl) (tokenize_starts_increasing text)
      (by intro declaration h; cases h) List.Pairwise.nil
  rw [ownTags_eq, List.pairwise_map]
  rw [Machine.Increasing, List.pairwise_map] at hdeclared
  refine List.Pairwise.filterMap _ ?_ hdeclared
  intro a b hab tag htag other hother
  simp only [Finding.tag?, Option.ite_none_right_eq_some, Option.some.injEq] at htag hother
  obtain ⟨-, rfl⟩ := htag
  obtain ⟨-, rfl⟩ := hother
  exact hab

end CamlIndex
