import CamlIndex.Proofs.Comments
import CamlIndex.Proofs.Tiling

/-!
# Character literals in comments

Two readers come across character literals.  The lexer reads them by their forms: a
character, an escape or a code between apostrophes (`LiteralTail`).  The scanner of
comments has no forms.  It passes one literal as a whole, the quote between
apostrophes, and everything else character by character, in the hope that what stands
between two apostrophes is no mark of a string or a comment.

For all literals but one the hope is justified.  Where a literal holds a mark of a
comment, an apostrophe stands on either side of it, so no two marks meet
(`commentBody_literal`).  The one literal that the scanner misses is the escaped quote:
its quote follows a backslash and not an apostrophe, so a string starts there
(`commentBodyLength_escapedQuote`), which no quote ends before the comment does.

* `characterTail?_eq_some_iff` — the lexer takes a literal of one of the forms;
* `ClosesComment.inBytes` — a comment that closes is closed in its bytes, too;
* `commentBodyLength_literal` — what the scan of a comment with a literal in it counts.
-/

namespace CamlIndex

/-! ## The forms of a character literal -/

/-- What follows the opening apostrophe of a character literal. -/
inductive LiteralTail : List Char → Prop
  | plain {c : Char} (apostrophe : c ≠ '\'') (backslash : c ≠ '\\') : LiteralTail [c, '\'']
  | escape {e : Char} (letter : isEscapeLetter e) : LiteralTail ['\\', e, '\'']
  | decimal {a b c : Char} (first : a.isDigit) (second : b.isDigit) (third : c.isDigit) :
      LiteralTail ['\\', a, b, c, '\'']
  | hexadecimal {a b : Char} (first : isHexDigit a) (second : isHexDigit b) :
      LiteralTail ['\\', 'x', a, b, '\'']
  | octal {a b c : Char} (first : isOctalDigit a) (second : isOctalDigit b)
      (third : isOctalDigit c) : LiteralTail ['\\', 'o', a, b, c, '\'']

theorem literalTail_of_characterTail? {cs tail : List Char} (h : characterTail? cs = some tail) :
    LiteralTail tail := by
  unfold characterTail? at h
  split at h
  case h_1 =>
      split at h <;> cases h
      next hletter => exact .escape hletter
  case h_2 =>
      split at h <;> cases h
      next hcode =>
        simp only [Bool.or_eq_true, Bool.and_eq_true, beq_iff_eq] at hcode
        obtain ⟨⟨ha, hb⟩, hc⟩ | ⟨⟨rfl, hb⟩, hc⟩ := hcode
        · exact .decimal ha hb hc
        · exact .hexadecimal hb hc
  case h_3 =>
      split at h <;> cases h
      next hcode =>
        simp only [Bool.and_eq_true] at hcode
        exact .octal hcode.1.1 hcode.1.2 hcode.2
  case h_4 =>
      split at h <;> cases h
      next hplain => exact .plain (fun hc => hplain (.inr hc)) (fun hc => hplain (.inl hc))
  case h_5 => cases h

theorem isHexDigit_of_isDigit {c : Char} (h : c.isDigit) : isHexDigit c := by
  simp [isHexDigit, h]

theorem isHexDigit_of_isOctalDigit {c : Char} (h : isOctalDigit c) : isHexDigit c := by
  simp only [isOctalDigit, Bool.and_eq_true, decide_eq_true_eq] at h
  apply isHexDigit_of_isDigit
  simp only [Char.isDigit, Bool.and_eq_true, decide_eq_true_eq]
  exact ⟨h.1, UInt32.le_trans h.2 (by decide)⟩

theorem ne_apostrophe_of_isHexDigit {c : Char} (h : isHexDigit c) : c ≠ '\'' := by
  rintro rfl
  simp [isHexDigit] at h

theorem LiteralTail.characterTail?_append {tail : List Char} (h : LiteralTail tail)
    (ds : List Char) : characterTail? (tail ++ ds) = some tail := by
  cases h with
  | plain apostrophe backslash => simp [characterTail?, apostrophe, backslash]
  | escape letter => simp [characterTail?, letter]
  | decimal first second third =>
      have hb := ne_apostrophe_of_isHexDigit (isHexDigit_of_isDigit second)
      simp [characterTail?, first, second, third]
  | hexadecimal first second =>
      have ha := ne_apostrophe_of_isHexDigit first
      simp [characterTail?, first, second]
  | octal first second third =>
      have ha := ne_apostrophe_of_isHexDigit (isHexDigit_of_isOctalDigit first)
      have hc := ne_apostrophe_of_isHexDigit (isHexDigit_of_isOctalDigit third)
      simp [characterTail?, first, second, third]

/-- **The lexer takes a literal of one of the forms**, if the text starts with one. -/
theorem characterTail?_eq_some_iff {cs tail : List Char} :
    characterTail? cs = some tail ↔ LiteralTail tail ∧ tail <+: cs := by
  constructor
  · intro h
    exact ⟨literalTail_of_characterTail? h, _, characterTail?_append_drop h⟩
  · rintro ⟨htail, ds, rfl⟩
    exact htail.characterTail?_append ds

/-! ## What a scanner passes -/

/-- The characters that can be marks of strings and comments, or parts of such marks. -/
def commentMarks : List Char := ['"', '\'', '(', ')', '*']

/-- No character of the text can be a mark. -/
def Unmarked (cs : List Char) : Prop :=
  ∀ c ∈ cs, c ∉ commentMarks

theorem commentBody_cons_unmarked {c : Char} (hc : c ∉ commentMarks) (depth : Nat)
    (afterStar : Bool) (cs : List Char) :
    commentBody depth (.plain afterStar) (c :: cs) = c :: commentBody depth (.plain false) cs := by
  simp only [commentMarks, List.mem_cons, List.not_mem_nil, or_false, not_or] at hc
  obtain ⟨hquote, hapostrophe, hopen, hclose, hstar⟩ := hc
  rw [commentBody_plain_cons, beq_false_of_ne hstar]
  simp [hquote, hapostrophe, hopen, hclose]

theorem commentBody_unmarked {front : List Char} (h : Unmarked front) (depth : Nat)
    (cs : List Char) :
    commentBody depth (.plain false) (front ++ cs) =
      front ++ commentBody depth (.plain false) cs := by
  induction front with
  | nil => rfl
  | cons c front ih =>
      rw [List.cons_append, commentBody_cons_unmarked (h c (by simp)),
        ih fun d hd => h d (by simp [hd])]
      rfl

/-- An apostrophe is passed alone if no quote follows it. -/
theorem commentBody_apostrophe {cs : List Char} (h : cs[0]? ≠ some '"') (depth : Nat)
    (afterStar : Bool) :
    commentBody depth (.plain afterStar) ('\'' :: cs) =
      '\'' :: commentBody depth (.plain false) cs := by
  rw [commentBody_plain_cons]
  simp [h]

/-- A character between apostrophes is passed with them, whether it can be a mark or not. -/
theorem commentBody_between {c : Char} (hc : c ≠ '\'') {cs : List Char} (h : cs[0]? ≠ some '"')
    (depth : Nat) (afterStar : Bool) :
    commentBody depth (.plain afterStar) ('\'' :: c :: '\'' :: cs) =
      '\'' :: c :: '\'' :: commentBody depth (.plain false) cs := by
  by_cases hquote : c = '"'
  · subst hquote
    rw [commentBody]
  -- no star stands in front of `c`, and the apostrophe behind it completes no mark
  have hpass : commentBody depth (.plain false) (c :: '\'' :: cs) =
      c :: commentBody depth (.plain (c == '*')) ('\'' :: cs) := by
    rw [commentBody_plain_cons]
    simp [hquote, hc]
  rw [commentBody_apostrophe (by simpa using hquote), hpass, commentBody_apostrophe h]

/-- **A literal is passed** if all that its apostrophes enclose is no mark. -/
theorem commentBody_enclosed {middle : List Char} (hmiddle : Unmarked middle) {cs : List Char}
    (h : cs[0]? ≠ some '"') (depth : Nat) (afterStar : Bool) :
    commentBody depth (.plain afterStar) ('\'' :: middle ++ '\'' :: cs) =
      '\'' :: middle ++ '\'' :: commentBody depth (.plain false) cs := by
  have hfirst : (middle ++ '\'' :: cs)[0]? ≠ some '"' := by
    cases middle with
    | nil => simp
    | cons c middle =>
        have hc := hmiddle c (by simp)
        rintro hquote
        obtain rfl : c = '"' := by simpa using hquote
        exact hc (by simp [commentMarks])
  rw [List.cons_append, commentBody_apostrophe hfirst, commentBody_unmarked hmiddle,
    commentBody_apostrophe h]
  rfl

/-- The rest of the literal that the scanner does not pass. -/
def escapedQuote : List Char := ['\\', '"', '\'']

theorem not_mem_commentMarks_of_isHexDigit {c : Char} (h : isHexDigit c) : c ∉ commentMarks := by
  intro hc
  simp only [commentMarks, List.mem_cons, List.not_mem_nil, or_false] at hc
  rcases hc with rfl | rfl | rfl | rfl | rfl <;> simp [isHexDigit] at h

theorem unmarked_nil : Unmarked [] := by
  intro c hc
  cases hc

theorem Unmarked.cons {c : Char} {cs : List Char} (hcs : Unmarked cs) (hc : c ∉ commentMarks) :
    Unmarked (c :: cs) := by
  intro d hd
  rcases List.mem_cons.mp hd with rfl | hd
  · exact hc
  · exact hcs d hd

/-- **The scanner passes every literal but one.**  A literal that is not a character
between apostrophes encloses no marks, unless an apostrophe or a quote is escaped. -/
theorem commentBody_literal {tail : List Char} (htail : LiteralTail tail)
    (hescaped : tail ≠ escapedQuote) {cs : List Char} (h : cs[0]? ≠ some '"') (depth : Nat)
    (afterStar : Bool) :
    commentBody depth (.plain afterStar) ('\'' :: tail ++ cs) =
      '\'' :: tail ++ commentBody depth (.plain false) cs := by
  have hbackslash : '\\' ∉ commentMarks := by decide
  have hdigit := @not_mem_commentMarks_of_isHexDigit
  cases htail with
  | plain apostrophe backslash => exact commentBody_between apostrophe h depth afterStar
  | @escape e letter =>
      by_cases hquote : e = '"'
      · exact absurd (congrArg (['\\', ·, '\'']) hquote) hescaped
      by_cases hapostrophe : e = '\''
      · subst hapostrophe
        have hnext : ('\'' :: cs)[0]? ≠ some '"' := by simp
        have hfront := commentBody_enclosed (unmarked_nil.cons hbackslash) hnext depth afterStar
        rw [commentBody_apostrophe h] at hfront
        exact hfront
      · have he : e ∉ commentMarks := by
          simp only [isEscapeLetter, List.mem_cons, List.not_mem_nil, or_false, hquote,
            hapostrophe, false_or, decide_eq_true_eq] at letter
          rcases letter with rfl | rfl | rfl | rfl | rfl | rfl <;> decide
        exact commentBody_enclosed ((unmarked_nil.cons he).cons hbackslash) h depth afterStar
  | decimal first second third =>
      have hmiddle := unmarked_nil.cons (hdigit (isHexDigit_of_isDigit third))
        |>.cons (hdigit (isHexDigit_of_isDigit second))
        |>.cons (hdigit (isHexDigit_of_isDigit first))
      exact commentBody_enclosed (hmiddle.cons hbackslash) h depth afterStar
  | hexadecimal first second =>
      have hmiddle := (unmarked_nil.cons (hdigit second)).cons (hdigit first)
      exact commentBody_enclosed ((hmiddle.cons (by decide)).cons hbackslash) h depth afterStar
  | octal first second third =>
      have hmiddle := unmarked_nil.cons (hdigit (isHexDigit_of_isOctalDigit third))
        |>.cons (hdigit (isHexDigit_of_isOctalDigit second))
        |>.cons (hdigit (isHexDigit_of_isOctalDigit first))
      exact commentBody_enclosed ((hmiddle.cons (by decide)).cons hbackslash) h depth afterStar

/-! ## Comments with a literal -/

section Comments

variable {u tail v : List Char}

/-- What follows the opening mark of a comment that holds a literal with `u` in front of
it and `v` behind it. -/
def literalComment (u tail v : List Char) : List Char :=
  u ++ '\'' :: tail ++ v ++ ['*', ')']

theorem closesComment_literal (htail : LiteralTail tail) (hescaped : tail ≠ escapedQuote)
    (hu : Unmarked u) (hv : Unmarked v) : ClosesComment (literalComment u tail v) := by
  intro more
  have hnext : (v ++ '*' :: ')' :: more)[0]? ≠ some '"' := by
    intro hquote
    obtain ⟨rest, hrest⟩ := eq_cons_of_getElem?_zero hquote
    cases v with
    | nil => simp at hrest
    | cons c v =>
        obtain ⟨rfl, -⟩ := List.cons.inj hrest
        exact hv '"' (by simp) (by decide)
  have hclose : commentBody 0 (.plain false) ('*' :: ')' :: more) = ['*', ')'] := by
    simp [commentBody]
  calc
    commentTail (literalComment u tail v ++ more)
        = commentBody 0 (.plain false) (u ++ ('\'' :: tail ++ (v ++ '*' :: ')' :: more))) := by
          simp [commentTail, literalComment]
    _ = literalComment u tail v := by
          rw [commentBody_unmarked hu, commentBody_literal htail hescaped hnext,
            commentBody_unmarked hv, hclose]
          simp [literalComment]

/-- **What closes a comment** closes it in the bytes, too, whatever bytes come next. -/
theorem ClosesComment.inBytes {body : List Char} (h : ClosesComment body) :
    ClosesComment (byteUnits body) := by
  have hscan : commentTail (byteUnits (body ++ [' '])) = byteUnits body := by
    rw [commentTail, commentBody_byteUnits, ← commentTail, h]
  have hshort : (commentTail (byteUnits (body ++ [' ']))).length <
      (byteUnits (body ++ [' '])).length := by
    rw [hscan, byteUnits_append, List.length_append]
    exact Nat.lt_add_of_pos_right (by decide)
  have hclosed := closesComment_commentTail hshort
  rwa [hscan] at hclosed

theorem bytesAsChars_encode_append (cs : List Char) (r : List UInt8) :
    bytesAsChars (Utf8.encode (String.ofList cs) ++ r) = byteUnits cs ++ bytesAsChars r := by
  rw [encode_ofList, bytesAsChars, List.map_append]
  rfl

theorem ClosesComment.commentBodyLength_append {body : List Char} (h : ClosesComment body)
    (r : List UInt8) :
    commentBodyLength (Utf8.encode (String.ofList body) ++ r) = byteLength body := by
  rw [commentBodyLength, bytesAsChars_encode_append, h.inBytes, length_byteUnits]

/-- A gap goes on behind a comment that is closed. -/
theorem ClosesComment.gap_append {body : List Char} (h : ClosesComment body)
    (behind : List Char) :
    gap ('(' :: '*' :: body ++ behind) = '(' :: '*' :: body ++ gap behind := by
  rw [List.cons_append, List.cons_append, gap, h behind, List.drop_left]

/-! ## The escaped quote -/

/-- An ASCII character is among the bytes of a text if it is in the text. -/
theorem mem_byteUnits_iff {mark : Char} (hmark : mark.toNat < 128) {cs : List Char} :
    mark ∈ byteUnits cs ↔ mark ∈ cs := by
  induction cs with
  | nil => simp
  | cons c cs ih =>
      rcases Nat.lt_or_ge c.toNat 128 with hc | hc
      · rw [byteUnits_cons_ascii hc, List.mem_cons, List.mem_cons, ih]
      · obtain ⟨first, more, hfirst, hmore, hcons⟩ := byteUnits_cons_other hc
        have hne : mark ≠ c := by
          rintro rfl
          omega
        have hneFirst : mark ≠ first := by
          rintro rfl
          omega
        have hnotMore : mark ∉ more := by
          intro hmem
          have := hmore mark hmem
          omega
        simp [hcons, hne, hneFirst, hnotMore, ih]

theorem Unmarked.inBytes {cs : List Char} (h : Unmarked cs) :
    Unmarked (byteUnits cs) := by
  intro mark hmem hmark
  have hascii : mark.toNat < 128 := by
    simp only [commentMarks, List.mem_cons, List.not_mem_nil, or_false] at hmark
    rcases hmark with rfl | rfl | rfl | rfl | rfl <;> decide
  exact h mark ((mem_byteUnits_iff hascii).mp hmem) hmark

/-- A string without a quote goes on; behind a parenthesis no backslash is pending. -/
theorem stringBody_unquoted {cs : List Char} (h : '"' ∉ cs) (escaped : Bool) (rest : List Char) :
    stringBody escaped (cs ++ [')'] ++ rest) = cs ++ [')'] ++ stringBody false rest := by
  induction cs generalizing escaped with
  | nil => simp [stringBody]
  | cons c cs ih =>
      have hc : c ≠ '"' := by
        rintro rfl
        exact h (by simp)
      rw [List.cons_append, List.cons_append, stringBody, if_neg (fun hend => hc hend.1),
        ih (fun hmem => h (by simp [hmem]))]
      rfl

/-- **The quote of an escaped quote opens a string**, and the comment is read on where
the string ends in what follows. -/
theorem commentBodyLength_escapedQuote (hu : Unmarked u) (hv : Unmarked v) (r : List UInt8) :
    commentBodyLength (Utf8.encode (String.ofList (literalComment u escapedQuote v)) ++ r) =
      byteLength (literalComment u escapedQuote v) + stringBodyLength r +
        commentBodyLength (r.drop (stringBodyLength r)) := by
  have hquote : '"' ∉ byteUnits ('\'' :: v ++ ['*']) := by
    rw [mem_byteUnits_iff (by decide)]
    intro hmem
    have hv' : '"' ∈ v := by simpa using hmem
    exact hv '"' hv' (by decide)
  have hbytes : byteUnits (literalComment u escapedQuote v) =
      byteUnits u ++ '\'' :: '\\' :: '"' :: (byteUnits ('\'' :: v ++ ['*']) ++ [')']) := by
    have hparts : literalComment u escapedQuote v =
        u ++ ['\'', '\\', '"'] ++ ('\'' :: v ++ ['*']) ++ [')'] := by
      simp [literalComment, escapedQuote]
    have hmarks : byteUnits ['\'', '\\', '"'] = ['\'', '\\', '"'] := rfl
    have hparen : byteUnits [')'] = [')'] := rfl
    rw [hparts, byteUnits_append, byteUnits_append, byteUnits_append, hmarks, hparen]
    simp only [List.append_assoc, List.cons_append, List.nil_append]
  generalize byteUnits ('\'' :: v ++ ['*']) = string at hquote hbytes
  have hscan : commentTail (byteUnits (literalComment u escapedQuote v) ++ bytesAsChars r) =
      byteUnits (literalComment u escapedQuote v) ++ (stringTail (bytesAsChars r) ++
        commentTail ((bytesAsChars r).drop (stringTail (bytesAsChars r)).length)) := by
    rw [hbytes, commentTail, List.append_assoc, commentBody_unmarked hu.inBytes]
    simp only [List.cons_append]
    rw [commentBody_apostrophe (by simp), commentBody_cons_unmarked (by decide),
      commentBody_quote, stringTail, stringBody_unquoted hquote, List.length_append,
      ← List.drop_drop, List.drop_left]
    simp only [stringTail, commentTail, List.append_assoc, List.cons_append]
  have hdrop : bytesAsChars (r.drop (stringBodyLength r)) =
      (bytesAsChars r).drop (stringTail (bytesAsChars r)).length := List.map_drop
  rw [commentBodyLength, bytesAsChars_encode_append, hscan, commentBodyLength, hdrop,
    List.length_append, List.length_append, length_byteUnits, ← Nat.add_assoc]
  rfl

theorem byteLength_literalComment :
    byteLength (literalComment u tail v) = byteLength (u ++ '\'' :: tail ++ v) + 2 := by
  rw [literalComment, byteLength_append]
  rfl

/-- **The scan counts what the comment holds**, whatever bytes follow it. -/
theorem commentBodyLength_passed (htail : LiteralTail tail) (hescaped : tail ≠ escapedQuote)
    (hu : Unmarked u) (hv : Unmarked v) (r : List UInt8) :
    commentBodyLength (Utf8.encode (String.ofList (literalComment u tail v)) ++ r) =
      byteLength (u ++ '\'' :: tail ++ v) + 2 := by
  have hclosed := closesComment_literal htail hescaped hu hv
  rw [hclosed.commentBodyLength_append, byteLength_literalComment]

theorem stringBodyLength_pos {r : List UInt8} (h : r ≠ []) : 0 < stringBodyLength r := by
  cases r with
  | nil => exact absurd rfl h
  | cons byte r =>
      unfold stringBodyLength stringTail bytesAsChars
      rw [List.map_cons, stringBody]
      split <;> simp

end Comments

/-- What the two readers make of a character literal, of which `tail` follows the opening
apostrophe: the lexer outside of comments, and the scanner in a comment that holds `u` in
front of the literal and `v` behind it. -/
structure LiteralRead (u tail v : List Char) : Prop where
  /-- The lexer reads the literal as one token, whatever follows it. -/
  token : ∀ behind, readToken '\'' (tail ++ behind) = (.literal, tail)
  /-- The scan of the comment ends at the closing mark, whatever bytes follow it. -/
  counted : tail ≠ escapedQuote → ∀ r, commentBodyLength
    (Utf8.encode (String.ofList (literalComment u tail v)) ++ r) =
      byteLength (u ++ '\'' :: tail ++ v) + 2
  /-- What follows the comment is not hidden. -/
  skipped : tail ≠ escapedQuote → ∀ behind,
    gap ('(' :: '*' :: literalComment u tail v ++ behind) =
      '(' :: '*' :: literalComment u tail v ++ gap behind
  /-- With an escaped quote the scan goes on to the end of a string that starts at the quote,
  and from there to the end of the comment. -/
  opened : tail = escapedQuote → ∀ r, commentBodyLength
    (Utf8.encode (String.ofList (literalComment u tail v)) ++ r) =
      byteLength (u ++ '\'' :: tail ++ v) + 2 + stringBodyLength r +
        commentBodyLength (r.drop (stringBodyLength r))
  /-- So the escaped quote is the one literal for which it matters what follows. -/
  agrees : ∀ r, commentBodyLength
    (Utf8.encode (String.ofList (literalComment u tail v)) ++ r) =
      byteLength (u ++ '\'' :: tail ++ v) + 2 ↔ tail ≠ escapedQuote ∨ r = []

/-- **Character literals in comments.**  Every literal that the lexer accepts is passed by
the scan of a comment, which counts what stands in front of the closing mark and the mark
itself.  The escaped quote is the exception: the scan takes its quote for the start of a
string, so it counts too much whenever anything follows the comment. -/
theorem commentBodyLength_literal {u tail v : List Char} (htail : characterTail? tail = some tail)
    (hu : Unmarked u) (hv : Unmarked v) : LiteralRead u tail v := by
  obtain ⟨hliteral, -⟩ := characterTail?_eq_some_iff.mp htail
  constructor
  case token =>
      intro behind
      have hread : characterTail? (tail ++ behind) = some tail :=
        characterTail?_eq_some_iff.mpr ⟨hliteral, List.prefix_append tail behind⟩
      rw [readToken, if_pos rfl, hread]
      rfl
  case counted => exact fun hescaped => commentBodyLength_passed hliteral hescaped hu hv
  case skipped =>
      exact fun hescaped => (closesComment_literal hliteral hescaped hu hv).gap_append
  case opened =>
      rintro rfl r
      rw [commentBodyLength_escapedQuote hu hv, byteLength_literalComment]
  case agrees =>
      intro r
      by_cases hescaped : tail = escapedQuote
      · subst hescaped
        rw [commentBodyLength_escapedQuote hu hv, byteLength_literalComment]
        by_cases hr : r = []
        · subst hr
          exact iff_of_true rfl (.inr rfl)
        · have hpos := stringBodyLength_pos hr
          refine iff_of_false (by omega) ?_
          simp [hr]
      · exact iff_of_true (commentBodyLength_passed hliteral hescaped hu hv r) (.inl hescaped)

theorem commentBodyLength_literal_star :
    characterTail? ['*', '\''] = some ['*', '\''] ∧ Unmarked [' '] ∧ Unmarked [] ∧
      LiteralRead [' '] ['*', '\''] [] := by
  have hblank : Unmarked [' '] := unmarked_nil.cons (by decide)
  exact ⟨rfl, hblank, unmarked_nil, commentBodyLength_literal rfl hblank unmarked_nil⟩

/-- The comment `(* '\"' *)` hides the `x` behind it. -/
theorem escapedQuote_hides_code :
    characterTail? escapedQuote = some escapedQuote ∧ Unmarked [' '] ∧
      commentBodyLength (Utf8.encode (String.ofList
        ([' '] ++ '\'' :: escapedQuote ++ [' '] ++ ['*', ')'])) ++ [0x20, 0x78]) = 10 ∧
      byteLength ([' '] ++ '\'' :: escapedQuote ++ [' ']) + 2 = 8 := by
  refine ⟨rfl, unmarked_nil.cons (by decide), ?_, rfl⟩
  rw [encode_ofList]
  decide

end CamlIndex
