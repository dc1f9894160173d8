import CamlIndex.Proofs.Bytes
import CamlIndex.Proofs.Foresight

/-!
# Tokens and gaps tile the text

Reading a text loses nothing and reads nothing twice: the text is a gap, a token, a
gap, a token and so on up to a last gap.  What a token is cut from is known
(`Cursor.next?_spec`); here it is said what gaps are made of, and that there is
nothing else.

A comment in a gap is as long as its scan says, over the bytes of everything that
follows.  The scan of an open comment runs to the end of the text, so whatever
stands in front of something is closed (`closesComment_commentTail`): an open
comment can only be the very last thing of the last gap.

* `isGap_gap` — what is skipped in front of a token are blanks and comments;
* `Cursor.InText.gap_of_split` — between any two neighbouring tokens, in front of the
  first and behind the last lies such a gap and nothing else;
* `Cursor.answer_eq` — who asks for tokens again and again gets the tokens one by
  one, and then the end token for ever;
* `tokenize_tiled` — all of this about a whole text.
-/

namespace CamlIndex

/-! ## Comments that are closed -/

/-- A comment of which `body` follows the opening mark is closed: nothing that
stands behind it is read as a part of it. -/
def ClosesComment (body : List Char) : Prop :=
  ∀ more, commentTail (body ++ more) = body

/-- A comment takes something of what follows, if anything follows. -/
theorem commentBody_ne_nil (depth : Nat) (part : CommentPart) {cs : List Char} (h : cs ≠ []) :
    commentBody depth part cs ≠ [] := by
  fun_cases commentBody depth part cs <;> simp_all

/-- What a comment takes first is what comes first. -/
theorem head_of_commentBody {depth : Nat} {part : CommentPart} {c : Char} {cs more rest : List Char}
    (h : (commentBody depth part cs).length < cs.length)
    (heq : commentBody depth part cs ++ more = c :: rest) :
    ∃ taken left, commentBody depth part cs = c :: taken ∧ cs = c :: left ∧
      taken ++ more = rest := by
  have hcs : cs ≠ [] := by
    rintro rfl
    simp at h
  obtain ⟨d, taken, htaken⟩ := List.exists_cons_of_ne_nil (commentBody_ne_nil depth part hcs)
  have hfull := commentBody_append_drop depth part cs
  rw [htaken, List.cons_append] at heq hfull
  cases heq
  exact ⟨taken, _, htaken, hfull.symm, rfl⟩

/-- **A comment that stops short of the end of the text** stops there in any text
that begins like this one. -/
theorem commentBody_stops {depth : Nat} {part : CommentPart} {cs : List Char}
    (h : (commentBody depth part cs).length < cs.length) (more : List Char) :
    commentBody depth part (commentBody depth part cs ++ more) = commentBody depth part cs := by
  fun_induction commentBody depth part cs with
  | case1 => simp at h
  | case2 depth escaped c cs hend ih =>
      rw [List.cons_append, commentBody, if_pos hend, ih (by simpa using h)]
  | case3 depth escaped c cs hend ih =>
      rw [List.cons_append, commentBody, if_neg hend, ih (by simpa using h)]
  | case4 => rfl
  | case5 outer cs ih =>
      rw [List.cons_append, commentBody, ih (by simpa using h)]
  | case6 depth afterStar cs ih =>
      rw [List.cons_append, List.cons_append, commentBody, ih (by simpa using h)]
  | case7 depth afterStar cs ih =>
      rw [List.cons_append, commentBody, ih (by simpa using h)]
  | case8 depth afterStar cs ih =>
      rw [List.cons_append, List.cons_append, List.cons_append, commentBody, ih (by simpa using h)]
  | case9 depth afterStar c cs hclose hcloseOuter hopen hquote hliteral ih =>
      -- the marks of two or three characters are no marks here either
      have hinside : (commentBody depth (.plain (c == '*')) cs).length < cs.length := by
        simpa using h
      rw [List.cons_append, commentBody, ih hinside]
      · intro mark hc hmark
        obtain ⟨_, left, -, hcs, -⟩ := head_of_commentBody hinside hmark
        exact hopen left hc hcs
      · exact hquote
      · intro mark hc hmark
        subst hc
        obtain ⟨taken, left, htaken, rfl, hrest⟩ := head_of_commentBody hinside hmark
        have hquoted : commentBody depth (.plain ('\'' == '*')) ('"' :: left) =
            '"' :: commentBody depth (.quoted false) left := by
          rw [commentBody_plain_cons]
          simp
        rw [hquoted] at htaken hinside
        cases htaken
        obtain ⟨-, left', -, rfl, -⟩ := head_of_commentBody (by simpa using hinside) hrest
        exact hliteral left' rfl rfl
      · exact hclose
      · exact hcloseOuter

theorem closesComment_commentTail {cs : List Char} (h : (commentTail cs).length < cs.length) :
    ClosesComment (commentTail cs) :=
  commentBody_stops h

/-! ## What gaps are made of -/

/-- A gap in front of `behind` is made of blanks and of comments.  A comment takes
as many bytes as its scan counts in all that follows its opening mark, and it is
closed unless nothing follows it. -/
inductive IsGap (behind : List Char) : List Char → Prop
  | nil : IsGap behind []
  | blank {c : Char} {gap : List Char} (blank : c ∈ [' ', '\t', '\r', '\n', '\x0c'])
      (more : IsGap behind gap) : IsGap behind (c :: gap)
  | comment {body gap : List Char}
      (length : byteLength body =
        commentBodyLength (Utf8.encode (String.ofList (body ++ gap ++ behind))))
      (closed : gap ++ behind ≠ [] → ClosesComment body) (more : IsGap behind gap) :
      IsGap behind ('(' :: '*' :: body ++ gap)

/-- The scan of the bytes of a comment counts the bytes that the comment takes. -/
theorem commentBodyLength_encode (cs : List Char) :
    commentBodyLength (Utf8.encode (String.ofList cs)) = byteLength (commentTail cs) := by
  rw [encode_ofList]
  change (commentBody 0 (.plain false) (byteUnits cs)).length = _
  rw [commentBody_byteUnits, length_byteUnits, commentTail]

/-- **What is skipped in front of a token** are blanks and comments. -/
theorem isGap_gap (cs : List Char) : IsGap (cs.drop (gap cs).length) (gap cs) := by
  fun_induction gap cs with
  | case1 => exact .nil
  | case2 cs ih =>
      have hbody := commentBody_append_drop 0 (.plain false) cs
      have hgap := gap_append_drop (cs.drop (commentTail cs).length)
      simp only [List.cons_append, List.length_cons, List.length_append, List.drop_succ_cons,
        ← List.drop_drop]
      refine .comment ?_ ?_ ih
      · rw [List.append_assoc, hgap, commentTail, hbody]
        exact (commentBodyLength_encode cs).symm
      · intro hbehind
        rw [hgap] at hbehind
        exact closesComment_commentTail (by simpa using hbehind)
  | case3 c cs _ hblank ih =>
      exact .blank (by simpa [isBlank] using hblank) ih
  | case4 => exact .nil

namespace Cursor

/-! ## Gaps between tokens -/

/-- Where no token is left, all that is left is skipped. -/
theorem gap_of_next?_eq_none {cursor : Cursor} (h : cursor.next? = none) :
    gap cursor.rest = cursor.rest := by
  have hrest := gap_append_drop cursor.rest
  simp only [next?, skipGap, advance] at h
  split at h
  · next hdone => rwa [hdone, List.append_nil] at hrest
  · cases h

/-- **Where the tokens of a text are cut in two**, a gap lies between the end of the
last one in front and the start of the first one behind. -/
theorem InText.gap_of_split {text : String} {cursor : Cursor} (hin : cursor.InText text)
    {front back : List Token} (h : cursor.tokens = front ++ back) :
    ∃ before gap behind, text.toList = before ++ gap ++ behind ∧
      byteLength before = (front.getLast?.map Token.stop).getD cursor.offset ∧
      byteLength (before ++ gap) = (back.head?.map Token.start).getD text.utf8ByteSize ∧
      (behind = [] ↔ back = []) ∧ IsGap behind gap := by
  induction front generalizing cursor with
  | nil =>
      obtain ⟨before, htext, hoffset⟩ := hin
      rw [List.nil_append] at h
      cases hnext : cursor.next? with
      | none =>
          rw [tokens_of_next?_eq_none hnext] at h
          have hgap := gap_of_next?_eq_none hnext
          refine ⟨before, cursor.rest, [], by simpa using htext, hoffset, ?_, by simp [← h], ?_⟩
          · rw [← h, ← htext]
            exact (utf8ByteSize_ofList _).symm.trans (congrArg _ text.ofList_toList)
          · simpa [hgap] using isGap_gap cursor.rest
      | some found =>
          obtain ⟨token, behind⟩ := found
          obtain ⟨hrest, hstart, -, -, hreal⟩ := next?_spec hnext
          rw [tokens_of_next? hnext] at h
          rw [List.append_assoc] at hrest
          refine ⟨before, gap cursor.rest, token.text.toList ++ behind.rest, ?_, hoffset,
            ?_, ?_, ?_⟩
          · rw [htext, List.append_assoc, ← hrest]
          · rw [← h, byteLength_append, hoffset, ← hstart]
            rfl
          · simp [← h, hreal]
          · have hbehind := congrArg (List.drop (gap cursor.rest).length) hrest
            rw [List.drop_left] at hbehind
            exact hbehind ▸ isGap_gap cursor.rest
  | cons token front ih =>
      obtain ⟨behind, hnext, hlater⟩ := next?_of_tokens h
      obtain ⟨-, -, -, hplace, -⟩ := next?_spec hnext
      obtain ⟨before, gap, after, htext, hfront, hback, hend, hgap⟩ := ih (hin.next? hnext).1 hlater
      refine ⟨before, gap, after, htext, ?_, hback, hend, hgap⟩
      rw [hfront, hplace, List.getLast?_cons]
      cases front.getLast? <;> rfl

/-- A token is as long as its text. -/
theorem stop_of_mem_tokens {cursor : Cursor} {token : Token} (h : token ∈ cursor.tokens) :
    token.stop = token.start + byteLength token.text.toList := by
  fun_induction tokens cursor with
  | case1 => cases h
  | case2 cursor first behind hnext _ ih =>
      rcases List.mem_cons.mp h with rfl | h
      · exact (next?_spec hnext).2.2.1
      · exact ih h

/-! ## Asking again and again -/

/-- What a cursor in a text of `length` bytes answers when it is asked for a token,
and for the next one, and so on. -/
def answer (length : Nat) (cursor : Cursor) : Nat → Token
  | 0 => (cursor.next length).1
  | k + 1 => (cursor.next length).2.answer length k

/-- **Tokens, then the end.**  The answers are the tokens that are left, one by one,
and the end token from then on. -/
theorem answer_eq (length : Nat) (cursor : Cursor) (k : Nat) :
    cursor.answer length k = cursor.tokens[k]?.getD (Token.endAt length) := by
  induction k generalizing cursor with
  | zero =>
      cases hnext : cursor.next? with
      | none => simp [answer, next, hnext, tokens_of_next?_eq_none hnext]
      | some found => simp [answer, next, hnext, tokens_of_next? hnext]
  | succ k ih =>
      rw [answer, ih]
      cases hnext : cursor.next? with
      | none => simp [next, hnext, tokens_of_next?_eq_none hnext]
      | some found => simp [next, hnext, tokens_of_next? hnext]

end Cursor

/-! ## A whole text -/

/-- The tokens of a text tile it. -/
structure Tiled (text : String) (tokens : List Token) : Prop where
  /-- Every token is cut out of the text, between two characters on either side. -/
  cut : ∀ token ∈ tokens, ∃ before after,
    text.toList = before ++ token.text.toList ++ after ∧ byteLength before = token.start ∧
      byteLength (before ++ token.text.toList) = token.stop
  span : ∀ token ∈ tokens, token.start < token.stop ∧ token.stop ≤ text.utf8ByteSize
  ordered : tokens.Pairwise fun a b => a.stop ≤ b.start
  /-- In front of all tokens, between two neighbours and behind all tokens is a gap. -/
  gaps : ∀ front back, tokens = front ++ back → ∃ before gap behind,
    text.toList = before ++ gap ++ behind ∧
      byteLength before = (front.getLast?.map Token.stop).getD 0 ∧
      byteLength (before ++ gap) = (back.head?.map Token.start).getD text.utf8ByteSize ∧
      (behind = [] ↔ back = []) ∧ IsGap behind gap
  /-- Nothing but the end follows the last token, however often one asks. -/
  answers : ∀ k, (Cursor.ofText text).answer text.utf8ByteSize k =
    tokens[k]?.getD (Token.endAt text.utf8ByteSize)

/-- **Tokens and gaps tile the text.**  Every token is the part of the text between its
two ends, and what lies between tokens is a gap; who reads on behind the last token
reads the end token for ever. -/
theorem tokenize_tiled (text : String) : Tiled text (tokenize text) := by
  have hspans := (Cursor.ofText text).tokens_ordered.1
  have hcut : ∀ token ∈ tokenize text, ∃ before after,
      text.toList = before ++ token.text.toList ++ after ∧ byteLength before = token.start ∧
        byteLength (before ++ token.text.toList) = token.stop := by
    intro token htoken
    obtain ⟨before, after, htext, hstart⟩ := mem_tokenize htoken
    refine ⟨before, after, htext, hstart, ?_⟩
    rw [byteLength_append, hstart, Cursor.stop_of_mem_tokens htoken]
  have hsize : text.utf8ByteSize = byteLength text.toList := by
    rw [← utf8ByteSize_ofList, String.ofList_toList]
  constructor
  case cut => exact hcut
  case span =>
      intro token htoken
      obtain ⟨before, after, htext, -, hstop⟩ := hcut token htoken
      refine ⟨(hspans token htoken).2, ?_⟩
      rw [hsize, htext, byteLength_append, hstop]
      exact Nat.le_add_right _ _
  case ordered => exact tokenize_ordered text
  case gaps => exact fun front back h => (Cursor.ofText_inText text).gap_of_split h
  case answers => exact Cursor.answer_eq text.utf8ByteSize (.ofText text)

end CamlIndex
