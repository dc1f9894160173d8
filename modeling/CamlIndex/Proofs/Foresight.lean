import CamlIndex.Proofs.Place

/-!
# Reading without foresight

The lexer takes the longest token that starts at a place, and still it needs
nothing that stands behind the token: a reader that stops inside an initial part
of a text takes the same from that part alone (`NoForesight`).  All readers of
gaps and tokens are of this sort.  A string or a comment that is not closed runs
to the end of the text, so it never stops short of it; a quote that starts no
character literal starts none in a shorter text either.

* `Cursor.next?_cut` — a token is the same if the text ends behind it, anywhere;
* `Cursor.tokens_cut` — a text that ends where one of its tokens ends has the
  tokens up to that one, at the same places.
-/

namespace CamlIndex

/-- Whatever the reader takes from a text, it takes from every initial part of
the text that has as many characters. -/
def NoForesight (read : List Char → List Char) : Prop :=
  ∀ cs ds, (read (cs ++ ds)).length ≤ cs.length → read cs = read (cs ++ ds)

/-- The first character of a text is that of its initial part. -/
theorem exists_of_append_eq_cons {c : Char} {cs ds full : List Char} {n : Nat}
    (h : cs ++ ds = c :: full) (hlength : n + 1 ≤ cs.length) :
    ∃ rest, cs = c :: rest ∧ rest ++ ds = full ∧ n ≤ rest.length := by
  cases cs with
  | nil => simp at hlength
  | cons d rest =>
      cases h
      exact ⟨rest, rfl, rfl, Nat.le_of_succ_le_succ hlength⟩

/-! ## Runs, strings, comments and gaps -/

theorem noForesight_takeWhile (p : Char → Bool) : NoForesight (List.takeWhile p) := by
  intro cs ds h
  rw [List.takeWhile_append] at h ⊢
  split
  · next hall =>
      rw [if_pos hall, List.length_append] at h
      have hnone : (ds.takeWhile p).length = 0 := by omega
      rw [List.length_eq_zero_iff.mp hnone, List.append_nil]
      exact (List.takeWhile_prefix p).eq_of_length hall
  · rfl

theorem noForesight_stringBody (escaped : Bool) : NoForesight (stringBody escaped) := by
  intro cs ds
  generalize hfull : cs ++ ds = full
  intro h
  fun_induction stringBody escaped full generalizing cs with
  | case1 => rw [(List.append_eq_nil_iff.mp hfull).1, stringBody]
  | case2 escaped c full hend =>
      obtain ⟨rest, rfl, -, -⟩ := exists_of_append_eq_cons hfull h
      rw [stringBody, if_pos hend]
  | case3 escaped c full hend ih =>
      obtain ⟨rest, rfl, hrest, h⟩ := exists_of_append_eq_cons hfull h
      rw [stringBody, if_neg hend, ih rest hrest h]

/-- The marks of comments are up to three characters long.  A mark that the
initial part does not hold as a whole is not read inside of it. -/
theorem noForesight_commentBody (depth : Nat) (part : CommentPart) :
    NoForesight (commentBody depth part) := by
  intro cs ds
  generalize hfull : cs ++ ds = full
  intro h
  fun_induction commentBody depth part full generalizing cs with
  | case1 => rw [(List.append_eq_nil_iff.mp hfull).1, commentBody]
  | case2 depth escaped c full hend ih =>
      obtain ⟨rest, rfl, hrest, h⟩ := exists_of_append_eq_cons hfull h
      rw [commentBody, if_pos hend, ih rest hrest h]
  | case3 depth escaped c full hend ih =>
      obtain ⟨rest, rfl, hrest, h⟩ := exists_of_append_eq_cons hfull h
      rw [commentBody, if_neg hend, ih rest hrest h]
  | case4 full =>
      obtain ⟨rest, rfl, -, -⟩ := exists_of_append_eq_cons hfull h
      rw [commentBody]
  | case5 outer full ih =>
      obtain ⟨rest, rfl, hrest, h⟩ := exists_of_append_eq_cons hfull h
      rw [commentBody, ih rest hrest h]
  | case6 depth afterStar full ih =>
      obtain ⟨rest, rfl, hrest, h⟩ := exists_of_append_eq_cons hfull h
      obtain ⟨rest, rfl, hrest, h⟩ := exists_of_append_eq_cons hrest h
      rw [commentBody, ih rest hrest h]
  | case7 depth afterStar full ih =>
      obtain ⟨rest, rfl, hrest, h⟩ := exists_of_append_eq_cons hfull h
      rw [commentBody, ih rest hrest h]
  | case8 depth afterStar full ih =>
      obtain ⟨rest, rfl, hrest, h⟩ := exists_of_append_eq_cons hfull h
      obtain ⟨rest, rfl, hrest, h⟩ := exists_of_append_eq_cons hrest h
      obtain ⟨rest, rfl, hrest, h⟩ := exists_of_append_eq_cons hrest h
      rw [commentBody, ih rest hrest h]
  | case9 depth afterStar c full hclose hcloseOuter hopen hquote hliteral ih =>
      obtain ⟨rest, rfl, rfl, h⟩ := exists_of_append_eq_cons hfull h
      rw [commentBody, ih rest rfl h]
      · exact fun mark hc hrest => hopen (mark ++ ds) hc (by rw [hrest]; rfl)
      · exact hquote
      · exact fun mark hc hrest => hliteral (mark ++ ds) hc (by rw [hrest]; rfl)
      · exact hclose
      · exact hcloseOuter

theorem noForesight_gap : NoForesight gap := by
  intro cs ds
  generalize hfull : cs ++ ds = full
  intro h
  fun_induction gap full generalizing cs with
  | case1 => rw [(List.append_eq_nil_iff.mp hfull).1, gap]
  | case2 full ih =>
      obtain ⟨rest, rfl, hrest, h⟩ := exists_of_append_eq_cons hfull h
      obtain ⟨rest, rfl, rfl, h⟩ := exists_of_append_eq_cons hrest h
      rw [List.append_eq, List.length_append] at h
      have hcomment : commentTail rest = commentTail (rest ++ ds) :=
        noForesight_commentBody 0 (.plain false) rest ds (by unfold commentTail at h; omega)
      have hdrop : rest.drop (commentTail rest).length ++ ds =
          (rest ++ ds).drop (commentTail (rest ++ ds)).length := by
        rw [hcomment, List.drop_append_of_le_length (by omega)]
      have hroom : (gap ((rest ++ ds).drop (commentTail (rest ++ ds)).length)).length ≤
          (rest.drop (commentTail rest).length).length := by
        rw [List.length_drop, hcomment]
        omega
      rw [gap, ih _ hdrop hroom, hcomment]
  | case3 c full hopen hblank ih =>
      obtain ⟨rest, rfl, rfl, h⟩ := exists_of_append_eq_cons hfull h
      rw [gap, if_pos hblank, ih rest rfl h]
      exact fun mark hc hrest => hopen (mark ++ ds) hc (by rw [hrest]; rfl)
  | case4 c full hopen hblank =>
      cases cs with
      | nil => rw [gap]
      | cons d rest =>
          cases hfull
          rw [gap, if_neg hblank]
          exact fun mark hc hrest => hopen (mark ++ ds) hc (by rw [hrest]; rfl)

/-! ## Tokens -/

/-- A character literal is one whatever follows it. -/
theorem characterTail?_append {cs tail : List Char} (h : characterTail? cs = some tail)
    (ds : List Char) : characterTail? (tail ++ ds) = some tail := by
  unfold characterTail? at h
  split at h
  case h_5 => cases h
  all_goals
    split at h <;> cases h
    simp_all [characterTail?]

theorem characterTail?_cut {cs ds : List Char}
    (h : ∀ tail, characterTail? (cs ++ ds) = some tail → tail.length ≤ cs.length) :
    characterTail? cs = characterTail? (cs ++ ds) := by
  cases hfull : characterTail? (cs ++ ds) with
  | some tail =>
      obtain ⟨rest, hrest⟩ : tail <+: cs :=
        List.prefix_of_prefix_length_le ⟨_, characterTail?_append_drop hfull⟩
          (List.prefix_append cs ds) (h tail hfull)
      rw [← hrest, characterTail?_append hfull]
  | none =>
      cases hcut : characterTail? cs with
      | none => rfl
      | some tail =>
          have hlonger := characterTail?_append hcut (cs.drop tail.length ++ ds)
          rw [← List.append_assoc, characterTail?_append_drop hcut, hfull] at hlonger
          cases hlonger

/-- A token is the same, kind and all, in a text that ends behind it. -/
theorem readToken_cut {c : Char} {cs ds : List Char}
    (h : (readToken c (cs ++ ds)).2.length ≤ cs.length) :
    readToken c cs = readToken c (cs ++ ds) := by
  unfold readToken at h ⊢
  by_cases hstring : c = '"'
  · simp only [if_pos hstring] at h ⊢
    exact congrArg _ (noForesight_stringBody false cs ds h)
  simp only [if_neg hstring] at h ⊢
  by_cases hword : startsWord c = true
  · simp only [if_pos hword] at h ⊢
    rw [noForesight_takeWhile _ cs ds h]
  simp only [if_neg hword] at h ⊢
  by_cases hdigit : c.isDigit = true
  · simp only [if_pos hdigit] at h ⊢
    rw [noForesight_takeWhile _ cs ds h]
  simp only [if_neg hdigit] at h ⊢
  by_cases hoperator : isOperatorChar c = true
  · simp only [if_pos hoperator] at h ⊢
    rw [noForesight_takeWhile _ cs ds h]
  simp only [if_neg hoperator] at h ⊢
  by_cases hquote : c = '\''
  · simp only [if_pos hquote] at h ⊢
    rw [characterTail?_cut]
    intro tail htail
    rw [htail] at h
    exact h
  · simp only [if_neg hquote]

namespace Cursor

/-- Behind the gap a token starts, and it takes what `readToken` says. -/
theorem next?_of_gap {offset : Nat} {cs taken : List Char} {c : Char}
    (h : cs = gap cs ++ c :: taken) :
    next? ⟨offset, cs⟩ =
      let start := offset + byteLength (gap cs)
      let text := c :: (readToken c taken).2
      some (⟨(readToken c taken).1, String.ofList text, start, start + byteLength text⟩,
        ⟨start + byteLength text, taken.drop (readToken c taken).2.length⟩) := by
  have hdrop : cs.drop (gap cs).length = c :: taken :=
    (congrArg (List.drop (gap cs).length) h).trans List.drop_left
  simp only [next?, skipGap, advance, hdrop, List.length_cons, List.drop_succ_cons]

/-- **A token needs nothing behind it.**  If the token is read inside the initial
part `cs`, it is read from that part alone. -/
theorem next?_cut {offset : Nat} {cs ds : List Char} {token : Token} {behind : Cursor}
    (h : next? ⟨offset, cs ++ ds⟩ = some (token, behind))
    (hinside : ds.length ≤ behind.rest.length) :
    ∃ rest, behind.rest = rest ++ ds ∧
      next? ⟨offset, cs⟩ = some (token, ⟨behind.offset, rest⟩) := by
  obtain ⟨htaken, -, -, -, htext⟩ := next?_spec h
  obtain ⟨rest, hrest⟩ : ds <:+ behind.rest :=
    List.suffix_of_suffix_length_le (List.suffix_append cs ds) ⟨_, htaken.symm⟩ hinside
  obtain ⟨c, tail, htail⟩ := List.exists_cons_of_ne_nil htext
  have hcs : cs = gap (cs ++ ds) ++ c :: (tail ++ rest) := by
    rw [← hrest, htail, ← List.append_assoc] at htaken
    simpa using List.append_cancel_right htaken
  have hgap : gap cs = gap (cs ++ ds) := by
    have hlength := congrArg List.length hcs
    rw [List.length_append] at hlength
    exact noForesight_gap cs ds (by omega)
  have hfull : cs ++ ds = gap (cs ++ ds) ++ c :: (tail ++ rest ++ ds) :=
    (congrArg (· ++ ds) hcs).trans (by simp)
  rw [next?_of_gap hfull, Option.some.injEq, Prod.mk.injEq] at h
  obtain ⟨rfl, rfl⟩ := h
  have hread : (readToken c (tail ++ rest ++ ds)).2 = tail := by simpa using htail
  have hsame : readToken c (tail ++ rest) = readToken c (tail ++ rest ++ ds) :=
    readToken_cut (by rw [hread, List.length_append]; omega)
  refine ⟨rest, hrest.symm, ?_⟩
  rw [next?_of_gap (hgap ▸ hcs), hsame, hread, hgap]
  simp

/-- The first of the tokens from a place is the next one. -/
theorem next?_of_tokens {cursor : Cursor} {token : Token} {later : List Token}
    (h : cursor.tokens = token :: later) :
    ∃ behind, cursor.next? = some (token, behind) ∧ behind.tokens = later := by
  cases hnext : cursor.next? with
  | none => rw [tokens_of_next?_eq_none hnext] at h; cases h
  | some found =>
      obtain ⟨first, behind⟩ := found
      rw [tokens_of_next? hnext] at h
      cases h
      exact ⟨behind, rfl, rfl⟩

/-- No token is left where no character is. -/
theorem tokens_nil (offset : Nat) : tokens ⟨offset, []⟩ = [] :=
  tokens_of_next?_eq_none (by simp [next?, skipGap, advance, gap])

/-- **The tokens up to one of them** are the tokens of the text that ends there. -/
theorem tokens_cut {offset : Nat} {chars : List Char} {front back : List Token} {token : Token}
    (h : tokens ⟨offset, chars⟩ = front ++ token :: back) :
    ∃ cs ds, chars = cs ++ ds ∧ offset + byteLength cs = token.stop ∧
      tokens ⟨offset, cs⟩ = front ++ [token] := by
  induction front generalizing offset chars with
  | nil =>
      obtain ⟨behind, hnext, -⟩ := next?_of_tokens h
      obtain ⟨htaken, hstart, hstop, -, -⟩ := next?_spec hnext
      dsimp only at htaken hstart
      refine ⟨gap chars ++ token.text.toList, behind.rest, htaken, ?_, ?_⟩
      · rw [byteLength_append]
        omega
      · rw [htaken] at hnext
        obtain ⟨rest, hrest, hcut⟩ := next?_cut hnext (Nat.le_refl _)
        obtain rfl : rest = [] := List.self_eq_append_left.mp hrest
        rw [tokens_of_next? hcut, tokens_nil, List.nil_append]
  | cons first front ih =>
      obtain ⟨⟨place, chars'⟩, hnext, hlater⟩ := next?_of_tokens h
      obtain ⟨cs', ds, rfl, hstop', htokens⟩ := ih hlater
      obtain ⟨htaken, hstart, hstop, hplace, -⟩ := next?_spec hnext
      dsimp only at htaken hstart hplace
      rw [← List.append_assoc] at htaken
      refine ⟨gap chars ++ first.text.toList ++ cs', ds, htaken, ?_, ?_⟩
      · rw [byteLength_append, byteLength_append]
        omega
      · rw [htaken] at hnext
        obtain ⟨rest, hrest, hcut⟩ := next?_cut hnext (by simp)
        obtain rfl : cs' = rest := List.append_cancel_right hrest
        rw [tokens_of_next? hcut, htokens, List.cons_append]

end Cursor

/-! ## The first bytes of a text -/

/-- As many characters from the front as fit into a number of bytes. -/
def initialChars (bytes : Nat) : List Char → List Char
  | [] => []
  | c :: cs => if c.utf8Size ≤ bytes then c :: initialChars (bytes - c.utf8Size) cs else []

/-- The text up to a byte. -/
def firstBytes (bytes : Nat) (text : String) : String :=
  String.ofList (initialChars bytes text.toList)

theorem initialChars_append (cs ds : List Char) :
    initialChars (byteLength cs) (cs ++ ds) = cs := by
  induction cs with
  | nil =>
      cases ds with
      | nil => rfl
      | cons d ds =>
          have hpositive := d.utf8Size_pos
          rw [List.nil_append, initialChars, if_neg (by simp only [byteLength_nil]; omega)]
  | cons c cs ih =>
      rw [List.cons_append, initialChars, byteLength_cons, if_pos (by omega),
        Nat.add_sub_cancel_left, ih]

/-- **The text up to the end of a token** ends between two characters, and its
tokens are those of the whole text up to that one. -/
theorem tokenize_firstBytes {text : String} {front back : List Token} {token : Token}
    (h : tokenize text = front ++ token :: back) :
    ∃ after, text = firstBytes token.stop text ++ after ∧
      (firstBytes token.stop text).utf8ByteSize = token.stop ∧
      tokenize (firstBytes token.stop text) = front ++ [token] := by
  obtain ⟨cs, ds, htext, hstop, htokens⟩ := Cursor.tokens_cut h
  rw [Nat.zero_add] at hstop
  have hfirst : firstBytes token.stop text = String.ofList cs := by
    rw [firstBytes, htext, ← hstop, initialChars_append]
  refine ⟨String.ofList ds, ?_, ?_, ?_⟩
  · rw [hfirst, ← String.ofList_append, ← htext, String.ofList_toList]
  · rw [hfirst, utf8ByteSize_ofList, hstop]
  · rw [hfirst, tokenize, Cursor.ofText, String.toList_ofList]
    exact htokens

end CamlIndex
