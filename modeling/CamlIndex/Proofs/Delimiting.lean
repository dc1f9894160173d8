import CamlIndex.Proofs.Foresight
import CamlIndex.Proofs.Language.Layout
import CamlIndex.Proofs.Pointing

/-!
# Tokens delimit themselves

Where a token is read, the text of the token is all that it takes: the reader looks no
further (`ReadsAs.cut`).  So a token that is cut out and read alone is the same token,
and two tokens that touch are the same two tokens without the text around them.

That is more than it seems.  Texts of words cannot touch, for the two together are a
word, and the reader would have taken that (`ReadsAs.eq_of_append`); nor can numbers
touch, nor runs of operator characters.

* `Cursor.readsAs_of_next?` — a token reads as itself in front of what follows it;
* `Cursor.exists_tokens_eq` — every end of a list of tokens is read from some place;
* `tokenize_selfDelimiting` — tokens delimit themselves.
-/

namespace CamlIndex

/-! ## Reading a token in front of less -/

section ReadsAs

variable {kind other : TokenKind} {cs ds more rest : List Char}

/-- The gap in front of a token ends where the token starts. -/
theorem gap_drop_gap (cs : List Char) : gap (cs.drop (gap cs).length) = [] := by
  fun_induction gap cs with
  | case1 => exact gap.eq_1
  | case2 cs ih =>
      simp only [List.length_cons, List.length_append, List.drop_succ_cons,
        ← List.drop_drop]
      exact ih
  | case3 c cs hopen hblank ih => exact ih
  | case4 c cs hopen hblank =>
      rw [List.length_nil, List.drop_zero, gap, if_neg hblank]
      exact hopen

/-- **A token needs nothing of what follows it** to be read. -/
theorem ReadsAs.cut (h : ReadsAs kind cs (more ++ rest)) : ReadsAs kind cs more := by
  obtain ⟨hgap, c, tail, rfl, hread⟩ := h
  rw [← List.append_assoc] at hgap hread
  constructor
  · have hnone : (gap (c :: tail ++ more ++ rest)).length = 0 := by
      rw [hgap, List.length_nil]
    rw [noForesight_gap (c :: tail ++ more) rest (by omega), hgap]
  · refine ⟨c, tail, rfl, ?_⟩
    rw [readToken_cut, hread]
    rw [hread, List.length_append]
    exact Nat.le_add_right _ _

theorem ReadsAs.alone (h : ReadsAs kind cs rest) : ReadsAs kind cs [] :=
  ReadsAs.cut (show ReadsAs kind cs ([] ++ rest) from h)

/-- Only one token can be read at a place. -/
theorem ReadsAs.eq_of_append (h : ReadsAs kind cs more) (h' : ReadsAs other ds rest)
    (htext : cs ++ more = ds ++ rest) : cs = ds := by
  obtain ⟨-, c, tail, rfl, hread⟩ := h
  obtain ⟨-, d, tail', rfl, hread'⟩ := h'
  obtain ⟨rfl, htail⟩ := List.cons.inj htext
  rw [List.append_eq, List.append_eq] at htail
  rw [htail, hread'] at hread
  rw [(Prod.mk.inj hread).2]

/-- Where a text reads as a token, that is the next token, and what follows is read next. -/
theorem ReadsAs.tokens (h : ReadsAs kind cs rest) (offset : Nat) :
    Cursor.tokens ⟨offset, cs ++ rest⟩ =
      ⟨kind, String.ofList cs, offset, offset + byteLength cs⟩ ::
        Cursor.tokens ⟨offset + byteLength cs, rest⟩ := by
  obtain ⟨hgap, c, tail, rfl, hread⟩ := h
  rw [List.cons_append] at hgap ⊢
  have hfull : c :: (tail ++ rest) = gap (c :: (tail ++ rest)) ++ c :: (tail ++ rest) := by
    rw [hgap, List.nil_append]
  rw [Cursor.tokens_of_next? (Cursor.next?_of_gap hfull), hgap, hread]
  simp

end ReadsAs

namespace Cursor

/-- **A token reads as itself** in front of what follows it. -/
theorem readsAs_of_next? {cursor behind : Cursor} {token : Token}
    (h : cursor.next? = some (token, behind)) :
    ReadsAs token.kind token.text.toList behind.rest := by
  have hgap := gap_drop_gap cursor.rest
  have hrest := (next?_spec h).1
  have hdrop : cursor.rest.drop (gap cursor.rest).length = token.text.toList ++ behind.rest := by
    rw [List.append_assoc] at hrest
    exact (congrArg (List.drop _) hrest).trans List.drop_left
  refine ⟨hdrop ▸ hgap, ?_⟩
  simp only [next?, skipGap, advance, hdrop] at h
  split at h
  · cases h
  · next c cs hcs =>
      simp only [Option.some.injEq, Prod.mk.injEq] at h
      obtain ⟨htoken, -⟩ := h
      subst htoken
      refine ⟨c, (readToken c cs).2, String.toList_ofList, ?_⟩
      have htail := hcs.symm.trans (by rw [String.toList_ofList, List.cons_append])
      rw [← (List.cons.inj htail).2]

/-- **Every end of a list of tokens is read from some place.** -/
theorem exists_tokens_eq {cursor : Cursor} {front later : List Token}
    (h : cursor.tokens = front ++ later) : ∃ here : Cursor, here.tokens = later := by
  induction front generalizing cursor with
  | nil => exact ⟨cursor, h⟩
  | cons token front ih =>
      obtain ⟨behind, -, hbehind⟩ := next?_of_tokens h
      exact ih hbehind

/-- Two tokens that touch are read in front of what follows. -/
theorem readsAs_of_touching {cursor : Cursor} {front back : List Token} {a b : Token}
    (h : cursor.tokens = front ++ a :: b :: back) (htouch : b.start = a.stop) :
    ∃ rest, ReadsAs a.kind a.text.toList (b.text.toList ++ rest) ∧
      ReadsAs b.kind b.text.toList rest := by
  obtain ⟨here, hhere⟩ := exists_tokens_eq h
  obtain ⟨between, hnext, hbetween⟩ := next?_of_tokens hhere
  obtain ⟨behind, hnext', -⟩ := next?_of_tokens hbetween
  have hoffset := (next?_spec hnext).2.2.2.1
  obtain ⟨hrest, hstart, -, -, -⟩ := next?_spec hnext'
  have hgap : gap between.rest = [] := by
    apply byteLength_eq_zero
    omega
  rw [hgap, List.nil_append] at hrest
  exact ⟨behind.rest, hrest ▸ readsAs_of_next? hnext, readsAs_of_next? hnext'⟩

end Cursor

/-! ## Runs -/

/-- A text that starts with a character of one sort and goes on with characters of another. -/
def IsRun (starts continues : Char → Bool) (text : String) : Prop :=
  ∃ c tail, text.toList = c :: tail ∧ starts c ∧ ∀ d ∈ tail, continues d

/-- Two runs make a run, if what starts one can also go on with it. -/
theorem IsRun.append {starts continues : Char → Bool} (hgoesOn : ∀ c, starts c → continues c)
    {a b : String} (ha : IsRun starts continues a) (hb : IsRun starts continues b) :
    IsRun starts continues (a ++ b) := by
  obtain ⟨c, tail, htext, hc, htail⟩ := ha
  obtain ⟨d, more, htext', hd, hmore⟩ := hb
  refine ⟨c, tail ++ d :: more, ?_, hc, ?_⟩
  · rw [String.toList_append, htext, htext', List.cons_append]
  · intro e he
    rcases List.mem_append.mp he with he | he
    · exact htail e he
    rcases List.mem_cons.mp he with rfl | he
    · exact hgoesOn e hd
    · exact hmore e he

/-- A text that is a token in front of a blank cannot be two tokens that touch. -/
theorem Stands.not_touching {kind : TokenKind} {a b : Token} {rest : List Char}
    (h : Stands kind (a.text ++ b.text))
    (ha : ReadsAs a.kind a.text.toList (b.text.toList ++ rest))
    (hb : ReadsAs b.kind b.text.toList rest) : False := by
  have hboth := h [] (by simp [EndsToken])
  have hsame := ha.cut.eq_of_append hboth (by simp)
  obtain ⟨-, c, tail, hchars, -⟩ := hb
  rw [String.toList_append, hchars] at hsame
  simpa using congrArg List.length hsame

theorem IsRun.stands_word {text : String} (h : IsRun startsWord continuesWord text) :
    Stands (wordKind text) text := by
  obtain ⟨c, tail, htext, hc, htail⟩ := h
  have hstands := CamlIndex.stands_word hc htail rfl
  rwa [← htext, String.ofList_toList] at hstands

theorem IsRun.stands_number {text : String} (h : IsRun Char.isDigit Char.isDigit text) :
    Stands .literal text := by
  obtain ⟨c, tail, htext, hc, htail⟩ := h
  have hstands := CamlIndex.stands_number hc htail
  rwa [← htext, String.ofList_toList] at hstands

theorem IsRun.stands_operator {text : String} (h : IsRun isOperatorChar isOperatorChar text) :
    Stands (operatorKind text) text := by
  obtain ⟨c, tail, htext, hc, htail⟩ := h
  have hstands := CamlIndex.stands_operator hc htail rfl
  rwa [← htext, String.ofList_toList] at hstands

/-! ## A whole text -/

/-- Tokens delimit themselves: alone or with a neighbour that they touch, they read the
same as in their text, and no two words, numbers or operators touch. -/
structure SelfDelimiting (tokens : List Token) : Prop where
  /-- The text of a token is that token and nothing else. -/
  alone : ∀ token ∈ tokens,
    tokenize token.text = [⟨token.kind, token.text, 0, token.text.utf8ByteSize⟩]
  /-- Two tokens that touch need nothing around them. -/
  joined : ∀ front a b back, tokens = front ++ a :: b :: back → b.start = a.stop →
    tokenize (a.text ++ b.text) = [⟨a.kind, a.text, 0, a.text.utf8ByteSize⟩,
      ⟨b.kind, b.text, a.text.utf8ByteSize, (a.text ++ b.text).utf8ByteSize⟩]
  /-- Where a word, a number or an operator ends, no other one starts. -/
  longest : ∀ front a b back, tokens = front ++ a :: b :: back → b.start = a.stop →
    ¬(IsRun startsWord continuesWord a.text ∧ IsRun startsWord continuesWord b.text) ∧
      ¬(IsRun Char.isDigit Char.isDigit a.text ∧ IsRun Char.isDigit Char.isDigit b.text) ∧
      ¬(IsRun isOperatorChar isOperatorChar a.text ∧ IsRun isOperatorChar isOperatorChar b.text)

/-- **Tokens delimit themselves.** -/
theorem tokenize_selfDelimiting (text : String) : SelfDelimiting (tokenize text) := by
  constructor
  case alone =>
      intro token htoken
      obtain ⟨front, back, hsplit⟩ := List.append_of_mem htoken
      obtain ⟨here, hhere⟩ := Cursor.exists_tokens_eq hsplit
      obtain ⟨behind, hnext, -⟩ := Cursor.next?_of_tokens hhere
      have htokens := (Cursor.readsAs_of_next? hnext).alone.tokens 0
      rw [Cursor.tokens_nil, List.append_nil, String.ofList_toList, Nat.zero_add,
        ← utf8ByteSize_eq_byteLength] at htokens
      exact htokens
  case joined =>
      intro front a b back hsplit htouch
      obtain ⟨rest, ha, hb⟩ := Cursor.readsAs_of_touching hsplit htouch
      have hfirst := ha.cut.tokens 0
      have hsecond := hb.alone.tokens (byteLength a.text.toList)
      rw [Cursor.tokens_nil, List.append_nil] at hsecond
      rw [Nat.zero_add, hsecond] at hfirst
      simpa [tokenize, Cursor.ofText, utf8ByteSize_eq_byteLength] using hfirst
  case longest =>
      intro front a b back hsplit htouch
      obtain ⟨rest, ha, hb⟩ := Cursor.readsAs_of_touching hsplit htouch
      refine ⟨?_, ?_, ?_⟩
      · rintro ⟨hrun, hrun'⟩
        have hword := hrun.append (fun c hc => continuesWord_of_startsWord hc) hrun'
        exact hword.stands_word.not_touching ha hb
      · rintro ⟨hrun, hrun'⟩
        have hnumber := hrun.append (fun c hc => hc) hrun'
        exact hnumber.stands_number.not_touching ha hb
      · rintro ⟨hrun, hrun'⟩
        have hoperator := hrun.append (fun c hc => hc) hrun'
        exact hoperator.stands_operator.not_touching ha hb

end CamlIndex
