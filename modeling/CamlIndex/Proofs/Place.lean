import CamlIndex.Proofs.Sliding

/-!
# Where tokens stand

Tokens are cut out of the text: the text of a token stands in the source at
the offset where the token starts, behind everything that was read before it.
A cursor is *in* a text if it has passed some of its characters and the rest is
still to come (`Cursor.InText`), and reading a token keeps it so.

* `mem_tokenize` — every token stands in the text at its place;
* `tokenize_ordered` — the next token starts where the one before it stops, or
  later;
* `tokenize_starts_increasing` — so the starts of tokens ascend, for every token
  has at least one byte.
-/

namespace CamlIndex

/-! ## Counting bytes -/

@[simp] theorem byteLength_nil : byteLength [] = 0 := rfl

@[simp] theorem byteLength_cons (c : Char) (cs : List Char) :
    byteLength (c :: cs) = c.utf8Size + byteLength cs := rfl

@[simp] theorem byteLength_append (cs ds : List Char) :
    byteLength (cs ++ ds) = byteLength cs + byteLength ds := by
  induction cs with
  | nil => simp
  | cons c cs ih => simp [ih, Nat.add_assoc]

/-- The bytes of a text are those of its characters. -/
theorem utf8ByteSize_ofList (cs : List Char) :
    (String.ofList cs).utf8ByteSize = byteLength cs := by
  induction cs with
  | nil => rfl
  | cons c cs ih => rw [String.ofList_cons, String.utf8ByteSize_append, ih]; simp

theorem utf8ByteSize_eq_byteLength (text : String) :
    text.utf8ByteSize = byteLength text.toList := by
  rw [← utf8ByteSize_ofList, String.ofList_toList]

theorem byteLength_eq_zero {cs : List Char} (h : byteLength cs = 0) : cs = [] := by
  cases cs with
  | nil => rfl
  | cons c cs =>
      have hpos := c.utf8Size_pos
      rw [byteLength_cons] at h
      omega

/-! ## What the readers take -/

/-- The gap before a token is an initial part of the text. -/
theorem gap_append_drop (cs : List Char) : gap cs ++ cs.drop (gap cs).length = cs := by
  fun_induction gap cs with
  | case1 => rfl
  | case2 cs ih =>
      have hcomment := commentBody_append_drop 0 (.plain false) cs
      simp only [commentTail, List.cons_append, List.length_cons, List.drop_succ_cons,
        List.append_assoc, List.length_append, ← List.drop_drop] at ih ⊢
      rw [ih, hcomment]
  | case3 c cs _ _ ih => simpa using ih
  | case4 => rfl

/-- A character literal is an initial part of the text. -/
theorem characterTail?_append_drop {cs tail : List Char} (h : characterTail? cs = some tail) :
    tail ++ cs.drop tail.length = cs := by
  unfold characterTail? at h
  split at h
  case h_5 => cases h
  all_goals
    split at h <;> cases h
    simp

/-- What a token takes is an initial part of the text. -/
theorem readToken_append_drop (c : Char) (cs : List Char) :
    (readToken c cs).2 ++ cs.drop (readToken c cs).2.length = cs := by
  have htake : ∀ p : Char → Bool, cs.takeWhile p ++ cs.drop (cs.takeWhile p).length = cs :=
    fun p => List.prefix_iff_eq_append.mp (List.takeWhile_prefix p)
  have hstring := stringBody_append_drop false cs
  have hcharacter := @characterTail?_append_drop cs
  unfold readToken stringTail
  grind

namespace Cursor

/-- The cursor has passed some characters of the text; the rest is to come. -/
def InText (text : String) (cursor : Cursor) : Prop :=
  ∃ before, text.toList = before ++ cursor.rest ∧ byteLength before = cursor.offset

theorem ofText_inText (text : String) : (ofText text).InText text :=
  ⟨[], rfl, rfl⟩

/-- **Reading a token.**  Behind a gap stands the text of the token, of one
character at least, and the cursor comes to stand behind it. -/
theorem next?_spec {cursor behind : Cursor} {token : Token}
    (h : cursor.next? = some (token, behind)) :
    cursor.rest = gap cursor.rest ++ token.text.toList ++ behind.rest ∧
      token.start = cursor.offset + byteLength (gap cursor.rest) ∧
      token.stop = token.start + byteLength token.text.toList ∧
      behind.offset = token.stop ∧ token.text.toList ≠ [] := by
  have hgap := gap_append_drop cursor.rest
  simp only [next?, skipGap, advance] at h
  split at h
  · simp at h
  · next c cs hrest =>
      have htail := readToken_append_drop c cs
      simp only [Option.some.injEq, Prod.mk.injEq] at h
      obtain ⟨rfl, rfl⟩ := h
      refine ⟨?_, rfl, ?_, rfl, by simp⟩
      · rw [hrest] at hgap ⊢
        simp only [String.toList_ofList, List.length_cons, List.drop_succ_cons,
          List.append_assoc, List.cons_append, htail]
        exact hgap.symm
      · simp

theorem InText.next? {text : String} {cursor behind : Cursor} {token : Token}
    (hin : cursor.InText text) (h : cursor.next? = some (token, behind)) :
    behind.InText text ∧
      ∃ before after, text.toList = before ++ token.text.toList ++ after ∧
        byteLength before = token.start := by
  obtain ⟨before, htext, hoffset⟩ := hin
  obtain ⟨hrest, hstart, hstop, hbehind, -⟩ := next?_spec h
  rw [hrest] at htext
  refine ⟨⟨before ++ gap cursor.rest ++ token.text.toList, ?_, ?_⟩,
    before ++ gap cursor.rest, behind.rest, ?_, ?_⟩
  · simpa using htext
  · simp only [byteLength_append, hoffset]
    omega
  · simpa using htext
  · simp only [byteLength_append, hoffset]
    omega

/-- Every token from a place in a text stands in the text. -/
theorem InText.mem_tokens {text : String} {cursor : Cursor} (hin : cursor.InText text)
    {token : Token} (h : token ∈ cursor.tokens) :
    ∃ before after, text.toList = before ++ token.text.toList ++ after ∧
      byteLength before = token.start := by
  fun_induction tokens cursor with
  | case1 => simp at h
  | case2 cursor first behind hnext _ ih =>
      obtain ⟨hbehind, hplace⟩ := hin.next? hnext
      rcases List.mem_cons.mp h with rfl | h
      · exact hplace
      · exact ih hbehind h

/-- Tokens come one behind the other. -/
theorem tokens_ordered (cursor : Cursor) :
    (∀ token ∈ cursor.tokens, cursor.offset ≤ token.start ∧ token.start < token.stop) ∧
      cursor.tokens.Pairwise fun a b => a.stop ≤ b.start := by
  fun_induction tokens cursor with
  | case1 => simp
  | case2 cursor first behind hnext _ ih =>
      obtain ⟨-, hstart, hstop, hbehind, htext⟩ := next?_spec hnext
      obtain ⟨hlater, hordered⟩ := ih
      have hpositive : 0 < byteLength first.text.toList := by
        cases hchars : first.text.toList with
        | nil => exact absurd hchars htext
        | cons c cs => simp only [byteLength_cons]; have := c.utf8Size_pos; omega
      refine ⟨?_, List.pairwise_cons.mpr ⟨?_, hordered⟩⟩
      · intro token htoken
        rcases List.mem_cons.mp htoken with rfl | htoken
        · omega
        · have := hlater token htoken
          omega
      · intro token htoken
        have := (hlater token htoken).1
        omega

end Cursor

/-- **Tokens stand in their text.** -/
theorem mem_tokenize {text : String} {token : Token} (h : token ∈ tokenize text) :
    ∃ before after, text.toList = before ++ token.text.toList ++ after ∧
      byteLength before = token.start :=
  (Cursor.ofText_inText text).mem_tokens h

/-- **Tokens stand in order**, each behind the end of the one before. -/
theorem tokenize_ordered (text : String) :
    (tokenize text).Pairwise fun a b => a.stop ≤ b.start :=
  (Cursor.ofText text).tokens_ordered.2

/-- The starts of tokens ascend. -/
theorem tokenize_starts_increasing (text : String) :
    (tokenize text).Pairwise fun a b => a.start < b.start := by
  obtain ⟨hspans, hordered⟩ := (Cursor.ofText text).tokens_ordered
  refine hordered.imp_of_mem ?_
  intro a b ha _ hab
  have := (hspans a ha).2
  omega

end CamlIndex
