import CamlIndex.Proofs.Place
import Mathlib.Data.List.Forall2

/-!
# Words and their layout

A `Word` is a text that reads as one token wherever a blank or the end of the
text follows, together with the proof of that.  Words are laid out on a text
with blanks between them (`LaidOut`), as many and of whatever sort; only the two
parentheses of `()` may touch.  The tokens of such a text are the words again:

* `tokenize_laidOut` — the tokens of a layout spell its words, in order;
* `stands_word`, `stands_operator`, `stands_number`, `stands_character` — which
  texts can be words;
* `laidOut_spaced` — all words can be laid out.
-/

namespace CamlIndex

/-! ## Words -/

/-- Whether a token that is read greedily has to end in front of `rest`. -/
def EndsToken (rest : List Char) : Prop :=
  ∀ c ∈ rest.head?, isBlank c

/-- The characters `cs` are read as one token of a kind where `rest` follows. -/
structure ReadsAs (kind : TokenKind) (cs rest : List Char) : Prop where
  gap_eq : gap (cs ++ rest) = []
  token : ∃ c tail, cs = c :: tail ∧ readToken c (tail ++ rest) = (kind, tail)

/-- A text that is a token of a kind if a blank or nothing follows. -/
def Stands (kind : TokenKind) (text : String) : Prop :=
  ∀ rest, EndsToken rest → ReadsAs kind text.toList rest

theorem Stands.ne_empty {kind : TokenKind} {text : String} (h : Stands kind text) : text ≠ "" := by
  obtain ⟨c, tail, htext, -⟩ := (h [] (by simp [EndsToken])).token
  rintro rfl
  cases htext

/-- A text with the kind of token that it is. -/
structure Word where
  kind : TokenKind
  text : String
  stands : Stands kind text

/-- A token is read from a word. -/
def Token.Spells (token : Token) (word : Word) : Prop :=
  token.kind = word.kind ∧ token.text = word.text

instance (token : Token) (word : Word) : Decidable (token.Spells word) :=
  inferInstanceAs (Decidable (_ ∧ _))

/-- Words with blanks between them, on a text that begins at `offset`, and the
offsets where the words start.  The parentheses of `()` need no blank. -/
inductive LaidOut : (offset : Nat) → List Word → (starts : List Nat) → List Char → Prop where
  | blank {offset : Nat} {cs : List Char} (hblank : ∀ c ∈ cs, isBlank c) : LaidOut offset [] [] cs
  | word {offset : Nat} {word : Word} {words : List Word} {starts : List Nat}
      {blanks rest : List Char} (hblanks : ∀ c ∈ blanks, isBlank c)
      (hends : EndsToken rest ∨ (word.text = "(" ∧ rest.head? = some ')'))
      (hrest : LaidOut (offset + byteLength (blanks ++ word.text.toList)) words starts rest) :
      LaidOut offset (word :: words) ((offset + byteLength blanks) :: starts)
        (blanks ++ word.text.toList ++ rest)

/-! ## What blanks are not -/

theorem not_blank_of_mem {c : Char} (h : isBlank c) :
    ¬startsWord c ∧ ¬continuesWord c ∧ ¬c.isDigit ∧ ¬isOperatorChar c ∧ c ≠ '(' ∧ c ≠ '*' := by
  have hall : [' ', '\t', '\r', '\n', '\x0c'].all fun b => !startsWord b && !continuesWord b &&
      !b.isDigit && !isOperatorChar b && b != '(' && b != '*' := rfl
  have hmem : c ∈ [' ', '\t', '\r', '\n', '\x0c'] := by
    simpa [isBlank] using h
  simpa [and_assoc] using List.all_eq_true.mp hall c hmem

theorem takeWhile_append_of_ends {p : Char → Bool} (hp : ∀ c, isBlank c → ¬p c)
    {tail rest : List Char} (htail : ∀ c ∈ tail, p c) (hends : EndsToken rest) :
    (tail ++ rest).takeWhile p = tail := by
  rw [List.takeWhile_append_of_pos htail]
  cases rest with
  | nil => simp
  | cons c rest =>
      have hc : ¬p c := hp c (hends c rfl)
      simp [hc]

/-- Blanks belong to the gap in front of a token. -/
theorem gap_blanks_append {blanks : List Char} (hblanks : ∀ c ∈ blanks, isBlank c)
    (cs : List Char) : gap (blanks ++ cs) = blanks ++ gap cs := by
  induction blanks with
  | nil => rfl
  | cons c blanks ih =>
      have hc : isBlank c := hblanks c (by simp)
      rw [List.cons_append, gap]
      · rw [if_pos hc, ih fun d hd => hblanks d (by simp [hd])]
        rfl
      · rintro cs rfl
        exact absurd rfl (not_blank_of_mem hc).2.2.2.2.1

/-! ## Which texts are words -/

/-- The characters that are tokens by themselves, whatever follows. -/
def punctuation : List Char :=
  ['(', ')', '[', ']', '{', '}', ',', ';']

theorem readToken_punctuation {c : Char} (hc : c ∈ punctuation) (rest : List Char) :
    readToken c rest = (characterKind c, []) := by
  simp only [punctuation, List.mem_cons, List.not_mem_nil, or_false] at hc
  rcases hc with rfl | rfl | rfl | rfl | rfl | rfl | rfl | rfl <;> rfl

theorem gap_eq_nil {c : Char} {cs : List Char} (hblank : ¬isBlank c)
    (hcomment : c ≠ '(' ∨ cs.head? ≠ some '*') : gap (c :: cs) = [] := by
  rw [gap]
  · rw [if_neg hblank]
  · rintro ds rfl rfl
    simp at hcomment

/-- A word of letters, digits, underscores and quotes. -/
theorem stands_word {c : Char} {tail : List Char} {kind : TokenKind} (hc : startsWord c)
    (htail : ∀ d ∈ tail, continuesWord d) (hkind : wordKind (String.ofList (c :: tail)) = kind) :
    Stands kind (String.ofList (c :: tail)) := by
  intro rest hends
  rw [String.toList_ofList]
  have hquote : c ≠ '"' := by
    rintro rfl
    exact absurd hc (by decide)
  have htake : (tail ++ rest).takeWhile continuesWord = tail :=
    takeWhile_append_of_ends (fun d hd => (not_blank_of_mem hd).2.1) htail hends
  constructor
  · refine gap_eq_nil (fun hblank => (not_blank_of_mem hblank).1 hc) (.inl ?_)
    rintro rfl
    exact absurd hc (by decide)
  · refine ⟨c, tail, rfl, ?_⟩
    rw [readToken, if_neg hquote, if_pos hc, htake, ← hkind]

/-- A run of operator characters. -/
theorem stands_operator {c : Char} {tail : List Char} {kind : TokenKind} (hc : isOperatorChar c)
    (htail : ∀ d ∈ tail, isOperatorChar d)
    (hkind : operatorKind (String.ofList (c :: tail)) = kind) :
    Stands kind (String.ofList (c :: tail)) := by
  intro rest hends
  rw [String.toList_ofList]
  have hothers : c ≠ '"' ∧ c ≠ '(' ∧ ¬startsWord c ∧ ¬c.isDigit := by
    have hall : ['!', '$', '%', '&', '*', '+', '-', '.', '/', ':', '<', '=', '>', '?', '@', '^',
        '~', '|'].all fun d => d != '"' && d != '(' && !startsWord d && !d.isDigit := rfl
    have hmem : c ∈ ['!', '$', '%', '&', '*', '+', '-', '.', '/', ':', '<', '=', '>', '?', '@',
        '^', '~', '|'] := by
      simpa [isOperatorChar] using hc
    simpa [and_assoc] using List.all_eq_true.mp hall c hmem
  obtain ⟨hquote, hparen, hword, hdigit⟩ := hothers
  have htake : (tail ++ rest).takeWhile isOperatorChar = tail :=
    takeWhile_append_of_ends (fun d hd => (not_blank_of_mem hd).2.2.2.1) htail hends
  constructor
  · exact gap_eq_nil (fun hblank => (not_blank_of_mem hblank).2.2.2.1 hc) (.inl hparen)
  · refine ⟨c, tail, rfl, ?_⟩
    rw [readToken, if_neg hquote, if_neg hword, if_neg hdigit, if_pos hc, htake, ← hkind]

/-- A run of digits. -/
theorem stands_number {c : Char} {tail : List Char} (hc : c.isDigit)
    (htail : ∀ d ∈ tail, d.isDigit) : Stands .literal (String.ofList (c :: tail)) := by
  intro rest hends
  rw [String.toList_ofList]
  have hword : ¬startsWord c := by
    have hall : ∀ n < 58, 48 ≤ n → ¬startsWord (Char.ofNat n) := by
      decide
    obtain ⟨hlow, hhigh⟩ := Char.isDigit_iff_toNat.mp hc
    have hnot := hall c.toNat (Nat.lt_succ_of_le hhigh) hlow
    rwa [Char.ofNat_toNat] at hnot
  have hquote : c ≠ '"' := by
    rintro rfl
    exact absurd hc (by decide)
  have htake : (tail ++ rest).takeWhile Char.isDigit = tail :=
    takeWhile_append_of_ends (fun d hd => (not_blank_of_mem hd).2.2.1) htail hends
  constructor
  · refine gap_eq_nil (fun hblank => (not_blank_of_mem hblank).2.2.1 hc) (.inl ?_)
    rintro rfl
    exact absurd hc (by decide)
  · refine ⟨c, tail, rfl, ?_⟩
    rw [readToken, if_neg hquote, if_neg hword, if_pos hc, htake]

/-- A punctuation character is a word, and stands in front of all but a star. -/
theorem readsAs_punctuation {c : Char} (hc : c ∈ punctuation) {rest : List Char}
    (hrest : rest.head? ≠ some '*') : ReadsAs (characterKind c) [c] rest := by
  have hblank : ¬isBlank c := by
    simp only [punctuation, List.mem_cons, List.not_mem_nil, or_false] at hc
    rcases hc with rfl | rfl | rfl | rfl | rfl | rfl | rfl | rfl <;> decide
  exact ⟨gap_eq_nil hblank (.inr hrest), c, [], rfl, readToken_punctuation hc rest⟩

theorem stands_character {c : Char} (hc : c ∈ punctuation) :
    Stands (characterKind c) (String.ofList [c]) := by
  intro rest hends
  rw [String.toList_ofList]
  refine readsAs_punctuation hc fun hstar => ?_
  exact (not_blank_of_mem (hends '*' hstar)).2.2.2.2.2 rfl

/-! ## Reading a layout -/

theorem ReadsAs.next? {word : Word} {blanks rest : List Char} (offset : Nat)
    (hblanks : ∀ c ∈ blanks, isBlank c) (h : ReadsAs word.kind word.text.toList rest) :
    ∃ token, Cursor.next? ⟨offset, blanks ++ word.text.toList ++ rest⟩
        = some (token, ⟨offset + byteLength (blanks ++ word.text.toList), rest⟩) ∧
      token.Spells word ∧ token.start = offset + byteLength blanks := by
  obtain ⟨hgap, c, tail, htext, hread⟩ := h
  have hskip : gap (blanks ++ word.text.toList ++ rest) = blanks := by
    rw [List.append_assoc, gap_blanks_append hblanks, hgap, List.append_nil]
  have hspelled : String.ofList (c :: tail) = word.text := by
    rw [← htext, String.ofList_toList]
  simp only [Cursor.next?, Cursor.skipGap, Cursor.advance]
  rw [hskip, List.append_assoc, List.drop_left, htext]
  simp only [List.cons_append, hread, List.length_cons, List.drop_succ_cons, List.drop_left,
    byteLength_append, Nat.add_assoc]
  exact ⟨_, rfl, ⟨rfl, hspelled⟩, rfl⟩

/-- An opening parenthesis is read in front of a closing one. -/
theorem Word.readsAs_unit {word : Word} (htext : word.text = "(") {rest : List Char}
    (hrest : rest.head? = some ')') : ReadsAs word.kind word.text.toList rest := by
  have hopen : '(' ∈ punctuation := by decide
  obtain ⟨-, c, tail, hcs, hread⟩ := word.stands [] (by simp [EndsToken])
  rw [htext] at hcs ⊢
  obtain ⟨rfl, rfl⟩ : '(' = c ∧ [] = tail := by simpa using hcs
  rw [readToken_punctuation hopen] at hread
  rw [← (Prod.mk.inj hread).1]
  exact readsAs_punctuation hopen (by simp [hrest])

theorem LaidOut.tokens {offset : Nat} {words : List Word} {starts : List Nat} {cs : List Char}
    (h : LaidOut offset words starts cs) :
    List.Forall₂ Token.Spells (Cursor.tokens ⟨offset, cs⟩) words ∧
      (Cursor.tokens ⟨offset, cs⟩).map Token.start = starts := by
  induction h with
  | @blank offset cs hblank =>
      have hgap : gap cs = cs := by
        simpa [gap] using gap_blanks_append hblank []
      rw [Cursor.tokens_of_next?_eq_none]
      · exact ⟨.nil, rfl⟩
      · simp [Cursor.next?, Cursor.skipGap, Cursor.advance, hgap]
  | @word offset word words starts blanks rest hblanks hends hrest ih =>
      have hreads : ReadsAs word.kind word.text.toList rest := by
        rcases hends with hends | ⟨htext, hclose⟩
        · exact word.stands rest hends
        · exact word.readsAs_unit htext hclose
      obtain ⟨token, hnext, hspells, hstart⟩ := hreads.next? offset hblanks
      rw [Cursor.tokens_of_next? hnext]
      exact ⟨.cons hspells ih.1, by rw [List.map_cons, hstart, ih.2]⟩

/-- **The tokens of a text on which words are laid out** are these words, and
start where these do. -/
theorem tokenize_laidOut {words : List Word} {starts : List Nat} {text : String}
    (h : LaidOut 0 words starts text.toList) :
    List.Forall₂ Token.Spells (tokenize text) words ∧
      (tokenize text).map Token.start = starts :=
  h.tokens

/-! ## A layout for any words -/

/-- A text with one blank in front of each word. -/
def spaced (words : List Word) : List Char :=
  words.flatMap fun word => ' ' :: word.text.toList

/-- Where the words of such a text start. -/
def spacedStarts : (offset : Nat) → List Word → List Nat
  | _, [] => []
  | offset, word :: words =>
    (offset + 1) :: spacedStarts (offset + 1 + byteLength word.text.toList) words

/-- All words can be laid out. -/
theorem laidOut_spaced (offset : Nat) (words : List Word) :
    LaidOut offset words (spacedStarts offset words) (spaced words) := by
  induction words generalizing offset with
  | nil => exact .blank (by simp [spaced])
  | cons word words ih =>
      have hblank : byteLength [' '] = 1 := rfl
      have hrest := ih (offset + byteLength ([' '] ++ word.text.toList))
      have hends : EndsToken (spaced words) := by
        cases words <;> simp [EndsToken, spaced, isBlank]
      rw [byteLength_append, hblank, ← Nat.add_assoc] at hrest
      exact @LaidOut.word offset word words _ [' '] _ (by simp [isBlank]) (.inl hends)
        (by rw [byteLength_append, hblank, ← Nat.add_assoc]; exact hrest)

end CamlIndex
