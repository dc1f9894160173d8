import CamlIndex.Proofs.Bytes

/-!
# Comments inside comments

A comment is defined by recursion: its inside is a sequence of comments, strings,
quotes between apostrophes and other characters, up to a star and a parenthesis that
close it.  `afterComment?` reads it in just this way, and calls itself for each comment
inside.  Where a string ends is said without reading it: at the first quote in front of
which the backslashes are pairs (`closingQuote?`).

The scanner `commentBody` knows no recursion.  It counts how many comments are open, and
remembers of a string whether a backslash is pending and of a comment whether a star is.
The two agree because a count of open comments is a list of readers that wait for the
one inside to finish (`length_commentBody`):

* `length_stringBody` — the pending backslash tells whether the backslashes are pairs;
* `commentBody_afterStar` — a star matters to the next character only, and only if that
  is a parenthesis;
* `commentBodyLength_recursive` — the scanner takes what the recursive reader takes, and
  everything if that one runs out of characters.
-/

namespace CamlIndex

/-! ## Where strings end -/

/-- The number of backslashes at the end of a text. -/
def trailingBackslashes (cs : List Char) : Nat :=
  (cs.reverse.takeWhile (· == '\\')).length

/-- At place `i` stands a quote with an even number of backslashes in front of it. -/
def closesString (cs : List Char) (i : Nat) : Bool :=
  cs[i]? == some '"' && trailingBackslashes (cs.take i) % 2 == 0

/-- The place of the first quote that closes a string which starts with the text. -/
def closingQuote? (cs : List Char) : Option Nat :=
  (List.range cs.length).find? (closesString cs)

theorem trailingBackslashes_concat (cs : List Char) (c : Char) :
    trailingBackslashes (cs ++ [c]) = if c = '\\' then trailingBackslashes cs + 1 else 0 := by
  by_cases hc : c = '\\' <;> simp [trailingBackslashes, hc]

/-- The first place is the front of the text, or a place in what follows it. -/
theorem find?_range_succ (p : Nat → Bool) (n : Nat) :
    (List.range (n + 1)).find? p =
      if p 0 then some 0 else ((List.range n).find? fun i => p (i + 1)).map (· + 1) := by
  rw [List.range_succ_eq_map, List.find?_cons, List.find?_map]
  cases p 0 <;> rfl

/-- **A string ends at the first quote behind pairs of backslashes**, read from any place
in it: of what was read `before`, only the backslashes at its end count. -/
theorem length_stringBody (before cs : List Char) :
    (stringBody (trailingBackslashes before % 2 == 1) cs).length =
      (((List.range cs.length).find? fun i => closesString (before ++ cs) (before.length + i)).map
        (· + 1)).getD cs.length := by
  induction cs generalizing before with
  | nil => rfl
  | cons c cs ih =>
      have hpending : (!(trailingBackslashes before % 2 == 1) && c == '\\') =
          (trailingBackslashes (before ++ [c]) % 2 == 1) := by
        rw [trailingBackslashes_concat]
        by_cases hc : c = '\\'
        · have := Nat.mod_two_eq_zero_or_one (trailingBackslashes before)
          rcases this with h | h <;> simp [hc, Nat.add_mod, h]
        · simp [hc]
      have hfirst : closesString (before ++ c :: cs) (before.length + 0) = true ↔
          c = '"' ∧ (trailingBackslashes before % 2 == 1) = false := by
        simp [closesString]
      have hlater : ∀ i, closesString (before ++ c :: cs) (before.length + (i + 1)) =
          closesString (before ++ [c] ++ cs) ((before ++ [c]).length + i) := by
        intro i
        rw [List.append_assoc, List.singleton_append, List.length_append, List.length_singleton,
          Nat.add_assoc, Nat.add_comm 1]
      rw [stringBody, List.length_cons, find?_range_succ]
      by_cases hend : c = '"' ∧ (trailingBackslashes before % 2 == 1) = false
      · rw [if_pos hend, if_pos (hfirst.mpr hend)]
        rfl
      · rw [if_neg hend, if_neg (mt hfirst.mp hend), List.length_cons, hpending, ih]
        simp only [hlater]
        cases (List.range cs.length).find? _ <;> rfl

/-- What a string takes that starts with the text. -/
theorem length_stringTail (cs : List Char) :
    (stringTail cs).length = ((closingQuote? cs).map (· + 1)).getD cs.length := by
  have h := length_stringBody [] cs
  simp only [List.nil_append, List.length_nil, Nat.zero_add] at h
  exact h

/-! ## Reading by recursion -/

/-- A text that is shorter than another one. -/
abbrev Shorter (cs : List Char) : Type :=
  { rest : List Char // rest.length < cs.length }

namespace Shorter

/-- What is left behind the first character. -/
def tail (c : Char) (cs : List Char) : Shorter (c :: cs) :=
  ⟨cs, Nat.lt_succ_self _⟩

/-- What is shorter than a text is shorter than the text behind another character. -/
def cons (c : Char) {cs : List Char} (rest : Shorter cs) : Shorter (c :: cs) :=
  ⟨rest.1, Nat.lt_succ_of_lt rest.2⟩

/-- What is shorter than the end of a text is shorter than the text. -/
def ofDrop {cs : List Char} {n : Nat} (rest : Shorter (cs.drop n)) : Shorter cs :=
  ⟨rest.1, Nat.lt_of_lt_of_le rest.2 (List.drop_sublist n cs).length_le⟩

/-- What is shorter than something shorter is shorter. -/
def trans {cs : List Char} (behind : Shorter cs) (rest : Shorter behind.1) : Shorter cs :=
  ⟨rest.1, Nat.lt_trans rest.2 behind.2⟩

end Shorter

theorem length_drop_lt_cons (c : Char) (cs : List Char) (n : Nat) :
    (cs.drop n).length < (c :: cs).length :=
  Nat.lt_succ_of_le (List.drop_sublist n cs).length_le

/-- What is left of the inside of a comment behind the end of the comment.  There is
nothing if the comment does not end, or something inside of it does not. -/
def readComment (cs : List Char) : Option (Shorter cs) :=
  match cs with
  | [] => none
  | '*' :: ')' :: cs => some (.cons '*' (.tail ')' cs))
  | '(' :: '*' :: cs =>
    match readComment cs with
    | none => none
    | some behind =>
      (readComment behind.1).map fun rest => .cons '(' (.cons '*' (behind.trans rest))
  | '"' :: cs =>
    match closingQuote? cs with
    | none => none
    | some i => (readComment (cs.drop (i + 1))).map fun rest => .cons '"' rest.ofDrop
  | '\'' :: '"' :: '\'' :: cs =>
    (readComment cs).map fun rest => .cons '\'' (.cons '"' (.cons '\'' rest))
  | c :: cs => (readComment cs).map (.cons c)
termination_by cs.length
decreasing_by
  · exact (Shorter.cons '(' (.tail '*' cs)).2
  · exact (Shorter.cons '(' (.cons '*' behind)).2
  · exact length_drop_lt_cons '"' cs (i + 1)
  · exact (Shorter.cons '\'' (.cons '"' (.tail '\'' cs))).2
  · exact (Shorter.tail c cs).2

/-- What `readComment` leaves. -/
def afterComment? (cs : List Char) : Option (List Char) :=
  (readComment cs).map Subtype.val

section Equations

variable (cs : List Char)

@[simp] theorem afterComment?_nil : afterComment? [] = none := by
  rw [afterComment?, readComment]
  rfl

theorem afterComment?_close : afterComment? ('*' :: ')' :: cs) = some cs := by
  rw [afterComment?, readComment]
  rfl

theorem afterComment?_open :
    afterComment? ('(' :: '*' :: cs) = (afterComment? cs).bind afterComment? := by
  rw [afterComment?, readComment, afterComment?]
  cases readComment cs with
  | none => rfl
  | some behind => simp [afterComment?, Function.comp_def, Shorter.cons, Shorter.trans]

theorem afterComment?_quote :
    afterComment? ('"' :: cs) =
      (closingQuote? cs).bind fun i => afterComment? (cs.drop (i + 1)) := by
  rw [afterComment?, readComment]
  cases closingQuote? cs with
  | none => rfl
  | some i => simp [afterComment?, Function.comp_def, Shorter.cons, Shorter.ofDrop]

theorem afterComment?_literal :
    afterComment? ('\'' :: '"' :: '\'' :: cs) = afterComment? cs := by
  rw [afterComment?, readComment, afterComment?]
  simp [Function.comp_def, Shorter.cons]

variable {cs}

theorem afterComment?_other {c : Char} (hclose : ∀ rest, c = '*' → cs = ')' :: rest → False)
    (hopen : ∀ rest, c = '(' → cs = '*' :: rest → False) (hquote : c = '"' → False)
    (hliteral : ∀ rest, c = '\'' → cs = '"' :: '\'' :: rest → False) :
    afterComment? (c :: cs) = afterComment? cs := by
  rw [afterComment?, readComment, afterComment?]
  · simp [Function.comp_def, Shorter.cons]
  · exact hclose
  · exact hopen
  · exact hquote
  · exact hliteral

end Equations

/-- What the recursive reader leaves of a text: nothing if it runs out of characters. -/
def commentRemainder (cs : List Char) : List Char :=
  (afterComment? cs).getD []

@[simp] theorem commentRemainder_nil : commentRemainder [] = [] := by
  rw [commentRemainder, afterComment?_nil]
  rfl

/-- A comment inside is read first, then what follows it. -/
theorem commentRemainder_open (cs : List Char) :
    commentRemainder ('(' :: '*' :: cs) = commentRemainder (commentRemainder cs) := by
  rw [commentRemainder, afterComment?_open, commentRemainder.eq_def cs]
  cases afterComment? cs <;> simp [commentRemainder]

theorem commentRemainder_quote (cs : List Char) :
    commentRemainder ('"' :: cs) = commentRemainder (cs.drop (stringTail cs).length) := by
  rw [commentRemainder, afterComment?_quote, length_stringTail]
  cases closingQuote? cs <;> simp [commentRemainder]

/-- What is left is the end of the text. -/
theorem commentRemainder_suffix (cs : List Char) : commentRemainder cs <:+ cs := by
  fun_induction readComment cs with
  | case1 => simp
  | case2 cs =>
      rw [commentRemainder, afterComment?_close]
      exact List.suffix_append ['*', ')'] cs
  | case3 cs hnone _ =>
      have hinside : commentRemainder cs = [] := by simp [commentRemainder, afterComment?, hnone]
      rw [commentRemainder_open, hinside, commentRemainder_nil]
      exact List.nil_suffix
  | case4 cs behind hsome ihInside ih =>
      have hinside : commentRemainder cs = behind.1 := by
        simp [commentRemainder, afterComment?, hsome]
      rw [commentRemainder_open, hinside]
      exact (ih.trans (hinside ▸ ihInside)).trans (List.suffix_append ['(', '*'] cs)
  | case5 cs hnone => simp [commentRemainder, afterComment?_quote, hnone]
  | case6 cs i hi ih =>
      have hleft : commentRemainder ('"' :: cs) = commentRemainder (cs.drop (i + 1)) := by
        simp [commentRemainder, afterComment?_quote, hi]
      rw [hleft]
      exact (ih.trans (List.drop_suffix _ _)).trans (List.suffix_cons _ _)
  | case7 cs ih =>
      rw [commentRemainder, afterComment?_literal]
      exact ih.trans (List.suffix_append ['\'', '"', '\''] cs)
  | case8 c cs hclose hopen hquote hliteral ih =>
      rw [commentRemainder, afterComment?_other hclose hopen hquote hliteral]
      exact ih.trans (List.suffix_cons _ _)

/-! ## Scanning by counting -/

/-- What the scanner takes behind the end of a comment inside `depth` others: what the
next one out still holds. -/
def takenOutside : (depth : Nat) → List Char → List Char
  | 0, _ => []
  | depth + 1, rest => commentBody depth (.plain false) rest

@[simp] theorem takenOutside_nil (depth : Nat) : takenOutside depth [] = [] := by
  cases depth <;> simp [takenOutside, commentBody]

theorem commentBody_close (depth : Nat) (cs : List Char) :
    commentBody depth (.plain true) (')' :: cs) = ')' :: takenOutside depth cs := by
  cases depth <;> rw [commentBody] <;> rfl

/-- **A star matters only to a parenthesis** that comes next. -/
theorem commentBody_afterStar {cs : List Char} (h : ∀ rest, cs ≠ ')' :: rest) (depth : Nat)
    (afterStar : Bool) :
    commentBody depth (.plain afterStar) cs = commentBody depth (.plain false) cs := by
  cases cs with
  | nil => simp [commentBody]
  | cons c cs =>
      have hc : c ≠ ')' := by
        rintro rfl
        exact h cs rfl
      simp only [commentBody_plain_cons, hc, false_and, if_false]

/-- The scanner takes a string inside a comment as a whole. -/
theorem commentBody_quote (depth : Nat) (cs : List Char) :
    commentBody depth (.plain false) ('"' :: cs) =
      '"' :: (stringTail cs ++
        commentBody depth (.plain false) (cs.drop (stringTail cs).length)) := by
  rw [commentBody, commentBody_quoted]
  rfl

/-- **The scanner keeps count of readers that wait.**  It takes what the reader of the
innermost comment takes, and then goes on like the reader of the next one out. -/
theorem length_commentBody (depth : Nat) (cs : List Char) :
    (commentBody depth (.plain false) cs).length + (commentRemainder cs).length =
      cs.length + (takenOutside depth (commentRemainder cs)).length := by
  fun_induction readComment cs generalizing depth with
  | case1 => simp [commentBody]
  | case2 cs =>
      rw [commentBody_plain_cons]
      simp [commentRemainder, afterComment?_close, commentBody_close]
      omega
  | case3 cs hnone ih =>
      have hinside : commentRemainder cs = [] := by simp [commentRemainder, afterComment?, hnone]
      have hscan := ih (depth + 1)
      rw [commentBody, commentRemainder_open]
      simp only [hinside, commentRemainder_nil, takenOutside_nil, List.length_cons] at hscan ⊢
      omega
  | case4 cs behind hsome ihInside ih =>
      have hinside : commentRemainder cs = behind.1 := by
        simp [commentRemainder, afterComment?, hsome]
      have hscan := ihInside (depth + 1)
      have hgoesOn := ih depth
      rw [commentBody, commentRemainder_open]
      simp only [hinside, takenOutside, List.length_cons] at hscan hgoesOn ⊢
      omega
  | case5 cs hnone =>
      have hstring := length_stringTail cs
      rw [hnone, Option.map_none, Option.getD_none] at hstring
      rw [commentBody_quote, commentRemainder_quote]
      simp [hstring, commentBody]
  | case6 cs i hi ih =>
      have hstring := length_stringTail cs
      have hfits := length_stringBody_le false cs
      rw [hi, Option.map_some, Option.getD_some] at hstring
      have hscan := ih depth
      rw [commentBody_quote, commentRemainder_quote]
      simp only [stringTail, List.length_cons, List.length_append, List.length_drop] at *
      rw [hstring] at *
      omega
  | case7 cs ih =>
      have hscan := ih depth
      rw [commentBody, commentRemainder, afterComment?_literal]
      simp only [commentRemainder, List.length_cons] at hscan ⊢
      omega
  | case8 c cs hclose hopen hquote hliteral ih =>
      have hscan := ih depth
      have hstep : commentBody depth (.plain false) (c :: cs) =
          c :: commentBody depth (.plain false) cs := by
        rw [commentBody]
        · by_cases hstar : c = '*'
          · rw [commentBody_afterStar (fun rest hrest => hclose rest hstar hrest)]
          · rw [beq_eq_false_iff_ne.mpr hstar]
        · exact hopen
        · exact hquote
        · exact hliteral
        all_goals simp
      rw [hstep, commentRemainder, afterComment?_other hclose hopen hquote hliteral]
      simp only [commentRemainder, List.length_cons] at hscan ⊢
      omega

/-! ## Comments in bytes -/

/-- The number of characters that the recursive reader takes: up to the end of the
comment, or all of them if it runs out of characters. -/
def commentReach (cs : List Char) : Nat :=
  match afterComment? cs with
  | some rest => cs.length - rest.length
  | none => cs.length

theorem commentReach_eq (cs : List Char) :
    commentReach cs = cs.length - (commentRemainder cs).length := by
  rw [commentReach, commentRemainder]
  cases afterComment? cs <;> simp

/-- **The scanner takes what the recursive reader takes.** -/
theorem length_commentTail (cs : List Char) : (commentTail cs).length = commentReach cs := by
  have hscan := length_commentBody 0 cs
  have hle := (commentRemainder_suffix cs).length_le
  simp only [takenOutside, List.length_nil] at hscan
  rw [commentTail, commentReach_eq]
  omega

/-- A scanner inside two comments scans the inner one to its end, and then the outer one. -/
theorem length_commentBody_one (cs : List Char) :
    (commentBody 1 (.plain false) cs).length =
      (commentTail cs).length + (commentTail (cs.drop (commentTail cs).length)).length := by
  have hscan := length_commentBody 1 cs
  have hle := (commentRemainder_suffix cs).length_le
  rw [length_commentTail cs, commentReach_eq,
    ← List.suffix_iff_eq_drop.mp (commentRemainder_suffix cs)]
  simp only [takenOutside, commentTail] at hscan ⊢
  omega

/-- **Comments are read by recursion.**  The scan of the bytes of a comment takes what
the recursive reader takes, which is everything if the comment is not closed.  In
particular a star that belongs to an opening mark closes nothing: `(*)` opens a comment,
whose end is looked for behind the parenthesis.  And whatever stands in a string, the
scan goes on behind it. -/
theorem commentBodyLength_recursive (bytes : List UInt8) :
    commentBodyLength bytes = commentReach (bytesAsChars bytes) ∧
      (afterComment? (bytesAsChars bytes) = none → commentBodyLength bytes = bytes.length) ∧
      commentBodyLength (0x28 :: 0x2A :: 0x29 :: bytes) =
        3 + commentBodyLength bytes + commentBodyLength (bytes.drop (commentBodyLength bytes)) ∧
      commentBodyLength (0x22 :: bytes) =
        1 + stringBodyLength bytes + commentBodyLength (bytes.drop (stringBodyLength bytes)) := by
  have hmap : ∀ n, bytesAsChars (bytes.drop n) = (bytesAsChars bytes).drop n := fun n =>
    List.map_drop
  refine ⟨length_commentTail _, fun hopen => ?_, ?_, ?_⟩
  · rw [commentBodyLength, length_commentTail, commentReach, hopen]
    exact List.length_map _
  · have hbytes : bytesAsChars (0x28 :: 0x2A :: 0x29 :: bytes) =
        '(' :: '*' :: ')' :: bytesAsChars bytes := rfl
    have hscan : commentTail ('(' :: '*' :: ')' :: bytesAsChars bytes) =
        '(' :: '*' :: ')' :: commentBody 1 (.plain false) (bytesAsChars bytes) := by
      rw [commentTail, commentBody, commentBody_plain_cons]
      simp
    simp only [commentBodyLength, hmap, hbytes, hscan, List.length_cons, length_commentBody_one]
    omega
  · have hbytes : bytesAsChars (0x22 :: bytes) = '"' :: bytesAsChars bytes := rfl
    have hscan := commentBody_quote 0 (bytesAsChars bytes)
    simp only [commentBodyLength, stringBodyLength, hmap, hbytes, commentTail, hscan,
      List.length_cons, List.length_append]
    omega

end CamlIndex
