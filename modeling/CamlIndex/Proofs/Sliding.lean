import CamlIndex.Machine.Step

/-!
# Sliding a window is reading a list

`Machine.read` slides a window over a text and never sees all tokens at once.
The theory prefers a list.  `Machine.readAll` reads the tokens of a list one
after the other, each with its successor in view, and `read_ofText` says that
both are the same: the window shows every token of `tokenize` once, each with
the token that really follows it, and the end token after the last one.  This
holds of every reader and not of machines alone: the loop of a reader takes one
turn for each token that is still to be shown (`Window.InOrder.loops`).

Lists can be cut, so `readAll_append` is the law on which all runs are built.
-/

namespace CamlIndex

/-- No word of the keyword table is the end token. -/
theorem keyword?_ne_eof (word : String) : keyword? word ≠ some .eof := by
  intro h
  obtain ⟨entry, hentry, heq⟩ : ∃ entry ∈ keywords, entry.2 = TokenKind.eof := by
    unfold keyword? at h
    rw [List.lookup_eq_some_iff] at h
    obtain ⟨before, after, hkeys, -⟩ := h
    exact ⟨(word, .eof), by simp [hkeys], rfl⟩
  revert entry
  decide

/-- What is read from a text never looks like its end. -/
theorem readToken_kind_ne_eof (c : Char) (cs : List Char) :
    (readToken c cs).1 ≠ .eof := by
  have hword : ∀ word, wordKind word ≠ .eof := by
    intro word heof
    have := keyword?_ne_eof word
    unfold wordKind at heof
    grind
  have hoperator : ∀ run, operatorKind run ≠ .eof := by
    intro run
    unfold operatorKind
    split <;> simp
  have hcharacter : characterKind c ≠ .eof := by
    unfold characterKind
    split <;> simp
  unfold readToken
  grind

namespace Cursor

/-- A token that a cursor reads is a real one. -/
theorem isEnd_of_next? {cursor behind : Cursor} {token : Token}
    (h : cursor.next? = some (token, behind)) : token.isEnd = false := by
  simp only [next?] at h
  split at h
  · simp at h
  · next c cs hc =>
      have hkind := readToken_kind_ne_eof c cs
      simp only [Option.some.injEq, Prod.mk.injEq] at h
      obtain ⟨rfl, -⟩ := h
      simpa [Token.isEnd] using hkind

/-- The tokens from a place: the first, then those from the place behind it. -/
theorem tokens_of_next? {cursor behind : Cursor} {token : Token}
    (h : cursor.next? = some (token, behind)) :
    cursor.tokens = token :: behind.tokens := by
  rw [tokens]
  split
  · next hnone => rw [h] at hnone; cases hnone
  · next found after hsome =>
      rw [h] at hsome
      cases hsome
      rfl

/-- Where nothing is left to read there are no tokens. -/
theorem tokens_of_next?_eq_none {cursor : Cursor} (h : cursor.next? = none) :
    cursor.tokens = [] := by
  rw [tokens]
  split
  · rfl
  · next hsome => rw [h] at hsome; cases hsome

end Cursor

/-- A token is paired with the one that comes next, or with `last`. -/
theorem pairUp_cons (last token : Token) (rest : List Token) :
    pairUp last (token :: rest) = (token, rest.headD last) :: pairUp last rest := by
  cases rest <;> rfl

namespace Window

/-- The tokens that a window has still to show. -/
def tokens (window : Window) : List Token :=
  if window.current.isEnd then []
  else window.current :: (if window.next.isEnd then [] else window.next :: window.behind.tokens)

/-- A window is in order if an end token is shown only where no token is left. -/
structure InOrder (window : Window) : Prop where
  next_isEnd : window.current.isEnd = true → window.next.isEnd = true
  rest_done : window.next.isEnd = true → window.behind.next? = none
  next_end : window.next.isEnd = true → window.next = Token.endAt window.length

theorem endAt_isEnd (length : Nat) : (Token.endAt length).isEnd = true := by
  simp [Token.endAt, Token.isEnd]

/-- The next token and the place behind it, where there is a next token. -/
theorem cursor_next_of_some {cursor behind : Cursor} {token : Token} {length : Nat}
    (h : cursor.next? = some (token, behind)) : cursor.next length = (token, behind) := by
  simp [Cursor.next, h]

/-- The end token and the same place, where there is no next token. -/
theorem cursor_next_of_none {cursor : Cursor} {length : Nat} (h : cursor.next? = none) :
    cursor.next length = (Token.endAt length, cursor) := by
  simp [Cursor.next, h]

/-- The window at the start of a text is in order and shows the whole text. -/
theorem ofText_inOrder (text : String) :
    (ofText text).InOrder ∧ (ofText text).tokens = tokenize text := by
  cases hfirst : (Cursor.ofText text).next? with
  | none =>
      have hend := endAt_isEnd text.utf8ByteSize
      refine ⟨⟨?_, ?_, ?_⟩, ?_⟩ <;>
        simp [ofText, cursor_next_of_none hfirst, hfirst, tokens, hend, tokenize,
          Cursor.tokens_of_next?_eq_none]
  | some found =>
      obtain ⟨first, behind⟩ := found
      have hreal := Cursor.isEnd_of_next? hfirst
      have htokens : tokenize text = first :: behind.tokens := Cursor.tokens_of_next? hfirst
      cases hsecond : behind.next? with
      | none =>
          have hend := endAt_isEnd text.utf8ByteSize
          refine ⟨⟨?_, ?_, ?_⟩, ?_⟩ <;>
            simp [ofText, cursor_next_of_some hfirst, cursor_next_of_none hsecond, hsecond,
              tokens, hend, hreal, htokens, Cursor.tokens_of_next?_eq_none]
      | some found =>
          obtain ⟨second, after⟩ := found
          have hreal' := Cursor.isEnd_of_next? hsecond
          refine ⟨⟨?_, ?_, ?_⟩, ?_⟩ <;>
            simp [ofText, cursor_next_of_some hfirst, cursor_next_of_some hsecond, tokens,
              hreal, hreal', htokens, Cursor.tokens_of_next? hsecond]

/-- A window is done at once if and only if the text has no tokens. -/
theorem isDone_ofText (text : String) : (ofText text).isDone = (tokenize text).isEmpty := by
  obtain ⟨-, htokens⟩ := ofText_inOrder text
  rw [← htokens, isDone, tokens]
  cases (ofText text).current.isEnd <;> rfl

/-- Sliding keeps a window in order, keeps its length and drops one token. -/
theorem advance_inOrder {window : Window} (h : window.InOrder) :
    window.advance.InOrder ∧ window.advance.length = window.length ∧
      window.advance.tokens = window.tokens.tail := by
  cases hnext : window.behind.next? with
  | none =>
      have hend := endAt_isEnd window.length
      refine ⟨⟨?_, ?_, ?_⟩, rfl, ?_⟩
      · simp [advance, cursor_next_of_none hnext, hend]
      · simp [advance, cursor_next_of_none hnext, hnext]
      · simp [advance, cursor_next_of_none hnext]
      · have hrest := Cursor.tokens_of_next?_eq_none hnext
        have := h.next_isEnd
        simp only [tokens, advance, cursor_next_of_none hnext, hend, hrest]
        grind
  | some found =>
      obtain ⟨following, behind⟩ := found
      have hreal := Cursor.isEnd_of_next? hnext
      have hnotdone : window.next.isEnd = false := by
        cases hdone : window.next.isEnd with
        | false => rfl
        | true => simp [h.rest_done hdone] at hnext
      have hcurrent : window.current.isEnd = false := by
        cases hdone : window.current.isEnd with
        | false => rfl
        | true => simp [h.next_isEnd hdone] at hnotdone
      refine ⟨⟨?_, ?_, ?_⟩, rfl, ?_⟩
      · simp [advance, hnotdone]
      · simp [advance, cursor_next_of_some hnext, hreal]
      · simp [advance, cursor_next_of_some hnext, hreal]
      · simp [tokens, advance, cursor_next_of_some hnext, hnotdone, hreal, hcurrent,
          Cursor.tokens_of_next? hnext]

/-! ## The loop -/

section Loops

variable {σ : Type} {read : σ → Token → Token → σ} {window : Window} {state : σ}

theorem fold_of_isDone (h : window.isDone = true) : window.fold read state = state := by
  rw [fold]
  split
  · rfl
  · next hnot => cases h.symm.trans hnot

theorem fold_of_not_isDone (h : window.isDone = false) :
    window.fold read state =
      window.advance.fold read (read state window.current window.next) := by
  rw [fold]
  split
  · next hdone => cases h.symm.trans hdone
  · rfl

/-- The loop of a reader who goes on while the window is not done.  From `state` it makes
`n` turns, in each of which the two tokens of the window are read, and it ends in `final`. -/
inductive Loops {σ : Type} (read : σ → Token → Token → σ) : Window → σ → Nat → σ → Prop
  | done {window : Window} {state : σ} (hdone : window.isDone = true) :
      Loops read window state 0 state
  | turn {window : Window} {state final : σ} {n : Nat} (hdone : window.isDone = false)
      (rest : Loops read window.advance (read state window.current window.next) n final) :
      Loops read window state (n + 1) final

/-- Where the loop ends is what `fold` gives. -/
theorem Loops.fold_eq {final : σ} {n : Nat} (h : Loops read window state n final) :
    window.fold read state = final := by
  induction h with
  | done hdone => exact fold_of_isDone hdone
  | turn hdone _ ih => rw [fold_of_not_isDone hdone, ih]

/-- **One turn for each token.**  The loop over a window that is in order reads the tokens
that the window has still to show, each with its successor, and then ends. -/
theorem InOrder.loops (h : window.InOrder) (state : σ) :
    Loops read window state window.tokens.length
      ((pairUp (Token.endAt window.length) window.tokens).foldl
        (fun state pair => read state pair.1 pair.2) state) := by
  fun_induction Window.fold read window state with
  | case1 window state hdone =>
      have hend : window.current.isEnd = true := hdone
      rw [tokens, if_pos hend]
      exact .done hdone
  | case2 window state hdone _ ih =>
      obtain ⟨horder, hlength, htail⟩ := advance_inOrder h
      have hreal : window.current.isEnd = false := hdone
      have htokens : window.tokens = window.current :: window.tokens.tail := by
        simp [tokens, hreal]
      have hnext : window.next = window.tokens.tail.headD (Token.endAt window.length) := by
        by_cases hend : window.next.isEnd = true
        · simp [tokens, hreal, hend, ← h.next_end hend]
        · simp [tokens, hreal, hend]
      rw [htokens, pairUp_cons, ← hnext, List.foldl_cons, List.length_cons, ← htail, ← hlength]
      exact .turn hdone (ih horder)

end Loops

end Window

/-- What stands first in two lists, or behind both. -/
theorem headD_append {α : Type} (front back : List α) (last : α) :
    (front ++ back).headD last = front.headD (back.headD last) := by
  cases front <;> rfl

namespace Machine

/-- Reads the tokens of a list, each with its successor in view; `last` follows
the last one. -/
def readAll (m : Machine) (last : Token) : List Token → Machine
  | [] => m
  | token :: rest => (m.step token (rest.headD last)).readAll last rest

/-- Reading a list is the fold of `step` over its tokens paired with their successors. -/
theorem readAll_eq_foldl (m : Machine) (last : Token) (tokens : List Token) :
    m.readAll last tokens =
      (pairUp last tokens).foldl (fun state pair => state.step pair.1 pair.2) m := by
  induction tokens generalizing m with
  | nil => rfl
  | cons token rest ih => rw [pairUp_cons, List.foldl_cons, readAll, ih]

/-- **Cutting a run.**  Two lists are read one after the other; the first sees
the head of the second behind its own end. -/
theorem readAll_append (m : Machine) (last : Token) (front back : List Token) :
    m.readAll last (front ++ back) =
      (m.readAll (back.headD last) front).readAll last back := by
  induction front generalizing m with
  | nil => rfl
  | cons token rest ih => simp only [List.cons_append, readAll, ih, headD_append]

/-- A window feeds a machine the tokens that it has still to show. -/
theorem fold_step_eq_readAll (window : Window) (m : Machine) (h : window.InOrder) :
    window.fold step m = m.readAll (Token.endAt window.length) window.tokens := by
  rw [readAll_eq_foldl]
  exact (h.loops m).fold_eq

/-- **Reading a text.**  The machine reads the tokens of the text once each, in
order, and then confirms what it has held back. -/
theorem read_ofText (m : Machine) (text : String) :
    m.read (.ofText text) =
      (m.readAll (Token.endAt text.utf8ByteSize) (tokenize text)).confirm := by
  obtain ⟨horder, htokens⟩ := Window.ofText_inOrder text
  rw [read, fold_step_eq_readAll _ _ horder, htokens]
  rfl

/-- The machine after the first tokens `front` of a text, while `back` are still to come. -/
def partway (capacity : Nat) (text : String) (front back : List Token) : Machine :=
  (start capacity).readAll (back.headD (Token.endAt text.utf8ByteSize)) front

/-- The machine one token further. -/
theorem partway_concat {capacity : Nat} {text : String} {front back : List Token} (token : Token) :
    partway capacity text (front ++ [token]) back =
      (partway capacity text front (token :: back)).step token
        (back.headD (Token.endAt text.utf8ByteSize)) := by
  rw [partway, readAll_append]
  rfl

end Machine

/-- The machine behind the first `n` tokens of a text. -/
def reached (maxDepth : Nat) (text : String) (n : Nat) : Machine :=
  Machine.partway maxDepth text ((tokenize text).take n) ((tokenize text).drop n)

/-- The machine one token further. -/
theorem reached_succ {text : String} {n : Nat} (maxDepth : Nat) {token : Token}
    (htoken : (tokenize text)[n]? = some token) :
    reached maxDepth text (n + 1) = (reached maxDepth text n).step token
      (((tokenize text).drop (n + 1)).headD (Token.endAt text.utf8ByteSize)) := by
  obtain ⟨hlt, rfl⟩ := List.getElem?_eq_some_iff.mp htoken
  rw [reached, List.take_succ_eq_append_getElem hlt, Machine.partway_concat, reached,
    List.drop_eq_getElem_cons hlt]

/-- Reads the `k` tokens that stand behind the first `n` of a text. -/
def Machine.readOn (m : Machine) (text : String) (n k : Nat) : Machine :=
  m.readAll (((tokenize text).drop (n + k)).headD (Token.endAt text.utf8ByteSize))
    (((tokenize text).drop n).take k)

/-- The machine some tokens further. -/
theorem reached_add (maxDepth : Nat) (text : String) (n k : Nat) :
    reached maxDepth text (n + k) = (reached maxDepth text n).readOn text n k := by
  have hsplit : (tokenize text).drop n =
      ((tokenize text).drop n).take k ++ (tokenize text).drop (n + k) := by
    rw [← List.drop_drop, List.take_append_drop]
  rw [reached, List.take_add, Machine.partway, Machine.readAll_append, ← headD_append, ← hsplit]
  rfl

end CamlIndex
