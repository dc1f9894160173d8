import CamlIndex.Delivery
import CamlIndex.Proofs.Tiling
import Mathlib.Logic.Function.Iterate

/-!
# Tokens in pairs

The window asks a cursor for tokens and shows the last two answers.  The answers are the
tokens of the text and then the end token for ever (`Cursor.answer_eq`), so it is known
what a window shows after any number of moves, past the end of the text as well.  When
it is done is known too, since no token of a text is an end token.

A reader who goes through the tokens with a window therefore reads a list: the tokens,
each paired with its successor (`Window.InOrder.loops`).  Handing on tags is one such
reader.

* `getElem?_pairUp` — which pairs there are;
* `Window.moved_eq` — what a window shows after some moves;
* `tokens_read_in_pairs` — the window, the pairs, and the runs that are folds over them.
-/

namespace CamlIndex

/-- A token of a list stands in the pair of the same number, and beside it the token of
the next number, or `last` if there is none. -/
theorem getElem?_pairUp (last : Token) (tokens : List Token) (k : Nat) :
    (pairUp last tokens)[k]? =
      tokens[k]?.map fun token => (token, tokens[k + 1]?.getD last) := by
  induction tokens generalizing k with
  | nil => rfl
  | cons token rest ih =>
      rw [pairUp_cons]
      cases k with
      | zero => cases rest <;> rfl
      | succ k => simpa using ih k

namespace Cursor

/-- The place behind the token that is asked for at this place, in a text of `length`
bytes; at the end of the text it is the same place. -/
def behind (length : Nat) (cursor : Cursor) : Cursor :=
  (cursor.next length).2

/-- The answer to the question after `k` others is given where these have led. -/
theorem answer_eq_next (length : Nat) (cursor : Cursor) (k : Nat) :
    cursor.answer length k = (((behind length)^[k] cursor).next length).1 := by
  induction k generalizing cursor with
  | zero => rfl
  | succ k ih =>
      rw [Function.iterate_succ_apply, ← ih]
      rfl

/-- Tokens that a cursor reads are no end tokens. -/
theorem isEnd_of_mem_tokens {cursor : Cursor} {token : Token} (h : token ∈ cursor.tokens) :
    token.isEnd = false := by
  fun_induction tokens cursor with
  | case1 => cases h
  | case2 cursor first behind hnext _ ih =>
      rcases List.mem_cons.mp h with rfl | h
      · exact isEnd_of_next? hnext
      · exact ih h

end Cursor

namespace Window

/-- The window over a text after it has been moved `k` times. -/
def moved (text : String) (k : Nat) : Window :=
  advance^[k] (ofText text)

/-- **A window shows two answers that follow each other.**  It has asked once more than
it shows, and each move asks once. -/
theorem moved_eq (text : String) (k : Nat) :
    moved text k =
      ⟨text.utf8ByteSize, (Cursor.ofText text).answer text.utf8ByteSize k,
        (Cursor.ofText text).answer text.utf8ByteSize (k + 1),
        (Cursor.behind text.utf8ByteSize)^[k + 2] (Cursor.ofText text)⟩ := by
  induction k with
  | zero => rfl
  | succ k ih =>
      have hanswer := (Cursor.ofText text).answer_eq_next text.utf8ByteSize (k + 2)
      rw [moved, Function.iterate_succ_apply', ← moved, ih, hanswer,
        Function.iterate_succ_apply' _ (k + 2)]
      rfl

/-- What a window shows first is a token of the text as long as there is one. -/
theorem isDone_moved (text : String) (k : Nat) :
    (moved text k).isDone = true ↔ (tokenize text).length ≤ k := by
  rw [moved_eq, isDone, Cursor.answer_eq]
  rcases Nat.lt_or_ge k (tokenize text).length with hlt | hge
  · have hreal := Cursor.isEnd_of_mem_tokens (List.getElem_mem hlt)
    have hget : (Cursor.ofText text).tokens[k]? = some (tokenize text)[k] :=
      List.getElem?_eq_getElem hlt
    rw [hget, Option.getD_some, hreal]
    simp [hlt]
  · have hget : (Cursor.ofText text).tokens[k]? = none := List.getElem?_eq_none hge
    rw [hget, Option.getD_none, endAt_isEnd]
    simp [hge]

end Window

/-- What it means that a text is read as the list of its tokens, each paired with the
one that follows it. -/
structure ReadInPairs (text : String) (tokens : List Token) : Prop where
  /-- However often the window has been moved, it shows the token of that number and the
  next one, and the end token in place of those that there are not. -/
  current : ∀ k, (Window.advance^[k] (.ofText text)).current =
    tokens[k]?.getD (Token.endAt text.utf8ByteSize)
  next : ∀ k, (Window.advance^[k] (.ofText text)).next =
    tokens[k + 1]?.getD (Token.endAt text.utf8ByteSize)
  /-- It is done when all tokens have been passed, and stays so. -/
  done : ∀ k, (Window.advance^[k] (.ofText text)).isDone = true ↔ tokens.length ≤ k
  /-- The pairs are the tokens, each with its true successor. -/
  pairs : ∀ k, (pairUp (Token.endAt text.utf8ByteSize) tokens)[k]? =
    tokens[k]?.map fun token =>
      (token, tokens[k + 1]?.getD (Token.endAt text.utf8ByteSize))
  /-- Whatever a reader does with two tokens, the loop ends after one turn for each token,
  with what the reader makes of the pairs from left to right. -/
  loop : ∀ {σ : Type} (read : σ → Token → Token → σ) (state : σ),
    Window.Loops read (.ofText text) state tokens.length
      ((pairUp (Token.endAt text.utf8ByteSize) tokens).foldl
        (fun state pair => read state pair.1 pair.2) state)
  /-- So tags are handed on by a fold over the pairs and what is done in the end. -/
  delivered : ∀ {σ : Type} (options : Options) (take : σ → Tag → σ) (start : σ),
    extractInto options text take start =
      ((pairUp (Token.endAt text.utf8ByteSize) tokens).foldl
        (fun delivery pair => Delivery.step options (.ofText text) take delivery pair.1 pair.2)
        ⟨.start options.maxDepth, (options.fileModuleTags text).foldl take start, none⟩).finish
          options (.ofText text) take
  /-- The same holds of a machine that keeps its notes. -/
  noted : ∀ capacity, Machine.notesOf capacity text =
    ((pairUp (Token.endAt text.utf8ByteSize) tokens).foldl
      (fun m pair => Machine.step m pair.1 pair.2) (.start capacity)).confirm.notes.reverse

/-- **A text is read in pairs of tokens**, one after the other, whoever reads it. -/
theorem tokens_read_in_pairs (text : String) : ReadInPairs text (tokenize text) := by
  obtain ⟨horder, htokens⟩ := Window.ofText_inOrder text
  have hloop : ∀ {σ : Type} (read : σ → Token → Token → σ) (state : σ),
      Window.Loops read (.ofText text) state (tokenize text).length
        ((pairUp (Token.endAt text.utf8ByteSize) (tokenize text)).foldl
          (fun state pair => read state pair.1 pair.2) state) := by
    intro σ read state
    have h : Window.Loops read (.ofText text) state (Window.ofText text).tokens.length _ :=
      horder.loops state
    rwa [htokens] at h
  constructor
  case current =>
      intro k
      rw [← Window.moved, Window.moved_eq]
      exact Cursor.answer_eq text.utf8ByteSize (.ofText text) k
  case next =>
      intro k
      rw [← Window.moved, Window.moved_eq]
      exact Cursor.answer_eq text.utf8ByteSize (.ofText text) (k + 1)
  case done => exact Window.isDone_moved text
  case pairs => exact getElem?_pairUp _ _
  case loop => exact hloop
  case delivered =>
      intro σ options take start
      rw [extractInto, (hloop (Delivery.step options (.ofText text) take) _).fold_eq]
  case noted =>
      intro capacity
      rw [Machine.notesOf, Machine.read, (hloop Machine.step _).fold_eq]

end CamlIndex
