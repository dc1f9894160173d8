import CamlIndex.Token.Lexer

/-!
# The window over the tokens

Some decisions need the token that comes after the current one: `let f x` binds
a function where `let v =` binds a value.  A `Window` shows two neighbouring
tokens and slides along the text; past its end both are the end token, however
often it is moved.

Sliding a window over a text shows its tokens one by one, each with its
successor: `pairUp` says the same of a list of tokens.
-/

namespace CamlIndex

/-- Two neighbouring tokens of a text of `length` bytes, and the place behind them. -/
structure Window where
  length : Nat
  current : Token
  next : Token
  behind : Cursor
  deriving DecidableEq, Repr

namespace Window

/-- The window at the start of a text. -/
def ofText (text : String) : Window :=
  let length := text.utf8ByteSize
  let (current, afterFirst) := (Cursor.ofText text).next length
  let (next, behind) := afterFirst.next length
  ⟨length, current, next, behind⟩

/-- Whether the window has left the last token behind. -/
def isDone (window : Window) : Bool :=
  window.current.isEnd

/-- The window one token further. -/
def advance (window : Window) : Window :=
  let (following, behind) := window.behind.next window.length
  { window with current := window.next, next := following, behind := behind }

/-- An upper bound on the number of tokens that are still to be shown. -/
def remaining (window : Window) : Nat :=
  2 * window.behind.rest.length
    + (if window.next.isEnd then 0 else 1) + (if window.current.isEnd then 0 else 1)

theorem remaining_advance_lt {window : Window} (h : window.isDone = false) :
    window.advance.remaining < window.remaining := by
  have hc : window.current.isEnd = false := h
  rcases hn : window.behind.next? with _ | ⟨token, behind⟩
  · simp [remaining, advance, Cursor.next, hn, hc]
    simp [Token.endAt, Token.isEnd]
  · have := Cursor.length_rest_of_next? hn
    simp only [remaining, advance, Cursor.next, hn, hc, Option.getD_some]
    grind

/-- Feeds a reader all tokens that the window has still to show, each with its successor. -/
def fold {σ : Type} (read : σ → Token → Token → σ) (window : Window) (state : σ) : σ :=
  match h : window.isDone with
  | true => state
  | false =>
    have := remaining_advance_lt h
    window.advance.fold read (read state window.current window.next)
termination_by window.remaining

end Window

/-- Every token of a list with the one that follows it; `last` follows the last one. -/
def pairUp (last : Token) : List Token → List (Token × Token)
  | [] => []
  | [token] => [(token, last)]
  | token :: next :: rest => (token, next) :: pairUp last (next :: rest)

end CamlIndex
