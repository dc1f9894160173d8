/-!
# Blanks, comments and strings of TOML

A reader takes the characters that are still to come and gives what it has read
together with the rest, or nothing if the text is not well formed.

Four kinds of string exist: between double quotes with escapes, between single
quotes without, and both over several lines between triple quotes.  No string
and no comment may hold a control character other than a tab.
-/

namespace CamlIndex.Toml

/-- What reads a value off the front of a text. -/
abbrev Reader (α : Type) := List Char → Option (α × List Char)

/-- A blank inside a line. -/
def isBlank (c : Char) : Bool :=
  c == ' ' || c == '\t'

/-- A character that may stand in a comment or a string. -/
def isText (c : Char) : Bool :=
  c == '\t' || (0x20 ≤ c.toNat && c.toNat != 0x7F)

/-- The text after its blanks. -/
def skipBlanks (cs : List Char) : List Char :=
  cs.dropWhile isBlank

/-- The text after a line break. -/
def lineBreak? : List Char → Option (List Char)
  | '\n' :: cs => some cs
  | '\r' :: '\n' :: cs => some cs
  | _ => none

/-- The text after a comment, if one comes. -/
def skipComment : List Char → List Char
  | '#' :: cs => cs.dropWhile isText
  | cs => cs

/-- The text after the end of a line, before which only blanks and a comment may stand. -/
def endOfLine? (cs : List Char) : Option (List Char) :=
  match skipComment (skipBlanks cs) with
  | [] => some []
  | rest => lineBreak? rest

/-- The text after all blanks, comments and line breaks.  `inComment` tells
whether the text starts inside a comment. -/
def skipLines (inComment : Bool) : List Char → List Char
  | [] => []
  | '\r' :: '\n' :: cs => skipLines false cs
  | c :: cs =>
    if c = '\n' then skipLines false cs
    else if inComment && isText c then skipLines true cs
    else if inComment then c :: cs
    else if isBlank c then skipLines false cs
    else if c = '#' then skipLines true cs
    else c :: cs

/-! ## Strings -/

/-- The number that a hexadecimal digit stands for. -/
def hexValue? (c : Char) : Option Nat :=
  if c.isDigit then some (c.toNat - '0'.toNat)
  else if 'a' ≤ c && c ≤ 'f' then some (c.toNat - 'a'.toNat + 10)
  else if 'A' ≤ c && c ≤ 'F' then some (c.toNat - 'A'.toNat + 10)
  else none

/-- The character with the number that hexadecimal digits give. -/
def characterOfHex? (digits : List Char) : Option Char := do
  let n := (← digits.mapM hexValue?).foldl (fun n d => n * 16 + d) 0
  if n.isValidChar then some (Char.ofNat n) else none

/-- The character that a letter stands for after a backslash. -/
def escaped? : Char → Option Char
  | 'b' => some '\x08'
  | 't' => some '\t'
  | 'n' => some '\n'
  | 'f' => some '\x0c'
  | 'r' => some '\r'
  | '"' => some '"'
  | '\\' => some '\\'
  | _ => none

/-- Reads an escape, without its backslash. -/
def escape : Reader Char
  | 'u' :: a :: b :: c :: d :: cs => (characterOfHex? [a, b, c, d]).map (·, cs)
  | 'U' :: a :: b :: c :: d :: e :: f :: g :: h :: cs =>
    (characterOfHex? [a, b, c, d, e, f, g, h]).map (·, cs)
  | c :: cs => (escaped? c).map (·, cs)
  | [] => none

/-- Adds a character in front of what is read from the rest. -/
def prepend (c : Char) (read : Option (List Char × List Char)) :
    Option (List Char × List Char) :=
  read.map fun (text, rest) => (c :: text, rest)

theorem length_of_escape {cs rest : List Char} {c : Char} (h : escape cs = some (c, rest)) :
    rest.length < cs.length := by
  unfold escape at h
  split at h <;> simp only [Option.map_eq_some_iff, Prod.mk.injEq, reduceCtorEq] at h
  all_goals
    obtain ⟨_, _, _, rfl⟩ := h
    simp only [List.length_cons]
    omega

/-- Reads a string with escapes, without its opening quote. -/
def basicString : Reader (List Char)
  | [] => none
  | '"' :: cs => some ([], cs)
  | '\\' :: cs =>
    match h : escape cs with
    | some (c, rest) =>
      have := length_of_escape h
      prepend c (basicString rest)
    | none => none
  | c :: cs => if isText c then prepend c (basicString cs) else none
termination_by cs => cs.length
decreasing_by all_goals (simp only [List.length_cons]; omega)

/-- Reads a string without escapes, without its opening quote. -/
def literalString : Reader (List Char)
  | [] => none
  | '\'' :: cs => some ([], cs)
  | c :: cs => if isText c then prepend c (literalString cs) else none

/-- Ends a string over several lines at a run of three to five quotes: the last
three close it, the others belong to it. -/
def closing? (quote : Char) (cs : List Char) : Option (List Char × List Char) :=
  let run := cs.takeWhile (· == quote)
  if 3 ≤ run.length then
    let kept := min (run.length - 3) 2
    some (run.take kept, cs.drop (kept + 3))
  else none

/-- Reads a string over several lines without escapes, without its opening quotes. -/
def literalLines : Reader (List Char)
  | [] => none
  | c :: cs =>
    match closing? '\'' (c :: cs) with
    | some closed => some closed
    | none =>
      match c, cs with
      | '\r', '\n' :: cs => prepend '\n' (literalLines cs)
      | c, cs => if c = '\n' || isText c then prepend c (literalLines cs) else none

/-- The text after its blanks and line breaks. -/
def skipBlankLines : List Char → List Char
  | '\r' :: '\n' :: cs => skipBlankLines cs
  | c :: cs => if isBlank c || c == '\n' then skipBlankLines cs else c :: cs
  | [] => []

/-- The text after a backslash that ends its line: the line break and all
blanks and line breaks behind it belong to the escape. -/
def foldedLine? (cs : List Char) : Option (List Char) :=
  (lineBreak? (skipBlanks cs)).map skipBlankLines

theorem length_lineBreak {cs rest : List Char} (h : lineBreak? cs = some rest) :
    rest.length < cs.length := by
  unfold lineBreak? at h
  split at h <;> simp only [Option.some.injEq, reduceCtorEq] at h
  all_goals
    subst h
    simp only [List.length_cons]
    omega

theorem length_skipBlankLines_le (cs : List Char) : (skipBlankLines cs).length ≤ cs.length := by
  fun_induction skipBlankLines cs <;> grind

theorem length_foldedLine {cs rest : List Char} (h : foldedLine? cs = some rest) :
    rest.length < cs.length := by
  simp only [foldedLine?, Option.map_eq_some_iff] at h
  obtain ⟨behind, hbreak, rfl⟩ := h
  have hshort := length_lineBreak hbreak
  have hblank : (skipBlanks cs).length ≤ cs.length := (List.dropWhile_suffix isBlank).length_le
  have := length_skipBlankLines_le behind
  omega

/-- Reads a string over several lines with escapes, without its opening quotes. -/
def basicLines : Reader (List Char)
  | [] => none
  | '\\' :: cs =>
    match hfold : foldedLine? cs with
    | some rest =>
      have := length_foldedLine hfold
      basicLines rest
    | none =>
      match hescape : escape cs with
      | some (c, rest) =>
        have := length_of_escape hescape
        prepend c (basicLines rest)
      | none => none
  | '\r' :: '\n' :: cs => prepend '\n' (basicLines cs)
  | c :: cs =>
    match closing? '"' (c :: cs) with
    | some closed => some closed
    | none => if c = '\n' || isText c then prepend c (basicLines cs) else none
termination_by cs => cs.length
decreasing_by all_goals (simp only [List.length_cons]; omega)

/-- The text after a line break, if one comes. -/
def skipLineBreak (cs : List Char) : List Char :=
  (lineBreak? cs).getD cs

/-- Reads a string of any kind. -/
def string : Reader String := fun cs =>
  let read := match cs with
    | '"' :: '"' :: '"' :: cs => basicLines (skipLineBreak cs)
    | '\'' :: '\'' :: '\'' :: cs => literalLines (skipLineBreak cs)
    | '"' :: cs => basicString cs
    | '\'' :: cs => literalString cs
    | _ => none
  read.map fun (text, rest) => (String.ofList text, rest)

end CamlIndex.Toml
