/-!
# Lines and positions of a source text

Tokens carry byte offsets; tag files want lines.  A `LineTable` is built once
for a text: it holds the offsets at which the lines after the first start and
the text of every line.  `LineTable.position` turns an offset into a line and
a column, both counted from zero, by walking the line starts and stopping at
the last one that the offset has reached.  The first line starts at zero, so
there always is such a line and no subtraction can go below zero.

A line's text has neither its newline nor a carriage return right before the
newline.  The last line, which has no newline, loses a final carriage return
all the same.
-/

namespace CamlIndex

/-- Number of bytes that a run of characters takes in UTF-8. -/
def byteLength : List Char → Nat
  | [] => 0
  | c :: cs => c.utf8Size + byteLength cs

/-- A place in a text: line and column from zero, the column in bytes. -/
structure Position where
  line : Nat
  column : Nat
  deriving DecidableEq, Repr

/-- A position as it is shown to people. -/
def Position.display (p : Position) : String :=
  toString p.line ++ ":" ++ toString p.column

/-- Offsets of the line starts in `cs`, which begins at `offset` inside a line:
one past every newline. -/
def startsAfterNewlines (offset : Nat) : List Char → List Nat
  | [] => []
  | c :: cs =>
    if c = '\n' then (offset + 1) :: startsAfterNewlines (offset + 1) cs
    else startsAfterNewlines (offset + c.utf8Size) cs

/-- The pieces of `cs` between its newlines; there is one more than newlines. -/
def splitAtNewlines : List Char → List (List Char)
  | [] => [[]]
  | c :: cs =>
    if c = '\n' then [] :: splitAtNewlines cs
    else match splitAtNewlines cs with
      | [] => [[c]]
      | line :: lines => (c :: line) :: lines

/-- A line without the carriage return it may end in. -/
def dropCarriageReturn (line : List Char) : List Char :=
  if line.getLast? = some '\r' then line.dropLast else line

/-- The lines of one text: where each after the first starts, and what they hold. -/
structure LineTable where
  laterStarts : List Nat
  texts : List String
  deriving DecidableEq, Repr

namespace LineTable

/-- The lines of `text`. -/
def ofText (text : String) : LineTable where
  laterStarts := startsAfterNewlines 0 text.toList
  texts := (splitAtNewlines text.toList).map fun line => String.ofList (dropCarriageReturn line)

/-- Offsets of all line starts; the first line starts at zero. -/
def starts (table : LineTable) : List Nat :=
  0 :: table.laterStarts

/-- Number of lines; a text always has a first one. -/
def lineCount (table : LineTable) : Nat :=
  table.starts.length

/-- Offset at which a line starts, if there is such a line. -/
def lineStart? (table : LineTable) (line : Nat) : Option Nat :=
  table.starts[line]?

/-- Text of a line without its terminator, if there is such a line. -/
def lineText? (table : LineTable) (line : Nat) : Option String :=
  table.texts[line]?

/-- The position of `offset`, which has reached line `line` with start `start`,
when `later` are the starts of the lines that follow. -/
def locate (offset line start : Nat) : List Nat → Position
  | [] => ⟨line, offset - start⟩
  | next :: later =>
    if next ≤ offset then locate offset (line + 1) next later else ⟨line, offset - start⟩

/-- Line and column of a byte offset.  Offsets past the end lie on the last line. -/
def position (table : LineTable) (offset : Nat) : Position :=
  locate offset 0 0 table.laterStarts

end LineTable

end CamlIndex
