/-!
# Columns

Texts filled up with spaces to a width, which counts characters.  A text that is
wider stays as it is.
-/

namespace CamlIndex

/-- A text with spaces after it up to a width. -/
def padRight (width : Nat) (cs : List Char) : List Char :=
  cs ++ List.replicate (width - cs.length) ' '

/-- A text with spaces before it up to a width. -/
def padLeft (width : Nat) (cs : List Char) : List Char :=
  List.replicate (width - cs.length) ' ' ++ cs

end CamlIndex
