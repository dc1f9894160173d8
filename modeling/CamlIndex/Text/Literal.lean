import CamlIndex.Text.Combining
import CamlIndex.Text.Ignorable
import CamlIndex.Text.Unseen

/-!
# Texts as literals

A text between quotes in which every character can be seen: quotes, backslashes
and line breaks are escaped, and so is whatever has no shape of its own, by its
number.  `isShown` says which characters have one: those with a picture that
neither join the character before nor may be left out.
-/

namespace CamlIndex

/-- Whether a character can be seen as it is. -/
def isShown (c : Char) : Bool :=
  !(inRanges unseenRanges c.toNat || inRanges combiningRanges c.toNat
    || inRanges ignorableRanges c.toNat)

/-- A character of a literal. -/
def literalCharacter (c : Char) : List Char :=
  match c with
  | '\x00' => ['\\', '0']
  | '\t' => ['\\', 't']
  | '\n' => ['\\', 'n']
  | '\r' => ['\\', 'r']
  | '"' => ['\\', '"']
  | '\\' => ['\\', '\\']
  | c =>
    if isShown c then [c]
    else ['\\', 'u', '{'] ++ Nat.toDigits 16 c.toNat ++ ['}']

/-- A text as a literal. -/
def literalText (s : String) : String :=
  String.ofList ('"' :: s.toList.flatMap literalCharacter ++ ['"'])

end CamlIndex
