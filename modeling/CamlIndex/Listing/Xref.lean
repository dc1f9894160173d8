import CamlIndex.Listing.Entry
import CamlIndex.Text.Columns
import CamlIndex.Text.WhiteSpace

/-!
# Cross references for people

One line for each entry, in columns: qualified name, kind, line number, path and
the text of the line.  A column that is too narrow for its content moves the
rest of the line to the right; nothing is cut.
-/

namespace CamlIndex.Xref

/-- The line of an entry, without its newline. -/
def line (entry : Entry) : String :=
  String.ofList <| trimEnd <|
    padRight 16 entry.tag.qualifiedName.toList ++ ' '
      :: padRight 12 entry.tag.kind.name.toList ++ ' '
      :: padLeft 4 (Nat.toDigits 10 entry.tag.line) ++ ' '
      :: padRight 16 entry.path.toList ++ ' '
      :: trim entry.lineText.toList

/-- A cross reference of all files. -/
def write (options : ListingOptions) (files : List TaggedFile) : String :=
  String.join ((entries files options.sort).map fun entry => line entry ++ "\n")

end CamlIndex.Xref
