import CamlIndex.Datum.Json
import CamlIndex.Datum.Yaml
import CamlIndex.Diagnostic
import CamlIndex.Listing.Entry
import CamlIndex.Token.Lexer

/-!
# Records

Tags, diagnostics and tokens as structured data, and the listings that are made
of such records.
-/

namespace CamlIndex

/-- A scope as a record. -/
def Scope.toDatum (scope : Scope) : Datum :=
  .record [("kind", .text scope.kind.name), ("name", .text scope.name)]

/-- The fields of a tag's record; the scope is left out where there is none. -/
def Tag.fields (tag : Tag) : List (String × Datum) :=
  [("name", .text tag.name), ("kind", .text tag.kind.name), ("line", .number tag.line),
    ("column", .number tag.column), ("byte_offset", .number tag.offset)]
    ++ (tag.scope.map fun scope => ("scope", scope.toDatum)).toList

/-- A tag as a record. -/
def Tag.toDatum (tag : Tag) : Datum :=
  .record tag.fields

/-- An entry as a record: its path and the fields of its tag. -/
def Entry.toDatum (entry : Entry) : Datum :=
  .record (("file", .text entry.path) :: entry.tag.fields)

/-- A diagnostic as a record; the code is left out where there is none. -/
def Diagnostic.toDatum (diagnostic : Diagnostic) : Datum :=
  .record ([("severity", .text diagnostic.severity.name), ("message", .text diagnostic.message)]
    ++ (diagnostic.code.map fun code => ("code", Datum.text code)).toList
    ++ [("line", .number diagnostic.line)])

/-- A token as a record. -/
def Token.toDatum (token : Token) : Datum :=
  .record [("kind", .text token.kind.name), ("text", .text token.text),
    ("span", .record [("start", .number token.start), ("end", .number token.stop)])]

namespace Listing

/-- All entries as a list of records. -/
def tagRecords (options : ListingOptions) (files : List TaggedFile) : Datum :=
  .list ((entries files options.sort).map Entry.toDatum)

/-- The tokens of every file, which shows how it was read. -/
def tokenRecords (files : List TaggedFile) : Datum :=
  .list <| files.map fun file =>
    .record [("file", .text file.path), ("tokens", .list ((tokenize file.source).map Token.toDatum))]

end Listing

end CamlIndex
