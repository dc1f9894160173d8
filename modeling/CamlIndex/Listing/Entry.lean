import CamlIndex.Source
import CamlIndex.Tag

/-!
# Entries of a listing

A listing is made from tagged files.  Each tag becomes an entry: the tag, the
path of its file and the text of its line.  Sorted entries are ordered by name,
then path, then line, texts by their code points; entries that agree in all
three keep the order in which they were found.
-/

namespace CamlIndex

/-- The tags of a file, with the text they were taken from. -/
structure TaggedFile where
  path : String
  source : String
  tags : List Tag
  deriving DecidableEq, Repr

/-- How a listing is written. -/
structure ListingOptions where
  /-- Whether entries are sorted, or else listed as they were found. -/
  sort : Bool := true
  /-- Whether a format starts with its preamble, if it has one. -/
  header : Bool := true
  deriving DecidableEq, Repr

/-- A tag that is ready to be written. -/
structure Entry where
  path : String
  tag : Tag
  lineText : String
  deriving DecidableEq, Repr

namespace Entry

/-- How two entries compare in a sorted listing. -/
def order (a b : Entry) : Ordering :=
  (compare a.tag.name b.tag.name).then
    ((compare a.path b.path).then (compare a.tag.line b.tag.line))

/-- Whether an entry may stand before another one in a sorted listing. -/
def le (a b : Entry) : Bool :=
  (a.order b).isLE

end Entry

namespace TaggedFile

/-- The entries of one file.  A tag on a line that the file does not have gets
an empty line text. -/
def entries (file : TaggedFile) : List Entry :=
  let lines := LineTable.ofText file.source
  file.tags.map fun tag => ⟨file.path, tag, (lines.lineText? (tag.line - 1)).getD ""⟩

end TaggedFile

/-- The entries of all files, sorted if wanted. -/
def entries (files : List TaggedFile) (sort : Bool) : List Entry :=
  let found := files.flatMap TaggedFile.entries
  if sort then found.mergeSort Entry.le else found

end CamlIndex
