import CamlIndex.Listing.Entry

/-!
# Tag files for editors

One line for each entry, its fields separated by tabs: the name, the path, a
search pattern for the whole line, the letter of the kind, the line number and
the scope if there is one.

The pattern stands between `/^` and `$/`.  A backslash makes the next character
stand for itself, so backslashes and slashes of the line get one, and so does a
dollar sign at its end, which would read as the mark for the end of the line.
-/

namespace CamlIndex.Ctags

/-- The program that tag files name as their maker. -/
def programName : String := "camltags"

/-- The version of that program. -/
def programVersion : String := "0.1.0"

/-- A character of a search pattern. -/
def escapeCharacter (c : Char) : List Char :=
  if c = '\\' ∨ c = '/' then ['\\', c] else [c]

/-- The search pattern for a line. -/
def escapePattern (line : List Char) : List Char :=
  let escaped := line.flatMap escapeCharacter
  if escaped.getLast? = some '$' then escaped.dropLast ++ ['\\', '$'] else escaped

/-- The line of an entry, without its newline. -/
def line (entry : Entry) : String :=
  entry.tag.name ++ "\t" ++ entry.path
    ++ "\t/^" ++ String.ofList (escapePattern entry.lineText.toList) ++ "$/;\"\t"
    ++ String.singleton entry.tag.kind.letter ++ "\tline:" ++ toString entry.tag.line
    ++ match entry.tag.scope with
      | some scope => "\t" ++ scope.kind.name ++ ":" ++ scope.name
      | none => ""

/-- The lines that say how the file is to be read. -/
def header (sorted : Bool) : List String :=
  ["!_TAG_FILE_FORMAT\t2\t/extended format; --format=1 will not append ;\" to lines/",
   "!_TAG_FILE_SORTED\t" ++ (if sorted then "1" else "0") ++ "\t/0=unsorted, 1=sorted, 2=foldcase/",
   "!_TAG_PROGRAM_NAME\t" ++ programName ++ "\t//",
   "!_TAG_PROGRAM_VERSION\t" ++ programVersion ++ "\t//"]

/-- A tag file. -/
def write (options : ListingOptions) (files : List TaggedFile) : String :=
  let preamble := if options.header then header options.sort else []
  String.join ((preamble ++ (entries files options.sort).map line).map (· ++ "\n"))

end CamlIndex.Ctags
