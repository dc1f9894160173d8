import CamlIndex.Listing.Ctags
import CamlIndex.Listing.Record
import CamlIndex.Listing.Xref

/-!
# Formats of listings

Five formats, each with a name under which a catalogue offers it.  A catalogue
holds each format at most once; `Catalogue.builtIn` holds all of them.
-/

namespace CamlIndex

/-- A way to write a listing. -/
inductive Format where
  | ctags | xref | json | yaml | tokens
  deriving DecidableEq, Repr

namespace Format

/-- All formats, in the order of their names. -/
def all : List Format :=
  [.ctags, .json, .tokens, .xref, .yaml]

/-- The name of a format. -/
def name : Format → String
  | .ctags => "ctags"
  | .xref => "xref"
  | .json => "json"
  | .yaml => "yaml"
  | .tokens => "tokens"

/-- What a format is for, in words. -/
def description : Format → String
  | .ctags => "Extended tags file for editors (vi, emacs with etags-select)"
  | .xref => "Human readable cross reference"
  | .json => "Tag records as a JSON array"
  | .yaml => "Tag records as a YAML list"
  | .tokens => "Token stream of each file as JSON"

/-- The format with a given name. -/
def ofName? (name : String) : Option Format :=
  all.find? fun format => format.name = name

/-- The listing of files in a format. -/
def write (format : Format) (options : ListingOptions) (files : List TaggedFile) : String :=
  match format with
  | .ctags => Ctags.write options files
  | .xref => Xref.write options files
  | .json => (Listing.tagRecords options files).toJson
  | .yaml => (Listing.tagRecords options files).toYaml
  | .tokens => (Listing.tokenRecords files).toJson

end Format

/-- A name that no format of a catalogue has. -/
structure UnknownFormat where
  name : String
  deriving DecidableEq, Repr

/-- The error in words. -/
def UnknownFormat.message (error : UnknownFormat) : String :=
  "Format '" ++ error.name ++ "' not found"

/-- The formats that can be asked for by name. -/
structure Catalogue where
  formats : List Format
  deriving DecidableEq, Repr

namespace Catalogue

/-- The catalogue without formats. -/
def empty : Catalogue :=
  ⟨[]⟩

/-- The catalogue of all formats. -/
def builtIn : Catalogue :=
  ⟨Format.all⟩

/-- The catalogue with one more format. -/
def add (catalogue : Catalogue) (format : Format) : Catalogue :=
  if format ∈ catalogue.formats then catalogue else ⟨format :: catalogue.formats⟩

/-- The format with a given name. -/
def find? (catalogue : Catalogue) (name : String) : Option Format :=
  catalogue.formats.find? fun format => format.name = name

/-- The names of all formats in the catalogue, sorted. -/
def names (catalogue : Catalogue) : List String :=
  (Format.all.filter fun format => format ∈ catalogue.formats).map Format.name

/-- The listing of files in the format with a given name. -/
def write (catalogue : Catalogue) (name : String) (options : ListingOptions)
    (files : List TaggedFile) : Except UnknownFormat String :=
  match catalogue.find? name with
  | some format => .ok (format.write options files)
  | none => .error ⟨name⟩

end Catalogue

end CamlIndex
