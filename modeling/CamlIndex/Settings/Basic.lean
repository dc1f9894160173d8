import CamlIndex.Extraction
import CamlIndex.Listing.Format

/-!
# Settings

What a user can choose: what is extracted, and how the listing is written.
-/

namespace CamlIndex

/-- The choices for a run of the program. -/
structure Settings where
  /-- Whether parameters and local bindings are wanted. -/
  localBindings : Bool
  /-- How many frames the stack of scopes may hold. -/
  maxDepth : Nat
  /-- Whether each file gets a tag for the module it defines. -/
  fileModule : Bool
  kinds : KindSet
  format : Format
  sort : Bool
  header : Bool

namespace Settings

/-- The file with the settings of a project, in its directory. -/
def projectFile : String := "camltags.toml"

/-- What to extract from a text.  The name of a file's module differs from file
to file and is left open. -/
def options (settings : Settings) : Options :=
  ⟨settings.kinds, settings.localBindings, settings.maxDepth, none⟩

/-- How the listing is written. -/
def listing (settings : Settings) : ListingOptions :=
  ⟨settings.sort, settings.header⟩

end Settings

/-- The key of a kind's switch in the section for kinds. -/
def Kind.settingsKey : Kind → String
  | .classDef => "class"
  | .methodDef => "method"
  | .moduleDef => "module"
  | .variableDef => "variable"
  | .valSpec => "value_signature"
  | .typeDef => "type"
  | .functionDef => "function"
  | .constructorDef => "constructor"
  | .fieldDef => "record_field"
  | .exceptionDef => "exception"

end CamlIndex
