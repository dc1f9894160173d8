import CamlIndex.Settings.Path
import CamlIndex.Toml.Document

/-!
# Layers of settings

Settings are put together in layers.  At the bottom lie the defaults, which
hold every key.  Files come next, in their order, and single keys that are set
on top of all files.  Tables are merged key by key; any other value replaces
what lies below it.  Keys are not told apart by case, and keys that no setting
has are ignored.
-/

namespace CamlIndex.Settings

open Toml (Value setField)

/-- What is laid over the settings below. -/
inductive Layer where
  /-- The text of a file that has to be there, if it could be read. -/
  | file (text : Option String)
  /-- The text of a file that may be missing. -/
  | optionalFile (text : Option String)
  /-- A key with its value. -/
  | assign (key : String) (value : Value)
  /-- The letters of the kinds that are wanted; all others are not. -/
  | kinds (letters : String)

/-- The defaults: everything is extracted but local bindings, and the listing is
a sorted tag file with its header. -/
def defaults : Value :=
  .table [
    ("extraction", .table [("export_local_info", .boolean false),
      ("max_scope_depth", .integer ScopeStack.defaultCapacity), ("file_module", .boolean true)]),
    ("kinds", .table (Kind.all.map fun kind => (kind.settingsKey, .boolean true))),
    ("output", .table [("format", .text Format.ctags.name), ("sort", .boolean true),
      ("header", .boolean true)])]

/-! ## Merging -/

/-- The fields of a value; a value that is no table has none. -/
def fieldsOf : Value → List (String × Value)
  | .table fields => fields
  | _ => []

mutual

/-- Lays a value over a key of a table.  A table is merged into what the key
holds, anything else replaces it. -/
def merge (root : Value) (key : String) : Value → Value
  | .table fields =>
    let below := ((fieldsOf root).lookup key).getD (.table [])
    .table (setField key (mergeAll below fields) (fieldsOf root))
  | value => .table (setField key value (fieldsOf root))

/-- Lays the fields of a table over a value, one after the other. -/
def mergeAll (below : Value) : List (String × Value) → Value
  | [] => below
  | (key, value) :: fields => mergeAll (merge below (lowerCase key) value) fields

end

/-- The items of a value; a value that is no list has none. -/
def itemsOf : Value → List Value
  | .list items => items
  | _ => []

/-- Lays a value over the place that a path leads to.  A table is merged into a
field, but stored as it is in a list.  On the way, what is no table gives way to
a table and what is no list to a list, and a list that is too short is filled up
with empty lists. -/
def mergeAt (root : Value) (path : Path) (value : Value) : Value :=
  match path with
  | [] => value
  | [.field key] => merge root key value
  | .field key :: path =>
    let below := ((fieldsOf root).lookup key).getD (.table [])
    .table (setField key (mergeAt below path value) (fieldsOf root))
  | .place index :: path =>
    let items := itemsOf root
    let place := placeOf index items.length
    let filled := items ++ List.replicate (place + 1 - items.length) (.list [])
    .list (filled.set place (mergeAt (filled.getD place (.list [])) path value))

/-! ## Building -/

/-- Lays the fields of a file over what is below.  A key of the file is a path if
it can be read as one, and otherwise a name. -/
def mergeFile (root : Value) (fields : List (String × Value)) : Value :=
  fields.foldl (fun root (key, value) =>
    mergeAt root ((path? key).getD [.field (lowerCase key)]) value) root

/-- The keys that a layer sets on top of all files. -/
def Layer.assignments : Layer → Except Error (List (Path × Value))
  | .assign key value =>
    match path? key with
    | some path => .ok [(path, value)]
    | none => .error .badKey
  | .kinds letters =>
    match KindSet.ofLetters letters.toList with
    | .ok wanted => .ok <| Kind.all.map fun kind =>
        ([.field "kinds", .field kind.settingsKey], .boolean (wanted.contains kind))
    | .error letter => .error (.unknownKind letter)
  | .file _ | .optionalFile _ => .ok []

/-- Lays the file of a layer over what is below. -/
def Layer.mergeFile (root : Value) : Layer → Except Error Value
  | .file none => .error .unreadable
  | .file (some text) | .optionalFile (some text) =>
    match Toml.parse? text with
    | some fields => .ok (Settings.mergeFile root fields)
    | none => .error .malformed
  | .optionalFile none | .assign _ _ | .kinds _ => .ok root

/-- The settings that layers give.  A key that cannot be set is found before any
file is read. -/
def ofLayers (layers : List Layer) : Except Error Settings := do
  let assignments ← layers.mapM Layer.assignments
  let merged ← layers.foldlM Layer.mergeFile defaults
  let root := assignments.flatten.foldl (fun root (path, value) => mergeAt root path value) merged
  ofFields (fieldsOf root)

end CamlIndex.Settings
