import CamlIndex.Toml.Value

/-!
# Tables under construction

A table of TOML may be written in several places: by a header, by dotted keys,
or only in passing as the parent of another table.  While a document is read,
every table therefore knows how it came about, and an entry that was closed is
not opened again:

* a table with a header or between braces cannot be extended by dotted keys;
* a table that dotted keys have made cannot be given a header;
* no key is set twice.
-/

namespace CamlIndex.Toml

/-- An entry of a table under construction. -/
inductive Entry where
  /-- A finished value. -/
  | value (v : Value)
  /-- A table: `implicit` if it was only made in passing, `dotted` if by dotted keys. -/
  | table (implicit dotted : Bool) (fields : List (String × Entry))
  /-- Tables that share a header, the latest first. -/
  | tables (elements : List (List (String × Entry)))

/-- The entries of a table under construction. -/
abbrev Fields := List (String × Entry)

/-- Sets the entry of a key, in its place if it has one. -/
def setField {α : Type} (key : String) (value : α) : List (String × α) → List (String × α)
  | [] => [(key, value)]
  | (k, v) :: fields => if k = key then (k, value) :: fields else (k, v) :: setField key value fields

/-- Changes the table at the end of a path.  Missing tables are made on the way,
`dotted` or not; where a header has made several tables the path leads through
the latest.  `change` learns whether dotted keys have made the table it gets. -/
def Fields.modify (dotted : Bool) (change : Bool → Fields → Option Fields) :
    (made : Bool) → (path : List String) → Fields → Option Fields
  | made, [], fields => change made fields
  | _, key :: path, fields =>
    match fields.lookup key with
    | none => do
      let inner ← Fields.modify dotted change dotted path []
      some (setField key (.table true dotted inner) fields)
    | some (.table implicit made inner) =>
      if dotted && !implicit then none
      else do
        let inner ← Fields.modify dotted change made path inner
        some (setField key (.table implicit made inner) fields)
    | some (.tables (latest :: earlier)) => do
      let latest ← Fields.modify dotted change false path latest
      some (setField key (.tables (latest :: earlier)) fields)
    | some (.tables []) | some (.value _) => none

/-- A new entry; a key that is taken is an error. -/
def Fields.add (key : String) (entry : Entry) (fields : Fields) : Option Fields :=
  if (fields.lookup key).isSome then none else some (fields ++ [(key, entry)])

/-- Sets a value under a dotted key.  Dotted keys extend only tables that
dotted keys have made, and a plain key only others. -/
def Fields.assign (path : List String) (key : String) (v : Value) (fields : Fields) :
    Option Fields :=
  Fields.modify true (fun made inner => if made = path.isEmpty then none else inner.add key (.value v))
    false path fields

/-- Opens the table with a given header. -/
def Fields.openTable (path : List String) (key : String) (fields : Fields) : Option Fields :=
  Fields.modify false (fun _ inner =>
    match inner.lookup key with
    | none => some (inner ++ [(key, .table false false [])])
    | some (.table true false found) => some (setField key (.table false false found) inner)
    | some _ => none) false path fields

/-- Adds one more table with a given header. -/
def Fields.appendTable (path : List String) (key : String) (fields : Fields) : Option Fields :=
  Fields.modify false (fun _ inner =>
    match inner.lookup key with
    | none => some (inner ++ [(key, .tables [[]])])
    | some (.tables elements) => some (setField key (.tables ([] :: elements)) inner)
    | some _ => none) false path fields

mutual

/-- A finished entry. -/
def Entry.toValue : Entry → Value
  | .value v => v
  | .table _ _ fields => .table (fieldValues fields)
  | .tables elements => .list (tableValues elements).reverse

/-- The fields of a finished table. -/
def fieldValues : List (String × Entry) → List (String × Value)
  | [] => []
  | (key, entry) :: fields => (key, entry.toValue) :: fieldValues fields

/-- Finished tables that share a header. -/
def tableValues : List (List (String × Entry)) → List Value
  | [] => []
  | fields :: elements => .table (fieldValues fields) :: tableValues elements

end

end CamlIndex.Toml
