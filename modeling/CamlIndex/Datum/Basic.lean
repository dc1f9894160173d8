/-!
# Data

What is written to structured listings: numbers, texts, lists and records.  The
fields of a record keep their order.  `Datum.toJson` and `Datum.toYaml` are its
two written forms.
-/

namespace CamlIndex

/-- A piece of structured data. -/
inductive Datum where
  | number (n : Nat)
  | text (s : String)
  | list (items : List Datum)
  | record (fields : List (String × Datum))
  deriving Repr

/-- `count` spaces. -/
def spaces (count : Nat) : List Char :=
  List.replicate count ' '

end CamlIndex
