import CamlIndex.Listing.Format
import CamlIndex.Proofs.Json.RoundTrip
import Mathlib.Data.List.Forall2

/-!
# Listings in JSON

A listing in JSON loses nothing of what it lists: who reads it finds an array with one
object for each entry, in the order of the entries, and the object has the path of the
entry and everything that its tag says.  The text of the line is no part of a record.

* `json_tagRecords` — what there is to read, spelled out;
* `json_lossless` — listings are read back, and tell entries apart.
-/

namespace CamlIndex

/-- A scope as it is read back. -/
def Scope.json (scope : Scope) : Json :=
  .object [("kind", .text scope.kind.name), ("name", .text scope.name)]

/-- An entry as it is read back: the scope is there if the tag has one. -/
def Entry.json (entry : Entry) : Json :=
  .object ([("file", .text entry.path), ("name", .text entry.tag.name),
    ("kind", .text entry.tag.kind.name), ("line", .number entry.tag.line),
    ("column", .number entry.tag.column), ("byte_offset", .number entry.tag.offset)]
    ++ (entry.tag.scope.map fun scope => ("scope", scope.json)).toList)

theorem Entry.json_toDatum (entry : Entry) : entry.toDatum.json = entry.json := by
  rcases entry with ⟨path, ⟨name, kind, line, column, offset, scope⟩, lineText⟩
  cases scope <;> rfl

/-- What there is to read in a listing. -/
theorem json_tagRecords (options : ListingOptions) (files : List TaggedFile) :
    (Listing.tagRecords options files).json =
      .array ((entries files options.sort).map Entry.json) := by
  rw [Listing.tagRecords, Datum.json, Datum.jsonItems_eq, List.map_map]
  congr 2
  funext entry
  exact entry.json_toDatum

/-! ## Telling entries apart -/

theorem Kind.name_inj {a b : Kind} : a.name = b.name ↔ a = b := by
  cases a <;> cases b <;> decide

/-- The record of a scope tells the scope. -/
theorem Scope.json_inj {a b : Scope} : a.json = b.json ↔ a = b := by
  cases a
  cases b
  simp [Scope.json, Kind.name_inj]

/-- What a record tells of an entry: its path and its tag, not the text of its line. -/
def Entry.recorded (entry : Entry) : String × Tag :=
  (entry.path, entry.tag)

/-- **Records are the same for the same path and tag**, and for no others. -/
theorem Entry.json_eq_iff {a b : Entry} : a.json = b.json ↔ a.recorded = b.recorded := by
  obtain ⟨path, ⟨name, kind, line, column, offset, scope⟩, _⟩ := a
  obtain ⟨path', ⟨name', kind', line', column', offset', scope'⟩, _⟩ := b
  have hscopes : (scope.map fun scope => ("scope", scope.json)).toList =
      (scope'.map fun scope => ("scope", scope.json)).toList ↔ scope = scope' := by
    cases scope <;> cases scope' <;> simp [Scope.json_inj]
  simp [Entry.json, Entry.recorded, hscopes, Kind.name_inj]

/-- Entries with the same path and tag are written alike. -/
theorem Entry.toDatum_eq_of_recorded {a b : Entry} (h : a.recorded = b.recorded) :
    a.toDatum = b.toDatum := by
  obtain ⟨hpath, htag⟩ := Prod.mk.inj h
  rw [Entry.toDatum, Entry.toDatum, hpath, htag]

/-- Lists that agree in one respect agree in every respect that follows from it. -/
theorem map_eq_map_of_imp {α β γ : Type} {f : α → β} {g : α → γ} {xs ys : List α}
    (himp : ∀ a b, f a = f b → g a = g b) (h : xs.map f = ys.map f) : xs.map g = ys.map g := by
  rw [← List.forall₂_eq_eq_eq, List.forall₂_map_left_iff, List.forall₂_map_right_iff] at h ⊢
  exact h.imp himp

/-- **Listings in JSON lose nothing.**  A listing is a text of JSON, and who reads it
gets an array of the records of all entries, in their order.  So listings are the same
text exactly if they list the same tags of the same files, in the same order. -/
theorem json_lossless (options : ListingOptions) (files : List TaggedFile) :
    Json.parse? (Format.json.write options files) =
        some (.array ((entries files options.sort).map Entry.json)) ∧
      ∀ (others : ListingOptions) (more : List TaggedFile),
        Format.json.write options files = Format.json.write others more ↔
          (entries files options.sort).map Entry.recorded =
            (entries more others.sort).map Entry.recorded := by
  have hread : ∀ (options : ListingOptions) (files : List TaggedFile),
      Json.parse? (Format.json.write options files) =
        some (.array ((entries files options.sort).map Entry.json)) := by
    intro options files
    rw [Format.write, parse?_toJson, json_tagRecords]
  refine ⟨hread options files, fun others more => ?_⟩
  constructor
  · intro heq
    have hrecords := (hread options files).symm.trans
      ((congrArg Json.parse? heq).trans (hread others more))
    rw [Option.some.injEq, Json.array.injEq] at hrecords
    exact map_eq_map_of_imp (fun _ _ => Entry.json_eq_iff.mp) hrecords
  · intro hsame
    rw [Format.write, Format.write, Listing.tagRecords, Listing.tagRecords,
      map_eq_map_of_imp (fun _ _ => Entry.toDatum_eq_of_recorded) hsame]

end CamlIndex
