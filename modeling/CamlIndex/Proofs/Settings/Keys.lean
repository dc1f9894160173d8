import CamlIndex.Settings.Layer

/-!
# Keys of settings

Every setting has a key, which is the name of a field in one of three sections.  While
layers are put together, what there is for a key is a value in a table in a table
(`valueAt`), and in the end the value is read as the setting (`Key.Holds`).

Whatever a file says is said to keys, one after the other: a section of a file is the
assignments of its fields (`assignmentsOf`).  So laying a file over what is below and
setting single keys on top are the same thing, and one lemma is behind both: an assignment
changes its own key and no other.

* `valueAt_mergeAt` — what one assignment does;
* `valueAt_assignAll`, `valueAt_mergeFile` — of many assignments the last one to a key counts;
* `holds_of_ofFields` — what a table has for a key is what the setting is read from.
-/

namespace CamlIndex.Settings

open Toml (Value setField)

/-- The settings that have a key. -/
inductive Key where
  | localBindings | maxDepth | fileModule
  /-- The switch of a kind. -/
  | kind (kind : Kind)
  | format | sort | header
  deriving DecidableEq, Repr

namespace Key

/-- The section that a key stands in. -/
def sectionName : Key → String
  | .localBindings | .maxDepth | .fileModule => "extraction"
  | .kind _ => "kinds"
  | .format | .sort | .header => "output"

/-- The name of a key in its section. -/
def name : Key → String
  | .localBindings => "export_local_info"
  | .maxDepth => "max_scope_depth"
  | .fileModule => "file_module"
  | .kind owner => owner.settingsKey
  | .format => "format"
  | .sort => "sort"
  | .header => "header"

/-- The path of a key. -/
def path (key : Key) : Path :=
  [.field key.sectionName, .field key.name]

/-- The value that lies below all layers. -/
def default : Key → Value
  | .localBindings => .boolean false
  | .maxDepth => .integer ScopeStack.defaultCapacity
  | .format => .text Format.ctags.name
  | .fileModule | .kind _ | .sort | .header => .boolean true

/-- The setting of a key is what a value says. -/
def Holds (settings : Settings) (value : Value) : Key → Prop
  | .localBindings => switchOf value = .ok settings.localBindings
  | .maxDepth => depthOf value = .ok settings.maxDepth
  | .fileModule => switchOf value = .ok settings.fileModule
  | .kind owner => switchOf value = .ok (settings.kinds.contains owner)
  | .format => formatOf value = .ok settings.format
  | .sort => switchOf value = .ok settings.sort
  | .header => switchOf value = .ok settings.header

theorem settingsKey_inj {a b : Kind} : a.settingsKey = b.settingsKey ↔ a = b := by
  cases a <;> cases b <;> decide

/-- Keys are told apart by section and name. -/
theorem eq_iff {a b : Key} : a = b ↔ a.sectionName = b.sectionName ∧ a.name = b.name := by
  cases a <;> cases b <;> simp [sectionName, name, settingsKey_inj]

theorem path_inj {a b : Key} : a.path = b.path ↔ a = b := by
  simp [path, eq_iff]

end Key

/-! ## Tables -/

theorem lookup_cons_eq_ite {α β : Type} [DecidableEq α] [BEq α] [LawfulBEq α]
    (key other : α) (value : β) (entries : List (α × β)) :
    ((key, value) :: entries).lookup other =
      if other = key then some value else entries.lookup other := by
  rw [List.lookup_cons]
  by_cases h : other = key
  · simp [h]
  · simp [h, beq_eq_false_iff_ne.mpr h]

/-- A field that is set is changed, and no other. -/
theorem lookup_setField {α : Type} (key other : String) (value : α) (fields : List (String × α)) :
    (setField key value fields).lookup other =
      if other = key then some value else fields.lookup other := by
  induction fields with
  | nil => rw [setField, lookup_cons_eq_ite]
  | cons field fields ih =>
      obtain ⟨k, v⟩ := field
      by_cases hk : k = key
      · subst hk
        rw [setField, if_pos rfl, lookup_cons_eq_ite, lookup_cons_eq_ite]
        split <;> rfl
      · rw [setField, if_neg hk, lookup_cons_eq_ite, lookup_cons_eq_ite, ih]
        by_cases h : other = k
        · rw [if_pos h, if_pos h, if_neg (h ▸ hk)]
        · rw [if_neg h, if_neg h]

/-- Of two values for a field the second counts. -/
theorem setField_setField {α : Type} (key : String) (first second : α)
    (fields : List (String × α)) :
    setField key second (setField key first fields) = setField key second fields := by
  induction fields with
  | nil => simp [setField]
  | cons field fields ih =>
      obtain ⟨k, v⟩ := field
      by_cases hk : k = key <;> simp [setField, hk, ih]

/-- A value that is no table. -/
def isPlain : Value → Bool
  | .table _ => false
  | _ => true

theorem merge_of_isPlain {value : Value} (hplain : isPlain value = true) (root : Value)
    (key : String) : merge root key value = .table (setField key value (fieldsOf root)) := by
  cases value with
  | table fields => cases hplain
  | _ => simp [merge]

/-- The section of a table; what is not there has no fields. -/
def sectionOf (root : Value) (name : String) : Value :=
  ((fieldsOf root).lookup name).getD (.table [])

/-- What a table of settings has for a key. -/
def valueAt (root : Value) (key : Key) : Option Value :=
  (fieldsOf (sectionOf root key.sectionName)).lookup key.name

theorem sectionOf_setField (root found : Value) (name other : String) :
    sectionOf (.table (setField name found (fieldsOf root))) other =
      if other = name then found else sectionOf root other := by
  rw [sectionOf, sectionOf, fieldsOf, lookup_setField]
  split <;> rfl

theorem mergeAt_path (root : Value) (outer name : String) (value : Value) :
    mergeAt root [.field outer, .field name] value =
      .table (setField outer (merge (sectionOf root outer) name value) (fieldsOf root)) := by
  simp [mergeAt, sectionOf]

/-- **An assignment changes its own key and no other.** -/
theorem valueAt_mergeAt (root : Value) (key other : Key) {value : Value}
    (hplain : isPlain value = true) :
    valueAt (mergeAt root key.path value) other =
      if other = key then some value else valueAt root other := by
  rw [Key.path, mergeAt_path, merge_of_isPlain hplain, valueAt, sectionOf_setField]
  by_cases hsection : other.sectionName = key.sectionName
  · rw [if_pos hsection, fieldsOf, lookup_setField, valueAt, hsection]
    simp [Key.eq_iff, hsection]
  · rw [if_neg hsection, if_neg fun h => hsection (congrArg Key.sectionName h), valueAt]

/-! ## Assignments -/

/-- An assignment of a value that is no table to a key. -/
def AssignsKey (assignment : Path × Value) : Prop :=
  (∃ key : Key, assignment.1 = key.path) ∧ isPlain assignment.2 = true

/-- The value of the last assignment to a key, if there is one. -/
def lastValue? (assignments : List (Path × Value)) (key : Key) : Option Value :=
  assignments.reverse.lookup key.path

/-- Sets values for paths, one after the other. -/
def assignAll (root : Value) (assignments : List (Path × Value)) : Value :=
  assignments.foldl (fun root (path, value) => mergeAt root path value) root

theorem lastValue?_append (first second : List (Path × Value)) (key : Key) :
    lastValue? (first ++ second) key = (lastValue? second key).or (lastValue? first key) := by
  rw [lastValue?, List.reverse_append, List.lookup_append, lastValue?, lastValue?]

theorem lastValue?_singleton (path : Path) (value : Value) (key : Key) :
    lastValue? [(path, value)] key = if key.path = path then some value else none := by
  rw [lastValue?, List.reverse_singleton, lookup_cons_eq_ite, List.lookup_nil]

/-- **Of many assignments the last one to a key counts**, and a key that is not among
them keeps its value. -/
theorem valueAt_assignAll {assignments : List (Path × Value)}
    (hkeys : ∀ assignment ∈ assignments, AssignsKey assignment) (root : Value) (key : Key) :
    valueAt (assignAll root assignments) key =
      (lastValue? assignments key).or (valueAt root key) := by
  induction assignments generalizing root with
  | nil => rfl
  | cons assignment assignments ih =>
      obtain ⟨path, value⟩ := assignment
      obtain ⟨⟨own, hpath⟩, hplain⟩ := hkeys _ List.mem_cons_self
      subst hpath
      rw [← List.singleton_append, lastValue?_append, lastValue?_singleton, Option.or_assoc]
      refine (ih (fun _ h => hkeys _ (List.mem_cons_of_mem _ h)) _).trans ?_
      congr 1
      rw [valueAt_mergeAt _ _ _ hplain]
      simp only [Key.path_inj]
      split <;> rfl

/-! ## Files -/

/-- The path that the name of a field of a file is. -/
def pathOf (name : String) : Path :=
  (path? name).getD [.field (lowerCase name)]

/-- The assignments that fields of a section make. -/
def sectionAssignments (path : Path) (fields : List (String × Value)) : List (Path × Value) :=
  fields.map fun (name, value) => (path ++ [.field (lowerCase name)], value)

/-- The assignments that a field of a file makes. -/
def fieldAssignments : String × Value → List (Path × Value)
  | (name, .table fields) => sectionAssignments (pathOf name) fields
  | (name, value) => [(pathOf name, value)]

/-- The assignments that a file makes. -/
def assignmentsOf (fields : List (String × Value)) : List (Path × Value) :=
  fields.flatMap fieldAssignments

/-- A field of a file that does nothing but set keys, each to a value that is no table:
it is a section with keys in it, or the path of a key. -/
structure SetsKeys (field : String × Value) : Prop where
  keys : ∀ assignment ∈ fieldAssignments field, AssignsKey assignment
  inSection : ∀ inside, field.2 = .table inside → ∃ found, pathOf field.1 = [.field found]

/-- A section with nothing but keys of its own in it sets keys. -/
theorem setsKeys_section {name found : String} {fields : List (String × Value)}
    (hpath : pathOf name = [.field found])
    (hfields : ∀ field ∈ fields, isPlain field.2 = true ∧
      ∃ key : Key, key.sectionName = found ∧ key.name = lowerCase field.1) :
    SetsKeys (name, .table fields) where
  keys assignment hassignment := by
    obtain ⟨⟨inside, value⟩, hfield, rfl⟩ := List.mem_map.mp hassignment
    obtain ⟨hplain, key, rfl, hname⟩ := hfields _ hfield
    exact ⟨⟨key, by simp [hpath, Key.path, hname]⟩, hplain⟩
  inSection _ _ := ⟨found, hpath⟩

/-- A table that is laid over a section sets its fields. -/
theorem valueAt_merge_table {name : String} {fields : List (String × Value)}
    (hkeys : ∀ assignment ∈ sectionAssignments [.field name] fields, AssignsKey assignment)
    (root : Value) (key : Key) :
    valueAt (merge root name (.table fields)) key =
      (lastValue? (sectionAssignments [.field name] fields) key).or (valueAt root key) := by
  induction fields generalizing root with
  | nil =>
      -- the section is there afterwards, as it was before
      have hsame : merge root name (.table []) =
          .table (setField name (sectionOf root name) (fieldsOf root)) := by
        simp [merge, mergeAll, sectionOf]
      rw [hsame, valueAt, sectionOf_setField]
      split
      · next h => rw [← h]; rfl
      · rfl
  | cons field fields ih =>
      obtain ⟨inside, value⟩ := field
      have hstep : merge root name (.table ((inside, value) :: fields)) =
          merge (mergeAt root [.field name, .field (lowerCase inside)] value) name
            (.table fields) := by
        simp [merge, mergeAll, mergeAt_path, sectionOf, fieldsOf, lookup_setField,
          setField_setField]
      obtain ⟨⟨own, hpath⟩, hplain⟩ := hkeys _ List.mem_cons_self
      have hassign : sectionAssignments [.field name] ((inside, value) :: fields) =
          [(own.path, value)] ++ sectionAssignments [.field name] fields := by
        rw [← hpath]
        rfl
      rw [hstep, ih (fun _ h => hkeys _ (List.mem_cons_of_mem _ h)), hassign, lastValue?_append,
        lastValue?_singleton, Option.or_assoc]
      congr 1
      have hown : [.field name, .field (lowerCase inside)] = own.path := hpath
      rw [hown, valueAt_mergeAt _ _ _ hplain]
      simp only [Key.path_inj]
      split <;> rfl

theorem valueAt_mergeField {field : String × Value} (hfield : SetsKeys field)
    (root : Value) (key : Key) :
    valueAt (mergeAt root (pathOf field.1) field.2) key =
      (lastValue? (fieldAssignments field) key).or (valueAt root key) := by
  obtain ⟨hkeys, hsection⟩ := hfield
  obtain ⟨name, value⟩ := field
  by_cases hplain : isPlain value = true
  · have hassign : fieldAssignments (name, value) = [(pathOf name, value)] := by
      cases value with
      | table fields => cases hplain
      | _ => rfl
    rw [hassign] at hkeys ⊢
    exact valueAt_assignAll hkeys root key
  · obtain ⟨fields, rfl⟩ : ∃ fields, value = .table fields := by
      cases value with
      | table fields => exact ⟨fields, rfl⟩
      | _ => exact absurd rfl hplain
    obtain ⟨found, hfound⟩ := hsection fields rfl
    rw [fieldAssignments, hfound] at hkeys
    rw [fieldAssignments, hfound, mergeAt]
    exact valueAt_merge_table hkeys root key

/-- **Laying a file over what is below sets the keys of the file**, and changes no other. -/
theorem valueAt_mergeFile {fields : List (String × Value)}
    (hfields : ∀ field ∈ fields, SetsKeys field) (root : Value) (key : Key) :
    valueAt (mergeFile root fields) key =
      (lastValue? (assignmentsOf fields) key).or (valueAt root key) := by
  induction fields generalizing root with
  | nil => rfl
  | cons field fields ih =>
      obtain ⟨hfirst, hrest⟩ := List.forall_mem_cons.mp hfields
      rw [assignmentsOf, List.flatMap_cons, lastValue?_append, Option.or_assoc,
        ← valueAt_mergeField hfirst]
      exact ih hrest _

/-! ## Reading -/

theorem bind_eq_ok_iff {ε α β : Type} {x : Except ε α} {f : α → Except ε β} {b : β} :
    (x >>= f) = .ok b ↔ ∃ a, x = .ok a ∧ f a = .ok b := by
  cases x with
  | error e => exact ⟨nofun, nofun⟩
  | ok a => exact ⟨fun h => ⟨a, rfl, h⟩, fun ⟨_, ha, h⟩ => by cases ha; exact h⟩

/-- Where all of a list can be computed, the results are those of its items. -/
theorem mapM_eq_ok {ε α β : Type} {f : α → Except ε β} {xs : List α} {ys : List β}
    (h : xs.mapM f = .ok ys) :
    (∀ x ∈ xs, ∃ y, f x = .ok y) ∧ ∀ y, y ∈ ys ↔ ∃ x ∈ xs, f x = .ok y := by
  induction xs generalizing ys with
  | nil =>
      cases h
      simp
  | cons x xs ih =>
      rw [List.mapM_cons, bind_eq_ok_iff] at h
      obtain ⟨first, hfirst, h⟩ := h
      obtain ⟨rest, hrest, h⟩ := bind_eq_ok_iff.mp h
      cases h
      obtain ⟨hall, hmem⟩ := ih hrest
      refine ⟨List.forall_mem_cons.mpr ⟨⟨first, hfirst⟩, hall⟩, fun y => ?_⟩
      simp only [List.mem_cons, exists_eq_or_imp, hfirst, hmem, Except.ok.injEq,
        eq_comm (a := first)]

theorem exists_mapM_eq_ok {ε α β : Type} {f : α → Except ε β} {xs : List α}
    (h : ∀ x ∈ xs, ∃ y, f x = .ok y) : ∃ ys, xs.mapM f = .ok ys := by
  induction xs with
  | nil => exact ⟨[], rfl⟩
  | cons x xs ih =>
      obtain ⟨⟨y, hy⟩, hrest⟩ := List.forall_mem_cons.mp h
      obtain ⟨ys, hys⟩ := ih hrest
      exact ⟨y :: ys, by rw [List.mapM_cons, hy, hys]; rfl⟩

/-- A section with a value for a key is a table. -/
theorem openSection_eq_ok {root value : Value} {key : Key} (hvalue : valueAt root key = some value)
    {keys : List String} {found : List (String × Value)}
    (hfound : openSection (fieldsOf root) key.sectionName keys = .ok found) :
    found.lookup key.name = some value := by
  rw [valueAt, sectionOf] at hvalue
  unfold openSection at hfound
  split at hfound
  · next hlookup =>
      cases hfound
      rwa [hlookup] at hvalue
  · next hlookup =>
      rw [hlookup] at hvalue
      cases hvalue
  · cases hfound

theorem setting_eq_ok {α : Type} {read : Value → Except Error α} {found : List (String × Value)}
    {name : String} {value : Value} {a : α} (hvalue : found.lookup name = some value)
    (h : setting read found name = .ok a) : read value = .ok a := by
  rwa [setting, hvalue] at h

/-- The switch of a kind decides whether the kind is wanted. -/
theorem kindSet_eq_ok {found : List (String × Value)} {kinds : KindSet} {kind : Kind}
    {value : Value} (hvalue : found.lookup kind.settingsKey = some value)
    (h : kindSet found = .ok kinds) : switchOf value = .ok (kinds.contains kind) := by
  obtain ⟨switches, hswitches, h⟩ := bind_eq_ok_iff.mp h
  cases h
  obtain ⟨hall, hmem⟩ := mapM_eq_ok hswitches
  -- the switch of the kind is among those that were read
  obtain ⟨_, hkind⟩ := hall kind (Kind.mem_all kind)
  obtain ⟨b, hb, -⟩ := bind_eq_ok_iff.mp hkind
  rw [setting_eq_ok hvalue hb]
  have hon : (kind, true) ∈ switches ↔ b = true := by
    rw [hmem]
    constructor
    · rintro ⟨other, -, hother⟩
      obtain ⟨c, hc, hpair⟩ := bind_eq_ok_iff.mp hother
      cases hpair
      rw [hb] at hc
      exact (Except.ok.inj hc)
    · rintro rfl
      exact ⟨kind, Kind.mem_all kind, by rw [hb]; rfl⟩
  simp [KindSet.ofList, hon]

/-- **What a table of settings has for a key is what the setting is read from.** -/
theorem holds_of_ofFields {root : Value} {settings : Settings}
    (h : ofFields (fieldsOf root) = .ok settings) {key : Key} {value : Value}
    (hvalue : valueAt root key = some value) : key.Holds settings value := by
  simp only [ofFields, bind_eq_ok_iff] at h
  obtain ⟨extraction, hextraction, localBindings, hlocal, maxDepth, hdepth, fileModule, hmodule,
    switches, hswitches, kinds, hkinds, output, houtput, format, hformat, sort, hsort, header,
    hheader, h⟩ := h
  cases h
  cases key with
  | localBindings => exact setting_eq_ok (openSection_eq_ok hvalue hextraction) hlocal
  | maxDepth => exact setting_eq_ok (openSection_eq_ok hvalue hextraction) hdepth
  | fileModule => exact setting_eq_ok (openSection_eq_ok hvalue hextraction) hmodule
  | kind owner => exact kindSet_eq_ok (openSection_eq_ok hvalue hswitches) hkinds
  | format => exact setting_eq_ok (openSection_eq_ok hvalue houtput) hformat
  | sort => exact setting_eq_ok (openSection_eq_ok hvalue houtput) hsort
  | header => exact setting_eq_ok (openSection_eq_ok hvalue houtput) hheader

end CamlIndex.Settings
