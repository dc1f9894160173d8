import CamlIndex.Datum.Json
import CamlIndex.Proofs.Json.Reading
import Mathlib.Data.List.Basic

/-!
# JSON that is written can be read

The writer of JSON puts its data on many lines, with blanks in front of most parts.  A
reader that walks through such a text meets a part with blanks before it and other parts
after it, so what is shown of every part is that it is read back in such a place
(`ReadsBack`).  A number ends where no character comes that could belong to it, and in a
text of JSON a comma or a new line follows.

* `string?_flatMap`, `number?_toDigits` — strings and numbers are read as they were written;
* `sequence?_written` — arrays and objects are read element by element;
* `readsBack_writeJson` — a piece of data is read back wherever it stands;
* `parse?_toJson` — a text of JSON is read as the data it was written for.
-/

namespace CamlIndex

open Json

/-! ## Strings -/

/-- The digits that are written for a character below the blank stand for its number. -/
theorem codeUnit?_hexDigit :
    ∀ n < 0x20, codeUnit? '0' '0' (hexDigit (n / 16)) (hexDigit (n % 16)) = some n := by
  decide

theorem ofUnit?_toNat (c : Char) : ofUnit? c.toNat = some c := by
  have hvalid : c.toNat.isValidChar := c.valid
  rw [ofUnit?, if_pos hvalid, Char.ofNat_toNat]

/-- The digits of a code unit that stands for itself are read as one character. -/
theorem string?_unit {a b c d character : Char}
    (h : (codeUnit? a b c d).bind ofUnit? = some character) (cs : List Char) :
    string? ('\\' :: 'u' :: a :: b :: c :: d :: cs) = Toml.prepend character (string? cs) := by
  rw [string?]
  exact h

/-- **A character is read as it was written**, whether it was escaped or not. -/
theorem string?_jsonCharacter (c : Char) (rest : List Char) :
    string? (jsonCharacter c ++ rest) = Toml.prepend c (string? rest) := by
  unfold jsonCharacter
  split
  case h_8 hquote hbackslash _ _ _ _ _ =>
      split
      · next hlow =>
          have hunit : (codeUnit? '0' '0' (hexDigit (c.toNat / 16))
              (hexDigit (c.toNat % 16))).bind ofUnit? = some c := by
            rw [codeUnit?_hexDigit _ hlow, Option.bind_some, ofUnit?_toNat]
          simp only [List.cons_append, List.nil_append, string?_unit hunit]
      · next hplain =>
          rw [List.singleton_append, string?]
          · exact if_neg fun h => h.elim hbackslash hplain
          · exact hquote
          · exact fun _ _ _ _ _ h => absurd h hbackslash
          · exact fun _ _ h => absurd h hbackslash
  all_goals rfl

/-- **A text is read as it was written.** -/
theorem string?_flatMap (cs rest : List Char) :
    string? (cs.flatMap jsonCharacter ++ '"' :: rest) = some (cs, rest) := by
  induction cs with
  | nil => rfl
  | cons c cs ih =>
      rw [List.flatMap_cons, List.append_assoc, string?_jsonCharacter, ih]
      rfl

/-! ## Numbers -/

/-- A number ends in front of the text: nothing there could belong to it. -/
def EndsNumber (rest : List Char) : Prop :=
  ∀ c ∈ rest.head?, c.isDigit = false ∧ c ≠ '.' ∧ c ≠ 'e' ∧ c ≠ 'E'

theorem digits?_append {ds rest : List Char} (hne : ds ≠ []) (hds : ∀ d ∈ ds, d.isDigit = true)
    (hrest : EndsNumber rest) : digits? (ds ++ rest) = some (ds, rest) := by
  have hstop : rest.takeWhile Char.isDigit = [] ∧ rest.dropWhile Char.isDigit = rest := by
    cases rest with
    | nil => exact ⟨rfl, rfl⟩
    | cons c rest => simp [(hrest c rfl).1]
  unfold digits?
  rw [List.takeWhile_append_of_pos hds, List.dropWhile_append_of_pos hds, hstop.1, hstop.2,
    List.append_nil]
  cases ds with
  | nil => exact absurd rfl hne
  | cons d ds => rfl

/-- Only zero is written with a zero in front. -/
theorem head?_toDigits {n : Nat} (hn : 0 < n) : (Nat.toDigits 10 n).head? ≠ some '0' := by
  induction n using Nat.strongRecOn with
  | ind n ih =>
      by_cases hlt : n < 10
      · rw [Nat.toDigits_of_lt_base hlt]
        have hdigit : ∀ n < 10, 0 < n → [Nat.digitChar n].head? ≠ some '0' := by decide
        exact hdigit n hlt hn
      · rw [Nat.toDigits_of_base_le (by decide) (by omega),
          List.head?_append_of_ne_nil _ Nat.toDigits_ne_nil]
        exact ih (n / 10) (by omega) (by omega)

theorem whole?_toDigits (n : Nat) {rest : List Char} (hrest : EndsNumber rest) :
    whole? (Nat.toDigits 10 n ++ rest) = some (Nat.toDigits 10 n, rest) := by
  have hdigits : ∀ d ∈ Nat.toDigits 10 n, d.isDigit = true := fun _ =>
    Nat.isDigit_of_mem_toDigits (by decide) (by decide)
  rcases Nat.eq_zero_or_pos n with rfl | hn
  · rfl
  · unfold whole?
    split
    · next cs hzero =>
        have hhead := congrArg List.head? hzero
        rw [List.head?_append_of_ne_nil _ Nat.toDigits_ne_nil] at hhead
        exact absurd hhead (head?_toDigits hn)
    · exact digits?_append Nat.toDigits_ne_nil hdigits hrest

theorem fraction?_rest {rest : List Char} (hrest : EndsNumber rest) :
    fraction? rest = some ([], rest) := by
  unfold fraction?
  split
  · exact absurd rfl (hrest '.' rfl).2.1
  · rfl

theorem exponent?_rest {rest : List Char} (hrest : EndsNumber rest) :
    exponent? rest = some (0, rest) := by
  unfold exponent?
  split
  · next c cs =>
      obtain ⟨-, -, he, hE⟩ := hrest c rfl
      rw [if_neg fun h => h.elim he hE]
  · rfl

/-- **A number is read as it was written.** -/
theorem number?_toDigits (n : Nat) {rest : List Char} (hrest : EndsNumber rest) :
    number? (Nat.toDigits 10 n ++ rest) = some ((n : Rat), rest) := by
  have hmagnitude : magnitude? (Nat.toDigits 10 n ++ rest) = some ((n : Rat), rest) := by
    simp [magnitude?, whole?_toDigits n hrest, fraction?_rest hrest, exponent?_rest hrest]
  unfold number?
  split
  · next cs hminus =>
      -- no digit is a minus
      have hhead := congrArg List.head? hminus
      rw [List.head?_append_of_ne_nil _ Nat.toDigits_ne_nil] at hhead
      have hdigit := Nat.isDigit_of_mem_toDigits (b := 10) (by decide) (by decide)
        (List.mem_of_head? hhead)
      exact absurd hdigit (by decide)
  · exact hmagnitude

/-! ## Blanks -/

theorem skipBlanks_append {blanks : List Char} (hblanks : ∀ c ∈ blanks, isSpacing c = true)
    (cs : List Char) : skipBlanks (blanks ++ cs) = skipBlanks cs :=
  List.dropWhile_append_of_pos hblanks

theorem skipBlanks_cons {c : Char} (hc : isSpacing c = false) (cs : List Char) :
    skipBlanks (c :: cs) = c :: cs := by
  rw [skipBlanks, List.dropWhile_cons_of_neg (by simp [hc])]

theorem isSpacing_of_mem_jsonLine (level : Nat) :
    ∀ c ∈ Datum.jsonLine level, isSpacing c = true := by
  intro c hc
  rcases List.mem_cons.mp hc with rfl | hc
  · decide
  · rw [List.eq_of_mem_replicate hc]
    decide

/-- What comes on a line of its own is found behind the blanks. -/
theorem skipBlanks_jsonLine (level : Nat) {c : Char} (hc : isSpacing c = false) (cs : List Char) :
    skipBlanks (Datum.jsonLine level ++ c :: cs) = c :: cs := by
  rw [skipBlanks_append (isSpacing_of_mem_jsonLine level), skipBlanks_cons hc]

/-! ## Arrays and objects -/

/-- What is written for an element is no longer than what is written for all. -/
theorem length_le_elements {β : Type} (written : β → List Char) (blanks : List Char)
    {first part : β} {more : List β} (h : part ∈ first :: more) :
    (written part).length ≤ (written first).length +
      (more.flatMap fun part => ',' :: (blanks ++ written part)).length := by
  rcases List.mem_cons.mp h with rfl | h
  · exact Nat.le_add_right _ _
  · have hpart : (',' :: (blanks ++ written part)).Sublist
        (more.flatMap fun part => ',' :: (blanks ++ written part)) :=
      List.sublist_flatten_of_mem (List.mem_map_of_mem h)
    have hlength := hpart.length_le
    simp only [List.length_cons, List.length_append] at hlength
    omega

section Elements

variable {α β : Type} {element : Toml.Reader α} {written : β → List Char} {result : β → α}
  {close : Char} {blanks after rest : List Char}

/-- A reader reads a result back from what is written for it, with any blanks in front. -/
def ReadsBack (element : Toml.Reader α) (written : List Char) (result : α) : Prop :=
  ∀ blanks rest, (∀ c ∈ blanks, isSpacing c = true) → EndsNumber rest →
    element (blanks ++ (written ++ rest)) = some (result, rest)

theorem endsNumber_cons {c : Char} (hc : c = ',' ∨ c = '\n') (cs : List Char) :
    EndsNumber (c :: cs) := by
  rintro _ ⟨⟩
  rcases hc with rfl | rfl <;> decide

theorem endsNumber_jsonLine (level : Nat) (cs : List Char) :
    EndsNumber (Datum.jsonLine level ++ cs) :=
  endsNumber_cons (.inr rfl) _

/-- **Elements are read one by one**, if each of them is read back. -/
theorem elements?_written {first : β} {more : List β} (fuel : Nat) (front : List Char)
    (hclose : close ≠ ',')
    (hblanks : ∀ c ∈ blanks, isSpacing c = true) (hafter : EndsNumber after)
    (hend : skipBlanks after = close :: rest)
    (hread : ∀ part ∈ first :: more, ReadsBack element (written part) (result part))
    (hfuel : more.length < fuel) (hfront : ∀ c ∈ front, isSpacing c = true) :
    elements? close element fuel (front ++ (written first ++
        (more.flatMap (fun part => ',' :: (blanks ++ written part)) ++ after))) =
      some (result first :: more.map result, rest) := by
  induction more generalizing first fuel front with
  | nil =>
      obtain ⟨fuel, rfl⟩ := Nat.exists_eq_add_one_of_ne_zero (Nat.ne_of_gt hfuel)
      have hfirst := hread first List.mem_cons_self front after hfront hafter
      simp [elements?, hfirst, hend]
  | cons second more ih =>
      obtain ⟨fuel, rfl⟩ :=
        Nat.exists_eq_add_one_of_ne_zero (Nat.ne_of_gt (Nat.zero_lt_of_lt hfuel))
      have hfirst := hread first List.mem_cons_self front (',' :: (blanks ++ (written second ++
        (more.flatMap (fun part => ',' :: (blanks ++ written part)) ++ after)))) hfront
        (endsNumber_cons (.inl rfl) _)
      have hmore := ih fuel blanks (fun part h => hread part (List.mem_cons_of_mem _ h))
        (Nat.lt_of_succ_lt_succ hfuel) hblanks
      simp only [List.flatMap_cons, List.cons_append, List.append_assoc, elements?, hfirst,
        Option.bind_eq_bind, Option.bind_some, skipBlanks_cons (c := ',') (by decide),
        if_neg hclose.symm, if_pos, hmore]
      rfl

/-- **An array or an object is read back**, if its elements are. -/
theorem sequence?_written {first : β} {more : List β} {c : Char} {cs : List Char}
    (hclose : close ≠ ',') (hblanks : ∀ c ∈ blanks, isSpacing c = true) (hafter : EndsNumber after)
    (hend : skipBlanks after = close :: rest)
    (hread : ∀ part ∈ first :: more, ReadsBack element (written part) (result part))
    (hfirst : written first = c :: cs) (hblank : isSpacing c = false) (hopen : c ≠ close) :
    sequence? close element (blanks ++ (written first ++
        (more.flatMap (fun part => ',' :: (blanks ++ written part)) ++ after))) =
      some (result first :: more.map result, rest) := by
  have hlength : more.length ≤
      (more.flatMap fun part => ',' :: (blanks ++ written part)).length := by
    clear hread
    induction more with
    | nil => exact Nat.le_refl _
    | cons part more ih =>
        simp only [List.flatMap_cons, List.length_append, List.length_cons]
        omega
  have hskip : ∀ behind,
      skipBlanks (blanks ++ (written first ++ behind)) = c :: (cs ++ behind) := by
    intro behind
    rw [skipBlanks_append hblanks, hfirst, List.cons_append, skipBlanks_cons hblank]
  have helements := elements?_written ((blanks ++ (written first ++
      (more.flatMap (fun part => ',' :: (blanks ++ written part)) ++ after))).length + 1) []
    hclose hblanks hafter hend hread (by simp only [List.length_append]; omega) (by simp)
  rw [List.nil_append] at helements
  simp only [sequence?, hskip, if_neg hopen]
  rw [← List.cons_append, ← hfirst, helements]

end Elements

/-! ## Values -/

/-- The characters with which a value is written to start. -/
def startsValue (c : Char) : Bool :=
  c ∈ ['"', '[', '{'] || c.isDigit

theorem not_startsValue : startsValue ' ' = false ∧ startsValue '\t' = false ∧
    startsValue '\n' = false ∧ startsValue '\r' = false ∧ startsValue ']' = false := by
  decide

theorem not_isSpacing_of_startsValue {c : Char} (hc : startsValue c = true) :
    isSpacing c = false := by
  obtain ⟨hspace, htab, hnewline, hreturn, -⟩ := not_startsValue
  rw [Bool.eq_false_iff]
  intro hblank
  simp only [isSpacing, List.mem_cons, List.not_mem_nil, or_false, decide_eq_true_eq] at hblank
  rcases hblank with rfl | rfl | rfl | rfl <;> simp_all

namespace Datum

mutual

/-- A piece of data as a value of JSON. -/
def json : Datum → Json
  | .number n => .number n
  | .text s => .text s
  | .list items => .array (jsonItems items)
  | .record fields => .object (jsonMembers fields)

/-- The items of an array. -/
def jsonItems : List Datum → List Json
  | [] => []
  | item :: items => item.json :: jsonItems items

/-- The members of an object. -/
def jsonMembers : List (String × Datum) → List (String × Json)
  | [] => []
  | (name, value) :: fields => (name, value.json) :: jsonMembers fields

end

/-- What is written for a field: its name, a colon and its value. -/
def writeMember (level : Nat) (field : String × Datum) : List Char :=
  jsonText field.1 ++ ':' :: ' ' :: field.2.writeJson level

theorem jsonItems_eq (items : List Datum) : jsonItems items = items.map json := by
  induction items with
  | nil => rfl
  | cons item items ih => rw [jsonItems, ih, List.map_cons]

theorem jsonMembers_eq (fields : List (String × Datum)) :
    jsonMembers fields = fields.map fun field => (field.1, field.2.json) := by
  induction fields with
  | nil => rfl
  | cons field fields ih => rw [jsonMembers, ih, List.map_cons]

theorem writeJsonItems_eq (level : Nat) (items : List Datum) :
    writeJsonItems level items =
      items.flatMap fun item => ',' :: (jsonLine level ++ item.writeJson level) := by
  induction items with
  | nil => rfl
  | cons item items ih =>
      rw [writeJsonItems, ih, List.flatMap_cons]
      rfl

theorem writeJsonFields_eq (level : Nat) (fields : List (String × Datum)) :
    writeJsonFields level fields =
      fields.flatMap fun field => ',' :: (jsonLine level ++ writeMember level field) := by
  induction fields with
  | nil => rfl
  | cons field fields ih =>
      rw [writeJsonFields, ih, List.flatMap_cons]
      simp [writeMember]

/-- Every value is written with one of the first characters of values. -/
theorem exists_writeJson (level : Nat) (datum : Datum) :
    ∃ c cs, datum.writeJson level = c :: cs ∧ startsValue c = true := by
  cases datum with
  | number n =>
      obtain ⟨c, cs, hcs⟩ := List.exists_cons_of_ne_nil (Nat.toDigits_ne_nil (n := n) (b := 10))
      refine ⟨c, cs, by rw [writeJson, hcs], ?_⟩
      have hdigit : c.isDigit = true :=
        Nat.isDigit_of_mem_toDigits (b := 10) (n := n) (by decide) (by decide) (by simp [hcs])
      simp [startsValue, hdigit]
  | text s => exact ⟨'"', _, by rw [writeJson, jsonText]; rfl, by decide⟩
  | list items =>
      cases items with
      | nil => exact ⟨'[', _, by rw [writeJson], by decide⟩
      | cons item items => exact ⟨'[', _, by rw [writeJson]; rfl, by decide⟩
  | record fields =>
      cases fields with
      | nil => exact ⟨'{', _, by rw [writeJson], by decide⟩
      | cons field fields => exact ⟨'{', _, by rw [writeJson]; rfl, by decide⟩

/-- Induction on data, with lists and records for any number of parts. -/
theorem inductionOn {motive : Datum → Prop} (datum : Datum)
    (number : ∀ n, motive (.number n)) (text : ∀ s, motive (.text s))
    (list : ∀ items, (∀ item ∈ items, motive item) → motive (.list items))
    (record : ∀ fields, (∀ field ∈ fields, motive field.2) → motive (.record fields)) :
    motive datum :=
  match datum with
  | .number n => number n
  | .text s => text s
  | .list items => list items fun item _ => inductionOn item number text list record
  | .record fields => record fields fun field _ => inductionOn field.2 number text list record
termination_by sizeOf datum
decreasing_by
  · have hitem := List.sizeOf_lt_of_mem ‹item ∈ items›
    simp only [Datum.list.sizeOf_spec]
    omega
  · have hfield := List.sizeOf_lt_of_mem ‹field ∈ fields›
    have hvalue : sizeOf field.2 < sizeOf field := by
      cases field
      simp only [Prod.mk.sizeOf_spec]
      omega
    simp only [Datum.record.sizeOf_spec]
    omega

theorem writeJson_list (level : Nat) (item : Datum) (items : List Datum) :
    writeJson level (.list (item :: items)) =
      '[' :: (jsonLine (level + 1) ++ (item.writeJson (level + 1) ++
        (items.flatMap (fun item => ',' :: (jsonLine (level + 1) ++ item.writeJson (level + 1))) ++
          (jsonLine level ++ [']'])))) := by
  simp [writeJson, writeJsonItems_eq]

theorem writeJson_record (level : Nat) (field : String × Datum) (fields : List (String × Datum)) :
    writeJson level (.record (field :: fields)) =
      '{' :: (jsonLine (level + 1) ++ (writeMember (level + 1) field ++
        (fields.flatMap (fun field =>
          ',' :: (jsonLine (level + 1) ++ writeMember (level + 1) field)) ++
          (jsonLine level ++ ['}'])))) := by
  simp [writeJson, writeMember, writeJsonFields_eq]

theorem length_writeJson_item (level : Nat) {item : Datum} {items : List Datum}
    (h : item ∈ items) :
    (item.writeJson (level + 1)).length < (writeJson level (.list items)).length := by
  cases items with
  | nil => cases h
  | cons first more =>
      have hle := length_le_elements (writeJson (level + 1)) (jsonLine (level + 1)) h
      simp only [writeJson_list, List.length_cons, List.length_append]
      omega

theorem length_writeJson_field (level : Nat) {field : String × Datum}
    {fields : List (String × Datum)} (h : field ∈ fields) :
    (field.2.writeJson (level + 1)).length < (writeJson level (.record fields)).length := by
  cases fields with
  | nil => cases h
  | cons first more =>
      have hle := length_le_elements (writeMember (level + 1)) (jsonLine (level + 1)) h
      have hvalue : (field.2.writeJson (level + 1)).length ≤
          (writeMember (level + 1) field).length := by
        simp only [writeMember, List.length_append, List.length_cons]
        omega
      simp only [writeJson_record, List.length_cons, List.length_append]
      omega

end Datum

section Values

variable {depth : Nat} {cs inside : List Char}

theorem value?_text (h : skipBlanks cs = '"' :: inside) :
    value? (depth + 1) cs =
      (string? inside).map fun (s, rest) => (.text (String.ofList s), rest) := by
  rw [value?, h]
  rfl

theorem value?_array (h : skipBlanks cs = '[' :: inside) :
    value? (depth + 1) cs =
      (sequence? ']' (value? depth) inside).map fun (items, rest) => (.array items, rest) := by
  rw [value?, h]
  rfl

theorem value?_object (h : skipBlanks cs = '{' :: inside) :
    value? (depth + 1) cs =
      (sequence? '}' (member? (value? depth)) inside).map
        fun (members, rest) => (.object members, rest) := by
  rw [value?, h]
  rfl

theorem value?_digit {d : Char} (hd : d.isDigit = true) (h : skipBlanks cs = d :: inside) :
    value? (depth + 1) cs =
      (number? (d :: inside)).map fun (value, rest) => (.number value, rest) := by
  rw [value?, h]
  split
  case h_7 => rfl
  all_goals
    next heq =>
      cases heq
      exact absurd hd (by decide)

/-- **A member is read back**, if its value is. -/
theorem readsBack_writeMember {level : Nat} {name : String} {datum : Datum}
    (h : ReadsBack (value? depth) (datum.writeJson level) datum.json) :
    ReadsBack (member? (value? depth)) (Datum.writeMember level (name, datum))
      (name, datum.json) := by
  intro blanks rest hblanks hrest
  have hname : Datum.writeMember level (name, datum) ++ rest = '"' ::
      (name.toList.flatMap jsonCharacter ++ '"' ::
        ':' :: ([' '] ++ (datum.writeJson level ++ rest))) := by
    simp [Datum.writeMember, jsonText]
  have hvalue := h [' '] rest (List.forall_mem_singleton.mpr (by decide)) hrest
  unfold member?
  rw [skipBlanks_append hblanks, hname, skipBlanks_cons (by decide)]
  simpa [string?_flatMap, skipBlanks_cons (c := ':') (by decide)] using hvalue

theorem readsBack_number (level n : Nat) :
    ReadsBack (value? (depth + 1)) (Datum.writeJson level (.number n)) (Datum.number n).json := by
  intro blanks rest hblanks hrest
  obtain ⟨d, ds, hds⟩ := List.exists_cons_of_ne_nil (Nat.toDigits_ne_nil (n := n) (b := 10))
  have hdigit : d.isDigit = true :=
    Nat.isDigit_of_mem_toDigits (b := 10) (n := n) (by decide) (by decide) (by simp [hds])
  have hskip : skipBlanks (blanks ++ (Nat.toDigits 10 n ++ rest)) = d :: (ds ++ rest) := by
    rw [skipBlanks_append hblanks, hds, List.cons_append]
    exact skipBlanks_cons (not_isSpacing_of_startsValue (by simp [startsValue, hdigit])) _
  rw [Datum.writeJson, value?_digit hdigit hskip, ← List.cons_append, ← hds,
    number?_toDigits n hrest]
  rfl

theorem readsBack_text (level : Nat) (s : String) :
    ReadsBack (value? (depth + 1)) (Datum.writeJson level (.text s)) (Datum.text s).json := by
  intro blanks rest hblanks _
  have hskip : skipBlanks (blanks ++ (jsonText s ++ rest)) =
      '"' :: (s.toList.flatMap jsonCharacter ++ '"' :: rest) := by
    rw [skipBlanks_append hblanks]
    simp only [jsonText, List.cons_append, List.append_assoc]
    exact skipBlanks_cons (by decide) _
  rw [Datum.writeJson, value?_text hskip, string?_flatMap]
  simp [Datum.json]

/-- **A list is read back**, if its items are. -/
theorem readsBack_list {level : Nat} {items : List Datum}
    (h : ∀ item ∈ items, ReadsBack (value? depth) (item.writeJson (level + 1)) item.json) :
    ReadsBack (value? (depth + 1)) (Datum.writeJson level (.list items))
      (Datum.list items).json := by
  intro blanks rest hblanks hrest
  cases items with
  | nil =>
      have hskip : skipBlanks (blanks ++ ('[' :: ']' :: rest)) = '[' :: ']' :: rest := by
        rw [skipBlanks_append hblanks, skipBlanks_cons (by decide)]
      exact (value?_array hskip).trans rfl
  | cons item items =>
      obtain ⟨c, cs, hfirst, hc⟩ := item.exists_writeJson (level + 1)
      have hopen : c ≠ ']' := by
        rintro rfl
        simp [not_startsValue] at hc
      have hread := sequence?_written (by decide) (isSpacing_of_mem_jsonLine (level + 1))
        (endsNumber_jsonLine level _) (skipBlanks_jsonLine level (c := ']') (by decide) rest)
        h hfirst (not_isSpacing_of_startsValue hc) hopen
      have hskip :=
        skipBlanks_append hblanks (Datum.writeJson level (.list (item :: items)) ++ rest)
      rw [Datum.writeJson_list] at hskip ⊢
      rw [value?_array (hskip.trans (skipBlanks_cons (by decide) _))]
      simp only [List.append_assoc, List.singleton_append, List.append_eq, hread]
      simp [Datum.json, Datum.jsonItems, Datum.jsonItems_eq]

/-- **A record is read back**, if its values are. -/
theorem readsBack_record {level : Nat} {fields : List (String × Datum)}
    (h : ∀ field ∈ fields,
      ReadsBack (value? depth) (field.2.writeJson (level + 1)) field.2.json) :
    ReadsBack (value? (depth + 1)) (Datum.writeJson level (.record fields))
      (Datum.record fields).json := by
  intro blanks rest hblanks hrest
  cases fields with
  | nil =>
      have hskip : skipBlanks (blanks ++ ('{' :: '}' :: rest)) = '{' :: '}' :: rest := by
        rw [skipBlanks_append hblanks, skipBlanks_cons (by decide)]
      exact (value?_object hskip).trans rfl
  | cons field fields =>
      have hmembers : ∀ part ∈ field :: fields, ReadsBack (member? (value? depth))
          (Datum.writeMember (level + 1) part) (part.1, part.2.json) := fun part hpart =>
        readsBack_writeMember (h part hpart)
      have hread := sequence?_written (c := '"') (by decide)
        (isSpacing_of_mem_jsonLine (level + 1)) (endsNumber_jsonLine level _)
        (skipBlanks_jsonLine level (c := '}') (by decide) rest) hmembers rfl (by decide)
        (by decide)
      have hskip :=
        skipBlanks_append hblanks (Datum.writeJson level (.record (field :: fields)) ++ rest)
      rw [Datum.writeJson_record] at hskip ⊢
      rw [value?_object (hskip.trans (skipBlanks_cons (by decide) _))]
      simp only [List.append_assoc, List.singleton_append, List.append_eq, hread]
      simp [Datum.json, Datum.jsonMembers, Datum.jsonMembers_eq]

/-- **A piece of data is read back** at any depth that is larger than the length of what
is written for it. -/
theorem readsBack_writeJson (datum : Datum) (level : Nat)
    (hdepth : (datum.writeJson level).length < depth) :
    ReadsBack (value? depth) (datum.writeJson level) datum.json := by
  induction datum using Datum.inductionOn generalizing level depth with
  | number n =>
      obtain ⟨depth, rfl⟩ := Nat.exists_eq_add_one_of_ne_zero (Nat.ne_zero_of_lt hdepth)
      exact readsBack_number level n
  | text s =>
      obtain ⟨depth, rfl⟩ := Nat.exists_eq_add_one_of_ne_zero (Nat.ne_zero_of_lt hdepth)
      exact readsBack_text level s
  | list items ih =>
      obtain ⟨depth, rfl⟩ := Nat.exists_eq_add_one_of_ne_zero (Nat.ne_zero_of_lt hdepth)
      refine readsBack_list fun item hitem => ih item hitem (level + 1) ?_
      have hlength := Datum.length_writeJson_item level hitem
      omega
  | record fields ih =>
      obtain ⟨depth, rfl⟩ := Nat.exists_eq_add_one_of_ne_zero (Nat.ne_zero_of_lt hdepth)
      refine readsBack_record fun field hfield => ih field hfield (level + 1) ?_
      have hlength := Datum.length_writeJson_field level hfield
      omega

end Values

/-- **What is written as JSON is read as JSON**, with nothing lost. -/
theorem parse?_toJson (datum : Datum) : Json.parse? datum.toJson = some datum.json := by
  have hlength : (datum.writeJson 0).length < datum.toJson.length + 1 := by
    simp only [Datum.toJson, String.length_ofList, List.length_append]
    omega
  have hread := readsBack_writeJson datum 0 hlength [] ['\n'] (by simp)
    (endsNumber_cons (.inr rfl) [])
  have htext : datum.toJson.toList = [] ++ (datum.writeJson 0 ++ ['\n']) := by
    simp [Datum.toJson]
  have hend : skipBlanks ['\n'] = [] := by decide
  rw [Json.parse?, htext, hread]
  simp [hend]

end CamlIndex
