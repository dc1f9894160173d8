import CamlIndex.Listing.Ctags
import Mathlib.Data.List.Basic

/-!
# Lines of tag files

An editor that finds a name in a tag file reads its line from left to right: two fields
up to a tab, a search pattern, the kind, the line number and, if there is one, the scope.
Only the pattern may hold anything at all, tabs and slashes included.  It is told from
what follows because its own slashes stand behind a backslash, and so does a dollar sign
that is not the mark for the end of the line.

Here is such a reader (`TagLine.read?`).  A pattern is read as a list of symbols, each a
character that stands for itself with or without a backslash.

* `escapePattern_eq` — which symbols the pattern of a line has;
* `symbols?_escapePattern`, `read?_line` — patterns and lines are read as they were written;
* `reads_back` — both, and what keeps patterns and lines apart from what follows.
-/

namespace CamlIndex.Ctags

/-! ## Reading a line -/

/-- A character of a pattern, with a backslash in front or without one. -/
structure Symbol where
  char : Char
  escaped : Bool
  deriving DecidableEq, Repr

/-- How a symbol is written. -/
def Symbol.written (symbol : Symbol) : List Char :=
  if symbol.escaped then ['\\', symbol.char] else [symbol.char]

/-- A slash that ends a pattern. -/
def Symbol.slash : Symbol := ⟨'/', false⟩

/-- A dollar sign that marks the end of a line. -/
def Symbol.anchor : Symbol := ⟨'$', false⟩

/-- The symbols of a text.  There must be something behind a backslash. -/
def symbols? : List Char → Option (List Symbol)
  | [] => some []
  | ['\\'] => none
  | '\\' :: c :: rest => (⟨c, true⟩ :: ·) <$> symbols? rest
  | c :: rest => (⟨c, false⟩ :: ·) <$> symbols? rest

/-- The symbols in front of the slash that ends a pattern, and the text behind it. -/
def pattern? : List Char → Option (List Symbol × List Char)
  | '/' :: rest => some ([], rest)
  | '\\' :: c :: rest => do
    let (symbols, behind) ← pattern? rest
    return (⟨c, true⟩ :: symbols, behind)
  | ['\\'] => none
  | c :: rest => do
    let (symbols, behind) ← pattern? rest
    return (⟨c, false⟩ :: symbols, behind)
  | [] => none

/-- The line that a pattern with the mark for its end stands for. -/
def anchored? (symbols : List Symbol) : Option (List Char) :=
  if symbols.getLast? = some .anchor then some (symbols.dropLast.map Symbol.char) else none

/-- The text in front of a character, and the text behind that. -/
def upTo? (mark : Char) : List Char → Option (List Char × List Char)
  | [] => none
  | c :: rest =>
    if c = mark then some ([], rest)
    else do
      let (field, behind) ← upTo? mark rest
      return (c :: field, behind)

/-- The text behind words that must come first. -/
def behind? : List Char → List Char → Option (List Char)
  | [], text => some text
  | w :: word, c :: text => if w = c then behind? word text else none
  | _ :: _, [] => none

/-- The kind with a given long name. -/
def kindNamed? (name : List Char) : Option Kind :=
  Kind.all.find? fun kind => kind.name.toList = name

/-- The number that a text starts with, and the text behind it. -/
def number? (text : List Char) : Option (Nat × List Char) :=
  match text.takeWhile Char.isDigit with
  | [] => none
  | digits => some (Nat.ofDigitChars 10 digits 0, text.dropWhile Char.isDigit)

/-- The field of the scope, if the line goes on. -/
def scope? : List Char → Option (Option Scope)
  | [] => some none
  | '\t' :: text => do
    let (kindName, name) ← upTo? ':' text
    let kind ← kindNamed? kindName
    return some ⟨kind, String.ofList name⟩
  | _ :: _ => none

end Ctags

/-- What the line of an entry tells of it. -/
structure TagLine where
  name : String
  path : String
  lineText : String
  kind : Kind
  line : Nat
  scope : Option Scope
  deriving DecidableEq, Repr

open Ctags

/-- Reads a line of a tag file from left to right. -/
def TagLine.read? (text : List Char) : Option TagLine := do
  let (name, text) ← upTo? '\t' text
  let (path, text) ← upTo? '\t' text
  let text ← behind? ['/', '^'] text
  let (symbols, text) ← pattern? text
  let lineText ← anchored? symbols
  let text ← behind? [';', '"', '\t'] text
  let letter ← text.head?
  let kind ← Kind.ofLetter? letter
  let text ← behind? "\tline:".toList text.tail
  let (line, text) ← number? text
  let scope ← scope? text
  return ⟨.ofList name, .ofList path, .ofList lineText, kind, line, scope⟩

/-- What the line of an entry is meant to tell. -/
def Entry.tagLine (entry : Entry) : TagLine :=
  ⟨entry.tag.name, entry.path, entry.lineText, entry.tag.kind, entry.tag.line, entry.tag.scope⟩

/-- A text that can stand between tabs on a line. -/
structure IsField (text : String) : Prop where
  tab : '\t' ∉ text.toList
  newline : '\n' ∉ text.toList

/-- An entry whose fields can stand between tabs on a line. -/
structure Entry.FitsLine (entry : Entry) : Prop where
  name : IsField entry.tag.name
  path : IsField entry.path
  scope : ∀ scope, entry.tag.scope = some scope → IsField scope.name
  lineText : '\n' ∉ entry.lineText.toList

namespace Ctags

/-! ## Symbols -/

/-- The symbols of the pattern for a line. -/
def lineSymbols : List Char → List Symbol
  | [] => []
  | [c] => [⟨c, c = '\\' ∨ c = '/' ∨ c = '$'⟩]
  | c :: rest => ⟨c, c = '\\' ∨ c = '/'⟩ :: lineSymbols rest

theorem escapeCharacter_ne_nil (c : Char) : escapeCharacter c ≠ [] := by
  unfold escapeCharacter
  split <;> exact nofun

/-- Only the last character of a line is looked at as such. -/
theorem escapePattern_cons (c : Char) {rest : List Char} (hrest : rest ≠ []) :
    escapePattern (c :: rest) = escapeCharacter c ++ escapePattern rest := by
  have hne : rest.flatMap escapeCharacter ≠ [] := by
    obtain ⟨d, rest, rfl⟩ := List.exists_cons_of_ne_nil hrest
    simp [escapeCharacter_ne_nil]
  unfold escapePattern
  simp only [List.flatMap_cons, List.getLast?_append_of_ne_nil _ hne,
    List.dropLast_append_of_ne_nil hne]
  split
  · rw [List.append_assoc]
  · rfl

theorem escapePattern_singleton (c : Char) :
    escapePattern [c] = (⟨c, c = '\\' ∨ c = '/' ∨ c = '$'⟩ : Symbol).written := by
  by_cases hslash : c = '\\' ∨ c = '/'
  · rcases hslash with rfl | rfl <;> rfl
  · by_cases hdollar : c = '$'
    · rw [hdollar]
      rfl
    · simp [escapePattern, escapeCharacter, Symbol.written, not_or.mp hslash, hdollar]

/-- **The pattern of a line** is written with its symbols. -/
theorem escapePattern_eq (line : List Char) :
    escapePattern line = (lineSymbols line).flatMap Symbol.written := by
  induction line with
  | nil => rfl
  | cons c rest ih =>
      cases rest with
      | nil => simpa [lineSymbols] using escapePattern_singleton c
      | cons d rest =>
          have hsymbols : lineSymbols (c :: d :: rest) =
              ⟨c, c = '\\' ∨ c = '/'⟩ :: lineSymbols (d :: rest) := rfl
          have hcharacter : escapeCharacter c = (⟨c, c = '\\' ∨ c = '/'⟩ : Symbol).written := by
            simp [escapeCharacter, Symbol.written]
          rw [escapePattern_cons c (List.cons_ne_nil d rest), ih, hsymbols, List.flatMap_cons,
            hcharacter]

/-- The symbols of a line are its characters. -/
theorem lineSymbols_chars (line : List Char) : (lineSymbols line).map Symbol.char = line := by
  fun_induction lineSymbols line with
  | case1 => rfl
  | case2 => rfl
  | case3 c rest _ ih => rw [List.map_cons, ih]

/-- A symbol that can be told from a backslash and its character. -/
def Symbol.IsClear (symbol : Symbol) : Prop :=
  symbol.char = '\\' → symbol.escaped = true

/-- **No symbol of a line is a slash or a backslash by itself.** -/
theorem lineSymbols_clear (line : List Char) :
    ∀ symbol ∈ lineSymbols line, symbol.IsClear ∧ symbol ≠ .slash := by
  have hescaped : ∀ (c : Char) (escaped : Bool), (c = '\\' ∨ c = '/' → escaped = true) →
      (⟨c, escaped⟩ : Symbol).IsClear ∧ ⟨c, escaped⟩ ≠ Symbol.slash := by
    intro c escaped h
    refine ⟨fun hc => h (.inl hc), fun hslash => ?_⟩
    obtain ⟨rfl, rfl⟩ := Symbol.mk.inj hslash
    exact absurd (h (.inr rfl)) nofun
  fun_induction lineSymbols line with
  | case1 => exact nofun
  | case2 c =>
      refine List.forall_mem_singleton.mpr (hescaped c _ fun h => ?_)
      simpa using h.elim .inl fun h => .inr (.inl h)
  | case3 c rest _ ih =>
      exact List.forall_mem_cons.mpr ⟨hescaped c _ fun h => decide_eq_true h, ih⟩

/-- **The last symbol of a line is no mark** for its end. -/
theorem lineSymbols_last (line : List Char) : (lineSymbols line).getLast? ≠ some .anchor := by
  fun_induction lineSymbols line with
  | case1 => exact nofun
  | case2 c =>
      intro h
      obtain ⟨rfl, hescaped⟩ := Symbol.mk.inj (Option.some.inj h)
      cases hescaped
  | case3 c rest hrest ih =>
      have hne : lineSymbols rest ≠ [] := by
        intro hnil
        have := lineSymbols_chars rest
        rw [hnil] at this
        exact hrest this.symm
      rwa [List.getLast?_cons_of_ne_nil hne]

theorem symbols?_plain {c : Char} (hc : c ≠ '\\') (rest : List Char) :
    symbols? (c :: rest) = (⟨c, false⟩ :: ·) <$> symbols? rest := by
  cases rest <;> simp [symbols?, hc]

theorem pattern?_plain {c : Char} (hc : c ≠ '\\') (hslash : c ≠ '/') (rest : List Char) :
    pattern? (c :: rest) = do
      let (symbols, behind) ← pattern? rest
      return (⟨c, false⟩ :: symbols, behind) := by
  cases rest <;> simp [pattern?, hc]

/-- **Symbols are read as they were written.** -/
theorem symbols?_written {symbols : List Symbol} (h : ∀ symbol ∈ symbols, symbol.IsClear) :
    symbols? (symbols.flatMap Symbol.written) = some symbols := by
  induction symbols with
  | nil => rfl
  | cons symbol rest ih =>
      obtain ⟨hclear, hrest⟩ := List.forall_mem_cons.mp h
      obtain ⟨c, escaped⟩ := symbol
      cases escaped with
      | true => simp [Symbol.written, symbols?, ih hrest]
      | false =>
          have hc : c ≠ '\\' := fun hc => absurd (hclear hc) nofun
          simp [Symbol.written, symbols?_plain hc, ih hrest]

/-- **A pattern is read up to the slash behind it.** -/
theorem pattern?_written {symbols : List Symbol} (rest : List Char)
    (h : ∀ symbol ∈ symbols, symbol.IsClear ∧ symbol ≠ .slash) :
    pattern? (symbols.flatMap Symbol.written ++ '/' :: rest) = some (symbols, rest) := by
  induction symbols with
  | nil => rfl
  | cons symbol symbols ih =>
      obtain ⟨⟨hclear, hslash⟩, hsymbols⟩ := List.forall_mem_cons.mp h
      obtain ⟨c, escaped⟩ := symbol
      cases escaped with
      | true => simp [Symbol.written, pattern?, ih hsymbols]
      | false =>
          have hc : c ≠ '\\' := fun hc => absurd (hclear hc) nofun
          have hc' : c ≠ '/' := fun hc' => hslash (by rw [hc', Symbol.slash])
          simp [Symbol.written, pattern?_plain hc hc', ih hsymbols]

/-- Undoing the escapes of a pattern gives the line back. -/
theorem symbols?_escapePattern (line : List Char) :
    symbols? (escapePattern line) = some (lineSymbols line) := by
  rw [escapePattern_eq]
  exact symbols?_written fun symbol hsymbol => (lineSymbols_clear line symbol hsymbol).1

/-- **The pattern of a line** is read with the mark for the end of the line. -/
theorem pattern?_escapePattern (line rest : List Char) :
    pattern? (escapePattern line ++ '$' :: '/' :: rest) =
      some (lineSymbols line ++ [.anchor], rest) := by
  have hwritten : escapePattern line ++ '$' :: '/' :: rest =
      (lineSymbols line ++ [Symbol.anchor]).flatMap Symbol.written ++ '/' :: rest := by
    simp [escapePattern_eq, Symbol.written, Symbol.anchor]
  rw [hwritten]
  refine pattern?_written rest fun symbol hsymbol => ?_
  rcases List.mem_append.mp hsymbol with hsymbol | hsymbol
  · exact lineSymbols_clear line symbol hsymbol
  · rw [List.mem_singleton.mp hsymbol]
    exact ⟨nofun, nofun⟩

theorem anchored?_lineSymbols (line : List Char) :
    anchored? (lineSymbols line ++ [.anchor]) = some line := by
  simp [anchored?, lineSymbols_chars]

/-! ## Fields -/

/-- **A field is read up to the mark behind it.** -/
theorem upTo?_append {mark : Char} {field : List Char} (hfield : mark ∉ field)
    (rest : List Char) : upTo? mark (field ++ mark :: rest) = some (field, rest) := by
  induction field with
  | nil => simp [upTo?]
  | cons c field ih =>
      obtain ⟨hc, hfield⟩ := List.ne_and_not_mem_of_not_mem_cons hfield
      simp [upTo?, hc.symm, ih hfield]

theorem behind?_append (word rest : List Char) : behind? word (word ++ rest) = some rest := by
  induction word with
  | nil => simp [behind?]
  | cons c word ih => simp [behind?, ih]

theorem kindNamed?_name (kind : Kind) : kindNamed? kind.name.toList = some kind := by
  cases kind <;> decide

theorem colon_not_mem_name (kind : Kind) : ':' ∉ kind.name.toList := by
  cases kind <;> decide

/-- The field of a scope, with the tab in front of it. -/
def scopeField : Option Scope → List Char
  | some scope => '\t' :: (scope.kind.name.toList ++ ':' :: scope.name.toList)
  | none => []

theorem scope?_scopeField (scope : Option Scope) : scope? (scopeField scope) = some scope := by
  cases scope with
  | none => rfl
  | some scope =>
      simp [scopeField, scope?, upTo?_append (colon_not_mem_name scope.kind), kindNamed?_name]

/-- **A line number is read up to the field of the scope.** -/
theorem number?_toDigits (n : Nat) (scope : Option Scope) :
    number? (Nat.toDigits 10 n ++ scopeField scope) = some (n, scopeField scope) := by
  have hdigits : ∀ d ∈ Nat.toDigits 10 n, d.isDigit = true := fun _ =>
    Nat.isDigit_of_mem_toDigits (by decide) (by decide)
  have hscope : (scopeField scope).takeWhile Char.isDigit = [] ∧
      (scopeField scope).dropWhile Char.isDigit = scopeField scope := by
    cases scope <;> simp [scopeField]
  rw [number?, List.takeWhile_append_of_pos hdigits,
    List.dropWhile_append_of_pos hdigits, hscope.1, hscope.2, List.append_nil]
  split
  · next hnil => exact absurd hnil Nat.toDigits_ne_nil
  · rw [Nat.ofDigitChars_toDigits (by decide) (by decide)]

/-- The line of an entry, character by character. -/
theorem toList_line (entry : Entry) :
    (line entry).toList = entry.tag.name.toList ++ '\t' :: (entry.path.toList ++ '\t' ::
      '/' :: '^' :: (escapePattern entry.lineText.toList ++ '$' :: '/' :: ';' :: '"' :: '\t' ::
        entry.tag.kind.letter :: ("\tline:".toList ++ (Nat.toDigits 10 entry.tag.line ++
          scopeField entry.tag.scope)))) := by
  unfold line
  cases entry.tag.scope <;> simp [scopeField]

/-- **A line is read as it was written.** -/
theorem read?_line {entry : Entry} (h : entry.FitsLine) :
    TagLine.read? (line entry).toList = some entry.tagLine := by
  rw [toList_line, TagLine.read?]
  simp only [upTo?_append h.name.tab, upTo?_append h.path.tab, behind?, if_true,
    pattern?_escapePattern, anchored?_lineSymbols, List.head?_cons, List.tail_cons,
    Kind.ofLetter?_letter, behind?_append, number?_toDigits, scope?_scopeField,
    String.ofList_toList, Option.bind_eq_bind, Option.bind_some]
  rfl

/-! ## The end of a line -/

/-- A pattern holds the characters of its line and backslashes. -/
theorem mem_escapePattern {line : List Char} {c : Char} (hc : c ∈ escapePattern line) :
    c = '\\' ∨ c ∈ line := by
  rw [escapePattern_eq] at hc
  obtain ⟨symbol, hsymbol, hc⟩ := List.mem_flatMap.mp hc
  have hmem : symbol.char ∈ line := by
    rw [← lineSymbols_chars line]
    exact List.mem_map_of_mem hsymbol
  unfold Symbol.written at hc
  split at hc
  · rcases List.mem_cons.mp hc with rfl | hc
    · exact .inl rfl
    · exact .inr (List.mem_singleton.mp hc ▸ hmem)
  · exact .inr (List.mem_singleton.mp hc ▸ hmem)

theorem newline_not_mem_scopeField {scope : Option Scope}
    (h : ∀ inner, scope = some inner → IsField inner.name) : '\n' ∉ scopeField scope := by
  have hname : ∀ kind : Kind, '\n' ∉ kind.name.toList := by
    intro kind
    cases kind <;> decide
  cases scope with
  | none => exact nofun
  | some scope => simp [scopeField, hname scope.kind, (h scope rfl).newline]

/-- **The line of an entry is a single line.** -/
theorem newline_not_mem_line {entry : Entry} (h : entry.FitsLine) :
    '\n' ∉ (line entry).toList := by
  have hpattern : '\n' ∉ escapePattern entry.lineText.toList := fun hmem =>
    (mem_escapePattern hmem).elim nofun h.lineText
  have hletter : '\n' ≠ entry.tag.kind.letter := by
    cases entry.tag.kind <;> decide
  have hnumber : '\n' ∉ Nat.toDigits 10 entry.tag.line := fun hmem =>
    absurd (Nat.isDigit_of_mem_toDigits (by decide) (by decide) hmem) (by decide)
  simp [toList_line, h.name.newline, h.path.newline, hpattern, hletter, hnumber,
    newline_not_mem_scopeField h.scope]

end Ctags

/-- **Tag files can be read back.**  A reader that goes from left to right recovers all
that the line of an entry tells, provided that no field holds a tab or a line break; such
a line has no line break of its own.  Undoing the escapes of a pattern gives the line it
was made from, whatever that holds: no slash in it ends the pattern, and no dollar sign is
the mark for the end of the line. -/
theorem tag_lines_read_back :
    (∀ entry : Entry, entry.FitsLine →
      TagLine.read? (Ctags.line entry).toList = some entry.tagLine ∧
        '\n' ∉ (Ctags.line entry).toList) ∧
      ∀ line : List Char, ∃ symbols,
        symbols? (escapePattern line) = some symbols ∧
          symbols.map Symbol.char = line ∧
          .slash ∉ symbols ∧ symbols.getLast? ≠ some .anchor := by
  refine ⟨fun entry h => ⟨read?_line h, newline_not_mem_line h⟩, fun line => ?_⟩
  exact ⟨lineSymbols line, symbols?_escapePattern line, lineSymbols_chars line,
    fun hslash => (lineSymbols_clear line _ hslash).2 rfl, lineSymbols_last line⟩

/-- A line of a source that ends in a backslash and a dollar sign, and holds a tab and
what looks like the end of a pattern. -/
def awkwardEntry : Entry where
  path := "lib/shapes.ml"
  tag := ⟨"area", .methodDef, 12, 4, 310, some ⟨.classDef, "shapes/square"⟩⟩
  lineText := "\tlet s = \"$/;\\\"\tm\" \\$"

theorem tag_lines_read_back_awkward :
    TagLine.read? (Ctags.line awkwardEntry).toList = some awkwardEntry.tagLine ∧
      '\n' ∉ (Ctags.line awkwardEntry).toList := by
  refine tag_lines_read_back.1 awkwardEntry ⟨⟨by decide, by decide⟩, ⟨by decide, by decide⟩, ?_,
    by decide⟩
  rintro scope ⟨⟩
  exact ⟨by decide, by decide⟩

end CamlIndex
