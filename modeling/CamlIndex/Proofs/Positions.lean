import CamlIndex.Proofs.Indices
import CamlIndex.Proofs.Literals

/-!
# Positions of bytes and texts of lines

Two views of a text are kept in a line table: the offsets at which lines start, and the
texts of the lines.  Offsets count bytes, so an offset may lie inside a character or
behind the text; lines are cut out of characters.  Both views are compared here with the
bytes of the text.

The walk along the line starts passes one of them for each newline byte in front of the
offset (`line_locate`), because a newline is a single byte and no other character has
that byte.  Hence positions ascend with offsets, first by lines and then by columns.

A line has whole lines above it and a newline or nothing below (`IsLine`).  This says
where it starts, where the next one starts and what its bytes are, and so what stands at
a column of it.

* `LineTable.line_position_byte`, `LineTable.lineStart?_position` — the line and the
  column of an offset;
* `LineTable.position_before` — later offsets have later positions;
* `LineTable.lineText?_sliced`, `LineTable.lineText?_position` — which bytes the text of
  a line shows, and what becomes of the others;
* `intercalate_splitAtNewlines` — the text made up again from its lines;
* `lines_consistent` — all of this about a text.
-/

namespace CamlIndex

/-! ## Newlines in bytes -/

/-- The byte of a newline. -/
def newlineByte : UInt8 := 0x0A

/-- The byte of a carriage return. -/
def returnByte : UInt8 := 0x0D

/-- Only the character of an ASCII byte has it among its bytes. -/
theorem eq_of_mem_utf8EncodeChar {mark : UInt8} (hmark : mark.toNat < 128) {c : Char}
    (h : mark ∈ String.utf8EncodeChar c) : c = Char.ofNat mark.toNat := by
  have hunit : Char.ofNat mark.toNat ∈ byteUnits [c] := by
    rw [byteUnits, List.flatMap_singleton]
    exact List.mem_map_of_mem h
  rw [mem_byteUnits_iff (by rwa [toNat_ofNat_byte]), List.mem_singleton] at hunit
  exact hunit.symm

/-- The bytes of characters. -/
def charBytes (cs : List Char) : List UInt8 :=
  cs.flatMap String.utf8EncodeChar

@[simp] theorem charBytes_nil : charBytes [] = [] := rfl

theorem charBytes_cons (c : Char) (cs : List Char) :
    charBytes (c :: cs) = String.utf8EncodeChar c ++ charBytes cs := List.flatMap_cons

theorem charBytes_append (cs ds : List Char) : charBytes (cs ++ ds) = charBytes cs ++ charBytes ds :=
  List.flatMap_append

theorem encode_eq (text : String) : Utf8.encode text = charBytes text.toList := by
  rw [charBytes, ← encode_ofList, String.ofList_toList]

theorem length_charBytes (cs : List Char) : (charBytes cs).length = byteLength cs := by
  induction cs with
  | nil => rfl
  | cons c cs ih =>
      rw [charBytes_cons, List.length_append, ih, String.length_utf8EncodeChar, byteLength_cons]

theorem length_encode (text : String) : (Utf8.encode text).length = text.utf8ByteSize := by
  rw [encode_eq, length_charBytes, utf8ByteSize_eq_byteLength]

/-! ## The position of a byte -/

/-- One position comes before another: on an earlier line, or on the same line further left. -/
def Position.Before (p q : Position) : Prop :=
  Prod.Lex (· < ·) (· < ·) (p.line, p.column) (q.line, q.column)

namespace LineTable

/-- A walk along the line starts passes one of them for each newline among the bytes in
front of the offset, which may lie inside a character or behind the text. -/
theorem line_locate (cs : List Char) (offset base line start : Nat) :
    (locate offset line start (startsAfterNewlines base cs)).line =
      line + ((charBytes cs).take (offset - base)).count newlineByte := by
  induction cs generalizing base line start with
  | nil => simp [startsAfterNewlines, locate]
  | cons c cs ih =>
      rw [startsAfterNewlines, charBytes_cons]
      by_cases hc : c = '\n'
      · subst hc
        have hbytes : String.utf8EncodeChar '\n' = [newlineByte] := rfl
        rw [if_pos rfl, locate, hbytes, List.singleton_append]
        by_cases hreached : base + 1 ≤ offset
        · have hsub : offset - base = offset - (base + 1) + 1 := by omega
          rw [if_pos hreached, ih, hsub, List.take_succ_cons, List.count_cons_self]
          omega
        · have hsub : offset - base = 0 := by omega
          rw [if_neg hreached, hsub]
          rfl
      · have hnone : (String.utf8EncodeChar c).count newlineByte = 0 := by
          rw [List.count_eq_zero]
          exact fun hmem => hc (eq_of_mem_utf8EncodeChar (by decide) hmem)
        have htake : ((String.utf8EncodeChar c).take (offset - base)).count newlineByte = 0 :=
          Nat.le_zero.mp (hnone ▸ (List.take_sublist _ _).count_le newlineByte)
        rw [if_neg hc, ih, List.take_append, List.count_append, htake, Nat.zero_add,
          String.length_utf8EncodeChar, Nat.sub_sub]

/-- **The line of a byte** is the number of newlines in front of it. -/
theorem line_position_byte (text : String) (b : Nat) :
    ((ofText text).position b).line = ((Utf8.encode text).take b).count newlineByte := by
  have hline := line_locate text.toList b 0 0 0
  rwa [Nat.zero_add, Nat.sub_zero, ← encode_eq] at hline

/-- A position that is read off a report has its start among the starts. -/
theorem start_of_positionAt? {starts : List Nat} {offset : Nat} {report : Except Nat Nat}
    {p : Position} (h : positionAt? starts offset report = some p) :
    ∃ start, starts[p.line]? = some start ∧ start ≤ offset ∧ p.column = offset - start := by
  cases report with
  | ok i =>
      simp only [positionAt?, checkedSub, Option.bind_eq_bind, Option.bind_eq_some_iff,
        Option.ite_none_right_eq_some, Option.some.injEq, Option.pure_def] at h
      obtain ⟨_, rfl, start, hstart, column, ⟨hle, rfl⟩, rfl⟩ := h
      exact ⟨start, hstart, hle, rfl⟩
  | error i =>
      simp only [positionAt?, checkedSub, Option.bind_eq_bind, Option.bind_eq_some_iff,
        Option.ite_none_right_eq_some, Option.some.injEq, Option.pure_def] at h
      obtain ⟨line, -, start, hstart, column, ⟨hle, rfl⟩, rfl⟩ := h
      exact ⟨start, hstart, hle, rfl⟩

/-- **The column of a byte** counts from the start of its line. -/
theorem lineStart?_position (text : String) (b : Nat) :
    ∃ start, (ofText text).lineStart? ((ofText text).position b).line = some start ∧
      start ≤ b ∧ ((ofText text).position b).column = b - start := by
  obtain ⟨report, hreport⟩ := exists_searchFits (starts_increasing text) b
  exact start_of_positionAt? (position_of_search text b hreport)

theorem line_position_mono (text : String) {b c : Nat} (h : b ≤ c) :
    ((ofText text).position b).line ≤ ((ofText text).position c).line := by
  rw [line_position_byte, line_position_byte]
  exact (List.take_prefix_take_left h).sublist.count_le newlineByte

/-- **Later bytes have later positions.** -/
theorem position_before (text : String) {b c : Nat} (h : b < c) :
    ((ofText text).position b).Before ((ofText text).position c) := by
  obtain ⟨start, hstart, hle, hcolumn⟩ := lineStart?_position text b
  obtain ⟨start', hstart', hle', hcolumn'⟩ := lineStart?_position text c
  rcases Nat.lt_or_eq_of_le (line_position_mono text (Nat.le_of_lt h)) with hline | hline
  · exact .left _ _ hline
  · rw [hline, hstart', Option.some.injEq] at hstart
    have hcolumns : ((ofText text).position b).column < ((ofText text).position c).column := by
      omega
    rw [Position.Before, hline]
    exact .right _ hcolumns

end LineTable

/-! ## The lines of a text -/

/-- A line is part of a text: whole lines lie above it, as many as its number says, and
the text ends behind it or goes on with a newline. -/
structure IsLine (cs : List Char) (i : Nat) (above line below : List Char) : Prop where
  split : cs = above ++ line ++ below
  wholeLines : WholeLines above
  number : above.count '\n' = i
  unbroken : '\n' ∉ line
  ended : below = [] ∨ ∃ more, below = '\n' :: more

/-- The first byte behind a line is a newline. -/
theorem IsLine.first_below {cs above line below : List Char} {i : Nat}
    (h : IsLine cs i above line below) :
    (charBytes below)[0]? = none ∨ (charBytes below)[0]? = some newlineByte := by
  rcases h.ended with rfl | ⟨more, rfl⟩
  · exact .inl rfl
  · exact .inr rfl

theorem length_splitAtNewlines (cs : List Char) :
    (splitAtNewlines cs).length = cs.count '\n' + 1 := by
  induction cs with
  | nil => rfl
  | cons c cs ih =>
      rw [splitAtNewlines]
      by_cases hc : c = '\n'
      · rw [if_pos hc, List.length_cons, ih, hc, List.count_cons_self]
      · rw [if_neg hc, List.count_cons_of_ne hc, ← ih]
        split
        · next hnone => simp [hnone] at ih
        · next line lines hsome => simp [hsome]

theorem length_startsAfterNewlines (offset : Nat) (cs : List Char) :
    (startsAfterNewlines offset cs).length = cs.count '\n' := by
  induction cs generalizing offset with
  | nil => rfl
  | cons c cs ih =>
      rw [startsAfterNewlines]
      by_cases hc : c = '\n'
      · rw [if_pos hc, List.length_cons, ih, hc, List.count_cons_self]
      · rw [if_neg hc, List.count_cons_of_ne hc, ih]

/-- Whole lines stay so behind another character, which is a newline if it stands alone. -/
theorem WholeLines.cons {c : Char} {above : List Char} (h : WholeLines above)
    (halone : above = [] → c = '\n') : WholeLines (c :: above) := by
  cases above with
  | nil => exact .inr (by simp [halone rfl])
  | cons d above =>
      rcases h with h | h
      · cases h
      · exact .inr (by simpa using h)

/-- A text can be cut behind any of its newlines. -/
theorem exists_wholeLines_count {cs : List Char} {i : Nat} (h : i ≤ cs.count '\n') :
    ∃ above rest, cs = above ++ rest ∧ WholeLines above ∧ above.count '\n' = i := by
  induction cs generalizing i with
  | nil => exact ⟨[], [], rfl, .inl rfl, (Nat.le_zero.mp h).symm⟩
  | cons c cs ih =>
      cases i with
      | zero => exact ⟨[], c :: cs, rfl, .inl rfl, rfl⟩
      | succ i =>
          by_cases hc : c = '\n'
          · subst hc
            rw [List.count_cons_self] at h
            obtain ⟨above, rest, rfl, hwhole, hcount⟩ := ih (Nat.le_of_succ_le_succ h)
            exact ⟨'\n' :: above, rest, rfl, hwhole.cons fun _ => rfl, by simp [hcount]⟩
          · rw [List.count_cons_of_ne hc] at h
            obtain ⟨above, rest, rfl, hwhole, hcount⟩ := ih h
            refine ⟨c :: above, rest, rfl, hwhole.cons ?_, by simp [hc, hcount]⟩
            rintro rfl
            cases hcount

/-- **Every line is somewhere.** -/
theorem exists_isLine {cs line : List Char} {i : Nat} (h : (splitAtNewlines cs)[i]? = some line) :
    ∃ above below, IsLine cs i above line below := by
  have hi : i ≤ cs.count '\n' := by
    have hlt := (List.getElem?_eq_some_iff.mp h).1
    rw [length_splitAtNewlines] at hlt
    omega
  obtain ⟨above, rest, rfl, hwhole, rfl⟩ := exists_wholeLines_count hi
  have hline : line = rest.takeWhile (· ≠ '\n') := by
    rw [← Nat.add_zero (above.count '\n'), ← List.getElem?_drop,
      splitAtNewlines_wholeLines hwhole, splitAtNewlines_head?] at h
    exact (Option.some.inj h).symm
  refine ⟨above, rest.dropWhile (· ≠ '\n'), ?_, hwhole, rfl, ?_, ?_⟩
  · rw [hline, List.append_assoc, List.takeWhile_append_dropWhile]
  · rw [hline]
    intro hmem
    simpa using List.mem_takeWhile_imp hmem
  · cases hbelow : rest.dropWhile (· ≠ '\n') with
    | nil => exact .inl rfl
    | cons c more =>
        have hc := List.head?_dropWhile_not (· ≠ '\n') rest
        rw [hbelow] at hc
        obtain rfl : c = '\n' := by simpa using hc
        exact .inr ⟨more, rfl⟩

/-! ## Where lines start and end -/

/-- The bytes of a line without the carriage return that they may end in. -/
def dropReturnByte (bytes : List UInt8) : List UInt8 :=
  if bytes.getLast? = some returnByte then bytes.dropLast else bytes

/-- What is dropped is one carriage return or nothing. -/
theorem dropReturnByte_append (bytes : List UInt8) :
    bytes = dropReturnByte bytes ∨ bytes = dropReturnByte bytes ++ [returnByte] := by
  unfold dropReturnByte
  split
  · next hlast =>
      obtain ⟨front, rfl⟩ := List.getLast?_eq_some_iff.mp hlast
      exact .inr (by rw [List.dropLast_concat])
  · exact .inl rfl

theorem charBytes_dropCarriageReturn (line : List Char) :
    charBytes (dropCarriageReturn line) = dropReturnByte (charBytes line) := by
  cases line using List.reverseRecOn with
  | nil => rfl
  | append_singleton front c =>
      have hsingle : charBytes [c] = String.utf8EncodeChar c := List.flatMap_singleton ..
      rw [dropCarriageReturn, dropReturnByte, charBytes_append, hsingle]
      by_cases hc : c = '\r'
      · have hbyte : String.utf8EncodeChar '\r' = [returnByte] := rfl
        subst hc
        simp [hbyte]
      · have hlast : (charBytes front ++ String.utf8EncodeChar c).getLast? ≠ some returnByte := by
          intro hreturn
          rw [List.getLast?_append,
            List.getLast?_eq_some_getLast String.utf8EncodeChar_ne_nil, Option.some_or,
            Option.some.injEq] at hreturn
          have hmem : returnByte ∈ String.utf8EncodeChar c := hreturn ▸ List.getLast_mem _
          exact hc (eq_of_mem_utf8EncodeChar (by decide) hmem)
        rw [if_neg hlast, if_neg (by simpa using hc), charBytes_append, hsingle]

/-- A column of a line that is followed by `below` shows the byte that stands there, or the
line is cut short in front of it: behind the cut are a carriage return, the newline with
which `below` starts, or nothing. -/
theorem getElem?_line {shown line below : List UInt8} {column : Nat}
    (hline : line = shown ∨ line = shown ++ [returnByte])
    (hfirst : below[0]? = none ∨ below[0]? = some newlineByte)
    (hcolumn : below ≠ [] → column ≤ line.length) :
    (column < shown.length → shown[column]? = (line ++ below)[column]?) ∧
      (shown.length ≤ column →
        (line ++ below)[column]? = none ∨ (line ++ below)[column]? = some newlineByte ∨
          (line ++ below)[column]? = some returnByte ∧
            ((line ++ below)[column + 1]? = none ∨
              (line ++ below)[column + 1]? = some newlineByte)) := by
  have hbehind : line.length ≤ column →
      (line ++ below)[column]? = none ∨ (line ++ below)[column]? = some newlineByte := by
    intro hlength
    rw [List.getElem?_append_right hlength]
    by_cases hbelow : below = []
    · exact .inl (by rw [hbelow]; rfl)
    · rwa [Nat.sub_eq_zero_of_le (hcolumn hbelow)]
  rcases hline with rfl | rfl
  · exact ⟨fun hinside => (List.getElem?_append_left hinside).symm,
      fun hstops => (hbehind hstops).imp_right .inl⟩
  · rw [List.append_assoc] at hbehind ⊢
    refine ⟨fun hinside => (List.getElem?_append_left hinside).symm, fun hstops => ?_⟩
    rcases Nat.eq_or_lt_of_le hstops with rfl | hlater
    · -- only the carriage return is left
      have hnext : shown.length + 1 - shown.length = 1 := Nat.add_sub_cancel_left ..
      rw [List.getElem?_append_right (Nat.le_refl _), Nat.sub_self,
        List.getElem?_append_right (Nat.le_add_right _ 1), hnext]
      exact .inr (.inr ⟨rfl, hfirst⟩)
    · have hlength : (shown ++ [returnByte]).length ≤ column := by
        rw [List.length_append]
        exact hlater
      exact (hbehind hlength).imp_right .inl

namespace LineTable

variable {text : String} {i : Nat} {above line below : List Char}

theorem lineCount_eq (text : String) : (ofText text).lineCount = text.toList.count '\n' + 1 := by
  rw [lineCount, starts, List.length_cons]
  exact congrArg (· + 1) (length_startsAfterNewlines 0 text.toList)

theorem length_texts (text : String) : (ofText text).texts.length = (ofText text).lineCount := by
  rw [lineCount_eq, ← length_splitAtNewlines]
  exact List.length_map _

/-- A line that is shown is a line of the text without its carriage return. -/
theorem exists_isLine_of_lineText? {shown : String}
    (h : (ofText text).lineText? i = some shown) :
    ∃ above line below, IsLine text.toList i above line below ∧
      Utf8.encode shown = dropReturnByte (charBytes line) := by
  simp only [lineText?, ofText, List.getElem?_map, Option.map_eq_some_iff] at h
  obtain ⟨line, hline, rfl⟩ := h
  obtain ⟨above, below, hisLine⟩ := exists_isLine hline
  refine ⟨above, line, below, hisLine, ?_⟩
  rw [encode_eq, String.toList_ofList, charBytes_dropCarriageReturn]

/-- A line starts behind the lines above. -/
theorem lineStart?_of_isLine (h : IsLine text.toList i above line below) :
    (ofText text).lineStart? i = some (byteLength above) := by
  have hsplit : text.toList = above ++ (line ++ below) := by rw [h.split, List.append_assoc]
  rw [← h.number, lineStart?_wholeLines hsplit h.wholeLines]

/-- The next line starts behind the newline, if there is one. -/
theorem lineStart?_succ_of_isLine (h : IsLine text.toList i above line below) :
    (ofText text).lineStart? (i + 1) =
      if below = [] then none else some (byteLength above + byteLength line + 1) := by
  have hcount : (above ++ line).count '\n' = i := by
    rw [List.count_append, h.number, List.count_eq_zero.mpr h.unbroken, Nat.add_zero]
  rcases h.ended with hend | ⟨more, hmore⟩
  · rw [if_pos hend, lineStart?, List.getElem?_eq_none_iff]
    change (ofText text).lineCount ≤ i + 1
    rw [lineCount_eq, h.split, hend, List.append_nil, hcount]
  · have hsplit : text.toList = (above ++ line ++ ['\n']) ++ more := by
      rw [h.split, hmore]
      simp
    have hstart := lineStart?_wholeLines hsplit (.inr (by simp))
    rw [List.count_append, hcount, byteLength_append, byteLength_append] at hstart
    rw [if_neg (by simp [hmore])]
    exact hstart

/-- Where a line ends: in front of the newline with which the next one starts, or at the
end of the text. -/
def lineEnd (table : LineTable) (length line : Nat) : Nat :=
  ((table.lineStart? (line + 1)).map (· - 1)).getD length

theorem lineEnd_of_isLine (h : IsLine text.toList i above line below) :
    (ofText text).lineEnd text.utf8ByteSize i = byteLength above + byteLength line := by
  rw [lineEnd, lineStart?_succ_of_isLine h]
  by_cases hend : below = []
  · rw [if_pos hend, Option.map_none, Option.getD_none, utf8ByteSize_eq_byteLength, h.split, hend,
      List.append_nil, byteLength_append]
  · rw [if_neg hend]
    rfl

theorem encode_of_isLine (h : IsLine text.toList i above line below) :
    Utf8.encode text = charBytes above ++ charBytes line ++ charBytes below := by
  rw [encode_eq, h.split, charBytes_append, charBytes_append]

/-- Bytes can be counted from the start of a line. -/
theorem getElem?_encode_of_isLine (h : IsLine text.toList i above line below) (k : Nat) :
    (Utf8.encode text)[byteLength above + k]? = (charBytes line ++ charBytes below)[k]? := by
  rw [encode_of_isLine h, List.append_assoc, ← length_charBytes above,
    List.getElem?_append_right (Nat.le_add_right _ k), Nat.add_sub_cancel_left]

/-- **The text of a line** is what lies between its start and its end, without a carriage
return. -/
theorem lineText?_sliced {shown : String} (h : (ofText text).lineText? i = some shown) :
    ∃ start, (ofText text).lineStart? i = some start ∧
      start ≤ (ofText text).lineEnd text.utf8ByteSize i ∧
      (ofText text).lineEnd text.utf8ByteSize i ≤ text.utf8ByteSize ∧
      Utf8.encode shown = dropReturnByte
        (((Utf8.encode text).take ((ofText text).lineEnd text.utf8ByteSize i)).drop start) := by
  obtain ⟨above, line, below, hisLine, hshown⟩ := exists_isLine_of_lineText? h
  have hbytes := encode_of_isLine hisLine
  have hfits : byteLength above + byteLength line ≤ text.utf8ByteSize := by
    rw [← length_encode, hbytes]
    simp only [List.length_append, length_charBytes]
    omega
  refine ⟨byteLength above, lineStart?_of_isLine hisLine, ?_, ?_, ?_⟩
  · rw [lineEnd_of_isLine hisLine]
    omega
  · rwa [lineEnd_of_isLine hisLine]
  · have hfront : (charBytes above ++ charBytes line).length =
        byteLength above + byteLength line := by
      rw [List.length_append, length_charBytes, length_charBytes]
    rw [lineEnd_of_isLine hisLine, hbytes, ← hfront, List.take_left, ← length_charBytes above,
      List.drop_left, hshown]

/-- A byte lies in front of the newline that ends its line, or is that newline. -/
theorem column_le_of_isLine {b : Nat}
    (h : IsLine text.toList ((ofText text).position b).line above line below)
    (hbelow : below ≠ []) : b ≤ byteLength above + byteLength line := by
  obtain hend | ⟨more, rfl⟩ := h.ended
  · exact absurd hend hbelow
  -- a byte behind the newline would be on a later line
  have hsplit : text.toList = (above ++ line ++ ['\n']) ++ more := by
    rw [h.split]
    simp
  have hlength : byteLength (above ++ line ++ ['\n']) = byteLength above + byteLength line + 1 := by
    rw [byteLength_append, byteLength_append]
    rfl
  have hnext := line_position hsplit
  rw [hlength, List.count_append, List.count_append, h.number,
    List.count_eq_zero.mpr h.unbroken] at hnext
  by_contra hbehind
  have hreached : byteLength above + byteLength line + 1 ≤ b := Nat.lt_of_not_le hbehind
  have hmono := line_position_mono text hreached
  have hone : ['\n'].count '\n' = 1 := rfl
  omega

/-- The line of a position is shown, and the column counts from its start. -/
theorem exists_isLine_position (text : String) (b : Nat) :
    ∃ shown above line below,
      (ofText text).lineText? ((ofText text).position b).line = some shown ∧
        IsLine text.toList ((ofText text).position b).line above line below ∧
        Utf8.encode shown = dropReturnByte (charBytes line) ∧
        byteLength above + ((ofText text).position b).column = b := by
  obtain ⟨start, hstart, hle, hcolumn⟩ := lineStart?_position text b
  have hline : ((ofText text).position b).line < (ofText text).texts.length := by
    rw [length_texts]
    exact (List.getElem?_eq_some_iff.mp hstart).1
  obtain ⟨shown, hshown⟩ : ∃ shown,
      (ofText text).lineText? ((ofText text).position b).line = some shown :=
    ⟨_, List.getElem?_eq_getElem hline⟩
  obtain ⟨above, line, below, hisLine, hbytes⟩ := exists_isLine_of_lineText? hshown
  rw [lineStart?_of_isLine hisLine, Option.some.injEq] at hstart
  exact ⟨shown, above, line, below, hshown, hisLine, hbytes, by omega⟩

/-- **The bytes of a line are shown at their columns.**  A byte is at its column in the
text of its line, unless the text of the line stops in front of it: then the byte is the
newline that ends the line, or a carriage return at the end of the line, or there is no
such byte. -/
theorem lineText?_position (text : String) (b : Nat) :
    ∃ shown, (ofText text).lineText? ((ofText text).position b).line = some shown ∧
      (((ofText text).position b).column < shown.utf8ByteSize →
        (Utf8.encode shown)[((ofText text).position b).column]? = (Utf8.encode text)[b]?) ∧
      (shown.utf8ByteSize ≤ ((ofText text).position b).column →
        (Utf8.encode text)[b]? = none ∨ (Utf8.encode text)[b]? = some newlineByte ∨
          (Utf8.encode text)[b]? = some returnByte ∧
            ((Utf8.encode text)[b + 1]? = none ∨
              (Utf8.encode text)[b + 1]? = some newlineByte)) := by
  obtain ⟨shown, above, line, below, hshown, hisLine, hbytes, hb⟩ := exists_isLine_position text b
  have hcolumn : charBytes below ≠ [] →
      ((ofText text).position b).column ≤ (charBytes line).length := by
    intro hbelow
    have hle := column_le_of_isLine hisLine fun h => hbelow (by rw [h, charBytes_nil])
    rw [length_charBytes]
    omega
  have hhere := getElem?_encode_of_isLine hisLine ((ofText text).position b).column
  have hnext := getElem?_encode_of_isLine hisLine (((ofText text).position b).column + 1)
  rw [← Nat.add_assoc, hb] at hnext
  rw [hb] at hhere
  have hcases := getElem?_line (hbytes ▸ dropReturnByte_append _) hisLine.first_below hcolumn
  rw [← hhere, ← hnext, length_encode] at hcases
  exact ⟨shown, hshown, hcases⟩

end LineTable

/-! ## The text from its lines -/

/-- A text without each carriage return that a newline or the end of the text follows. -/
def withoutReturns : List Char → List Char
  | [] => []
  | c :: cs =>
    if c = '\r' ∧ (cs.head? = none ∨ cs.head? = some '\n') then withoutReturns cs
    else c :: withoutReturns cs

theorem dropCarriageReturn_cons (c : Char) (line : List Char) :
    dropCarriageReturn (c :: line) =
      if c = '\r' ∧ line = [] then [] else c :: dropCarriageReturn line := by
  cases line with
  | nil => by_cases hc : c = '\r' <;> simp [dropCarriageReturn, hc]
  | cons d line =>
      unfold dropCarriageReturn
      simp only [List.getLast?_cons_cons, List.dropLast_cons_cons, reduceCtorEq, and_false, if_false]
      split <;> rfl

/-- **The lines make up the text**, joined by newlines. -/
theorem intercalate_splitAtNewlines (cs : List Char) :
    ['\n'].intercalate ((splitAtNewlines cs).map dropCarriageReturn) = withoutReturns cs := by
  induction cs with
  | nil => rfl
  | cons c cs ih =>
      have hhead := splitAtNewlines_head? cs
      rw [splitAtNewlines, withoutReturns]
      cases hlines : splitAtNewlines cs with
      | nil => simp [hlines] at hhead
      | cons line lines =>
          rw [hlines] at ih hhead
          by_cases hc : c = '\n'
          · subst hc
            rw [if_pos rfl, if_neg (by simp), ← ih]
            rfl
          · have hempty : line = [] ↔ cs.head? = none ∨ cs.head? = some '\n' := by
              obtain rfl : line = cs.takeWhile (· ≠ '\n') := by simpa using hhead
              cases cs <;> simp
            rw [if_neg hc]
            dsimp only
            rw [List.map_cons, dropCarriageReturn_cons, ← ih, List.map_cons]
            by_cases hreturn : c = '\r' ∧ line = []
            · rw [if_pos hreturn, if_pos ⟨hreturn.1, hempty.mp hreturn.2⟩, hreturn.2]
              rfl
            · rw [if_neg hreturn, if_neg fun h => hreturn ⟨h.1, hempty.mpr h.2⟩]
              cases lines <;> rfl

-- only the last of several carriage returns goes
example : withoutReturns "a\r\r\n\rb\r".toList = "a\r\n\rb".toList := by decide

theorem filterMap_getElem?_range {α : Type} (xs : List α) :
    (List.range xs.length).filterMap (fun i => xs[i]?) = xs := by
  induction xs with
  | nil => rfl
  | cons x xs ih =>
      rw [List.length_cons, List.range_succ_eq_map, List.filterMap_cons, List.filterMap_map]
      exact congrArg (x :: ·) ih

/-! ## A whole text -/

/-- The positions of a text and the texts of its lines are consistent with its bytes. -/
structure LinesConsistent (text : String) : Prop where
  /-- The line of an offset is the number of newlines in front of it. -/
  line : ∀ b, ((LineTable.ofText text).position b).line =
    ((Utf8.encode text).take (min b text.utf8ByteSize)).count newlineByte
  /-- Its column is counted from the start of the line. -/
  column : ∀ b, ∃ start,
    (LineTable.ofText text).lineStart? ((LineTable.ofText text).position b).line = some start ∧
      ((LineTable.ofText text).position b).column = b - start ∧
      start + ((LineTable.ofText text).position b).column = b
  /-- The same line and column come out of every search among the line starts. -/
  searched : ∀ b, (∃ report, SearchFits (LineTable.ofText text).starts b report) ∧
    ∀ report, SearchFits (LineTable.ofText text).starts b report →
      positionAt? (LineTable.ofText text).starts b report =
        some ((LineTable.ofText text).position b)
  /-- Positions ascend with offsets. -/
  ascending : ∀ b c, b < c →
    ((LineTable.ofText text).position b).Before ((LineTable.ofText text).position c)
  /-- Every line has a text, and there are no others. -/
  defined : ∀ i, ((LineTable.ofText text).lineText? i).isSome = true ↔
    i < (LineTable.ofText text).lineCount
  /-- The text of a line is cut out between its start and its end. -/
  sliced : ∀ i shown, (LineTable.ofText text).lineText? i = some shown → ∃ start,
    (LineTable.ofText text).lineStart? i = some start ∧
      start ≤ (LineTable.ofText text).lineEnd text.utf8ByteSize i ∧
      (LineTable.ofText text).lineEnd text.utf8ByteSize i ≤ text.utf8ByteSize ∧
      Utf8.encode shown = dropReturnByte
        (((Utf8.encode text).take ((LineTable.ofText text).lineEnd text.utf8ByteSize i)).drop start)
  /-- Joined by newlines, the lines are the text but for carriage returns. -/
  joined : "\n".intercalate ((List.range (LineTable.ofText text).lineCount).filterMap
    (LineTable.ofText text).lineText?) = String.ofList (withoutReturns text.toList)
  /-- The byte at an offset is shown at its column, unless it is a line break or part of
  one. -/
  shown : ∀ b, ∃ shown,
    (LineTable.ofText text).lineText? ((LineTable.ofText text).position b).line = some shown ∧
      (((LineTable.ofText text).position b).column < shown.utf8ByteSize →
        (Utf8.encode shown)[((LineTable.ofText text).position b).column]? =
          (Utf8.encode text)[b]?) ∧
      (shown.utf8ByteSize ≤ ((LineTable.ofText text).position b).column →
        (Utf8.encode text)[b]? = none ∨ (Utf8.encode text)[b]? = some newlineByte ∨
          (Utf8.encode text)[b]? = some returnByte ∧
            ((Utf8.encode text)[b + 1]? = none ∨
              (Utf8.encode text)[b + 1]? = some newlineByte))

/-- **Positions and lines are consistent** with the bytes of the text, at every offset and
for every line. -/
theorem lines_consistent (text : String) : LinesConsistent text := by
  constructor
  case line =>
      intro b
      rw [LineTable.line_position_byte, ← length_encode, ← List.take_eq_take_min]
  case column =>
      intro b
      obtain ⟨start, hstart, hle, hcolumn⟩ := LineTable.lineStart?_position text b
      exact ⟨start, hstart, hcolumn, by omega⟩
  case searched =>
      exact fun b => ⟨exists_searchFits (LineTable.starts_increasing text) b,
        fun _ hreport => LineTable.position_of_search text b hreport⟩
  case ascending => exact fun b c => LineTable.position_before text
  case defined =>
      intro i
      rw [LineTable.lineText?, isSome_getElem?, LineTable.length_texts]
  case sliced => exact fun i shown => LineTable.lineText?_sliced
  case joined =>
      have htexts : (List.range (LineTable.ofText text).lineCount).filterMap
          (LineTable.ofText text).lineText? = (LineTable.ofText text).texts := by
        rw [← LineTable.length_texts]
        exact filterMap_getElem?_range _
      have hchars : (LineTable.ofText text).texts.map String.toList =
          (splitAtNewlines text.toList).map dropCarriageReturn := by
        simp [LineTable.ofText, Function.comp_def]
      rw [htexts, ← String.toList_inj, String.toList_intercalate, hchars]
      exact (intercalate_splitAtNewlines text.toList).trans String.toList_ofList.symm
  case shown => exact LineTable.lineText?_position text

end CamlIndex
