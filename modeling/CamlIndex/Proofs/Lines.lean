import CamlIndex.Proofs.Place
import Mathlib.Data.List.Induction

/-!
# The line of an offset

A place in a text splits what stands before it in two: whole lines, which end
in a newline, and the part of its own line that lies before it
(`exists_wholeLines`).  The line table knows both:

* `position_wholeLines` — the line is the number of newlines above, the column
  the number of bytes to the left;
* `lineStart?_wholeLines` — the line starts where the whole lines end;
* `lineText?_wholeLines` — the text of the line starts with what is to the left.

Each is an induction over the lines above.
-/

namespace CamlIndex

/-- Text that consists of whole lines: it is empty or ends in a newline. -/
def WholeLines (above : List Char) : Prop :=
  above = [] ∨ above.getLast? = some '\n'

/-- Before any place there are whole lines and the beginning of its own line. -/
theorem exists_wholeLines (before : List Char) :
    ∃ above left, before = above ++ left ∧ WholeLines above ∧ '\n' ∉ left := by
  induction before using List.reverseRecOn with
  | nil => exact ⟨[], [], rfl, .inl rfl, by simp⟩
  | append_singleton before c ih =>
      obtain ⟨above, left, rfl, hwhole, hleft⟩ := ih
      by_cases hc : c = '\n'
      · subst hc
        exact ⟨above ++ left ++ ['\n'], [], by simp, .inr (by simp), by simp⟩
      · exact ⟨above, left ++ [c], by simp, hwhole, by simp [hleft, Ne.symm hc]⟩

/-- Whole lines without their first character are whole lines or one newline was all. -/
theorem WholeLines.tail {c : Char} {above : List Char} (h : WholeLines (c :: above)) :
    WholeLines above ∧ (above = [] → c = '\n') := by
  rcases h with h | h
  · cases h
  · cases above with
    | nil => exact ⟨.inl rfl, fun _ => by simpa using h⟩
    | cons d above => exact ⟨.inr (by simpa using h), fun h => by cases h⟩

/-- All line starts of what follows lie behind it. -/
theorem lt_of_mem_startsAfterNewlines {offset start : Nat} {cs : List Char}
    (h : start ∈ startsAfterNewlines offset cs) : offset < start := by
  induction cs generalizing offset with
  | nil => simp [startsAfterNewlines] at h
  | cons c cs ih =>
      have hpositive := c.utf8Size_pos
      unfold startsAfterNewlines at h
      split at h
      · rcases List.mem_cons.mp h with rfl | h
        · omega
        · have := ih h
          omega
      · have := ih h
        omega

/-- Characters without newline start no line. -/
theorem startsAfterNewlines_append {left : List Char} (hleft : '\n' ∉ left) (offset : Nat)
    (cs : List Char) :
    startsAfterNewlines offset (left ++ cs) =
      startsAfterNewlines (offset + byteLength left) cs := by
  induction left generalizing offset with
  | nil => rfl
  | cons c left ih =>
      simp only [List.mem_cons, not_or] at hleft
      rw [List.cons_append, startsAfterNewlines, if_neg (Ne.symm hleft.1), ih hleft.2,
        byteLength_cons, Nat.add_assoc]

/-- The start of the line behind whole lines that begin at `offset`, where the
line at `offset` itself starts at `start`. -/
def startBehind (start offset : Nat) (above : List Char) : Nat :=
  if above = [] then start else offset + byteLength above

/-- The start behind one more line: a newline starts its own. -/
theorem startBehind_newline (start offset : Nat) (above : List Char) :
    startBehind (offset + 1) (offset + 1) above = startBehind start offset ('\n' :: above) := by
  unfold startBehind
  have : '\n'.utf8Size = 1 := rfl
  split
  · next h => simp [h, this]
  · simp only [byteLength_cons, this, List.cons_ne_nil, if_false]
    omega

/-- The start behind one more character of a line that goes on. -/
theorem startBehind_cons {c : Char} {above : List Char} (h : above ≠ []) (start offset : Nat) :
    startBehind start (offset + c.utf8Size) above = startBehind start offset (c :: above) := by
  simp [startBehind, h, Nat.add_assoc]

namespace LineTable

/-- A search passes all whole lines that lie before the offset. -/
theorem locate_wholeLines {above : List Char} (hwhole : WholeLines above) (cs : List Char)
    {offset base : Nat} (hreach : base + byteLength above ≤ offset) (line start : Nat) :
    locate offset line start (startsAfterNewlines base (above ++ cs)) =
      locate offset (line + above.count '\n') (startBehind start base above)
        (startsAfterNewlines (base + byteLength above) cs) := by
  induction above generalizing base line start with
  | nil => rfl
  | cons c above ih =>
      obtain ⟨htail, hlast⟩ := hwhole.tail
      simp only [byteLength_cons] at hreach ⊢
      rw [List.cons_append, startsAfterNewlines]
      by_cases hc : c = '\n'
      · subst hc
        have hsize : '\n'.utf8Size = 1 := rfl
        rw [hsize] at hreach ⊢
        rw [if_pos rfl, locate, if_pos (by omega), ih htail (by omega),
          startBehind_newline start, List.count_cons_self, Nat.add_assoc base,
          Nat.add_assoc line, Nat.add_comm 1 (above.count '\n')]
      · have hmore : above ≠ [] := fun h => hc (hlast h)
        rw [if_neg hc, ih htail (by omega), startBehind_cons hmore, List.count_cons_of_ne hc,
          Nat.add_assoc base]

/-- A search stops on the line of the offset. -/
theorem locate_stop {left : List Char} (hleft : '\n' ∉ left) (cs : List Char)
    (base line start : Nat) :
    locate (base + byteLength left) line start (startsAfterNewlines base (left ++ cs)) =
      ⟨line, base + byteLength left - start⟩ := by
  rw [startsAfterNewlines_append hleft]
  cases hstarts : startsAfterNewlines (base + byteLength left) cs with
  | nil => rfl
  | cons next later =>
      have : base + byteLength left < next :=
        lt_of_mem_startsAfterNewlines (hstarts ▸ List.mem_cons_self)
      rw [locate, if_neg (by omega)]

/-- **The position of an offset.**  Its line is the number of newlines above,
its column the number of bytes to its left. -/
theorem position_wholeLines {text : String} {above left cs : List Char}
    (htext : text.toList = above ++ left ++ cs) (hwhole : WholeLines above)
    (hleft : '\n' ∉ left) :
    (ofText text).position (byteLength above + byteLength left) =
      ⟨above.count '\n', byteLength left⟩ := by
  rw [position, ofText, htext, List.append_assoc, locate_wholeLines hwhole _ (by omega),
    Nat.zero_add, Nat.zero_add, locate_stop hleft]
  unfold startBehind
  split
  · next h => simp [h]
  · simp

/-- The line of a place is the number of newlines in front of it. -/
theorem line_position {text : String} {before after : List Char}
    (htext : text.toList = before ++ after) :
    ((ofText text).position (byteLength before)).line = before.count '\n' := by
  obtain ⟨above, left, rfl, hwhole, hleft⟩ := exists_wholeLines before
  rw [byteLength_append, position_wholeLines htext hwhole hleft, List.count_append,
    List.count_eq_zero.mpr hleft, Nat.add_zero]

/-- **The start of a line** is the number of bytes of the whole lines above. -/
theorem lineStart?_wholeLines {text : String} {above cs : List Char}
    (htext : text.toList = above ++ cs) (hwhole : WholeLines above) :
    (ofText text).lineStart? (above.count '\n') = some (byteLength above) := by
  have hstarts : ∀ (above : List Char) (start base : Nat), WholeLines above →
      (start :: startsAfterNewlines base (above ++ cs))[above.count '\n']? =
        some (startBehind start base above) := by
    intro above
    induction above with
    | nil => intros; rfl
    | cons c above ih =>
        intro start base hwhole
        obtain ⟨htail, hlast⟩ := hwhole.tail
        rw [List.cons_append, startsAfterNewlines]
        by_cases hc : c = '\n'
        · subst hc
          rw [if_pos rfl, List.count_cons_self, List.getElem?_cons_succ, ih _ _ htail,
            startBehind_newline]
        · have hmore : above ≠ [] := fun h => hc (hlast h)
          rw [if_neg hc, List.count_cons_of_ne hc, ih _ _ htail, startBehind_cons hmore]
  rw [lineStart?, starts, ofText, htext, hstarts above 0 0 hwhole]
  unfold startBehind
  split
  · next h => simp [h]
  · simp

end LineTable

/-- The lines behind whole lines are those of the rest. -/
theorem splitAtNewlines_wholeLines {above : List Char} (hwhole : WholeLines above)
    (cs : List Char) :
    (splitAtNewlines (above ++ cs)).drop (above.count '\n') = splitAtNewlines cs := by
  induction above with
  | nil => rfl
  | cons c above ih =>
      obtain ⟨htail, hlast⟩ := hwhole.tail
      rw [List.cons_append, splitAtNewlines]
      by_cases hc : c = '\n'
      · subst hc
        rw [if_pos rfl, List.count_cons_self, List.drop_succ_cons, ih htail]
      · have hmore : 0 < above.count '\n' := by
          rcases htail with h | h
          · exact absurd (hlast h) hc
          · exact List.count_pos_iff.mpr (List.mem_of_getLast? h)
        obtain ⟨n, hn⟩ : ∃ n, above.count '\n' = n + 1 := ⟨_, (Nat.succ_pred_eq_of_pos hmore).symm⟩
        rw [if_neg hc, List.count_cons_of_ne hc, ← ih htail, hn]
        split
        · next h => simp [h]
        · next h => simp [h]

/-- The first line of a text goes up to its first newline. -/
theorem splitAtNewlines_head? (cs : List Char) :
    (splitAtNewlines cs)[0]? = some (cs.takeWhile (· ≠ '\n')) := by
  induction cs with
  | nil => rfl
  | cons c cs ih =>
      rw [splitAtNewlines]
      by_cases hc : c = '\n'
      · simp [hc]
      · rw [if_neg hc]
        cases hsplit : splitAtNewlines cs with
        | nil => simp [hsplit] at ih
        | cons line lines =>
            have hline : line = cs.takeWhile (· ≠ '\n') := by simpa [hsplit] using ih
            simp [hc, hline]

/-- A line keeps all that does not end it. -/
theorem dropCarriageReturn_append {front : List Char} (hfront : front.getLast? ≠ some '\r')
    (back : List Char) : ∃ rest, dropCarriageReturn (front ++ back) = front ++ rest := by
  unfold dropCarriageReturn
  split
  · next hlast =>
      cases back using List.reverseRecOn with
      | nil => exact absurd (by simpa using hlast) hfront
      | append_singleton back c => exact ⟨back, by simp [← List.append_assoc]⟩
  · exact ⟨back, rfl⟩

/-- **The text of a line** holds what stands on it, up to the line break. -/
theorem lineText?_wholeLines {text : String} {above front cs : List Char}
    (htext : text.toList = above ++ front ++ cs) (hwhole : WholeLines above)
    (hfront : '\n' ∉ front) (hlast : front.getLast? ≠ some '\r') :
    ∃ rest, (LineTable.ofText text).lineText? (above.count '\n') =
      some (String.ofList (front ++ rest)) := by
  have hline : (splitAtNewlines text.toList)[above.count '\n']? =
      some (front ++ cs.takeWhile (· ≠ '\n')) := by
    have htake : (front ++ cs).takeWhile (· ≠ '\n') = front ++ cs.takeWhile (· ≠ '\n') :=
      List.takeWhile_append_of_pos fun c hc => by
        simpa using fun h : c = '\n' => hfront (h ▸ hc)
    rw [← htake, ← splitAtNewlines_head?, ← splitAtNewlines_wholeLines hwhole (front ++ cs),
      List.getElem?_drop, Nat.add_zero, htext, List.append_assoc]
  obtain ⟨rest, hrest⟩ := dropCarriageReturn_append hlast (cs.takeWhile (· ≠ '\n'))
  refine ⟨rest, ?_⟩
  simp only [LineTable.lineText?, LineTable.ofText, List.getElem?_map, hline, Option.map_some, hrest]

end CamlIndex
