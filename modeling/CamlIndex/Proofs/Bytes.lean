import CamlIndex.Proofs.Place
import CamlIndex.Text.Utf8

/-!
# Scanning bytes instead of characters

A lexer that scans the bytes of a text looks at one byte after the other, cuts
off the bytes behind a quote, counts how deep a comment is and in the end moves
on by as many bytes as it has counted.  Each of these steps can fail: there may
be no such byte, the depth may be zero already, and the bytes counted may end
inside a character.  Here every step gives nothing when it fails
(`scanComment?`, `bump?`), and it is shown that none of them ever does.

All marks of strings and comments are ASCII, and no byte of a longer character
is.  So a scanner passes the bytes of a longer character like that character
itself, and takes from the bytes of a text the bytes of what it takes from the
text (`stringBody_byteUnits`, `commentBody_byteUnits`).

* `scanComment?_eq` — the scan of a comment gives a number, which is that of
  the bytes that `commentBody` takes;
* `bump?_comment`, `bump?_string` — moving on by the number of bytes of a comment
  or a string ends behind it, at a character.
-/

namespace CamlIndex

/-- The difference of two numbers, if the second is not larger. -/
def checkedSub (a b : Nat) : Option Nat :=
  if b ≤ a then some (a - b) else none

/-- The part of a list from place `i` on, if it is that long. -/
def dropChecked (cs : List Char) (i : Nat) : Option (List Char) :=
  if i ≤ cs.length then some (cs.drop i) else none

/-- What is left of a text behind its first `n` bytes, if these are whole characters. -/
def bump? : List Char → Nat → Option (List Char)
  | rest, 0 => some rest
  | [], _ + 1 => none
  | c :: cs, n => do bump? cs (← checkedSub n c.utf8Size)

/-- The number of bytes up to the end of the comment that byte `i` lies in, where
`depth` comments are open; nothing if a step fails.  Bytes are given as the
characters with their numbers. -/
def scanComment? (bytes : List Char) (i depth : Nat) (afterStar : Bool) : Option Nat :=
  if _ : i < bytes.length then do
    let byte ← bytes[i]?
    if byte = ')' ∧ afterStar then
      let outer ← checkedSub depth 1
      if outer = 0 then some (i + 1) else scanComment? bytes (i + 1) outer false
    else if byte = '(' ∧ bytes[i + 1]? = some '*' then
      scanComment? bytes (i + 2) (depth + 1) false
    else if byte = '"' then
      let body ← dropChecked bytes (i + 1)
      scanComment? bytes (i + 1 + (stringTail body).length) depth false
    else if byte = '\'' ∧ bytes[i + 1]? = some '"' ∧ bytes[i + 2]? = some '\'' then
      scanComment? bytes (i + 3) depth false
    else scanComment? bytes (i + 1) depth (byte == '*')
  else some bytes.length
termination_by bytes.length - i

theorem commentBody_plain_cons (depth : Nat) (afterStar : Bool) (c : Char) (cs : List Char) :
    commentBody depth (.plain afterStar) (c :: cs) =
      if c = ')' ∧ afterStar then
        (if depth = 0 then [c] else c :: commentBody (depth - 1) (.plain false) cs)
      else if c = '(' ∧ cs[0]? = some '*' then
        '(' :: '*' :: commentBody (depth + 1) (.plain false) (cs.drop 1)
      else if c = '"' then c :: commentBody depth (.quoted false) cs
      else if c = '\'' ∧ cs[0]? = some '"' ∧ cs[1]? = some '\'' then
        '\'' :: '"' :: '\'' :: commentBody depth (.plain false) (cs.drop 2)
      else c :: commentBody depth (.plain (c == '*')) cs := by
  by_cases hclose : c = ')' ∧ afterStar
  · obtain ⟨rfl, rfl⟩ := hclose
    cases depth <;> simp [commentBody]
  rw [if_neg hclose]
  by_cases hopen : c = '(' ∧ cs[0]? = some '*'
  · obtain ⟨rfl, hstar⟩ := hopen
    cases cs with
    | nil => cases hstar
    | cons star cs =>
        cases hstar
        simp [commentBody]
  rw [if_neg hopen]
  by_cases hquote : c = '"'
  · subst hquote
    simp [commentBody]
  rw [if_neg hquote]
  by_cases hliteral : c = '\'' ∧ cs[0]? = some '"' ∧ cs[1]? = some '\''
  · obtain ⟨rfl, hmark, hend⟩ := hliteral
    match cs with
    | [] => cases hmark
    | [_] => cases hend
    | _ :: _ :: cs =>
        cases hmark
        cases hend
        simp [commentBody]
  rw [if_neg hliteral]
  rw [commentBody] <;> grind

theorem commentBody_quoted (depth : Nat) (escaped : Bool) (cs : List Char) :
    commentBody depth (.quoted escaped) cs =
      stringBody escaped cs
        ++ commentBody depth (.plain false) (cs.drop (stringBody escaped cs).length) := by
  induction cs generalizing escaped with
  | nil => simp [commentBody, stringBody]
  | cons c cs ih =>
      rw [commentBody, stringBody]
      by_cases hend : c = '"' ∧ escaped = false
      · simp [hend]
      · simp [hend, ih]

theorem checkedSub_of_le {a b : Nat} (h : b ≤ a) : checkedSub a b = some (a - b) :=
  if_pos h

theorem dropChecked_of_le {cs : List Char} {i : Nat} (h : i ≤ cs.length) :
    dropChecked cs i = some (cs.drop i) :=
  if_pos h

theorem length_stringBody_le (escaped : Bool) (cs : List Char) :
    (stringBody escaped cs).length ≤ cs.length := by
  have h := congrArg List.length (stringBody_append_drop escaped cs)
  rw [List.length_append] at h
  omega

theorem scanComment?_eq (bytes : List Char) (i depth : Nat) (afterStar : Bool)
    (hdepth : 0 < depth) (hi : i ≤ bytes.length) :
    scanComment? bytes i depth afterStar =
      some (i + (commentBody (depth - 1) (.plain afterStar) (bytes.drop i)).length) := by
  fun_induction scanComment? bytes i depth afterStar with
  | case1 i depth afterStar hlt ihClose ihOpen ihString ihLiteral ihOther =>
      rw [List.drop_eq_getElem_cons hlt, commentBody_plain_cons, List.getElem?_eq_getElem hlt]
      simp only [Option.bind_eq_bind, Option.bind_some, List.getElem?_drop, List.drop_drop,
        Nat.add_zero, Nat.add_assoc, Nat.reduceAdd]
      by_cases hclose : bytes[i] = ')' ∧ afterStar
      · rw [if_pos hclose, if_pos hclose, checkedSub_of_le hdepth, Option.bind_some]
        by_cases hlast : depth - 1 = 0
        · simp [hlast]
        · rw [if_neg hlast, if_neg hlast, ihClose (depth - 1) (by omega) (by omega)]
          simp only [List.length_cons, Option.some.injEq]
          omega
      rw [if_neg hclose, if_neg hclose]
      by_cases hopen : bytes[i] = '(' ∧ bytes[i + 1]? = some '*'
      · have hstar := (List.getElem?_eq_some_iff.mp hopen.2).1
        rw [if_pos hopen, if_pos hopen, ihOpen (by omega) (by omega)]
        simp only [List.length_cons, Option.some.injEq, Nat.sub_add_cancel hdepth,
          Nat.add_sub_cancel]
        omega
      rw [if_neg hopen, if_neg hopen]
      by_cases hquote : bytes[i] = '"'
      · have hbody := length_stringBody_le false (bytes.drop (i + 1))
        rw [List.length_drop] at hbody
        rw [if_pos hquote, if_pos hquote, dropChecked_of_le (by omega), Option.bind_some]
        have hstring := ihString (bytes.drop (i + 1)) hdepth (by unfold stringTail; omega)
        rw [← Nat.add_assoc, hstring, commentBody_quoted]
        simp only [stringTail, List.length_cons, List.length_append, List.drop_drop,
          Option.some.injEq]
        omega
      rw [if_neg hquote, if_neg hquote]
      by_cases hliteral : bytes[i] = '\'' ∧ bytes[i + 1]? = some '"' ∧ bytes[i + 2]? = some '\''
      · have hend := (List.getElem?_eq_some_iff.mp hliteral.2.2).1
        rw [if_pos hliteral, if_pos hliteral, ihLiteral hdepth (by omega)]
        simp only [List.length_cons, Option.some.injEq]
        omega
      rw [if_neg hliteral, if_neg hliteral, ihOther bytes[i] hdepth (by omega)]
      simp only [List.length_cons, Option.some.injEq]
      omega
  | case2 i depth afterStar hlt =>
      have hend : i = bytes.length := by omega
      rw [List.drop_eq_nil_of_le (by omega)]
      simp [commentBody, hend]

/-! ## Bytes of characters -/

/-- The bytes of characters, each as the character with its number. -/
def byteUnits (cs : List Char) : List Char :=
  bytesAsChars (cs.flatMap String.utf8EncodeChar)

@[simp] theorem byteUnits_nil : byteUnits [] = [] := rfl

theorem byteUnits_cons (c : Char) (cs : List Char) :
    byteUnits (c :: cs) = bytesAsChars (String.utf8EncodeChar c) ++ byteUnits cs := by
  simp [byteUnits, bytesAsChars]

theorem length_byteUnits (cs : List Char) : (byteUnits cs).length = byteLength cs := by
  induction cs with
  | nil => rfl
  | cons c cs ih => simp [byteUnits_cons, bytesAsChars, ih]

theorem byteUnits_cons_ascii {c : Char} (hc : c.toNat < 128) (cs : List Char) :
    byteUnits (c :: cs) = c :: byteUnits cs := by
  have hle : c.val.toNat ≤ 127 := by
    change c.toNat ≤ 127
    omega
  have hnat : c.toNat % 256 = c.toNat := Nat.mod_eq_of_lt (by omega)
  rw [byteUnits_cons, bytesAsChars, String.utf8EncodeChar, if_pos hle]
  simp [hnat]

theorem toNat_ofNat_byte (byte : UInt8) : (Char.ofNat byte.toNat).toNat = byte.toNat := by
  have hvalid : byte.toNat.isValidChar := Or.inl (by have := byte.toNat_lt; omega)
  rw [Char.ofNat, dif_pos hvalid]
  rfl

/-- No byte of a longer character is ASCII. -/
theorem bytes_of_other {c : Char} (hc : 128 ≤ c.toNat) :
    ∀ byte ∈ String.utf8EncodeChar c, 128 ≤ byte.toNat := by
  have hval : c.val.toNat = c.toNat := rfl
  intro byte hbyte
  unfold String.utf8EncodeChar at hbyte
  simp only [hval] at hbyte
  by_cases hone : c.toNat ≤ 0x7f
  · omega
  rw [if_neg hone] at hbyte
  by_cases htwo : c.toNat ≤ 0x7ff
  · rw [if_pos htwo] at hbyte
    simp only [List.mem_cons, List.not_mem_nil, or_false] at hbyte
    rcases hbyte with rfl | rfl <;> simp only [UInt8.toNat_ofNat'] <;> omega
  rw [if_neg htwo] at hbyte
  by_cases hthree : c.toNat ≤ 0xffff
  · rw [if_pos hthree] at hbyte
    simp only [List.mem_cons, List.not_mem_nil, or_false] at hbyte
    rcases hbyte with rfl | rfl | rfl <;> simp only [UInt8.toNat_ofNat'] <;> omega
  · rw [if_neg hthree] at hbyte
    simp only [List.mem_cons, List.not_mem_nil, or_false] at hbyte
    rcases hbyte with rfl | rfl | rfl | rfl <;> simp only [UInt8.toNat_ofNat'] <;> omega

theorem byteUnits_cons_other {c : Char} (hc : 128 ≤ c.toNat) :
    ∃ first more, 128 ≤ first.toNat ∧ (∀ unit ∈ more, 128 ≤ unit.toNat)
      ∧ ∀ cs, byteUnits (c :: cs) = first :: (more ++ byteUnits cs) := by
  have hbytes := bytes_of_other hc
  cases hencoded : String.utf8EncodeChar c with
  | nil => exact absurd hencoded String.utf8EncodeChar_ne_nil
  | cons first more =>
      rw [hencoded] at hbytes
      refine ⟨Char.ofNat first.toNat, bytesAsChars more, ?_, ?_, ?_⟩
      · rw [toNat_ofNat_byte]
        exact hbytes first (by simp)
      · intro unit hunit
        obtain ⟨byte, hbyte, rfl⟩ := List.mem_map.mp hunit
        rw [toNat_ofNat_byte]
        exact hbytes byte (by simp [hbyte])
      · intro cs
        rw [byteUnits_cons, hencoded]
        rfl

theorem byteUnits_getElem?_zero {mark : Char} (hmark : mark.toNat < 128) (cs : List Char) :
    (byteUnits cs)[0]? = some mark ↔ cs[0]? = some mark := by
  cases cs with
  | nil => simp
  | cons c cs =>
      rcases Nat.lt_or_ge c.toNat 128 with hc | hc
      · simp [byteUnits_cons_ascii hc]
      · obtain ⟨first, more, hfirst, -, hcons⟩ := byteUnits_cons_other hc
        rw [hcons]
        simp only [List.getElem?_cons_zero, Option.some.injEq]
        constructor
        · rintro rfl
          omega
        · rintro rfl
          omega

theorem eq_cons_of_getElem?_zero {c : Char} {cs : List Char} (h : cs[0]? = some c) :
    ∃ rest, cs = c :: rest := by
  cases cs with
  | nil => cases h
  | cons d rest =>
      cases h
      exact ⟨rest, rfl⟩

/-- The two characters that make a quote a literal are recognised in the bytes. -/
theorem byteUnits_literal_iff (cs : List Char) :
    ((byteUnits cs)[0]? = some '"' ∧ (byteUnits cs)[1]? = some '\'')
      ↔ (cs[0]? = some '"' ∧ cs[1]? = some '\'') := by
  rw [byteUnits_getElem?_zero (by decide)]
  constructor
  all_goals
    rintro ⟨hmark, hend⟩
    obtain ⟨rest, rfl⟩ := eq_cons_of_getElem?_zero hmark
    refine ⟨hmark, ?_⟩
    rw [byteUnits_cons_ascii (by decide)] at *
    simp only [List.getElem?_cons_succ] at *
  · exact (byteUnits_getElem?_zero (by decide) rest).mp hend
  · exact (byteUnits_getElem?_zero (by decide) rest).mpr hend

/-- A character that is no mark is plain comment text. -/
theorem commentBody_cons_other {c : Char} (hc : 128 ≤ c.toNat) (depth : Nat) (afterStar : Bool)
    (cs : List Char) :
    commentBody depth (.plain afterStar) (c :: cs) = c :: commentBody depth (.plain false) cs := by
  have hne : ∀ mark : Char, mark.toNat < 128 → c ≠ mark := by
    rintro mark hmark rfl
    omega
  have hstar : (c == '*') = false := beq_false_of_ne (hne '*' (by decide))
  rw [commentBody_plain_cons, hstar]
  simp [hne ')' (by decide), hne '(' (by decide), hne '"' (by decide), hne '\'' (by decide)]

theorem stringBody_cons_other {c : Char} (hc : 128 ≤ c.toNat) (escaped : Bool) (cs : List Char) :
    stringBody escaped (c :: cs) = c :: stringBody false cs := by
  have hne : ∀ mark : Char, mark.toNat < 128 → c ≠ mark := by
    rintro mark hmark rfl
    omega
  have hslash : (c == '\\') = false := beq_false_of_ne (hne '\\' (by decide))
  rw [stringBody, hslash]
  simp [hne '"' (by decide)]

theorem commentBody_append_other {more : List Char} (hmore : ∀ c ∈ more, 128 ≤ c.toNat)
    (depth : Nat) (cs : List Char) :
    commentBody depth (.plain false) (more ++ cs) = more ++ commentBody depth (.plain false) cs := by
  induction more with
  | nil => rfl
  | cons c more ih =>
      rw [List.cons_append, commentBody_cons_other (hmore c (by simp)),
        ih fun d hd => hmore d (by simp [hd])]
      rfl

theorem stringBody_append_other {more : List Char} (hmore : ∀ c ∈ more, 128 ≤ c.toNat)
    (cs : List Char) : stringBody false (more ++ cs) = more ++ stringBody false cs := by
  induction more with
  | nil => rfl
  | cons c more ih =>
      rw [List.cons_append, stringBody_cons_other (hmore c (by simp)),
        ih fun d hd => hmore d (by simp [hd])]
      rfl

/-- A string takes from the bytes of a text the bytes that it takes from the text. -/
theorem stringBody_byteUnits (escaped : Bool) (cs : List Char) :
    stringBody escaped (byteUnits cs) = byteUnits (stringBody escaped cs) := by
  induction cs generalizing escaped with
  | nil => rfl
  | cons c cs ih =>
      rcases Nat.lt_or_ge c.toNat 128 with hc | hc
      · rw [byteUnits_cons_ascii hc, stringBody, stringBody]
        by_cases hend : c = '"' ∧ escaped = false
        · rw [if_pos hend, if_pos hend, byteUnits_cons_ascii hc, byteUnits_nil]
        · rw [if_neg hend, if_neg hend, byteUnits_cons_ascii hc, ih]
      · obtain ⟨first, more, hfirst, hmore, hcons⟩ := byteUnits_cons_other hc
        rw [hcons, stringBody_cons_other hfirst, stringBody_append_other hmore, ih,
          stringBody_cons_other hc, hcons]

theorem byteUnits_append (cs ds : List Char) : byteUnits (cs ++ ds) = byteUnits cs ++ byteUnits ds := by
  simp [byteUnits, bytesAsChars]

theorem byteUnits_drop_stringBody (escaped : Bool) (cs : List Char) :
    (byteUnits cs).drop (byteUnits (stringBody escaped cs)).length =
      byteUnits (cs.drop (stringBody escaped cs).length) := by
  have h := congrArg byteUnits (stringBody_append_drop escaped cs)
  rw [byteUnits_append] at h
  rw [← h, List.drop_left]

/-- A comment takes from the bytes of a text the bytes that it takes from the text. -/
theorem commentBody_byteUnits (depth : Nat) (afterStar : Bool) (cs : List Char) :
    commentBody depth (.plain afterStar) (byteUnits cs) =
      byteUnits (commentBody depth (.plain afterStar) cs) := by
  induction hn : cs.length using Nat.strongRecOn generalizing depth afterStar cs with
  | _ n ih =>
      subst hn
      cases cs with
      | nil => rfl
      | cons c cs =>
          have hshorter : ∀ (ds : List Char) (outer : Nat) (star : Bool), ds.length ≤ cs.length →
              commentBody outer (.plain star) (byteUnits ds) =
                byteUnits (commentBody outer (.plain star) ds) := by
            intro ds outer star hds
            exact ih ds.length (Nat.lt_succ_of_le hds) outer star ds rfl
          rcases Nat.lt_or_ge c.toNat 128 with hc | hc
          · have hopens : ((byteUnits cs)[0]? = some '*') ↔ cs[0]? = some '*' :=
              byteUnits_getElem?_zero (by decide) cs
            have hquotes := byteUnits_literal_iff cs
            rw [byteUnits_cons_ascii hc, commentBody_plain_cons, commentBody_plain_cons]
            simp only [hopens, hquotes]
            by_cases hclose : c = ')' ∧ afterStar
            · rw [if_pos hclose, if_pos hclose]
              by_cases hlast : depth = 0
              · rw [if_pos hlast, if_pos hlast, byteUnits_cons_ascii hc, byteUnits_nil]
              · rw [if_neg hlast, if_neg hlast, byteUnits_cons_ascii hc, hshorter _ _ _ (by simp)]
            rw [if_neg hclose, if_neg hclose]
            by_cases hopen : c = '(' ∧ cs[0]? = some '*'
            · rw [if_pos hopen, if_pos hopen]
              obtain ⟨rest, rfl⟩ := eq_cons_of_getElem?_zero hopen.2
              rw [byteUnits_cons_ascii (by decide), byteUnits_cons_ascii (by decide),
                byteUnits_cons_ascii (by decide)]
              simp only [List.drop_one, List.tail_cons]
              rw [hshorter _ _ _ (by simp)]
            rw [if_neg hopen, if_neg hopen]
            by_cases hquote : c = '"'
            · rw [if_pos hquote, if_pos hquote, byteUnits_cons_ascii hc, commentBody_quoted,
                commentBody_quoted, byteUnits_append, stringBody_byteUnits,
                byteUnits_drop_stringBody, hshorter _ _ _ (by simp)]
            rw [if_neg hquote, if_neg hquote]
            by_cases hliteral : c = '\'' ∧ cs[0]? = some '"' ∧ cs[1]? = some '\''
            · rw [if_pos hliteral, if_pos hliteral]
              obtain ⟨rest, rfl⟩ := eq_cons_of_getElem?_zero hliteral.2.1
              obtain ⟨rest, rfl⟩ := eq_cons_of_getElem?_zero hliteral.2.2
              rw [byteUnits_cons_ascii (by decide), byteUnits_cons_ascii (by decide),
                byteUnits_cons_ascii (by decide), byteUnits_cons_ascii (by decide),
                byteUnits_cons_ascii (by decide)]
              simp only [List.drop_succ_cons, List.drop_zero]
              rw [hshorter _ _ _ (by simp only [List.length_cons]; omega)]
            rw [if_neg hliteral, if_neg hliteral, byteUnits_cons_ascii hc, hshorter _ _ _ (by simp)]
          · obtain ⟨first, more, hfirst, hmore, hcons⟩ := byteUnits_cons_other hc
            rw [hcons, commentBody_cons_other hfirst, commentBody_append_other hmore,
              hshorter _ _ _ (by simp), commentBody_cons_other hc, hcons]
/-! ## Moving on -/

/-- Moving on by the bytes of an initial part ends behind that part. -/
theorem bump?_append (front back : List Char) :
    bump? (front ++ back) (byteLength front) = some back := by
  induction front with
  | nil => simp [bump?]
  | cons c front ih =>
      have hpos : c.utf8Size + byteLength front ≠ 0 := by
        have := Char.utf8Size_pos c
        omega
      rw [List.cons_append, byteLength_cons, bump?, checkedSub_of_le (by omega)]
      · simpa using ih
      · simpa using hpos

theorem toList_loop (bytes : ByteArray) (i : Nat) (done : List UInt8) :
    ByteArray.toList.loop bytes i done = done.reverse ++ bytes.data.toList.drop i := by
  fun_induction ByteArray.toList.loop bytes i done with
  | case1 i done hlt ih =>
      have hlt' : i < bytes.data.toList.length := by simpa using hlt
      have hget : bytes.get! i = bytes.data.toList[i] := by
        cases bytes with
        | mk data =>
            change data[i]! = data.toList[i]
            rw [getElem!_pos data i (by simpa using hlt'), Array.getElem_toList]
      rw [ih, List.drop_eq_getElem_cons hlt', hget]
      simp
  | case2 i done hlt =>
      rw [List.drop_eq_nil_of_le (by simpa using Nat.le_of_not_lt hlt)]
      simp

theorem encode_ofList (cs : List Char) :
    Utf8.encode (String.ofList cs) = cs.flatMap String.utf8EncodeChar := by
  rw [Utf8.encode, String.toUTF8_eq_toByteArray, String.toByteArray_ofList, ByteArray.toList, toList_loop,
    List.utf8Encode, List.toList_data_toByteArray]
  rfl

/-- **A scan of the bytes behind the opening of a comment counts what the comment
holds**, and moving on by that count ends behind the comment. -/
theorem bump?_comment (rest : List Char) :
    (scanComment? (bytesAsChars (Utf8.encode (String.ofList rest))) 0 1 false).bind (bump? rest)
      = some (rest.drop (commentTail rest).length) := by
  have hscan := scanComment?_eq (byteUnits rest) 0 1 false (by decide) (Nat.zero_le _)
  rw [encode_ofList]
  change (scanComment? (byteUnits rest) 0 1 false).bind (bump? rest) = _
  rw [hscan, List.drop_zero, commentBody_byteUnits, length_byteUnits, Option.bind_some,
    Nat.zero_add]
  calc
    bump? rest (byteLength (commentTail rest))
        = bump? (commentTail rest ++ rest.drop (commentTail rest).length)
            (byteLength (commentTail rest)) := by
          rw [commentTail, commentBody_append_drop]
    _ = some (rest.drop (commentTail rest).length) := bump?_append _ _

/-- **The same for the bytes behind the opening quote of a string.** -/
theorem bump?_string (rest : List Char) :
    bump? rest (stringBodyLength (Utf8.encode (String.ofList rest)))
      = some (rest.drop (stringTail rest).length) := by
  rw [encode_ofList]
  change bump? rest (stringBody false (byteUnits rest)).length = _
  rw [stringBody_byteUnits, length_byteUnits]
  calc
    bump? rest (byteLength (stringTail rest))
        = bump? (stringTail rest ++ rest.drop (stringTail rest).length)
            (byteLength (stringTail rest)) := by
          rw [stringTail, stringBody_append_drop]
    _ = some (rest.drop (stringTail rest).length) := bump?_append _ _

end CamlIndex
