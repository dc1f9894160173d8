import CamlIndex.Proofs.Literals

/-!
# Strings end at their own quote

A string is scanned with one bit of memory, whether a backslash is pending.  The bit is
the parity of the backslashes that stand right in front (`length_stringBody`), so a
string ends at the first quote with an even number of them in front of it.  In bytes the
same is said without characters (`ClosesAt`).

A text can be written inside a string by putting a backslash in front of some of its
characters, among them all quotes and all backslashes (`Escaping`).  No quote of such a
writing ends the string: the backslash in front of it is not itself escaped, since every
backslash of the text has one of its own.  So the scan runs through the writing and ends
at the quote behind it, whatever follows, and the lexer and the scan of a comment go on
from there.

* `closesString_bytesAsChars` — where a string ends, in bytes;
* `Escaping.stringTail_append` — the scan ends behind the quote that follows a writing;
* `Escaping.inBytes` — the bytes of a writing write the bytes of the text;
* `strings_end_at_own_quote` — all of this together.
-/

namespace CamlIndex

/-! ## Bytes that end a string -/

/-- At place `i` stands a quote behind an even number of backslashes. -/
def ClosesAt (bytes : List UInt8) (i : Nat) : Prop :=
  bytes[i]? = some 0x22 ∧ ((bytes.take i).reverse.takeWhile (· == 0x5C)).length % 2 = 0

instance (bytes : List UInt8) (i : Nat) : Decidable (ClosesAt bytes i) :=
  inferInstanceAs (Decidable (_ ∧ _))

/-- Different bytes are read as different characters. -/
theorem ofNat_byte_eq_iff (byte mark : UInt8) :
    Char.ofNat byte.toNat = Char.ofNat mark.toNat ↔ byte = mark := by
  refine ⟨fun h => ?_, fun h => h ▸ rfl⟩
  have hnat := congrArg Char.toNat h
  rw [toNat_ofNat_byte, toNat_ofNat_byte] at hnat
  exact UInt8.toNat_inj.mp hnat

theorem trailingBackslashes_bytesAsChars (bytes : List UInt8) :
    trailingBackslashes (bytesAsChars bytes) =
      (bytes.reverse.takeWhile (· == 0x5C)).length := by
  have hmark : (fun c => c == '\\') ∘ (fun byte : UInt8 => Char.ofNat byte.toNat) =
      fun byte => byte == 0x5C := by
    funext byte
    rw [Bool.eq_iff_iff]
    simpa using ofNat_byte_eq_iff byte 0x5C
  rw [trailingBackslashes, bytesAsChars, ← List.map_reverse, List.takeWhile_map, hmark,
    List.length_map]

/-- Where a string ends can be seen in the bytes. -/
theorem closesString_bytesAsChars (bytes : List UInt8) (i : Nat) :
    closesString (bytesAsChars bytes) i = true ↔ ClosesAt bytes i := by
  have hmark : (bytesAsChars bytes)[i]? = some '"' ↔ bytes[i]? = some 0x22 := by
    rw [bytesAsChars, List.getElem?_map]
    cases bytes[i]? with
    | none => simp
    | some byte => simpa using ofNat_byte_eq_iff byte 0x22
  have hfront : (bytesAsChars bytes).take i = bytesAsChars (bytes.take i) := List.map_take.symm
  rw [closesString, hfront, trailingBackslashes_bytesAsChars, ClosesAt, ← hmark]
  simp

/-- **A string ends behind the first byte that closes it.** -/
theorem stringBodyLength_of_closesAt {bytes : List UInt8} {i : Nat} (h : ClosesAt bytes i)
    (hfirst : ∀ j < i, ¬ ClosesAt bytes j) : stringBodyLength bytes = i + 1 := by
  have hi : i < bytes.length := (List.getElem?_eq_some_iff.mp h.1).1
  have hfind : closingQuote? (bytesAsChars bytes) = some i := by
    rw [closingQuote?, List.find?_range_eq_some]
    refine ⟨(closesString_bytesAsChars bytes i).mpr h, ?_, fun j hj => ?_⟩
    · simpa [bytesAsChars] using hi
    · simpa using mt (closesString_bytesAsChars bytes j).mp (hfirst j hj)
  rw [stringBodyLength, length_stringTail, hfind]
  rfl

/-- **A string that no byte closes** takes all bytes. -/
theorem stringBodyLength_of_open {bytes : List UInt8} (h : ∀ i, ¬ ClosesAt bytes i) :
    stringBodyLength bytes = bytes.length := by
  have hfind : closingQuote? (bytesAsChars bytes) = none := by
    rw [closingQuote?, List.find?_eq_none]
    intro i _ hi
    exact h i ((closesString_bytesAsChars bytes i).mp hi)
  rw [stringBodyLength, length_stringTail, hfind]
  exact List.length_map _

/-! ## Writing a text in a string -/

/-- How a text may be written between quotes: some characters have a backslash in front,
all quotes and all backslashes among them. -/
inductive Escaping {α : Type} (quote backslash : α) : List α → List α → Prop
  | nil : Escaping quote backslash [] []
  | plain {c : α} {text written : List α} (isQuote : c ≠ quote) (isBackslash : c ≠ backslash)
      (rest : Escaping quote backslash text written) :
      Escaping quote backslash (c :: text) (c :: written)
  | escaped (c : α) {text written : List α} (rest : Escaping quote backslash text written) :
      Escaping quote backslash (c :: text) (backslash :: c :: written)

/-- Another name for each character changes nothing, as long as no other character gets the
name of a quote or of a backslash. -/
theorem Escaping.map {α β : Type} {quote backslash : α} (f : α → β)
    (hquote : ∀ c, f c = f quote → c = quote) (hbackslash : ∀ c, f c = f backslash → c = backslash)
    {text written : List α} (h : Escaping quote backslash text written) :
    Escaping (f quote) (f backslash) (text.map f) (written.map f) := by
  induction h with
  | nil => exact .nil
  | plain isQuote isBackslash _ ih =>
      exact .plain (mt (hquote _) isQuote) (mt (hbackslash _) isBackslash) ih
  | escaped c _ ih => exact .escaped (f c) ih

/-- What has neither quotes nor backslashes is written as it is. -/
theorem Escaping.append_plain {α : Type} {quote backslash : α} {plain : List α}
    (hplain : ∀ c ∈ plain, c ≠ quote ∧ c ≠ backslash) {text written : List α}
    (h : Escaping quote backslash text written) :
    Escaping quote backslash (plain ++ text) (plain ++ written) := by
  induction plain with
  | nil => exact h
  | cons c plain ih =>
      obtain ⟨hquote, hbackslash⟩ := hplain c (by simp)
      exact .plain hquote hbackslash (ih fun d hd => hplain d (by simp [hd]))

/-- The bytes of what is written are a way to write the bytes of the text: a character
that is not ASCII has no quote and no backslash among its bytes, and only its first
byte comes behind a backslash. -/
theorem Escaping.inBytes {text written : List Char} (h : Escaping '"' '\\' text written) :
    Escaping '"' '\\' (byteUnits text) (byteUnits written) := by
  have hother : ∀ {unit : Char}, 128 ≤ unit.toNat → unit ≠ '"' ∧ unit ≠ '\\' := by
    intro unit hunit
    constructor <;> rintro rfl <;> revert hunit <;> decide
  induction h with
  | nil => exact .nil
  | @plain c text written isQuote isBackslash _ ih =>
      rcases Nat.lt_or_ge c.toNat 128 with hc | hc
      · rw [byteUnits_cons_ascii hc, byteUnits_cons_ascii hc]
        exact .plain isQuote isBackslash ih
      · obtain ⟨first, more, hfirst, hmore, hcons⟩ := byteUnits_cons_other hc
        rw [hcons, hcons]
        exact .plain (hother hfirst).1 (hother hfirst).2
          (ih.append_plain fun unit hunit => hother (hmore unit hunit))
  | @escaped c text written _ ih =>
      rw [byteUnits_cons_ascii (by decide : '\\'.toNat < 128)]
      rcases Nat.lt_or_ge c.toNat 128 with hc | hc
      · rw [byteUnits_cons_ascii hc, byteUnits_cons_ascii hc]
        exact .escaped c ih
      · obtain ⟨first, more, hfirst, hmore, hcons⟩ := byteUnits_cons_other hc
        rw [hcons, hcons]
        exact .escaped first (ih.append_plain fun unit hunit => hother (hmore unit hunit))

section Scan

variable {text written : List Char}

/-- **The scan ends at the quote behind what is written**, whatever follows.  Between two
characters of the text no backslash is pending. -/
theorem Escaping.stringTail_append (h : Escaping '"' '\\' text written) (rest : List Char) :
    stringTail (written ++ '"' :: rest) = written ++ ['"'] := by
  unfold stringTail
  induction h with
  | nil => simp [stringBody]
  | @plain c text written isQuote isBackslash _ ih =>
      have hpending : (!false && c == '\\') = false := by simp [isBackslash]
      rw [List.cons_append, stringBody, if_neg (fun hend => isQuote hend.1), hpending, ih]
      rfl
  | escaped c _ ih =>
      have hopened : ∀ cs, stringBody false ('\\' :: c :: cs) =
          '\\' :: c :: stringBody false cs := by
        intro cs
        rw [stringBody, if_neg (by simp), stringBody, if_neg (by simp)]
        rfl
      rw [List.cons_append, List.cons_append, hopened, ih]
      rfl

/-- A scan that does not end in the front of a text takes all of the front. -/
theorem stringBody_of_length_lt {front back : List Char} {escaped : Bool}
    (h : front.length < (stringBody escaped (front ++ back)).length) :
    stringBody escaped front = front := by
  induction front generalizing escaped with
  | nil => rfl
  | cons c front ih =>
      rw [List.cons_append, stringBody] at h
      rw [stringBody]
      split at h
      · next hend => simp at h
      · next hend => rw [if_neg hend, ih (by simpa using h)]

/-- What is written does not end the string that it is written in, nor does a part of it. -/
theorem Escaping.stringTail_of_append (h : Escaping '"' '\\' text written)
    {front back : List Char} (hfront : front ++ back = written) : stringTail front = front := by
  have hscan := h.stringTail_append []
  rw [← hfront, List.append_assoc] at hscan
  have hlength : front.length < (stringTail (front ++ (back ++ ['"']))).length := by
    rw [hscan]
    simp only [List.length_append, List.length_singleton]
    omega
  exact stringBody_of_length_lt hlength

end Scan

/-! ## Together -/

/-- Where a string of bytes ends. -/
structure EndsAtQuote (bytes : List UInt8) : Prop where
  /-- It ends behind the first byte that closes it. -/
  closed : ∀ i, ClosesAt bytes i → (∀ j < i, ¬ ClosesAt bytes j) → stringBodyLength bytes = i + 1
  /-- It takes everything if there is none. -/
  unclosed : (∀ i, ¬ ClosesAt bytes i) → stringBodyLength bytes = bytes.length

/-- What becomes of a text that is written in a string. -/
structure ReadAsWritten (written : List Char) : Prop where
  /-- The scan of the bytes ends behind the quote that follows, whatever bytes come next. -/
  scanned : ∀ behind : List UInt8,
    stringBodyLength (Utf8.encode (String.ofList written) ++ 0x22 :: behind) =
      (Utf8.encode (String.ofList written)).length + 1
  /-- If the bytes break off before that quote, the scan takes them all. -/
  broken : ∀ front : List UInt8, front <+: Utf8.encode (String.ofList written) →
    stringBodyLength front = front.length
  /-- The lexer reads the string as one token, whatever follows it. -/
  token : ∀ behind, readToken '"' (written ++ '"' :: behind) = (.literal, written ++ ['"'])
  /-- The scan of a comment goes on behind the string. -/
  commented : ∀ depth afterStar behind,
    commentBody depth (.plain afterStar) ('"' :: written ++ '"' :: behind) =
      '"' :: written ++ '"' :: commentBody depth (.plain false) behind

/-- What is written in a string is read up to its end. -/
theorem Escaping.readAsWritten {text written : List Char}
    (h : Escaping '"' '\\' text written) : ReadAsWritten written := by
  have hlength : (Utf8.encode (String.ofList written)).length = (byteUnits written).length := by
    rw [encode_ofList, byteUnits, bytesAsChars, List.length_map]
  constructor
  case scanned =>
      intro behind
      have hbytes := bytesAsChars_encode_append written (0x22 :: behind)
      have hquote : bytesAsChars (0x22 :: behind) = '"' :: bytesAsChars behind := rfl
      rw [stringBodyLength, hbytes, hquote, h.inBytes.stringTail_append, hlength,
        List.length_append, List.length_singleton]
  case broken =>
      rintro front ⟨back, hfront⟩
      have hunits : bytesAsChars front ++ bytesAsChars back = byteUnits written := by
        rw [byteUnits, ← encode_ofList, ← hfront, bytesAsChars, bytesAsChars, bytesAsChars,
          List.map_append]
      rw [stringBodyLength, h.inBytes.stringTail_of_append hunits]
      exact List.length_map _
  case token =>
      intro behind
      rw [readToken, if_pos rfl, h.stringTail_append]
  case commented =>
      intro depth afterStar behind
      have hbehind : (written ++ '"' :: behind).drop (written ++ ['"']).length = behind := by
        rw [List.append_cons written '"' behind, List.drop_left]
      rw [List.cons_append, commentBody_afterStar (by simp), commentBody_quote,
        h.stringTail_append, hbehind, List.append_assoc]
      rfl

/-- **Strings end at their own quote.**  Bytes of a string end behind the first quote with
an even number of backslashes in front of it, or nowhere.  So a text may be written in a
string with a backslash in front of its quotes and backslashes, be it a text of bytes or
of characters: no quote is taken for the end but the one that follows. -/
theorem strings_end_at_own_quote :
    (∀ bytes, EndsAtQuote bytes) ∧
      (∀ text written behind : List UInt8, Escaping 0x22 0x5C text written →
        stringBodyLength (written ++ 0x22 :: behind) = written.length + 1) ∧
      ∀ text written : List Char, Escaping '"' '\\' text written → ReadAsWritten written := by
  refine ⟨fun bytes => ⟨fun i => stringBodyLength_of_closesAt, stringBodyLength_of_open⟩, ?_,
    fun text written => Escaping.readAsWritten⟩
  intro text written behind h
  have hchars : Escaping '"' '\\' (bytesAsChars text) (bytesAsChars written) :=
    h.map (fun byte => Char.ofNat byte.toNat) (fun byte => (ofNat_byte_eq_iff byte 0x22).mp)
      fun byte => (ofNat_byte_eq_iff byte 0x5C).mp
  have hbytes : bytesAsChars (written ++ 0x22 :: behind) =
      bytesAsChars written ++ '"' :: bytesAsChars behind := List.map_append
  have hlength : (bytesAsChars written).length = written.length := List.length_map _
  rw [stringBodyLength, hbytes, hchars.stringTail_append, List.length_append,
    List.length_singleton, hlength]

theorem strings_end_at_own_quote_mixed :
    ClosesAt [0x5C, 0x5C, 0x22, 0x22] 2 ∧ (∀ j < 2, ¬ ClosesAt [0x5C, 0x5C, 0x22, 0x22] j) ∧
      stringBodyLength [0x5C, 0x5C, 0x22, 0x22] = 3 ∧
      Escaping '"' '\\' ['"', 'é', '\\'] ['\\', '"', 'é', '\\', '\\'] ∧
      ReadAsWritten ['\\', '"', 'é', '\\', '\\'] := by
  have hcloses : ClosesAt [0x5C, 0x5C, 0x22, 0x22] 2 := by decide
  have hfirst : ∀ j < 2, ¬ ClosesAt [0x5C, 0x5C, 0x22, 0x22] j := by decide
  have hwritten : Escaping '"' '\\' ['"', 'é', '\\'] ['\\', '"', 'é', '\\', '\\'] :=
    .escaped '"' (.plain (by decide) (by decide) (.escaped '\\' .nil))
  exact ⟨hcloses, hfirst, (strings_end_at_own_quote.1 _).closed 2 hcloses hfirst, hwritten,
    strings_end_at_own_quote.2.2 _ _ hwritten⟩

end CamlIndex
