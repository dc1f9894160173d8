import CamlIndex.Proofs.Capacity
import CamlIndex.Proofs.Foresight
import CamlIndex.Proofs.Lines
import CamlIndex.Proofs.Spacing

/-!
# A text that breaks off

A text that is still being written, or was cut short, ends behind some token.
Everything before that token is read as in the whole text.  The token itself is
read with another token in view, and a constructor before it is settled by it;
so what is found before its start is settled when it has been read, and does not
depend on what is in view (`Machine.settledAt`).  What the end of the text
confirms stands at the last token.

Lines start behind newlines, and those of the rest lie behind all offsets of the
first part, so positions are the same too (`LineTable.position_append`).

* `truncation_keeps_tags` — cutting a text at the end of any token keeps the
  tokens up to it and the tags before it.
-/

namespace CamlIndex

/-! ## Positions in an initial part -/

/-- The lines of the second part start behind those of the first. -/
theorem startsAfterNewlines_append_eq (offset : Nat) (cs ds : List Char) :
    startsAfterNewlines offset (cs ++ ds) =
      startsAfterNewlines offset cs ++ startsAfterNewlines (offset + byteLength cs) ds := by
  induction cs generalizing offset with
  | nil => rfl
  | cons c cs ih =>
      have hnewline : c = '\n' → c.utf8Size = 1 := fun h => by rw [h]; rfl
      simp only [List.cons_append, startsAfterNewlines, ih, byteLength_cons, ← Nat.add_assoc]
      split
      · next hc => rw [hnewline hc, List.cons_append]
      · rfl

namespace LineTable

/-- Lines that start behind an offset do not matter to it. -/
theorem locate_append {offset : Nat} {later : List Nat} (h : ∀ start ∈ later, offset < start)
    (line start : Nat) (starts : List Nat) :
    locate offset line start (starts ++ later) = locate offset line start starts := by
  induction starts generalizing line start with
  | nil =>
      cases later with
      | nil => rfl
      | cons next later =>
          have hbehind : ¬ next ≤ offset := Nat.not_le.mpr (h next List.mem_cons_self)
          simp only [List.nil_append, locate, if_neg hbehind]
  | cons next starts ih => simp only [List.cons_append, locate, ih]

/-- **A position** is the same in every text that begins in the same way. -/
theorem position_append {front : String} (after : String) {offset : Nat}
    (h : offset ≤ front.utf8ByteSize) :
    (ofText (front ++ after)).position offset = (ofText front).position offset := by
  rw [← String.ofList_toList (s := front), utf8ByteSize_ofList] at h
  simp only [position, ofText, String.toList_append, startsAfterNewlines_append_eq, Nat.zero_add]
  refine locate_append ?_ _ _ _
  intro start hstart
  have := lt_of_mem_startsAfterNewlines hstart
  omega

end LineTable

/-- A tag that stands in an initial part is the same tag in that part alone. -/
theorem tags_append (options : Options) {front : String} (after : String) {stop : Nat}
    (hstop : stop ≤ front.utf8ByteSize) (findings : List Finding) :
    (findings.filterMap (Finding.tag? options (.ofText (front ++ after)))).filter
        (·.offset < stop) =
      (findings.filterMap (Finding.tag? options (.ofText front))).filter (·.offset < stop) := by
  rw [List.filter_filterMap, List.filter_filterMap]
  refine List.filterMap_congr ?_
  intro finding _
  by_cases hoffset : finding.declaration.offset < stop
  · have hposition := LineTable.position_append after
      (Nat.le_trans (Nat.le_of_lt hoffset) hstop)
    simp only [Finding.tag?, Declaration.toTag, hposition]
  · unfold Finding.tag?
    split <;> simp [Option.filter, Declaration.toTag, hoffset]

/-! ## What is settled when a token has been read -/

namespace Machine

/-- What has been found before a token when that token has been read.  A token
that is not an operator confirms the constructor before it. -/
def settledAt (m : Machine) (current : Token) : List Finding :=
  if m.mode = .constructorCheck ∧ current.kind ≠ .operator then m.confirm.findings
  else m.findings

/-- **Whatever is in view**, a token settles the same, and what it adds stands at itself. -/
theorem findings_step_settled (m : Machine) (current next : Token) :
    ∃ added, (m.step current next).findings = m.settledAt current ++ added ∧
      ∀ finding ∈ added, finding.declaration.offset = current.start := by
  obtain ⟨-, -, -, hfindings⟩ := step_fields m current next
  rw [hfindings, dispatched]
  cases dispatch_outcome { m with offset := current.start } current next with
  | @moves heard hmode hheard hcourse =>
      have hmode : m.mode ≠ .constructorCheck := hmode
      rw [hcourse.walk_of_counted.findings_eq.1, settledAt, if_neg (fun h => hmode h.1)]
      cases hheard with
      | nothing => exact ⟨[], (List.append_nil _).symm, by simp⟩
      | @declared declaration isLocal announced =>
          refine ⟨[⟨declaration, isLocal⟩], findings_note _ _, ?_⟩
          intro finding hfinding
          rw [List.mem_singleton.mp hfinding]
          exact announced.named.offset
  | holds hmode _ _ hresult =>
      have hmode : m.mode = .typeBody := hmode
      rw [hresult, settledAt, if_neg (by simp [hmode])]
      exact ⟨[], (List.append_nil _).symm, by simp⟩
  | settles hmode hcourse =>
      have hmode : m.mode = .constructorCheck := hmode
      refine ⟨[], ?_, by simp⟩
      rw [hcourse.walk.findings_eq.1, List.append_nil, settledAt]
      by_cases hkind : current.kind = .operator
      · rw [if_pos hkind, if_neg (fun h => h.2 hkind)]
        rfl
      · rw [if_neg hkind, if_pos ⟨hmode, hkind⟩, findings_confirm, findings_confirm]
        rfl

end Machine

/-- **Tags before a token** are those of what the token has settled. -/
theorem tags_before_settled (options : Options) {text : String} {front back : List Token}
    {token : Token} (htokens : tokenize text = front ++ token :: back) :
    (extract options text).tags.filter (·.offset < token.start) =
      (options.fileModuleTags text ++
        (((Machine.start options.maxDepth).readAll token front).settledAt token).filterMap
          (Finding.tag? options (.ofText text))).filter (·.offset < token.start) := by
  obtain ⟨added, hadded, hplace⟩ := Machine.findings_step_settled
    ((Machine.start options.maxDepth).readAll token front) token
    (back.headD (Token.endAt text.utf8ByteSize))
  refine (tags_before options options.maxDepth htokens).trans ?_
  change (options.fileModuleTags text ++ (((Machine.start options.maxDepth).readAll token front).step
    token (back.headD (Token.endAt text.utf8ByteSize))).findings.filterMap _).filter _ = _
  rw [hadded, List.filterMap_append, ← List.append_assoc, List.filter_append]
  exact (congrArg (_ ++ ·) (tags_behind options _ fun finding hfinding =>
    Nat.le_of_eq (hplace finding hfinding).symm)).trans (List.append_nil _)

/-! ## Cutting a text -/

/-- What it means that cutting a text at the end of its `n`-th token, counted
from zero, keeps what is known by then. -/
structure TruncationKeeps (options : Options) (text : String) (n : Nat) (token : Token) : Prop where
  /-- The token ends between two characters, so the text can be cut there. -/
  cut : (∃ after, text = firstBytes token.stop text ++ after) ∧
    (firstBytes token.stop text).utf8ByteSize = token.stop
  /-- The tokens are the first ones of the whole text, with the same spans. -/
  tokens : tokenize (firstBytes token.stop text) = (tokenize text).take (n + 1)
  /-- The tags before the last of these are those of the whole text. -/
  tags : (extract options (firstBytes token.stop text)).tags.filter (·.offset < token.start) =
    (extract options text).tags.filter (·.offset < token.start)

/-- **Truncated text keeps its confirmed tags.** -/
theorem truncation_keeps_tags (options : Options) {text : String} {n : Nat} {token : Token}
    (h : (tokenize text)[n]? = some token) : TruncationKeeps options text n token := by
  obtain ⟨hn, htoken⟩ := List.getElem?_eq_some_iff.mp h
  have htokens : tokenize text = (tokenize text).take n ++ token :: (tokenize text).drop (n + 1) := by
    rw [← htoken, ← List.drop_eq_getElem_cons hn, List.take_append_drop]
  obtain ⟨after, hafter, hsize, hcut⟩ := tokenize_firstBytes htokens
  refine ⟨⟨⟨after, hafter⟩, hsize⟩, ?_, ?_⟩
  · rw [hcut, List.take_succ_eq_append_getElem hn, htoken]
  · have hmodule : options.fileModuleTags (firstBytes token.stop text) =
        options.fileModuleTags text := by
      unfold Options.fileModuleTags
      rw [Window.isDone_ofText, Window.isDone_ofText, hcut, htokens]
      simp
    have hstart : token.start ≤ (firstBytes token.stop text).utf8ByteSize := by
      have hspan := ((Cursor.ofText text).tokens_ordered.1 token (List.mem_of_getElem? h)).2
      omega
    rw [tags_before_settled options hcut, tags_before_settled options htokens, hmodule,
      List.filter_append, List.filter_append]
    have htags := tags_append options after hstart
      (((Machine.start options.maxDepth).readAll token ((tokenize text).take n)).settledAt token)
    rw [← hafter] at htags
    exact congrArg _ htags.symm

/-- The constructor is confirmed by the bar behind it, in the whole text and in
the text that ends there. -/
theorem truncation_keeps_tags_constructor :
    (tokenize "type t = A | B")[4]? = some ⟨.pipe, "|", 11, 12⟩ ∧
      TruncationKeeps {} "type t = A | B" 4 ⟨.pipe, "|", 11, 12⟩ :=
  have htoken : (tokenize "type t = A | B")[4]? = some ⟨.pipe, "|", 11, 12⟩ := by decide +kernel
  ⟨htoken, truncation_keeps_tags {} htoken⟩

end CamlIndex
