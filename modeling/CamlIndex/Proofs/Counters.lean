import Mathlib.Algebra.Group.Int.Defs
import Mathlib.Algebra.Group.Nat.Defs
import CamlIndex.Extraction
import CamlIndex.Proofs.Announcement
import CamlIndex.Proofs.Indices

/-!
# Counters and safety

The machine counts open parentheses of labelled and optional parameters and,
while it skips, brackets of three shapes.  Closing brackets that nothing opened
take a counter below zero, and counters outlive the rule that uses them.  But
one token moves a counter by one at most, or sets it back to zero, so a counter
is never farther from zero than tokens have been read.

* `Course.recounts` — a rule counts its token and moves no counter after that;
* `within_step`, `within_readAll` — one token, then a whole run;
* `extraction_stays_in_range` — nothing that extraction computes leaves its
  range: scans, jumps, indices, differences and counters.
-/

namespace CamlIndex

namespace Machine

/-- The counters of a machine. -/
structure Counters where
  labelDepth : Int
  optionalDepth : Int
  balance : Balance

/-- The counters of this machine. -/
def counters (m : Machine) : Counters :=
  ⟨m.labelDepth, m.optionalDepth, m.balance⟩

/-- No counter is farther from zero than `n`. -/
structure Counters.Within (n : Nat) (counters : Counters) : Prop where
  label : counters.labelDepth.natAbs ≤ n
  optional : counters.optionalDepth.natAbs ≤ n
  parens : counters.balance.parens.natAbs ≤ n
  brackets : counters.balance.brackets.natAbs ≤ n
  braces : counters.balance.braces.natAbs ≤ n

theorem Counters.Within.succ {n : Nat} {counters : Counters} (h : counters.Within n) :
    counters.Within (n + 1) :=
  ⟨Nat.le_succ_of_le h.label, Nat.le_succ_of_le h.optional, Nat.le_succ_of_le h.parens,
    Nat.le_succ_of_le h.brackets, Nat.le_succ_of_le h.braces⟩

/-! ## One token -/

section Count

variable {m after : Machine} {n : Nat}

/-- What a rule does to the counters once its token has been counted: nothing, unless it
begins a balanced skip, which counts the token for itself. -/
structure Recounts (token : Token) (m after : Machine) : Prop where
  label : after.labelDepth = m.labelDepth
  optional : after.optionalDepth = m.optionalDepth
  balance : after.balance = m.balance ∨ after.balance = ({} : Balance).count token.kind

theorem Course.recounts {token : Token} {room : Nat} (course : Course token m room after) :
    Recounts token m after := by
  refine course.keeps ⟨rfl, rfl, .inl rfl⟩ ?_ ?_ ?_
  · intro before after h change
    cases change with
    | skipTo unbalanced _ =>
        exact ⟨h.label, h.optional, by simpa [Machine.skipTo, unbalanced] using h.balance⟩
    | skipBalanced _ _ => exact ⟨h.label, h.optional, .inr rfl⟩
    | _ => exact ⟨h.label, h.optional, h.balance⟩
  · intro before boundary role resume name h _ _
    unfold Machine.push
    dsimp only
    split <;> exact ⟨h.label, h.optional, h.balance⟩
  · rintro before _ h ⟨-, -⟩
    exact ⟨h.label, h.optional, h.balance⟩

theorem Counters.Within.count {counters : Counters} (h : counters.Within n) (kind : TokenKind) :
    { counters with balance := counters.balance.count kind }.Within (n + 1) := by
  obtain ⟨hlabel, hoptional, hparens, hbrackets, hbraces⟩ := h
  unfold Balance.count
  split <;> constructor <;> dsimp only <;> omega

theorem Counters.Within.counted (h : m.counters.Within n) (token : Token) :
    (m.counted token).counters.Within (n + 1) := by
  have hopens : token.opens.natAbs ≤ 1 := by
    unfold Token.opens
    split <;> decide
  have hlabel := h.label
  have hoptional := h.optional
  unfold Machine.counted
  split
  · exact { h.succ with label := by simp only [counters] at *; omega }
  · exact { h.succ with optional := by simp only [counters] at *; omega }
  · exact h.count token.kind
  · exact h.succ

variable (h : m.counters.Within n) (current next : Token)
include h

/-- One token moves every counter by one at most. -/
theorem within_dispatch : (m.dispatch current next).counters.Within (n + 1) := by
  obtain ⟨notes, staged, hcourse⟩ := dispatch_course m current next
  have hheard : { m with notes, staged }.counters.Within n := h
  obtain ⟨hlabel, hoptional, hparens, hbrackets, hbraces⟩ := hheard.counted current
  obtain ⟨hsameLabel, hsameOptional, hbalance⟩ := hcourse.recounts
  rw [counters, hsameLabel, hsameOptional]
  rcases hbalance with hsame | hbegun
  · rw [hsame]
    exact ⟨hlabel, hoptional, hparens, hbrackets, hbraces⟩
  · have hfresh : { m.counters with balance := {} }.Within n :=
      ⟨h.label, h.optional, Nat.zero_le n, Nat.zero_le n, Nat.zero_le n⟩
    have hfirst := hfresh.count current.kind
    rw [hbegun]
    exact ⟨hlabel, hoptional, hfirst.parens, hfirst.brackets, hfirst.braces⟩

theorem within_step : (m.step current next).counters.Within (n + 1) := by
  unfold step
  dsimp only
  have hplaced : { m with offset := current.start }.counters.Within n := h
  have hdispatch := within_dispatch hplaced current next
  split
  · exact hdispatch
  · exact hdispatch

end Count

/-- **A run of `k` tokens moves every counter by `k` at most.** -/
theorem within_readAll {m : Machine} {n : Nat} (h : m.counters.Within n) (last : Token)
    (ts : List Token) : (m.readAll last ts).counters.Within (n + ts.length) := by
  induction ts generalizing m n with
  | nil => exact h
  | cons t ts ih =>
      have hrun := ih (within_step h t (ts.headD last))
      rw [Nat.add_assoc, Nat.add_comm 1] at hrun
      exact hrun

end Machine

/-! ## Nothing leaves its range -/

/-- The numbers of a signed word of 32 bits. -/
def FitsInt32 (x : Int) : Prop :=
  -2 ^ 31 ≤ x ∧ x < 2 ^ 31

/-- What it means that extraction from a text never leaves a range. -/
structure StaysInRange (options : Options) (text : String) : Prop where
  /-- Wherever a comment may have been opened, the scan of the bytes behind it
  reads and counts within bounds, and the jump ends at a character. -/
  comments : ∀ rest, rest <:+ text.toList →
    (scanComment? (bytesAsChars (Utf8.encode (String.ofList rest))) 0 1 false).bind (bump? rest)
      = some (rest.drop (commentTail rest).length)
  /-- The jump over a string ends at a character. -/
  strings : ∀ rest, rest <:+ text.toList →
    bump? rest (stringBodyLength (Utf8.encode (String.ofList rest)))
      = some (rest.drop (stringTail rest).length)
  /-- The line starts can be searched for every offset, and whatever the search
  reports, line and column exist. -/
  positions : ∀ offset,
    (∃ report, SearchFits (LineTable.ofText text).starts offset report) ∧
    ∀ report, SearchFits (LineTable.ofText text).starts offset report →
      positionAt? (LineTable.ofText text).starts offset report
        = some ((LineTable.ofText text).position offset)
  /-- A scan of a stack of frames gives a valid index or none. -/
  scans : ∀ stack : ScopeStack,
    indexedNearestNamed stack.frames.reverse = some stack.nearestNamed?
    ∧ indexedPopToNamed stack.frames.reverse
      = some (stack.popToNamed.1.frames.reverse, stack.popToNamed.2)
    ∧ indexedPopBoundary stack.frames.reverse
      = some (stack.popBoundary.1.frames.reverse, stack.popBoundary.2)
    ∧ indexedReturnToMatch stack.frames.reverse
      = some (stack.returnToMatch?.map fun (left, resume) => (left.frames.reverse, resume))
  /-- After every token all counters fit into 32 bits. -/
  counters : ∀ front back, tokenize text = front ++ back →
    let reached := (Machine.start options.maxDepth).readAll
      (back.headD (Token.endAt text.utf8ByteSize)) front
    FitsInt32 reached.labelDepth ∧ FitsInt32 reached.optionalDepth
      ∧ FitsInt32 reached.balance.parens ∧ FitsInt32 reached.balance.brackets
      ∧ FitsInt32 reached.balance.braces

theorem fitsInt32_of_natAbs {x : Int} {n : Nat} (hx : x.natAbs ≤ n) (hn : n < 2 ^ 31) :
    FitsInt32 x := by
  constructor <;> omega

/-- **Extraction stays in range**, for every text of less than 2³¹ tokens and
whatever is to be extracted from it. -/
theorem extraction_stays_in_range (options : Options) (text : String)
    (htokens : (tokenize text).length < 2 ^ 31) : StaysInRange options text where
  comments rest _ := bump?_comment rest
  strings rest _ := bump?_string rest
  positions offset :=
    ⟨exists_searchFits (LineTable.starts_increasing text) offset,
      fun _ hreport => LineTable.position_of_search text offset hreport⟩
  scans stack :=
    ⟨stack.indexedNearestNamed_reverse, stack.indexedPopToNamed_reverse,
      stack.indexedPopBoundary_reverse, stack.indexedReturnToMatch_reverse⟩
  counters front back hsplit := by
    intro reached
    have hstart : (Machine.start options.maxDepth).counters.Within 0 :=
      ⟨Nat.le_refl 0, Nat.le_refl 0, Nat.le_refl 0, Nat.le_refl 0, Nat.le_refl 0⟩
    have hreached : reached.counters.Within (0 + front.length) :=
      Machine.within_readAll hstart _ front
    have hfront : 0 + front.length < 2 ^ 31 := by
      rw [hsplit, List.length_append] at htokens
      omega
    exact ⟨fitsInt32_of_natAbs hreached.label hfront, fitsInt32_of_natAbs hreached.optional hfront,
      fitsInt32_of_natAbs hreached.parens hfront, fitsInt32_of_natAbs hreached.brackets hfront,
      fitsInt32_of_natAbs hreached.braces hfront⟩

theorem extraction_stays_in_range_soup :
    (tokenize "let f ~l))) ?o]] (* \"").length < 2 ^ 31
      ∧ StaysInRange { maxDepth := 0 } "let f ~l))) ?o]] (* \"" :=
  have htokens : (tokenize "let f ~l))) ?o]] (* \"").length < 2 ^ 31 := by
    decide +kernel
  ⟨htokens, extraction_stays_in_range _ _ htokens⟩

end CamlIndex
