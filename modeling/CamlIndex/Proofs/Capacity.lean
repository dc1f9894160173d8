import CamlIndex.Proofs.Place
import CamlIndex.Proofs.Room
import CamlIndex.Proofs.Selection

/-!
# A stack that is large enough

How many frames a stack may hold shows only when it is full.  Up to the first
refused frame a run on a small stack is a run on a large one
(`Machine.readAll_widen`), so both have found the same declarations before the
token that pushed it.  Later tokens only declare what stands behind
(`findings_split`), so the tags before that token are the same in the end.  If
no frame was refused, all tags are.

* `capacity_invisible` — these facts for the tags and diagnostics of a text.
-/

namespace CamlIndex

namespace Machine

/-- The machine with another capacity of its stack. -/
def widen (m : Machine) (capacity : Nat) : Machine :=
  { m with stack := { m.stack with capacity } }

theorem hear_widen (w : Circumstance) (capacity : Nat) (remark : Remark) :
    { w with capacity }.hear remark = { w.hear remark with capacity } := by
  cases remark with
  | confirmed =>
      unfold Circumstance.hear
      dsimp only
      split <;> rfl
  | _ => rfl

/-- A remark refuses nothing and leaves the capacity alone. -/
theorem hear_stack (w : Circumstance) (remark : Remark) :
    (w.hear remark).capacity = w.capacity ∧ (w.hear remark).refused = w.refused := by
  cases remark with
  | confirmed =>
      unfold Circumstance.hear
      dsimp only
      split <;> exact ⟨rfl, rfl⟩
  | _ => exact ⟨rfl, rfl⟩

/-- Machines that react alike when one has more room: they find the same and
hold back the same, and if nothing was refused they differ in their capacity alone. -/
theorem Alike.widen {w : Circumstance} {capacity : Nat} {here there : Machine}
    (h : Alike w { w with capacity } here there) :
    there.findings = here.findings ∧ there.staged = here.staged ∧
      (w.capacity ≤ capacity → here.stack.refused = w.refused → there = here.widen capacity) := by
  cases h with
  | moves remark m =>
      rw [hear_widen]
      exact ⟨rfl, rfl, fun _ _ => rfl⟩
  | pushes remark m boundary role resume name =>
      obtain ⟨hcapacity, hrefused⟩ := hear_stack w remark
      obtain ⟨hfindings, hstaged, -⟩ :=
        push_fields (m.under (w.hear remark)) boundary role resume name
      obtain ⟨hfindings', hstaged', -⟩ :=
        push_fields (m.under ({ w with capacity }.hear remark)) boundary role resume name
      rw [hear_widen] at hfindings' hstaged' ⊢
      refine ⟨hfindings'.trans hfindings.symm, hstaged'.trans hstaged.symm, ?_⟩
      intro hle hfits
      rw [push_under] at hfits ⊢
      rw [push_under]
      -- On a full stack the refusal would have been counted.
      by_cases hfull : (w.hear remark).capacity ≤ m.stack.frames.length
      · rw [if_pos hfull] at hfits
        have hcounted : (w.hear remark).refused + 1 = w.refused := hfits
        omega
      · have hroom : ¬ capacity ≤ m.stack.frames.length := by
          rw [hcapacity] at hfull
          omega
        rw [if_neg hfull, if_neg hroom]
        rfl

/-- **One token** under another capacity. -/
theorem step_widen (m : Machine) (capacity : Nat) (current next : Token) :
    ((m.widen capacity).step current next).findings = (m.step current next).findings ∧
      ((m.widen capacity).step current next).staged = (m.step current next).staged ∧
      (m.stack.capacity ≤ capacity → (m.step current next).stack.refused = m.stack.refused →
        (m.widen capacity).step current next = (m.step current next).widen capacity) := by
  have halike : Alike (m.circumstance.reading current next)
      { m.circumstance.reading current next with capacity } (m.dispatched current next)
      ((m.widen capacity).dispatched current next) :=
    dispatched_alike m m.circumstance { m.circumstance with capacity } rfl rfl
  obtain ⟨hfindings, hstaged, hsame⟩ := halike.widen
  obtain ⟨-, hstack, hheld, hfound⟩ := m.step_fields current next
  obtain ⟨-, -, hheld', hfound'⟩ := (m.widen capacity).step_fields current next
  refine ⟨by rw [hfound, hfound', hfindings], by rw [hheld, hheld', hstaged], ?_⟩
  intro hle hrefused
  rw [hstack] at hrefused
  rw [step_dispatched, step_dispatched, hsame hle hrefused]
  change (if m.mode = (m.dispatched current next).mode then _ else _) = _
  split <;> rfl

/-- **A run** that refuses nothing is the same with more room. -/
theorem readAll_widen {m : Machine} {capacity : Nat} (hle : m.stack.capacity ≤ capacity)
    {last : Token} {tokens : List Token}
    (hrefused : (m.readAll last tokens).stack.refused = m.stack.refused) :
    (m.widen capacity).readAll last tokens = (m.readAll last tokens).widen capacity := by
  induction tokens generalizing m with
  | nil => rfl
  | cons token rest ih =>
      have hstep := fills_step m token (rest.headD last)
      have hrest := fills_readAll (m.step token (rest.headD last)) last rest
      have hlater : ((m.step token (rest.headD last)).readAll last rest).stack.refused =
          m.stack.refused := hrefused
      -- Refusals are never taken back, so there was none at the first token.
      have hfirst : (m.step token (rest.headD last)).stack.refused = m.stack.refused :=
        Nat.le_antisymm (hlater ▸ hrest.refused_le) hstep.refused_le
      obtain ⟨-, -, hwide⟩ := step_widen m capacity token (rest.headD last)
      have hroom : (m.step token (rest.headD last)).stack.capacity ≤ capacity :=
        hstep.capacity ▸ hle
      rw [readAll, hwide hle hfirst, ih hroom (hlater.trans hfirst.symm), readAll]

/-- **Behind a token** a run finds only what stands there or behind. -/
theorem findings_behind {m : Machine} (hold : m.HoldsInTime) (last : Token) {token : Token}
    {rest : List Token} (hsorted : ∀ later ∈ rest, token.start < later.start) :
    ∃ added, (m.readAll last (token :: rest)).confirm.findings =
        (m.step token (rest.headD last)).findings ++ added ∧
      ∀ finding ∈ added, token.start ≤ finding.declaration.offset := by
  obtain ⟨added, hadded, hcome⟩ :=
    findings_readAll (hold.step token (rest.headD last)) last rest
  refine ⟨added, hadded, ?_⟩
  intro finding hfinding
  -- What was held back when `token` had been read is the constructor at `token`.
  rcases hcome finding hfinding with ⟨hheld, -⟩ | ⟨⟨later, hlater, hoffset⟩, -⟩
  · exact Nat.le_of_eq (offset_of_staged_step hold hheld).symm
  · rw [hoffset]
    exact Nat.le_of_lt (hsorted later hlater)

end Machine

/-! ## Tags and diagnostics -/

/-- What it means that the capacity of the stack is invisible until it is
exceeded: with `wide` frames all is as with `narrow` frames, as long as none of
those was refused. -/
structure CapacityInvisible (options : Options) (narrow wide : Nat) (text : String) : Prop where
  /-- After every token up to the first refused frame: the same mode, the same
  frames, the same tags emitted, -/
  abreast : ∀ front back, tokenize text = front ++ back →
    (Machine.partway narrow text front back).stack.refused = 0 →
      (Machine.partway wide text front back).mode =
          (Machine.partway narrow text front back).mode ∧
        (Machine.partway wide text front back).stack.frames =
          (Machine.partway narrow text front back).stack.frames ∧
        { options with maxDepth := wide }.emitted text front back =
          { options with maxDepth := narrow }.emitted text front back
  /-- and in fact the same machine, but for the capacity. -/
  machine : ∀ front back, tokenize text = front ++ back →
    (Machine.partway narrow text front back).stack.refused = 0 →
      Machine.partway wide text front back =
        (Machine.partway narrow text front back).widen wide
  /-- The tags before a token are the same if no frame was refused before that token;
  it may be the first to have its frame refused. -/
  before : ∀ front token back, tokenize text = front ++ token :: back →
    (Machine.partway narrow text front (token :: back)).stack.refused = 0 →
      (extract { options with maxDepth := wide } text).tags.filter (·.offset < token.start) =
        (extract { options with maxDepth := narrow } text).tags.filter (·.offset < token.start)
  /-- Without a diagnostic about refused frames all is the same. -/
  complete : (∀ diagnostic ∈ (extract { options with maxDepth := narrow } text).diagnostics,
      diagnostic.code ≠ some "scope-overflow") →
    (extract { options with maxDepth := wide } text).tags =
        (extract { options with maxDepth := narrow } text).tags ∧
      (extract { options with maxDepth := narrow } text).diagnostics = [] ∧
      (extract { options with maxDepth := wide } text).diagnostics = []

section Tags

variable (options : Options) {narrow wide : Nat} {text : String}

theorem partway_widen (hle : narrow ≤ wide) {front back : List Token}
    (hrefused : (Machine.partway narrow text front back).stack.refused = 0) :
    Machine.partway wide text front back = (Machine.partway narrow text front back).widen wide :=
  Machine.readAll_widen (m := .start narrow) hle hrefused

/-- Tags of findings that stand at `start` or behind are not before `start`. -/
theorem tags_behind (lines : LineTable) {start : Nat} {findings : List Finding}
    (h : ∀ finding ∈ findings, start ≤ finding.declaration.offset) :
    (findings.filterMap (Finding.tag? options lines)).filter (·.offset < start) = [] := by
  rw [List.filter_eq_nil_iff]
  intro tag htag
  obtain ⟨finding, hfinding, hwanted⟩ := List.mem_filterMap.mp htag
  simp only [Finding.tag?, Option.ite_none_right_eq_some, Option.some.injEq] at hwanted
  obtain ⟨-, rfl⟩ := hwanted
  have hoffset : (finding.declaration.toTag lines).offset = finding.declaration.offset := rfl
  have := h finding hfinding
  simp only [hoffset, decide_eq_true_eq]
  omega

/-- **Tags before a token** are those of what has been found when it has been read. -/
theorem tags_before (capacity : Nat) {front back : List Token} {token : Token}
    (htokens : tokenize text = front ++ token :: back) :
    (extract { options with maxDepth := capacity } text).tags.filter (·.offset < token.start) =
      (options.fileModuleTags text ++
        ((Machine.partway capacity text front (token :: back)).step token
          (back.headD (Token.endAt text.utf8ByteSize))).findings.filterMap
            (Finding.tag? options (.ofText text))).filter (·.offset < token.start) := by
  let last := Token.endAt text.utf8ByteSize
  have hsorted : ∀ later ∈ back, token.start < later.start := by
    have hall := tokenize_starts_increasing text
    rw [htokens] at hall
    exact (List.pairwise_cons.mp (List.pairwise_append.mp hall).2.1).1
  have hold : (Machine.partway capacity text front (token :: back)).HoldsInTime :=
    Machine.HoldsInTime.readAll (m := .start capacity) (fun _ => rfl) _ front
  obtain ⟨added, hadded, hbehind⟩ := Machine.findings_behind hold last hsorted
  have hfindings : findingsOf capacity text =
      ((Machine.partway capacity text front (token :: back)).step token
        (back.headD last)).findings ++ added := by
    rw [findingsOf, Machine.read_ofText, htokens, Machine.readAll_append]
    exact hadded
  rw [extract_tags_eq, hfindings, List.filterMap_append, ← List.append_assoc, List.filter_append]
  exact (congrArg (_ ++ ·) (tags_behind options _ hbehind)).trans (List.append_nil _)

/-- Nothing is reported unless a frame was refused. -/
theorem diagnostics_eq_nil_of_code
    (h : ∀ diagnostic ∈ (extract options text).diagnostics,
      diagnostic.code ≠ some "scope-overflow") :
    (extract options text).diagnostics = [] := by
  unfold extract at h ⊢
  dsimp only at h ⊢
  unfold overflowDiagnostics at h ⊢
  split at h
  · rfl
  · exact absurd rfl (h _ (List.mem_singleton_self _))

theorem runOver_widen (hle : narrow ≤ wide) (hrefused : (runOver narrow text).stack.refused = 0) :
    runOver wide text = (runOver narrow text).widen wide :=
  Machine.readAll_widen (m := .start narrow) hle hrefused

/-- A run that refuses nothing over the whole text finds the same with more room. -/
theorem findingsOf_widen (hle : narrow ≤ wide) (hrefused : (runOver narrow text).stack.refused = 0) :
    findingsOf wide text = findingsOf narrow text := by
  have hfindings : ∀ capacity,
      findingsOf capacity text = (runOver capacity text).confirm.findings := by
    intro capacity
    rw [findingsOf, Machine.read_ofText, runOver]
  rw [hfindings, hfindings, runOver_widen hle hrefused, Machine.findings_confirm,
    Machine.findings_confirm]
  rfl

/-- **The capacity is invisible until it is exceeded.** -/
theorem capacity_invisible (hle : narrow ≤ wide) (text : String) :
    CapacityInvisible options narrow wide text where
  abreast front back _ hrefused := by
    have hwide := partway_widen hle hrefused
    refine ⟨by rw [hwide]; rfl, by rw [hwide]; rfl, ?_⟩
    simp only [Options.emitted, Options.reached_eq, hwide, Machine.findings_choose]
    rfl
  machine front back _ hrefused := partway_widen hle hrefused
  before front token back htokens hrefused := by
    -- Even a token whose frame is refused declares the same on both stacks.
    obtain ⟨hfindings, -, -⟩ := Machine.step_widen
      (Machine.partway narrow text front (token :: back)) wide token
      (back.headD (Token.endAt text.utf8ByteSize))
    rw [tags_before options wide htokens, tags_before options narrow htokens,
      partway_widen hle hrefused, hfindings]
  complete hreport := by
    have hnone := diagnostics_eq_nil_of_code _ hreport
    have hrefused : (runOver narrow text).stack.refused = 0 :=
      (diagnostics_eq_nil_iff { options with maxDepth := narrow } text).mp hnone
    have hwide : (runOver wide text).stack.refused = 0 := by
      rw [runOver_widen hle hrefused]
      exact hrefused
    refine ⟨?_, hnone, ?_⟩
    · rw [extract_tags_eq, extract_tags_eq, findingsOf_widen hle hrefused]
      rfl
    · exact (diagnostics_eq_nil_iff { options with maxDepth := wide } text).mpr hwide

/-- Two frames are too few here, and the tags before the third scope are the same with three. -/
theorem capacity_invisible_nested :
    2 ≤ 3 ∧
      (extract { maxDepth := 2 } "module A = struct module B = struct let x = 1 end end").diagnostics
        ≠ [] ∧
      CapacityInvisible {} 2 3 "module A = struct module B = struct let x = 1 end end" :=
  have hle : 2 ≤ 3 := by decide
  ⟨hle, by decide +kernel, capacity_invisible _ hle _⟩

end Tags

end CamlIndex
