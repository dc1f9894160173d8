import CamlIndex.Proofs.Room
import CamlIndex.Proofs.Selection

/-!
# Constructors that are held back

A capitalised name in the body of a type is a constructor, unless an operator follows
it: then it is the first part of a module path.  So the machine holds such a name back
and lets the next token decide.  The token that decides may end the type, unwind the
stack and be read once more as the start of a declaration, and the text may end before
there is such a token.

None of this loses a constructor.  What is held back after a token is what that token
has given, or nothing (`staged_step`), and the constructors found so far grow by what
was held back, unless an operator withdraws it (`constructors_step`).  So at any time the
constructors of a run are those found, then the one held back, then those of the tokens
that are still to come (`constructors_readAll`):

* `Machine.staged_step`, `Machine.constructors_step` — what one token does;
* `Machine.constructors_readAll` — what the tokens to come do;
* `constructors_resolved` — the constructors among the tags of a text, one by one.
-/

namespace CamlIndex

/-! ## One token -/

namespace Machine

/-- Whether a token is held back: it is a capitalised name in the body of a type. -/
def HoldsBack (m : Machine) (current : Token) : Prop :=
  m.mode = .typeBody ∧ current.kind = .ident ∧ current.isCapitalized = true

instance (m : Machine) (current : Token) : Decidable (m.HoldsBack current) :=
  inferInstanceAs (Decidable (_ ∧ _))

/-- The constructors that have been found. -/
def constructors (m : Machine) : List Finding :=
  m.findings.filter fun finding => finding.declaration.kind = .constructorDef

/-- What comes of the constructor held back when the next token is in view. -/
def settled (m : Machine) (next : Token) : List Finding :=
  if next.kind = .operator then [] else m.staged.toList.map (⟨·, false⟩)

/-- What is held back is a constructor, and it is held back in time only. -/
structure Holding (m : Machine) : Prop where
  inTime : m.HoldsInTime
  kind : ∀ declaration, m.staged = some declaration → declaration.kind = .constructorDef

section Step

variable {m : Machine} {current next : Token}

theorem dispatched_of_holdsBack (h : m.HoldsBack current) :
    m.dispatched current next =
      ({ m with offset := current.start }.stage current).goto .constructorCheck := by
  obtain ⟨hmode, hkind, hcapitalized⟩ := h
  simp [dispatched, dispatch, atTypeBody, hmode, hkind, hcapitalized]

/-- **What is held back after a token** is what that token has given, or nothing. -/
theorem staged_step (hold : m.HoldsInTime) (current next : Token) :
    (m.step current next).staged =
      if m.HoldsBack current then some (m.declaration current.text current .constructorDef)
      else none := by
  obtain ⟨-, -, hstaged, -⟩ := step_fields m current next
  rw [hstaged]
  by_cases hholds : m.HoldsBack current
  · rw [if_pos hholds, dispatched_of_holdsBack hholds]
    rfl
  rw [if_neg hholds, dispatched]
  cases dispatch_outcome { m with offset := current.start } current next with
  | @moves heard hmode hheard hcourse =>
      rw [hcourse.walk_of_counted.findings_eq.2]
      cases hheard <;> exact hold hmode
  | holds hmode hkind hcapitalized _ => exact absurd ⟨hmode, hkind, hcapitalized⟩ hholds
  | settles _ hcourse =>
      rw [hcourse.walk.findings_eq.2]
      split
      · rfl
      · exact staged_confirm _

theorem Holding.step (h : m.Holding) (current next : Token) :
    (m.step current next).Holding where
  inTime := h.inTime.step current next
  kind := by
    intro declaration hstaged
    rw [staged_step h.inTime, Option.ite_none_right_eq_some] at hstaged
    obtain ⟨-, heq⟩ := hstaged
    cases heq
    rfl

/-- Nothing comes of nothing. -/
theorem settled_of_staged_eq_none (h : m.staged = none) (next : Token) : m.settled next = [] := by
  rw [settled, h]
  split <;> rfl

/-- Confirming what is held back adds it to the constructors. -/
theorem constructors_confirm (h : m.Holding) :
    m.confirm.constructors = m.constructors ++ m.staged.toList.map (⟨·, false⟩) := by
  rw [constructors, findings_confirm, List.filter_append, constructors]
  congr 1
  apply List.filter_eq_self.mpr
  intro finding hfinding
  obtain ⟨declaration, hheld, rfl⟩ := List.mem_map.mp hfinding
  exact decide_eq_true (h.kind declaration (Option.mem_toList.mp hheld))

/-- **The constructors found with a token** are those found before it, and the one
held back unless the token is an operator. -/
theorem constructors_step (h : m.Holding) (current next : Token) :
    (m.step current next).constructors = m.constructors ++ m.settled current := by
  obtain ⟨-, -, -, hfindings⟩ := step_fields m current next
  rw [constructors, hfindings, dispatched]
  cases dispatch_outcome { m with offset := current.start } current next with
  | @moves heard hmode hheard hcourse =>
      rw [hcourse.walk_of_counted.findings_eq.1, settled_of_staged_eq_none (h.inTime hmode), List.append_nil]
      cases hheard with
      | nothing => rfl
      | declared announced =>
          rw [findings_note, List.filter_append]
          simp [Note.finding?, announced.not_constructor, constructors, findings]
  | holds hmode _ _ hresult =>
      have hnone : m.staged = none := h.inTime (by rw [show m.mode = _ from hmode]; simp)
      rw [hresult, settled_of_staged_eq_none hnone, List.append_nil]
      rfl
  | settles _ hcourse =>
      rw [hcourse.walk.findings_eq.1, settled]
      by_cases hoperator : current.kind = .operator
      · rw [if_pos hoperator, if_pos hoperator, List.append_nil]
        rfl
      · rw [if_neg hoperator, if_neg hoperator]
        have hplaced : Holding { m with offset := current.start } := ⟨h.inTime, h.kind⟩
        exact constructors_confirm hplaced

end Step

end Machine

/-! ## A run -/

/-- A token with the tokens around it. -/
structure Reading where
  front : List Token
  current : Token
  back : List Token

/-- The tokens of a list one by one, each with the tokens around it, if `front` has been
read already. -/
def readings (front : List Token) : List Token → List Reading
  | [] => []
  | current :: back => ⟨front, current, back⟩ :: readings (front ++ [current]) back

namespace Machine

variable (capacity : Nat) (text : String)

/-- The constructor that a token of a text is: one that is held back and that no
operator follows. -/
def constructorAt? (reading : Reading) : Option Finding :=
  let m := partway capacity text reading.front (reading.current :: reading.back)
  if m.HoldsBack reading.current ∧
      (reading.back.headD (Token.endAt text.utf8ByteSize)).kind ≠ .operator then
    some ⟨m.declaration reading.current.text reading.current .constructorDef, false⟩
  else none

theorem holding_start : (start capacity).Holding :=
  ⟨fun _ => rfl, fun _ h => nomatch h⟩

theorem Holding.readAll {m : Machine} (h : m.Holding) (last : Token) (tokens : List Token) :
    (m.readAll last tokens).Holding := by
  induction tokens generalizing m with
  | nil => exact h
  | cons token rest ih => exact ih (h.step token (rest.headD last))

theorem holding_partway (front back : List Token) : (partway capacity text front back).Holding :=
  (holding_start capacity).readAll _ _

/-- What comes of a token that has just been read, with the next one in view. -/
theorem settled_partway_concat (front : List Token) (current : Token) (back : List Token) :
    (partway capacity text (front ++ [current]) back).settled
        (back.headD (Token.endAt text.utf8ByteSize)) =
      (constructorAt? capacity text ⟨front, current, back⟩).toList := by
  have hholding := holding_partway capacity text front (current :: back)
  rw [partway_concat, settled, staged_step hholding.inTime, constructorAt?]
  dsimp only
  by_cases hholds : (partway capacity text front (current :: back)).HoldsBack current
  · by_cases hoperator : (back.headD (Token.endAt text.utf8ByteSize)).kind = .operator
    · rw [if_pos hoperator, if_neg fun h => h.2 hoperator]
      rfl
    · rw [if_neg hoperator, if_pos hholds, if_pos ⟨hholds, hoperator⟩]
      rfl
  · simp only [hholds, false_and, if_false]
    split <;> rfl

/-- **The constructors of a run** are those found, then the one held back, then those of
the tokens that are still to come. -/
theorem constructors_readAll (front back : List Token) :
    ((partway capacity text front back).readAll (Token.endAt text.utf8ByteSize)
        back).confirm.constructors =
      (partway capacity text front back).constructors ++
        (partway capacity text front back).settled (back.headD (Token.endAt text.utf8ByteSize)) ++
        (readings front back).filterMap (constructorAt? capacity text) := by
  have hholding := holding_partway capacity text front back
  induction back generalizing front with
  | nil =>
      rw [readAll, constructors_confirm hholding]
      simp [settled, readings, Token.endAt]
  | cons current back ih =>
      have hrun := ih (front ++ [current]) (holding_partway capacity text _ back)
      rw [settled_partway_concat, partway_concat, constructors_step hholding] at hrun
      rw [readAll, hrun, readings, List.filterMap_cons, List.headD_cons]
      cases constructorAt? capacity text ⟨front, current, back⟩ <;> simp

end Machine

/-! ## A whole text -/

/-- The tag of a constructor: it stands where the token does, in the scope that is
innermost when the token is read, if the token is held back and no operator follows. -/
def Options.constructorTag? (options : Options) (text : String) (reading : Reading) :
    Option Tag :=
  let m := options.reached text reading.front (reading.current :: reading.back)
  if m.HoldsBack reading.current ∧
      (reading.back.headD (Token.endAt text.utf8ByteSize)).kind ≠ .operator then
    let position := (LineTable.ofText text).position reading.current.start
    some ⟨reading.current.text, .constructorDef, position.line + 1, position.column,
      reading.current.start, m.stack.scope?⟩
  else none

/-- What it means that every constructor held back is resolved exactly once. -/
structure ConstructorsResolved (options : Options) (text : String) : Prop where
  /-- A constructor is held back only while the next token is to decide about it. -/
  inTime : ∀ front back, tokenize text = front ++ back →
    (options.reached text front back).staged ≠ none →
      (options.reached text front back).mode = .constructorCheck
  /-- After a token the constructor held back is the one that the token has given. -/
  held : ∀ front current back, tokenize text = front ++ current :: back →
    (options.reached text (front ++ [current]) back).staged =
      let m := options.reached text front (current :: back)
      if m.HoldsBack current then
        some ⟨current.text, .constructorDef, current.start, m.stack.scope?⟩
      else none
  /-- The tags of constructors are one for each token held back that no operator follows. -/
  tags : ((extract options text).tags.filter fun tag => tag.kind = .constructorDef) =
    (readings [] (tokenize text)).filterMap (options.constructorTag? text)

theorem fileModuleTags_filter_constructor (options : Options) (text : String) :
    ((options.fileModuleTags text).filter fun tag => tag.kind = .constructorDef) = [] := by
  unfold Options.fileModuleTags
  split
  · split <;> rfl
  · rfl

/-- The tags of constructors are those of the constructors found. -/
theorem constructorTags_eq (options : Options) (text : String) :
    ((extract options text).tags.filter fun tag => tag.kind = .constructorDef) =
      (runOver options.maxDepth text).confirm.constructors.filterMap
        (Finding.tag? options (.ofText text)) := by
  rw [extract_tags_eq, List.filter_append, fileModuleTags_filter_constructor, List.nil_append,
    findingsOf, Machine.read_ofText, Machine.constructors, List.filterMap_filter,
    List.filter_filterMap]
  congr 1
  funext finding
  have hkind : (finding.declaration.toTag (.ofText text)).kind = finding.declaration.kind := rfl
  by_cases hconstructor : finding.declaration.kind = .constructorDef <;>
    by_cases hwanted : options.wants finding.declaration finding.isLocal = true <;>
      simp [Finding.tag?, Option.filter, hwanted, hkind, hconstructor]

/-- What is dropped has no part in what a token gives. -/
theorem Machine.holdsBack_choose (options : Options) (m : Machine) (current : Token) :
    (m.choose options).HoldsBack current ↔ m.HoldsBack current :=
  Iff.rfl

section Wanted

variable {options : Options} (hkind : options.kinds.contains .constructorDef = true)
include hkind

theorem wants_constructor {declaration : Declaration} (h : declaration.kind = .constructorDef) :
    options.wants declaration false = true := by
  simp [Options.wants, h, hkind]

/-- A machine that drops at once what is not wanted holds back the same constructor. -/
theorem staged_reached (text : String) (front back : List Token) :
    (options.reached text front back).staged =
      (Machine.partway options.maxDepth text front back).staged := by
  have hholding := Machine.holding_partway options.maxDepth text front back
  rw [Options.reached_eq]
  cases hstaged : (Machine.partway options.maxDepth text front back).staged with
  | none => simp [Machine.choose, hstaged]
  | some declaration =>
      have hwanted := wants_constructor hkind (hholding.kind declaration hstaged)
      simp [Machine.choose, hstaged, Option.filter, hwanted]

theorem constructorAt?_tag? (text : String) (reading : Reading) :
    (Machine.constructorAt? options.maxDepth text reading).bind
        (Finding.tag? options (.ofText text)) =
      options.constructorTag? text reading := by
  rw [Options.constructorTag?, Options.reached_eq, Machine.constructorAt?]
  simp only [Machine.holdsBack_choose]
  by_cases hgiven : (Machine.partway options.maxDepth text reading.front
      (reading.current :: reading.back)).HoldsBack reading.current ∧
    (reading.back.headD (Token.endAt text.utf8ByteSize)).kind ≠ .operator
  · rw [if_pos hgiven, if_pos hgiven, Option.bind_some, Finding.tag?,
      if_pos (wants_constructor hkind rfl)]
    rfl
  · rw [if_neg hgiven, if_neg hgiven]
    rfl

/-- **Constructors held back are resolved exactly once.** -/
theorem constructors_resolved (text : String) : ConstructorsResolved options text := by
  constructor
  case inTime =>
      intro front back _ hheld
      have hholding := Machine.holding_partway options.maxDepth text front back
      rw [staged_reached hkind] at hheld
      rw [Options.reached_eq]
      by_contra hmode
      exact hheld (hholding.inTime hmode)
  case held =>
      intro front current back _
      have hholding := Machine.holding_partway options.maxDepth text front (current :: back)
      rw [staged_reached hkind, Machine.partway_concat, Machine.staged_step hholding.inTime,
        Options.reached_eq]
      rfl
  case tags =>
      rw [constructorTags_eq]
      have hrun := Machine.constructors_readAll options.maxDepth text [] (tokenize text)
      have hstart : (Machine.partway options.maxDepth text [] (tokenize text)).constructors ++
          (Machine.partway options.maxDepth text [] (tokenize text)).settled
            ((tokenize text).headD (Token.endAt text.utf8ByteSize)) = [] :=
        Machine.settled_of_staged_eq_none rfl _
      rw [hstart, List.nil_append] at hrun
      rw [runOver]
      refine (congrArg _ hrun).trans ?_
      rw [List.filterMap_filterMap]
      congr 1
      funext reading
      exact constructorAt?_tag? hkind text reading

end Wanted

theorem constructors_resolved_path :
    KindSet.all.contains .constructorDef = true ∧
      ((extract {} "type t = M.t type u = A | B").tags.filter
          fun tag => tag.kind = .constructorDef) =
        [⟨"A", .constructorDef, 1, 22, 22, some ⟨.typeDef, "u"⟩⟩,
          ⟨"B", .constructorDef, 1, 26, 26, some ⟨.typeDef, "u"⟩⟩] ∧
      ConstructorsResolved {} "type t = M.t type u = A | B" :=
  ⟨rfl, by decide +kernel, constructors_resolved rfl _⟩

end CamlIndex
