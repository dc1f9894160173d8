import CamlIndex.Extraction
import CamlIndex.Proofs.Announcement

/-!
# What a run has found

A `Finding` is a noted declaration with its locality.  The findings of a
machine and the constructor that it still holds back make up what it has
`declared`.  Three facts carry over from tokens to whole runs:

* `declared_readAll_at` — what a run declares is named by one of its tokens, in the
  scope that is innermost there;
* `declared_readAll_increasing` — a run declares in the order of its tokens,
  and no token twice;
* `findings_readAll` — a run takes no finding back, and what it adds stands at
  its tokens.

`extract_tags_eq` brings them to the tags of a text.
-/

namespace CamlIndex

/-- A declaration that was noted, and whether only an expression sees it. -/
structure Finding where
  declaration : Declaration
  isLocal : Bool
  deriving DecidableEq, Repr

/-- The finding that a note tells of. -/
def Note.finding? : Note → Option Finding
  | .declared declaration isLocal => some ⟨declaration, isLocal⟩
  | _ => none

/-- The tag of a finding, if it is wanted. -/
def Finding.tag? (options : Options) (lines : LineTable) (finding : Finding) : Option Tag :=
  if options.wants finding.declaration finding.isLocal then some (finding.declaration.toTag lines)
  else none

theorem Note.tag?_eq (options : Options) (lines : LineTable) (note : Note) :
    note.tag? options lines = note.finding?.bind (Finding.tag? options lines) := by
  cases note <;> simp [Note.tag?, Note.finding?, Finding.tag?]

namespace Machine

/-- What has been noted as declared, in the order of the text. -/
def findings (m : Machine) : List Finding :=
  (m.notes.filterMap Note.finding?).reverse

/-- The declarations found so far, with the one that is held back. -/
def declared (m : Machine) : List Declaration :=
  m.findings.map Finding.declaration ++ m.staged.toList

/-- A constructor is held back only until the next token. -/
def HoldsInTime (m : Machine) : Prop :=
  m.mode ≠ .constructorCheck → m.staged = none

@[simp] theorem findings_note (m : Machine) (note : Note) :
    (m.note note).findings = m.findings ++ note.finding?.toList := by
  cases h : note.finding? <;> simp [findings, Machine.note, h]

@[simp] theorem findings_confirm (m : Machine) :
    m.confirm.findings = m.findings ++ m.staged.toList.map (⟨·, false⟩) := by
  unfold confirm
  cases h : m.staged with
  | none => simp
  | some declaration => simp [Note.finding?]; rfl

@[simp] theorem staged_confirm (m : Machine) : m.confirm.staged = none := by
  unfold confirm
  split
  · rfl
  · assumption

/-- Confirming what is held back declares nothing new. -/
theorem declared_confirm (m : Machine) : m.confirm.declared = m.declared := by
  simp [declared, Function.comp_def]

theorem push_fields (m : Machine) (boundary : Bool) (role : Role) (resume : Mode) (name : String) :
    (m.push boundary role resume name).findings = m.findings ∧
      (m.push boundary role resume name).staged = m.staged ∧
      (m.push boundary role resume name).stack = m.stack.push boundary role resume name := by
  unfold push
  dsimp only
  split
  · exact ⟨by simp [Note.finding?]; rfl, rfl, rfl⟩
  · exact ⟨rfl, rfl, rfl⟩

theorem returnToMatch_fields (m : Machine) :
    m.returnToMatch.notes = m.notes ∧ m.returnToMatch.staged = m.staged := by
  unfold returnToMatch
  split <;> exact ⟨rfl, rfl⟩

/-- A walk finds nothing. -/
theorem Walk.findings_eq {m after : Machine} {room : Nat} (walk : Walk m room after) :
    after.findings = m.findings ∧ after.staged = m.staged := by
  induction walk with
  | start => exact ⟨rfl, rfl⟩
  | control _ _ hnotes hstaged _ ih =>
      rw [hstaged, findings, hnotes]
      exact ih
  | push _ _ ih =>
      obtain ⟨hfindings, hstaged, -⟩ := push_fields _ _ _ _ _
      rw [hfindings, hstaged]
      exact ih
  | popToNamed _ ih => exact ih
  | pop _ ih => exact ih
  | popBoundary _ ih => exact ih
  | returnToMatch _ ih =>
      obtain ⟨hnotes, hstaged⟩ := returnToMatch_fields _
      rw [hstaged, findings, hnotes]
      exact ih

/-! ## One step -/

section Step

variable (m : Machine) (current next : Token)

/-- The machine just after the rule has read a token. -/
def dispatched : Machine :=
  { m with offset := current.start }.dispatch current next

/-- A step tells of a change of mode after all that its rule has told. -/
theorem step_dispatched :
    m.step current next =
      if m.mode = (m.dispatched current next).mode then m.dispatched current next
      else (m.dispatched current next).note
        (.moved current.kind m.mode (m.dispatched current next).mode) := rfl

/-- Apart from what is told and counted, the rule starts from the machine as it is. -/
theorem dispatched_course :
    ∃ notes staged labelDepth optionalDepth balance, Course current
      { m with offset := current.start, notes, staged, labelDepth, optionalDepth, balance } 1
      (m.dispatched current next) := by
  obtain ⟨notes, staged, hcourse⟩ :=
    dispatch_course { m with offset := current.start } current next
  obtain ⟨labelDepth, optionalDepth, balance, hcounted⟩ :=
    ({ m with offset := current.start, notes, staged } : Machine).counted_eq current
  exact ⟨notes, staged, labelDepth, optionalDepth, balance, hcounted ▸ hcourse⟩

theorem step_fields :
    (m.step current next).mode = (m.dispatched current next).mode ∧
      (m.step current next).stack = (m.dispatched current next).stack ∧
      (m.step current next).staged = (m.dispatched current next).staged ∧
      (m.step current next).findings = (m.dispatched current next).findings := by
  unfold step dispatched
  dsimp only
  split
  · exact ⟨rfl, rfl, rfl, rfl⟩
  · exact ⟨rfl, rfl, rfl, by simp [Note.finding?]⟩

/-- **One token, one declaration.**  A step keeps what was declared, but for a
constructor that turns out to be a module path, and adds one declaration at
most, which the token names, in the innermost scope. -/
theorem declared_step (hold : m.HoldsInTime) :
    ∃ kept added, (m.step current next).declared = kept ++ added ∧
      kept.Sublist m.declared ∧ added.length ≤ 1 ∧
      ∀ declaration ∈ added,
        declaration.NamedBy current next ∧ declaration.scope = m.stack.scope? := by
  obtain ⟨-, -, hstaged, hfindings⟩ := step_fields m current next
  simp only [declared, hstaged, hfindings]
  cases dispatch_outcome { m with offset := current.start } current next with
  | @moves heard hmode hheard hcourse =>
      have hnone : m.staged = none := hold hmode
      obtain ⟨hfound, hheld⟩ := hcourse.walk_of_counted.findings_eq
      rw [dispatched, hfound, hheld]
      cases hheard with
      | nothing =>
          refine ⟨m.declared, [], ?_, List.Sublist.refl _, by simp, by simp⟩
          rw [List.append_nil]
          rfl
      | @declared declaration isLocal announced =>
          refine ⟨m.declared, [declaration], ?_, List.Sublist.refl _, by simp, ?_⟩
          · simp [declared, Note.finding?, hnone, Machine.note, findings]
          · intro other hother
            rw [List.mem_singleton.mp hother]
            exact ⟨announced.named, announced.scope⟩
  | holds hmode hkind _ hresult =>
      have hnone : m.staged = none := hold (by rw [show m.mode = _ from hmode]; simp)
      rw [dispatched, hresult]
      refine ⟨m.declared, [m.declaration current.text current .constructorDef], ?_,
        List.Sublist.refl _, by simp, ?_⟩
      · simp [declared, stage, goto, hnone, findings]; rfl
      · intro other hother
        rw [List.mem_singleton.mp hother]
        exact ⟨⟨rfl, .inl ⟨.inl hkind, rfl⟩⟩, rfl⟩
  | settles hmode hcourse =>
      obtain ⟨hfound, hheld⟩ := hcourse.walk.findings_eq
      rw [dispatched, hfound, hheld]
      by_cases hpath : current.kind = .operator
      · refine ⟨m.findings.map Finding.declaration, [], ?_, List.sublist_append_left _ _,
          by simp, by simp⟩
        simp [hpath, withdraw, findings]
      · refine ⟨m.declared, [], ?_, List.Sublist.refl _, by simp, by simp⟩
        rw [if_neg hpath, List.append_nil]
        exact declared_confirm { m with offset := current.start }

end Step

theorem HoldsInTime.step {m : Machine} (hold : m.HoldsInTime) (current next : Token) :
    (m.step current next).HoldsInTime := by
  obtain ⟨hmode, -, hstaged, -⟩ := step_fields m current next
  unfold HoldsInTime
  rw [hmode, hstaged]
  cases dispatch_outcome { m with offset := current.start } current next with
  | @moves heard hbefore hheard hcourse =>
      intro _
      rw [dispatched, hcourse.walk_of_counted.findings_eq.2]
      cases hheard <;> exact hold hbefore
  | holds _ _ _ hresult =>
      intro hafter
      rw [dispatched, hresult] at hafter
      exact absurd rfl hafter
  | settles _ hcourse =>
      intro _
      rw [dispatched, hcourse.walk.findings_eq.2]
      split
      · rfl
      · exact staged_confirm _

/-! ## Whole runs -/

theorem HoldsInTime.readAll {m : Machine} (hold : m.HoldsInTime) (last : Token)
    (tokens : List Token) : (m.readAll last tokens).HoldsInTime := by
  induction tokens generalizing m with
  | nil => exact hold
  | cons token rest ih => exact ih (hold.step token (rest.headD last))

/-- **Declarations are made where they stand.**  What a run declares was declared
before it or is named by one of its tokens, in the scope that is innermost when the
tokens in front have been read. -/
theorem declared_readAll_at {last : Token} {tokens : List Token} {m : Machine}
    (hold : m.HoldsInTime) {declaration : Declaration}
    (h : declaration ∈ (m.readAll last tokens).declared) :
    declaration ∈ m.declared ∨
      ∃ front current back, tokens = front ++ current :: back ∧
        declaration.NamedBy current (back.headD last) ∧
        declaration.scope = (m.readAll current front).stack.scope? := by
  induction tokens generalizing m with
  | nil => exact .inl h
  | cons token rest ih =>
      rcases ih (hold.step token (rest.headD last)) h with
        h | ⟨front, current, back, rfl, hnamed, hscope⟩
      · obtain ⟨kept, added, heq, hkept, -, hadded⟩ := declared_step m token (rest.headD last) hold
        rw [heq, List.mem_append] at h
        rcases h with h | h
        · exact .inl (hkept.subset h)
        · exact .inr ⟨[], token, rest, rfl, hadded _ h⟩
      · refine .inr ⟨token :: front, current, back, rfl, hnamed, ?_⟩
        rw [hscope, readAll]
        cases front <;> rfl

theorem mem_pairUp_of_split (last : Token) (front : List Token) (current : Token)
    (back : List Token) :
    (current, back.headD last) ∈ pairUp last (front ++ current :: back) := by
  induction front with
  | nil => cases back <;> exact List.mem_cons_self
  | cons token front ih =>
      cases front with
      | nil => exact List.mem_cons_of_mem _ ih
      | cons other front => exact List.mem_cons_of_mem _ ih

/-- **Names come from tokens.**  What a run declares was declared before it or
is named by one of its tokens. -/
theorem mem_declared_readAll {last : Token} {tokens : List Token} {m : Machine}
    (hold : m.HoldsInTime) {declaration : Declaration}
    (h : declaration ∈ (m.readAll last tokens).declared) :
    declaration ∈ m.declared ∨
      ∃ pair ∈ pairUp last tokens, declaration.NamedBy pair.1 pair.2 := by
  rcases declared_readAll_at hold h with h | ⟨front, current, back, rfl, hnamed, -⟩
  · exact .inl h
  · exact .inr ⟨_, mem_pairUp_of_split last front current back, hnamed⟩

/-- Declarations stand in the order of the text, no two at the same place. -/
def Increasing (declarations : List Declaration) : Prop :=
  declarations.Pairwise fun a b => a.offset < b.offset

/-- **Order of a run.**  If every token starts after the one before it and
after all that has been declared, then a run declares in order. -/
theorem declared_readAll_increasing {last : Token} {tokens : List Token} {m : Machine}
    (hold : m.HoldsInTime) (hsorted : tokens.Pairwise fun a b => a.start < b.start)
    (hbefore : ∀ declaration ∈ m.declared, ∀ token ∈ tokens, declaration.offset < token.start)
    (hincreasing : Increasing m.declared) : Increasing (m.readAll last tokens).declared := by
  induction tokens generalizing m with
  | nil => exact hincreasing
  | cons token rest ih =>
      obtain ⟨hfirst, hrest⟩ := List.pairwise_cons.mp hsorted
      obtain ⟨kept, added, heq, hkept, hone, hadded⟩ :=
        declared_step m token (rest.headD last) hold
      have hstart : ∀ declaration ∈ added, declaration.offset = token.start :=
        fun declaration h => (hadded declaration h).1.offset
      refine ih (hold.step token (rest.headD last)) hrest ?_ ?_
      · intro declaration hdeclared other hother
        rw [heq, List.mem_append] at hdeclared
        rcases hdeclared with h | h
        · exact hbefore declaration (hkept.subset h) other (List.mem_cons_of_mem _ hother)
        · rw [hstart declaration h]
          exact hfirst other hother
      · rw [heq]
        refine List.pairwise_append.mpr ⟨hincreasing.sublist hkept, ?_, ?_⟩
        · cases added with
          | nil => exact List.Pairwise.nil
          | cons first others =>
              obtain rfl : others = [] := by simpa using hone
              exact List.pairwise_singleton _ _
        · intro earlier hearlier later hlater
          rw [hstart later hlater]
          exact hbefore earlier (hkept.subset hearlier) token List.mem_cons_self

/-! ## Where findings come from -/

/-- A finding that can come of reading tokens: it was held back before, or it
stands at one of them and, if it is local, is a value or a function. -/
def ComesOf (m : Machine) (tokens : List Token) (finding : Finding) : Prop :=
  (m.staged = some finding.declaration ∧ finding.isLocal = false) ∨
    (∃ token ∈ tokens, finding.declaration.offset = token.start) ∧
      (finding.isLocal = true →
        finding.declaration.kind = .variableDef ∨ finding.declaration.kind = .functionDef)

/-- A step only adds findings, each of which comes of its token. -/
theorem findings_step (m : Machine) (current next : Token) :
    ∃ added, (m.step current next).findings = m.findings ++ added ∧
      ∀ finding ∈ added, m.ComesOf [current] finding := by
  obtain ⟨-, -, -, hfindings⟩ := step_fields m current next
  rw [hfindings, dispatched]
  cases dispatch_outcome { m with offset := current.start } current next with
  | @moves heard hmode hheard hcourse =>
      rw [hcourse.walk_of_counted.findings_eq.1]
      cases hheard with
      | nothing => exact ⟨[], (List.append_nil _).symm, by simp⟩
      | @declared declaration isLocal announced =>
          refine ⟨[⟨declaration, isLocal⟩], findings_note _ _, ?_⟩
          intro finding hfinding
          rw [List.mem_singleton.mp hfinding]
          exact .inr ⟨⟨current, List.mem_singleton_self _, announced.named.offset⟩,
            announced.local_kind⟩
  | holds _ _ _ hresult =>
      rw [hresult]
      exact ⟨[], (List.append_nil _).symm, by simp⟩
  | settles _ hcourse =>
      rw [hcourse.walk.findings_eq.1]
      split
      · exact ⟨[], (List.append_nil _).symm, by simp⟩
      · refine ⟨m.staged.toList.map (⟨·, false⟩), findings_confirm _, ?_⟩
        intro finding hfinding
        obtain ⟨declaration, hheld, rfl⟩ := List.mem_map.mp hfinding
        exact .inl ⟨Option.mem_toList.mp hheld, rfl⟩

/-- What is held back after a step stands at its token. -/
theorem offset_of_staged_step {m : Machine} (hold : m.HoldsInTime) {current next : Token}
    {declaration : Declaration} (h : (m.step current next).staged = some declaration) :
    declaration.offset = current.start := by
  obtain ⟨-, -, hstaged, -⟩ := step_fields m current next
  rw [hstaged, dispatched] at h
  cases dispatch_outcome { m with offset := current.start } current next with
  | @moves heard hmode hheard hcourse =>
      have hnone : heard.staged = none := by
        cases hheard <;> exact hold hmode
      rw [hcourse.walk_of_counted.findings_eq.2, hnone] at h
      cases h
  | holds _ _ _ hresult =>
      rw [hresult] at h
      cases h
      rfl
  | settles _ hcourse =>
      rw [hcourse.walk.findings_eq.2] at h
      split at h
      · cases h
      · rw [staged_confirm] at h
        cases h

/-- **A run only adds findings**, and all of them come of its tokens. -/
theorem findings_readAll {m : Machine} (hold : m.HoldsInTime) (last : Token)
    (tokens : List Token) :
    ∃ added, (m.readAll last tokens).confirm.findings = m.findings ++ added ∧
      ∀ finding ∈ added, m.ComesOf tokens finding := by
  induction tokens generalizing m with
  | nil =>
      refine ⟨m.staged.toList.map (⟨·, false⟩), m.findings_confirm, ?_⟩
      intro finding hfinding
      obtain ⟨declaration, hheld, rfl⟩ := List.mem_map.mp hfinding
      exact .inl ⟨Option.mem_toList.mp hheld, rfl⟩
  | cons token rest ih =>
      obtain ⟨first, hfirst, hcome⟩ := findings_step m token (rest.headD last)
      obtain ⟨later, hlater, hcomeLater⟩ := ih (hold.step token (rest.headD last))
      refine ⟨first ++ later, by rw [readAll, hlater, hfirst, List.append_assoc], ?_⟩
      intro finding hfinding
      rcases List.mem_append.mp hfinding with h | h
      · rcases hcome finding h with hheld | ⟨⟨other, hother, hoffset⟩, hkind⟩
        · exact .inl hheld
        · rw [List.mem_singleton.mp hother] at hoffset
          exact .inr ⟨⟨token, List.mem_cons_self, hoffset⟩, hkind⟩
      · rcases hcomeLater finding h with ⟨hheld, hpublic⟩ | ⟨⟨other, hother, hoffset⟩, hkind⟩
        · refine .inr ⟨⟨token, List.mem_cons_self, offset_of_staged_step hold hheld⟩, ?_⟩
          simp [hpublic]
        · exact .inr ⟨⟨other, List.mem_cons_of_mem _ hother, hoffset⟩, hkind⟩

end Machine

/-- The findings of a text, with room for `capacity` frames. -/
def findingsOf (capacity : Nat) (text : String) : List Finding :=
  ((Machine.start capacity).read (.ofText text)).findings

/-- **Tags are findings.**  Behind the module of the file stand the wanted
findings, in the order in which they were noted. -/
theorem extract_tags_eq (options : Options) (text : String) :
    (extract options text).tags = options.fileModuleTags text ++
      (findingsOf options.maxDepth text).filterMap (Finding.tag? options (.ofText text)) := by
  simp only [extract, Machine.notesOf, findingsOf, Machine.findings, ← List.filterMap_reverse,
    List.filterMap_filterMap]
  congr 2
  funext note
  exact Note.tag?_eq options _ note

/-- The findings of a text are what the run over its tokens has declared. -/
theorem findingsOf_declarations (capacity : Nat) (text : String) :
    (findingsOf capacity text).map Finding.declaration =
      ((Machine.start capacity).readAll (Token.endAt text.utf8ByteSize)
        (tokenize text)).declared := by
  rw [findingsOf, Machine.read_ofText, ← Machine.declared_confirm]
  simp [Machine.declared]

/-- Only values and functions are local. -/
theorem kind_of_local {capacity : Nat} {text : String} {finding : Finding}
    (h : finding ∈ findingsOf capacity text) (hlocal : finding.isLocal = true) :
    finding.declaration.kind = .variableDef ∨ finding.declaration.kind = .functionDef := by
  obtain ⟨added, hadded, hcome⟩ := Machine.findings_readAll (m := .start capacity)
    (fun _ => rfl) (Token.endAt text.utf8ByteSize) (tokenize text)
  rw [findingsOf, Machine.read_ofText, hadded] at h
  rcases hcome finding h with ⟨hheld, -⟩ | ⟨-, hkind⟩
  · cases hheld
  · exact hkind hlocal

end CamlIndex
