import CamlIndex.Proofs.Counters
import CamlIndex.Proofs.Finding

/-!
# Parentheses in labels

A labelled or an optional parameter ends where all the parentheses that it has opened are
closed.  The machine counts them, with a counter for each of the two sorts, and nothing ever
sets a counter back.  So a count must come to nothing by itself where the parameter ends;
otherwise the next one of the sort starts with what is left of it.

An optional parameter ends in one way only, and its count is used up then.  A labelled one
has another way out: an operator that starts with a colon leaves it, whatever is open.  And
in both a parenthesis may close where none is open, which takes the count below zero.

These are all the ways in which a count goes wrong, and each of them can be told from the
text: the parentheses that are open in a parameter are those between the token that began
it and the token being read.  What goes wrong then is not only the count.  A parameter that
has its name waits for its count to come to nothing; if that does not happen any more,
whatever follows belongs to the parameter, declarations and all.

* `depth_step` — one token counts in the parameter that is being read and nowhere else;
* `balanced_partway`, `not_malformed` — counts are right if and only if labels are;
* `stuck_readAll` — a label that does not end swallows what follows;
* `counts_labels` — the three of them for every text and every capacity.
-/

namespace CamlIndex

/-- The parentheses that tokens open less those that they close. -/
def openParens : List Token → Int
  | [] => 0
  | token :: tokens => token.opens + openParens tokens

/-- Whether a token is an operator that starts with a colon, such as `::`.  A lone colon
is no operator. -/
def Token.opensType (token : Token) : Bool :=
  token.kind == .operator && token.initial? == some ':'

theorem Token.opens_of_opensType {token : Token} (h : token.opensType = true) :
    token.opens = 0 := by
  have hkind : token.kind = .operator := by
    simp only [Token.opensType, Bool.and_eq_true, beq_iff_eq] at h
    exact h.1
  simp [Token.opens, hkind]

namespace Machine

/-- The two sorts of parameter in which the machine counts parentheses. -/
inductive Label where
  | labelled
  | optional
  deriving DecidableEq

/-- The mode in which such a parameter is read. -/
def Label.mode : Label → Mode
  | .labelled => .labelled
  | .optional => .optional

/-- The counter that such a parameter has. -/
def Label.depth : Label → Machine → Int
  | .labelled, m => m.labelDepth
  | .optional, m => m.optionalDepth

/-- Both counters of a machine. -/
def depths (m : Machine) : Int × Int :=
  (m.labelDepth, m.optionalDepth)

/-! ## What moves the counters -/

section Depths

variable (m : Machine) (current next : Token)

/-- A token is counted in the sort of parameter that is being read, and only there. -/
theorem depth_counted (label : Label) :
    label.depth (m.counted current) =
      label.depth m + if m.mode = label.mode then current.opens else 0 := by
  unfold counted
  cases label <;> split <;> simp_all [Label.depth, Label.mode]

theorem Recounts.depth {token : Token} {m after : Machine} (h : Recounts token m after)
    (label : Label) : label.depth after = label.depth m := by
  cases label with
  | labelled => exact h.label
  | optional => exact h.optional

theorem dispatched_labelled {m : Machine} (current next : Token) (hmode : m.mode = .labelled) :
    m.dispatched current next = { m with offset := current.start }.atLabelled current := by
  unfold dispatched dispatch
  rw [hmode]

theorem dispatched_optional {m : Machine} (current next : Token) (hmode : m.mode = .optional) :
    m.dispatched current next = { m with offset := current.start }.atOptional current := by
  unfold dispatched dispatch
  rw [hmode]

/-- **One token counts** in the sort of parameter that is being read, and only there. -/
theorem depth_step (label : Label) :
    label.depth (m.step current next) =
      label.depth m + if m.mode = label.mode then current.opens else 0 := by
  have hstep : label.depth (m.step current next) = label.depth (m.dispatched current next) := by
    rw [step_dispatched]
    split
    · rfl
    · cases label <;> rfl
  obtain ⟨notes, staged, hcourse⟩ :=
    dispatch_course { m with offset := current.start } current next
  rw [hstep, dispatched, hcourse.recounts.depth, depth_counted]
  cases label <;> rfl

end Depths

/-! ## What leaves a parameter -/

section Leaving

variable {m : Machine} (current next : Token)

/-- What a parameter cannot take when `depth` parentheses are open in it: one that closes
none of them and, in a labelled one, the operator of a type with some of them open. -/
def Label.Spoils (label : Label) (depth : Int) (token : Token) : Prop :=
  token.kind = .parenClose ∧ depth = 0 ∨
    label = .labelled ∧ token.opensType = true ∧ depth ≠ 0

theorem labelDepth_of_complete (hcomplete : m.labelComplete = true) : m.labelDepth = 0 := by
  simp only [labelComplete, Bool.and_eq_true, beq_iff_eq] at hcomplete
  exact hcomplete.1

theorem depth_of_left_labelled (hmode : m.mode = .labelled)
    (hleft : (m.atLabelled current).mode ≠ .labelled) :
    m.labelDepth + current.opens = 0 ∨ current.opensType = true := by
  have hother (hopen : current.kind ≠ .parenOpen) (hclose : current.kind ≠ .parenClose)
      (hcomplete : m.labelComplete = true) : m.labelDepth + current.opens = 0 := by
    rw [labelDepth_of_complete hcomplete, Token.opens_eq_zero hopen hclose, Int.add_zero]
  unfold atLabelled at hleft
  dsimp only at hleft
  split at hleft
  case h_1 =>
      unfold noteLabel at hleft
      split at hleft <;> exact absurd hmode hleft
  case h_2 => exact absurd hmode hleft
  case h_3 hkind =>
      split at hleft
      · next hclosed => exact .inl (by simpa [Token.opens, hkind, Int.sub_eq_add_neg] using hclosed)
      · exact absurd hmode hleft
  case h_4 hkind =>
      split at hleft
      · next hcomplete => exact .inl (hother (by simp [hkind]) (by simp [hkind]) hcomplete)
      · exact absurd hmode hleft
  case h_5 hkind =>
      split at hleft
      · next hcolon => exact .inr (by simpa [Token.opensType, hkind] using hcolon)
      · split at hleft
        · next hcomplete => exact .inl (hother (by simp [hkind]) (by simp [hkind]) hcomplete)
        · exact absurd hmode hleft
  case h_6 hopen hclose _ _ =>
      split at hleft
      · next hcomplete => exact .inl (hother hopen hclose hcomplete)
      · exact absurd hmode hleft

theorem depth_of_left_optional (hmode : m.mode = .optional)
    (hleft : (m.atOptional current).mode ≠ .optional) :
    m.optionalDepth + current.opens = 0 := by
  unfold atOptional at hleft
  split at hleft
  case h_1 hkind =>
      have hnoted : (m.noteLabel current).mode = .optional := by
        unfold noteLabel
        split <;> exact hmode
      split at hleft
      · exact absurd hmode hleft
      · dsimp only at hleft
        split at hleft
        · next hclosed => simpa [Token.opens, hkind] using hclosed
        · exact absurd hnoted hleft
  case h_2 => exact absurd hmode hleft
  case h_3 hkind =>
      dsimp only at hleft
      split at hleft
      · next hclosed => simpa [Token.opens, hkind, Int.sub_eq_add_neg] using hclosed
      · exact absurd hmode hleft
  case h_4 => exact absurd hmode hleft

/-- A parameter ends where all its parentheses are closed, but for the operator of a type,
which does not look at them. -/
theorem depth_of_left {label : Label} (hmode : m.mode = label.mode)
    (hleft : (m.step current next).mode ≠ label.mode) :
    label.depth m + current.opens = 0 ∨ label = .labelled ∧ current.opensType = true := by
  rw [(step_fields m current next).1] at hleft
  cases label with
  | labelled =>
      rw [dispatched_labelled _ _ hmode] at hleft
      rcases depth_of_left_labelled (m := { m with offset := current.start }) current hmode hleft
        with hclosed | htype
      · exact .inl hclosed
      · exact .inr ⟨rfl, htype⟩
  | optional =>
      rw [dispatched_optional _ _ hmode] at hleft
      exact .inl (depth_of_left_optional (m := { m with offset := current.start }) current hmode
        hleft)

/-- The operator of a type leaves the label, whatever is open. -/
theorem mode_of_opensType (hmode : m.mode = .labelled) (htype : current.opensType = true) :
    (m.step current next).mode = .skipOne := by
  obtain ⟨hkind, hcolon⟩ : current.kind = .operator ∧ current.initial? = some ':' := by
    simpa [Token.opensType] using htype
  rw [(step_fields m current next).1, dispatched_labelled _ _ hmode]
  simp [atLabelled, hkind, hcolon, skipNext]

end Leaving

/-! ## Balance -/

/-- Parentheses are counted in the parameter that is being read, and no count is left over
from an earlier one. -/
structure Balanced (m : Machine) : Prop where
  label_nonneg : 0 ≤ m.labelDepth
  optional_nonneg : 0 ≤ m.optionalDepth
  label_fresh : m.mode ≠ .labelled → m.labelDepth = 0
  optional_fresh : m.mode ≠ .optional → m.optionalDepth = 0

section Balance

variable {m : Machine} (current next : Token)

theorem Balanced.nonneg (h : m.Balanced) : ∀ label : Label, 0 ≤ label.depth m
  | .labelled => h.label_nonneg
  | .optional => h.optional_nonneg

theorem Balanced.fresh (h : m.Balanced) :
    ∀ {label : Label}, m.mode ≠ label.mode → label.depth m = 0
  | .labelled => h.label_fresh
  | .optional => h.optional_fresh

theorem balanced_of_labels (hnonneg : ∀ label : Label, 0 ≤ label.depth m)
    (hfresh : ∀ label : Label, m.mode ≠ label.mode → label.depth m = 0) : m.Balanced :=
  ⟨hnonneg .labelled, hnonneg .optional, hfresh .labelled, hfresh .optional⟩

/-- Where another parameter, or none, is read, a counter stays what it is. -/
theorem depth_step_outside {label : Label} (houtside : m.mode ≠ label.mode) :
    label.depth (m.step current next) = label.depth m := by
  rw [depth_step, if_neg houtside, Int.add_zero]

theorem depth_step_inside {label : Label} (hinside : m.mode = label.mode) :
    label.depth (m.step current next) = label.depth m + current.opens := by
  rw [depth_step, if_pos hinside]

theorem neg_one_le_opens : -1 ≤ current.opens := by
  unfold Token.opens
  split <;> decide

/-- **Balance is kept** by every token that the parameter can take. -/
theorem Balanced.step (h : m.Balanced)
    (hfits : ∀ label : Label, m.mode = label.mode → ¬ label.Spoils (label.depth m) current) :
    (m.step current next).Balanced := by
  refine balanced_of_labels (fun label => ?_) (fun label hleft => ?_)
  · by_cases hinside : m.mode = label.mode
    · rw [depth_step_inside current next hinside]
      have hnonneg := h.nonneg label
      by_cases hclose : current.kind = .parenClose
      · have hopen : label.depth m ≠ 0 := fun hzero => hfits label hinside (.inl ⟨hclose, hzero⟩)
        have := neg_one_le_opens current
        omega
      · have : 0 ≤ current.opens := by
          unfold Token.opens
          split
          · decide
          · next hkind => exact absurd hkind hclose
          · decide
        omega
    · rw [depth_step_outside current next hinside]
      exact h.nonneg label
  · by_cases hinside : m.mode = label.mode
    · rw [depth_step_inside current next hinside]
      rcases depth_of_left current next hinside hleft with hclosed | ⟨hlabel, htype⟩
      · exact hclosed
      · have hzero : label.depth m = 0 := by
          by_contra hopen
          exact hfits label hinside (.inr ⟨hlabel, htype, hopen⟩)
        rw [hzero, Token.opens_of_opensType htype, Int.add_zero]
    · rw [depth_step_outside current next hinside]
      exact h.fresh hinside

/-- **Balance is lost** at every token that the parameter cannot take. -/
theorem not_balanced_step {label : Label} (hinside : m.mode = label.mode)
    (hspoils : label.Spoils (label.depth m) current) : ¬ (m.step current next).Balanced := by
  intro h
  rcases hspoils with ⟨hclose, hzero⟩ | ⟨rfl, htype, hopen⟩
  · have hnonneg := h.nonneg label
    rw [depth_step_inside current next hinside, hzero] at hnonneg
    simp [Token.opens, hclose] at hnonneg
  · have hleft := mode_of_opensType current next hinside htype
    have hfresh : Label.labelled.depth (m.step current next) = 0 :=
      h.fresh (by simp [hleft, Label.mode])
    rw [depth_step_inside current next hinside, Token.opens_of_opensType htype,
      Int.add_zero] at hfresh
    exact hopen hfresh

end Balance

/-! ## Runs -/

@[simp] theorem openParens_nil : openParens [] = 0 := rfl

@[simp] theorem openParens_cons (token : Token) (tokens : List Token) :
    openParens (token :: tokens) = token.opens + openParens tokens := rfl

theorem openParens_concat (tokens : List Token) (token : Token) :
    openParens (tokens ++ [token]) = openParens tokens + token.opens := by
  induction tokens with
  | nil => simp
  | cons first tokens ih => simp [ih, Int.add_assoc]

section Run

variable {capacity : Nat} {text : String}

/-- A parameter is being read: it began at the token `opener` behind `front`, `inner` has
been read of it, and `back` is still to come. -/
structure Label.Reads (label : Label) (capacity : Nat) (text : String) (front : List Token)
    (opener : Token) (inner back : List Token) : Prop where
  outside : (partway capacity text front (opener :: (inner ++ back))).mode ≠ label.mode
  inside : ∀ read rest, inner = read ++ rest →
    (partway capacity text (front ++ [opener] ++ read) (rest ++ back)).mode = label.mode

/-- One more token of the parameter. -/
theorem Label.Reads.concat {label : Label} {front inner back : List Token} {opener token : Token}
    (h : label.Reads capacity text front opener inner (token :: back))
    (hinside : (partway capacity text (front ++ [opener] ++ (inner ++ [token])) back).mode =
      label.mode) :
    label.Reads capacity text front opener (inner ++ [token]) back where
  outside := by simpa using h.outside
  inside read rest hsplit := by
    rcases List.eq_nil_or_concat rest with rfl | ⟨rest, last, rfl⟩
    · rw [List.append_nil] at hsplit
      rw [← hsplit]
      exact hinside
    · rw [List.concat_eq_append, ← List.append_assoc] at hsplit
      obtain ⟨hinner, hlast⟩ := List.append_inj' hsplit rfl
      obtain rfl : token = last := by simpa using hlast
      simpa using h.inside read rest hinner

/-- Whoever is in a parameter has entered it. -/
theorem exists_opener {label : Label} {front back : List Token}
    (hinside : (partway capacity text front back).mode = label.mode) :
    ∃ before opener inner, front = before ++ [opener] ++ inner ∧
      label.Reads capacity text before opener inner back := by
  induction front using List.reverseRecOn generalizing back with
  | nil => cases label <;> cases hinside
  | append_singleton front token ih =>
      by_cases hbefore : (partway capacity text front (token :: back)).mode = label.mode
      · obtain ⟨before, opener, inner, rfl, hreads⟩ := ih hbefore
        refine ⟨before, opener, inner ++ [token], by simp, hreads.concat ?_⟩
        simpa using hinside
      · refine ⟨front, token, [], by simp, hbefore, ?_⟩
        intro read rest hsplit
        obtain ⟨rfl, rfl⟩ := List.nil_eq_append_iff.mp hsplit
        simpa using hinside

/-- A counter grows by the parentheses that are open in the parameter. -/
theorem Label.Reads.depth {label : Label} {front inner back : List Token} {opener : Token}
    (h : label.Reads capacity text front opener inner back) :
    label.depth (partway capacity text (front ++ [opener] ++ inner) back) =
      label.depth (partway capacity text front (opener :: (inner ++ back))) + openParens inner := by
  induction inner using List.reverseRecOn generalizing back with
  | nil =>
      have houtside := h.outside
      rw [List.nil_append] at houtside
      rw [List.append_nil, partway_concat, depth_step_outside _ _ houtside]
      simp
  | append_singleton inner token ih =>
      have hshorter : label.Reads capacity text front opener inner (token :: back) :=
        ⟨by simpa using h.outside, fun read rest hsplit => by
          simpa using h.inside read (rest ++ [token]) (by rw [hsplit, List.append_assoc])⟩
      have hinside := h.inside inner [token] rfl
      rw [← List.append_assoc, partway_concat, depth_step_inside _ _ (by simpa using hinside),
        ih hshorter, openParens_concat]
      simp [Int.add_assoc]

/-- A text has a malformed label: a parameter comes to a token that it cannot take, by the
parentheses that are open in it. -/
def Malformed (capacity : Nat) (text : String) : Prop :=
  ∃ (label : Label) (front inner back : List Token) (opener token : Token),
    tokenize text = front ++ [opener] ++ inner ++ token :: back ∧
      label.Reads capacity text front opener inner (token :: back) ∧
      label.Spoils (openParens inner) token

theorem balanced_start (capacity : Nat) : (start capacity).Balanced :=
  ⟨Int.le_refl 0, Int.le_refl 0, fun _ => rfl, fun _ => rfl⟩

/-- **Balance of a run.**  Without a malformed label all counts are right all the time. -/
theorem balanced_partway (hformed : ¬ Malformed capacity text) {front back : List Token}
    (hsplit : tokenize text = front ++ back) : (partway capacity text front back).Balanced := by
  rcases List.eq_nil_or_concat front with rfl | ⟨front, token, rfl⟩
  · exact balanced_start capacity
  · rw [List.concat_eq_append, List.append_assoc, List.singleton_append] at hsplit
    rw [List.concat_eq_append, partway_concat]
    refine (balanced_partway hformed hsplit).step token _ fun label hinside hspoils => hformed ?_
    obtain ⟨before, opener, inner, rfl, hreads⟩ := exists_opener hinside
    have hopening : (partway capacity text before (opener :: (inner ++ token :: back))).Balanced :=
      balanced_partway hformed (by simpa using hsplit)
    rw [hreads.depth, hopening.fresh hreads.outside, Int.zero_add] at hspoils
    exact ⟨label, before, inner, back, opener, token, by simpa using hsplit, hreads, hspoils⟩
termination_by front.length
decreasing_by all_goals subst_vars; simp

/-- A malformed label spoils a count. -/
theorem not_malformed
    (hbalanced : ∀ front back, tokenize text = front ++ back →
      (partway capacity text front back).Balanced) : ¬ Malformed capacity text := by
  rintro ⟨label, front, inner, back, opener, token, hsplit, hreads, hspoils⟩
  have hbefore := hbalanced front (opener :: (inner ++ token :: back)) (by simpa using hsplit)
  have hafter := hbalanced (front ++ [opener] ++ inner ++ [token]) back (by simpa using hsplit)
  have hinside : (partway capacity text (front ++ [opener] ++ inner) (token :: back)).mode =
      label.mode := hreads.inside inner [] (List.append_nil inner).symm
  rw [partway_concat] at hafter
  refine not_balanced_step token _ hinside ?_ hafter
  rw [hreads.depth, hbefore.fresh hreads.outside, Int.zero_add]
  exact hspoils

end Run

/-! ## Labels that do not end -/

section Stuck

variable {m : Machine} {label : Label}

theorem noteLabel_of_noted (hnoted : m.labelNoted = true) (token : Token) :
    m.noteLabel token = m := by
  unfold noteLabel
  rw [if_pos hnoted]

theorem atLabelled_of_open (hnoted : m.labelNoted = true) (hopen : m.labelDepth ≠ 0)
    (current : Token) :
    (m.atLabelled current).labelNoted = true ∧ (m.atLabelled current).notes = m.notes := by
  have hcomplete : m.labelComplete = false := by simp [labelComplete, hopen]
  unfold atLabelled
  simp only [hcomplete, noteLabel_of_noted hnoted, Bool.false_eq_true, if_false]
  split
  case h_3 => split <;> exact ⟨hnoted, rfl⟩
  case h_5 => split <;> exact ⟨hnoted, rfl⟩
  all_goals exact ⟨hnoted, rfl⟩

theorem atOptional_of_noted (hnoted : m.labelNoted = true) (current : Token) :
    (m.atOptional current).labelNoted = true ∧ (m.atOptional current).notes = m.notes := by
  unfold atOptional
  split
  case h_1 => rw [if_pos hnoted]; exact ⟨hnoted, rfl⟩
  case h_3 => dsimp only; split <;> exact ⟨hnoted, rfl⟩
  all_goals exact ⟨hnoted, rfl⟩

/-- A parameter that has its name and is still open notes nothing. -/
theorem stuck_dispatched (current next : Token) (hmode : m.mode = label.mode)
    (hnoted : m.labelNoted = true) (hopen : label.depth m ≠ 0) :
    (m.dispatched current next).labelNoted = true ∧
      (m.dispatched current next).notes = m.notes := by
  cases label with
  | labelled =>
      rw [dispatched_labelled _ _ hmode]
      exact atLabelled_of_open (m := { m with offset := current.start }) hnoted hopen current
  | optional =>
      rw [dispatched_optional _ _ hmode]
      exact atOptional_of_noted (m := { m with offset := current.start }) hnoted current

/-- A token leaves an open parameter as it is, unless it closes the last parenthesis. -/
theorem stuck_step (current next : Token) (hmode : m.mode = label.mode)
    (hnoted : m.labelNoted = true) (hopen : label.depth m ≠ 0)
    (hstill : label.depth m + current.opens ≠ 0)
    (htype : ¬ (label = .labelled ∧ current.opensType = true)) :
    (m.step current next).mode = label.mode ∧ (m.step current next).labelNoted = true ∧
      (m.step current next).findings = m.findings := by
  obtain ⟨hafter, hnotes⟩ := stuck_dispatched current next hmode hnoted hopen
  have hsame : (m.step current next).labelNoted = (m.dispatched current next).labelNoted := by
    unfold step dispatched
    dsimp only
    split <;> rfl
  refine ⟨?_, hsame.trans hafter, ?_⟩
  · by_contra hleft
    rcases depth_of_left current next hmode hleft with hclosed | hcolon
    · exact hstill hclosed
    · exact htype hcolon
  · rw [(step_fields m current next).2.2.2, findings, hnotes]
    rfl

/-- **A label that does not end swallows.**  While its count does not come to nothing, a
parameter that has its name goes on, and nothing is found. -/
theorem stuck_readAll (last : Token) {tokens : List Token} (hmode : m.mode = label.mode)
    (hnoted : m.labelNoted = true)
    (hopen : ∀ read rest, tokens = read ++ rest → label.depth m + openParens read ≠ 0)
    (htype : label = .labelled → ∀ token ∈ tokens, token.opensType = false) :
    (m.readAll last tokens).mode = label.mode ∧
      (m.readAll last tokens).findings = m.findings := by
  induction tokens generalizing m with
  | nil => exact ⟨hmode, rfl⟩
  | cons token rest ih =>
      have hnow : label.depth m ≠ 0 := by simpa using hopen [] (token :: rest) rfl
      have hthen : label.depth m + token.opens ≠ 0 := by simpa using hopen [token] rest rfl
      obtain ⟨hmode', hnoted', hfindings⟩ :=
        stuck_step token (rest.headD last) hmode hnoted hnow hthen fun h => by
          simp [htype h.1 token List.mem_cons_self] at h
      obtain ⟨hend, hsame⟩ := ih hmode' hnoted' (fun read later hsplit => by
          rw [depth_step_inside _ _ hmode, Int.add_assoc, ← openParens_cons]
          exact hopen (token :: read) later (by rw [hsplit, List.cons_append]))
        (fun hlabel other hother => htype hlabel other (List.mem_cons_of_mem _ hother))
      exact ⟨hend, hsame.trans hfindings⟩

end Stuck

/-! ## Main theorem -/

/-- What the counts of labels are worth in a text. -/
structure CountsLabels (capacity : Nat) (text : String) : Prop where
  /-- No optional parameter leaves a count behind, malformed or not. -/
  optional : ∀ front back, tokenize text = front ++ back →
    (partway capacity text front back).mode ≠ .optional →
      (partway capacity text front back).optionalDepth = 0
  /-- All counts are right all the time if and only if no label is malformed. -/
  balanced : (∀ front back, tokenize text = front ++ back →
    (partway capacity text front back).Balanced) ↔ ¬ Malformed capacity text
  /-- A parameter that has its name and whose count does not come to nothing any more
  swallows all declarations that follow. -/
  swallows : ∀ (label : Label) (front back : List Token), tokenize text = front ++ back →
    (partway capacity text front back).mode = label.mode →
    (partway capacity text front back).labelNoted = true →
    (∀ read rest, back = read ++ rest →
      label.depth (partway capacity text front back) + openParens read ≠ 0) →
    (label = .labelled → ∀ token ∈ back, token.opensType = false) →
      findingsOf capacity text = (partway capacity text front back).findings

/-- The count of an optional parameter is used up when the parameter ends. -/
theorem optionalDepth_step {m : Machine} (h : m.mode ≠ .optional → m.optionalDepth = 0)
    (current next : Token) (hleft : (m.step current next).mode ≠ .optional) :
    (m.step current next).optionalDepth = 0 := by
  by_cases hinside : m.mode = Label.optional.mode
  · have hdepth := depth_step_inside current next hinside
    have hleft : (m.step current next).mode ≠ Label.optional.mode := hleft
    rcases depth_of_left current next hinside hleft with hclosed | ⟨hlabel, -⟩
    · exact hdepth.trans hclosed
    · cases hlabel
  · exact (depth_step_outside current next hinside).trans (h hinside)

theorem optionalDepth_partway (capacity : Nat) (text : String) (front back : List Token)
    (h : (partway capacity text front back).mode ≠ .optional) :
    (partway capacity text front back).optionalDepth = 0 := by
  induction front using List.reverseRecOn generalizing back with
  | nil => rfl
  | append_singleton front token ih =>
      rw [partway_concat] at h ⊢
      exact optionalDepth_step (ih _) token _ h

/-- **Labels count their parentheses**, in every text. -/
theorem counts_labels (capacity : Nat) (text : String) : CountsLabels capacity text where
  optional front back _ := optionalDepth_partway capacity text front back
  balanced := ⟨not_malformed, fun hformed _ _ hsplit => balanced_partway hformed hsplit⟩
  swallows label front back hsplit hmode hnoted hopen htype := by
    obtain ⟨hend, hfindings⟩ :=
      stuck_readAll (Token.endAt text.utf8ByteSize) hmode hnoted hopen htype
    have hrun : ((start capacity).readAll (Token.endAt text.utf8ByteSize) (tokenize text)) =
        (partway capacity text front back).readAll (Token.endAt text.utf8ByteSize) back := by
      rw [hsplit, readAll_append]
      rfl
    have hstaged : ((start capacity).readAll (Token.endAt text.utf8ByteSize)
        (tokenize text)).staged = none :=
      HoldsInTime.readAll (m := start capacity) (fun _ => rfl) _ _
        (by rw [hrun, hend]; cases label <;> decide)
    rw [findingsOf, read_ofText, findings_confirm, hstaged, hrun, hfindings]
    simp

/-- A parenthesis behind a lone `~` closes none.  The label has a count of -1 from there on,
it never ends, and the `let` that follows is lost. -/
theorem stray_parenthesis_swallows :
    ∃ front back, tokenize "let f ~) = 1 let g = 2" = front ++ back ∧
      (partway 256 "let f ~) = 1 let g = 2" front back).labelDepth = -1 ∧
      back.map Token.text = ["=", "1", "let", "g", "=", "2"] ∧
      ¬ (partway 256 "let f ~) = 1 let g = 2" front back).Balanced ∧
      (extract {} "let f ~) = 1 let g = 2").tags.map Tag.name = ["f"] := by
  refine ⟨(tokenize "let f ~) = 1 let g = 2").take 4,
    (tokenize "let f ~) = 1 let g = 2").drop 4, (List.take_append_drop ..).symm, ?_, ?_, ?_, ?_⟩
  · decide +kernel
  · decide +kernel
  · intro hbalanced
    exact absurd hbalanced.label_nonneg (by decide +kernel)
  · decide +kernel

end Machine

end CamlIndex
