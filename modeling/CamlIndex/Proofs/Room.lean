import CamlIndex.Proofs.Finding

/-!
# Room on the stack

A stack of scopes refuses the frames that it has no room for and counts them,
and the machine notes each of them.  Reading a token pushes one frame at most.
So a stack that may hold as many frames as there are tokens refuses none, and
refusals are never taken back.

* `fills_readAll` — a run only adds refusals, and none if there is a frame of room
  for every token;
* `diagnostics_eq_nil_iff` — nothing is reported if and only if nothing was refused.
-/

namespace CamlIndex.Machine

/-- Where frames were refused, the latest first. -/
def refusals (m : Machine) : List Nat :=
  m.notes.filterMap Note.refusal?

/-- Every refusal is both counted and noted. -/
def Tallied (m : Machine) : Prop :=
  m.refusals.length = m.stack.refused

/-! ## Ways between machines -/

/-- What a way of at most `room` pushes does to the stack and its tally. -/
structure Fills (room : Nat) (m after : Machine) : Prop where
  capacity : after.stack.capacity = m.stack.capacity
  refused_le : m.stack.refused ≤ after.stack.refused
  tallied : m.Tallied → after.Tallied
  frames : after.stack.frames.length ≤ m.stack.frames.length + room
  fits : m.stack.frames.length + room ≤ m.stack.capacity → after.stack.refused = m.stack.refused

theorem Fills.unwinds {room : Nat} {m before after : Machine} (h : Fills room m before)
    (hunwound : Unwound before after) : Fills room m after := by
  obtain ⟨hsuffix, -⟩ := hunwound
  exact ⟨h.capacity, h.refused_le, h.tallied, Nat.le_trans hsuffix.length_le h.frames, h.fits⟩

theorem Fills.push {room : Nat} {m before : Machine} (h : Fills room m before)
    (boundary : Bool) (role : Role) (resume : Mode) (name : String) :
    Fills (room + 1) m (before.push boundary role resume name) := by
  obtain ⟨hcapacity, hle, htallied, hframes, hfits⟩ := h
  cases hfull : before.stack.isFull with
  | true =>
      rw [push_of_isFull _ _ _ _ _ hfull]
      refine ⟨hcapacity, Nat.le_succ_of_le hle, ?_, Nat.le_succ_of_le hframes, ?_⟩
      · intro hm
        simpa [Tallied, refusals, Machine.note, Note.refusal?] using htallied hm
      · intro hroom
        have : before.stack.capacity ≤ before.stack.frames.length := by
          simpa [ScopeStack.isFull] using hfull
        omega
  | false =>
      rw [push_of_not_isFull _ _ _ _ _ hfull]
      exact ⟨hcapacity, hle, htallied, Nat.succ_le_succ hframes, fun hroom => hfits (by omega)⟩

theorem Walk.fills {m after : Machine} {room : Nat} (walk : Walk m room after) :
    Fills room m after := by
  induction walk with
  | start => exact ⟨rfl, Nat.le_refl _, id, Nat.le_add_right _ _, fun _ => rfl⟩
  | control _ hstack hnotes _ _ ih =>
      obtain ⟨hcapacity, hle, htallied, hframes, hfits⟩ := ih
      refine ⟨hstack ▸ hcapacity, hstack ▸ hle, ?_, hstack ▸ hframes, hstack ▸ hfits⟩
      intro hm
      have hbefore := htallied hm
      rw [Tallied, refusals] at hbefore ⊢
      rw [hnotes, hstack, hbefore]
  | push _ _ ih => exact ih.push _ _ _ _
  | @popToNamed _ before _ ih => exact ih.unwinds before.unwound_popToNamed
  | @pop _ before _ ih => exact ih.unwinds before.unwound_pop
  | @popBoundary _ before _ ih => exact ih.unwinds before.unwound_popBoundary
  | @returnToMatch _ before _ ih =>
      rcases before.unwound_returnToMatch with hsame | hunwound
      · rwa [hsame]
      · exact ih.unwinds hunwound

/-! ## Tokens and runs -/

/-- Fills that start from a machine with the same stack and the same refusals. -/
theorem Fills.of_same {room : Nat} {m heard after : Machine} (h : Fills room heard after)
    (hstack : heard.stack = m.stack) (hrefusals : heard.refusals = m.refusals) :
    Fills room m after := by
  obtain ⟨hcapacity, hle, htallied, hframes, hfits⟩ := h
  rw [hstack] at hcapacity hle hframes hfits
  refine ⟨hcapacity, hle, ?_, hframes, hfits⟩
  intro hm
  apply htallied
  rw [Tallied, hrefusals, hstack]
  exact hm

theorem refusals_confirm (m : Machine) : m.confirm.refusals = m.refusals := by
  unfold confirm
  split <;> rfl

/-- One token pushes one frame at most. -/
theorem fills_dispatch (m : Machine) (current next : Token) :
    Fills 1 m (m.dispatch current next) := by
  cases dispatch_outcome m current next with
  | moves _ hheard hcourse =>
      have hfills := hcourse.walk_of_counted.fills
      cases hheard with
      | nothing => exact hfills
      | declared _ => exact hfills.of_same rfl rfl
  | holds _ _ _ hresult =>
      rw [hresult]
      exact ⟨rfl, Nat.le_refl _, id, Nat.le_succ _, fun _ => rfl⟩
  | settles _ hcourse =>
      have hfills := hcourse.slack.walk.fills
      split at hfills
      · exact hfills.of_same rfl rfl
      · refine hfills.of_same ?_ m.refusals_confirm
        unfold confirm
        split <;> rfl

theorem fills_step (m : Machine) (current next : Token) : Fills 1 m (m.step current next) := by
  have hplaced : Fills 1 m ({ m with offset := current.start }.dispatch current next) :=
    (fills_dispatch _ current next).of_same rfl rfl
  unfold step
  dsimp only
  split
  · exact hplaced
  · exact ⟨hplaced.capacity, hplaced.refused_le, hplaced.tallied, hplaced.frames, hplaced.fits⟩

/-- **A run only adds refusals**, and every one is counted and noted. -/
theorem fills_readAll (m : Machine) (last : Token) (tokens : List Token) :
    Fills tokens.length m (m.readAll last tokens) := by
  induction tokens generalizing m with
  | nil => exact ⟨rfl, Nat.le_refl _, id, Nat.le_refl _, fun _ => rfl⟩
  | cons token rest ih =>
      have hstep := fills_step m token (rest.headD last)
      have hrest := ih (m.step token (rest.headD last))
      have hframes := hrest.frames
      have hfirst := hstep.frames
      refine ⟨hrest.capacity.trans hstep.capacity, Nat.le_trans hstep.refused_le hrest.refused_le,
        fun hm => hrest.tallied (hstep.tallied hm), ?_, ?_⟩
      · rw [List.length_cons, readAll]
        omega
      · intro hroom
        rw [List.length_cons] at hroom
        rw [readAll, hrest.fits (by rw [hstep.capacity]; omega), hstep.fits (by omega)]

theorem partway_tallied (capacity : Nat) (text : String) (front back : List Token) :
    (partway capacity text front back).Tallied :=
  (fills_readAll (start capacity) _ front).tallied rfl

end CamlIndex.Machine

namespace CamlIndex

/-- The machine when it has read all tokens of a text. -/
def runOver (capacity : Nat) (text : String) : Machine :=
  (Machine.start capacity).readAll (Token.endAt text.utf8ByteSize) (tokenize text)

/-- What is reported are the refusals of the run, in the order of the text. -/
theorem diagnostics_eq (options : Options) (text : String) :
    (extract options text).diagnostics =
      overflowDiagnostics options.maxDepth (.ofText text)
        (runOver options.maxDepth text).refusals.reverse := by
  have hrefusals : (Machine.notesOf options.maxDepth text).filterMap Note.refusal? =
      (runOver options.maxDepth text).refusals.reverse := by
    rw [Machine.notesOf, Machine.read_ofText, List.filterMap_reverse]
    exact congrArg List.reverse (Machine.refusals_confirm _)
  rw [extract, hrefusals]

/-- **Nothing is reported if and only if nothing was refused.** -/
theorem diagnostics_eq_nil_iff (options : Options) (text : String) :
    (extract options text).diagnostics = [] ↔
      (runOver options.maxDepth text).stack.refused = 0 := by
  have htallied : (runOver options.maxDepth text).Tallied :=
    Machine.partway_tallied options.maxDepth text (tokenize text) []
  have hnil : ∀ offsets : List Nat,
      overflowDiagnostics options.maxDepth (.ofText text) offsets = [] ↔ offsets.length = 0 := by
    intro offsets
    cases offsets <;> simp [overflowDiagnostics]
  rw [diagnostics_eq, hnil, List.length_reverse, htallied]

/-- With a frame of room for every token nothing is refused. -/
theorem diagnostics_eq_nil_of_room {options : Options} {text : String}
    (hroom : (tokenize text).length ≤ options.maxDepth) :
    (extract options text).diagnostics = [] := by
  rw [diagnostics_eq_nil_iff]
  refine (Machine.fills_readAll (.start options.maxDepth) _ _).fits ?_
  change 0 + (tokenize text).length ≤ options.maxDepth
  omega

end CamlIndex
