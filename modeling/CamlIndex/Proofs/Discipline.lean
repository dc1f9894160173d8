import CamlIndex.Proofs.Finding

/-!
# Where the machine goes on

The machine remembers modes to go on in: each frame has one, a skip has one, and
so has an `and` between declarations.  None of these is a mode of skipping
(`Machine.Orderly`).  So a skip is only ever begun by the word that it belongs
to, and leaving a scope never leads into the middle of one.

Nobody but the moves of a rule writes to these places, and every move says what it
writes there.

* `Course.order` — what a rule keeps: the machine stays orderly, and a balanced skip that
  is on behind it was on before or begins at the token, which says what is waited for
  and is counted first;
* `order_step` — so does a step.
-/

namespace CamlIndex

/-- No frame that a rule pushes leads into a skip. -/
theorem Frame.IsProper.isSkip_resume {boundary : Bool} {role : Role} {resume : Mode}
    {name : String} (h : Frame.IsProper boundary role resume name) : resume.isSkip = false := by
  cases boundary with
  | true => rcases h.resume_of_boundary rfl with rfl | ⟨rfl, -⟩ <;> rfl
  | false => rcases h.resume_of_soft rfl with rfl | rfl | rfl <;> rfl

namespace Machine

/-- Nothing that a machine goes back to is a mode of skipping. -/
structure Orderly (m : Machine) : Prop where
  frames : ∀ frame ∈ m.stack.frames, frame.resume.isSkip = false
  skip : m.skip.resume.isSkip = false
  chained : m.chained.isSkip = false

/-- A balanced skip that a token of a kind has begun: it is known what is waited for, and
nothing but the token has been counted. -/
structure Begins (kind waited : TokenKind) (balance : Balance) : Prop where
  waited : (kind, waited) ∈ Skip.balanced
  balance : balance = ({} : Balance).count kind

/-- Orderly behind a token of a kind: a balanced skip that is on has been begun by the token
or was on before, and then it still waits for the same. -/
structure Order (kind : TokenKind) (m after : Machine) : Prop extends Orderly after where
  skips : after.mode = .skipBalanced →
    Begins kind after.skip.waited after.balance ∨
      m.mode = .skipBalanced ∧ after.skip.waited = m.skip.waited

/-- Modes to go back to are outside of a balanced skip. -/
theorem ne_skipBalanced {mode : Mode} (h : mode.isSkip = false) : mode ≠ .skipBalanced := by
  rintro rfl
  cases h

section Moves

variable {m after : Machine}

/-- Taking off frames leads out of all skips. -/
theorem Orderly.unwound (h : m.Orderly) (hunwound : Unwound m after) :
    after.Orderly ∧ after.mode.isSkip = false := by
  obtain ⟨hsuffix, hresumes⟩ := hunwound
  refine ⟨⟨fun frame hframe => h.frames frame (hsuffix.subset hframe), h.skip, h.chained⟩, ?_⟩
  rcases hresumes with rfl | ⟨frame, hframe, rfl⟩
  · rfl
  · exact h.frames frame hframe

/-- **Every move keeps to the order.** -/
theorem Course.order {begun : Machine} {token : Token} {room : Nat}
    (course : Course token begun room after) (h : Order token.kind m begun) :
    Order token.kind m after := by
  refine course.keeps h ?_ ?_ ?_
  · intro before after h change
    cases change with
    | goto plain =>
        exact ⟨⟨h.frames, h.skip, h.chained⟩, fun hmode => absurd hmode (ne_skipBalanced plain)⟩
    | resume =>
        exact ⟨⟨h.frames, h.skip, h.chained⟩, fun hmode => absurd hmode (ne_skipBalanced h.skip)⟩
    | chain =>
        exact ⟨⟨h.frames, h.skip, h.chained⟩,
          fun hmode => absurd hmode (ne_skipBalanced h.chained)⟩
    | setChained plain => exact ⟨⟨h.frames, h.skip, plain⟩, h.skips⟩
    | skipTo unbalanced plain =>
        exact ⟨⟨h.frames, plain, h.chained⟩, fun hmode => absurd hmode unbalanced⟩
    | skipBalanced begins plain =>
        exact ⟨⟨h.frames, plain, h.chained⟩, fun _ => .inl ⟨begins, rfl⟩⟩
    | skipNext plain => exact ⟨⟨h.frames, plain, h.chained⟩, nofun⟩
    | _ => exact ⟨⟨h.frames, h.skip, h.chained⟩, h.skips⟩
  · intro before boundary role resume name h proper _
    cases hfull : before.stack.isFull with
    | true =>
        rw [push_of_isFull _ _ _ _ _ hfull]
        exact ⟨⟨h.frames, h.skip, h.chained⟩, h.skips⟩
    | false =>
        rw [push_of_not_isFull _ _ _ _ _ hfull]
        exact ⟨⟨List.forall_mem_cons.mpr ⟨proper.isSkip_resume, h.frames⟩, h.skip, h.chained⟩,
          h.skips⟩
  · intro before after h hunwound
    obtain ⟨horderly, hplain⟩ := h.toOrderly.unwound hunwound
    exact ⟨horderly, fun hmode => absurd hmode (ne_skipBalanced hplain)⟩

end Moves

/-! ## One token -/

section Step

variable {m : Machine}

/-- **One token, in order.** -/
theorem order_step (h : m.Orderly) (current next : Token) :
    Order current.kind m (m.step current next) := by
  obtain ⟨_, _, _, _, _, hcourse⟩ := dispatched_course m current next
  have hdispatched : Order current.kind m (m.dispatched current next) :=
    hcourse.order ⟨⟨h.frames, h.skip, h.chained⟩, fun hmode => .inr ⟨hmode, rfl⟩⟩
  rw [step_dispatched]
  split
  · exact hdispatched
  · exact ⟨⟨hdispatched.frames, hdispatched.skip, hdispatched.chained⟩, hdispatched.skips⟩

/-- An `end` leads out of all skips. -/
theorem isSkip_readEnd (h : m.Orderly) (next : Token) : (m.readEnd next).mode.isSkip = false := by
  have hclosed : m.closeEnd.1.mode.isSkip = false := by
    obtain ⟨houter, hplain⟩ := h.unwound m.unwound_popBoundary
    unfold closeEnd
    split
    all_goals first
      | exact (houter.unwound m.popBoundary.unwound_popBoundary).2
      | exact hplain
  have hafter : ∀ closed : Machine, closed.mode.isSkip = false →
      (closed.afterModule next).mode.isSkip = false := by
    intro closed hclosed
    unfold afterModule
    split
    · rfl
    · rfl
    · exact hclosed
  unfold readEnd
  dsimp only
  split
  · exact hafter _ hclosed
  · exact hclosed

theorem atTopLevel_end {current : Token} (h : current.kind = .kwEnd) (next : Token) :
    m.atTopLevel current next = m.readEnd next := by
  unfold atTopLevel
  rw [h]

theorem dispatched_skipBalanced (hmode : m.mode = .skipBalanced) (current next : Token) :
    m.dispatched current next =
      { m with offset := current.start }.atSkipBalanced current next := by
  unfold dispatched dispatch
  rw [hmode]

end Step

end Machine

end CamlIndex
