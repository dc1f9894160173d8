import CamlIndex.Proofs.Language.Leftovers

/-!
# Passing words

Where a machine has lost its way, what it finds is of no use, but what it has on
the stack still matters: a frame that is gone does not come back.  Passing words
(`Passes`) is reading them without regard to what is found, and frames with
names are only counted (`FewNamed`).

* `Reads.passes`, `Passes.append` — what is read is passed, one piece after the
  other;
* `Amid.popToNamed`, `Amid.closePrevious` — names that are taken off.
-/

namespace CamlIndex

/-! ## Pieces -/

/-- **Passing pieces** leads from one condition to another, whatever is found on the way. -/
def Passes (pieces : List Piece) (next : TokenKind → Prop) (before after : View → Prop) : Prop :=
  ∀ (m : Machine) (tokens : List Token) (last : Token), Spell tokens pieces → next last.kind →
    before m.view → (m.readAll last tokens).stack.refused = 0 → after (m.readAll last tokens).view

theorem Reads.passes {pieces : List Piece} {next : TokenKind → Prop} {before after : View → Prop}
    (h : Reads pieces next before after) : Passes pieces next before after :=
  fun m tokens last hspell hnext hm hrefused => (h m tokens last hspell hnext hm hrefused).1

namespace Passes

variable {front back : List Piece} {next middle : TokenKind → Prop}
  {before between after : View → Prop}

theorem mono (h : Passes front next between after) (hbefore : ∀ view, before view → between view) :
    Passes front next before after :=
  fun m tokens last hspell hnext hm => h m tokens last hspell hnext (hbefore _ hm)

theorem weaken (h : Passes front next before between)
    (hafter : ∀ view, between view → after view) : Passes front next before after :=
  fun m tokens last hspell hnext hm hrefused =>
    hafter _ (h m tokens last hspell hnext hm hrefused)

theorem append (hfront : Passes front middle before between)
    (hback : Passes back next between after)
    (hmiddle : ∀ kind, Leads back next kind → middle kind) :
    Passes (front ++ back) next before after := by
  intro m tokens last hspell hnext hm hrefused
  obtain ⟨first, second, rfl, hfirst, hsecond, hhead, hrun, hunrefused⟩ :=
    hspell.readAll hnext hrefused
  rw [hrun] at hrefused ⊢
  have hreached := hfront m first _ hfirst (hmiddle _ hhead) hm hunrefused
  exact hback _ second last hsecond hnext hreached hrefused

theorem seq (hfront : Passes front anyKind before between) (hback : Passes back next between after) :
    Passes (front ++ back) next before after :=
  hfront.append hback fun _ _ => trivial

/-- A single piece that is read by one rule. -/
theorem piece {piece : Piece} (h : ∀ (m : Machine) (token following : Token),
    token.Spells piece.word → next following.kind → before m.view →
    (m.dispatch token following).stack.refused = 0 → after (m.dispatch token following).view) :
    Passes [piece] next before after := by
  intro m tokens last hspell hnext hm hrefused
  obtain ⟨token, rest, hspells, hrest, rfl⟩ := List.forall₂_cons_right_iff.mp hspell
  cases hrest
  obtain ⟨hview, -, hstack⟩ := m.step_eq token last
  change (m.step token last).stack.refused = 0 at hrefused
  change after (m.step token last).view
  rw [hstack] at hrefused
  rw [hview]
  exact h { m with offset := token.start } token last hspells hnext hm hrefused

/-- A single word, whatever its text. -/
theorem word {piece : Piece} (h : ∀ (m : Machine) (token following : Token),
    token.kind = piece.word.kind → next following.kind → before m.view →
    (m.dispatch token following).stack.refused = 0 → after (m.dispatch token following).view) :
    Passes [piece] next before after :=
  Passes.piece fun m token following hspells => h m token following hspells.1

end Passes

/-! ## Counting names -/

/-- In a mode, with frames that satisfy `p`. -/
def Amid (p : List Frame → Prop) (mode : Mode) (view : View) : Prop :=
  ∃ frames, p frames ∧ At mode frames view

/-- At most `n` frames have names. -/
def FewNamed (n : Nat) (frames : List Frame) : Prop :=
  frames.countP Frame.isNamed ≤ n

/-- At most `n` frames have names, and the innermost is a mark. -/
def FewMarked (n : Nat) (frames : List Frame) : Prop :=
  ∃ outer, frames = .mark .expression :: outer ∧ FewNamed n outer

theorem FewNamed.cons {n : Nat} {frames : List Frame} (h : FewNamed n frames) (frame : Frame) :
    FewNamed (n + 1) (frame :: frames) := by
  unfold FewNamed at h ⊢
  rw [List.countP_cons]
  split <;> omega

theorem FewMarked.few {n : Nat} {frames : List Frame} (h : FewMarked n frames) :
    FewNamed n frames := by
  obtain ⟨outer, rfl, houter⟩ := h
  simpa [FewNamed, Frame.isNamed, Frame.mark] using houter

theorem FewNamed.more {n : Nat} {frames : List Frame} (h : FewNamed n frames) :
    FewNamed (n + 1) frames :=
  Nat.le_succ_of_le h

/-- What is read over any frames is passed with few names. -/
theorem Reads.amid {pieces : List Piece} {next : TokenKind → Prop} {mode other : Mode}
    (h : ∀ frames, Reads pieces next (At mode frames) (At other frames))
    (p : List Frame → Prop) : Passes pieces next (Amid p mode) (Amid p other) := by
  intro m tokens last hspell hnext hm hrefused
  obtain ⟨frames, hframes, hat⟩ := hm
  exact ⟨frames, hframes, (h frames m tokens last hspell hnext hat hrefused).1⟩

section Moves

variable {m : Machine} {n : Nat} {mode : Mode}

theorem Amid.mode_eq {p : List Frame → Prop} (h : Amid p mode m.view) : m.mode = mode := by
  obtain ⟨_, -, hat⟩ := h
  exact hat.mode

theorem Amid.push (h : Amid (FewNamed n) mode m.view) {boundary : Bool} {role : Role}
    {resume : Mode} {name : String}
    (hrefused : (m.push boundary role resume name).stack.refused = 0) :
    Amid (FewNamed (n + 1)) mode (m.push boundary role resume name).view := by
  obtain ⟨frames, hframes, hat⟩ := h
  exact ⟨_, hframes.cons _, hat.push hrefused⟩

theorem Amid.goto {p : List Frame → Prop} (h : Amid p mode m.view) (other : Mode) :
    Amid p other (m.goto other).view := by
  obtain ⟨frames, hframes, hat⟩ := h
  exact ⟨frames, hframes, hat.goto other⟩

/-- A binding between declarations pushes a frame. -/
theorem Amid.openBinding (h : Amid (FewNamed n) mode m.view) {role : Role} {name : String}
    (hrefused : (m.openBinding role name).stack.refused = 0) :
    Amid (FewNamed (n + 1)) .parameters (m.openBinding role name).view := by
  obtain ⟨frames, hframes, hat⟩ := h.push hrefused
  exact ⟨frames, hframes, rfl, hat.frames, hat.staged⟩

/-- Taking off frames to the innermost name takes off that name. -/
theorem Amid.popToNamed (h : Amid (FewNamed (n + 1)) mode m.view) :
    Amid (FewNamed n) m.popToNamed.mode m.popToNamed.view := by
  obtain ⟨frames, hframes, hat⟩ := h
  have hcount := congrArg (List.countP Frame.isNamed)
    (List.takeWhile_append_dropWhile (p := fun frame : Frame => !frame.isNamed) (l := frames))
  rw [List.countP_append] at hcount
  refine ⟨m.popToNamed.stack.frames, ?_, rfl, rfl, hat.staged⟩
  unfold FewNamed at hframes ⊢
  unfold Machine.popToNamed ScopeStack.popToNamed
  rw [hat.frames]
  cases hdrop : frames.dropWhile (fun frame => !frame.isNamed) with
  | nil => simp
  | cons frame outer =>
      have hnamed := List.head?_dropWhile_not (fun frame : Frame => !frame.isNamed) frames
      rw [hdrop] at hnamed hcount
      have hnamed : frame.isNamed = true := by simpa using hnamed
      rw [List.countP_cons, if_pos hnamed] at hcount
      dsimp only
      omega

/-- Leaving the declaration that has ended takes frames off. -/
theorem Amid.closePrevious (h : Amid (FewNamed n) mode m.view) (other : Mode) :
    Amid (FewNamed n) other (m.closePrevious.goto other).view := by
  obtain ⟨frames, hframes, hat⟩ := h
  unfold Machine.closePrevious
  split
  · have hsub : m.popBoundary.stack.frames.Sublist frames := by
      have hdropped := List.dropWhile_sublist (l := m.stack.frames) (! Frame.boundary ·)
      unfold Machine.popBoundary ScopeStack.popBoundary
      rw [← hat.frames]
      split
      · exact List.nil_sublist _
      · next frame outer hdrop =>
          rw [hdrop] at hdropped
          exact (List.sublist_cons_self frame outer).trans hdropped
    exact ⟨m.popBoundary.stack.frames, (hsub.countP_le).trans hframes, rfl, rfl, hat.staged⟩
  · exact ⟨frames, hframes, rfl, hat.frames, hat.staged⟩

end Moves

end CamlIndex
