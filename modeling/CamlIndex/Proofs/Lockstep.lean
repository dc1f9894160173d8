import Mathlib.Data.List.Forall2
import CamlIndex.Proofs.Finding
import CamlIndex.Proofs.Indifference

/-!
# Two runs in lockstep

Two machines are `Abreast` if they agree on all that rules go by; what is left
to differ is their circumstances, and a relation says how far those may.  A
relation is kept in step (`Lockstep`) if whatever a reading does to both
circumstances preserves it.  Then it is enough to look at circumstances: the two
machines stay abreast over any number of tokens.

* `Lockstep.step`, `Lockstep.readAll` — one token, then a whole run.
-/

namespace CamlIndex

/-- What a token says, wherever it stands. -/
def Token.content (token : Token) : TokenKind × String :=
  (token.kind, token.text)

/-- A token that says the same is the same token under another circumstance. -/
theorem Token.eq_under {token other : Token} (h : token.content = other.content)
    {w : Circumstance} (hstart : w.start = other.start) (hstop : w.stop = other.stop) :
    other = token.under w := by
  obtain ⟨hkind, htext⟩ := Prod.mk.inj h
  cases other
  simp_all [Token.under]

theorem Token.eq_beyond {token other : Token} (h : token.content = other.content)
    {w : Circumstance} (hstart : w.nextStart = other.start) (hstop : w.nextStop = other.stop) :
    other = token.beyond w := by
  obtain ⟨hkind, htext⟩ := Prod.mk.inj h
  cases other
  simp_all [Token.beyond]

namespace Circumstance

/-- The circumstance with one more note. -/
def note (w : Circumstance) (entry : Note) : Circumstance :=
  { w with notes := entry :: w.notes }

/-- The circumstance after a frame has been refused. -/
def refuse (w : Circumstance) : Circumstance :=
  { w with refused := w.refused + 1 }.note (.refused w.start)

/-- The circumstance in which the next token is read. -/
def reading (w : Circumstance) (current next : Token) : Circumstance :=
  { w with
    start := current.start
    stop := current.stop
    nextStart := next.start
    nextStop := next.stop }

end Circumstance

namespace Machine

/-- The circumstance of a machine between two tokens. -/
def circumstance (m : Machine) : Circumstance :=
  ⟨m.stack.capacity, m.stack.refused, m.staged, m.notes, m.offset, 0, 0, 0⟩

/-- **Whether a frame fits** is the only thing that a circumstance decides. -/
theorem push_under (m : Machine) (w : Circumstance) (boundary : Bool) (role : Role)
    (resume : Mode) (name : String) :
    (m.under w).push boundary role resume name =
      if w.capacity ≤ m.stack.frames.length then m.under w.refuse
      else { m with stack := { m.stack with
        frames := ⟨boundary, role, resume, m.stack.qualify name⟩ :: m.stack.frames } }.under w := by
  have hfull : (m.under w).stack.isFull = decide (w.capacity ≤ m.stack.frames.length) := rfl
  unfold push ScopeStack.push
  rw [hfull]
  by_cases h : w.capacity ≤ m.stack.frames.length
  · simp only [h, decide_true, if_true]
    rfl
  · simp only [h, decide_false, if_false, Bool.false_eq_true]
    rfl

theorem mode_push (m : Machine) (boundary : Bool) (role : Role) (resume : Mode) (name : String) :
    (m.push boundary role resume name).mode = m.mode := by
  unfold push
  dsimp only
  split <;> rfl

theorem Alike.mode_eq {w w' : Circumstance} {here there : Machine} (h : Alike w w' here there) :
    here.mode = there.mode := by
  cases h with
  | moves remark m => rfl
  | pushes remark m boundary role resume name => simp only [mode_push, under_mode]

/-- **Machines that agree on all that rules go by** react alike to tokens that say the same. -/
theorem dispatched_alike (m : Machine) (w w' : Circumstance) {current next current' next' : Token}
    (hcurrent : current.content = current'.content) (hnext : next.content = next'.content) :
    Alike (w.reading current next) (w'.reading current' next')
      ((m.under w).dispatched current next) ((m.under w').dispatched current' next') := by
  let v := w.reading current next
  let v' := w'.reading current' next'
  have hcurrent' : current' = current.under v' := Token.eq_under hcurrent rfl rfl
  have hnext' : next' = next.beyond v' := Token.eq_beyond hnext rfl rfl
  have hhere : (m.under w).dispatched current next =
      (m.under v).dispatch (current.under v) (next.beyond v) := rfl
  have hthere : (m.under w').dispatched current' next' =
      (m.under v').dispatch (current.under v') (next.beyond v') := by
    rw [← hcurrent', ← hnext']
    rfl
  rw [hhere, hthere]
  exact dispatch_alike v v' m current next

/-! ## Relations that every reading keeps -/

/-- A relation of circumstances that every reading of tokens related by `T` keeps. -/
structure Lockstep (R : Circumstance → Circumstance → Prop) (T : Token → Token → Prop) :
    Prop where
  content : ∀ {token token'}, T token token' → token.content = token'.content
  capacity : ∀ {w w'}, R w w' → w.capacity = w'.capacity
  reading : ∀ {w w' current current' next next'}, R w w' → T current current' → T next next' →
    R (w.reading current next) (w'.reading current' next')
  hear : ∀ {w w'} (remark), R w w' → R (w.hear remark) (w'.hear remark)
  refuse : ∀ {w w'}, R w w' → R w.refuse w'.refuse
  note_moved : ∀ {w w'} (token before after), R w w' →
    R (w.note (.moved token before after)) (w'.note (.moved token before after))

/-- Two machines that differ in related circumstances alone. -/
def Abreast (R : Circumstance → Circumstance → Prop) (here there : Machine) : Prop :=
  ∃ (m : Machine) (w w' : Circumstance), here = m.under w ∧ there = m.under w' ∧ R w w'

namespace Lockstep

variable {R : Circumstance → Circumstance → Prop} {T : Token → Token → Prop}

/-- The same reaction under related circumstances leaves related circumstances. -/
theorem abreast (lockstep : Lockstep R T) {w w' : Circumstance} {here there : Machine}
    (related : R w w') (alike : Alike w w' here there) : Abreast R here there := by
  cases alike with
  | moves remark m => exact ⟨m, _, _, rfl, rfl, lockstep.hear remark related⟩
  | pushes remark m boundary role resume name =>
      have hheard := lockstep.hear remark related
      -- Both stacks have the same frames and the same capacity: the frame fits
      -- on both or on neither.
      rw [push_under, push_under, ← lockstep.capacity hheard]
      split
      · exact ⟨m, _, _, rfl, rfl, lockstep.refuse hheard⟩
      · exact ⟨_, _, _, rfl, rfl, hheard⟩

/-- **One token** keeps two machines abreast. -/
theorem step (lockstep : Lockstep R T) {m m' : Machine} (abreast : Abreast R m m')
    {current current' next next' : Token} (hcurrent : T current current') (hnext : T next next') :
    Abreast R (m.step current next) (m'.step current' next') := by
  obtain ⟨m, w, w', rfl, rfl, related⟩ := abreast
  have hcontent := lockstep.content hcurrent
  have hkind : current.kind = current'.kind := congrArg Prod.fst hcontent
  have halike := dispatched_alike m w w' hcontent (lockstep.content hnext)
  have hmode := halike.mode_eq
  obtain ⟨left, v, v', hhere, hthere, hleft⟩ :=
    lockstep.abreast (lockstep.reading related hcurrent hnext) halike
  -- A change of mode is told last, and both machines have changed alike.
  rw [step_dispatched, step_dispatched, under_mode, under_mode, ← hmode, ← hkind, hhere, hthere]
  split
  · exact ⟨left, v, v', rfl, rfl, hleft⟩
  · exact ⟨left, _, _, rfl, rfl, lockstep.note_moved _ _ _ hleft⟩

/-- **A run** keeps two machines abreast. -/
theorem readAll (lockstep : Lockstep R T) {m m' : Machine} (abreast : Abreast R m m')
    {last last' : Token} (hlast : T last last') {tokens tokens' : List Token}
    (htokens : List.Forall₂ T tokens tokens') :
    Abreast R (m.readAll last tokens) (m'.readAll last' tokens') := by
  induction htokens generalizing m m' with
  | nil => exact abreast
  | @cons token token' rest rest' htoken hrest ih =>
      have hnext : T (rest.headD last) (rest'.headD last') := by
        cases hrest with
        | nil => exact hlast
        | cons hhead _ => exact hhead
      exact ih (lockstep.step abreast htoken hnext)

end Lockstep

end Machine

end CamlIndex
