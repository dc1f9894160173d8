import CamlIndex.Proofs.Discipline
import CamlIndex.Proofs.Spacing

/-!
# What a balanced skip goes through

A balanced skip waits for a token outside of brackets, and it counts brackets of
three shapes.  In a text that is properly nested the counts are those of the
brackets that are open, so the skip ends where it should.  But words pair up,
too, and the skip knows only one half of these pairs: it does not notice `begin`,
`sig`, `struct` or `object`, and hands their `end` to the top level, which takes
off a scope that has nothing to do with it.

* `Balance.count_of` — the counters keep up with the brackets that are open;
* `end_leaves` — an `end` leads out of any balanced skip;
* `goesThrough_iff` — a balanced skip goes through what is properly nested, and
  leaves all else as it was, if and only if there is no `end` in it.
-/

namespace CamlIndex

/-! ## Pairs -/

/-- The shapes of what opens and closes; words that an `end` closes are of one shape. -/
inductive Shape where
  | round | square | curly | block
  deriving DecidableEq, Repr

namespace TokenKind

/-- What a token opens. -/
def opens? : TokenKind → Option Shape
  | .parenOpen => some .round
  | .bracketOpen => some .square
  | .braceOpen => some .curly
  | .kwBegin | .kwSig | .kwStruct | .kwObject => some .block
  | _ => none

/-- What a token closes. -/
def closes? : TokenKind → Option Shape
  | .parenClose => some .round
  | .bracketClose => some .square
  | .braceClose => some .curly
  | .kwEnd => some .block
  | _ => none

/-- What is open behind a token, the innermost first; nothing if the token closes
what is not the innermost. -/
def nest? (kind : TokenKind) (opened : List Shape) : Option (List Shape) :=
  match kind.opens?, kind.closes? with
  | some shape, _ => some (shape :: opened)
  | none, some shape => if opened.head? = some shape then some opened.tail else none
  | none, none => some opened

/-- What is open behind a token that stands first. -/
def opened (kind : TokenKind) : List Shape :=
  kind.opens?.toList

variable {kind : TokenKind} {opened after : List Shape}

/-- A token opens something, closes the innermost, or is no bracket at all. -/
theorem nest?_cases (h : kind.nest? opened = some after) :
    (∃ shape, kind.opens? = some shape ∧ after = shape :: opened) ∨
      (∃ shape, kind.closes? = some shape ∧ opened = shape :: after) ∨
        kind.opens? = none ∧ kind.closes? = none ∧ after = opened := by
  unfold nest? at h
  split at h
  · next shape hopens => exact .inl ⟨shape, hopens, (Option.some.inj h).symm⟩
  · next shape hopens hcloses =>
      split at h
      · next hhead =>
          obtain ⟨outer, rfl⟩ := List.head?_eq_some_iff.mp hhead
          exact .inr (.inl ⟨shape, hcloses, congrArg _ (Option.some.inj h)⟩)
      · cases h
  · next hopens hcloses => exact .inr (.inr ⟨hopens, hcloses, (Option.some.inj h).symm⟩)

theorem closes?_eq_block : kind.closes? = some .block ↔ kind = .kwEnd := by
  unfold closes?
  split <;> simp_all

/-- Only an `end` closes a block. -/
theorem block_mem_of_nest? (h : kind.nest? opened = some after) (hend : kind ≠ .kwEnd)
    (hblock : .block ∈ opened) : .block ∈ after := by
  rcases nest?_cases h with ⟨-, -, rfl⟩ | ⟨shape, hcloses, rfl⟩ | ⟨-, -, rfl⟩
  · exact List.mem_cons_of_mem _ hblock
  · rcases List.mem_cons.mp hblock with rfl | hblock
    · exact absurd (closes?_eq_block.mp hcloses) hend
    · exact hblock
  · exact hblock

end TokenKind

/-- Tokens that are properly nested where some brackets are open.  The last of them
is the first token of the kind waited for that leaves nothing open. -/
inductive Skippable (waited : TokenKind) : (opened : List Shape) → List Token → Prop
  | last {opened : List Shape} {token : Token} (nested : token.kind.nest? opened = some [])
      (met : token.kind = waited) : Skippable waited opened [token]
  | pass {opened after : List Shape} {token : Token} {tokens : List Token}
      (nested : token.kind.nest? opened = some after) (early : token.kind = waited → after ≠ [])
      (rest : Skippable waited after tokens) : Skippable waited opened (token :: tokens)

namespace Skippable

variable {waited : TokenKind} {opened : List Shape} {tokens : List Token}

/-- What is waited for comes last, so something stands behind any other token. -/
theorem ne_nil_of_kind_ne (h : Skippable waited opened tokens) {front back : List Token}
    {token : Token} (htokens : tokens = front ++ token :: back) (hkind : token.kind ≠ waited) :
    back ≠ [] := by
  induction h generalizing front with
  | last _ met =>
      rw [eq_comm, List.append_eq_singleton_iff] at htokens
      rcases htokens with ⟨-, htoken⟩ | ⟨-, hnil⟩
      · rw [(List.cons.inj htoken).1] at hkind
        exact absurd met hkind
      · cases hnil
  | pass _ _ rest ih =>
      cases front with
      | nil =>
          obtain ⟨-, rfl⟩ := List.cons.inj htokens
          cases rest <;> exact List.cons_ne_nil _ _
      | cons first front => exact ih (List.cons.inj htokens).2

/-- Where nothing is an `end`, no block is open. -/
theorem block_not_mem (h : Skippable waited opened tokens)
    (hends : ∀ token ∈ tokens, token.kind ≠ .kwEnd) : .block ∉ opened := by
  induction h with
  | last nested _ =>
      intro hblock
      have hafter := TokenKind.block_mem_of_nest? nested (hends _ List.mem_cons_self) hblock
      exact absurd hafter List.not_mem_nil
  | pass nested _ _ ih =>
      intro hblock
      have hafter := TokenKind.block_mem_of_nest? nested (hends _ List.mem_cons_self) hblock
      exact ih (fun token htoken => hends token (List.mem_cons_of_mem _ htoken)) hafter

end Skippable

/-! ## Counting what is open -/

namespace Balance

/-- The balance when some brackets are open. -/
def of (opened : List Shape) : Balance :=
  ⟨-opened.count .round, -opened.count .square, -opened.count .curly⟩

variable {kind : TokenKind} {opened after : List Shape}

/-- The counters keep up with what is open. -/
theorem count_of (h : kind.nest? opened = some after) :
    (of opened).count kind = of after := by
  rcases TokenKind.nest?_cases h with
    ⟨shape, hopens, rfl⟩ | ⟨shape, hcloses, rfl⟩ | ⟨hopens, hcloses, rfl⟩
  · unfold TokenKind.opens? at hopens
    split at hopens <;> cases hopens <;> grind [of, count]
  · unfold TokenKind.closes? at hcloses
    split at hcloses <;> cases hcloses <;> grind [of, count]
  · unfold count
    split <;> simp_all [TokenKind.opens?, TokenKind.closes?]

/-- Without blocks among them, brackets are in balance only if none is open. -/
theorem isEven_of (h : .block ∉ opened) : (of opened).isEven = true ↔ opened = [] := by
  constructor
  · intro heven
    simp only [isEven, of, Bool.and_eq_true, beq_iff_eq, Int.neg_eq_zero, Int.natCast_eq_zero,
      List.count_eq_zero] at heven
    rw [List.eq_nil_iff_forall_not_mem]
    intro shape hshape
    cases shape with
    | round => exact heven.1.1 hshape
    | square => exact heven.1.2 hshape
    | curly => exact heven.2 hshape
    | block => exact h hshape
  · rintro rfl
    rfl

end Balance

/-! ## One token of a skip -/

namespace Machine

/-- What a skip leaves alone. -/
structure Unchanged (m after : Machine) : Prop where
  stack : after.stack = m.stack
  closing : after.closing = m.closing
  findings : after.findings = m.findings
  staged : after.staged = m.staged

section Steps

variable {m : Machine} {current next : Token}

/-- A token is counted, and that is all. -/
theorem step_counts (hmode : m.mode = .skipBalanced) (hend : current.kind ≠ .kwEnd)
    (hearly : ¬ (current.kind = m.skip.waited ∧ (m.balance.count current.kind).isEven = true)) :
    m.step current next =
      { m with offset := current.start, balance := m.balance.count current.kind } := by
  have hrule : m.dispatched current next =
      { m with offset := current.start, balance := m.balance.count current.kind } := by
    rw [dispatched_skipBalanced hmode, Machine.atSkipBalanced]
    dsimp only
    rw [if_neg hearly, if_neg hend]
  unfold dispatched at hrule
  unfold Machine.step
  dsimp only
  rw [hrule, if_pos rfl]

/-- What is waited for ends the skip. -/
theorem step_resumes (hmode : m.mode = .skipBalanced) (hmet : current.kind = m.skip.waited)
    (heven : (m.balance.count current.kind).isEven = true) :
    (m.step current next).mode = m.skip.resume ∧ m.Unchanged (m.step current next) := by
  have hrule : m.dispatched current next =
      { m with
        mode := m.skip.resume
        offset := current.start
        balance := m.balance.count current.kind } := by
    rw [dispatched_skipBalanced hmode, Machine.atSkipBalanced]
    dsimp only
    rw [if_pos ⟨hmet, heven⟩]
    rfl
  unfold dispatched at hrule
  unfold Machine.step
  dsimp only
  rw [hrule]
  split
  · exact ⟨rfl, rfl, rfl, rfl, rfl⟩
  · exact ⟨rfl, rfl, rfl, by simp [Note.finding?]; rfl, rfl⟩

/-- An `end` takes off the innermost boundary, or that and the next one. -/
theorem readEnd_stack (m : Machine) (next : Token) :
    (m.readEnd next).stack = m.stack.popBoundary.1 ∨
      (m.readEnd next).stack = m.stack.popBoundary.1.popBoundary.1 := by
  have hafter : ∀ closed : Machine, (closed.afterModule next).stack = closed.stack := by
    intro closed
    unfold afterModule
    split <;> rfl
  have hread : (m.readEnd next).stack = m.closeEnd.1.stack := by
    unfold Machine.readEnd
    dsimp only
    split
    · exact hafter _
    · rfl
  rw [hread]
  unfold Machine.closeEnd
  split
  all_goals first
    | exact .inl rfl
    | exact .inr rfl

/-- **An `end` leads out** of any balanced skip, however deep in brackets it stands,
and takes off boundaries. -/
theorem end_leaves (h : m.Orderly) (hmode : m.mode = .skipBalanced) (hend : current.kind = .kwEnd)
    (hwaited : m.skip.waited ≠ .kwEnd) :
    (m.step current next).mode ≠ .skipBalanced ∧
      ((m.step current next).stack = m.stack.popBoundary.1 ∨
        (m.step current next).stack = m.stack.popBoundary.1.popBoundary.1) := by
  have hearly : current.kind ≠ m.skip.waited := hend ▸ hwaited.symm
  have hcounted : { m with
      offset := current.start, balance := m.balance.count current.kind }.Orderly :=
    ⟨h.frames, h.skip, h.chained⟩
  obtain ⟨hmode', hstack, -⟩ := step_fields m current next
  rw [hmode', hstack, dispatched_skipBalanced hmode, Machine.atSkipBalanced]
  dsimp only
  rw [if_neg (fun hmet => hearly hmet.1), if_pos hend, atTopLevel_end hend]
  exact ⟨ne_skipBalanced (isSkip_readEnd hcounted next), readEnd_stack _ next⟩

end Steps

/-! ## What is waited for -/

/-- Orderly, and never waiting for an `end`. -/
structure Waiting (m : Machine) : Prop extends Orderly m where
  waits : m.mode = .skipBalanced → m.skip.waited ≠ .kwEnd

section Reached

variable {m : Machine}

theorem Waiting.step (h : m.Waiting) (current next : Token) : (m.step current next).Waiting := by
  obtain ⟨horderly, hskips⟩ := order_step h.toOrderly current next
  refine ⟨horderly, fun hafter => ?_⟩
  rcases hskips hafter with ⟨hwaited, -⟩ | ⟨hmode, hsame⟩
  · intro hkind
    simp [hkind, Skip.balanced] at hwaited
  · rw [hsame]
    exact h.waits hmode

theorem Waiting.readAll (h : m.Waiting) (last : Token) (tokens : List Token) :
    (m.readAll last tokens).Waiting := by
  induction tokens generalizing m with
  | nil => exact h
  | cons token rest ih => exact ih (h.step token (rest.headD last))

/-- Some tokens lead from the start to the machine. -/
def Reachable (m : Machine) : Prop :=
  ∃ capacity last tokens, m = (start capacity).readAll last tokens

theorem Reachable.waiting (h : m.Reachable) : m.Waiting := by
  obtain ⟨capacity, last, tokens, rfl⟩ := h
  have hstart : (start capacity).Waiting := ⟨⟨nofun, rfl, rfl⟩, nofun⟩
  exact hstart.readAll last tokens

/-- Where a skip begins, the balance is that of the bracket it begins with. -/
theorem Begins.balance_eq {kind waited : TokenKind} {balance : Balance}
    (h : Begins kind waited balance) : balance = .of kind.opened := by
  have hkind := h.waited
  simp only [Skip.balanced, List.mem_cons, Prod.mk.injEq, List.not_mem_nil, or_false] at hkind
  rw [h.balance]
  rcases hkind with ⟨rfl, -⟩ | ⟨rfl, -⟩ | ⟨rfl, -⟩ | ⟨rfl, -⟩ <;> rfl

end Reached

/-! ## Whole skips -/

/-- A machine that skips goes through tokens: the skip ends behind the last of them,
and all else is as before. -/
structure GoesThrough (m : Machine) (tokens : List Token) (last : Token) : Prop where
  skips : ∀ front back, tokens = front ++ back → back ≠ [] →
    (m.readAll (back.headD last) front).mode = .skipBalanced
  resumes : (m.readAll last tokens).mode = m.skip.resume
  unchanged : m.Unchanged (m.readAll last tokens)

variable {m : Machine} {last : Token} {tokens : List Token}

/-- While a skip is on it goes through its tokens one by one. -/
theorem GoesThrough.cons {token : Token} (hmode : m.mode = .skipBalanced)
    (hskip : (m.step token (tokens.headD last)).skip = m.skip)
    (hunchanged : m.Unchanged (m.step token (tokens.headD last)))
    (h : (m.step token (tokens.headD last)).GoesThrough tokens last) :
    m.GoesThrough (token :: tokens) last := by
  obtain ⟨hskips, hresumes, hstack, hclosing, hfindings, hstaged⟩ := h
  refine ⟨fun front back htokens hback => ?_, hresumes.trans (congrArg _ hskip),
    hstack.trans hunchanged.stack, hclosing.trans hunchanged.closing,
    hfindings.trans hunchanged.findings, hstaged.trans hunchanged.staged⟩
  cases front with
  | nil => exact hmode
  | cons first front =>
      obtain ⟨rfl, rfl⟩ := List.cons.inj htokens
      have hhead : (front ++ back).headD last = front.headD (back.headD last) := by
        cases front <;> simp
      rw [readAll, ← hhead]
      exact hskips front back rfl hback

/-- Without an `end` among the tokens the counters tell what is open. -/
theorem goesThrough_of_skippable {waited : TokenKind} {opened : List Shape}
    (hnested : Skippable waited opened tokens) (hends : ∀ token ∈ tokens, token.kind ≠ .kwEnd)
    (hmode : m.mode = .skipBalanced) (hwaited : m.skip.waited = waited)
    (hbalance : m.balance = .of opened) : m.GoesThrough tokens last := by
  -- on the nesting; the machine changes, but its balance is always that of what is open
  induction hnested generalizing m with
  | @last opened token nested met =>
      have heven : (m.balance.count token.kind).isEven = true := by
        rw [hbalance, Balance.count_of nested]
        rfl
      obtain ⟨hresumes, hunchanged⟩ := step_resumes hmode (met.trans hwaited.symm) heven
      refine ⟨fun front back htokens hback => ?_, hresumes, hunchanged⟩
      rcases List.append_eq_singleton_iff.mp htokens.symm with ⟨rfl, -⟩ | ⟨-, rfl⟩
      · exact hmode
      · exact absurd rfl hback
  | @pass opened after token tokens nested early rest ih =>
      have hcount : m.balance.count token.kind = .of after := by
        rw [hbalance, Balance.count_of nested]
      have hbehind : ∀ token ∈ tokens, token.kind ≠ .kwEnd := fun token htoken =>
        hends token (List.mem_cons_of_mem _ htoken)
      have hearly :
          ¬ (token.kind = m.skip.waited ∧ (m.balance.count token.kind).isEven = true) := by
        rw [hcount, hwaited, Balance.isEven_of (rest.block_not_mem hbehind)]
        exact fun hmet => early hmet.1 hmet.2
      have hstep : m.step token (tokens.headD last) = _ :=
        step_counts hmode (hends token List.mem_cons_self) hearly
      apply GoesThrough.cons hmode <;> rw [hstep]
      · exact ⟨rfl, rfl, rfl, rfl⟩
      · exact ih hbehind hmode hwaited hcount

/-- An `end` among the tokens takes the machine out of the skip before it is over. -/
theorem GoesThrough.ne_end {waited : TokenKind} {opened : List Shape} (hwaiting : m.Waiting)
    (hnested : Skippable waited opened tokens) (hwaited : waited ≠ .kwEnd)
    (h : m.GoesThrough tokens last) : ∀ token ∈ tokens, token.kind ≠ .kwEnd := by
  intro token htoken hend
  obtain ⟨front, back, rfl⟩ := List.append_of_mem htoken
  have hback : back ≠ [] := hnested.ne_nil_of_kind_ne rfl (hend ▸ hwaited.symm)
  have hbefore := h.skips front (token :: back) rfl (List.cons_ne_nil _ _)
  have hbehind := h.skips (front ++ [token]) back (List.append_cons front token back) hback
  -- an `end` that is waited for would end the skip in order, but no skip waits for one
  have hreached := hwaiting.readAll token front
  rw [readAll_append] at hbehind
  exact (end_leaves hreached.toOrderly hbefore hend (hreached.waits hbefore)).1 hbehind

/-- **Balanced skips.**  Where a machine begins a balanced skip, whatever it has read
before, and the tokens behind are properly nested up to what it waits for, it goes
through them and leaves all else as it was, if and only if none of them is an `end`. -/
theorem goesThrough_iff {opener : Token} (hreachable : m.Reachable)
    (hbefore : m.mode ≠ .skipBalanced)
    (hbegins : (m.step opener (tokens.headD last)).mode = .skipBalanced)
    (hnested : Skippable (m.step opener (tokens.headD last)).skip.waited opener.kind.opened tokens) :
    (m.step opener (tokens.headD last)).GoesThrough tokens last ↔
      ∀ token ∈ tokens, token.kind ≠ .kwEnd := by
  have hwaiting := hreachable.waiting
  have hstep := hwaiting.step opener (tokens.headD last)
  constructor
  · exact GoesThrough.ne_end hstep hnested (hstep.waits hbegins)
  · intro hends
    have hbegun := ((order_step hwaiting.toOrderly opener _).skips hbegins).resolve_right
      fun hon => hbefore hon.1
    exact goesThrough_of_skippable hnested hends hbegins rfl hbegun.balance_eq

/-- The parameter of a functor: the skip for `(X : S) =` ends at the equals sign, and
that for `(X : sig end) =` at the `end`. -/
theorem goesThrough_parameter :
    let token (kind : TokenKind) (text : String) (start : Nat) : Token :=
      ⟨kind, text, start, start + text.utf8ByteSize⟩
    let start : Machine := (Machine.start 256).step (token .kwModule "module" 0)
      (token .ident "F" 7)
    let named : List Token := [token .parenOpen "(" 9, token .ident "X" 10, token .colon ":" 12,
      token .ident "S" 14, token .parenClose ")" 15, token .equals "=" 17]
    let inline : List Token := [token .parenOpen "(" 9, token .ident "X" 10, token .colon ":" 12,
      token .kwSig "sig" 14, token .kwEnd "end" 18, token .parenClose ")" 21, token .equals "=" 23]
    let begun : Machine := start.step (token .ident "F" 7) (token .parenOpen "(" 9)
    begun.GoesThrough named (token .kwStruct "struct" 19) ∧
      ¬ begun.GoesThrough inline (token .kwStruct "struct" 25) := by
  intro token start named inline begun
  have hreachable : start.Reachable := ⟨256, token .ident "F" 7, [token .kwModule "module" 0], rfl⟩
  have hnamed : Skippable .equals [] named :=
    .pass rfl nofun <| .pass rfl nofun <| .pass rfl nofun <| .pass rfl nofun <|
      .pass rfl nofun <| .last rfl rfl
  have hinline : Skippable .equals [] inline :=
    .pass rfl nofun <| .pass rfl nofun <| .pass rfl nofun <| .pass rfl nofun <|
      .pass rfl nofun <| .pass rfl nofun <| .last rfl rfl
  have hplain := @goesThrough_iff start (token .kwStruct "struct" 19) named
    (token .ident "F" 7) hreachable nofun rfl hnamed
  have hsealed := @goesThrough_iff start (token .kwStruct "struct" 25) inline
    (token .ident "F" 7) hreachable nofun rfl hinline
  refine ⟨hplain.mpr (by decide), fun hgoes => ?_⟩
  exact absurd (hsealed.mp hgoes) (by decide)

/-- The `end` of the signature of the parameter comes before the structure of `F`, which
then is no scope for what it declares. -/
theorem parameter_closes_structure :
    (extract {} "module F (X : sig type t end) = struct let a = 1 end").tags.map Tag.content =
      [("F", .moduleDef, none), ("a", .variableDef, none)] := by
  decide +kernel

end Machine

end CamlIndex
