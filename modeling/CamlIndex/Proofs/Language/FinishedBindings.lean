import CamlIndex.Proofs.Language.BoundExpressions
import CamlIndex.Proofs.Language.Contents

/-!
# Bindings that are finished

The `in` behind a local binding takes off all frames up to a name, for the
binding has pushed a frame with its own.  But a `try` has pushed one as well, and
if that is still there, the `in` takes it off and leaves the binding in view:
the next one counts as a part of it.  An `in` in a pattern may also come upon
the frame of the binding too early, and then the last `in` takes off the frame of
the function.

Behind the first binding all is well if and only if exactly one name is left for
its `in`, apart from the function's, and the machine is not in a pattern
afterwards (`Ending.isClean`).

* `reached_of_passes` — what is passed in front of a text holds partway through it;
* `not_found_of_silent` — a token that is passed in silence has no finding;
* `extract_finishedBinding` — a binding leaves no scope behind if what it binds is
  tame, and otherwise just if its ending is clean.
-/

namespace CamlIndex

/-! ## Names in view -/

/-- The names of frames, the innermost first. -/
def namesOf (frames : List Frame) : List String :=
  (frames.filter Frame.isNamed).map Frame.name

/-- The names on the stack behind the first `n` tokens of a text. -/
def visibleNames (maxDepth : Nat) (text : String) (n : Nat) : List String :=
  namesOf (reached maxDepth text n).stack.frames

theorem namesOf_cons (frame : Frame) (frames : List Frame) :
    namesOf (frame :: frames) =
      if frame.isNamed then frame.name :: namesOf frames else namesOf frames := by
  unfold namesOf
  rw [List.filter_cons]
  split <;> rfl

theorem namesOf_append (upper lower : List Frame) :
    namesOf (upper ++ lower) = namesOf upper ++ namesOf lower := by
  simp [namesOf]

theorem namesOf_eq_nil_iff (frames : List Frame) :
    namesOf frames = [] ↔ ∀ frame ∈ frames, frame.name = "" := by
  simp [namesOf, Frame.isNamed]

theorem namesOf_of_few {frames : List Frame} (h : FewNamed 0 frames) : namesOf frames = [] := by
  rw [namesOf, List.filter_eq_nil_iff.mpr]
  · rfl
  · exact fun frame hframe => List.countP_eq_zero.mp (Nat.le_zero.mp h) frame hframe

/-! ## Partway through a text -/

section Reached

variable {maxDepth : Nat} {text : String} {n : Nat}

/-- A run goes on from where it is. -/
theorem runOver_eq_readAll (maxDepth : Nat) (text : String) (n : Nat) :
    runOver maxDepth text =
      (reached maxDepth text n).readAll (Token.endAt text.utf8ByteSize)
        ((tokenize text).drop n) := by
  rw [runOver, reached, Machine.partway, ← Machine.readAll_append, List.take_append_drop]

theorem reached_unrefused (hrefused : (runOver maxDepth text).stack.refused = 0) (n : Nat) :
    (reached maxDepth text n).stack.refused = 0 := by
  have hle := (Machine.fills_readAll (reached maxDepth text n) (Token.endAt text.utf8ByteSize)
    ((tokenize text).drop n)).refused_le
  rw [← runOver_eq_readAll, hrefused] at hle
  exact Nat.le_zero.mp hle

theorem findingsOf_eq_found (maxDepth : Nat) (text : String) :
    findingsOf maxDepth text = (runOver maxDepth text).found := by
  rw [findingsOf, Machine.read_ofText, ← Machine.found_eq_confirm]
  rfl

/-- What is passed in front of a text holds partway through it. -/
theorem reached_of_passes {front words : List Word} {after : View → Prop}
    (hpasses : PassesWords front (Settled []) after) (hfront : front <+: words)
    (hspells : List.Forall₂ Token.Spells (tokenize text) words)
    (hrefused : (runOver maxDepth text).stack.refused = 0) :
    after (reached maxDepth text front.length).view := by
  obtain ⟨back, rfl⟩ := hfront
  have hspell : Spell ((tokenize text).take front.length) (front.map .silent) :=
    List.forall₂_map_right_iff.mpr (List.forall₂_take_append _ _ _ hspells)
  have hstart : Settled [] (Machine.start maxDepth).view := Begun.settled ⟨⟨rfl, rfl, rfl⟩, rfl⟩
  exact hpasses _ _ _ hspell trivial hstart (reached_unrefused hrefused front.length)

theorem Machine.ComesOf.mem {m : Machine} {tokens : List Token} {finding : Finding}
    (h : m.ComesOf tokens finding) (hstaged : m.staged = none) :
    ∃ token ∈ tokens, finding.declaration.offset = token.start := by
  rcases h with ⟨hheld, -⟩ | ⟨htoken, -⟩
  · rw [hstaged] at hheld
    cases hheld
  · exact htoken

/-- **A token that is passed in silence** has no finding. -/
theorem not_found_of_silent {token : Token} (htoken : (tokenize text)[n]? = some token)
    (hstaged : (reached maxDepth text (n + 1)).staged = none)
    (hsilent : (reached maxDepth text (n + 1)).found = (reached maxDepth text n).found)
    {finding : Finding} (hfinding : finding ∈ findingsOf maxDepth text) :
    finding.declaration.offset ≠ token.start := by
  obtain ⟨hlt, rfl⟩ := List.getElem?_eq_some_iff.mp htoken
  have hincreasing := tokenize_starts_increasing text
  rw [← List.take_append_drop n (tokenize text), List.drop_eq_getElem_cons hlt] at hincreasing
  obtain ⟨-, hbehind, hinFront⟩ := List.pairwise_append.mp hincreasing
  have hinBack := (List.pairwise_cons.mp hbehind).1
  have hold : ∀ n, (reached maxDepth text n).HoldsInTime := fun n =>
    Machine.HoldsInTime.readAll (fun _ => rfl) _ _
  -- what is found in front of the token stands there, and what is found behind it, too
  obtain ⟨early, hearly, hcomeEarly⟩ := Machine.findings_readAll (m := .start maxDepth)
    (fun _ => rfl) (((tokenize text).drop n).headD (Token.endAt text.utf8ByteSize))
    ((tokenize text).take n)
  obtain ⟨late, hlate, hcomeLate⟩ := Machine.findings_readAll (hold (n + 1))
    (Token.endAt text.utf8ByteSize) ((tokenize text).drop (n + 1))
  have hpassed : (reached maxDepth text (n + 1)).findings = early := by
    have hfound := hsilent.trans ((Machine.found_eq_confirm _).trans hearly)
    rw [Machine.found, hstaged] at hfound
    exact (List.append_nil _).symm.trans hfound
  rw [findingsOf_eq_found, runOver_eq_readAll maxDepth text (n + 1), Machine.found_eq_confirm,
    hlate, hpassed] at hfinding
  rcases List.mem_append.mp hfinding with h | h
  · obtain ⟨other, hother, hoffset⟩ := (hcomeEarly finding h).mem rfl
    rw [hoffset]
    exact (hinFront other hother _ List.mem_cons_self).ne
  · obtain ⟨other, hother, hoffset⟩ := (hcomeLate finding h).mem hstaged
    rw [hoffset]
    exact (hinBack other hother).ne'

end Reached

/-! ## Functions that bind twice -/

/-- A function whose body binds an expression and then a literal:
`let f () = let a = e in let b = l in b`. -/
structure FinishedBinding where
  function : LowerName
  first : LowerName
  bound : BoundExpr
  second : LowerName
  value : Lexeme .literal

namespace FinishedBinding

variable (source : FinishedBinding)

/-- The words up to the body of the function. -/
def head : List Word :=
  [.fixed .kwLet, source.function.word, .fixed .parenOpen, .fixed .parenClose, .fixed .equals]

/-- The words in front of the name of the first binding. -/
def upToFirst : List Word :=
  source.head ++ [.fixed .kwLet]

/-- The words up to the `=` of the first binding. -/
def upToEquals : List Word :=
  source.upToFirst ++ [source.first.word, .fixed .equals]

/-- The words up to the end of the first binding. -/
def upToIn : List Word :=
  source.upToEquals ++ source.bound.words ++ [.fixed .kwIn]

/-- The words in front of the name of the second binding. -/
def upToSecond : List Word :=
  source.upToIn ++ [.fixed .kwLet]

def words : List Word :=
  source.upToSecond ++ [source.second.word, .fixed .equals, source.value.word,
    .fixed .kwIn, source.second.word]

/-- How the machine comes out of what the first binding binds, over the frame of the
binding.  There is none if even the frame of the function is taken off on the way. -/
def ending : Option Ending :=
  source.bound.ending ⟨false, [.bound]⟩

/-- **The first binding leaves no scope behind**: in front of the name of the second the
same names are on the stack as in front of that of the first, and the second is tagged there
in the scope of the function. -/
structure LeavesNoScope (maxDepth : Nat) (text : String) : Prop where
  names : visibleNames maxDepth text source.upToSecond.length =
    visibleNames maxDepth text source.upToFirst.length
  tagged : ∃ tag ∈ (extract { localBindings := true, maxDepth } text).tags,
    ∃ token, (tokenize text)[source.upToSecond.length]? = some token ∧
      tag.offset = token.start ∧
      tag.content = (source.second.text, .variableDef, some ⟨.functionDef, source.function.text⟩)

end FinishedBinding

/-- Whether an `in` takes off all names that are left, and an expression starts behind it. -/
def Ending.isClean (ending : Ending) : Bool :=
  ending.leave.any fun after => !after.inPattern && after.left.all (! ·.isNamed)

theorem Ending.isClean_of_unnamed {left : List Leftover}
    (hleft : ∀ leftover ∈ left, leftover.isNamed = false) :
    Ending.isClean ⟨false, left ++ [.bound]⟩ = true := by
  rw [isClean, leave, Leftover.dropWhile_bound hleft]
  rfl

/-! ## From one binding to the other -/

theorem words_silent (words : List Word) : (words.map Piece.silent).map Piece.word = words := by
  rw [List.map_map]
  exact List.map_id words

theorem Passes.words {pieces : List Piece} {before after : View → Prop}
    (h : Passes pieces anyKind before after) : PassesWords (pieces.map Piece.word) before after :=
  fun m tokens last hspell => h m tokens last (hspell.of_words (words_silent _).symm)

/-- Names are left on the stack just as they are computed to be. -/
theorem Leftover.namesOf_fits {left : List Leftover} {upper : List Frame}
    (hfits : List.Forall₂ Leftover.Fits left upper) :
    namesOf upper = [] ↔ left.all (! ·.isNamed) = true := by
  induction hfits with
  | nil => simp [namesOf]
  | @cons leftover frame left upper hone hleft ih =>
      rw [namesOf_cons, hone.named, List.all_cons]
      cases leftover.isNamed <;> simp [ih]

/-- A `let` leaves the stack as it is. -/
theorem passes_letOver (ending : Ending) (frames : List Frame) :
    PassesWords [.fixed .kwLet] (ending.Starts frames) fun view =>
      ∃ upper, List.Forall₂ Leftover.Fits ending.left upper ∧ view.frames = upper ++ frames := by
  obtain ⟨inPattern, left⟩ := ending
  refine PassesWords.starting fun upper hfits => ?_
  cases inPattern with
  | true =>
      have hstay := passes_inPattern (.fixed .kwLet) (by decide) (upper ++ frames)
      exact hstay.weaken fun _ hm => ⟨upper, hfits, hm.frames_eq⟩
  | false =>
      have hlet : PassesWords [.fixed .kwLet] (At .bodyStart (upper ++ frames))
          (At .localLetName (upper ++ frames)) := (reads_let _).passes
      exact hlet.weaken fun _ hm => ⟨upper, hfits, hm.frames_eq⟩

/-- **The function is left** at an `in` that finds no other name. -/
theorem Ending.passes_lost {ending : Ending} (h : ending.leave = none) {frame : Frame}
    (hnamed : frame.isNamed = true) (hresume : frame.resume = .topLevel) :
    PassesWords [.fixed .kwIn, .fixed .kwLet] (ending.Ends [frame])
      fun view => namesOf view.frames = [] := by
  refine (passes_inLost h hnamed).seq ?_
  intro m tokens last hspell hnext hm hrefused
  rw [hresume] at hm
  rcases hm with hm | hm
  · obtain ⟨frames, hframes, hat⟩ :=
      passes_let 0 m tokens last hspell hnext ⟨[], Nat.le_refl _, hm⟩ hrefused
    rw [hat.frames_eq]
    exact namesOf_of_few hframes
  · obtain ⟨hat, -⟩ := reads_let _ m tokens last hspell hnext hm hrefused
    rw [hat.frames_eq]
    rfl

namespace FinishedBinding

variable (source : FinishedBinding)

/-- The function without its first binding. -/
def plain : BindingFunction :=
  ⟨false, source.function, .unit, [], ⟨.named source.second, source.value⟩, [],
    source.second.toLexeme⟩

/-- The frame of the function. -/
def frame : Frame :=
  source.plain.frame none

theorem isNamed_frame : source.frame.isNamed = true := by
  simp [Frame.isNamed, frame, source.plain.frame_name_ne none]

theorem namesOf_frame : namesOf [source.frame] = [source.function.text] := by
  simp [namesOf, source.isNamed_frame]
  rfl

theorem passes_head :
    PassesWords source.head (Settled []) (At .bodyStart [source.frame]) := by
  have hreads := (source.plain.reads_head .outside).seq (reads_bodyStart (.inl rfl) (by decide) _)
  exact hreads.passes.words

theorem passes_upToEquals :
    PassesWords source.upToEquals (Settled [])
      (Ending.Starts ⟨false, [.bound]⟩ [source.frame]) := by
  have hheader : PassesWords _ (Ending.clear.Starts [source.frame])
      (Ending.Starts ⟨false, [.bound]⟩ [source.frame]) :=
    passes_header ⟨false, source.first, []⟩ .clear
  have hwhole := source.passes_head.seq (hheader.mono fun _ hm => ⟨[], .nil, hm⟩)
  simpa [upToEquals, upToFirst, Header.words] using hwhole

/-- The words up to the end of what the first binding binds. -/
theorem passes_first {ending : Ending} (h : source.ending = some ending) :
    PassesWords (source.upToEquals ++ source.bound.words) (Settled [])
      (ending.Ends [source.frame]) :=
  source.passes_upToEquals.seq ((source.bound.acts source.isNamed_frame []).passes h)

theorem passes_upToIn {ending after : Ending}
    (h : source.ending = some ending) (hleave : ending.leave = some after) :
    PassesWords source.upToIn (Settled []) (after.Starts [source.frame]) :=
  (source.passes_first h).seq (passes_leave hleave)

theorem upToSecond_prefix : source.upToSecond <+: source.words :=
  List.prefix_append _ _

theorem upToIn_prefix : source.upToIn <+: source.words :=
  (List.prefix_append _ _).trans source.upToSecond_prefix

theorem upToFirst_prefix : source.upToFirst <+: source.words := by
  have hequals : source.upToEquals <+: source.upToIn := by
    rw [upToIn, List.append_assoc]
    exact List.prefix_append _ _
  exact (List.prefix_append _ _).trans (hequals.trans source.upToIn_prefix)

section Text

variable {source} {maxDepth : Nat} {text : String} {ending after : Ending}
  (hspells : List.Forall₂ Token.Spells (tokenize text) source.words)
  (hrefused : (runOver maxDepth text).stack.refused = 0)
  (h : source.ending = some ending)

include hspells

/-- The second binding and the body. -/
theorem spells_tail :
    List.Forall₂ Token.Spells ((tokenize text).drop source.upToIn.length)
      [.fixed .kwLet, source.second.word, .fixed .equals, source.value.word, .fixed .kwIn,
        source.second.word] := by
  rw [words, upToSecond, List.append_assoc] at hspells
  exact List.forall₂_drop_append _ _ _ hspells

/-- The name of the second binding. -/
theorem exists_second :
    ∃ letToken token rest, (tokenize text).drop source.upToIn.length = letToken :: token :: rest ∧
      (tokenize text)[source.upToSecond.length]? = some token ∧
      token.Spells source.second.word := by
  obtain ⟨letToken, behind, -, hbehind, hdrop⟩ :=
    List.forall₂_cons_right_iff.mp (spells_tail hspells)
  obtain ⟨token, rest, hspelled, -, rfl⟩ := List.forall₂_cons_right_iff.mp hbehind
  refine ⟨letToken, token, rest, hdrop, ?_, hspelled⟩
  rw [upToSecond, List.length_append, List.length_singleton, ← List.getElem?_drop, hdrop]
  rfl

include hrefused

/-- In front of the first binding the function is all that is in view. -/
theorem visibleNames_first :
    visibleNames maxDepth text source.upToFirst.length = [source.function.text] := by
  have hlet : PassesWords [.fixed .kwLet] (At .bodyStart [source.frame])
      (At .localLetName [source.frame]) := (reads_let _).passes
  have hat := reached_of_passes (source.passes_head.seq hlet) source.upToFirst_prefix hspells
    hrefused
  exact (congrArg namesOf hat.frames_eq).trans source.namesOf_frame

/-- Where the frame of the function is taken off too early, no name is in view there. -/
theorem visibleNames_midway (hnone : source.ending = none) :
    ∃ n, source.upToFirst.length < n ∧ n < source.upToIn.length ∧
      visibleNames maxDepth text n = [] := by
  obtain ⟨front, hfront, hlost⟩ := (source.bound.acts source.isNamed_frame []).loses hnone
  have hpasses := source.passes_upToEquals.seq hlost
  have hprefix : source.upToEquals ++ front <+: source.words := by
    have hbound : source.upToEquals ++ front <+: source.upToEquals ++ source.bound.words :=
      (List.prefix_append_right_inj _).mpr hfront
    exact (hbound.trans (List.prefix_append _ _)).trans source.upToIn_prefix
  refine ⟨(source.upToEquals ++ front).length, ?_, ?_, ?_⟩
  · simp [upToEquals]
  · have hle := hfront.length_le
    simp [upToIn]
    omega
  · exact namesOf_of_few (reached_of_passes hpasses hprefix hspells hrefused)

include h

/-- Where no name is left for the `in`, none is in view behind it. -/
theorem visibleNames_second_lost (hleave : ending.leave = none) :
    visibleNames maxDepth text source.upToSecond.length = [] := by
  have hlost := Ending.passes_lost hleave source.isNamed_frame rfl
  have hpasses : PassesWords source.upToSecond (Settled [])
      fun view => namesOf view.frames = [] := by
    simpa [upToSecond, upToIn] using (source.passes_first h).seq hlost
  exact reached_of_passes hpasses source.upToSecond_prefix hspells hrefused

/-- In front of the second binding what the first has left is in view, too. -/
theorem visibleNames_second (hleave : ending.leave = some after) :
    visibleNames maxDepth text source.upToSecond.length = [source.function.text] ↔
      after.left.all (! ·.isNamed) = true := by
  have hpasses := (source.passes_upToIn h hleave).seq (passes_letOver after [source.frame])
  obtain ⟨upper, hfits, hframes⟩ :=
    reached_of_passes hpasses source.upToSecond_prefix hspells hrefused
  have hnames : visibleNames maxDepth text source.upToSecond.length =
      namesOf upper ++ [source.function.text] := by
    rw [← source.namesOf_frame, ← namesOf_append]
    exact congrArg namesOf hframes
  rw [hnames, ← Leftover.namesOf_fits hfits]
  exact List.append_left_eq_self

/-- **Over marks** the second binding is tagged in the scope of the function. -/
theorem tagged_of_clean (hleave : ending.leave = some after) (hpattern : after.inPattern = false)
    (hunnamed : after.left.all (! ·.isNamed) = true) :
    ∃ tag ∈ (extract { localBindings := true, maxDepth } text).tags,
      ∃ token, (tokenize text)[source.upToSecond.length]? = some token ∧
        tag.offset = token.start ∧ tag.content =
          (source.second.text, .variableDef, some ⟨.functionDef, source.function.text⟩) := by
  obtain ⟨upper, hfits, hat⟩ :=
    reached_of_passes (source.passes_upToIn h hleave) source.upToIn_prefix hspells hrefused
  rw [hpattern] at hat
  let binding : LocalBinding := ⟨.named source.second, source.value⟩
  let scope : Option Scope := some ⟨.functionDef, source.function.text⟩
  have hscoped : Scoped (upper ++ [source.frame]) scope :=
    (source.plain.scoped_frame [] none).marks
      ((namesOf_eq_nil_iff upper).mp ((Leftover.namesOf_fits hfits).mpr hunnamed))
  have hreads : Reads (binding.pieces scope ++ [.silent source.second.word]) anyKind
      (At .bodyStart (upper ++ [source.frame]))
      (At .expression (.mark .expression :: (upper ++ [source.frame]))) :=
    (binding.reads_word hscoped rfl).seq ((reads_atom (.inl rfl) _).mono fun _ hm => .inl hm)
  have hspell : Spell ((tokenize text).drop source.upToIn.length)
      (binding.pieces scope ++ [.silent source.second.word]) :=
    List.forall₂_map_right_iff.mp (spells_tail hspells)
  obtain ⟨-, hfound⟩ := hreads _ _ (Token.endAt text.utf8ByteSize) hspell trivial hat
    (by rw [← runOver_eq_readAll]; exact hrefused)
  rw [← runOver_eq_readAll, ← findingsOf_eq_found] at hfound
  obtain ⟨letToken, token, rest, hdrop, htoken, -⟩ := exists_second hspells
  let declaration : Declaration := ⟨source.second.text, .variableDef, token.start, scope⟩
  have hmem : ⟨declaration, true⟩ ∈ findingsOf maxDepth text := by
    rw [hfound, hdrop]
    simp [expected, declaration, LocalBinding.pieces, LocalPattern.pieces, binding, Piece.findings,
      Mark.finding, Piece.fixed, Piece.silent]
  refine ⟨declaration.toTag (.ofText text), ?_, token, htoken, rfl, rfl⟩
  rw [extract_tags_eq]
  exact List.mem_append_right _ (List.mem_filterMap.mpr ⟨_, hmem, rfl⟩)

/-- **In a pattern** the second binding is not noticed. -/
theorem not_tagged_inPattern (hleave : ending.leave = some after)
    (hpattern : after.inPattern = true) {tag : Tag}
    (htag : tag ∈ (extract { localBindings := true, maxDepth } text).tags) {token : Token}
    (htoken : (tokenize text)[source.upToSecond.length]? = some token) :
    tag.offset ≠ token.start := by
  obtain ⟨inPattern, left⟩ := after
  obtain rfl : inPattern = true := hpattern
  have hlet : PassesWords [.fixed .kwLet] (Ending.Starts ⟨true, left⟩ [source.frame])
      fun view => ∃ frames, At .pattern frames view :=
    PassesWords.starting fun upper _ =>
      (passes_inPattern (.fixed .kwLet) (by decide) _).weaken fun _ hm => ⟨_, hm⟩
  have hpasses : PassesWords source.upToSecond (Settled []) fun view =>
      ∃ frames, At .pattern frames view := (source.passes_upToIn h hleave).seq hlet
  obtain ⟨frames, hat⟩ := reached_of_passes hpasses source.upToSecond_prefix hspells hrefused
  obtain ⟨finding, hfinding, hwanted⟩ : ∃ finding ∈ findingsOf maxDepth text,
      Finding.tag? { localBindings := true, maxDepth } (.ofText text) finding = some tag := by
    rw [extract_tags_eq] at htag
    exact List.mem_filterMap.mp htag
  have hoffset : tag.offset = finding.declaration.offset := by
    obtain ⟨-, htoTag⟩ := Option.ite_none_right_eq_some.mp hwanted
    exact (congrArg Tag.offset (Option.some_inj.mp htoTag)).symm
  obtain ⟨_, other, _, -, hother, hspelled⟩ := exists_second hspells
  obtain rfl : token = other := Option.some_inj.mp (htoken.symm.trans hother)
  have hstep := reached_succ maxDepth htoken
  have hreads := reads_inPattern source.second.word (by simp) frames _ [token]
    (((tokenize text).drop (source.upToSecond.length + 1)).headD (Token.endAt text.utf8ByteSize))
    (.cons hspelled .nil) trivial hat
  have hunrefused := reached_unrefused hrefused (source.upToSecond.length + 1)
  rw [hstep] at hunrefused
  obtain ⟨hafter, hfound⟩ := hreads hunrefused
  rw [hoffset]
  refine not_found_of_silent htoken ?_ ?_ hfinding
  · rw [hstep]
    exact hafter.staged
  · rw [hstep]
    exact hfound.trans (by simp [expected, Piece.silent, Piece.findings])

end Text

end FinishedBinding

/-! ## Main theorems -/

/-- **Finished bindings.**  Unless a frame did not fit, a local binding leaves no scope behind
if no `try` in what it binds is in parentheses and all that is tried are operands.  Whatever
it binds, it leaves none just if the ending is clean that is computed from it; and where no
ending can be computed, even the function is out of view before the binding is finished.  A
frame of room for each word is enough. -/
theorem extract_finishedBinding (source : FinishedBinding) (maxDepth : Nat) {text : String}
    (hspells : List.Forall₂ Token.Spells (tokenize text) source.words) :
    (source.words.length ≤ maxDepth →
        (extract { localBindings := true, maxDepth } text).diagnostics = []) ∧
      ((extract { localBindings := true, maxDepth } text).diagnostics = [] →
        (source.bound.isTame = true → source.LeavesNoScope maxDepth text) ∧
        (∀ ending, source.ending = some ending →
          (source.LeavesNoScope maxDepth text ↔ ending.isClean = true)) ∧
        (source.ending = none → ∃ n, source.upToFirst.length < n ∧ n < source.upToIn.length ∧
          visibleNames maxDepth text n = [])) := by
  refine ⟨fun hroom => ?_, fun hfits => ?_⟩
  · exact diagnostics_eq_nil_of_room (hspells.length_eq.trans_le hroom)
  have hrefused := (diagnostics_eq_nil_iff _ _).mp hfits
  have hfirst := FinishedBinding.visibleNames_first hspells hrefused
  have hiff : ∀ ending, source.ending = some ending →
      (source.LeavesNoScope maxDepth text ↔ ending.isClean = true) := by
    intro ending h
    unfold Ending.isClean
    cases hleave : ending.leave with
    | none =>
        have hlost := FinishedBinding.visibleNames_second_lost hspells hrefused h hleave
        simp only [Option.any_none, Bool.false_eq_true, iff_false]
        intro hleaves
        have hnames := hleaves.names
        rw [hlost, hfirst] at hnames
        cases hnames
    | some after =>
        have hnames := FinishedBinding.visibleNames_second hspells hrefused h hleave
        rw [Option.any_some, Bool.and_eq_true, Bool.not_eq_true', ← hnames, ← hfirst]
        constructor
        · intro hleaves
          refine ⟨?_, hleaves.names⟩
          obtain ⟨tag, htag, token, htoken, hoffset, -⟩ := hleaves.tagged
          cases hpattern : after.inPattern with
          | false => rfl
          | true =>
              exact absurd hoffset (FinishedBinding.not_tagged_inPattern hspells hrefused h hleave
                hpattern htag htoken)
        · rintro ⟨hpattern, hsame⟩
          have hunnamed := hnames.mp (hsame.trans hfirst)
          exact ⟨hsame, FinishedBinding.tagged_of_clean hspells hrefused h hleave hpattern hunnamed⟩
  refine ⟨fun htame => ?_, hiff, FinishedBinding.visibleNames_midway hspells hrefused⟩
  obtain ⟨laid, hlaid, hending⟩ := BoundExpr.lays_of_isTame htame [.bound]
  exact (hiff _ hending).mpr (Ending.isClean_of_unnamed hlaid)

/-- A `try` whose handler is an `if` with a binding in it. -/
theorem extract_finishedBinding_try :
    let lower (c : Char) (hname : startsWord c = true)
        (hkind : wordKind (String.ofList [c]) = .ident)
        (hlower : startsUpper (String.ofList [c]) = false) : LowerName :=
      ⟨⟨String.ofList [c], stands_word hname (by simp) hkind⟩, hlower⟩
    let x : BoundExpr := .ident (lower 'x' rfl rfl rfl).toLexeme
    let one : Lexeme .literal := ⟨String.ofList ['1'], stands_number rfl (by simp)⟩
    let inner : BoundExpr := .letIn ⟨false, lower 'c' rfl rfl rfl, []⟩ (.literal one) x
    let source : FinishedBinding :=
      ⟨lower 'f' rfl rfl rfl, lower 'a' rfl rfl rfl,
        .tryWith x (.ifThenElse x inner (.parens x)), lower 'b' rfl rfl rfl, one⟩
    let text :=
      "let f () = let a = try x with _ -> if x then let c = 1 in x else (x) in let b = 1 in b"
    List.Forall₂ Token.Spells (tokenize text) source.words ∧ source.LeavesNoScope 256 text := by
  intro lower x one inner source text
  have hspells : List.Forall₂ Token.Spells (tokenize text) source.words := by
    decide +kernel
  obtain ⟨hroom, hleaves⟩ := extract_finishedBinding source 256 hspells
  exact ⟨hspells, (hleaves (hroom (by decide))).1 rfl⟩

/-- Of the tried `if` a mark is left, which `with` takes off for the frame of the `try`.  Where
a `try` in parentheses is asked for, the `in` behind it takes off the frame of the binding,
and so the next one that of the function. -/
theorem try_leaves_scope :
    let tags (bound : String) :=
      (extract { localBindings := true }
        ("let f () = let a = " ++ bound ++ " in let b = 1 in b")).tags
    (tags "try if x then y else z with _ -> w").map Tag.content =
        [("f", .functionDef, none), ("a", .variableDef, some ⟨.functionDef, "f"⟩),
          ("b", .variableDef, some ⟨.valSpec, "f/a"⟩)] ∧
      (tags "if (try x with _ -> y) then let c = 1 in c else d").map Tag.content =
        [("f", .functionDef, none), ("a", .variableDef, some ⟨.functionDef, "f"⟩),
          ("b", .variableDef, none)] := by
  decide +kernel

end CamlIndex
