import CamlIndex.Proofs.Language.Agreement
import CamlIndex.Proofs.Language.Wording

/-!
# Declarations inside modules

A `Nesting` is made of the modules around a place, each with the declarations
that follow its `end`.  The traversal has a scope for them, and the machine a frame
for each.  Whether the machine keeps to the modules of the text is another
matter: `Nesting.closing` gives the words behind the place as they are read with
some modules on the stack, be these the right ones or not.

* `Nesting.reads_opening`, `Nesting.reads_closing` — the words before and behind
  the place;
* `LetItem.reads` — a `let` between declarations, from wherever it can begin;
* `extract_of_reads` — from what a machine reads to the tags of a text.
-/

namespace CamlIndex

/-! ## Modules around a place -/

namespace Nesting

/-- The frames of the modules. -/
def frames : Nesting → List Frame
  | .outside => []
  | .inside name _ outer => .declared .moduleScope outer.scope name.text :: outer.frames

theorem frames_scoped (levels : Nesting) : Scoped levels.frames levels.scope := by
  cases levels with
  | outside => exact .outside
  | inside name _ outer => exact .declared rfl outer.scope outer.frames name.stands.ne_empty

theorem reads_opening (levels : Nesting) :
    Reads levels.opening anyKind (Settled []) (Settled levels.frames) := by
  induction levels with
  | outside => exact Reads.nil _ _
  | inside name _ outer ih =>
      have hscoped := outer.frames_scoped
      have hstruct := (reads_moduleBody (.inl rfl) (by decide) hscoped name).weaken
        fun _ hm => hm.toBegun.settled
      have hbody := Reads.cons (reads_moduleMark (.inr rfl) (by decide) name.text outer.frames)
        hstruct
      have hname := (reads_moduleName hscoped name).append hbody fun _ h => .inr h
      exact ih.seq (Reads.cons (reads_start (by decide) (by decide) outer.frames) hname)

end Nesting

/-- With no module around, an `end` closes nothing but the ended declaration. -/
theorem Ready.closeEnd_outside {m : Machine} (h : Ready [] m.view) :
    ∃ stack, m.closeEnd = ({ m with stack, mode := .topLevel }, none) ∧
      stack.frames = [] ∧ m.staged = none := by
  have hnone : ∀ other : Machine, other.stack.frames = [] → other.boundaryRole? = none ∧
      other.popBoundary = { other with
        stack := { other.stack with frames := [] }, mode := .topLevel } := by
    intro other hframes
    simp [Machine.boundaryRole?, Machine.popBoundary, ScopeStack.popBoundary, hframes]
  cases h with
  | clear _ hat =>
      obtain ⟨hrole, hpop⟩ := hnone m hat.frames
      refine ⟨{ m.stack with frames := [] }, ?_, rfl, hat.staged⟩
      rw [Machine.closeEnd, hrole, hpop]
  | @waiting inner hendless _ hover =>
      obtain ⟨hinner, hleft⟩ := hover.popBoundary hendless.boundary
      obtain ⟨hrole, hpop⟩ := hnone m.popBoundary hleft.frames
      refine ⟨{ m.popBoundary.stack with frames := [] }, ?_, rfl, hleft.staged⟩
      rw [hendless.closeEnd hinner, hrole, hpop]
      rfl

/-- An `end` that closes nothing leaves the ended declaration alone. -/
theorem reads_strayEnd :
    Reads [.fixed .kwEnd] anyKind (Settled []) (Begun .topLevel []) := by
  apply Reads.silent
  intro m token following hspells _ hm _
  have hkind : token.kind = .kwEnd := hspells.1
  have hfollows : token.kind ∈ followers := by
    rw [hkind]
    decide
  obtain ⟨ready, hdispatch, hready, hfound, -⟩ := hm.dispatch (.inl hfollows)
  obtain ⟨stack, hclosed, hframes, hstaged⟩ := hready.closeEnd_outside
  rw [hdispatch, ← hfound]
  unfold Machine.atTopLevel
  rw [hkind]
  dsimp only
  rw [Machine.readEnd, hclosed]
  exact ⟨⟨⟨rfl, hframes, hstaged⟩, rfl⟩, rfl⟩

namespace Nesting

/-- The innermost boundary is that of the innermost module. -/
theorem popBoundary {m : Machine} {mode : Mode} (opened : Nesting)
    (h : At mode opened.frames m.view) :
    m.closeEnd = (m.popBoundary, m.boundaryRole?) ∧
      At .topLevel opened.left.frames m.popBoundary.view := by
  cases opened with
  | outside =>
      have hframes : m.stack.frames = [] := h.frames
      have hrole : m.boundaryRole? = none := by
        simp [Machine.boundaryRole?, ScopeStack.popBoundary, hframes]
      refine ⟨by rw [Machine.closeEnd, hrole], ?_, ?_, h.staged⟩ <;>
        simp [Machine.view, Machine.popBoundary, ScopeStack.popBoundary, hframes, left, frames]
  | inside name _ outer =>
      have hended := Frame.ended_declared (.inr rfl) outer.scope name.text
      obtain ⟨hrole, hpopped⟩ := Over.popBoundary hended.boundary h.over
      exact ⟨by rw [Machine.closeEnd_of_role hrole (.inr hended.role), hrole], hpopped⟩

theorem leads_closing (levels opened : Nesting) {kind : TokenKind}
    (h : Leads (closing levels opened) Apart kind) : Apart kind := by
  cases levels with
  | outside => exact h
  | inside _ _ _ =>
      have hend : kind = .kwEnd := h
      simp [hend, Apart]

/-- What follows an `end` keeps apart from it. -/
theorem leads_after (after : Program) (levels opened : Nesting) {scope : Option Scope}
    {kind : TokenKind} (h : Leads (after.pieces scope ++ closing levels opened) Apart kind) :
    Apart kind := by
  cases after with
  | empty => exact leads_closing levels opened h
  | more item items =>
      rw [Program.pieces, List.append_assoc] at h
      exact item.leads h

/-- An `end` leaves the innermost of the modules on the stack, if there is one. -/
theorem reads_leave (opened : Nesting) :
    Reads [.fixed .kwEnd] Apart (Settled opened.frames) (Settled opened.left.frames) := by
  cases opened with
  | outside => exact (reads_strayEnd.weaken fun _ hm => hm.settled).narrow fun _ _ => trivial
  | inside name _ outer =>
      exact (reads_end (Frame.ended_declared (.inr rfl) outer.scope name.text) _).weaken
        fun _ hm => hm.settled

/-- **The words that close modules** take off a frame for each `end`, as long as
there are frames. -/
theorem reads_closing (levels opened : Nesting) :
    Reads (closing levels opened) Apart (Settled opened.frames)
      fun view => ∃ left : Nesting, Settled left.frames view := by
  induction levels generalizing opened with
  | outside => exact (Reads.nil _ _).weaken fun _ hm => ⟨opened, hm⟩
  | inside _ after outer ih =>
      have hafter := (after.reads opened.left.frames_scoped).append (ih opened.left)
        fun _ h => leads_closing outer opened.left h
      exact (reads_leave opened).append hafter fun _ h => leads_after after outer opened.left h

/-- Declarations and then the words that close the modules around them. -/
theorem reads_behind (behind : Program) (levels opened : Nesting) :
    Reads (behind.pieces opened.scope ++ closing levels opened) Apart (Settled opened.frames)
      fun view => ∃ left : Nesting, Settled left.frames view :=
  (behind.reads opened.frames_scoped).append (levels.reads_closing opened)
    fun _ h => leads_closing levels opened h

theorem closing_eq (levels opened : Nesting) :
    levels.closing opened = levels.closingTo opened.left := by
  cases levels <;> rfl

/-- The words that close modules, from any condition in which `end` leaves one thing. -/
theorem reads_closingTo (levels left : Nesting) {before : View → Prop}
    (hend : Reads [.fixed .kwEnd] Apart before (Settled left.frames)) :
    Reads (levels.closingTo left) Apart before fun _ => True := by
  cases levels with
  | outside => exact (Reads.nil _ _).weaken fun _ _ => trivial
  | inside _ after outer =>
      have hclosing := hend.append (reads_behind after outer left)
        fun _ h => leads_after after outer left h
      exact hclosing.weaken fun _ _ => trivial

theorem reads_closingFrom (levels opened : Nesting) {before : View → Prop}
    (hend : Reads [.fixed .kwEnd] Apart before (Settled opened.left.frames)) :
    Reads (closing levels opened) Apart before fun _ => True := by
  rw [closing_eq]
  exact levels.reads_closingTo opened.left hend

end Nesting

/-- The words that close modules are the same whatever is on the stack, apart from scopes. -/
theorem Nesting.unscoped_closing (levels opened opened' : Nesting) :
    (levels.closing opened).map Piece.unscoped = (levels.closing opened').map Piece.unscoped := by
  induction levels generalizing opened opened' with
  | outside => rfl
  | inside _ after outer ih =>
      simp [closing, after.unscoped_pieces opened.left.scope opened'.left.scope,
        ih opened.left opened'.left]

theorem Nesting.unscoped_closingTo (levels left left' : Nesting) :
    (levels.closingTo left).map Piece.unscoped = (levels.closingTo left').map Piece.unscoped := by
  cases levels with
  | outside => rfl
  | inside _ after outer =>
      simp [closingTo, after.unscoped_pieces left.scope left'.scope,
        outer.unscoped_closing left left']

theorem Nesting.words_closing (levels opened opened' : Nesting) :
    (levels.closing opened).map Piece.word = (levels.closing opened').map Piece.word :=
  words_eq_of_unscoped (levels.unscoped_closing opened opened')

/-! ## Bindings between declarations -/

/-- A declaration that begins with `let`. -/
inductive LetItem where
  | binding (header : Header) (body : Body)
  | unit (body : Body)
  | wildcard (body : Body)

def LetItem.toItem : LetItem → Item
  | .binding header body => .binding header body
  | .unit body => .unit body
  | .wildcard body => .wildcard body

/-- Bindings one after the other. -/
def letPieces (scope : Option Scope) (items : List LetItem) : List Piece :=
  items.flatMap fun item => item.toItem.pieces scope

theorem letPieces_cons (scope : Option Scope) (item : LetItem) (items : List LetItem) :
    letPieces scope (item :: items) = item.toItem.pieces scope ++ letPieces scope items := rfl

/-- Bindings as declarations. -/
def Program.ofLets (items : List LetItem) : Program :=
  items.foldr (fun item => .more item.toItem) .empty

@[simp] theorem Program.pieces_ofLets (scope : Option Scope) (items : List LetItem) :
    (Program.ofLets items).pieces scope = letPieces scope items := by
  induction items with
  | nil => rfl
  | cons item items ih =>
      rw [letPieces_cons, ← ih]
      rfl

theorem unscoped_letPieces (scope other : Option Scope) (items : List LetItem) :
    (letPieces scope items).map Piece.unscoped = (letPieces other items).map Piece.unscoped := by
  simp [letPieces, List.map_flatMap, fun item : Item => item.unscoped_pieces scope other]

theorem words_letPieces (scope other : Option Scope) (items : List LetItem) :
    (letPieces scope items).map Piece.word = (letPieces other items).map Piece.word :=
  words_eq_of_unscoped (unscoped_letPieces scope other items)

/-- A binding is read from any condition in which `let` begins a declaration. -/
theorem LetItem.reads {frames : List Frame} {scope : Option Scope} (hscoped : Scoped frames scope)
    {before : View → Prop}
    (hlet : Reads [.fixed .kwLet] anyKind before (Begun .letName frames)) (item : LetItem) :
    Reads (item.toItem.pieces scope) anyKind before (Settled frames) := by
  cases item with
  | binding header body =>
      exact Reads.cons hlet ((header.reads_bound hscoped body).mono fun _ hm => hm.toAt)
  | unit body => exact Reads.cons hlet (reads_unitBound hscoped body)
  | wildcard body => exact Reads.cons hlet (reads_wildcardBound hscoped body)

theorem reads_letPieces {frames : List Frame} {scope : Option Scope}
    (hscoped : Scoped frames scope) (items : List LetItem) :
    Reads (letPieces scope items) anyKind (Settled frames) (Settled frames) := by
  induction items with
  | nil => exact Reads.nil _ _
  | cons item items ih => exact (item.reads hscoped (reads_startLet frames)).seq ih

/-- Bindings are read from any condition in which `let` begins a declaration. -/
theorem reads_letPiecesFrom {frames : List Frame} {scope : Option Scope}
    (hscoped : Scoped frames scope) {before : View → Prop}
    (hlet : Reads [.fixed .kwLet] anyKind before (Begun .letName frames)) (items : List LetItem) :
    Reads (letPieces scope items) anyKind before
      fun view => if items.isEmpty then before view else Settled frames view := by
  cases items with
  | nil => exact Reads.nil _ _
  | cons item items => exact (item.reads hscoped hlet).seq (reads_letPieces hscoped items)

/-- Bindings and then the words that close modules, from any condition in which
`let` begins a declaration and `end` leaves a module. -/
theorem reads_letPiecesClosing (levels opened : Nesting) {before : View → Prop}
    (hlet : Reads [.fixed .kwLet] anyKind before (Begun .letName opened.frames))
    (hend : Reads [.fixed .kwEnd] Apart before (Settled opened.left.frames))
    (items : List LetItem) :
    Reads (letPieces opened.scope items ++ levels.closing opened) Apart before
      fun _ => True := by
  cases items with
  | nil => exact levels.reads_closingFrom opened hend
  | cons item items =>
      have hscoped := opened.frames_scoped
      have hitems := (item.reads hscoped hlet).seq (reads_letPieces hscoped items)
      exact hitems.seq ((levels.reads_closing opened).weaken fun _ _ => trivial)

/-! ## Tags -/

/-- The tags of pieces whose words start at the given offsets of a text. -/
def markedTags (pieces : List Piece) (localBindings : Bool) (text : String) (starts : List Nat) :
    List Tag :=
  (pieces.zip starts).filterMap fun (piece, start) =>
    piece.mark.bind (·.tag? localBindings (.ofText text) start)

/-- Words that are laid out are spelled by the tokens. -/
theorem spell_of_laidOut {pieces : List Piece} {text : String} {starts : List Nat}
    (hlaid : LaidOut 0 (pieces.map Piece.word) starts text.toList) : Spell (tokenize text) pieces :=
  List.forall₂_map_right_iff.mp (tokenize_laidOut hlaid).1

/-- All words can be spelled. -/
theorem spell_spaced (pieces : List Piece) :
    Spell (tokenize (String.ofList (spaced (pieces.map Piece.word)))) pieces := by
  apply spell_of_laidOut
  rw [String.toList_ofList]
  exact laidOut_spaced 0 _

/-- A frame of room for each word of a text is enough. -/
theorem diagnostics_of_spell {pieces : List Piece} {text : String}
    (hspell : Spell (tokenize text) pieces) (localBindings : Bool) {maxDepth : Nat}
    (hroom : pieces.length ≤ maxDepth) :
    (extract { localBindings, maxDepth } text).diagnostics = [] := by
  have htokens : (tokenize text).length ≤ maxDepth := hspell.length_eq ▸ hroom
  exact @diagnostics_eq_nil_of_room { localBindings, maxDepth } text htokens

theorem diagnostics_of_laidOut {pieces : List Piece} {text : String} {starts : List Nat}
    (hlaid : LaidOut 0 (pieces.map Piece.word) starts text.toList) (localBindings : Bool)
    {maxDepth : Nat} (hroom : pieces.length ≤ maxDepth) :
    (extract { localBindings, maxDepth } text).diagnostics = [] :=
  diagnostics_of_spell (spell_of_laidOut hlaid) localBindings hroom

/-- **What a machine reads** in a text is what the text has for tags. -/
theorem tags_of_start {pieces : List Piece} {after : View → Prop}
    (hreads : Reads pieces Apart (Begun .topLevel []) after) {text : String}
    (hspell : Spell (tokenize text) pieces) (localBindings : Bool) {maxDepth : Nat}
    (hfits : (extract { localBindings, maxDepth } text).diagnostics = []) :
    (extract { localBindings, maxDepth } text).tags =
      markedTags pieces localBindings text ((tokenize text).map Token.start) := by
  have hrefused := (diagnostics_eq_nil_iff _ _).mp hfits
  have hbefore : Begun .topLevel [] (Machine.start maxDepth).view := ⟨⟨rfl, rfl, rfl⟩, rfl⟩
  have hlast : Apart (Token.endAt text.utf8ByteSize).kind := ⟨nofun, nofun⟩
  obtain ⟨-, hfound⟩ := hreads _ _ _ hspell hlast hbefore hrefused
  have hfindings : findingsOf maxDepth text = expected (tokenize text) pieces := by
    rw [findingsOf, Machine.read_ofText, ← Machine.found_eq_confirm, hfound]
    rfl
  rw [extract_tags_eq, hfindings, tags_expected]
  rfl

theorem tags_of_reads {pieces : List Piece} {after : View → Prop}
    (hreads : Reads pieces Apart (Settled []) after) {text : String}
    (hspell : Spell (tokenize text) pieces) (localBindings : Bool) {maxDepth : Nat}
    (hfits : (extract { localBindings, maxDepth } text).diagnostics = []) :
    (extract { localBindings, maxDepth } text).tags =
      markedTags pieces localBindings text ((tokenize text).map Token.start) :=
  tags_of_start (hreads.mono fun _ hm => Begun.settled hm) hspell localBindings hfits

theorem extract_of_reads {pieces : List Piece} {after : View → Prop}
    (hreads : Reads pieces Apart (Settled []) after) {text : String} {starts : List Nat}
    (hlaid : LaidOut 0 (pieces.map Piece.word) starts text.toList) (localBindings : Bool)
    {maxDepth : Nat} (hfits : (extract { localBindings, maxDepth } text).diagnostics = []) :
    (extract { localBindings, maxDepth } text).tags =
      markedTags pieces localBindings text starts := by
  rw [tags_of_reads hreads (spell_of_laidOut hlaid) localBindings hfits, (tokenize_laidOut hlaid).2]

end CamlIndex
