import CamlIndex.Proofs.Histories
import CamlIndex.Proofs.Language.Reading
import CamlIndex.Proofs.Pointing

/-!
# Qualified names of tags and of frames

A name is qualified in two places.  A frame gets its qualified name when it is
pushed, with the separator of the role of the frame around it.  A tag keeps its
scope apart and is qualified when it is listed, with the separator of the kind
of its scope.  There are more roles than kinds of scope: a block and a match are
no scopes, and their separators are known to frames alone.

The two agree because blocks and matches never have a name.  That is true of
every frame that a rule pushes (`Frame.IsProper`), so it is true of every frame
on the way of any rule (`Walk.keeps_frames`), whatever has been read before.

* `Machine.MetIn.isScope` — every named frame of a machine that is met while a text
  is read is that of a scope;
* `names_agree` — so a tag has a scope if and only if some frame has a name, and
  the qualified name of a tag is the name of the frame that would be pushed for it.
-/

namespace CamlIndex

/-- A frame with a name is that of a scope. -/
def Frame.IsScope (frame : Frame) : Prop :=
  frame.isNamed = true → frame.role ≠ .blockScope ∧ frame.role ≠ .matchScope

/-- A frame that a rule pushes is that of a scope if it has a name. -/
theorem Frame.IsProper.isScope {boundary : Bool} {role : Role} {resume : Mode} {name : String}
    (h : Frame.IsProper boundary role resume name) (stack : ScopeStack) :
    Frame.IsScope ⟨boundary, role, resume, stack.qualify name⟩ := by
  intro hnamed
  have hname : name ≠ "" := by
    rintro rfl
    simp [Frame.isNamed, ScopeStack.qualify] at hnamed
  exact ⟨fun hrole => hname (h.block_unnamed hrole),
    fun hrole => hname (h.match_soft hrole).2.2⟩

/-- Where all named frames are those of scopes, there is a scope to declare in. -/
theorem exists_scoped {frames : List Frame} (h : ∀ frame ∈ frames, frame.IsScope) :
    ∃ scope, Scoped frames scope := by
  induction frames with
  | nil => exact ⟨none, .outside⟩
  | cons frame frames ih =>
      obtain ⟨scope, hscoped⟩ := ih fun other hother => h other (List.mem_cons_of_mem _ hother)
      by_cases hname : frame.name = ""
      · exact ⟨scope, .mark hname hscoped⟩
      · obtain ⟨hblock, hmatch⟩ := h frame List.mem_cons_self (by simpa [Frame.isNamed] using hname)
        obtain ⟨kind, hkind⟩ : ∃ kind, frame.role.scopeKind? = some kind := by
          cases hrole : frame.role with
          | blockScope => exact absurd hrole hblock
          | matchScope => exact absurd hrole hmatch
          | _ => exact ⟨_, rfl⟩
        exact ⟨some ⟨kind, frame.name⟩, .named hname hkind⟩

/-- There is a scope if and only if a frame has a name. -/
theorem Scoped.isSome_iff {frames : List Frame} {scope : Option Scope} (h : Scoped frames scope) :
    scope.isSome = true ↔ ∃ frame ∈ frames, frame.isNamed = true := by
  induction h with
  | outside => simp
  | mark hunnamed _ ih => simpa [Frame.isNamed, hunnamed] using ih
  | named hnamed _ => simp [Frame.isNamed, hnamed]

namespace Machine

/-! ## Frames on the way of a rule -/

/-- A way leaves frames that were there and frames that rules push. -/
theorem Walk.keeps_frames {P : Frame → Prop} {m after : Machine} {room : Nat}
    (walk : Walk m room after)
    (hpush : ∀ {boundary role resume name}, Frame.IsProper boundary role resume name →
      ∀ stack : ScopeStack, P ⟨boundary, role, resume, stack.qualify name⟩)
    (h : ∀ frame ∈ m.stack.frames, P frame) : ∀ frame ∈ after.stack.frames, P frame := by
  have hunwound : ∀ {before after : Machine}, Unwound before after →
      (∀ frame ∈ before.stack.frames, P frame) → ∀ frame ∈ after.stack.frames, P frame := by
    rintro before _ ⟨hsuffix, -⟩ ih frame hframe
    exact ih frame (hsuffix.subset hframe)
  induction walk with
  | start => exact h
  | control _ hstack _ _ _ ih =>
      rw [hstack]
      exact ih
  | @push _ before boundary role resume name _ hproper ih =>
      cases hfull : before.stack.isFull with
      | true =>
          rw [push_of_isFull _ _ _ _ _ hfull]
          exact ih
      | false =>
          rw [push_of_not_isFull _ _ _ _ _ hfull]
          exact List.forall_mem_cons.mpr ⟨hpush hproper before.stack, ih⟩
  | @popToNamed _ before _ ih => exact hunwound before.unwound_popToNamed ih
  | @pop _ before _ ih => exact hunwound before.unwound_pop ih
  | @popBoundary _ before _ ih => exact hunwound before.unwound_popBoundary ih
  | @returnToMatch _ before _ ih =>
      rcases before.unwound_returnToMatch with hsame | hleft
      · rwa [hsame]
      · exact hunwound hleft ih

/-- Every rule says what it has to say and then takes its way, from the same stack. -/
theorem dispatch_way (m : Machine) (current next : Token) :
    ∃ heard, heard.stack = m.stack ∧ Walk heard 1 (m.dispatch current next) := by
  obtain ⟨notes, staged, hcourse⟩ := dispatch_course m current next
  exact ⟨{ m with notes, staged }, rfl, hcourse.walk_of_counted⟩

/-- What rules keep of the frames, runs keep. -/
theorem keeps_frames_readAll {P : Frame → Prop}
    (hpush : ∀ {boundary role resume name}, Frame.IsProper boundary role resume name →
      ∀ stack : ScopeStack, P ⟨boundary, role, resume, stack.qualify name⟩)
    {m : Machine} (h : ∀ frame ∈ m.stack.frames, P frame) (last : Token) (tokens : List Token) :
    ∀ frame ∈ (m.readAll last tokens).stack.frames, P frame := by
  induction tokens generalizing m with
  | nil => exact h
  | cons token rest ih =>
      apply ih
      rw [(step_fields m token (rest.headD last)).2.1]
      obtain ⟨heard, hstack, hwalk⟩ :=
        dispatch_way { m with offset := token.start } token (rest.headD last)
      exact hwalk.keeps_frames hpush (hstack ▸ h)

/-- The machines that may be met while a text is read: those between two tokens, and
all that lie on a way from there, such as the way of the rule that reads the next
token (`dispatch_way`). -/
def MetIn (capacity : Nat) (text : String) (m : Machine) : Prop :=
  ∃ front back heard room, tokenize text = front ++ back ∧
    heard.stack = (partway capacity text front back).stack ∧ Walk heard room m

/-- **Blocks and matches have no name**, at any time. -/
theorem MetIn.isScope {capacity : Nat} {text : String} {m : Machine} (h : m.MetIn capacity text) :
    ∀ frame ∈ m.stack.frames, frame.IsScope := by
  obtain ⟨front, back, heard, room, -, hstack, hwalk⟩ := h
  have hreached : ∀ frame ∈ (partway capacity text front back).stack.frames, frame.IsScope :=
    keeps_frames_readAll Frame.IsProper.isScope (fun _ hframe => by cases hframe) _ front
  exact hwalk.keeps_frames Frame.IsProper.isScope (hstack ▸ hreached)

/-- The machine between two tokens is met. -/
theorem metIn_partway {text : String} {front back : List Token} (h : tokenize text = front ++ back)
    (capacity : Nat) : (partway capacity text front back).MetIn capacity text :=
  ⟨front, back, _, 0, h, rfl, .start⟩

/-- What is true of the names that a machine gives to tags and to frames. -/
structure NamesAgree (text : String) (m : Machine) : Prop where
  roles : ∀ frame ∈ m.stack.frames, frame.isNamed = true →
    frame.role ≠ .blockScope ∧ frame.role ≠ .matchScope
  scope : ∀ name token kind, ((m.declaration name token kind).toTag (.ofText text)).scope.isSome =
    true ↔ ∃ frame ∈ m.stack.frames, frame.isNamed = true
  qualified : ∀ name token kind boundary role resume, name ≠ "" → m.stack.isFull = false →
    (m.stack.push boundary role resume name).frames =
      ⟨boundary, role, resume,
        ((m.declaration name token kind).toTag (.ofText text)).qualifiedName⟩ :: m.stack.frames

/-- The name of a tag is qualified as that of a frame would be. -/
theorem qualifiedName_declaration {m : Machine} {scope : Option Scope}
    (h : Scoped m.stack.frames scope) {name : String} (hname : name ≠ "") (token : Token)
    (kind : Kind) (lines : LineTable) :
    ((m.declaration name token kind).toTag lines).qualifiedName = m.stack.qualify name := by
  change m.stack.scope?.elim name (·.qualify name) = _
  rw [h.scope?, h.qualify hname]

theorem MetIn.namesAgree {capacity : Nat} {text : String} {m : Machine}
    (h : m.MetIn capacity text) : m.NamesAgree text := by
  obtain ⟨scope, hscoped⟩ := exists_scoped h.isScope
  refine ⟨h.isScope, ?_, ?_⟩
  · intro name token kind
    change m.stack.scope?.isSome = true ↔ _
    rw [hscoped.scope?]
    exact hscoped.isSome_iff
  · intro name token kind boundary role resume hname hroom
    rw [qualifiedName_declaration hscoped hname, ScopeStack.push, if_neg (by simp [hroom])]

end Machine

/-- **Tags and frames agree on names.**  A machine that is met while a text is read
has no name on a block or a match; it declares in a scope if and only if a frame has a
name; and a tag that it makes has the qualified name that a frame of the same name
gets.  All tags that come from the text are made by such machines, each at its token. -/
theorem names_agree (options : Options) (text : String) :
    (∀ m : Machine, m.MetIn options.maxDepth text → m.NamesAgree text) ∧
      ∀ tag ∈ ownTags options text, ∃ front token back, tokenize text = front ++ token :: back ∧
        tag = ((Machine.partway options.maxDepth text front (token :: back)).declaration
          tag.name token tag.kind).toTag (.ofText text) := by
  refine ⟨fun m hmet => hmet.namesAgree, fun tag htag => ?_⟩
  obtain ⟨front, token, back, ⟨name, kind, offset, scope⟩, hsplit, hnamed, hscope, rfl⟩ :=
    mem_ownTags htag
  refine ⟨front, token, back, hsplit, ?_⟩
  cases hnamed.offset
  cases hscope
  rfl

theorem names_agree_structure :
    let text := "module M = struct let x = 1 end"
    let inside := Machine.partway 256 text ((tokenize text).take 5) ((tokenize text).drop 5)
    inside.MetIn 256 text ∧ inside.stack.frames.map Frame.name = ["M"] ∧
      (inside.stack.push true .valueScope .topLevel "x").frames.map Frame.name = ["M/x", "M"] := by
  intro text inside
  have hmet : inside.MetIn 256 text :=
    Machine.metIn_partway (List.take_append_drop 5 (tokenize text)).symm 256
  have hframes : inside.stack.frames.map Frame.name = ["M"] := by decide +kernel
  refine ⟨hmet, hframes, ?_⟩
  have hagree := ((names_agree { maxDepth := 256 } text).1 inside hmet).qualified "x"
    (Token.endAt 31) .variableDef true .valueScope .topLevel (by decide) (by decide +kernel)
  have hname : ((inside.declaration "x" (Token.endAt 31) .variableDef).toTag
      (.ofText text)).qualifiedName = "M/x" := by decide +kernel
  rw [hagree, List.map_cons, hframes, hname]

end CamlIndex
