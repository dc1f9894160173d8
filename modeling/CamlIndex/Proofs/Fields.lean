import CamlIndex.Listing.Ctags
import CamlIndex.Proofs.Naming
import CamlIndex.Proofs.Pointing
import CamlIndex.Proofs.Qualifying

/-!
# Tags in lines and fields

A tag file has a line for each tag and a field for each thing that it says about the
tag.  That works as long as no field holds a tab, a carriage return or a newline.
The names of tags never do.  The name of a scope does, though, where a string or a
character is bound in place of a variable: a literal may run over several lines, and
it names a frame like any other token behind `let`.

It is the only way.  No other token holds such a character
(`unbroken_of_mem_tokenize`), and names are made of tokens (`obeys_borrowing`).  So
whatever breaks the name of a frame stands in a literal that has opened this frame or
one further out (`exists_openedBy_of_break`).  And such a literal does break the name of
the scope for as long as its frame is there, since names are handed on from frame to
frame (`exists_nearest_of_mem`).

The other fields of a line are the path, a pattern made of the text of one line, a
letter and a number; `newline_mem_line` says that they add no newline.

* `break_mem_scope_iff` — the scope of a tag has the breaks of the literals around it;
* `extract_fitTagFile` — what fits, and that there is one line for each tag if and
  only if no such literal holds a newline;
* `literal_breaks_line` — a tag on two lines.
-/

namespace CamlIndex

/-- A character that ends a field or a line of a tag file. -/
def isBreak (c : Char) : Bool :=
  c ∈ ['\t', '\r', '\n']

/-- A text that fits into one field. -/
def Unbroken (name : String) : Prop :=
  ∀ c ∈ name.toList, isBreak c = false

/-! ## Tokens without breaks -/

theorem isBreak_iff {c : Char} : isBreak c = true ↔ c = '\t' ∨ c = '\r' ∨ c = '\n' := by
  simp [isBreak]

theorem unbroken_unit : Unbroken "()" := by
  simp [Unbroken, isBreak]

/-- A class of characters without breaks. -/
theorem not_isBreak {p : Char → Bool} (hp : p '\t' = false ∧ p '\r' = false ∧ p '\n' = false)
    {c : Char} (hc : p c = true) : isBreak c = false := by
  rw [Bool.eq_false_iff, ne_eq, isBreak_iff]
  rintro (rfl | rfl | rfl) <;> simp_all

/-- A run of characters of one class has no breaks. -/
theorem unbroken_run {p : Char → Bool} (hp : p '\t' = false ∧ p '\r' = false ∧ p '\n' = false)
    {first : Char} (hfirst : p first = true) (cs : List Char) :
    ∀ c ∈ first :: cs.takeWhile p, isBreak c = false := by
  intro c hc
  rcases List.mem_cons.mp hc with rfl | hc
  · exact not_isBreak hp hfirst
  · exact not_isBreak hp (List.all_eq_true.mp List.all_takeWhile c hc)

/-- A character that is a token by itself and no literal is no break. -/
theorem not_isBreak_of_characterKind {c : Char} (h : characterKind c ≠ .literal) :
    isBreak c = false := by
  rw [Bool.eq_false_iff, ne_eq, isBreak_iff]
  rintro (rfl | rfl | rfl) <;> exact h rfl

/-- **Only literals hold breaks.**  Words, operators and marks are made of other
characters. -/
theorem unbroken_of_readToken {c : Char} {cs : List Char} (h : (readToken c cs).1 ≠ .literal) :
    ∀ d ∈ c :: (readToken c cs).2, isBreak d = false := by
  unfold readToken at h ⊢
  by_cases hstring : c = '"'
  · simp [hstring] at h
  simp only [if_neg hstring] at h ⊢
  by_cases hword : startsWord c = true
  · simp only [if_pos hword]
    exact unbroken_run (by decide) (continuesWord_of_startsWord hword) cs
  simp only [if_neg hword] at h ⊢
  by_cases hdigit : c.isDigit = true
  · simp [hdigit] at h
  simp only [if_neg hdigit] at h ⊢
  by_cases hoperator : isOperatorChar c = true
  · simp only [if_pos hoperator]
    exact unbroken_run (by decide) hoperator cs
  simp only [if_neg hoperator] at h ⊢
  cases htail : if c = '\'' then characterTail? cs else none with
  | some tail => simp [htail] at h
  | none =>
      rw [htail] at h
      simpa using not_isBreak_of_characterKind h

theorem unbroken_of_mem_tokenize {text : String} {token : Token} (hmem : token ∈ tokenize text)
    (hkind : token.kind ≠ .literal) : Unbroken token.text := by
  obtain ⟨first, cs, hread, htext⟩ := Cursor.readToken_of_mem_tokens hmem
  rw [Unbroken, htext]
  exact unbroken_of_readToken (hread ▸ hkind)

/-! ## Frames that literals open -/

section Opening

variable (capacity : Nat) (text : String)

/-- A literal has opened a frame over the frames `below`: it was bound there and lent its
text to the frame, which has been there since.  So far `front` has been read. -/
def OpenedBy (front back : List Token) (literal : Token) (frame : Frame) (below : List Frame) :
    Prop :=
  ∃ before behind, front = before ++ literal :: behind ∧
    (Machine.partway capacity text before (literal :: behind ++ back)).Binds literal ∧
    (Machine.partway capacity text before (literal :: behind ++ back)).stack.frames = below ∧
    frame.name = ScopeStack.nameOver below literal.text ∧
    ∀ near far, behind = near ++ far → frame :: below <:+
      (Machine.partway capacity text (before ++ literal :: near) (far ++ back)).stack.frames

/-- The frames whose names have breaks from literals only. -/
def borrowing (front back : List Token) : FrameProperty where
  Own := Unbroken
  Holds frame below := ∃ own, frame.name = ScopeStack.nameOver below own ∧
    (Unbroken own ∨
      ∃ literal, literal.text = own ∧ OpenedBy capacity text front back literal frame below)
  empty := nofun
  unit := unbroken_unit
  pushed _ _ _ _ _ hown := ⟨_, rfl, .inl hown⟩

/-- The frames after a step: old ones, and new ones with a name of their own. -/
def renewed (m : Machine) (current : Token) : FrameProperty where
  Own := Unbroken
  Holds frame below := frame :: below <:+ m.stack.frames ∨
    ∃ own, frame.name = ScopeStack.nameOver below own ∧
      (Unbroken own ∨ own = current.text ∧ m.Binds current ∧ below = m.stack.frames)
  empty := nofun
  unit := unbroken_unit
  pushed _ _ _ _ _ hown := .inr ⟨_, rfl, .inl hown⟩

variable {capacity text} {front back : List Token}

/-- **A step** puts no breaks into names, unless it binds a literal. -/
theorem Machine.obeys_renewed {m : Machine} {current : Token}
    (hmodule : Unbroken m.moduleName) (hclass : Unbroken m.className)
    (hcurrent : current.kind ≠ .literal → Unbroken current.text) (next : Token) :
    Obeys (renewed m current) (m.step current next) := by
  have hbefore : Obeys (renewed m current) m := ⟨.inl, hmodule, hclass⟩
  exact hbefore.step current next hcurrent fun hbinds _ _ _ =>
    .inr ⟨current.text, rfl, .inr ⟨rfl, hbinds, rfl⟩⟩

/-- What is still there after one more token has stayed a little longer. -/
theorem OpenedBy.concat {token literal : Token} {frame : Frame} {below : List Frame}
    (h : OpenedBy capacity text front (token :: back) literal frame below)
    (hthere : frame :: below <:+
      (Machine.partway capacity text (front ++ [token]) back).stack.frames) :
    OpenedBy capacity text (front ++ [token]) back literal frame below := by
  obtain ⟨before, behind, rfl, hbinds, hbelow, hname, hstays⟩ := h
  refine ⟨before, behind ++ [token], by simp, by simpa using hbinds, by simpa using hbelow,
    hname, ?_⟩
  intro near far hsplit
  rcases List.eq_nil_or_concat far with rfl | ⟨far, last, rfl⟩
  · rw [List.append_nil] at hsplit
    simpa [← hsplit] using hthere
  · rw [List.concat_eq_append, ← List.append_assoc] at hsplit
    obtain ⟨hbehind, hlast⟩ := List.append_inj' hsplit rfl
    cases hlast
    simpa using hstays near far hbehind

/-- **Names borrow from literals only**, for other tokens hold no breaks. -/
theorem obeys_borrowing (hsplit : tokenize text = front ++ back) :
    Machine.Obeys (borrowing capacity text front back)
      (Machine.partway capacity text front back) := by
  induction front using List.reverseRecOn generalizing back with
  | nil => exact ⟨fun h => absurd (List.suffix_nil.mp h) (List.cons_ne_nil _ _), nofun, nofun⟩
  | append_singleton front token ih =>
      have hsource : tokenize text = front ++ token :: back := by simpa using hsplit
      have hmem : token ∈ tokenize text := by simp [hsource]
      have hbefore := ih hsource
      have hstep := Machine.obeys_renewed hbefore.moduleName hbefore.className
        (unbroken_of_mem_tokenize hmem) (back.headD (Token.endAt text.utf8ByteSize))
      rw [← Machine.partway_concat] at hstep
      refine ⟨fun {frame below} hframe => ?_, hstep.moduleName, hstep.className⟩
      rcases hstep.frames hframe with hold | ⟨own, hname, hown | ⟨rfl, hbinds, rfl⟩⟩
      · obtain ⟨own, hname, hown⟩ := hbefore.frames hold
        refine ⟨own, hname, hown.imp id ?_⟩
        exact fun ⟨literal, htext, hopened⟩ => ⟨literal, htext, hopened.concat hframe⟩
      · exact ⟨own, hname, .inl hown⟩
      · -- the token is a literal that opens the frame now
        refine ⟨token.text, hname, .inr ⟨token, rfl, front, [], rfl, hbinds, rfl, hname, ?_⟩⟩
        intro near far hnil
        obtain ⟨rfl, rfl⟩ := List.append_eq_nil_iff.mp hnil.symm
        exact hframe

/-! ## From frame to frame -/

@[simp] theorem ScopeStack.nameOver_empty (below : List Frame) : nameOver below "" = "" := rfl

/-- The characters of a name: those of the own name, and those of the nearest named frame
below with its separator. -/
theorem ScopeStack.mem_nameOver {below : List Frame} {own : String} {c : Char} (hown : own ≠ "") :
    c ∈ (nameOver below own).toList ↔ c ∈ own.toList ∨
      ∃ nearest, below.find? Frame.isNamed = some nearest ∧
        (c ∈ nearest.name.toList ∨ c = nearest.role.separator) := by
  rw [nameOver, if_neg (by simpa using hown)]
  cases below.find? Frame.isNamed with
  | none => simp
  | some nearest =>
      simp only [Option.elim_some, Frame.qualify, String.toList_append, String.toList_push,
        List.mem_append, List.mem_singleton, Option.some.injEq, exists_eq_left']
      tauto

theorem Role.separator_unbroken (role : Role) : isBreak role.separator = false := by
  cases role <;> rfl

/-- A break in a name comes from a literal that has opened the frame of this name or a
frame further out. -/
theorem exists_openedBy_of_break {frames : List Frame}
    (h : ∀ {frame below}, frame :: below <:+ frames →
      (borrowing capacity text front back).Holds frame below)
    {frame : Frame} (hframe : frame ∈ frames) {c : Char} (hc : c ∈ frame.name.toList)
    (hbreak : isBreak c = true) :
    ∃ literal opened below, OpenedBy capacity text front back literal opened below ∧
      c ∈ literal.text.toList := by
  induction frames generalizing frame with
  | nil => cases hframe
  | cons inner outer ih =>
      have hfurther : ∀ {frame}, frame ∈ outer → c ∈ frame.name.toList →
          ∃ literal opened below, OpenedBy capacity text front back literal opened below ∧
            c ∈ literal.text.toList :=
        ih fun hsuffix => h (hsuffix.trans (List.suffix_cons inner outer))
      rcases List.mem_cons.mp hframe with rfl | hframe
      · obtain ⟨own, hname, hown⟩ := h (List.suffix_refl _)
        have hne : own ≠ "" := by
          rintro rfl
          simp [hname] at hc
        rw [hname, ScopeStack.mem_nameOver hne] at hc
        rcases hc with hc | ⟨nearest, hnearest, hc | rfl⟩
        · rcases hown with hown | ⟨literal, rfl, hopened⟩
          · rw [hown c hc] at hbreak
            cases hbreak
          · exact ⟨literal, frame, outer, hopened, hc⟩
        · exact hfurther (List.mem_of_find?_eq_some hnearest) hc
        · rw [nearest.role.separator_unbroken] at hbreak
          cases hbreak
      · exact hfurther hframe hc

/-- What stands in the name of a frame stands in the name of the nearest named one, which
has got it from frame to frame. -/
theorem exists_nearest_of_mem {frames : List Frame}
    (h : ∀ {frame below}, frame :: below <:+ frames →
      ∃ own, frame.name = ScopeStack.nameOver below own)
    {frame : Frame} (hframe : frame ∈ frames) {c : Char} (hc : c ∈ frame.name.toList) :
    ∃ nearest, frames.find? Frame.isNamed = some nearest ∧ c ∈ nearest.name.toList := by
  induction frames with
  | nil => cases hframe
  | cons inner outer ih =>
      have hfurther : frame ∈ outer →
          ∃ nearest, outer.find? Frame.isNamed = some nearest ∧ c ∈ nearest.name.toList :=
        ih fun hsuffix => h (hsuffix.trans (List.suffix_cons inner outer))
      by_cases hnamed : inner.name = ""
      · have hmark : inner.isNamed = false := by simp [Frame.isNamed, hnamed]
        rw [List.find?_cons_of_neg (by simp [hmark])]
        rcases List.mem_cons.mp hframe with rfl | hframe
        · simp [hnamed] at hc
        · exact hfurther hframe
      · refine ⟨inner, List.find?_cons_of_pos (by simp [Frame.isNamed, hnamed]), ?_⟩
        rcases List.mem_cons.mp hframe with rfl | hframe
        · exact hc
        · obtain ⟨nearest, hnearest, hin⟩ := hfurther hframe
          obtain ⟨own, hname⟩ := h (List.suffix_refl _)
          have hne : own ≠ "" := by
            rintro rfl
            exact hnamed hname
          rw [hname, ScopeStack.mem_nameOver hne]
          exact .inr ⟨nearest, hnearest, .inl hin⟩

/-- A frame that a literal has opened is there. -/
theorem OpenedBy.there {literal : Token} {frame : Frame} {below : List Frame}
    (h : OpenedBy capacity text front back literal frame below) :
    frame :: below <:+ (Machine.partway capacity text front back).stack.frames := by
  obtain ⟨before, behind, rfl, -, -, -, hstays⟩ := h
  exact hstays behind [] (List.append_nil behind).symm

/-- A frame that a literal has opened has the text of the literal in its name. -/
theorem OpenedBy.mem_name {literal : Token} {frame : Frame} {below : List Frame}
    (h : OpenedBy capacity text front back literal frame below) {c : Char}
    (hc : c ∈ literal.text.toList) : c ∈ frame.name.toList := by
  obtain ⟨-, -, -, -, -, hname, -⟩ := h
  have hne : literal.text ≠ "" := by
    rintro hempty
    simp [hempty] at hc
  rw [hname, ScopeStack.mem_nameOver hne]
  exact .inl hc

/-- A scope has the name of a frame. -/
theorem ScopeStack.exists_frame_of_scope? {stack : ScopeStack} {scope : Scope}
    (h : stack.scope? = some scope) : ∃ frame ∈ stack.frames, scope.name = frame.name := by
  unfold ScopeStack.scope? at h
  obtain ⟨frame, hnearest, h⟩ := Option.bind_eq_some_iff.mp h
  obtain ⟨kind, -, h⟩ := Option.bind_eq_some_iff.mp h
  cases h
  exact ⟨frame, List.mem_of_find?_eq_some hnearest, rfl⟩

/-- **What breaks the name of the scope** is what literals that have opened frames have
in their texts. -/
theorem break_mem_scope?_iff (hsplit : tokenize text = front ++ back) {c : Char}
    (hbreak : isBreak c = true) :
    (∃ scope, (Machine.partway capacity text front back).stack.scope? = some scope ∧
        c ∈ scope.name.toList) ↔
      ∃ literal frame below, OpenedBy capacity text front back literal frame below ∧
        c ∈ literal.text.toList := by
  have hobeys : Machine.Obeys (borrowing capacity text front back)
      (Machine.partway capacity text front back) := obeys_borrowing hsplit
  constructor
  · rintro ⟨scope, hscope, hc⟩
    obtain ⟨frame, hframe, hname⟩ := ScopeStack.exists_frame_of_scope? hscope
    exact exists_openedBy_of_break hobeys.frames hframe (hname ▸ hc) hbreak
  · rintro ⟨literal, frame, below, hopened, hc⟩
    have hnamed : ∀ {frame below}, frame :: below <:+
        (Machine.partway capacity text front back).stack.frames →
          ∃ own, frame.name = ScopeStack.nameOver below own :=
      fun hsuffix => (hobeys.frames hsuffix).imp fun _ hown => hown.1
    obtain ⟨nearest, hnearest, hin⟩ :=
      exists_nearest_of_mem hnamed (hopened.there.subset List.mem_cons_self) (hopened.mem_name hc)
    obtain ⟨scope, hscoped⟩ := exists_scoped (Machine.metIn_partway hsplit capacity).isScope
    rcases hscoped.nearestNamed? with ⟨-, hnone⟩ | ⟨found, kind, hfound, -, hscope⟩
    · cases hnone.symm.trans hnearest
    · cases hfound.symm.trans hnearest
      exact ⟨_, hscoped.scope?.trans hscope, hin⟩

end Opening

/-! ## Tags inside literals -/

/-- A tag stands inside the binding of a literal: when the tokens in front of the tag have
been read, there is a frame that the literal has opened. -/
def Tag.Inside (capacity : Nat) (text : String) (tag : Tag) (literal : Token) : Prop :=
  ∃ frame below, OpenedBy capacity text
    ((tokenize text).takeWhile (·.start < tag.offset))
    ((tokenize text).dropWhile (·.start < tag.offset)) literal frame below

/-- The tokens in front of a token are those that start before it. -/
theorem takeWhile_tokenize {text : String} {front back : List Token} {current : Token}
    (hsplit : tokenize text = front ++ current :: back) :
    (tokenize text).takeWhile (·.start < current.start) = front ∧
      (tokenize text).dropWhile (·.start < current.start) = current :: back := by
  have hincreasing := tokenize_starts_increasing text
  rw [hsplit] at hincreasing ⊢
  have hfront : ∀ token ∈ front, decide (token.start < current.start) = true :=
    fun token htoken => decide_eq_true
      ((List.pairwise_append.mp hincreasing).2.2 token htoken current List.mem_cons_self)
  rw [List.takeWhile_append_of_pos hfront, List.dropWhile_append_of_pos hfront]
  simp

/-! ## One line for each tag -/

/-- A piece between newlines holds no newline. -/
theorem newline_notMem_splitAtNewlines {cs line : List Char} (h : line ∈ splitAtNewlines cs) :
    '\n' ∉ line := by
  fun_induction splitAtNewlines cs generalizing line with
  | case1 => simp_all
  | case2 cs ih =>
      rcases List.mem_cons.mp h with rfl | h
      · exact List.not_mem_nil
      · exact ih h
  | case3 c cs hc _ _ =>
      rw [List.mem_singleton.mp h]
      simpa using Ne.symm hc
  | case4 c cs hc first lines hsplit ih =>
      rw [hsplit] at ih
      rcases List.mem_cons.mp h with rfl | h
      · simpa [Ne.symm hc] using ih List.mem_cons_self
      · exact ih (List.mem_cons_of_mem _ h)

/-- The text that a listing shows for a line holds no newline. -/
theorem newline_notMem_lineText (text : String) (number : Nat) :
    '\n' ∉ (((LineTable.ofText text).lineText? number).getD "").toList := by
  cases hline : (LineTable.ofText text).lineText? number with
  | none => exact List.not_mem_nil
  | some line =>
      obtain ⟨piece, hpiece, rfl⟩ := List.mem_map.mp (List.mem_of_getElem? hline)
      have hnone := newline_notMem_splitAtNewlines hpiece
      rw [Option.getD_some, String.toList_ofList]
      unfold dropCarriageReturn
      split
      · exact fun hmem => hnone (List.dropLast_subset _ hmem)
      · exact hnone

namespace Ctags

/-- Escaping adds no newline and takes none away. -/
theorem newline_mem_escapePattern (cs : List Char) : '\n' ∈ escapePattern cs ↔ '\n' ∈ cs := by
  have hescaped : '\n' ∈ cs.flatMap escapeCharacter ↔ '\n' ∈ cs := by
    rw [List.mem_flatMap]
    constructor
    · rintro ⟨c, hc, hmem⟩
      unfold escapeCharacter at hmem
      obtain rfl : '\n' = c := by
        split at hmem <;> simpa using hmem
      exact hc
    · exact fun h => ⟨'\n', h, by decide⟩
  unfold escapePattern
  dsimp only
  split
  · next hlast =>
      obtain ⟨front, hfront⟩ := List.getLast?_eq_some_iff.mp hlast
      rw [← hescaped, hfront]
      simp
  · exact hescaped

/-- The line of an entry breaks only where its name, its path, the text of its line or
the name of its scope does. -/
theorem newline_mem_line (entry : Entry) :
    '\n' ∈ (line entry).toList ↔ '\n' ∈ entry.tag.name.toList ∨ '\n' ∈ entry.path.toList ∨
      '\n' ∈ entry.lineText.toList ∨
      ∃ scope, entry.tag.scope = some scope ∧ '\n' ∈ scope.name.toList := by
  have hkind : ∀ kind : Kind, '\n' ≠ kind.letter ∧ '\n' ∉ kind.name.toList := by
    intro kind
    cases kind <;> decide
  have hnumber : '\n' ∉ Nat.toDigits 10 entry.tag.line := by
    intro h
    have hdigit := Nat.isDigit_of_mem_toDigits (by decide) (by decide) h
    revert hdigit
    decide
  unfold line
  cases hscope : entry.tag.scope with
  | none => simp [newline_mem_escapePattern, (hkind entry.tag.kind).1, hnumber]
  | some scope =>
      simp [newline_mem_escapePattern, (hkind entry.tag.kind).1, (hkind scope.kind).2, hnumber]

/-- Lines of text have as many newlines as there are lines if and only if none holds
one itself. -/
theorem count_newline_lines (lines : List String) :
    (String.join (lines.map (· ++ "\n"))).toList.count '\n' = lines.length ↔
      ∀ line ∈ lines, '\n' ∉ line.toList := by
  have hcount : (String.join (lines.map (· ++ "\n"))).toList.count '\n' =
      lines.length + (lines.map fun line => line.toList.count '\n').sum := by
    induction lines with
    | nil => rfl
    | cons line lines ih =>
        simp only [List.map_cons, String.join_cons, String.toList_append, List.count_append, ih,
          List.length_cons, List.sum_cons]
        have : "\n".toList.count '\n' = 1 := rfl
        omega
  rw [hcount, Nat.add_eq_left, List.sum_eq_zero_iff_forall_eq_nat]
  simp [List.count_eq_zero]

theorem write_eq (sort : Bool) (files : List TaggedFile) :
    write { sort, header := false } files =
      String.join (((entries files sort).map line).map (· ++ "\n")) := rfl

end Ctags

/-- Sorting only changes the order of the entries of a file. -/
theorem entries_perm (file : TaggedFile) (sort : Bool) :
    (entries [file] sort).Perm file.entries := by
  have hfound : [file].flatMap TaggedFile.entries = file.entries := by simp
  unfold entries
  dsimp only
  split
  · rw [hfound]
    exact List.mergeSort_perm _ _
  · rw [hfound]

/-- The tag of the module that a file defines has the name that the options give.  It
stands at the start of the text, in no scope. -/
theorem of_mem_fileModuleTags {options : Options} {text : String} {tag : Tag}
    (h : tag ∈ options.fileModuleTags text) :
    options.fileModule = some tag.name ∧ tag.offset = 0 ∧ tag.scope = none := by
  unfold Options.fileModuleTags at h
  split at h
  · next name hname =>
      split at h
      · cases h
      · rw [List.mem_singleton.mp h]
        exact ⟨hname, rfl, rfl⟩
  · cases h

/-- A tag that comes from the text has a name without breaks. -/
theorem unbroken_of_mem_ownTags {options : Options} {text : String} {tag : Tag}
    (h : tag ∈ ownTags options text) : Unbroken tag.name := by
  obtain ⟨front, current, back, declaration, hsplit, hnamed, -, rfl⟩ := mem_ownTags h
  change Unbroken declaration.name
  rcases hnamed.name with ⟨hname, heq⟩ | ⟨-, -, heq⟩
  · have hmem : current ∈ tokenize text := by simp [hsplit]
    have hcharacters := hname.characters hmem
    rw [heq]
    exact fun c hc => not_isBreak (by decide) (hcharacters c hc)
  · rw [heq]
    exact unbroken_unit

section Tags

variable {options : Options} {text : String} {tag : Tag}

theorem mem_extract_tags (h : tag ∈ (extract options text).tags) :
    tag ∈ options.fileModuleTags text ∨ tag ∈ ownTags options text := by
  rwa [extract_tags_eq, ← ownTags_eq, List.mem_append] at h

theorem unbroken_of_mem_tags (h : tag ∈ (extract options text).tags)
    (hmodule : ∀ name, options.fileModule = some name → Unbroken name) : Unbroken tag.name := by
  rcases mem_extract_tags h with hfile | hown
  · exact hmodule _ (of_mem_fileModuleTags hfile).1
  · exact unbroken_of_mem_ownTags hown

/-- **The name of the scope of a tag** has the breaks of the literals that the tag is
inside of. -/
theorem break_mem_scope_iff (h : tag ∈ (extract options text).tags) {c : Char}
    (hbreak : isBreak c = true) :
    (∃ scope, tag.scope = some scope ∧ c ∈ scope.name.toList) ↔
      ∃ literal, tag.Inside options.maxDepth text literal ∧ c ∈ literal.text.toList := by
  rcases mem_extract_tags h with hfile | hown
  · obtain ⟨-, hoffset, hscope⟩ := of_mem_fileModuleTags hfile
    constructor
    · rintro ⟨scope, hsome, -⟩
      cases hscope.symm.trans hsome
    · -- no token starts in front of the text
      rintro ⟨literal, ⟨frame, below, before, behind, hfront, -⟩, -⟩
      cases htokens : tokenize text <;> simp [htokens, hoffset] at hfront
  · obtain ⟨front, current, back, declaration, hsplit, hnamed, hdeclared, rfl⟩ := mem_ownTags hown
    have hoffset : (declaration.toTag (.ofText text)).offset = current.start := hnamed.offset
    have hscope : (declaration.toTag (.ofText text)).scope =
        (Machine.partway options.maxDepth text front (current :: back)).stack.scope? := hdeclared
    obtain ⟨hfront, hback⟩ := takeWhile_tokenize hsplit
    simp only [Tag.Inside, hoffset, hscope, hfront, hback]
    rw [break_mem_scope?_iff hsplit hbreak]
    simp only [exists_and_right]

/-- The line of a tag has a newline if and only if a literal has one that the tag is
inside of. -/
theorem newline_mem_tagLine (h : tag ∈ (extract options text).tags) (hname : Unbroken tag.name)
    {path : String} (hpath : '\n' ∉ path.toList) :
    '\n' ∈ (Ctags.line ⟨path, tag,
        ((LineTable.ofText text).lineText? (tag.line - 1)).getD ""⟩).toList ↔
      ∃ literal, tag.Inside options.maxDepth text literal ∧ '\n' ∈ literal.text.toList := by
  rw [Ctags.newline_mem_line, ← break_mem_scope_iff h rfl]
  constructor
  · rintro (hin | hin | hin | hin)
    · cases hname '\n' hin
    · exact absurd hin hpath
    · exact absurd hin (newline_notMem_lineText text _)
    · exact hin
  · exact fun hin => .inr (.inr (.inr hin))

end Tags

/-- What is true of the tags of a text in a tag file. -/
structure FitTagFile (options : Options) (text : String) (tags : List Tag) : Prop where
  /-- The names of tags fit into fields. -/
  names : ∀ tag ∈ tags, Unbroken tag.name
  /-- The name of a scope does unless a literal breaks it that the tag is inside of. -/
  scopes : ∀ tag ∈ tags, ∀ c, isBreak c = true →
    ((∃ scope, tag.scope = some scope ∧ c ∈ scope.name.toList) ↔
      ∃ literal, tag.Inside options.maxDepth text literal ∧ c ∈ literal.text.toList)
  /-- There is one line for each tag unless such a literal holds a newline. -/
  lines : ∀ path : String, '\n' ∉ path.toList → ∀ sort,
    ((Ctags.write { sort, header := false } [⟨path, text, tags⟩]).toList.count '\n' =
        tags.length ↔
      ∀ tag ∈ tags, ∀ literal, tag.Inside options.maxDepth text literal →
        '\n' ∉ literal.text.toList)

/-- **A tag file has one line for each tag** of a text, and the tags fit into its fields,
up to literals that are bound like variables. -/
theorem extract_fitTagFile (options : Options) (text : String)
    (hmodule : ∀ name, options.fileModule = some name → Unbroken name) :
    FitTagFile options text (extract options text).tags := by
  have hnames : ∀ tag ∈ (extract options text).tags, Unbroken tag.name :=
    fun tag htag => unbroken_of_mem_tags htag hmodule
  refine ⟨hnames, fun tag htag c => break_mem_scope_iff htag, ?_⟩
  intro path hpath sort
  have hperm := entries_perm ⟨path, text, (extract options text).tags⟩ sort
  have hlength : ((entries [⟨path, text, (extract options text).tags⟩] sort).map
      Ctags.line).length = (extract options text).tags.length := by
    rw [List.length_map, hperm.length_eq, TaggedFile.entries, List.length_map]
  rw [Ctags.write_eq, ← hlength, Ctags.count_newline_lines, List.forall_mem_map]
  simp only [hperm.mem_iff, TaggedFile.entries, List.forall_mem_map]
  refine forall₂_congr fun tag htag => ?_
  rw [newline_mem_tagLine htag (hnames tag htag) hpath, not_exists]
  exact forall_congr' fun literal => not_and

theorem extract_fitTagFile_module :
    Unbroken "Main" ∧
      FitTagFile { fileModule := some "Main" } "let 'a' = (object method m = s end)#m"
        [⟨"Main", .moduleDef, 1, 0, 0, none⟩,
          ⟨"m", .methodDef, 1, 25, 25, some ⟨.functionDef, "'a'"⟩⟩] := by
  have hmain : Unbroken "Main" := by
    simp [Unbroken, isBreak]
  have htags : (extract { fileModule := some "Main" }
      "let 'a' = (object method m = s end)#m").tags =
        [⟨"Main", .moduleDef, 1, 0, 0, none⟩,
          ⟨"m", .methodDef, 1, 25, 25, some ⟨.functionDef, "'a'"⟩⟩] := by
    decide +kernel
  have hmodule : ∀ name, some "Main" = some name → Unbroken name := by
    rintro _ ⟨⟩
    exact hmain
  rw [← htags]
  exact ⟨hmain, extract_fitTagFile { fileModule := some "Main" } _ hmodule⟩

/-- A string of two lines that is bound like a variable gives the method inside it a
scope with a newline in its name, and so the method has two lines. -/
theorem literal_breaks_line :
    (extract {} "let \"a\nb\" = (object method m = s end)#m").tags =
        [⟨"m", .methodDef, 2, 20, 27, some ⟨.functionDef, "\"a\nb\""⟩⟩] ∧
      '\n' ∈ "\"a\nb\"".toList ∧
      (Ctags.write { header := false }
        [⟨"a.ml", "let \"a\nb\" = (object method m = s end)#m",
          (extract {} "let \"a\nb\" = (object method m = s end)#m").tags⟩]).toList.count
        '\n' = 2 := by
  decide +kernel

end CamlIndex
