import CamlIndex.Proofs.Lockstep

/-!
# Choosing among declarations

A text has declarations whether or not they are wanted, and `extract` chooses
among them when all have been noted.  One may as well choose while reading: a
machine that drops every unwanted declaration as soon as it is found, and so
never holds back an unwanted constructor, goes through the same modes with the
same frames as one that keeps everything (`Machine.readChoosing_eq`), and the
tags that it lets go of are those of `extract` (`extract_tags_streamed`).

That is why the options which choose declarations change nothing else:

* `kinds_only_filter` — the wanted kinds pick tags out of the tags of all kinds;
* `locals_only_add` — parameters and local bindings are put in between the other
  tags, and they are values and functions.
-/

namespace CamlIndex

variable (options : Options)

/-! ## Dropping what is not wanted -/

/-- Whether a note is kept: it is, unless it declares something unwanted. -/
def Note.isKept : Note → Bool
  | .declared declaration isLocal => options.wants declaration isLocal
  | _ => true

/-- The circumstance without the declarations that are not wanted. -/
def Circumstance.choose (w : Circumstance) : Circumstance :=
  { w with
    staged := w.staged.filter (options.wants · false)
    notes := w.notes.filter (Note.isKept options) }

namespace Machine

/-- The machine without the declarations that are not wanted. -/
def choose (m : Machine) : Machine :=
  { m with
    staged := m.staged.filter (options.wants · false)
    notes := m.notes.filter (Note.isKept options) }

/-- Reads tokens, and after each of them drops what is not wanted. -/
def readChoosing (m : Machine) (last : Token) : List Token → Machine
  | [] => m
  | token :: rest =>
    ((m.step token (rest.headD last)).choose options).readChoosing last rest

end Machine

theorem Circumstance.choose_choose (w : Circumstance) :
    (w.choose options).choose options = w.choose options := by
  simp [choose]

/-- An unwanted remark may be dropped before or after it is heard. -/
theorem Circumstance.choose_hear (w : Circumstance) (remark : Remark) :
    ((w.choose options).hear remark).choose options = (w.hear remark).choose options := by
  cases remark with
  | nothing => exact w.choose_choose options
  | declared name kind scope isLocal =>
      simp [hear, choose, List.filter_cons]
  | held name scope => simp [hear, choose]
  | withdrawn => simp [hear, choose]
  | confirmed =>
      cases hstaged : w.staged with
      | none => simp [hear, choose, hstaged]
      | some declaration =>
          have hkept : Note.isKept options (.declared declaration false) =
              options.wants declaration false := rfl
          cases hwanted : options.wants declaration false <;>
            simp [hear, choose, hstaged, Option.filter, hwanted, hkept]

/-- Circumstances that are the same but for what is not wanted are kept in step. -/
theorem lockstep_choose :
    Machine.Lockstep (fun w w' => w.choose options = w'.choose options) Eq where
  content := by rintro token _ rfl; rfl
  capacity := by
    intro w w' h
    have hcapacity := congrArg Circumstance.capacity h
    exact hcapacity
  reading := by
    rintro w w' current _ next _ h rfl rfl
    exact congrArg (·.reading current next) h
  hear remark h := by
    rw [← Circumstance.choose_hear, h, Circumstance.choose_hear]
  refuse := by
    intro w w' h
    have hrefuse : ∀ v : Circumstance, v.refuse.choose options = (v.choose options).refuse :=
      fun _ => rfl
    rw [hrefuse, hrefuse, h]
  note_moved token before after h := by
    have hmoved : ∀ v : Circumstance, (v.note (.moved token before after)).choose options =
        (v.choose options).note (.moved token before after) := fun _ => rfl
    rw [hmoved, hmoved, h]

namespace Machine

theorem choose_under (m : Machine) (w : Circumstance) :
    (m.under w).choose options = m.under (w.choose options) := rfl

/-- **One token.**  It makes no difference whether unwanted declarations were
dropped before a token is read. -/
theorem choose_step (m : Machine) (current next : Token) :
    ((m.choose options).step current next).choose options =
      (m.step current next).choose options := by
  have habreast : Abreast (fun w w' => w.choose options = w'.choose options)
      (m.choose options) m :=
    ⟨m, m.circumstance.choose options, m.circumstance, rfl, rfl,
      m.circumstance.choose_choose options⟩
  obtain ⟨left, v, v', hhere, hthere, hv⟩ :=
    (lockstep_choose options).step habreast (Eq.refl current) (Eq.refl next)
  rw [hhere, hthere, choose_under, choose_under, hv]

/-- **A run.**  Choosing while reading is choosing afterwards. -/
theorem readChoosing_eq (m : Machine) (last : Token) (tokens : List Token) :
    (m.choose options).readChoosing options last tokens =
      (m.readAll last tokens).choose options := by
  induction tokens generalizing m with
  | nil => rfl
  | cons token rest ih => rw [readChoosing, choose_step, ih, readAll]

theorem choose_choose {within : Options}
    (h : ∀ declaration isLocal, options.wants declaration isLocal = true →
      within.wants declaration isLocal = true) (m : Machine) :
    (m.choose within).choose options = m.choose options := by
  have hstaged : ∀ declaration, (within.wants declaration false &&
      options.wants declaration false) = options.wants declaration false := by
    intro declaration
    have := h declaration false
    cases hwanted : options.wants declaration false <;> simp_all
  have hnotes : ∀ note, (Note.isKept options note && Note.isKept within note) =
      Note.isKept options note := by
    intro note
    cases note with
    | declared declaration isLocal =>
        have := h declaration isLocal
        cases hwanted : options.wants declaration isLocal <;> simp_all [Note.isKept]
    | _ => rfl
  simp only [choose, List.filter_filter, Option.filter_filter, hstaged, hnotes]

theorem findings_choose (m : Machine) :
    (m.choose options).findings =
      m.findings.filter fun finding => options.wants finding.declaration finding.isLocal := by
  have hfinding : ∀ note : Note, (if Note.isKept options note then note.finding? else none) =
      note.finding?.filter fun finding => options.wants finding.declaration finding.isLocal := by
    intro note
    cases note with
    | declared declaration isLocal =>
        cases hwanted : options.wants declaration isLocal <;>
          simp [Note.isKept, Note.finding?, Option.filter, hwanted]
    | _ => rfl
  simp only [findings, choose, List.filterMap_filter, hfinding, List.filter_reverse,
    List.filter_filterMap]

theorem choose_confirm (m : Machine) :
    (m.choose options).confirm.findings = (m.confirm.choose options).findings := by
  rw [findings_confirm, findings_choose, findings_choose, findings_confirm, List.filter_append]
  congr 1
  cases hstaged : m.staged with
  | none => simp [choose, hstaged]
  | some declaration =>
      cases hwanted : options.wants declaration false <;>
        simp [choose, hstaged, Option.filter, hwanted]

end Machine

/-- The machine after the first tokens `front` of a text, while `back` are still
to come, if it drops at once what is not wanted. -/
def Options.reached (text : String) (front back : List Token) : Machine :=
  (Machine.start options.maxDepth).readChoosing options
    (back.headD (Token.endAt text.utf8ByteSize)) front

/-- The tags that such a machine has let go of by then. -/
def Options.emitted (text : String) (front back : List Token) : List Tag :=
  (options.reached text front back).findings.map fun finding =>
    finding.declaration.toTag (.ofText text)

/-- The tags of a whole text in the order in which such a machine lets go of them. -/
def Options.streamedTags (text : String) : List Tag :=
  (options.reached text (tokenize text) []).confirm.findings.map fun finding =>
    finding.declaration.toTag (.ofText text)

theorem Options.reached_eq (text : String) (front back : List Token) :
    options.reached text front back =
      (Machine.partway options.maxDepth text front back).choose options :=
  Machine.readChoosing_eq options (.start options.maxDepth) _ front

/-- **Tags are let go of in passing.**  Behind the module of the file come the
tags of a machine that drops at once what is not wanted. -/
theorem extract_tags_streamed (text : String) :
    (extract options text).tags = options.fileModuleTags text ++ options.streamedTags text := by
  rw [extract_tags_eq, Options.streamedTags, Options.reached_eq, Machine.choose_confirm,
    Machine.findings_choose, findingsOf, Machine.read_ofText, ← List.filterMap_eq_map,
    List.filterMap_filter]
  rfl

/-! ## The wanted kinds -/

/-- Whether an event is not about a tag of an unwanted kind. -/
def Event.isAmong (kinds : KindSet) : Event → Bool
  | .tagged tag => kinds.contains tag.kind
  | _ => true

/-- What it means that wanted kinds only filter: with the options `chosen` all
is as with the options `full`, but for tags of other kinds. -/
structure KindsFiltered (kinds : KindSet) (full chosen : Options) (text : String) : Prop where
  tags : (extract chosen text).tags =
    (extract full text).tags.filter fun tag => kinds.contains tag.kind
  diagnostics : (extract chosen text).diagnostics = (extract full text).diagnostics
  /-- All changes of mode and all overflows stay, and the tags are told at the same moments.
  The last event, which counts the tags, is left out. -/
  events : (trace chosen text).dropLast =
    (trace full text).dropLast.filter (Event.isAmong kinds)
  /-- Even a machine that drops unwanted declarations at once, and so never
  holds back an unwanted constructor, is after every token the same machine as
  the one that is used for all kinds, but for the declarations dropped. -/
  runs : ∀ front back, tokenize text = front ++ back →
    chosen.reached text front back = (full.reached text front back).choose chosen
  /-- And it is that machine which lets go of the tags. -/
  streamed : (extract chosen text).tags = chosen.fileModuleTags text ++ chosen.streamedTags text

section Kinds

variable (kinds : KindSet)

theorem wants_all (declaration : Declaration) (isLocal : Bool)
    (h : { options with kinds }.wants declaration isLocal = true) :
    { options with kinds := .all }.wants declaration isLocal = true := by
  simp only [Options.wants, Bool.and_eq_true] at h ⊢
  exact ⟨rfl, h.2⟩

theorem fileModuleTags_kinds (text : String) :
    { options with kinds }.fileModuleTags text =
      ({ options with kinds := .all }.fileModuleTags text).filter
        fun tag => kinds.contains tag.kind := by
  unfold Options.fileModuleTags
  dsimp only
  split
  · next name _ =>
      cases hdone : (Window.ofText text).isDone <;> cases hempty : name.isEmpty <;>
        cases hmodule : kinds.contains .moduleDef <;> simp [KindSet.all, hmodule]
  · rfl

/-- A finding has a tag of a wanted kind if it has a tag at all and its kind is wanted. -/
theorem Finding.tag?_kinds (lines : LineTable) (finding : Finding) :
    finding.tag? { options with kinds } lines =
      (finding.tag? { options with kinds := .all } lines).filter
        fun tag => kinds.contains tag.kind := by
  have hkind : (finding.declaration.toTag lines).kind = finding.declaration.kind := rfl
  cases hwanted : kinds.contains finding.declaration.kind <;>
    cases hlocal : (!finding.isLocal || options.localBindings) <;>
      simp [Finding.tag?, Options.wants, KindSet.all, Option.filter, hwanted, hlocal, hkind]

theorem eventsOf_kinds (lines : LineTable) (overflowed : Bool) (notes : List Note) :
    eventsOf { options with kinds } lines overflowed notes =
      (eventsOf { options with kinds := .all } lines overflowed notes).filter
        (Event.isAmong kinds) := by
  induction notes generalizing overflowed with
  | nil => cases overflowed <;> rfl
  | cons note notes ih =>
      cases note with
      | declared declaration isLocal =>
          have hkind : (declaration.toTag lines).kind = declaration.kind := rfl
          cases hwanted : kinds.contains declaration.kind <;>
            cases hlocal : (!isLocal || options.localBindings) <;>
              simp [eventsOf, Options.wants, KindSet.all, Event.isAmong, hwanted, hlocal, hkind, ih]
      | refused offset =>
          cases overflowed with
          | false => exact congrArg (List.cons _) (ih true)
          | true => exact ih true
      | moved token before after => exact congrArg (List.cons _) (ih overflowed)

theorem trace_dropLast (text : String) :
    (trace options text).dropLast =
      (options.fileModuleTags text).map .tagged ++
        eventsOf options (.ofText text) false (Machine.notesOf options.maxDepth text) :=
  List.dropLast_concat

/-- **The choice of kinds only filters.**  Tags of unwanted kinds are missing
and nothing else changes: no scope, no place, no change of mode, no diagnostic. -/
theorem kinds_only_filter (text : String) :
    KindsFiltered kinds { options with kinds := .all } { options with kinds } text where
  tags := by
    rw [extract_tags_eq, extract_tags_eq, List.filter_append, ← fileModuleTags_kinds,
      List.filter_filterMap]
    congr 2
    funext finding
    exact finding.tag?_kinds options kinds _
  diagnostics := rfl
  events := by
    rw [trace_dropLast, trace_dropLast, List.filter_append, ← eventsOf_kinds,
      fileModuleTags_kinds, List.filter_map]
    rfl
  runs front back _ := by
    rw [Options.reached_eq, Options.reached_eq,
      Machine.choose_choose _ (wants_all options kinds)]
  streamed := extract_tags_streamed _ text

end Kinds

/-! ## Local names -/

/-- A kind that a local name can have. -/
def Kind.isBinding : Kind → Bool
  | .variableDef | .functionDef => true
  | _ => false

/-- What it means that local names are only put in between the other tags. -/
structure LocalsAdded (without within : Options) (text : String) : Prop where
  /-- Marks on the tags within tell which of them are the tags without, and all
  the others are values or functions. -/
  matched : ∃ marked : List (Tag × Bool),
    marked.map Prod.fst = (extract within text).tags ∧
    (marked.filter Prod.snd).map Prod.fst = (extract without text).tags ∧
    ∀ mark ∈ marked, mark.2 = false → mark.1.kind = .variableDef ∨ mark.1.kind = .functionDef
  sublist : (extract without text).tags.Sublist (extract within text).tags
  /-- The tags of the eight other kinds are the same. -/
  others : ((extract without text).tags.filter fun tag => !tag.kind.isBinding) =
    (extract within text).tags.filter fun tag => !tag.kind.isBinding
  diagnostics : (extract without text).diagnostics = (extract within text).diagnostics
  /-- Machines that let go of their tags in passing differ after every token in
  the local names alone. -/
  runs : ∀ front back, tokenize text = front ++ back →
    without.reached text front back = (within.reached text front back).choose without
  streamed : ∀ options ∈ [without, within],
    (extract options text).tags = options.fileModuleTags text ++ options.streamedTags text

/-- Tags with marks on those that are there without local names. -/
def Finding.marked? (lines : LineTable) (finding : Finding) : Option (Tag × Bool) :=
  (finding.tag? { options with localBindings := true } lines).map (·, !finding.isLocal)

theorem Finding.marked?_fst (lines : LineTable) (finding : Finding) :
    (finding.marked? options lines).map Prod.fst =
      finding.tag? { options with localBindings := true } lines := by
  simp [Finding.marked?, Function.comp_def]

theorem Finding.marked?_filter (lines : LineTable) (finding : Finding) :
    ((finding.marked? options lines).filter Prod.snd).map Prod.fst =
      finding.tag? { options with localBindings := false } lines := by
  cases hwanted : options.kinds.contains finding.declaration.kind <;>
    cases hlocal : finding.isLocal <;>
      simp [Finding.marked?, Finding.tag?, Options.wants, Option.filter, hwanted, hlocal]

theorem wants_local (declaration : Declaration) (isLocal : Bool)
    (h : { options with localBindings := false }.wants declaration isLocal = true) :
    { options with localBindings := true }.wants declaration isLocal = true := by
  simp only [Options.wants, Bool.and_eq_true] at h ⊢
  exact ⟨h.1, Bool.or_true _⟩

/-- What is found without local names is found with them, and the rest is values and functions. -/
theorem exists_marked (text : String) :
    ∃ marked : List (Tag × Bool),
      marked.map Prod.fst = (extract { options with localBindings := true } text).tags ∧
      (marked.filter Prod.snd).map Prod.fst =
        (extract { options with localBindings := false } text).tags ∧
      ∀ mark ∈ marked, mark.2 = false →
        mark.1.kind = .variableDef ∨ mark.1.kind = .functionDef := by
  let own := findingsOf options.maxDepth text
  refine ⟨(options.fileModuleTags text).map (·, true) ++
    own.filterMap (Finding.marked? options (.ofText text)), ?_, ?_, ?_⟩
  · have hfile : ∀ tags : List Tag, (tags.map (·, true)).map Prod.fst = tags := by
      simp [Function.comp_def]
    rw [extract_tags_eq, List.map_append, List.map_filterMap, hfile]
    simp only [Finding.marked?_fst]
    rfl
  · have hfile : ∀ tags : List Tag,
        ((tags.map (·, true)).filter Prod.snd).map Prod.fst = tags := by
      simp [List.filter_map, Function.comp_def]
    rw [extract_tags_eq, List.filter_append, List.map_append, List.filter_filterMap,
      List.map_filterMap, hfile]
    simp only [Finding.marked?_filter]
    rfl
  · intro mark hmark hlocal
    rcases List.mem_append.mp hmark with h | h
    · obtain ⟨tag, -, rfl⟩ := List.mem_map.mp h
      cases hlocal
    · obtain ⟨finding, hfinding, hmarked⟩ := List.mem_filterMap.mp h
      obtain ⟨tag, htag, rfl⟩ := Option.map_eq_some_iff.mp hmarked
      simp only [Finding.tag?, Option.ite_none_right_eq_some, Option.some.injEq] at htag
      obtain ⟨-, rfl⟩ := htag
      exact kind_of_local hfinding (by simpa using hlocal)

/-- **Local names are only added.**  With parameters and local bindings there
are more tags, values and functions, between those that are there without. -/
theorem locals_only_add (text : String) :
    LocalsAdded { options with localBindings := false } { options with localBindings := true }
      text where
  matched := exists_marked options text
  sublist := by
    obtain ⟨marked, hwithin, hwithout, -⟩ := exists_marked options text
    rw [← hwithin, ← hwithout]
    exact List.filter_sublist.map Prod.fst
  others := by
    obtain ⟨marked, hwithin, hwithout, hkinds⟩ := exists_marked options text
    rw [← hwithin, ← hwithout, List.filter_map, List.filter_map, List.filter_filter]
    congr 1
    apply List.filter_congr
    intro mark hmark
    cases hmarked : mark.2 with
    | true => simp
    | false =>
        rcases hkinds mark hmark hmarked with h | h <;> simp [h, Kind.isBinding]
  diagnostics := rfl
  runs front back _ := by
    rw [Options.reached_eq, Options.reached_eq, Machine.choose_choose _ (wants_local options)]
  streamed chosen _ := extract_tags_streamed chosen text

end CamlIndex
