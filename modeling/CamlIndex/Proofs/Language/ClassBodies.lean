import CamlIndex.Proofs.Language.Contents
import CamlIndex.Proofs.Language.Members

/-!
# What the tags of a class say

If the tags of a class are those that are meant, there are as many methods and
values among them as there are members.  Then each member has been heard: none is
mutable, and none stands behind a method without a body.  So the readings can be
compared member by member, and what remains is the scope of the values, and the
one header that a last method without a body swallows behind the class
(`DifferInHeader`).

* `contents_members_iff` — members that are heard differ from what is meant in the
  scopes of values alone;
* `ClassInModules.contents_iff` — when the tags say what is meant;
* `extract_classBody` — the tags of a class inside of modules.
-/

namespace CamlIndex

/-! ## When the tags are those that are meant -/

namespace Stage

/-- Whether a member is tagged as one. -/
def hears : Stage → Member → Bool
  | .within _, .variable isMutable _ _ => !isMutable
  | .within _, .method _ _ _ _ | .within _, .signature _ _ _ _ => true
  | .awaiting _, _ => false

/-- Whether a member is tagged as it is meant: a value has no method in front of it. -/
def keeps : Stage → Member → Bool
  | .within last, .variable isMutable _ _ => !isMutable && last.isNone
  | .within _, .method _ _ _ _ | .within _, .signature _ _ _ _ => true
  | .awaiting _, _ => false

/-- Whether all members are treated in some way. -/
def forAll (treats : Stage → Member → Bool) (stage : Stage) : List Member → Bool
  | [] => true
  | member :: members => treats stage member && forAll treats (stage.after member) members

end Stage

/-- Whether nothing stands behind a class but the words that close modules. -/
def nothingBehind (items : List LetItem) (modules : List LetModule) : Bool :=
  items.isEmpty && modules.all (·.after.isEmpty)

namespace ClassInModules

variable (source : ClassInModules) (localBindings : Bool)

/-- Whether no method waits behind the last member; or there is no header that it
could take, and its type, which it has taken, is not wanted. -/
def keepsRest : Bool :=
  match source.stage with
  | .within _ => true
  | .awaiting _ => !localBindings && nothingBehind source.further source.modules

/-- Whether the tags are those that are meant. -/
def keepsScopes : Bool :=
  (Stage.within none).forAll Stage.keeps source.definition.members
    && source.keepsRest localBindings

end ClassInModules

/-! ### The members -/

namespace Member

/-- What may be declared behind the name of a member. -/
def inside (inner : Option Scope) (typeMark : Option Mark) : Member → List Piece
  | .method _ _ params _ => paramPieces inner params
  | .signature _ _ _ type => [⟨type.word, typeMark⟩]
  | .variable _ _ _ => []

/-- A member says something with its name, and behind it. -/
theorem contents_pieces (nameMark : Option Mark) (inner : Option Scope) (typeMark : Option Mark)
    (member : Member) (localBindings : Bool) :
    (member.pieces nameMark inner typeMark).filterMap (Piece.content? localBindings) =
      (⟨member.name.word, nameMark⟩ :: member.inside inner typeMark : List Piece).filterMap
        (Piece.content? localBindings) := by
  cases member with
  | method isPrivate _ _ _ =>
      cases isPrivate <;> simp [pieces, inside, name, Word.optional, List.filterMap_cons]
  | signature isPrivate isVirtual _ _ =>
      cases isPrivate <;> cases isVirtual <;>
        simp [pieces, inside, name, Word.optional, List.filterMap_cons]
  | «variable» isMutable _ _ =>
      cases isMutable <;> simp [pieces, inside, name, Word.optional, List.filterMap_cons]

end Member

theorem Stage.hears_of_keeps {stage : Stage} {members : List Member}
    (h : stage.forAll keeps members = true) : stage.forAll hears members = true := by
  induction members generalizing stage with
  | nil => rfl
  | cons member members ih =>
      rw [forAll, Bool.and_eq_true] at h ⊢
      refine ⟨?_, ih h.2⟩
      cases stage <;> cases member <;> simp_all [keeps, hears]

/-- What is found in addition to what is meant where all members are heard: the
type of a last method without a body. -/
def leftover (scope : Option Scope) (localBindings : Bool) (members : List Member) :
    List (String × Kind × Option Scope) :=
  members.filterMap fun member => match member with
    | .signature _ _ name type =>
      if localBindings then
        some (type.text, .variableDef, Scope.inside scope .methodDef name.text)
      else none
    | .method _ _ _ _ | .variable _ _ _ => none

/-- **Members that are heard** differ from what is meant in the scopes of values,
and in what is left over. -/
theorem contents_members_iff (scope : Option Scope) (localBindings : Bool)
    (last : Option LowerName) (members : List Member)
    (h : (Stage.within last).forAll Stage.hears members = true)
    (back back' : List (String × Kind × Option Scope)) :
    (foundMembers scope (.within last) members).filterMap (Piece.content? localBindings) ++ back =
        (members.flatMap (Member.meant scope)).filterMap (Piece.content? localBindings) ++ back' ↔
      (Stage.within last).forAll Stage.keeps members = true ∧
        leftover scope localBindings members ++ back = back' := by
  induction members generalizing last with
  | nil => simp [foundMembers, Stage.forAll, leftover]
  | cons member members ih =>
      rw [Stage.forAll, Bool.and_eq_true] at h
      obtain ⟨hmember, hmembers⟩ := h
      rw [foundMembers, List.flatMap_cons, List.filterMap_append, List.filterMap_append,
        Stage.found, Member.meant, Member.contents_pieces, Member.contents_pieces]
      cases member with
      | method isPrivate name params value =>
          have hrest := ih (some name) hmembers
          simpa [Stage.nameMark, Stage.bodyScope, Stage.after, Stage.forAll, Stage.keeps,
            Member.inside, Member.name, Member.kind, leftover, List.filterMap_cons] using hrest
      | signature isPrivate isVirtual name type =>
          cases members with
          | cons next members => simp [Stage.forAll, Stage.after, Stage.hears] at hmembers
          | nil =>
              cases localBindings <;>
                simp [foundMembers, Stage.nameMark, Stage.bodyScope, Stage.forAll, Stage.keeps,
                  Member.inside, Member.name, Member.kind, Member.typeMark, leftover,
                  List.filterMap_cons]
      | «variable» isMutable name value =>
          have hmutable : isMutable = false := by simpa [Stage.hears] using hmember
          subst hmutable
          cases last with
          | none =>
              have hrest := ih none hmembers
              simpa [Stage.nameMark, Stage.after, Stage.forAll, Stage.keeps, Member.inside,
                Member.name, Member.kind, leftover, List.filterMap_cons] using hrest
          | some method =>
              simp [Stage.nameMark, Stage.forAll, Stage.keeps, Member.inside, Member.name,
                Member.kind, Scope.inside_ne]

/-- There is something left over if and only if the last member has no body. -/
theorem leftover_eq (scope : Option Scope) (localBindings : Bool) {last : Option LowerName}
    {members : List Member} (h : (Stage.within last).forAll Stage.hears members = true) :
    match (Stage.within last).afterAll members with
    | .within _ => leftover scope localBindings members = []
    | .awaiting method => ∃ type, leftover scope localBindings members =
        if localBindings then [(type, .variableDef, Scope.inside scope .methodDef method.text)]
        else [] := by
  induction members generalizing last with
  | nil => rfl
  | cons member members ih =>
      rw [Stage.forAll, Bool.and_eq_true] at h
      obtain ⟨-, hmembers⟩ := h
      cases member with
      | method isPrivate name params value => exact ih hmembers
      | signature isPrivate isVirtual name type =>
          cases members with
          | cons next members => simp [Stage.forAll, Stage.after, Stage.hears] at hmembers
          | nil => exact ⟨type.text, by cases localBindings <;> rfl⟩
      | «variable» isMutable name value => exact ih hmembers

/-! ### How many members are declared -/

/-- How many names are declared as methods or as values. -/
def memberCount (localBindings : Bool) (pieces : List Piece) : Nat :=
  (declaredNames localBindings pieces).countP fun entry => entry.2 = .methodDef ∨ entry.2 = .valSpec

theorem memberCount_append (localBindings : Bool) (front back : List Piece) :
    memberCount localBindings (front ++ back) =
      memberCount localBindings front + memberCount localBindings back := by
  simp [memberCount]

theorem memberCount_found (scope : Option Scope) (stage : Stage) (member : Member)
    (localBindings : Bool) :
    memberCount localBindings (stage.found scope member) = if stage.hears member then 1 else 0 := by
  rw [memberCount, declaredNames, Stage.found, Member.contents_pieces]
  cases stage with
  | within last =>
      cases member with
      | «variable» isMutable name value =>
          cases isMutable <;>
            simp [Stage.nameMark, Member.inside, Member.name, Stage.hears, List.filterMap_cons]
      | _ =>
          cases localBindings <;>
            simp [Stage.nameMark, Stage.bodyScope, Member.typeMark, Member.inside, Member.name,
              Member.kind, Stage.hears, Function.comp_def]
  | awaiting method =>
      cases member <;> cases localBindings <;>
        simp [Stage.nameMark, Stage.bodyScope, Member.typeMark, Member.inside, Member.name,
          Stage.hears, Function.comp_def]

theorem memberCount_meant (scope : Option Scope) (members : List Member) (localBindings : Bool) :
    memberCount localBindings (members.flatMap (Member.meant scope)) = members.length := by
  have hone : ∀ member : Member, memberCount localBindings (member.meant scope) = 1 := by
    intro member
    rw [memberCount, declaredNames, Member.meant, Member.contents_pieces]
    cases member <;> cases localBindings <;>
      simp [Member.inside, Member.name, Member.kind, List.filterMap_cons, Function.comp_def]
  induction members with
  | nil => rfl
  | cons member members ih =>
      rw [List.flatMap_cons, memberCount_append, hone, ih, List.length_cons, Nat.add_comm]

theorem memberCount_foundMembers_le (scope : Option Scope) (stage : Stage)
    (members : List Member) (localBindings : Bool) :
    memberCount localBindings (foundMembers scope stage members) ≤ members.length := by
  induction members generalizing stage with
  | nil => exact Nat.le_refl 0
  | cons member members ih =>
      have hmembers := ih (stage.after member)
      rw [foundMembers, memberCount_append, memberCount_found, List.length_cons]
      split <;> omega

/-- If there are as many members as are meant, all have been heard. -/
theorem hears_of_memberCount {scope : Option Scope} {stage : Stage} {members : List Member}
    {localBindings : Bool}
    (h : memberCount localBindings (foundMembers scope stage members) = members.length) :
    stage.forAll Stage.hears members = true := by
  induction members generalizing stage with
  | nil => rfl
  | cons member members ih =>
      have hle := memberCount_foundMembers_le scope (stage.after member) members localBindings
      rw [foundMembers, memberCount_append, memberCount_found, List.length_cons] at h
      rw [Stage.forAll, Bool.and_eq_true]
      split at h
      · next hmember => exact ⟨hmember, ih (by omega)⟩
      · omega

/-! ### What stands behind the class -/

/-- Two readings of the same words differ in the header of a binding alone, which is
there if `present`: one takes all names in it for parameters, and the other declares
a name. -/
structure DifferInHeader (localBindings present : Bool) (found meant : List Piece) : Prop where
  words : found.map Piece.word = meant.map Piece.word
  names : ∃ front front' rest,
    declaredNames localBindings found = front ++ rest ∧
      declaredNames localBindings meant = front' ++ rest ∧
      (present = true → front' ≠ []) ∧ (localBindings = false → front = []) ∧
      ∀ entry ∈ front ++ front', entry.2 = .variableDef ∨ entry.2 = .functionDef

namespace DifferInHeader

variable {localBindings present : Bool} {found meant : List Piece}

theorem append (h : DifferInHeader localBindings present found meant) {back back' : List Piece}
    (hback : back.map Piece.unscoped = back'.map Piece.unscoped) :
    DifferInHeader localBindings present (found ++ back) (meant ++ back') := by
  obtain ⟨hwords, front, front', rest, hfound, hmeant, hkept⟩ := h
  have hnames := names_eq_of_unscoped hback localBindings
  exact ⟨by simp [hwords, words_eq_of_unscoped hback], front, front',
    rest ++ declaredNames localBindings back, by simp [hfound], by simp [hmeant, hnames], hkept⟩

theorem memberCount_eq (h : DifferInHeader localBindings present found meant) :
    memberCount localBindings found = memberCount localBindings meant := by
  obtain ⟨front, front', rest, hfound, hmeant, -, -, hkinds⟩ := h.names
  have hnone : ∀ entries : List (String × Kind),
      (∀ entry ∈ entries, entry.2 = .variableDef ∨ entry.2 = .functionDef) →
        entries.countP (fun entry => entry.2 = .methodDef ∨ entry.2 = .valSpec) = 0 := by
    intro entries hentries
    refine List.countP_eq_zero.mpr fun entry hentry => ?_
    rcases hentries entry hentry with h | h <;> simp [h]
  rw [memberCount, memberCount, hfound, hmeant, List.countP_append, List.countP_append,
    hnone front fun entry h => hkinds entry (List.mem_append_left _ h),
    hnone front' fun entry h => hkinds entry (List.mem_append_right _ h)]

/-- A header that is missing is missed. -/
theorem contents_ne (h : DifferInHeader false true found meant) :
    found.filterMap (Piece.content? false) ≠ meant.filterMap (Piece.content? false) := by
  obtain ⟨front, front', rest, hfound, hmeant, hpresent, hfront, -⟩ := h.names
  intro hcontents
  have hnames : front ++ rest = front' ++ rest := by
    rw [← hfound, ← hmeant, declaredNames, hcontents, declaredNames]
  rw [hfront rfl, List.append_cancel_right_eq] at hnames
  exact hpresent rfl hnames.symm

end DifferInHeader

theorem kind_of_params {scope : Option Scope} {params : List LowerName} {localBindings : Bool}
    {entry : String × Kind} (h : entry ∈ declaredNames localBindings (paramPieces scope params)) :
    entry.2 = .variableDef := by
  rw [declaredNames, contents_params] at h
  cases localBindings with
  | false => simp at h
  | true =>
      obtain ⟨_, hmem, rfl⟩ := List.mem_map.mp h
      obtain ⟨param, -, rfl⟩ := List.mem_map.mp hmem
      rfl

/-- A header, up to its `=`, of which all names are taken for parameters. -/
theorem Header.swallowed_differs (header : Header) (scope other : Option Scope)
    (localBindings : Bool) :
    DifferInHeader localBindings true
      (.fixed .kwLet :: Piece.optional header.isRec .kwRec
        ++ paramPieces scope (header.name :: header.params) ++ [.fixed .equals])
      (.fixed .kwLet :: header.pieces false other ++ [.fixed .equals]) := by
  have hkind : header.kind = .variableDef ∨ header.kind = .functionDef := by
    unfold Header.kind
    split
    · exact .inl rfl
    · exact .inr rfl
  refine ⟨?_, declaredNames localBindings (paramPieces scope (header.name :: header.params)),
    (header.name.text, header.kind)
      :: declaredNames localBindings (paramPieces (header.inner other) header.params),
    [], ?_, ?_, by simp, ?_, ?_⟩
  · simp [Header.pieces, paramPieces]
  · simp [declaredNames, List.filterMap_cons]
  · simp [declaredNames, Header.pieces, List.filterMap_cons]
  · rintro rfl
    simp [declaredNames]
  · intro entry hentry
    rw [List.mem_append, List.mem_cons] at hentry
    rcases hentry with h | rfl | h
    · exact .inl (kind_of_params h)
    · exact hkind
    · exact .inl (kind_of_params h)

/-- A binding that is swallowed keeps its body. -/
theorem LetItem.swallowed_differs (item : LetItem) (scope other : Option Scope)
    (localBindings : Bool) :
    DifferInHeader localBindings true (item.swallowed scope) (item.toItem.pieces other) := by
  cases item with
  | binding header body =>
      have hheader := header.swallowed_differs scope other localBindings
      have hwhole := hheader.append (body.unscoped_pieces scope (header.inner other))
      simpa [swallowed, toItem, Item.pieces] using hwhole
  | unit body =>
      have hheader : DifferInHeader localBindings true
          [.fixed .kwLet, .fixed .parenOpen, .fixed .parenClose, .fixed .equals]
          [.fixed .kwLet, ⟨.fixed .parenOpen, some ⟨"()", .functionDef, false, other⟩⟩,
            .fixed .parenClose, .fixed .equals] :=
        ⟨rfl, [], [("()", .functionDef)], [], rfl, rfl, by simp, fun _ => rfl, by simp⟩
      exact hheader.append (body.unscoped_pieces scope (Scope.inside other .functionDef "()"))
  | wildcard body =>
      have hheader : DifferInHeader localBindings true
          [.fixed .kwLet, .silent .wildcard, .fixed .equals]
          [.fixed .kwLet, ⟨.wildcard, some ⟨"_", .functionDef, false, other⟩⟩, .fixed .equals] :=
        ⟨rfl, [], [("_", .functionDef)], [], rfl, rfl, by simp, fun _ => rfl, by simp⟩
      exact hheader.append (body.unscoped_pieces scope (Scope.inside other .functionDef "_"))

section

variable (bodyScope classScope : Option Scope) (opened : Nesting) (localBindings : Bool)

theorem swallowedRest_cons (item : LetItem) (items : List LetItem) (modules : List LetModule) :
    swallowedRest bodyScope classScope opened (item :: items) modules =
      item.swallowed bodyScope ++ letPieces classScope items
        ++ (Nesting.ofModules modules).closingTo opened := by
  cases modules <;> rfl

theorem swallowedRest_cons_differs (item : LetItem) (items : List LetItem)
    (modules : List LetModule) (around : Nesting) :
    DifferInHeader localBindings true
      (swallowedRest bodyScope classScope opened (item :: items) modules)
      (letPieces around.scope (item :: items) ++ (Nesting.ofModules modules).closing around) := by
  rw [swallowedRest_cons, Nesting.closing_eq, letPieces_cons]
  exact ((item.swallowed_differs bodyScope around.scope localBindings).append
    (unscoped_letPieces classScope around.scope items)).append
      ((Nesting.ofModules modules).unscoped_closingTo opened around.left)

/-- **Behind a class whose `end` has been swallowed** one header is read in another
way than is meant, if anything stands there. -/
theorem swallowedRest_differs (items : List LetItem) (modules : List LetModule)
    (around : Nesting) :
    DifferInHeader localBindings (!nothingBehind items modules)
      (swallowedRest bodyScope classScope opened items modules)
      (letPieces around.scope items ++ (Nesting.ofModules modules).closing around) := by
  induction modules generalizing items around with
  | nil =>
      cases items with
      | nil => exact ⟨rfl, [], [], [], rfl, rfl, by simp [nothingBehind], fun _ => rfl, by simp⟩
      | cons item items => exact swallowedRest_cons_differs _ _ _ _ item items [] around
  | cons module outer ih =>
      cases items with
      | nil =>
          have hnothing : nothingBehind [] (module :: outer) =
              nothingBehind module.after outer := by
            simp [nothingBehind]
          have hrest := ih module.after around.left
          rw [← Program.pieces_ofLets] at hrest
          rw [hnothing]
          exact ⟨congrArg (List.cons _) hrest.words, hrest.names⟩
      | cons item items => exact swallowedRest_cons_differs _ _ _ _ item items _ around

/-- Where nothing stands behind a class, nothing is said there. -/
theorem contents_of_nothingBehind {items : List LetItem} {modules : List LetModule}
    (h : nothingBehind items modules = true) (around : Nesting) :
    (swallowedRest bodyScope classScope opened items modules).filterMap
          (Piece.content? localBindings) = [] ∧
      (letPieces around.scope items ++ (Nesting.ofModules modules).closing around).filterMap
          (Piece.content? localBindings) = [] := by
  rw [nothingBehind, Bool.and_eq_true, List.isEmpty_iff] at h
  obtain ⟨rfl, hmodules⟩ := h
  induction modules generalizing around with
  | nil => exact ⟨rfl, rfl⟩
  | cons module outer ih =>
      rw [List.all_cons, Bool.and_eq_true, List.isEmpty_iff] at hmodules
      obtain ⟨hafter, houter⟩ := hmodules
      obtain ⟨hfound, hmeant⟩ := ih around.left houter
      constructor
      · simpa [swallowedRest, hafter, List.filterMap_cons] using hfound
      · simpa [Nesting.ofModules, Nesting.closing, letPieces, hafter, List.filterMap_cons]
          using hmeant

end

/-- What is meant behind a class begins in the scope of a module, or in none. -/
theorem scope_of_rest {items : List LetItem} {modules : List LetModule} {around : Nesting}
    {localBindings : Bool} {content : String × Kind × Option Scope}
    {contents : List (String × Kind × Option Scope)}
    (h : (letPieces around.scope items ++ (Nesting.ofModules modules).closing around).filterMap
      (Piece.content? localBindings) = content :: contents) :
    ∃ levels : Nesting, content.2.2 = levels.scope := by
  induction modules generalizing items around with
  | nil =>
      cases items with
      | nil => cases h
      | cons item items =>
          obtain ⟨name, kind, hhead⟩ := item.toItem.content_head localBindings
          obtain ⟨rest, hrest⟩ := hhead around.scope
          rw [letPieces_cons, List.filterMap_append, List.filterMap_append, hrest] at h
          exact ⟨around, by rw [← (List.cons.inj h).1]⟩
  | cons module outer ih =>
      cases items with
      | nil =>
          have hrest : (letPieces around.left.scope module.after
              ++ (Nesting.ofModules outer).closing around.left).filterMap
                (Piece.content? localBindings) = content :: contents := by
            rw [← Program.pieces_ofLets]
            exact h
          exact ih hrest
      | cons item items =>
          obtain ⟨name, kind, hhead⟩ := item.toItem.content_head localBindings
          obtain ⟨rest, hrest⟩ := hhead around.scope
          rw [letPieces_cons, List.filterMap_append, List.filterMap_append, hrest] at h
          exact ⟨around, by rw [← (List.cons.inj h).1]⟩

/-! ## The whole class -/

/-- A member has the same words whatever they are marked with. -/
theorem Member.words_pieces (nameMark nameMark' : Option Mark) (inner inner' : Option Scope)
    (typeMark typeMark' : Option Mark) (member : Member) :
    (member.pieces nameMark inner typeMark).map Piece.word =
      (member.pieces nameMark' inner' typeMark').map Piece.word := by
  cases member <;> simp [pieces, paramPieces]

theorem words_foundMembers (scope : Option Scope) (stage : Stage) (members : List Member) :
    (foundMembers scope stage members).map Piece.word =
      (members.flatMap (Member.meant scope)).map Piece.word := by
  induction members generalizing stage with
  | nil => rfl
  | cons member members ih =>
      rw [foundMembers, List.flatMap_cons, List.map_append, List.map_append, ih]
      exact congrArg (· ++ _) (member.words_pieces _ _ _ _ _ _)

namespace ClassInModules

variable (source : ClassInModules) (localBindings : Bool)

/-- Behind a class whose last method has no body, one header is read in another way. -/
theorem foundRest_differs {method : LowerName} (h : source.stage = .awaiting method) :
    DifferInHeader localBindings (!nothingBehind source.further source.modules) source.foundRest
      source.restPieces := by
  rw [foundRest, h]
  exact swallowedRest_differs _ _ _ _ source.further source.modules source.levels

theorem words_found : source.found.map Piece.word = source.meant.map Piece.word := by
  have hrest : source.foundRest.map Piece.word = source.restPieces.map Piece.word := by
    cases hstage : source.stage with
    | within last => rw [foundRest, hstage]
    | awaiting method => exact (source.foundRest_differs true hstage).words
  simp [found, meant, words_foundMembers, hrest]

/-- If the tags are those that are meant, all members have been heard. -/
theorem hears_of_contents
    (h : source.found.filterMap (Piece.content? localBindings) =
      source.meant.filterMap (Piece.content? localBindings)) :
    (Stage.within none).forAll Stage.hears source.definition.members = true := by
  have hrest : memberCount localBindings source.foundRest =
      memberCount localBindings source.restPieces := by
    cases hstage : source.stage with
    | within last => rw [foundRest, hstage]
    | awaiting method => exact (source.foundRest_differs localBindings hstage).memberCount_eq
  have hcounts : memberCount localBindings source.found =
      memberCount localBindings source.meant := by
    rw [memberCount, memberCount, declaredNames, declaredNames, h]
  have hend : ∀ pieces, memberCount localBindings (.fixed .kwEnd :: pieces) =
      memberCount localBindings pieces := fun _ => rfl
  simp only [found, meant, memberCount_append, hend, hrest, memberCount_meant] at hcounts
  exact hears_of_memberCount (Nat.add_left_cancel (Nat.add_right_cancel hcounts))

/-- What stands behind the members is as it is meant if and only if no method waits
there, or only for what declares nothing. -/
theorem rest_iff
    (h : (Stage.within none).forAll Stage.hears source.definition.members = true) :
    leftover source.inner localBindings source.definition.members
          ++ source.foundRest.filterMap (Piece.content? localBindings) =
        source.restPieces.filterMap (Piece.content? localBindings) ↔
      source.keepsRest localBindings = true := by
  have hleftover := leftover_eq source.inner localBindings h
  rw [← stage] at hleftover
  unfold keepsRest
  cases hstage : source.stage with
  | within last =>
      rw [hstage] at hleftover
      rw [hleftover, foundRest, hstage]
      exact ⟨fun _ => rfl, fun _ => rfl⟩
  | awaiting method =>
      rw [hstage] at hleftover
      obtain ⟨type, hleftover⟩ := hleftover
      rw [hleftover]
      have hdiffers := source.foundRest_differs localBindings hstage
      cases localBindings with
      | true =>
          -- no module has the scope of a method
          refine ⟨fun hcontents => ?_, nofun⟩
          obtain ⟨levels, hscope⟩ := scope_of_rest hcontents.symm
          cases levels <;> cases hscope
      | false =>
          cases hnothing : nothingBehind source.further source.modules with
          | true =>
              have hempty := contents_of_nothingBehind
                (Scope.inside source.inner .methodDef method.text) source.inner source.levels false
                hnothing source.levels
              rw [foundRest, hstage]
              exact ⟨fun _ => rfl, fun _ => hempty.1.trans hempty.2.symm⟩
          | false =>
              rw [hnothing] at hdiffers
              exact ⟨fun hcontents => absurd hcontents hdiffers.contents_ne, nofun⟩

/-- **The tags are those that are meant** if and only if the members are, and what
stands behind them. -/
theorem contents_iff :
    source.found.filterMap (Piece.content? localBindings) =
        source.meant.filterMap (Piece.content? localBindings) ↔
      source.keepsScopes localBindings = true := by
  have hparts : source.found.filterMap (Piece.content? localBindings) =
        source.meant.filterMap (Piece.content? localBindings) ↔
      (foundMembers source.inner (.within none) source.definition.members).filterMap
            (Piece.content? localBindings)
          ++ source.foundRest.filterMap (Piece.content? localBindings) =
        (source.definition.members.flatMap (Member.meant source.inner)).filterMap
            (Piece.content? localBindings)
          ++ source.restPieces.filterMap (Piece.content? localBindings) := by
    simp [found, meant, List.filterMap_append, List.filterMap_cons]
  rw [keepsScopes, Bool.and_eq_true]
  constructor
  · intro h
    have hheard := source.hears_of_contents localBindings h
    rw [hparts, contents_members_iff _ _ _ _ hheard, source.rest_iff localBindings hheard] at h
    exact h
  · intro h
    have hheard := Stage.hears_of_keeps h.1
    rw [hparts, contents_members_iff _ _ _ _ hheard, source.rest_iff localBindings hheard]
    exact h

end ClassInModules

/-- **Classes with members of all sorts.**  Where the tokens of a text are the words of
a class inside of modules, with bindings behind it, the tags are those that the
machine finds from stage to stage, unless a frame did not fit; a frame of room for
each word is enough.  So the tags say what is meant if and only if no member stands
behind a method without a body, no value is mutable or behind a method, and if the
last method has no body, then nothing is declared behind the class and local
bindings are not asked for. -/
theorem extract_classBody (source : ClassInModules) (localBindings : Bool) (maxDepth : Nat)
    {text : String} (hspell : Spell (tokenize text) source.meant) :
    (source.meant.length ≤ maxDepth →
        (extract { localBindings, maxDepth } text).diagnostics = []) ∧
      ((extract { localBindings, maxDepth } text).diagnostics = [] →
        (extract { localBindings, maxDepth } text).tags =
            markedTags source.found localBindings text ((tokenize text).map Token.start) ∧
          ((extract { localBindings, maxDepth } text).tags.map Tag.content =
              source.meant.filterMap (Piece.content? localBindings) ↔
            source.keepsScopes localBindings = true)) := by
  have hfound : Spell (tokenize text) source.found := hspell.of_words source.words_found
  refine ⟨fun hroom => diagnostics_of_spell hspell localBindings hroom, fun hfits => ⟨?_, ?_⟩⟩
  · exact tags_of_start source.reads_found hfound localBindings hfits
  · rw [contents_of_start source.reads_found hfound localBindings hfits]
    exact source.contents_iff localBindings

/-- A value, a method and a method without a body, in a class inside of a module. -/
theorem extract_classBody_members :
    let upper (name : Char) (hname : startsWord name = true)
        (hkind : wordKind (String.ofList [name]) = .ident)
        (hupper : startsUpper (String.ofList [name]) = true) : UpperName :=
      ⟨⟨String.ofList [name], stands_word hname (by simp) hkind⟩, hupper⟩
    let lower (name : Char) (hname : startsWord name = true)
        (hkind : wordKind (String.ofList [name]) = .ident)
        (hlower : startsUpper (String.ofList [name]) = false) : LowerName :=
      ⟨⟨String.ofList [name], stands_word hname (by simp) hkind⟩, hlower⟩
    let one : Lexeme .literal := ⟨String.ofList ['1'], stands_number rfl (by simp)⟩
    let definition : ClassDef := ⟨.isVirtual, lower 'c' rfl rfl rfl,
      [.variable false (lower 'v' rfl rfl rfl) one,
        .method true (lower 'm' rfl rfl rfl) [lower 'p' rfl rfl rfl] one,
        .signature false true (lower 'n' rfl rfl rfl) (lower 'u' rfl rfl rfl),
        .method false (lower 'k' rfl rfl rfl) [] one]⟩
    let source : ClassInModules := ⟨[⟨upper 'M' rfl rfl rfl, []⟩], definition,
      [.binding ⟨false, lower 'x' rfl rfl rfl, []⟩ (.expr (.apply (.one (.literal one))))]⟩
    let text := String.ofList (spaced (source.meant.map Piece.word))
    Spell (tokenize text) source.meant ∧ source.keepsScopes false = false ∧
      (extract { localBindings := false, maxDepth := 256 } text).tags.map Tag.content =
        [("M", .moduleDef, none), ("c", .classDef, some ⟨.moduleDef, "M"⟩),
          ("v", .valSpec, some ⟨.classDef, "M/c"⟩), ("m", .methodDef, some ⟨.classDef, "M/c"⟩),
          ("n", .methodDef, some ⟨.classDef, "M/c"⟩),
          ("x", .variableDef, some ⟨.moduleDef, "M"⟩)] := by
  intro upper lower one definition source text
  have hspell : Spell (tokenize text) source.meant := spell_spaced source.meant
  obtain ⟨hroom, htags⟩ := extract_classBody source false 256 hspell
  obtain ⟨htags, -⟩ := htags (hroom (by decide))
  refine ⟨hspell, by decide, ?_⟩
  rw [htags, content_markedTags (by
    rw [List.length_map, (hspell.of_words source.words_found).length_eq])]
  decide

/-- The method `n` is taken for a parameter of `m`, and its body for that of `m`. -/
theorem virtual_swallows_method :
    (extract {} "class c = object method virtual m : u method n = 1 end").tags.map Tag.content =
      [("c", .classDef, none), ("m", .methodDef, some ⟨.classDef, "c"⟩)] := by
  decide +kernel

end CamlIndex
