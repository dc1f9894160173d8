import CamlIndex.Document
import CamlIndex.Proofs.Lockstep
import CamlIndex.Proofs.Room

/-!
# Ways to the tags of a text

The tags of a text can be asked for in several ways: all at once, handed on one by one,
from a pipeline that was made for some options, from the pipeline that is always ready,
and from a document that knows its path.  All ways lead to the same tags.

What a rule does with a token does not depend on the notes that are there already, and it
leaves them as they are (`step_withEarlier`).  So a machine whose notes are worked off after
every token notes the same as one that keeps them.

* `Delivery.step_since`, `Delivery.fold_since` — a delivery has handed on what the machine
  that keeps its notes has noted, after a token and after a run;
* `extractInto_eq` — handing tags on one by one is handing on those of `extract`;
* `ways_agree` — all ways, and what the module of a file adds.
-/

namespace CamlIndex

/-! ## Earlier notes -/

/-- The machine with notes that it has made earlier. -/
def Machine.withEarlier (m : Machine) (earlier : List Note) : Machine :=
  { m with notes := m.notes ++ earlier }

/-- The circumstance with notes that have been made earlier. -/
def Circumstance.withEarlier (w : Circumstance) (earlier : List Note) : Circumstance :=
  { w with notes := w.notes ++ earlier }

/-- Nothing is heard of earlier notes. -/
theorem lockstep_earlier (earlier : List Note) :
    Machine.Lockstep (fun w w' => w' = w.withEarlier earlier) Eq where
  content := by rintro token _ rfl; rfl
  capacity := by rintro w _ rfl; rfl
  reading := by rintro w _ current _ next _ rfl rfl rfl; rfl
  hear := by
    rintro w _ remark rfl
    cases remark with
    | confirmed =>
        cases hstaged : w.staged <;> simp [Circumstance.hear, Circumstance.withEarlier, hstaged]
    | _ => rfl
  refuse := by rintro w _ rfl; rfl
  note_moved := by rintro w _ token before after rfl; rfl

namespace Machine

/-- **A token is read alike**, whatever has been noted earlier. -/
theorem step_withEarlier (m : Machine) (earlier : List Note) (current next : Token) :
    (m.withEarlier earlier).step current next = (m.step current next).withEarlier earlier := by
  have habreast : Abreast (fun w w' => w' = w.withEarlier earlier) m (m.withEarlier earlier) :=
    ⟨m, m.circumstance, m.circumstance.withEarlier earlier, rfl, rfl, rfl⟩
  obtain ⟨left, w, _, hhere, hthere, rfl⟩ :=
    (lockstep_earlier earlier).step habreast (Eq.refl current) (Eq.refl next)
  rw [hhere, hthere]
  rfl

theorem confirm_withEarlier (m : Machine) (earlier : List Note) :
    (m.withEarlier earlier).confirm = m.confirm.withEarlier earlier := by
  cases hstaged : m.staged <;> simp [withEarlier, confirm, withdraw, note, hstaged]

end Machine

/-! ## Deliveries -/

namespace Delivery

variable {σ : Type} (options : Options) (lines : LineTable) (take : σ → Tag → σ)

/-- The delivery of what a machine has noted since `start`. -/
def since (start : σ) (m : Machine) : Delivery σ :=
  (⟨m, start, none⟩ : Delivery σ).flush options lines take

/-- What a note says is handed on the same by any machine. -/
theorem hand_machine (delivery : Delivery σ) (m : Machine) (note : Note) :
    { delivery with machine := m }.hand options lines take note =
      { delivery.hand options lines take note with machine := m } := by
  unfold hand
  split
  · split <;> rfl
  · dsimp only
    split <;> rfl
  · rfl

theorem foldr_hand_machine (notes : List Note) (delivery : Delivery σ) (m : Machine) :
    notes.foldr (fun note rest => rest.hand options lines take note)
        { delivery with machine := m } =
      { notes.foldr (fun note rest => rest.hand options lines take note) delivery with
        machine := m } := by
  induction notes with
  | nil => rfl
  | cons note notes ih => rw [List.foldr_cons, ih, hand_machine, List.foldr_cons]

theorem machine_since (start : σ) (m : Machine) :
    (since options lines take start m).machine = { m with notes := [] } := by
  have hmachine := foldr_hand_machine options lines take m.notes
    (⟨{ m with notes := [] }, start, none⟩ : Delivery σ) { m with notes := [] }
  exact congrArg Delivery.machine hmachine

/-- **Working off notes twice** is working them off together, if the machine goes on alike
with its earlier notes and without them. -/
theorem flush_since (start : σ) (m : Machine) (move : Machine → Machine)
    (hmove : ∀ m earlier, move (m.withEarlier earlier) = (move m).withEarlier earlier) :
    ({ since options lines take start m with
        machine := move (since options lines take start m).machine }).flush options lines take =
      since options lines take start (move m) := by
  let cleared : Machine := { m with notes := [] }
  have hmoved : move m = (move cleared).withEarlier m.notes := hmove cleared m.notes
  have hearlier := foldr_hand_machine options lines take m.notes
    (⟨cleared, start, none⟩ : Delivery σ) { move cleared with notes := [] }
  rw [machine_since, hmoved]
  unfold since flush
  simp only [Machine.withEarlier, List.foldr_append]
  rw [hearlier]

/-- **One token.** -/
theorem step_since (start : σ) (m : Machine) (current next : Token) :
    (since options lines take start m).step options lines take current next =
      since options lines take start (m.step current next) :=
  flush_since options lines take start m (·.step current next)
    fun m earlier => m.step_withEarlier earlier current next

/-- **A run.** -/
theorem fold_since (start : σ) (window : Window) (m : Machine) :
    window.fold (step options lines take) (since options lines take start m) =
      since options lines take start (window.fold Machine.step m) := by
  fun_induction Window.fold Machine.step window m with
  | case1 window m hdone => rw [Window.fold_of_isDone hdone]
  | case2 window m hdone _ ih => rw [Window.fold_of_not_isDone hdone, step_since, ih]

theorem taken_hand (delivery : Delivery σ) (note : Note) :
    (delivery.hand options lines take note).taken =
      (note.tag? options lines).toList.foldl take delivery.taken := by
  cases note with
  | declared declaration isLocal =>
      by_cases hwanted : options.wants declaration isLocal = true <;>
        simp [hand, Note.tag?, hwanted]
  | refused offset =>
      unfold hand
      dsimp only
      split <;> rfl
  | moved token before after => rfl

theorem overflowLine_hand (delivery : Delivery σ) (note : Note) :
    (delivery.hand options lines take note).overflowLine =
      delivery.overflowLine.or
        (note.refusal?.map fun offset => (lines.position offset).line + 1) := by
  unfold hand Note.refusal?
  split
  · split <;> exact (Option.or_none ..).symm
  · dsimp only
    cases hline : delivery.overflowLine with
    | some line => exact hline
    | none => rfl
  · exact (Option.or_none ..).symm

/-- What has been handed on are the tags of all notes, in the order in which they were made,
and what is remembered is the first refusal. -/
theorem since_eq (start : σ) (m : Machine) :
    (since options lines take start m).taken =
        (m.notes.reverse.filterMap (Note.tag? options lines)).foldl take start ∧
      (since options lines take start m).overflowLine =
        (m.notes.reverse.filterMap Note.refusal?).head?.map
          fun offset => (lines.position offset).line + 1 := by
  have hsingle : ∀ {β : Type} (f : Note → Option β) (note : Note),
      [note].filterMap f = (f note).toList := fun f note => by
    cases h : f note <;> simp [h]
  unfold since flush
  dsimp only
  induction m.notes with
  | nil => exact ⟨rfl, rfl⟩
  | cons note notes ih =>
      obtain ⟨htaken, hline⟩ := ih
      constructor
      · rw [List.foldr_cons, taken_hand, htaken, List.reverse_cons, List.filterMap_append,
          List.foldl_append, hsingle]
      · rw [List.foldr_cons, overflowLine_hand, hline, List.reverse_cons, List.filterMap_append,
          List.head?_append, hsingle, Option.head?_toList, Option.map_or]

/-- **The end of a run.** -/
theorem finish_since (start : σ) (m : Machine) :
    (since options lines take start m).finish options lines take =
      ((m.confirm.notes.reverse.filterMap (Note.tag? options lines)).foldl take start,
        if m.confirm.stack.refused = 0 then []
        else [.scopeOverflow m.confirm.stack.capacity m.confirm.stack.refused
          (((m.confirm.notes.reverse.filterMap Note.refusal?).head?.map
            fun offset => (lines.position offset).line + 1).getD 1)]) := by
  obtain ⟨htaken, hline⟩ := since_eq options lines take start m.confirm
  rw [finish, flush_since options lines take start m Machine.confirm Machine.confirm_withEarlier]
  rw [htaken, hline, machine_since]

end Delivery

/-! ## Texts -/

/-- At the end of a text the stack is as it was, and knows of all refusals. -/
theorem stack_read (capacity : Nat) (text : String) :
    let m := (Machine.start capacity).read (.ofText text)
    m.stack.capacity = capacity ∧ m.stack.refused = m.refusals.length := by
  have hstack : ∀ m : Machine, m.confirm.stack = m.stack := by
    intro m
    cases hstaged : m.staged <;> simp [Machine.confirm, Machine.withdraw, Machine.note, hstaged]
  have hfills := Machine.fills_readAll (.start capacity) (Token.endAt text.utf8ByteSize)
    (tokenize text)
  dsimp only
  rw [Machine.read_ofText, hstack, Machine.refusals_confirm]
  exact ⟨hfills.capacity, (hfills.tallied rfl).symm⟩

/-- What is reported takes no more than the number of refusals and the first of them. -/
theorem overflowDiagnostics_eq (capacity : Nat) (lines : LineTable) (offsets : List Nat) :
    overflowDiagnostics capacity lines offsets =
      if offsets.length = 0 then []
      else [.scopeOverflow capacity offsets.length
        ((offsets.head?.map fun offset => (lines.position offset).line + 1).getD 1)] := by
  cases offsets <;> rfl

/-- **Handing tags on one by one** is handing on those of `extract`. -/
theorem extractInto_eq {σ : Type} (options : Options) (text : String) (take : σ → Tag → σ)
    (start : σ) :
    extractInto options text take start =
      ((extract options text).tags.foldl take start, (extract options text).diagnostics) := by
  let read := (Machine.start options.maxDepth).read (.ofText text)
  have hrun : extractInto options text take start =
      (Delivery.since options (.ofText text) take
        ((options.fileModuleTags text).foldl take start)
        ((Window.ofText text).fold Machine.step (.start options.maxDepth))).finish options
          (.ofText text) take := by
    rw [← Delivery.fold_since]
    rfl
  have htags : (extract options text).tags.foldl take start =
      (read.notes.reverse.filterMap (Note.tag? options (.ofText text))).foldl take
        ((options.fileModuleTags text).foldl take start) := List.foldl_append
  have hdiagnostics : (extract options text).diagnostics =
      if read.stack.refused = 0 then []
      else [.scopeOverflow read.stack.capacity read.stack.refused
        (((read.notes.reverse.filterMap Note.refusal?).head?.map
          fun offset => ((LineTable.ofText text).position offset).line + 1).getD 1)] := by
    obtain ⟨hcapacity, hrefused⟩ := stack_read options.maxDepth text
    have hlength : (read.notes.reverse.filterMap Note.refusal?).length = read.stack.refused := by
      rw [List.filterMap_reverse, List.length_reverse]
      exact hrefused.symm
    rw [hcapacity, ← hlength, ← overflowDiagnostics_eq]
    rfl
  rw [hrun, Delivery.finish_since, htags, hdiagnostics]
  rfl

theorem collect_eq (options : Options) (text : String) :
    collect options text = extract options text := by
  rw [collect, extractInto_eq]
  simp

/-! ## Documents -/

namespace Document

/-- **A document has the tags of its text**, whichever pipeline they come from. -/
theorem extract_eq (document : Document) (options : Options) :
    document.extract options = .ok (CamlIndex.extract options document.text) := by
  have htags : ∀ options : Options, document.run (.tags options) =
      .ok (CamlIndex.extract options document.text) := by
    intro options
    rw [← collect_eq]
    rfl
  unfold extract
  split
  · next hdefault =>
      rw [hdefault]
      exact htags {}
  · exact htags options

/-- The module of a file counts if the options name none, be it the empty one. -/
theorem extractAs_eq (document : Document) (module? : Option String) (options : Options) :
    document.extractAs module? options =
      .ok (CamlIndex.extract { options with fileModule := options.fileModule.or module? }
        document.text) := by
  obtain ⟨kinds, localBindings, maxDepth, fileModule⟩ := options
  cases module? <;> cases fileModule <;> exact document.extract_eq _

end Document

/-! ## The module of a file -/

/-- What the module of a file adds: one tag at the start of the text, if the module has a
name, modules are wanted and there is a token. -/
theorem extract_named (options : Options) (text name : String) :
    extract { options with fileModule := some name } text =
      { tags := (if name ≠ "" ∧ options.kinds.contains .moduleDef = true ∧ tokenize text ≠ [] then
            [⟨name, .moduleDef, 1, 0, 0, none⟩] else [])
          ++ (extract { options with fileModule := none } text).tags
        diagnostics := (extract { options with fileModule := none } text).diagnostics } := by
  have htags : { options with fileModule := some name }.fileModuleTags text =
      if name ≠ "" ∧ options.kinds.contains .moduleDef = true ∧ tokenize text ≠ [] then
        [⟨name, .moduleDef, 1, 0, 0, none⟩] else [] := by
    unfold Options.fileModuleTags
    rw [Window.isDone_ofText]
    by_cases hname : name = "" <;> by_cases hkind : options.kinds.contains .moduleDef = true <;>
      by_cases htokens : tokenize text = [] <;> simp [hname, hkind, htokens]
  rw [← htags]
  rfl

/-- What it means that all ways to the tags of a text lead to the same tags. -/
structure WaysAgree (options : Options) (text : String) : Prop where
  /-- The tags may be taken one by one. -/
  streamed : ∀ {σ : Type} (take : σ → Tag → σ) (start : σ),
    extractInto options text take start =
      ((extract options text).tags.foldl take start, (extract options text).diagnostics)
  /-- They may come from a pipeline made for the options, or from the one that is ready. -/
  pipeline : (Pipeline.tags options).run text = .ok (extract options text)
  ready : Pipeline.defaultTags.run text = .ok (extract {} text)
  /-- They may be asked of a document, wherever it comes from. -/
  document : ∀ path : Option String,
    (Document.mk text path).extract options = .ok (extract options text)
  /-- With the module of its file the options count first, and then the path. -/
  file : ∀ path : Option String,
    (Document.mk text path).extractFile options =
      .ok (extract { options with
        fileModule := options.fileModule.or
          (path.bind fun path => Path.moduleName? (Utf8.encode path)) } text)
  /-- The same for a path that is not UTF-8. -/
  bytes : ∀ (path : Option String) (bytes : List UInt8),
    (Document.mk text path).extractAs (Path.moduleName? bytes) options =
      .ok (extract { options with
        fileModule := options.fileModule.or (Path.moduleName? bytes) } text)
  /-- The module of a file adds its own tag and nothing else. -/
  named : ∀ name : String,
    extract { options with fileModule := some name } text =
      { tags := (if name ≠ "" ∧ options.kinds.contains .moduleDef = true ∧ tokenize text ≠ [] then
            [⟨name, .moduleDef, 1, 0, 0, none⟩] else [])
          ++ (extract { options with fileModule := none } text).tags
        diagnostics := (extract { options with fileModule := none } text).diagnostics }

/-- **All ways to the tags of a text agree**, whatever is chosen. -/
theorem ways_agree (options : Options) (text : String) : WaysAgree options text where
  streamed := extractInto_eq options text
  pipeline := congrArg Except.ok (collect_eq options text)
  ready := congrArg Except.ok (collect_eq {} text)
  document path := Document.extract_eq ⟨text, path⟩ options
  file path := Document.extractAs_eq ⟨text, path⟩ _ options
  bytes path _ := Document.extractAs_eq ⟨text, path⟩ _ options
  named := extract_named options text

end CamlIndex
