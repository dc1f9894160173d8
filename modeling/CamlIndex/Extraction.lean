import CamlIndex.Diagnostic
import CamlIndex.Machine.Step

/-!
# From a text to its tags

The machine notes every declaration of a text.  `Options` choose among them:
the wanted kinds, and whether parameters and local bindings count.  What is
chosen becomes a tag, with its place taken from the line table of the text.
The module that a file defines as a whole may be put in front; its tag stands
at the start of the text and needs at least one token there.

Refused frames become a single diagnostic, which counts them and names the line
of the first.

`extract` gives tags and diagnostics.  `trace` tells the whole story, with the
changes of mode in between.
-/

namespace CamlIndex

/-- What to extract from a text. -/
structure Options where
  /-- The wanted kinds; the others still open scopes. -/
  kinds : KindSet := .all
  /-- Whether parameters and bindings inside expressions are wanted. -/
  localBindings : Bool := false
  /-- How many frames the stack of scopes may hold. -/
  maxDepth : Nat := ScopeStack.defaultCapacity
  /-- The name of the module that the text defines as a whole. -/
  fileModule : Option String := none
  deriving DecidableEq

/-- The tags of a text and what is to be said about them. -/
structure Extraction where
  tags : List Tag
  diagnostics : List Diagnostic
  deriving DecidableEq, Repr

namespace Options

/-- Whether a noted declaration is wanted. -/
def wants (options : Options) (declaration : Declaration) (isLocal : Bool) : Bool :=
  options.kinds.contains declaration.kind && (!isLocal || options.localBindings)

/-- The tag of the module that a text defines as a whole.  A text without
tokens defines none. -/
def fileModuleTags (options : Options) (text : String) : List Tag :=
  match options.fileModule with
  | some name =>
    if (Window.ofText text).isDone || name.isEmpty || !options.kinds.contains .moduleDef then []
    else [⟨name, .moduleDef, 1, 0, 0, none⟩]
  | none => []

end Options

/-- The tag of a declaration of a text with the given lines. -/
def Declaration.toTag (lines : LineTable) (declaration : Declaration) : Tag :=
  let position := lines.position declaration.offset
  ⟨declaration.name, declaration.kind, position.line + 1, position.column,
    declaration.offset, declaration.scope⟩

/-- The tag that a note gives rise to. -/
def Note.tag? (options : Options) (lines : LineTable) : Note → Option Tag
  | .declared declaration isLocal =>
    if options.wants declaration isLocal then some (declaration.toTag lines) else none
  | _ => none

/-- Where a frame was refused, if the note says so. -/
def Note.refusal? : Note → Option Nat
  | .refused offset => some offset
  | _ => none

/-- The diagnostic for the frames that were refused at the given offsets. -/
def overflowDiagnostics (capacity : Nat) (lines : LineTable) : List Nat → List Diagnostic
  | [] => []
  | first :: later =>
    [.scopeOverflow capacity (later.length + 1) ((lines.position first).line + 1)]

/-- The tags of a text and its diagnostics. -/
def extract (options : Options) (text : String) : Extraction :=
  let lines := LineTable.ofText text
  let notes := Machine.notesOf options.maxDepth text
  { tags := options.fileModuleTags text ++ notes.filterMap (Note.tag? options lines)
    diagnostics := overflowDiagnostics options.maxDepth lines (notes.filterMap Note.refusal?) }

/-! ## The whole story -/

/-- Something that happens while a text is extracted. -/
inductive Event where
  | tagged (tag : Tag)
  /-- A frame did not fit for the first time. -/
  | overflowed (line capacity : Nat)
  | moved (token : TokenKind) (before after : Mode)
  | finished (tags diagnostics bytes : Nat)
  deriving DecidableEq, Repr

/-- The events that notes give rise to; `overflowed` tells whether a frame was
refused before them. -/
def eventsOf (options : Options) (lines : LineTable) : (overflowed : Bool) → List Note → List Event
  | _, [] => []
  | overflowed, .declared declaration isLocal :: notes =>
    if options.wants declaration isLocal then
      .tagged (declaration.toTag lines) :: eventsOf options lines overflowed notes
    else eventsOf options lines overflowed notes
  | false, .refused offset :: notes =>
    .overflowed ((lines.position offset).line + 1) options.maxDepth
      :: eventsOf options lines true notes
  | true, .refused _ :: notes => eventsOf options lines true notes
  | overflowed, .moved token before after :: notes =>
    .moved token before after :: eventsOf options lines overflowed notes

/-- Everything that happens while a text is extracted. -/
def trace (options : Options) (text : String) : List Event :=
  let result := extract options text
  (options.fileModuleTags text).map .tagged
    ++ eventsOf options (.ofText text) false (Machine.notesOf options.maxDepth text)
    ++ [.finished result.tags.length result.diagnostics.length text.utf8ByteSize]

end CamlIndex
