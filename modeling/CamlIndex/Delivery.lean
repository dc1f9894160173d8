import CamlIndex.Extraction

/-!
# Handing tags on

A reader of tags need not wait for the end of a text: `extractInto` hands on each
tag as soon as the machine is sure of it.  What becomes of the tags is up to the
reader, who takes them one by one.  The notes of the machine are worked off after
every token and none is kept, so of the frames that were refused only their number
and the line of the first are known in the end.

`collect` is the reader that keeps all tags.  It comes to the same as `extract`.
-/

namespace CamlIndex

/-- A run that hands on its tags. -/
structure Delivery (σ : Type) where
  machine : Machine
  /-- What has become of the tags so far. -/
  taken : σ
  /-- The line on which a frame was refused for the first time. -/
  overflowLine : Option Nat

namespace Delivery

variable {σ : Type} (options : Options) (lines : LineTable) (take : σ → Tag → σ)

/-- Hands on the tag that a note gives rise to, and remembers the first refusal. -/
def hand (delivery : Delivery σ) : Note → Delivery σ
  | .declared declaration isLocal =>
    if options.wants declaration isLocal then
      { delivery with taken := take delivery.taken (declaration.toTag lines) }
    else delivery
  | .refused offset =>
    match delivery.overflowLine with
    | some _ => delivery
    | none => { delivery with overflowLine := some ((lines.position offset).line + 1) }
  | .moved _ _ _ => delivery

/-- Works off the notes of the machine. -/
def flush (delivery : Delivery σ) : Delivery σ :=
  delivery.machine.notes.foldr (fun note rest => rest.hand options lines take note)
    { delivery with machine := { delivery.machine with notes := [] } }

/-- Reads a token, with the next one in view. -/
def step (delivery : Delivery σ) (current next : Token) : Delivery σ :=
  { delivery with machine := delivery.machine.step current next }.flush options lines take

/-- What has become of the tags at the end of the text, and the diagnostics. -/
def finish (delivery : Delivery σ) : σ × List Diagnostic :=
  let last := { delivery with machine := delivery.machine.confirm }.flush options lines take
  let stack := last.machine.stack
  (last.taken,
    if stack.refused = 0 then []
    else [.scopeOverflow stack.capacity stack.refused (last.overflowLine.getD 1)])

end Delivery

/-- Hands on the tags of a text one by one, and tells the diagnostics in the end. -/
def extractInto {σ : Type} (options : Options) (text : String) (take : σ → Tag → σ) (start : σ) :
    σ × List Diagnostic :=
  let lines := LineTable.ofText text
  let first : Delivery σ :=
    ⟨.start options.maxDepth, (options.fileModuleTags text).foldl take start, none⟩
  ((Window.ofText text).fold (Delivery.step options lines take) first).finish options lines take

/-- The tags of a text and its diagnostics, with all tags kept that are handed on. -/
def collect (options : Options) (text : String) : Extraction :=
  let (tags, diagnostics) := extractInto options text (fun tags tag => tag :: tags) []
  ⟨tags.reverse, diagnostics⟩

end CamlIndex
