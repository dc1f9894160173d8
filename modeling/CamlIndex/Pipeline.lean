import CamlIndex.Delivery

/-!
# Pipelines

A pipeline takes a text, or what an earlier stage made of it, and may fail at
any of its stages; the first stage that fails decides.  Pipelines are joined
with `andThen`.
-/

namespace CamlIndex

/-- Why a pipeline failed. -/
inductive PipelineError where
  | general (message : String)
  /-- A named stage failed. -/
  | inStage (stage message : String)
  deriving DecidableEq, Repr

/-- The failure in words. -/
def PipelineError.message : PipelineError → String
  | .general message => message
  | .inStage stage message => "Stage '" ++ stage ++ "' failed: " ++ message

/-- What makes a `β` of an `α`, or fails. -/
structure Pipeline (α β : Type) where
  run : α → Except PipelineError β

namespace Pipeline

/-- The pipeline without stages. -/
def identity {α : Type} : Pipeline α α :=
  ⟨.ok⟩

/-- A stage that cannot fail. -/
def ofFunction {α β : Type} (f : α → β) : Pipeline α β :=
  ⟨fun input => .ok (f input)⟩

/-- A stage that always fails. -/
def fail {α β : Type} (error : PipelineError) : Pipeline α β :=
  ⟨fun _ => .error error⟩

/-- One pipeline after the other. -/
def andThen {α β γ : Type} (first : Pipeline α β) (second : Pipeline β γ) : Pipeline α γ :=
  ⟨fun input => first.run input >>= second.run⟩

/-- The stage that reads the tokens of a text. -/
def tokens : Pipeline String (List Token) :=
  ofFunction tokenize

/-- The stage that extracts the tags of a text. -/
def extraction (options : Options) : Pipeline String Extraction :=
  ofFunction (collect options)

/-- From a text to its tags. -/
def tags (options : Options) : Pipeline String Extraction :=
  identity.andThen (extraction options)

/-- From a text to its tags, with nothing chosen; made once and used again. -/
def defaultTags : Pipeline String Extraction :=
  tags {}

end Pipeline

end CamlIndex
