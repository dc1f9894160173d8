import CamlIndex.Listing.Format
import CamlIndex.Settings.Decode

/-!
# Reading the command line

Arguments are read from left to right.  An option takes its value from the same
argument or the next one; a switch takes none, and options of one letter may be
joined behind a single dash.  What is no option is the path of a file, and after
`--` everything is.

The first mistake decides, and so does a request for the version: what comes
after it is not looked at.
-/

namespace CamlIndex.Command

/-- What the command line asks for. -/
structure Request where
  paths : List String := []
  format : Option Format := none
  configuration : Option String := none
  /-- The letters of the wanted kinds. -/
  kinds : Option String := none
  localBindings : Bool := false
  noFileModule : Bool := false
  noSort : Bool := false
  noHeader : Bool := false
  maxDepth : Option Nat := none
  /-- The file to write the listing to. -/
  output : Option String := none
  listKinds : Bool := false
  verbosity : Nat := 0
  deriving DecidableEq, Repr

/-- How the program was called. -/
inductive Call where
  | run (request : Request)
  | version
  | help
  /-- The arguments make no sense. -/
  | misuse
  deriving DecidableEq, Repr

/-- An option without a value. -/
inductive Switch where
  | localBindings | noFileModule | noSort | noHeader | listKinds | verbose | version | help
  deriving DecidableEq, Repr

/-- An option with a value. -/
inductive Choice where
  | format | configuration | kinds | maxDepth | output
  deriving DecidableEq, Repr

/-- The options with a long name. -/
def longNames : List (String × (Switch ⊕ Choice)) :=
  [("format", .inr .format), ("config", .inr .configuration), ("kinds", .inr .kinds),
   ("local", .inl .localBindings), ("no-file-module", .inl .noFileModule),
   ("no-sort", .inl .noSort), ("no-header", .inl .noHeader), ("max-depth", .inr .maxDepth),
   ("output", .inr .output), ("list-kinds", .inl .listKinds), ("verbose", .inl .verbose),
   ("version", .inl .version), ("help", .inl .help)]

/-- The options with a letter. -/
def letters : List (Char × (Switch ⊕ Choice)) :=
  [('f', .inr .format), ('c', .inr .configuration), ('o', .inr .output), ('v', .inl .verbose),
   ('V', .inl .version), ('h', .inl .help)]

/-- Turns a switch on.  Only the one for more messages may be given again. -/
def Switch.apply (switch : Switch) (request : Request) : Except Call Request :=
  let once (given : Bool) (changed : Request) : Except Call Request :=
    if given then .error .misuse else .ok changed
  match switch with
  | .localBindings => once request.localBindings { request with localBindings := true }
  | .noFileModule => once request.noFileModule { request with noFileModule := true }
  | .noSort => once request.noSort { request with noSort := true }
  | .noHeader => once request.noHeader { request with noHeader := true }
  | .listKinds => once request.listKinds { request with listKinds := true }
  | .verbose => .ok { request with verbosity := request.verbosity + 1 }
  | .version => .error .version
  | .help => .error .help

/-- A depth on the command line: a number from one. -/
def depth? (value : String) : Option Nat :=
  (Settings.natural? value).filter fun n => 1 ≤ n ∧ n ≤ Settings.depthLimit

/-- Gives an option its value, which can be done once. -/
def Choice.apply (choice : Choice) (value : String) (request : Request) : Except Call Request :=
  let once (given : Bool) (changed : Request) : Except Call Request :=
    if given then .error .misuse else .ok changed
  match choice with
  | .configuration => once request.configuration.isSome { request with configuration := some value }
  | .kinds => once request.kinds.isSome { request with kinds := some value }
  | .output => once request.output.isSome { request with output := some value }
  | .format =>
    match Format.ofName? value with
    | some named => once request.format.isSome { request with format := some named }
    | none => .error .misuse
  | .maxDepth =>
    match depth? value with
    | some depth => once request.maxDepth.isSome { request with maxDepth := some depth }
    | none => .error .misuse

/-- What an argument leaves open. -/
inductive Progress where
  | complete (request : Request)
  /-- The value of an option is to come. -/
  | awaits (choice : Choice) (request : Request)

/-- Reads an option with a long name, without its dashes. -/
def readLong (request : Request) (cs : List Char) : Except Call Progress := do
  let name := String.ofList (cs.takeWhile (· ≠ '='))
  let attached := (cs.dropWhile (· ≠ '=')).tail?.map String.ofList
  match longNames.lookup name, attached with
  | some (.inl switch), none => return .complete (← switch.apply request)
  | some (.inr choice), none => return .awaits choice request
  | some (.inr choice), some value => return .complete (← choice.apply value request)
  | _, _ => .error .misuse

/-- Reads options of one letter that are joined, without their dash.  The first
one with a value takes the rest for it. -/
def readLetters (request : Request) : List Char → Except Call Progress
  | [] => .ok (.complete request)
  | c :: cs =>
    match letters.lookup c with
    | some (.inl switch) => do readLetters (← switch.apply request) cs
    | some (.inr choice) =>
      match cs with
      | [] => .ok (.awaits choice request)
      | '=' :: value => do return .complete (← choice.apply (String.ofList value) request)
      | value => do return .complete (← choice.apply (String.ofList value) request)
    | none => .error .misuse

/-- Whether an argument reads as an option. -/
def isOption (argument : String) : Bool :=
  match argument.toList with
  | '-' :: _ :: _ => true
  | _ => false

/-- Reads one argument. -/
def readArgument (request : Request) (argument : String) : Except Call Progress :=
  match argument.toList with
  | '-' :: '-' :: cs => readLong request cs
  | '-' :: c :: cs => readLetters request (c :: cs)
  | _ => .ok (.complete { request with paths := request.paths ++ [argument] })

/-- Reads arguments one after the other. -/
def readArguments (request : Request) : List String → Except Call Request
  | [] => .ok request
  | argument :: rest =>
    if argument = "--" then .ok { request with paths := request.paths ++ rest }
    else
      match readArgument request argument with
      | .error call => .error call
      | .ok (.complete request) => readArguments request rest
      | .ok (.awaits choice request) =>
        match rest with
        | [] => .error .misuse
        | value :: rest =>
          if isOption value then .error .misuse
          else match choice.apply value request with
            | .error call => .error call
            | .ok request => readArguments request rest

/-- How the program was called.  Without files there must be something to list. -/
def Call.ofArguments (arguments : List String) : Call :=
  match readArguments {} arguments with
  | .error call => call
  | .ok request =>
    if request.paths.isEmpty && !request.listKinds then .misuse else .run request

end CamlIndex.Command
