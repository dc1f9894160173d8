import CamlIndex.Main
import CamlIndex.Proofs.Sliding
import CamlIndex.Expectation
import CamlIndex.Proofs.Walk
import CamlIndex.Proofs.Course
import CamlIndex.Proofs.Announcement
import CamlIndex.Proofs.Finding
import CamlIndex.Proofs.Place
import CamlIndex.Proofs.Lines
import CamlIndex.Proofs.Pointing
import CamlIndex.Proofs.Bytes
import CamlIndex.Proofs.Indices
import CamlIndex.Proofs.Counters
import CamlIndex.Proofs.Language.Layout
import CamlIndex.Proofs.Language.Syntax
import CamlIndex.Proofs.Room
import CamlIndex.Proofs.Language.Reading
import CamlIndex.Proofs.Language.Expressions
import CamlIndex.Proofs.Language.Settling
import CamlIndex.Proofs.Language.Types
import CamlIndex.Proofs.Language.Items
import CamlIndex.Proofs.Language.Agreement
import CamlIndex.Proofs.Reaction
import CamlIndex.Proofs.Indifference
import CamlIndex.Proofs.Lockstep
import CamlIndex.Proofs.Selection
import CamlIndex.Proofs.Capacity
import CamlIndex.Proofs.Spacing
import CamlIndex.Proofs.Foresight
import CamlIndex.Proofs.Truncation
import CamlIndex.Proofs.Language.Wording
import CamlIndex.Proofs.Language.Nesting
import CamlIndex.Proofs.Language.Passing
import CamlIndex.Proofs.Language.Chains
import CamlIndex.Proofs.Language.LocalPatterns
import CamlIndex.Proofs.Language.BracketedMatches
import CamlIndex.Proofs.Language.Separators
import CamlIndex.Proofs.Language.Signatures
import CamlIndex.Proofs.Language.Interfaces
import CamlIndex.Proofs.Language.Annotations
import CamlIndex.Proofs.Language.Variants
import CamlIndex.Proofs.Language.Members
import CamlIndex.Proofs.Language.ClassBodies
import CamlIndex.Proofs.Language.ModuleHeaders
import CamlIndex.Proofs.Discipline
import CamlIndex.Proofs.Skipping
import CamlIndex.Proofs.Histories
import CamlIndex.Proofs.Qualifying
import CamlIndex.Proofs.Tiling
import CamlIndex.Proofs.Naming
import CamlIndex.Proofs.Fields
import CamlIndex.Proofs.Comments
import CamlIndex.Proofs.Batches
import CamlIndex.Proofs.Json.Reading
import CamlIndex.Proofs.Json.RoundTrip
import CamlIndex.Proofs.Json.Listing
import CamlIndex.Proofs.Settings.Keys
import CamlIndex.Proofs.Settings.Layering
import CamlIndex.Proofs.Literals
import CamlIndex.Proofs.Delimiting
import CamlIndex.Proofs.Constructors
import CamlIndex.Proofs.Overflow
import CamlIndex.Proofs.Labels
import CamlIndex.Proofs.Language.Hearing
import CamlIndex.Proofs.Language.Parameters
import CamlIndex.Proofs.Language.BoundExpressions
import CamlIndex.Proofs.Language.FinishedBindings
import CamlIndex.Proofs.Resumption
import CamlIndex.Proofs.TagLines
import CamlIndex.Proofs.Sorting
import CamlIndex.Proofs.Loading
import CamlIndex.Proofs.Pairing
import CamlIndex.Proofs.Escaping
import CamlIndex.Proofs.Positions
