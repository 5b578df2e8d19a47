import SchemaLink.CommandLine.Run
import SchemaLink.Compilation.Report
import SchemaLink.Compilation.Session
import SchemaLink.Main
import SchemaLink.Proofs.Compilation.DeclaredFields
import SchemaLink.Proofs.Compilation.ExtraMembers
import SchemaLink.Proofs.Compilation.Failures
import SchemaLink.Proofs.Compilation.Fields
import SchemaLink.Proofs.Compilation.FixedPoint
import SchemaLink.Proofs.Compilation.Frame
import SchemaLink.Proofs.Compilation.GivenIds
import SchemaLink.Proofs.Compilation.Linking
import SchemaLink.Proofs.Compilation.Lookups
import SchemaLink.Proofs.Compilation.Recompilation
import SchemaLink.Proofs.Compilation.Redaction
import SchemaLink.Proofs.Compilation.Report
import SchemaLink.Proofs.Compilation.Requests
import SchemaLink.Proofs.Compilation.Retention
import SchemaLink.Proofs.Compilation.RoundTrip
import SchemaLink.Proofs.Compilation.Sessions
import SchemaLink.Proofs.Compilation.Structure
import SchemaLink.Proofs.Compilation.WithoutRelations
import SchemaLink.Proofs.Distinct
import SchemaLink.Proofs.Document.Extras
import SchemaLink.Proofs.Document.Numbers
import SchemaLink.Proofs.Document.Restoring
import SchemaLink.Proofs.Files.Paths
import SchemaLink.Proofs.Files.Writing
import SchemaLink.Proofs.Ids.Allocation
import SchemaLink.Proofs.Ids.Ownership
import SchemaLink.Proofs.Ids.PriorOutput
import SchemaLink.Proofs.Ids.Recording
import SchemaLink.Proofs.Json.Members
import SchemaLink.Proofs.Json.Numbers
import SchemaLink.Proofs.Json.Numerals
import SchemaLink.Proofs.Json.Records
import SchemaLink.Proofs.Json.Restoring
import SchemaLink.Proofs.Json.Strings
import SchemaLink.Proofs.Json.Taking
import SchemaLink.Proofs.Json.Tokens
import SchemaLink.Proofs.Json.WholeNumbers
import SchemaLink.Proofs.Linker.Anchors
import SchemaLink.Proofs.Linker.Extension
import SchemaLink.Proofs.Linker.FieldIds
import SchemaLink.Proofs.Linker.Listings
import SchemaLink.Proofs.Linker.Redaction
import SchemaLink.Proofs.Linker.Templates
import SchemaLink.Proofs.Linker.Walks
import SchemaLink.Proofs.Path.Covering
import SchemaLink.Proofs.Path.Grammar
import SchemaLink.Proofs.Path.Patterns
import SchemaLink.Proofs.Path.Recognition
import SchemaLink.Proofs.Path.Sources
import SchemaLink.Proofs.Path.Spelling
import SchemaLink.Proofs.Registry.Groups
import SchemaLink.Proofs.SortedMap
import SchemaLink.Proofs.Text.Pieces
import SchemaLink.Proofs.Workspace.Documents
import SchemaLink.Proofs.Workspace.FailedRuns
import SchemaLink.Proofs.Workspace.Outputs
import SchemaLink.Workspace.Run
import SchemaLink.Proofs.Compilation.Identity
import SchemaLink.Proofs.Compilation.Vanishing
import SchemaLink.Proofs.Linker.Readback
import SchemaLink.Proofs.Registry.SystemNames
import SchemaLink.Proofs.Text.Fronts
import SchemaLink.Proofs.Registry.OnePass
import SchemaLink.Proofs.Path.Longest
import SchemaLink.Proofs.Path.Segmentation
import SchemaLink.Proofs.Path.Separation
import SchemaLink.Proofs.Compilation.RepeatedNames
import SchemaLink.Proofs.Compilation.OnRecord
import SchemaLink.Proofs.Ids.Ranks
import SchemaLink.Proofs.Linker.Reach
import SchemaLink.Proofs.Json.Presence
import SchemaLink.Proofs.Ids.Operations
import SchemaLink.Proofs.Linker.Combinations
import SchemaLink.Proofs.Linker.Frontiers
import SchemaLink.Proofs.Path.Lexemes
