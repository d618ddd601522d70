import ProtoForge.Bytes
import ProtoForge.CommandLine.Arguments
import ProtoForge.CommandLine.CodegenTool
import ProtoForge.CommandLine.SettingsTool
import ProtoForge.CommandLine.Snapshot
import ProtoForge.CommandLine.Terminal
import ProtoForge.Decimal.Reader
import ProtoForge.Decimal.Shortest
import ProtoForge.Diagnostic
import ProtoForge.DiagnosticReader
import ProtoForge.Digest.Framed
import ProtoForge.Digest.Sha256
import ProtoForge.Document.Json
import ProtoForge.Document.Json.Number
import ProtoForge.Document.KeyPath
import ProtoForge.Document.ReadFault
import ProtoForge.Document.Reading
import ProtoForge.Document.Toml.Parser
import ProtoForge.Document.Toml.Printer
import ProtoForge.Document.Toml.Scanner
import ProtoForge.Document.Tree
import ProtoForge.Document.Value
import ProtoForge.Failure
import ProtoForge.FileDescriptor
import ProtoForge.Files.Access
import ProtoForge.Files.Disk
import ProtoForge.Files.Fault
import ProtoForge.Files.Walk
import ProtoForge.Generation.Batch
import ProtoForge.Generation.Dispatcher
import ProtoForge.Generation.OutputPath
import ProtoForge.Glob.Parser
import ProtoForge.Glob.Pattern
import ProtoForge.Glob.Plan
import ProtoForge.Glob.Regex
import ProtoForge.Glob.Rules
import ProtoForge.Guest.Compiler
import ProtoForge.Guest.Executor
import ProtoForge.Guest.Host
import ProtoForge.Guest.Image
import ProtoForge.Guest.Machine
import ProtoForge.Guest.Memory
import ProtoForge.Guest.Module
import ProtoForge.Guest.Output
import ProtoForge.Guest.Reader
import ProtoForge.Guest.Typing
import ProtoForge.Main
import ProtoForge.OrderedMap
import ProtoForge.Output.Transaction
import ProtoForge.Package.Archive
import ProtoForge.Package.Content
import ProtoForge.Package.Coordinate
import ProtoForge.Path
import ProtoForge.Pipeline
import ProtoForge.Plugin.Request
import ProtoForge.Plugin.Response
import ProtoForge.Proofs.Digest.Framing
import ProtoForge.Proofs.Files.Building
import ProtoForge.Proofs.Files.CanonicalPaths
import ProtoForge.Proofs.Files.CanonicalTexts
import ProtoForge.Proofs.Files.Components
import ProtoForge.Proofs.Files.Enclosure
import ProtoForge.Proofs.Files.Following
import ProtoForge.Proofs.Files.Growth
import ProtoForge.Proofs.Files.Likeness
import ProtoForge.Proofs.Files.LinkCount
import ProtoForge.Proofs.Files.Making
import ProtoForge.Proofs.Files.Opening
import ProtoForge.Proofs.Files.Operations
import ProtoForge.Proofs.Files.Overwriting
import ProtoForge.Proofs.Files.Rebuilding
import ProtoForge.Proofs.Files.Scratch
import ProtoForge.Proofs.Files.Steps
import ProtoForge.Proofs.Files.Walks
import ProtoForge.Proofs.Files.Ways
import ProtoForge.Proofs.Generation.AcceptedNames
import ProtoForge.Proofs.Generation.Answers
import ProtoForge.Proofs.Generation.Batch
import ProtoForge.Proofs.Generation.Conflicts
import ProtoForge.Proofs.Generation.Continuations
import ProtoForge.Proofs.Generation.Dispatch
import ProtoForge.Proofs.Generation.Location
import ProtoForge.Proofs.Generation.OrderOfGenerators
import ProtoForge.Proofs.Generation.Writing
import ProtoForge.Proofs.Guest.ImportedMemory
import ProtoForge.Proofs.Outcome
import ProtoForge.Proofs.Output.Accounts
import ProtoForge.Proofs.Output.Atomicity
import ProtoForge.Proofs.Output.CommitSteps
import ProtoForge.Proofs.Output.FreshPlaces
import ProtoForge.Proofs.Output.LinkPlacement
import ProtoForge.Proofs.Output.Links
import ProtoForge.Proofs.Output.Moves
import ProtoForge.Proofs.Output.Placement
import ProtoForge.Proofs.Output.Progress
import ProtoForge.Proofs.Output.Recovery
import ProtoForge.Proofs.Output.Rollback
import ProtoForge.Proofs.Output.RootFiles
import ProtoForge.Proofs.Output.StepsUp
import ProtoForge.Proofs.Output.Written
import ProtoForge.Proofs.Package.ArchiveNames
import ProtoForge.Proofs.Package.Confinement
import ProtoForge.Proofs.Package.SameSources
import ProtoForge.Proofs.Package.Selection
import ProtoForge.Proofs.Package.SharedNames
import ProtoForge.Proofs.Pipeline.Delivery
import ProtoForge.Proofs.Pipeline.Planning
import ProtoForge.Proofs.Pipeline.Repeated
import ProtoForge.Proofs.Pipeline.StagedRoots
import ProtoForge.Proofs.Plugin.Layout
import ProtoForge.Proofs.Plugin.RoundTrip
import ProtoForge.Proofs.Resolution.Build
import ProtoForge.Proofs.Resolution.Closed
import ProtoForge.Proofs.Resolution.Faithful
import ProtoForge.Proofs.Resolution.ImportGraph
import ProtoForge.Proofs.Resolution.Nesting
import ProtoForge.Proofs.Resolution.Order
import ProtoForge.Proofs.Resolution.Roots
import ProtoForge.Proofs.Resolution.Table
import ProtoForge.Proofs.Resolution.Termination
import ProtoForge.Proofs.Resolution.Verification
import ProtoForge.Proofs.Resolution.Walk
import ProtoForge.Proofs.Scan.PolicyText
import ProtoForge.Proofs.Sources.ExtractedContents
import ProtoForge.Proofs.Sources.Extraction
import ProtoForge.Proofs.Sources.ExtractionDirectories
import ProtoForge.Proofs.Sources.Gathered
import ProtoForge.Proofs.Sources.Recollection
import ProtoForge.Proofs.Sources.Sanitizing
import ProtoForge.Proofs.Sources.Untouched
import ProtoForge.Proofs.Staging.CanonicalNames
import ProtoForge.Proofs.Staging.Digest
import ProtoForge.Proofs.Staging.KeptRoots
import ProtoForge.Proofs.Staging.Materialized
import ProtoForge.Proofs.Staging.Names
import ProtoForge.Proofs.Staging.Roots
import ProtoForge.Proofs.Staging.Shape
import ProtoForge.Proofs.Staging.Union
import ProtoForge.Proofs.Staging.Writing
import ProtoForge.Proofs.Text.Lines
import ProtoForge.Proofs.Text.Pieces
import ProtoForge.Proofs.Text.Trimming
import ProtoForge.Proofs.Wire.Messages
import ProtoForge.Proofs.Wire.Reading
import ProtoForge.Proofs.Wire.Records
import ProtoForge.Resolution.Closure
import ProtoForge.Resolution.Graph
import ProtoForge.Resolution.Request
import ProtoForge.Scan.Filter
import ProtoForge.Scan.Policy
import ProtoForge.Settings.Config
import ProtoForge.Settings.Fault
import ProtoForge.Settings.Layers
import ProtoForge.Settings.Reader
import ProtoForge.Settings.Writer
import ProtoForge.Sources.Collection
import ProtoForge.Sources.IncludeDirectories
import ProtoForge.Sources.Sanitizer
import ProtoForge.Sources.SchemaFile
import ProtoForge.Staging.Stage
import ProtoForge.Staging.View
import ProtoForge.Text.Blank
import ProtoForge.Text.Cased
import ProtoForge.Text.CharRanges
import ProtoForge.Text.Lines
import ProtoForge.Text.LowerCase
import ProtoForge.Text.Pieces
import ProtoForge.Text.Printable
import ProtoForge.Text.Quoted
import ProtoForge.Text.Word
import ProtoForge.Width
import ProtoForge.Wire.Decoding
import ProtoForge.Wire.Message
import ProtoForge.Wire.Record
import ProtoForge.Wire.Varint
import ProtoForge.World
