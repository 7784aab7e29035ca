import WireSchema.Build
import WireSchema.Checker
import WireSchema.Condition
import WireSchema.Condition.Verify
import WireSchema.Context
import WireSchema.Declaration
import WireSchema.Declaration.Composite
import WireSchema.Declaration.Enumeration
import WireSchema.Declaration.Field
import WireSchema.Declaration.Flags
import WireSchema.Declaration.Integer
import WireSchema.Declaration.Parts
import WireSchema.Declaration.Profile
import WireSchema.Declaration.Real
import WireSchema.Declaration.Sequence
import WireSchema.Declaration.Siblings
import WireSchema.Declaration.Storage
import WireSchema.Declaration.ValidValues
import WireSchema.Declaration.Wrapper
import WireSchema.Double
import WireSchema.Double.Nearest
import WireSchema.Double.Shortest
import WireSchema.Environment
import WireSchema.Fault
import WireSchema.Field
import WireSchema.Field.Compare
import WireSchema.Field.Footprint
import WireSchema.Field.Resolve
import WireSchema.Field.Value
import WireSchema.Interval
import WireSchema.Interval.Merge
import WireSchema.Keyword
import WireSchema.Length
import WireSchema.Literal
import WireSchema.Main
import WireSchema.Markup.Document
import WireSchema.Markup.Escape
import WireSchema.Markup.Event
import WireSchema.Markup.Fault
import WireSchema.Markup.Node
import WireSchema.Markup.Tag
import WireSchema.Name
import WireSchema.Notice
import WireSchema.Number
import WireSchema.Operand
import WireSchema.Properties
import WireSchema.Protocol
import WireSchema.Registry
import WireSchema.Reuse
import WireSchema.Schema
import WireSchema.Schema.Directory
import WireSchema.Schema.Interface
import WireSchema.Schema.Layout
import WireSchema.Schema.Message
import WireSchema.Sorting
import WireSchema.Text
import WireSchema.Text.Hidden
import WireSchema.Units
import WireSchema.Window
import WireSchema.Proofs.Scale
import WireSchema.Proofs.Coverage
import WireSchema.Proofs.Runs
import WireSchema.Proofs.Canonical
import WireSchema.Proofs.Build
import WireSchema.Proofs.Names
import WireSchema.Proofs.Registry
import WireSchema.Proofs.Loading
import WireSchema.Proofs.Addressing
import WireSchema.Proofs.Nesting
import WireSchema.Proofs.Origins
import WireSchema.Proofs.Versions
import WireSchema.Proofs.Slots
import WireSchema.Proofs.Growth
import WireSchema.Proofs.Inheritance
import WireSchema.Proofs.Bounds
import WireSchema.Proofs.Handles
import WireSchema.Proofs.Siblings
import WireSchema.Proofs.Reals
import WireSchema.Proofs.RealRanges
import WireSchema.Proofs.Unsaid
import WireSchema.Proofs.Answers
import WireSchema.Proofs.Copies
import WireSchema.Proofs.Removal
import WireSchema.Proofs.DefaultMember
import WireSchema.Proofs.Aliases
import WireSchema.Proofs.ValidConditions
import WireSchema.Proofs.Lengths
import WireSchema.Proofs.Scopes
import WireSchema.Proofs.Reports
import WireSchema.Proofs.Saturation
import WireSchema.Proofs.StorageKept
import WireSchema.Proofs.Ignored
import WireSchema.Proofs.Paths
import WireSchema.Proofs.PathValues
import WireSchema.Proofs.References
import WireSchema.Proofs.IntegerValidity
import WireSchema.Proofs.ExternalNames
import WireSchema.Proofs.Gates
import WireSchema.Proofs.Escapes
import WireSchema.Proofs.Printing
import WireSchema.Proofs.EnumValidity
import WireSchema.Proofs.SetStorage
import WireSchema.Proofs.FixedLengths
import WireSchema.Proofs.IntegerLiterals
import WireSchema.Proofs.Cores
import WireSchema.Proofs.HexBytes
import WireSchema.Proofs.NumberOrder
import WireSchema.Proofs.ReferenceSyntax
import WireSchema.Proofs.Checking
import WireSchema.Proofs.Comparability
import WireSchema.Proofs.Replacement
import WireSchema.Proofs.Documents
import WireSchema.Proofs.Arena
