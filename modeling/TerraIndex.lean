import TerraIndex.Main
import TerraIndex.Proofs.Json.Indented
import TerraIndex.Proofs.Source.ResourceList
import TerraIndex.Proofs.Json.Layout
import TerraIndex.Proofs.Source.Search
import TerraIndex.Proofs.Source.NamedChild
import TerraIndex.Proofs.Json.ReadBack
import TerraIndex.Proofs.Source.IndentedList
import TerraIndex.Proofs.Document.Paths
import TerraIndex.Proofs.Document.Bodies
import TerraIndex.Proofs.Document.Canonical
import TerraIndex.Proofs.Listing.Exports
import TerraIndex.Proofs.Listing.State
import TerraIndex.Proofs.Listing.NamedEntries
import TerraIndex.Proofs.Listing.ConfigBlocks
import TerraIndex.Proofs.Listing.Attempts
import TerraIndex.Proofs.Listing.Plan
import TerraIndex.Proofs.Listing.OneKind
import TerraIndex.Proofs.Listing.Definitions
import TerraIndex.Proofs.Json.OneLine
import TerraIndex.Proofs.Source.SingleLine
import TerraIndex.Proofs.Source.Recovered
import TerraIndex.Proofs.Hcl.Consumed
import TerraIndex.Proofs.Hcl.Locality
import TerraIndex.Proofs.Hcl.Lexemes
import TerraIndex.Proofs.Hcl.TokenLines
import TerraIndex.Proofs.Hcl.Parts
import TerraIndex.Proofs.Source.AttributeSpan
import TerraIndex.Proofs.Entity.Address
import TerraIndex.Proofs.Source.Truncation
import TerraIndex.Proofs.Hcl.Tree
import TerraIndex.Proofs.Listing.WrittenBlocks
import TerraIndex.Proofs.Source.AttributeSource
import TerraIndex.Proofs.Listing.Locals
import TerraIndex.Proofs.Hcl.Places
import TerraIndex.Proofs.Entity.Validation
import TerraIndex.Proofs.Listing.Validations
import TerraIndex.Proofs.Listing.ComputedAddress
import TerraIndex.Proofs.Number.Rounding
import TerraIndex.Proofs.Number.Shortest
import TerraIndex.Proofs.Entity.Extraction
import TerraIndex.Proofs.Document.Decoded
import TerraIndex.Proofs.Document.Keys
import TerraIndex.Proofs.Entity.Rows
import TerraIndex.Proofs.Listing.Origins
import TerraIndex.Proofs.Listing.ReservedKeys
import TerraIndex.Proofs.Hcl.Literals
import TerraIndex.Proofs.File.Loaded
import TerraIndex.Proofs.Entity.Lossless
import TerraIndex.Proofs.Listing.Lossless
import TerraIndex.Proofs.Command.Run
import TerraIndex.Proofs.Source.DisjointAttributes
import TerraIndex.Proofs.Source.FoundElement
import TerraIndex.Proofs.Document.CanonicalForm
import TerraIndex.Proofs.Source.ElementOnLine
import TerraIndex.Proofs.Document.Conversion
import TerraIndex.Proofs.Entity.Planned
import TerraIndex.Proofs.Entity.Nulls
import TerraIndex.Proofs.Command.Connection
import TerraIndex.Proofs.Json.Spread
import TerraIndex.Proofs.Source.Nesting
import TerraIndex.Proofs.File.Outcome
import TerraIndex.Proofs.Listing.BuildErrors
