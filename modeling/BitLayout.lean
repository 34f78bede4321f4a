import BitLayout.Bits.Basic
import BitLayout.Bits.Memory
import BitLayout.Bits.Reader
import BitLayout.Bits.Writer
import BitLayout.CommandLine.Arguments
import BitLayout.CommandLine.Command
import BitLayout.CommandLine.Error
import BitLayout.CommandLine.Files
import BitLayout.CommandLine.Grammar
import BitLayout.CommandLine.Importer
import BitLayout.CommandLine.Run
import BitLayout.CommandLine.SchemaFile
import BitLayout.Decoder
import BitLayout.Encoder
import BitLayout.Failure
import BitLayout.Json.Error
import BitLayout.Json.Printer
import BitLayout.Json.Reader
import BitLayout.Json.Transport
import BitLayout.Layout.Basic
import BitLayout.Layout.Builder
import BitLayout.Layout.Equality
import BitLayout.Layout.Error
import BitLayout.Layout.Printer
import BitLayout.Layout.WellFormed
import BitLayout.Main
import BitLayout.Notation
import BitLayout.Number.Binary64
import BitLayout.Number.Decimal
import BitLayout.Number.Integer
import BitLayout.Path
import BitLayout.Raised
import BitLayout.Record.Binary
import BitLayout.Record.Library
import BitLayout.Record.Model
import BitLayout.Record.Numeral
import BitLayout.Record.Objects
import BitLayout.Record.Validation
import BitLayout.Report
import BitLayout.Scope
import BitLayout.Size
import BitLayout.Text.Basic
import BitLayout.Text.DecimalDigit
import BitLayout.Text.Encoding
import BitLayout.Text.Encoding.Basic
import BitLayout.Text.Encoding.Name
import BitLayout.Text.Encoding.SingleByte
import BitLayout.Text.Encoding.Unicode
import BitLayout.Text.Printable
import BitLayout.Text.Quoted
import BitLayout.Text.Wording
import BitLayout.Value.Basic
import BitLayout.Value.Buffer
import BitLayout.Value.Printer
import BitLayout.Proofs.Bits.BitString
import BitLayout.Proofs.Bits.Writer
import BitLayout.Proofs.Bits.Reader
import BitLayout.Proofs.Layout.Names
import BitLayout.Proofs.Value.Entries
import BitLayout.Proofs.Decoding.Success
import BitLayout.Proofs.Decoding.Failure
import BitLayout.Proofs.Decoding.Padding
import BitLayout.Proofs.Bits.Transfer
import BitLayout.Proofs.Conformance
import BitLayout.Proofs.Decoding.Masked
import BitLayout.Proofs.Decoding.Record
import BitLayout.Proofs.Encoding.Success
import BitLayout.Proofs.Layout.Decidable
import BitLayout.Proofs.Layout.References
import BitLayout.Proofs.Encoding.Failure
import BitLayout.Proofs.Reencoding
import BitLayout.Proofs.RoundTrip
import BitLayout.Proofs.CodecFailure
import BitLayout.Proofs.Decoding.Extension
import BitLayout.Proofs.Decoding.Overlooking
import BitLayout.Proofs.Decoding.Stopping
import BitLayout.Proofs.Decoding.Description
import BitLayout.Proofs.Visits
import BitLayout.Proofs.StaticSize
import BitLayout.Proofs.Layout.Numbers
import BitLayout.Proofs.Decoding.Address
import BitLayout.Proofs.Text.Readable
import BitLayout.Proofs.ReadBack
import BitLayout.Proofs.References
import BitLayout.Proofs.Value.Merging
import BitLayout.Proofs.Value.Numbers
import BitLayout.Proofs.Value.Parts
import BitLayout.Proofs.Decoding.Parts
import BitLayout.Proofs.Embedding
import BitLayout.Proofs.Text.Numeral
import BitLayout.Proofs.Json.Transport
import BitLayout.Proofs.Text.Surrogates
import BitLayout.Proofs.Json.Text
import BitLayout.Proofs.Json.Printer
import BitLayout.Proofs.Json.Number
import BitLayout.Proofs.Json.RoundTrip
import BitLayout.Proofs.Json.Grammar
import BitLayout.Proofs.Json.Soundness
import BitLayout.Proofs.Json.Denotation
import BitLayout.Proofs.Json.Carriage
import BitLayout.Proofs.CommandLine.Files
import BitLayout.Proofs.CommandLine.Arguments
import BitLayout.Proofs.CommandLine.Importing
import BitLayout.Proofs.CommandLine.Run
import BitLayout.Proofs.CommandLine.RoundTrip
import BitLayout.Proofs.Value.Equality
import BitLayout.Proofs.Record.Validation
import BitLayout.Proofs.Record.Library
import BitLayout.Proofs.Record.Run
import BitLayout.Proofs.Record.Mirror
import BitLayout.Proofs.Record.Objects
import BitLayout.Proofs.Record.RoundTrip
import BitLayout.Proofs.Layout.FieldSizes
import BitLayout.Proofs.Decoding.Strict
import BitLayout.Proofs.Encoding.Filling
import BitLayout.Proofs.Record.Agreement
import BitLayout.Proofs.Encoding.Position
import BitLayout.Proofs.Places
import BitLayout.Proofs.Editing
import BitLayout.Proofs.Encoding.Related
import BitLayout.Proofs.Encoding.Clipping
import BitLayout.Proofs.Encoding.Address
import BitLayout.Proofs.Items
import BitLayout.Proofs.Text.Length
import BitLayout.Proofs.Encoding.Naming
import BitLayout.Proofs.CaseOrder
import BitLayout.Proofs.Decoding.FieldSizes
import BitLayout.Proofs.Decoding.LeastBits
import BitLayout.Proofs.Layout.Builder
import BitLayout.Proofs.CommandLine.LineEnds
import BitLayout.Proofs.CommandLine.Conversion
import BitLayout.Proofs.Path
