import TagWire.Attempt
import TagWire.Codec.Basic
import TagWire.Codec.Builtin
import TagWire.Config.Basic
import TagWire.Config.Environment
import TagWire.Config.Fault
import TagWire.Config.File
import TagWire.Config.Level
import TagWire.Decoding
import TagWire.Encoding
import TagWire.Error
import TagWire.Instant
import TagWire.Layout
import TagWire.Metrics
import TagWire.Number.BigEndian
import TagWire.Number.Float
import TagWire.Number.Kind
import TagWire.Options
import TagWire.Proofs.Accounting
import TagWire.Proofs.Arrangement
import TagWire.Proofs.AtBest
import TagWire.Proofs.Bounded
import TagWire.Proofs.Carried
import TagWire.Proofs.Codec.Anywhere
import TagWire.Proofs.Codec.Builtin
import TagWire.Proofs.Codec.Direct
import TagWire.Proofs.Codec.Laws
import TagWire.Proofs.Codec.Mirrors
import TagWire.Proofs.Codec.Own
import TagWire.Proofs.Codec.Pure
import TagWire.Proofs.Codec.Ticks
import TagWire.Proofs.Codec.Typed
import TagWire.Proofs.Codec.Uuid
import TagWire.Proofs.Codec.Views
import TagWire.Proofs.Codec.Whole
import TagWire.Proofs.Config.Check
import TagWire.Proofs.Config.Environment
import TagWire.Proofs.Config.File
import TagWire.Proofs.Content
import TagWire.Proofs.Decoding
import TagWire.Proofs.Delivery
import TagWire.Proofs.Depth
import TagWire.Proofs.Encoding
import TagWire.Proofs.Endless
import TagWire.Proofs.Follows
import TagWire.Proofs.Height
import TagWire.Proofs.Hollow
import TagWire.Proofs.InPlace
import TagWire.Proofs.Intake
import TagWire.Proofs.Integers
import TagWire.Proofs.Interchange
import TagWire.Proofs.Interrupted
import TagWire.Proofs.Layout
import TagWire.Proofs.Leaves
import TagWire.Proofs.Limits
import TagWire.Proofs.Lockstep
import TagWire.Proofs.Metering
import TagWire.Proofs.Number.Kind
import TagWire.Proofs.Offsets
import TagWire.Proofs.OwnCodecs
import TagWire.Proofs.Parallel
import TagWire.Proofs.Passage
import TagWire.Proofs.RecordLayout
import TagWire.Proofs.Reencoding
import TagWire.Proofs.Refusal
import TagWire.Proofs.Registrations
import TagWire.Proofs.Renewal
import TagWire.Proofs.Retag
import TagWire.Proofs.Reuse
import TagWire.Proofs.Room
import TagWire.Proofs.RoundTrip
import TagWire.Proofs.Schema.Contains
import TagWire.Proofs.Schema.Fields
import TagWire.Proofs.Schema.Scalar
import TagWire.Proofs.Sequential
import TagWire.Proofs.Session
import TagWire.Proofs.Sound
import TagWire.Proofs.Steps
import TagWire.Proofs.Stream.Alike
import TagWire.Proofs.Stream.Anywhere
import TagWire.Proofs.Stream.Appending
import TagWire.Proofs.Stream.Guarded
import TagWire.Proofs.Stream.Pieces
import TagWire.Proofs.Stream.Reading
import TagWire.Proofs.Stream.Stepwise
import TagWire.Proofs.Stream.Writing
import TagWire.Proofs.Tag
import TagWire.Proofs.Text.Blank
import TagWire.Proofs.Text.Case
import TagWire.Proofs.Text.Decimal
import TagWire.Proofs.Toml.Document
import TagWire.Proofs.Toml.Number
import TagWire.Proofs.Toml.Quote
import TagWire.Proofs.Toml.Range
import TagWire.Proofs.Toml.Scan
import TagWire.Proofs.Toml.Value
import TagWire.Proofs.Twins
import TagWire.Proofs.Uuid
import TagWire.Proofs.Uuid.Grammar
import TagWire.Proofs.Versions
import TagWire.Proofs.Walk.Anywhere
import TagWire.Proofs.Walk.Decoding
import TagWire.Proofs.Walk.Encoding
import TagWire.Proofs.WholeBuffer
import TagWire.Proofs.Wire.Anywhere
import TagWire.Proofs.Wire.Buffer
import TagWire.Proofs.Wire.Calendar
import TagWire.Proofs.Wire.Fixed
import TagWire.Proofs.Wire.Groups
import TagWire.Proofs.Wire.Incurs
import TagWire.Proofs.Wire.Located
import TagWire.Proofs.Wire.Nullable
import TagWire.Proofs.Wire.Script
import TagWire.Proofs.Wire.Size
import TagWire.Proofs.Wire.Spelling
import TagWire.Proofs.Wire.Text
import TagWire.Proofs.Wire.Time
import TagWire.Proofs.Wire.Typed
import TagWire.Proofs.Wire.Variant
import TagWire.Proofs.Wire.WriteScript
import TagWire.Proofs.WireOrder
import TagWire.Registry
import TagWire.Sample.Codecs
import TagWire.Sample.Custom
import TagWire.Sample.Schema
import TagWire.Schema.Basic
import TagWire.Schema.Datum
import TagWire.Schema.Scalar
import TagWire.Schema.Slot
import TagWire.Session
import TagWire.Stream.Reader
import TagWire.Stream.Source
import TagWire.Stream.Writer
import TagWire.Tag
import TagWire.Text.Blank
import TagWire.Text.Case
import TagWire.Text.Decimal
import TagWire.Text.Printable
import TagWire.Text.Quoted
import TagWire.Text.Ranges
import TagWire.Toml.Document
import TagWire.Toml.Number
import TagWire.Toml.Quote
import TagWire.Toml.Scan
import TagWire.Toml.Value
import TagWire.Uuid
import TagWire.Wire.Fixed
import TagWire.Wire.Size
import TagWire.Wire.Text
import TagWire.Wire.Time
import TagWire.Wire.Variant
