import TagWire.Wire.Time
import TagWire.Wire.Variant

/-! Scalar types: what their values are, where they start, and how they look on the wire. -/
namespace TagWire

inductive Scalar
  | bool
  | int (k : IntKind)
  | float32
  | float64
  | text
  | uuid
  | octets
  | time
  | variant
  deriving DecidableEq

namespace Scalar

abbrev Carrier : Scalar → Type
  | bool => Bool
  | int k => Num k
  | float32 => UInt32
  | float64 => UInt64
  | text => String
  | uuid | octets => Octets
  | time => Instant
  | variant => Variant

def initial : (s : Scalar) → s.Carrier
  | bool => false
  | int _ => default
  | float32 => 0
  | float64 => 0
  | text => ""
  | uuid | octets => default
  | time => default
  | variant => default

def name : Scalar → String
  | bool => "bool"
  | int k => k.name
  | float32 => "f32"
  | float64 => "f64"
  | text => "alloc::string::String"
  | uuid => "uuid::Uuid"
  | octets => "[u8; 16]"
  | time => "chrono::datetime::DateTime<chrono::offset::utc::Utc>"
  | variant => "ras_codec::core::value::Value"

def read : (s : Scalar) → Reading s.Carrier
  | bool => Reader.bool
  | int k => Reader.number k
  | float32 => Reader.float32
  | float64 => Reader.float64
  | text => Reader.text
  | uuid | octets => Reader.octets
  | time => Reader.instant
  | variant => Reader.variant

def write : (s : Scalar) → s.Carrier → Writing Nat
  | bool, b => Writer.bool b
  | int _, n => Writer.number n
  | float32, bits => Writer.float32 bits
  | float64, bits => Writer.float64 bits
  | text, s => Writer.text s
  | uuid, o | octets, o => Writer.octets o
  | time, t => Writer.instant t
  | variant, v => Writer.variant v

end Scalar

end TagWire
