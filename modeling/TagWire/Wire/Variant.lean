import TagWire.Wire.Fixed
import TagWire.Wire.Text

/-! Values whose type is chosen at run time. A marker byte names the type, the payload follows. -/
namespace TagWire

inductive Variant
  | bool (b : Bool)
  | byte (n : Num .u8)
  | short (n : Num .i16)
  | int (n : Num .i32)
  | long (n : Num .i64)
  | float (bits : UInt32)
  | double (bits : UInt64)
  | size (n : Num .u64)
  | nullableSize (n : Num .u64)
  | text (s : String)
  | uuid (o : Octets)
  | type (n : Num .u8)
  | endpoint (n : Num .u64)
  deriving DecidableEq

namespace Variant

instance : Inhabited Variant := ⟨.nullableSize default⟩

inductive Marker
  | bool | byte | short | int | long | float | double | size | nullableSize | text | uuid | type
  | endpoint
  deriving DecidableEq

namespace Marker

def all : List Marker :=
  [bool, byte, short, int, long, float, double, size, nullableSize, text, uuid, type, endpoint]

def toByte (m : Marker) : UInt8 := UInt8.ofNat (m.ctorIdx + 1)

def ofByte? (b : UInt8) : Option Marker := all.find? (·.toByte == b)

theorem ofByte?_toByte (m : Marker) : ofByte? m.toByte = some m := by cases m <;> rfl

end Marker

def marker : Variant → Marker
  | .bool _ => .bool
  | .byte _ => .byte
  | .short _ => .short
  | .int _ => .int
  | .long _ => .long
  | .float _ => .float
  | .double _ => .double
  | .size _ => .size
  | .nullableSize _ => .nullableSize
  | .text _ => .text
  | .uuid _ => .uuid
  | .type _ => .type
  | .endpoint _ => .endpoint

end Variant

namespace Reader

def payload : Variant.Marker → Reading Variant
  | .bool => .bool <$> bool
  | .byte => .byte <$> number .u8
  | .short => .short <$> number .i16
  | .int => .int <$> number .i32
  | .long => .long <$> number .i64
  | .float => .float <$> float32
  | .double => .double <$> float64
  | .size => (.size ∘ IntKind.u64.wrap ∘ Int.ofNat) <$> size
  | .nullableSize => (.nullableSize ∘ IntKind.u64.wrap ∘ Int.ofNat) <$> nullableSize
  | .text => .text <$> text
  | .uuid => .uuid <$> octets
  | .type => .type <$> numberAs "type" .u8
  | .endpoint => (.endpoint ∘ IntKind.u64.wrap ∘ Int.ofNat) <$> nullableSize

def variant : Reading Variant := do
  let start ← position
  let b ← byte "type"
  match Variant.Marker.ofByte? b with
  | some m => payload m
  | none => .fail (.unknownMarker start b)

end Reader

namespace Writer

def payload : Variant → Writing Nat
  | .bool b => bool b
  | .byte n => number n
  | .short n => number n
  | .int n => number n
  | .long n => number n
  | .float bits => float32 bits
  | .double bits => float64 bits
  | .size n => size n.pattern
  | .nullableSize n => nullableSize n.pattern
  | .text s => text s
  | .uuid o => octets o
  | .type n => numberAs "type" n
  | .endpoint n => nullableSize n.pattern

def variant (v : Variant) : Writing Nat := do
  let marked ← bytes "type" [v.marker.toByte]
  let body ← payload v
  return marked + body

end Writer

end TagWire
