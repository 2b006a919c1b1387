import TagWire.Number.BigEndian
import TagWire.Number.Kind
import TagWire.Stream.Reader
import TagWire.Stream.Writer
import TagWire.Uuid

/-! Values of fixed width: truth values, integers high byte first, floating point bits, sixteen raw
bytes. Every read names its operation and the position of the first byte. -/
namespace TagWire

namespace IntKind

/-- Machine-sized integers travel as four bytes, the others at their own width. -/
def wire : IntKind → IntKind
  | isize => i32
  | usize => u32
  | k => k

def op (k : IntKind) : String :=
  match k.wire with
  | u16 => "uint16" | i16 => "int16"
  | u32 => "uint32" | i32 => "int32"
  | u64 => "uint64" | i64 => "int64"
  | _ => "byte"

theorem Fits.of_wire {k : IntKind} {x : Int} (h : k.wire.Fits x) : k.Fits x := by
  cases k <;> simp_all [wire, Fits, least, greatest, count, BigEndian.count, signed, width]
    <;> omega

end IntKind

namespace Reader

def bool : Reading Bool := do
  let start ← position
  let b ← byte "bool"
  if b = 1 then return true
  else if b = 0 then return false
  else .fail (.invalidBool start b)

def numberAs (op : String) (k : IntKind) : Reading (Num k) := do
  let bs ← bytes op k.wire.width
  return k.wrap (k.wire.wrap (BigEndian.decode bs)).val

def number (k : IntKind) : Reading (Num k) := numberAs k.op k

def float32 : Reading UInt32 := (UInt32.ofNat ∘ BigEndian.decode) <$> bytes "float32" 4

def float64 : Reading UInt64 := (UInt64.ofNat ∘ BigEndian.decode) <$> bytes "float64" 8

def octets : Reading Octets := Octets.ofList <$> bytes "uuid" 16

end Reader

namespace Writer

def bool (b : Bool) : Writing Nat := bytes "bool" [if b then 1 else 0]

/-- Only a machine-sized integer can fail to fit. -/
def numberAs (op : String) {k : IntKind} (n : Num k) : Writing Nat :=
  if k.wire.Fits n.val then
    bytes op (BigEndian.encode k.wire.width (k.wire.wrap n.val).pattern)
  else .fail (.valueOutOfRange op n.val)

def number {k : IntKind} (n : Num k) : Writing Nat := numberAs k.op n

def float32 (bits : UInt32) : Writing Nat := bytes "float32" (BigEndian.encode 4 bits.toNat)

def float64 (bits : UInt64) : Writing Nat := bytes "float64" (BigEndian.encode 8 bits.toNat)

def octets (o : Octets) : Writing Nat := bytes "uuid" o.bytes

end Writer

end TagWire
