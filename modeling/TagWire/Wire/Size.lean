import TagWire.Stream.Reader
import TagWire.Stream.Writer

/-! Sizes in groups of seven bits, low group first. The top bit of a byte says that another group
follows; padded forms are read, shortest forms are written. A nullable size keeps only six bits in
its first byte, whose top two bits mark the null and the next group. -/
namespace TagWire

def sizeBound : Nat := 18446744073709551616

namespace Size

def encode (n : Nat) : List UInt8 :=
  if n < 128 then [UInt8.ofNat n] else UInt8.ofNat (n % 128 + 128) :: encode (n / 128)
termination_by n

end Size

namespace NullableSize

def encode (n : Nat) : List UInt8 :=
  if n < 64 then [UInt8.ofNat n] else UInt8.ofNat (n % 64 + 64) :: Size.encode (n / 64)

end NullableSize

namespace Reader

/-- The groups that follow, the next of which counts units of `weight`. Fails when `groups` more
did not end it, or when the sum leaves 64 bits. -/
def sizeGroups (op : String) (start : Nat) : (groups weight sum : Nat) → Reading Nat
  | 0, _, _ => .fail (.sizeOverflow op start)
  | groups + 1, weight, sum => do
    let b ← byte op
    let sum := sum + b.toNat % 128 * weight
    if sizeBound ≤ sum then .fail (.sizeOverflow op start)
    else if b < 128 then return sum
    else sizeGroups op start groups (weight * 128) sum

def size : Reading Nat := do
  let start ← position
  let b ← byte "size"
  if b < 128 then return b.toNat
  else sizeGroups "size" start 9 128 (b.toNat % 128)

def nullable : Reading (Option Nat) := do
  let start ← position
  let b ← byte "nullable-size"
  if b < 64 then return some b.toNat
  else if b < 128 then some <$> sizeGroups "nullable-size" start 10 64 (b.toNat % 64)
  else if b = 128 then return none
  else .fail (.nullExpected "nullable-size" start b)

def nullableSize : Reading Nat := (·.getD 0) <$> nullable

def itemCount : Reading Nat := do
  let start ← position
  let n ← size
  let limit ← .view (·.limits.maxItems)
  if n ≤ limit then return n
  else .fail (.lengthLimit "sequence" start n limit)

end Reader

namespace Writer

def size (n : Nat) : Writing Nat := bytes "size" (Size.encode n)

def nullableSize (n : Nat) : Writing Nat := bytes "nullable-size" (NullableSize.encode n)

end Writer

end TagWire
