/-! Whole numbers in decimal: digits after an optional sign, leading zeros allowed. -/
namespace TagWire.Text

def digitValue (c : Char) : Nat := c.toNat - '0'.toNat

def digits? (cs : List Char) : Option Nat :=
  if !cs.isEmpty && cs.all Char.isDigit then
    some (cs.foldl (fun n c => 10 * n + digitValue c) 0)
  else none

/-- A number that cannot be negative takes a plus sign only. -/
def natural? : List Char → Option Nat
  | '+' :: cs => digits? cs
  | cs => digits? cs

def integer? : List Char → Option Int
  | '-' :: cs => (digits? cs).map fun n => -(n : Int)
  | '+' :: cs => (digits? cs).map Int.ofNat
  | cs => (digits? cs).map Int.ofNat

end TagWire.Text
