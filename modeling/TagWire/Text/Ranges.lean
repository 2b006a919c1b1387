/-! Sets of characters given by the code points at which membership changes. -/
namespace TagWire.Text

/-- Membership begins at the first edge, ends before the second, begins again at the third, … -/
def inRanges (edges : List Nat) (c : Char) : Bool :=
  (edges.takeWhile (· ≤ c.toNat)).length % 2 == 1

end TagWire.Text
