import TagWire.Instant
import TagWire.Wire.Fixed

/-! Instants on the wire: ticks as eight bytes, carried at the precision of a millisecond. -/
namespace TagWire

namespace Reader

def ticks : Reading Int := (·.val) <$> numberAs "time" .i64

/-- Milliseconds since 1970, whether or not the calendar reaches them. -/
def millis : Reading Int := Ticks.toMillis <$> ticks

def instant : Reading Instant := do
  let t ← ticks
  match Instant.ofMillis? (Ticks.toMillis t) with
  | some date => return date
  | none => .fail (.timeOutOfRange t)

end Reader

namespace Writer

def millis (m : Int) : Writing Nat :=
  match Ticks.ofMillis m with
  | some t => numberAs "time" (IntKind.i64.wrap t)
  | none => .fail (.valueOutOfRange "time" m)

def instant (t : Instant) : Writing Nat := millis t.millis

end Writer

end TagWire
