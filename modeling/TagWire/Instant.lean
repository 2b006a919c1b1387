import TagWire.Number.Kind

/-! Instants of UTC: whole seconds since 1970 and nanoseconds within the second, over the years
-262143 to 262142. On the wire an instant is a count of ticks. The range of the calendar, that
milliseconds are rounded down, and the instant at a millisecond are the calendar library's and are
assumed here as that library documents them, leap seconds left out. -/
namespace TagWire

structure Instant where
  seconds : Int
  nanos : Nat
  nanos_lt : nanos < 1000000000
  least_le : -8334601228800 ≤ seconds
  le_greatest : seconds ≤ 8210266876799
  deriving DecidableEq

namespace Instant

def epoch : Instant := ⟨0, 0, by decide, by decide, by decide⟩

instance : Inhabited Instant := ⟨epoch⟩

/-- Whole milliseconds since 1970; a started millisecond before 1970 counts down. -/
def millis (t : Instant) : Int := t.seconds * 1000 + (t.nanos / 1000000 : Nat)

def ofMillis? (m : Int) : Option Instant :=
  if h : -8334601228800 ≤ m / 1000 ∧ m / 1000 ≤ 8210266876799 then
    some ⟨m / 1000, (m % 1000).toNat * 1000000, by omega, h.1, h.2⟩
  else none

theorem millis_ofMillis? {m : Int} {t : Instant} (h : ofMillis? m = some t) : t.millis = m := by
  unfold ofMillis? at h
  split at h
  · cases h
    simp only [millis]
    omega
  · cases h

end Instant

namespace Ticks

/-- Ticks from the first of January of the year 1 to 1970, ten to the millisecond. -/
def epoch : Int := 621355968000000

/-- Counts a millisecond since 1970 in ticks. The multiple of ten has to fit as well as the sum. -/
def ofMillis (m : Int) : Option Int :=
  if IntKind.i64.Fits (m * 10) ∧ IntKind.i64.Fits (m * 10 + epoch) then some (m * 10 + epoch)
  else none

/-- Drops ticks within a millisecond, toward the start of 1970. -/
def toMillis (ticks : Int) : Int := (ticks - epoch).tdiv 10

end Ticks

end TagWire
