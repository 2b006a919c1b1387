/-! Binary floating point by its bits. Numbers are kept as bit patterns, so that the payload of a
value that is no number survives; only the passage between the two widths computes. -/
namespace TagWire.Float

/-- Drops the low `k` bits, rounding to the nearest integer, a half to the even one. -/
def roundShift (n k : Nat) : Nat :=
  let q := n >>> k
  let r := 2 * (n % (1 <<< k))
  if r < 1 <<< k then q else if 1 <<< k < r then q + 1 else q + q % 2

/-- Every single is a double; a signalling not-a-number becomes a quiet one. -/
def widen (bits : UInt32) : UInt64 :=
  let n := bits.toNat
  let sign := n >>> 31 <<< 63
  let exponent := (n >>> 23) % 256
  let fraction := n % (1 <<< 23)
  if exponent = 255 then
    if fraction = 0 then UInt64.ofNat (sign + (2047 <<< 52))
    else UInt64.ofNat (sign + (2047 <<< 52) + ((fraction ||| 1 <<< 22) <<< 29))
  else if exponent = 0 then
    if fraction = 0 then UInt64.ofNat sign
    else
      -- a subnormal single: its leading bit becomes the implicit one
      let top := fraction.log2
      UInt64.ofNat (sign + ((top + 874) <<< 52) + ((fraction <<< (52 - top)) - (1 <<< 52)))
  else UInt64.ofNat (sign + ((exponent + 896) <<< 52) + (fraction <<< 29))

/-- The nearest single, ties to even. Rounding may carry into the exponent and on to infinity. -/
def narrow (bits : UInt64) : UInt32 :=
  let n := bits.toNat
  let sign := n >>> 63 <<< 31
  let exponent := (n >>> 52) % 2048
  let fraction := n % (1 <<< 52)
  let infinity := 255 <<< 23
  if exponent = 2047 then
    if fraction = 0 then UInt32.ofNat (sign + infinity)
    else UInt32.ofNat (sign + infinity + (fraction >>> 29 ||| 1 <<< 22))
  else if 897 ≤ exponent then
    UInt32.ofNat (sign + min infinity (((exponent - 896) <<< 23) + roundShift fraction 29))
  else if exponent = 0 then UInt32.ofNat sign
  else
    -- below the least normal single: the implicit bit is spelled out and shifted away
    UInt32.ofNat (sign + roundShift ((1 <<< 52) + fraction) (29 + (897 - exponent)))

end TagWire.Float
