/-! Counters of what was encoded and decoded. They wrap at 64 bits. -/
namespace TagWire

structure Metrics where
  valuesEncoded : UInt64 := 0
  valuesDecoded : UInt64 := 0
  bytesWritten : UInt64 := 0
  bytesRead : UInt64 := 0
  encodeErrors : UInt64 := 0
  decodeErrors : UInt64 := 0
  overrides : UInt64 := 0
  delegations : UInt64 := 0
  deriving DecidableEq

namespace Metrics

def encoded (m : Metrics) (bytes : Nat) : Metrics :=
  { m with
    valuesEncoded := m.valuesEncoded + 1
    bytesWritten := m.bytesWritten + UInt64.ofNat bytes }

def decoded (m : Metrics) (bytes : Nat) : Metrics :=
  { m with
    valuesDecoded := m.valuesDecoded + 1
    bytesRead := m.bytesRead + UInt64.ofNat bytes }

def encodeFailed (m : Metrics) : Metrics := { m with encodeErrors := m.encodeErrors + 1 }

def decodeFailed (m : Metrics) : Metrics := { m with decodeErrors := m.decodeErrors + 1 }

def overridden (m : Metrics) : Metrics := { m with overrides := m.overrides + 1 }

def delegated (m : Metrics) : Metrics := { m with delegations := m.delegations + 1 }

def toList (m : Metrics) : List UInt64 :=
  [m.valuesEncoded, m.valuesDecoded, m.bytesWritten, m.bytesRead, m.encodeErrors, m.decodeErrors,
    m.overrides, m.delegations]

end Metrics

end TagWire
