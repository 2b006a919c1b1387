import TagWire.Schema.Basic

/-! Self-describing types for trying out the engine: one that reads as it goes and grows with the
version, one that takes its bytes from all that is left, and one that claims as many bytes as it is
told to. -/
namespace TagWire.Sample

structure Endpoint where
  id : Num .u16
  label : String

namespace Endpoint

def labelVersion : Int := 5

def marshal (e : Endpoint) (version : Int) : Writing Nat := do
  let n ← Writer.number e.id
  if version < labelVersion then return n
  else return n + (← Writer.text e.label)

/-- The id is in place before the label is read. -/
def unmarshal (version : Int) : InPlace Error Reader Nat Endpoint := fun e r =>
  let start := r.offset
  match Reader.number .u16 r with
  | (.error err, r) => ((.error err, e), r)
  | (.ok id, r) =>
    if version < labelVersion then ((.ok (r.offset - start), { e with id }), r)
    else match Reader.text r with
      | (.error err, r) => ((.error err, { e with id }), r)
      | (.ok label, r) => ((.ok (r.offset - start), { id, label }), r)

def type : Custom where
  Carrier := Endpoint
  path := "ras_oracle::types::Endpoint"
  initial := ⟨default, ""⟩
  marshal := marshal
  unmarshal := .stream unmarshal

end Endpoint

structure Blob where
  bytes : List UInt8

namespace Blob

/-- A byte for the length, which wraps, then the bytes. -/
def marshal (b : Blob) (_version : Int) : Writing Nat := do
  let n ← Writer.number (IntKind.u8.wrap b.bytes.length)
  return n + (← Writer.bytes "blob" b.bytes)

def take (_version : Int) (buffer : List UInt8) (b : Blob) : Except Error Nat × Blob :=
  match buffer with
  | [] => (.error (.custom "blob: empty input"), b)
  | n :: rest =>
    if rest.length < n.toNat then (.error (.custom "blob: truncated"), b)
    else (.ok (n.toNat + 1), ⟨rest.take n.toNat⟩)

def type : Custom where
  Carrier := Blob
  path := "ras_oracle::types::Blob"
  initial := ⟨[]⟩
  marshal := marshal
  unmarshal := .whole take

end Blob

structure Claim where
  byte : Num .u8
  seen : Num .u32
  version : Num .i64

namespace Claim

def marshal (c : Claim) (_version : Int) : Writing Nat := Writer.number c.byte

def take (version : Int) (buffer : List UInt8) (_ : Claim) : Except Error Nat × Claim :=
  let first := buffer.headD 0
  (.ok first.toNat,
    ⟨IntKind.u8.wrap first.toNat, IntKind.u32.wrap buffer.length, IntKind.i64.wrap version⟩)

def type : Custom where
  Carrier := Claim
  path := "ras_oracle::types::Claim"
  initial := ⟨default, default, default⟩
  marshal := marshal
  unmarshal := .whole take

end Claim

end TagWire.Sample
