import TagWire.Schema.Slot

/-! Codecs that a field tag may name. A codec sees the value behind the optional and boxed shapes of
a field and decides for itself which shapes it takes. -/
namespace TagWire

structure Codec (S : Schema) where
  name : String
  encode : {t : Shape} → Datum S t → Writing Nat
  decode : {t : Shape} → InPlace Error Reader Nat (Datum S t)

namespace Codec

variable {S : Schema} {t : Shape}

def describe (c : Codec S) : String := "Codec \x7b name: " ++ Text.quoted c.name ++ " \x7d"

def writeField (c : Codec S) (d : Datum S t) : Writing Nat := do
  c.encode (← .lift d.pointee)

/-- Reads a field through the codec; the field is opened first, so that an optional or boxed one
holds a fresh value even when the codec fails. -/
def readField (c : Codec S) : InPlace Error Reader Nat (Datum S t) :=
  InPlace.through Datum.opened (fun _ => Datum.wrap t) c.decode

def unsupported (codec : String) (S : Schema) (t : Shape) : Error :=
  .unsupportedTarget codec (t.typeName S)

def counted (x : Reading (Datum S t)) : InPlace Error Reader Nat (Datum S t) := fun old r =>
  match x r with
  | (.ok d, r') => ((.ok (r'.offset - r.offset), d), r')
  | (.error e, r') => ((.error e, old), r')

end Codec

end TagWire
