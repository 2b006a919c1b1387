import TagWire.Decoding

/-! Encoders and decoders: one sink or source, one set of options, one registry, and counters of
what was done. A call hands on the encoder or decoder that the next call starts from, also after a
failure. -/
namespace TagWire

variable {S : Schema}

structure Encoder (S : Schema) where
  setting : Setting S
  writer : Writer := {}
  metrics : Metrics := {}

namespace Encoder

def atVersion (sink : Sink) (version : Int) : Encoder S where
  setting := ⟨.atVersion version, .builtins⟩
  writer := { sink }

def run {α : Type} (x : Encoding α) (e : Encoder S) : Except Error α × Encoder S :=
  let r := x ⟨e.writer, e.metrics⟩
  (r.1, { e with writer := r.2.writer, metrics := r.2.metrics })

def write {α : Type} (x : Writing α) (e : Encoder S) : Except Error α × Encoder S :=
  e.run (Encoding.write x)

/-- Writes a value as one within others is written: it may describe itself, and costs a level. -/
def value {t : Shape} (d : Datum S t) (e : Encoder S) : Except Error Unit × Encoder S :=
  e.run (Encoding.value e.setting e.setting.options.maxDepth d)

/-- Writes a value itself, free of charge. -/
def body {t : Shape} (d : Datum S t) (e : Encoder S) : Except Error Unit × Encoder S :=
  e.run (Encoding.body e.setting (Encoding.value e.setting e.setting.options.maxDepth) d)

def encode {t : Shape} (d : Datum S t) (e : Encoder S) : Except Error Nat × Encoder S :=
  match e.value d with
  | (.ok (), e') =>
    let n := e'.writer.offset - e.writer.offset
    (.ok n, { e' with metrics := e'.metrics.encoded n })
  | (.error err, e') => (.error err, { e' with metrics := e'.metrics.encodeFailed })

/-- Writes one field of a record, whatever its tag says. -/
def field {r : Nat} (fields : Fields S r) (index : Nat) (e : Encoder S) :
    Except Error Unit × Encoder S :=
  if h : index < S.arity r then e.value (fields ⟨index, h⟩)
  else (.error (.noSuchField (S.record r).name index), e)

end Encoder

structure Decoder (S : Schema) where
  setting : Setting S
  reader : Reader
  metrics : Metrics := {}

namespace Decoder

def ofSource (source : Source) (setting : Setting S) : Decoder S where
  setting := setting
  reader := { source, limits := setting.options.limits }

def atVersion (source : Source) (version : Int) : Decoder S :=
  ofSource source ⟨.atVersion version, .builtins⟩

def read {α : Type} (x : Reading α) (d : Decoder S) : Except Error α × Decoder S :=
  let r := x d.reader
  (r.1, { d with reader := r.2 })

def run {α : Type} (x : InPlace Error DecodeState Unit α) (a : α) (d : Decoder S) :
    (Except Error Unit × α) × Decoder S :=
  let r := x a ⟨d.reader, d.metrics⟩
  (r.1, { d with reader := r.2.reader, metrics := r.2.metrics })

def value {t : Shape} (target : Datum S t) (d : Decoder S) :
    (Except Error Unit × Datum S t) × Decoder S :=
  d.run (Decoding.value d.setting d.setting.options.maxDepth) target

def body {t : Shape} (target : Datum S t) (d : Decoder S) :
    (Except Error Unit × Datum S t) × Decoder S :=
  d.run (Decoding.body d.setting (Decoding.value d.setting d.setting.options.maxDepth) t) target

/-- Counts the failure of a call. A run that is over counts nothing any more. -/
def failed (e : Error) (m : Metrics) : Metrics := if e.isFatal then m else m.decodeFailed

def decodeInto {t : Shape} (target : Datum S t) (d : Decoder S) :
    (Except Error Nat × Datum S t) × Decoder S :=
  match d.value target with
  | ((.ok (), result), d') =>
    let n := d'.reader.offset - d.reader.offset
    ((.ok n, result), { d' with metrics := d'.metrics.decoded n })
  | ((.error err, result), d') =>
    ((.error err, result), { d' with metrics := failed err d'.metrics })

def decode (t : Shape) (d : Decoder S) : Except Error (Datum S t) × Decoder S :=
  match d.decodeInto (.initial t) with
  | ((.ok _, result), d') => (.ok result, d')
  | ((.error err, _), d') => (.error err, d')

def field {r : Nat} (fields : Fields S r) (index : Nat) (d : Decoder S) :
    (Except Error Unit × Fields S r) × Decoder S :=
  if h : index < S.arity r then
    let done := d.value (fields ⟨index, h⟩)
    ((done.1.1, fields.set ⟨index, h⟩ done.1.2), done.2)
  else ((.error (.noSuchField (S.record r).name index), fields), d)

end Decoder

def encode {t : Shape} (d : Datum S t) (version : Int) : Except Error (List UInt8) :=
  match Encoder.encode d (.atVersion {} version) with
  | (.ok _, e) => .ok e.writer.sink.taken
  | (.error err, _) => .error err

/-- A value from the first bytes of an input; those after it stay unread. -/
def decode (t : Shape) (bytes : List UInt8) (version : Int) : Except Error (Datum S t) :=
  (Decoder.decode t (.atVersion { unread := bytes } version)).1

def decodeInto {t : Shape} (target : Datum S t) (bytes : List UInt8) (version : Int) :
    Except Error Nat × Datum S t :=
  (Decoder.decodeInto target (.atVersion { unread := bytes } version)).1

end TagWire
