import TagWire.Encoding

/-! Decoding in place. Scalars change only when they were read; sequences, optional and boxed values
are built afresh; the fields of a record that the version does not have keep what they hold, the
others are overwritten in wire order up to the first failure. -/
namespace TagWire

structure DecodeState where
  reader : Reader
  metrics : Metrics

abbrev Decoding (α : Type) := Attempt Error DecodeState α

abbrev Overwriting (S : Schema) (t : Shape) := InPlace Error DecodeState Unit (Datum S t)

namespace Decoding

variable {S : Schema}

def read {α : Type} (x : Reading α) : Decoding α :=
  x.within DecodeState.reader fun s reader => { s with reader }

def count (f : Metrics → Metrics) : Decoding Unit :=
  .update fun s => { s with metrics := f s.metrics }

def readInPlace {α : Type} (x : InPlace Error Reader Nat α) : InPlace Error DecodeState Unit α :=
  fun a s =>
    let r := x a s.reader
    ((r.1.1.map fun _ => (), r.1.2), { s with reader := r.2 })

def fresh (nested : {t : Shape} → Overwriting S t) (t : Shape) : Decoding (Datum S t) :=
  InPlace.produce nested (.initial t)

def field (setting : Setting S) (nested : {t : Shape} → Overwriting S t) {r : Nat}
    (d : Descriptor) : InPlace Error DecodeState Unit (Fields S r) := fun fields s =>
  match d.codec with
  | some name =>
    match setting.registry.lookup name with
    | .error e => ((.error e, fields), s)
    | .ok codec =>
      if h : d.index < S.arity r then
        let done := readInPlace codec.readField (fields ⟨d.index, h⟩) s
        let s := match done.1.1 with
          | .ok () => { done.2 with metrics := done.2.metrics.overridden }
          | .error _ => done.2
        ((done.1.1, fields.set ⟨d.index, h⟩ done.1.2), s)
      else ((.error (.noSuchField (S.record r).name d.index), fields), s)
  | none =>
    if h : d.index < S.arity r then
      let done := nested (fields ⟨d.index, h⟩) s
      ((done.1.1, fields.set ⟨d.index, h⟩ done.1.2), done.2)
    else ((.error (.noSuchField (S.record r).name d.index), fields), s)

def fieldsInOrder (setting : Setting S) (nested : {t : Shape} → Overwriting S t) {r : Nat} :
    List Descriptor → InPlace Error DecodeState Unit (Fields S r)
  | [], fields, s => ((.ok (), fields), s)
  | d :: rest, fields, s =>
    match field setting nested d fields s with
    | ((.ok (), fields), s) => fieldsInOrder setting nested rest fields s
    | ((.error e, fields), s) => ((.error e, fields), s)

/-- Overwrites a value itself; values within it go to `nested`. -/
def body (setting : Setting S) (nested : {t : Shape} → Overwriting S t) :
    (t : Shape) → Overwriting S t
  | .scalar s => InPlace.assign (read (.scalar <$> s.read))
  | .sequence t => InPlace.assign do
    let n ← read Reader.itemCount
    .ofArray <$> Attempt.collect (fresh nested t) n #[]
  | .optional t => InPlace.assign (.present <$> fresh nested t)
  | .boxed t => InPlace.assign (.boxed <$> fresh nested t)
  | .record r => fun (.record fields) s =>
    match (S.record r).layoutAt setting.options.version with
    | .error e => ((.error e, .record fields), s)
    | .ok layout =>
      let done := fieldsInOrder setting nested layout fields s
      ((done.1.1, .record done.1.2), done.2)
  | .custom k => fun (.custom x) s =>
    let done := match (S.custom k).unmarshal with
      | .stream step => readInPlace (step setting.options.version) x s
      | .whole take =>
        readInPlace (Reader.remaining "unmarshal" (take setting.options.version)) x s
    ((done.1.1, .custom done.1.2), done.2)

def announce (t : Shape) (s : DecodeState) : DecodeState :=
  match t with
  | .custom _ => { s with metrics := s.metrics.delegated }
  | _ => s

/-- Overwrites a value with a number of levels left for it and the values within it. -/
def value (setting : Setting S) : (levels : Nat) → {t : Shape} → Overwriting S t
  | 0, _ => fun d s => ((.error (.depthExceeded setting.options.maxDepth), d), s)
  | levels + 1, t => fun d s => body setting (value setting levels) t d (announce t s)

end Decoding

end TagWire
