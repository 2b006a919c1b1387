import TagWire.Layout
import TagWire.Metrics
import TagWire.Options
import TagWire.Registry

/-! Encoding. Records write the fields that the version has in wire order, a named codec in place of
the generic form; sequences write their length first; optional and boxed values write what they
hold; self-describing values are left to themselves. Each value within a value costs one level. -/
namespace TagWire

structure Setting (S : Schema) where
  options : Options
  registry : Registry S

structure EncodeState where
  writer : Writer
  metrics : Metrics

abbrev Encoding (α : Type) := Attempt Error EncodeState α

namespace Encoding

variable {S : Schema}

def write {α : Type} (x : Writing α) : Encoding α :=
  x.within EncodeState.writer fun s writer => { s with writer }

def count (f : Metrics → Metrics) : Encoding Unit :=
  .update fun s => { s with metrics := f s.metrics }

def field (setting : Setting S) (nested : {t : Shape} → Datum S t → Encoding Unit) {r : Nat}
    (fields : Fields S r) (d : Descriptor) : Encoding Unit :=
  match d.codec with
  | some name => do
    let codec ← .lift (setting.registry.lookup name)
    if h : d.index < S.arity r then
      let _ ← write (codec.writeField (fields ⟨d.index, h⟩))
      count Metrics.overridden
    else .fail (.noSuchField (S.record r).name d.index)
  | none =>
    if h : d.index < S.arity r then nested (fields ⟨d.index, h⟩)
    else .fail (.noSuchField (S.record r).name d.index)

def body (setting : Setting S) (nested : {t : Shape} → Datum S t → Encoding Unit) :
    {t : Shape} → Datum S t → Encoding Unit
  | .scalar s, .scalar x => do
    let _ ← write (s.write x)
  | .sequence _, .sequence n item => do
    let _ ← write (Writer.size n)
    Attempt.forEach nested (List.ofFn item)
  | .optional t, .absent => .fail (.missingValue (t.optional.typeName S))
  | .optional _, .present d => nested d
  | .boxed _, .boxed d => nested d
  | .record r, .record fields => do
    let layout ← .lift ((S.record r).layoutAt setting.options.version)
    Attempt.forEach (field setting nested fields) layout
  | .custom k, .custom x => do
    let _ ← write ((S.custom k).marshal x setting.options.version)

def announce : Shape → Encoding Unit
  | .custom _ => count Metrics.delegated
  | _ => pure ()

def value (setting : Setting S) : (levels : Nat) → {t : Shape} → Datum S t → Encoding Unit
  | 0, _, _ => .fail (.depthExceeded setting.options.maxDepth)
  | levels + 1, t, d => do
    announce t
    body setting (value setting levels) d

end Encoding

end TagWire
