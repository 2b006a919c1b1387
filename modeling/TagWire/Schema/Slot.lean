import TagWire.Schema.Datum

/-! What a registry codec sees of a field: the value behind optional and boxed ones. -/
namespace TagWire

def Shape.pointee : Shape → Shape
  | optional t | boxed t => t.pointee
  | t => t

namespace Datum

variable {S : Schema}

def pointee : {t : Shape} → Datum S t → Except Error (Datum S t.pointee)
  | _, .scalar x => .ok (.scalar x)
  | _, .sequence n item => .ok (.sequence n item)
  | .optional t, .absent => .error (.missingValue (t.optional.typeName S))
  | _, .present d => d.pointee
  | _, .boxed d => d.pointee
  | _, .record field => .ok (.record field)
  | _, .custom x => .ok (.custom x)

/-- The value that a codec overwrites: behind an optional or boxed field it starts afresh. -/
def opened : {t : Shape} → Datum S t → Datum S t.pointee
  | _, .scalar x => .scalar x
  | _, .sequence n item => .sequence n item
  | .optional t, _ => initial t.pointee
  | .boxed t, _ => initial t.pointee
  | _, .record field => .record field
  | _, .custom x => .custom x

def wrap : (t : Shape) → Datum S t.pointee → Datum S t
  | .scalar _, d => d
  | .sequence _, d => d
  | .optional t, d => .present (wrap t d)
  | .boxed t, d => .boxed (wrap t d)
  | .record _, d => d
  | .custom _, d => d

@[simp] theorem pointee_wrap : (t : Shape) → (d : Datum S t.pointee) → (wrap t d).pointee = .ok d
  | .scalar _, .scalar _ => rfl
  | .sequence _, .sequence _ _ => rfl
  | .record _, .record _ => rfl
  | .custom _, .custom _ => rfl
  | .optional t, d => pointee_wrap t d
  | .boxed t, d => pointee_wrap t d

end Datum

namespace Fields

variable {S : Schema} {r : Nat}

def slot (fields : Fields S r) (index : Nat) : Except Error Shape :=
  if h : index < S.arity r then
    (fields ⟨index, h⟩).pointee.map fun _ => (S.fieldShape r ⟨index, h⟩).pointee
  else .error (.noSuchField (S.record r).name index)

/-- The shape that a codec would overwrite of a field, and the fields once that one was opened. -/
def openSlot (fields : Fields S r) (index : Nat) : Except Error (Shape × Fields S r) :=
  if h : index < S.arity r then
    let i : Fin (S.arity r) := ⟨index, h⟩
    .ok ((S.fieldShape r i).pointee, fields.set i (.wrap _ (fields i).opened))
  else .error (.noSuchField (S.record r).name index)

end Fields

end TagWire
