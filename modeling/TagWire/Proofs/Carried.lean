import TagWire.Proofs.Passage

/-! What the wire carries of a value, and which values a decoder lets in. Both follow the value and
go by the passage of each field. -/
namespace TagWire.Datum

variable {S : Schema}

/-- Changes the value behind the optional and boxed shapes, where there is one. -/
def recode (f : {t : Shape} → Datum S t → Datum S t) {t : Shape} (d : Datum S t) : Datum S t :=
  match d.pointee with
  | .ok p => .wrap t (f p)
  | .error _ => d

theorem recode_of_pointee {f : {t : Shape} → Datum S t → Datum S t} {t : Shape} {d : Datum S t}
    {p : Datum S t.pointee} (h : d.pointee = .ok p) : d.recode f = .wrap t (f p) := by
  rw [recode, h]

/-- What is decoded from the bytes of a value: fields that are not on the wire have their first
value, instants end at the millisecond, fields with a codec hold what the codec makes of them. -/
def carried (setting : Setting S) : {t : Shape} → Datum S t → Datum S t
  | _, .scalar (s := s) x => .scalar (s.carried x)
  | _, .sequence n item => .sequence n fun i => (item i).carried setting
  | _, .absent => .absent
  | _, .present d => .present (d.carried setting)
  | _, .boxed d => .boxed (d.carried setting)
  | _, .record (r := r) field => .record fun i => match setting.passage r i with
    | .off => .initial _
    | .plain => (field i).carried setting
    | .through b => (field i).recode b.convert
  | _, .custom x => .custom x

/-- Whether a decoder lets in all text and all sequences that are written of the value. Lengths are
counted in 64 bits. -/
def Within (setting : Setting S) : {t : Shape} → Datum S t → Prop
  | _, .scalar (s := s) x => s.Within setting.options.limits x
  | _, .sequence n item =>
    n ≤ setting.options.maxItems ∧ n < sizeBound ∧ ∀ i, (item i).Within setting
  | _, .absent => True
  | _, .present d => d.Within setting
  | _, .boxed d => d.Within setting
  | _, .record (r := r) field => ∀ i, match setting.passage r i with
    | .off => True
    | .plain => (field i).Within setting
    | .through b => ∀ p, (field i).pointee = .ok p → b.Within setting.options.limits p
  | _, .custom _ => True

instance decidableWithin (setting : Setting S) : {t : Shape} → (d : Datum S t) →
    Decidable (d.Within setting)
  | _, .scalar (s := s) x => inferInstanceAs (Decidable (s.Within _ x))
  | _, .sequence n item =>
    have := fun i => decidableWithin setting (item i)
    inferInstanceAs (Decidable (n ≤ _ ∧ n < sizeBound ∧ ∀ i, (item i).Within setting))
  | _, .absent => .isTrue trivial
  | _, .present d => decidableWithin setting d
  | _, .boxed d => decidableWithin setting d
  | _, .record (r := r) field =>
    have : ∀ i, Decidable (match setting.passage r i with
        | .off => True
        | .plain => (field i).Within setting
        | .through b => ∀ p, (field i).pointee = .ok p → b.Within setting.options.limits p) :=
      fun i => match setting.passage r i with
        | .off => .isTrue trivial
        | .plain => decidableWithin setting (field i)
        | .through b => match (field i).pointee with
          | .error _ => .isTrue nofun
          | .ok p => decidable_of_iff (b.Within setting.options.limits p)
            ⟨fun h _ hq => Except.ok.inj hq ▸ h, fun h => h p rfl⟩
    Nat.decidableForallFin _
  | _, .custom _ => .isTrue trivial

variable {setting : Setting S} {r : Nat} {i : Fin (S.arity r)} {b : Builtin}

def carriedField (setting : Setting S) (fields : Fields S r) (i : Fin (S.arity r)) :
    Datum S (S.fieldShape r i) := ((Datum.record fields).carried setting).fields i

theorem carried_record (fields : Fields S r) :
    (Datum.record fields).carried setting = .record (carriedField setting fields) := rfl

theorem carriedField_off (fields : Fields S r) (h : setting.passage r i = .off) :
    carriedField setting fields i = .initial _ := by
  simp only [carriedField, carried, Datum.fields, h]

theorem carriedField_plain (fields : Fields S r) (h : setting.passage r i = .plain) :
    carriedField setting fields i = (fields i).carried setting := by
  simp only [carriedField, carried, Datum.fields, h]

theorem carriedField_through (fields : Fields S r) (h : setting.passage r i = .through b) :
    carriedField setting fields i = (fields i).recode b.convert := by
  simp only [carriedField, carried, Datum.fields, h]

theorem Within.plain {fields : Fields S r} (h : (Datum.record fields).Within setting)
    (hi : setting.passage r i = .plain) : (fields i).Within setting := by
  have hf := h i
  rwa [hi] at hf

theorem Within.through {fields : Fields S r} (h : (Datum.record fields).Within setting)
    (hi : setting.passage r i = .through b) {p : Datum S (S.fieldShape r i).pointee}
    (hp : (fields i).pointee = .ok p) : b.Within setting.options.limits p := by
  have hf := h i
  rw [hi] at hf
  exact hf p hp

end TagWire.Datum
