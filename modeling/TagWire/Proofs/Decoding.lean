import TagWire.Decoding
import TagWire.Proofs.Codec.Laws
import TagWire.Proofs.Stream.Stepwise

/-! The steps of a decoder as steps that give a value. What a step that overwrites leaves behind
when it fails is out of sight here: a field or a part that fails makes the whole fail. -/
namespace TagWire

open HasReader (reader)

instance : HasReader DecodeState := ⟨DecodeState.reader⟩

namespace Decoding

variable {S : Schema} {L : Limits} {α : Type} {x : Reading α} {a : α} {bs : List UInt8}

theorem runs_read (x : Reading α) : Runs x (read x) :=
  fun s => ⟨{ s with reader := (x s.reader).2 }, rfl, rfl⟩

theorem takes_read (h : Takes L x bs a) : Takes L (read x) bs a :=
  fun start => (runs_read x).settles (h start)

theorem yields_read {P : α → Nat → Prop} (h : Yields L x P) : Yields L (read x) P := by
  intro s a s' hl hx
  cases hx' : x s.reader with
  | mk result r =>
    simp only [read, Attempt.within, hx'] at hx
    cases hx
    exact h s.reader a r hl hx'

theorem read_bind {β : Type} (x : Reading α) (f : α → Reading β) :
    read (x >>= f) = read x >>= fun a => read (f a) := by
  funext s
  rw [Attempt.bind_apply]
  simp only [read, Attempt.within, Attempt.bind_apply]
  rcases x s.reader with ⟨_ | _, _⟩ <;> rfl

theorem stepwise_read (h : Stepwise x) : Stepwise (read x) := by
  induction h with
  | idle g h =>
    refine .idle g fun s => ?_
    obtain ⟨r, hx, hr⟩ := h s.reader
    refine ⟨{ s with reader := r }, ?_, hr⟩
    simp only [read, Attempt.within, hx]
    rfl
  | bytes op n h =>
    refine .bytes op n fun s => ?_
    obtain ⟨r, hx, hr⟩ := h s.reader
    refine ⟨{ s with reader := r }, ?_, hr⟩
    simp only [read, Attempt.within, hx]
    rfl
  | bind _ _ hx hf =>
    rw [read_bind]
    exact hx.bind hf

theorem takes_count (f : Metrics → Metrics) : Takes L (count f) [] () :=
  fun _ => Settles.of_apply fun s _ _ => ⟨{ s with metrics := f s.metrics }, rfl, rfl⟩

theorem takes_announce (t : Shape) : Takes L (Attempt.update (announce t) : Decoding Unit) [] () :=
  fun _ => Settles.of_apply fun s _ _ => ⟨announce t s, rfl, by cases t <;> rfl⟩

variable {setting : Setting S} {nested : {t : Shape} → Overwriting S t} {t : Shape} {r : Nat}

section Congruence

/-! The options count for nothing but the version. -/

variable {setting' : Setting S} (hregistry : setting'.registry = setting.registry)

include hregistry

theorem field_congr (nested : {t : Shape} → Overwriting S t) (d : Descriptor) :
    (field setting' nested d : InPlace Error DecodeState Unit (Fields S r)) =
      field setting nested d := by
  funext fields s
  simp only [field, hregistry]

theorem fieldsInOrder_congr (nested : {t : Shape} → Overwriting S t) (ds : List Descriptor) :
    (fieldsInOrder setting' nested ds : InPlace Error DecodeState Unit (Fields S r)) =
      fieldsInOrder setting nested ds := by
  induction ds with
  | nil => rfl
  | cons d ds ih =>
    funext fields s
    rw [fieldsInOrder, fieldsInOrder, field_congr hregistry, ih]

theorem body_congr (hversion : setting'.options.version = setting.options.version)
    (nested : {t : Shape} → Overwriting S t) (t : Shape) :
    body setting' nested t = body setting nested t := by
  funext d s
  cases d with
  | record fields => simp only [body, hversion, fieldsInOrder_congr hregistry]
  | custom x => simp only [body, hversion]
  | _ => rfl

end Congruence

theorem produce_body_scalar {s : Scalar} (d : Datum S (.scalar s)) :
    InPlace.produce (body setting nested (.scalar s)) d = read (.scalar <$> s.read) :=
  InPlace.produce_assign _ d

theorem produce_body_sequence (d : Datum S (.sequence t)) :
    InPlace.produce (body setting nested (.sequence t)) d = (do
      let n ← read Reader.itemCount
      .ofArray <$> Attempt.collect (fresh nested t) n #[]) :=
  InPlace.produce_assign _ d

theorem produce_body_optional (d : Datum S (.optional t)) :
    InPlace.produce (body setting nested (.optional t)) d = .present <$> fresh nested t :=
  InPlace.produce_assign _ d

theorem produce_body_boxed (d : Datum S (.boxed t)) :
    InPlace.produce (body setting nested (.boxed t)) d = .boxed <$> fresh nested t :=
  InPlace.produce_assign _ d

theorem produce_readField_opened (c : Codec S) (d : Datum S t) :
    InPlace.produce (readInPlace c.readField) d =
      read (.wrap t <$> InPlace.produce c.decode d.opened) := by
  funext s
  simp only [InPlace.produce, readInPlace, Codec.readField, InPlace.through, read, Attempt.within,
    Functor.map]
  rcases c.decode d.opened s.reader with ⟨⟨_ | _, _⟩, _⟩ <;> rfl

/-- What decoding does with a field, by the codec of its tag. -/
def fieldValue (setting : Setting S) (nested : {t : Shape} → Overwriting S t)
    (codec : Option String) {t : Shape} : Overwriting S t := fun v s =>
  match codec with
  | some name =>
    match setting.registry.lookup name with
    | .error e => ((.error e, v), s)
    | .ok c =>
      let done := readInPlace c.readField v s
      (done.1, match done.1.1 with
        | .ok () => { done.2 with metrics := done.2.metrics.overridden }
        | .error _ => done.2)
  | none => nested v s

variable {d : Descriptor} {fields : Fields S r}

theorem field_eq_through {i : Fin (S.arity r)} (hi : d.index = i) :
    field setting nested d = InPlace.through (fun fields : Fields S r => fields i)
      (fun fields v => fields.set i v) (fieldValue setting nested d.codec) := by
  have h : d.index < S.arity r := hi ▸ i.isLt
  obtain rfl : i = ⟨d.index, h⟩ := Fin.ext hi.symm
  funext fields s
  simp only [field, fieldValue, InPlace.through]
  cases d.codec with
  | none => simp only [dif_pos h]
  | some name =>
    cases hl : setting.registry.lookup name with
    | error e => simp only [hl, Fields.set_eq_self]
    | ok c =>
      simp only [hl]
      exact dif_pos h

theorem produce_field_plain (hc : d.codec = none) (h : d.index < S.arity r) :
    InPlace.produce (field setting nested d) fields =
      fields.set ⟨d.index, h⟩ <$> InPlace.produce nested (fields ⟨d.index, h⟩) := by
  funext s
  simp only [InPlace.produce, field, hc, dif_pos h, Functor.map]
  rcases nested (fields ⟨d.index, h⟩) s with ⟨⟨_ | _, _⟩, _⟩ <;> rfl

theorem produce_field_codec {name : String} {c : Codec S} (hc : d.codec = some name)
    (hl : setting.registry.lookup name = .ok c) (h : d.index < S.arity r) :
    InPlace.produce (field setting nested d) fields = (do
      let v ← read (.wrap _ <$> InPlace.produce c.decode (fields ⟨d.index, h⟩).opened)
      count Metrics.overridden
      return fields.set ⟨d.index, h⟩ v) := by
  rw [← produce_readField_opened]
  funext s
  simp only [InPlace.produce, field, hc, hl, dif_pos h, bind]
  rcases readInPlace c.readField (fields ⟨d.index, h⟩) s with ⟨⟨_ | _, _⟩, _⟩ <;> rfl

theorem produce_field_through {name : String} {c : Codec S} (hs : c.Steady)
    (hc : d.codec = some name) (hl : setting.registry.lookup name = .ok c)
    (h : d.index < S.arity r) :
    InPlace.produce (field setting nested d) fields = (do
      let v ← read (.wrap _ <$> c.fresh (S.fieldShape r ⟨d.index, h⟩).pointee)
      count Metrics.overridden
      return fields.set ⟨d.index, h⟩ v) := by
  rw [produce_field_codec hc hl h, hs]

theorem field_refused (h : S.arity r ≤ d.index ∨
    ∃ name e, d.codec = some name ∧ setting.registry.lookup name = .error e) :
    ∃ e : Error, e.offset? = none ∧
      ∀ (nested : {t : Shape} → Overwriting S t) (fields : Fields S r) (s : DecodeState),
        field setting nested d fields s = ((.error e, fields), s) := by
  have hstray (hi : S.arity r ≤ d.index) : ¬ d.index < S.arity r := Nat.not_lt.2 hi
  unfold field
  cases hc : d.codec with
  | none =>
    have hi : S.arity r ≤ d.index := h.resolve_right fun ⟨_, _, hn, _⟩ => nomatch hc.symm.trans hn
    exact ⟨_, rfl, fun nested fields s => dif_neg (hstray hi)⟩
  | some name =>
    cases hl : setting.registry.lookup name with
    | error e =>
      refine ⟨e, ?_, fun nested fields s => by simp only [hl]⟩
      rw [Registry.eq_unknownCodec_of_lookup hl]
      rfl
    | ok c =>
      simp only [hl]
      rcases h with hi | ⟨name', e, hn, he⟩
      · exact ⟨_, rfl, fun nested fields s => dif_neg (hstray hi)⟩
      · cases hc.symm.trans hn
        cases hl.symm.trans he

theorem produce_fieldsInOrder_nil (fields : Fields S r) :
    InPlace.produce (fieldsInOrder setting nested []) fields = pure fields := rfl

theorem produce_fieldsInOrder_cons (d : Descriptor) (rest : List Descriptor)
    (fields : Fields S r) :
    InPlace.produce (fieldsInOrder setting nested (d :: rest)) fields = (do
      let fields ← InPlace.produce (field setting nested d) fields
      InPlace.produce (fieldsInOrder setting nested rest) fields) := by
  funext s
  rw [Attempt.bind_apply]
  unfold InPlace.produce
  rw [fieldsInOrder]
  rcases field setting nested d fields s with ⟨⟨_ | _, _⟩, _⟩ <;> rfl

theorem produce_body_record (fields : Fields S r) :
    InPlace.produce (body setting nested (.record r)) (.record fields) = (do
      let layout ← .lift ((S.record r).layoutAt setting.options.version)
      .record <$> InPlace.produce (fieldsInOrder setting nested layout) fields) := by
  funext s
  rw [Attempt.bind_apply]
  cases hl : (S.record r).layoutAt setting.options.version with
  | error e => simp only [InPlace.produce, body, Attempt.lift, hl]
  | ok layout =>
    simp only [InPlace.produce, body, Attempt.lift, hl, Functor.map]
    rcases fieldsInOrder setting nested layout fields s with ⟨⟨_ | _, _⟩, _⟩ <;> rfl

theorem produce_body_custom {k : Nat}
    {step : (version : Int) → InPlace Error Reader Nat (S.custom k).Carrier}
    (h : (S.custom k).unmarshal = .stream step) (x : (S.custom k).Carrier) :
    InPlace.produce (body setting nested (.custom k)) (.custom x) =
      read (.custom <$> InPlace.produce (step setting.options.version) x) := by
  funext s
  simp only [InPlace.produce, body, h, readInPlace, read, Attempt.within, Functor.map]
  rcases step setting.options.version x s.reader with ⟨⟨_ | _, _⟩, _⟩ <;> rfl

theorem produce_body_whole {k : Nat}
    {take : (version : Int) → List UInt8 → (S.custom k).Carrier →
      Except Error Nat × (S.custom k).Carrier}
    (h : (S.custom k).unmarshal = .whole take) (x : (S.custom k).Carrier) :
    InPlace.produce (body setting nested (.custom k)) (.custom x) =
      .custom <$> read (InPlace.produce
        (Reader.remaining "unmarshal" (take setting.options.version)) x) := by
  funext s
  simp only [InPlace.produce, body, h, readInPlace, read, Attempt.within, Functor.map]
  rcases Reader.remaining "unmarshal" (take setting.options.version) x s.reader with
    ⟨⟨_ | _, _⟩, _⟩ <;> rfl

theorem produce_value_succ (levels : Nat) (d : Datum S t) :
    InPlace.produce (value setting (levels + 1)) d = (do
      Attempt.update (announce t)
      InPlace.produce (body setting (value setting levels) t) d) := rfl

theorem produce_value_of_ne (h : ∀ k, t ≠ .custom k) (levels : Nat) (d : Datum S t) :
    InPlace.produce (value setting (levels + 1)) d =
      InPlace.produce (body setting (value setting levels) t) d := by
  cases t with
  | custom k => exact absurd rfl (h k)
  | _ => rfl

end Decoding

end TagWire
