import TagWire.Encoding
import TagWire.Proofs.Stream.Appending

/-! The steps of an encoder: what it writes is what the writer below it writes, and its counters
have no part in that. -/
namespace TagWire

instance : HasWriter EncodeState := ⟨EncodeState.writer⟩

namespace Encoding

variable {S : Schema} {α : Type} {x : Writing α} {a : α} {bs : List UInt8}

theorem emits_write (h : Emits x a bs) : Emits (write x) a bs := by
  intro s hs
  obtain ⟨w, hx, hw⟩ := h s.writer hs
  refine ⟨{ s with writer := w }, ?_, hw⟩
  simp only [write, Attempt.within, hx]

theorem appends_write {P : α → List UInt8 → Prop} (h : Appends x P) : Appends (write x) P := by
  intro s a s' hs hx
  cases hx' : x s.writer with
  | mk result w =>
    simp only [write, Attempt.within, hx'] at hx
    cases hx
    exact h s.writer a w hs hx'

theorem puts_write {start : Nat} {result : Except Error α} (h : Puts x start bs result) :
    Puts (write x) start bs result := by
  intro s hs ho
  obtain ⟨w, hx, hw⟩ := h s.writer hs ho
  refine ⟨{ s with writer := w }, ?_, hw⟩
  simp only [write, Attempt.within, hx]

theorem constant_write (h : Constant x) : Constant (write x) := by
  obtain ⟨bs, result, h⟩ := h
  exact ⟨bs, result, fun start => puts_write (h start)⟩

theorem blind_write (h : Blind x) : Blind (write x) := by
  intro start
  obtain ⟨bs, result, h⟩ := h start
  exact ⟨bs, result, puts_write h⟩

theorem outputs_write {piece : Nat → Except Error (List UInt8)} (h : Outputs x piece) :
    Outputs (write x) piece := by
  intro start
  obtain ⟨bs, result, h, hp⟩ := h start
  exact ⟨bs, result, puts_write h, hp⟩

theorem thins_write {β : Type} {y : Writing β} (h : Thins x y) : Thins (write x) (write y) := by
  intro s u b u' hs hu hy
  cases hy' : y u.writer with
  | mk result w =>
    simp only [write, Attempt.within, hy'] at hy
    cases hy
    obtain ⟨a, w', bs, cs, hx, hw', hw, hsub⟩ := h s.writer u.writer b w hs hu hy'
    refine ⟨a, { s with writer := w' }, bs, cs, ?_, hw', hw, hsub⟩
    simp only [write, Attempt.within, hx]

theorem constant_count (f : Metrics → Metrics) : Constant (count f) :=
  Constant.update fun _ => rfl

theorem emits_count (f : Metrics → Metrics) : Emits (count f) () [] := Emits.update fun _ => rfl

theorem appends_count {P : List UInt8 → Prop} (f : Metrics → Metrics) (h : P []) :
    Appends (count f) fun _ bs => P bs := (emits_count f).appends h

variable {setting : Setting S} {nested : {t : Shape} → Datum S t → Encoding Unit}

theorem body_scalar {s : Scalar} (x : s.Carrier) : body setting nested (.scalar x) = (do
    let _ ← write (s.write x)) := rfl

theorem body_sequence {t : Shape} (n : Nat) (item : Fin n → Datum S t) :
    body setting nested (.sequence n item) = (do
      let _ ← write (Writer.size n)
      Attempt.forEach nested (List.ofFn item)) := rfl

theorem body_items {t : Shape} (d : Datum S (.sequence t)) :
    body setting nested d = (do
      let _ ← write (Writer.size d.items.length)
      Attempt.forEach nested d.items) := by
  cases d with
  | sequence n item => rw [body_sequence, Datum.items, List.length_ofFn]

theorem body_record {r : Nat} (fields : Fields S r) :
    body setting nested (.record fields) = (do
      let layout ← .lift ((S.record r).layoutAt setting.options.version)
      Attempt.forEach (field setting nested fields) layout) := rfl

theorem body_congr {setting' : Setting S}
    (hversion : setting'.options.version = setting.options.version)
    (hregistry : setting'.registry = setting.registry) {t : Shape} (d : Datum S t) :
    body setting' nested d = body setting nested d := by
  cases d with
  | @record r fields =>
    have hfield : field setting' nested fields = field setting nested fields := by
      funext d
      simp only [field, hregistry]
    rw [body_record, body_record, hversion, hfield]
  | @custom k x =>
    have hbody (setting : Setting S) : body setting nested (.custom x) = (do
        let _ ← write ((S.custom k).marshal x setting.options.version)) := rfl
    rw [hbody, hbody, hversion]
  | _ => rfl

def fieldValue (setting : Setting S) (nested : {t : Shape} → Datum S t → Encoding Unit)
    (codec : Option String) {t : Shape} (d : Datum S t) : Encoding Unit :=
  match codec with
  | some name => do
    let c ← .lift (setting.registry.lookup name)
    let _ ← write (c.writeField d)
    count Metrics.overridden
  | none => nested d

theorem field_eq_fieldValue {r : Nat} {fields : Fields S r} {d : Descriptor} {i : Fin (S.arity r)}
    (hi : d.index = i) :
    field setting nested fields d = fieldValue setting nested d.codec (fields i) := by
  have h : d.index < S.arity r := hi ▸ i.isLt
  obtain rfl : i = ⟨d.index, h⟩ := Fin.ext hi.symm
  unfold field fieldValue
  cases d.codec with
  | none => exact dif_pos h
  | some name => exact bind_congr fun c => dif_pos h

theorem emits_announce (t : Shape) : Emits (announce t) () [] := by
  cases t with
  | custom k => exact emits_count _
  | _ => exact Emits.pure ()

theorem value_succ (setting : Setting S) {t : Shape} (h : ∀ k, t ≠ .custom k) (levels : Nat)
    (d : Datum S t) :
    value setting (levels + 1) d = body setting (value setting levels) d := by
  cases t with
  | custom k => exact absurd rfl (h k)
  | _ => rfl

/-- Apart from the version, the options count for nothing but the number of levels. -/
theorem value_congr {setting' : Setting S}
    (hversion : setting'.options.version = setting.options.version)
    (hdepth : setting'.options.maxDepth = setting.options.maxDepth)
    (hregistry : setting'.registry = setting.registry) (levels : Nat) {t : Shape}
    (d : Datum S t) : value setting' levels d = value setting levels d := by
  induction levels generalizing t with
  | zero => rw [value, value, hdepth]
  | succ levels ih =>
    have hnested : @value S setting' levels = @value S setting levels := by
      funext t d
      exact ih d
    rw [value, value, hnested]
    exact bind_congr fun _ => body_congr hversion hregistry d

theorem value_record (setting : Setting S) (levels : Nat) {r : Nat} (fields : Fields S r) :
    value setting (levels + 1) (.record fields) =
      body setting (value setting levels) (.record fields) := rfl

end Encoding

end TagWire
