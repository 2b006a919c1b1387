import TagWire.Proofs.Interrupted
import TagWire.Sample.Codecs

/-! What a field held before it is read through a codec. An optional or boxed field is opened, so
that its codec starts from a new value; to any other field the codec comes as it is, and whether
anything of it is left is up to the codec. No built-in codec leaves anything. -/
namespace TagWire

variable {S : Schema} {t : Shape} {r : Nat}

namespace Codec

/-- Whatever stood in a place of the shape before, what the codec leaves there when it succeeds is
what it reads into a new place. -/
def Renews (c : Codec S) (t : Shape) : Prop :=
  ∀ (old v : Datum S t) (r r' : Reader),
    InPlace.produce c.decode old r = (.ok v, r') → c.fresh t r = (.ok v, r')

theorem Steady.renews {c : Codec S} (h : c.Steady) (t : Shape) : c.Renews t := by
  intro old v r r' hv
  rwa [h old] at hv

end Codec

namespace Datum

theorem opened_wrap (h : t.indirect = false) (d : Datum S t.pointee) : (wrap t d).opened = d := by
  cases t with
  | scalar | sequence | record | custom =>
    cases d
    rfl
  | optional | boxed => cases h

theorem wrap_inj {d d' : Datum S t.pointee} (h : wrap t d = wrap t d') : d = d' := by
  have hp := congrArg pointee h
  rw [pointee_wrap, pointee_wrap] at hp
  exact Except.ok.inj hp

end Datum

namespace Decoding

variable {setting : Setting S} {nested : {t : Shape} → Overwriting S t} {d : Descriptor}
  {i : Fin (S.arity r)} {name : String} {c : Codec S}

/-- What a field holds once it was read through the codec is what the codec reads into a new place,
whatever the field held before. -/
def Renews (setting : Setting S) (nested : {t : Shape} → Overwriting S t) (d : Descriptor)
    (i : Fin (S.arity r)) (c : Codec S) : Prop :=
  ∀ (old new : Fields S r) (s s' : DecodeState),
    field setting nested d old s = ((.ok (), new), s') →
    ∃ v, c.fresh (S.fieldShape r i).pointee s.reader = (.ok v, s'.reader) ∧
      new = old.set i (.wrap _ v)

theorem field_codec_ok_iff (hi : d.index = i) (hc : d.codec = some name)
    (hl : setting.registry.lookup name = .ok c) {old new : Fields S r} {s s' : DecodeState} :
    field setting nested d old s = ((.ok (), new), s') ↔ ∃ v r',
      InPlace.produce c.decode (old i).opened s.reader = (.ok v, r') ∧
        new = old.set i (.wrap _ v) ∧ s' = ⟨r', s.metrics.overridden⟩ := by
  rw [field_eq_through hi, hc]
  simp only [InPlace.through, fieldValue, hl, readInPlace, Codec.readField, InPlace.produce]
  rcases c.decode (old i).opened s.reader with ⟨⟨e | n, v⟩, r'⟩
  · constructor
    · intro h
      cases h
    · rintro ⟨_, _, h, -⟩
      cases h
  · constructor
    · intro h
      cases h
      exact ⟨v, r', rfl, rfl, rfl⟩
    · rintro ⟨_, _, h, rfl, rfl⟩
      cases h
      rfl

/-- A codec reads into a new value exactly where it is led to one behind the field or has no regard
for what it finds. The built-in codecs have none. -/
theorem renews_iff (hi : d.index = i) (hc : d.codec = some name)
    (hl : setting.registry.lookup name = .ok c) :
    (Renews setting nested d i c ↔
      (S.fieldShape r i).indirect = true ∨ c.Renews (S.fieldShape r i).pointee) ∧
    ∀ b : Builtin, c = b.codec → Renews setting nested d i c := by
  have hrenews (h : (S.fieldShape r i).indirect = true ∨ c.Renews (S.fieldShape r i).pointee) :
      Renews setting nested d i c := by
    intro old new s s' hf
    obtain ⟨v, r', hv, rfl, rfl⟩ := (field_codec_ok_iff hi hc hl).1 hf
    rcases h with hshape | hcodec
    · rw [Datum.opened_of_indirect hshape] at hv
      exact ⟨v, hv, rfl⟩
    · exact ⟨v, hcodec _ _ _ _ hv, rfl⟩
  refine ⟨⟨fun h => ?_, hrenews⟩, ?_⟩
  · cases hshape : (S.fieldShape r i).indirect with
    | true => exact .inl rfl
    | false =>
      -- Such a field can hold whatever the codec may find, and shows it as it is.
      refine .inr fun before v r₁ r₂ hv => ?_
      let old : Fields S r := Fields.set (fun j => .initial _) i (.wrap _ before)
      have hold : old i = .wrap _ before := Fields.set_self ..
      rw [← Datum.opened_wrap hshape before, ← hold] at hv
      obtain ⟨v', hfresh, hset⟩ := h old _ ⟨r₁, {}⟩ _
        ((field_codec_ok_iff hi hc hl).2 ⟨v, r₂, hv, rfl, rfl⟩)
      have hwrap := congrFun hset i
      rw [Fields.set_self, Fields.set_self] at hwrap
      rw [Datum.wrap_inj hwrap]
      exact hfresh
  · rintro b rfl
    exact hrenews (.inr (Codec.Steady.renews b.steady_codec _))

end Decoding

namespace Sample

def slate : RecordType := recordType "Slate" [
  ⟨"front", int .i32, "const,1"⟩, ⟨"back", .optional (.boxed (int .i32)), "const,2"⟩]

def slateSchema : TagWire.Schema := schemaWith slate (by decide)

def front : Fin (slateSchema.arity spare) := ⟨0, by decide⟩

def back : Fin (slateSchema.arity spare) := ⟨1, by decide⟩

def slateTag (i : Fin (slateSchema.arity spare)) : Descriptor := ⟨i + 1, false, 0, some "const", i⟩

def slateSetting : Setting slateSchema :=
  ⟨.atVersion 1, Registry.builtins.insert "const" Codecs.const⟩

theorem lookup_const : slateSetting.registry.lookup "const" = .ok Codecs.const := rfl

def chalked : Fields slateSchema spare
  | ⟨0, _⟩ => .scalar (IntKind.i32.wrap 7)
  | ⟨1, _⟩ => .present (.boxed (.scalar (IntKind.i32.wrap 7)))

def slateState : DecodeState := ⟨{ source := { unread := [0xee] } }, {}⟩

theorem produce_const {t : Shape} (d : Datum slateSchema t) :
    InPlace.produce Codecs.const.decode d slateState.reader =
      (.ok d, slateState.reader.advance 1) := rfl

theorem field_slate (i : Fin (slateSchema.arity spare)) :
    Decoding.field slateSetting (Decoding.value slateSetting 1) (slateTag i) chalked slateState =
      ((.ok (), chalked.set i (.wrap _ (chalked i).opened)),
        ⟨slateState.reader.advance 1, slateState.metrics.overridden⟩) :=
  (Decoding.field_codec_ok_iff rfl rfl lookup_const).2 ⟨_, _, produce_const _, rfl, rfl⟩

end Sample

namespace Decoding

open Sample (slateSetting slateTag chalked slateState front back)

theorem renews_iff_back : ∃ new s',
    field slateSetting (value slateSetting 1) (slateTag back) chalked slateState =
      ((.ok (), new), s') ∧ new back = .present (.boxed (.scalar (IntKind.i32.wrap 0))) := by
  have hrenews : Renews slateSetting (value slateSetting 1) (slateTag back) back
      Sample.Codecs.const := (renews_iff rfl rfl Sample.lookup_const).1.2 (.inl rfl)
  obtain ⟨v, hv, hnew⟩ := hrenews _ _ _ _ (Sample.field_slate back)
  cases (Sample.produce_const (.initial _)).symm.trans hv
  refine ⟨_, _, Sample.field_slate back, ?_⟩
  rw [hnew, Fields.set_self]
  rfl

/-- It is not so that whatever a codec reads is read into a new value. -/
theorem previous_left_by_codec : ¬ ∀ (d : Descriptor) (i : Fin (Sample.slateSchema.arity _))
    (name : String) (c : Codec Sample.slateSchema), d.index = i → d.codec = some name →
    slateSetting.registry.lookup name = .ok c →
    Renews (r := Sample.spare) slateSetting (value slateSetting 1) d i c := by
  intro hall
  obtain ⟨v, hv, hnew⟩ :=
    hall (slateTag front) front _ _ rfl rfl Sample.lookup_const _ _ _ _ (Sample.field_slate front)
  cases (Sample.produce_const (.initial _)).symm.trans hv
  have hleft := congrFun hnew front
  rw [Fields.set_self, Fields.set_self] at hleft
  have hseven := congrArg Datum.integer? hleft
  revert hseven
  decide

end Decoding

end TagWire
