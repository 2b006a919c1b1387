import TagWire.Proofs.Codec.Laws
import TagWire.Proofs.Codec.Pure
import TagWire.Proofs.Passage
import TagWire.Proofs.Wire.Typed

/-! Codecs that read by typed reads alone, as all that are built in do. An error of their own says
what is wrong with a field and not where. -/
namespace TagWire

variable {S : Schema} {t : Shape} {own : Error → Prop}

namespace Codec

/-- Reads by typed reads, whatever it is to overwrite; its own errors are among `own`. -/
def Typed (own : Error → Prop) (c : Codec S) : Prop :=
  ∀ (t : Shape) (d : Datum S t), TagWire.Typed own (InPlace.produce c.decode d)

end Codec

section Builtin

variable (hown : ∀ e : Error, e.offset? = none → own e)

include hown

namespace Codec

theorem typed_ofViews {α : Type} {name : String} {find : {t : Shape} → Datum S t → Option α}
    {put : α → {t : Shape} → Datum S t → Option (Datum S t)} {write : α → Writing Nat}
    {read : Reading α} (hr : TagWire.Typed own read) :
    (ofViews name find put write read).Typed own := by
  intro t d
  rw [produce_ofViews]
  refine hr.bind fun a => ?_
  split
  · exact .pure _
  · exact .fail (hown _ rfl)

theorem typed_string : (string : Codec S).Typed own := by
  intro t d
  rw [produce_string, readString.eq_def]
  split
  · exact (TagWire.Typed.read .text).map _
  · exact (TagWire.Typed.read .textBytes).map _
  · exact .fail (hown _ rfl)

theorem typed_uuid : (uuid : Codec S).Typed own := by
  intro t d
  rw [produce_uuid]
  refine (TagWire.Typed.read .octets).bind fun o => .lift _ fun e he => hown e ?_
  unfold putUuid at he
  split at he <;> cases he
  rfl

theorem typed_time : (time : Codec S).Typed own := by
  intro t d
  rw [produce_time, readTime.eq_def]
  split
  · exact (TagWire.Typed.read .instant).map _
  · exact (TagWire.Typed.read .millis).map _
  · refine (TagWire.Typed.read .millis).bind fun m => ?_
    split
    · exact .pure _
    · exact .fail (hown _ rfl)
  · exact .fail (hown _ rfl)

end Codec

theorem Builtin.typed_codec (b : Builtin) : (b.codec : Codec S).Typed own := by
  cases b with
  | bool => exact Codec.typed_ofViews hown (.read .bool)
  | byte | type | short | int | long =>
    exact Codec.typed_ofViews hown ((Typed.read (.number _ _)).map _)
  | float => exact Codec.typed_ofViews hown ((Typed.read .float32).map _)
  | double => exact Codec.typed_ofViews hown (.read .float64)
  | nullSize => exact Codec.typed_ofViews hown ((Typed.read .nullableSize).map _)
  | size => exact Codec.typed_ofViews hown ((Typed.read .size).map _)
  | string => exact Codec.typed_string hown
  | uuid => exact Codec.typed_uuid hown
  | time => exact Codec.typed_time hown

namespace Setting

variable {setting : Setting S} {c : Codec S}

theorem Overrides.typed {allowed : Builtin → Shape → Prop} (ho : setting.Overrides allowed t)
    (h : setting.Employs t c) : c.Typed own := by
  obtain ⟨r, i, d, name, hr, hd, hn, hl⟩ := h
  obtain ⟨b, rfl, -⟩ := ho r hr i d name c hd hn hl
  exact b.typed_codec hown

theorem Employs.typed (hb : setting.registry = .builtins) (h : setting.Employs t c) :
    c.Typed own := by
  obtain ⟨r, i, d, name, -, -, -, hl⟩ := h
  rw [hb] at hl
  obtain ⟨b, rfl⟩ := Registry.lookup_builtins hl
  exact b.typed_codec hown

end Setting

end Builtin

end TagWire
