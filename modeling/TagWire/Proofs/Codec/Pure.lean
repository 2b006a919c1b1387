import TagWire.Proofs.Codec.Builtin
import TagWire.Proofs.Encoding
import TagWire.Proofs.Layout
import TagWire.Proofs.Schema.Contains

/-! Codecs for which what is written of a field hangs on the value behind it and on nothing else. So
it is with all that are built in. -/
namespace TagWire

variable {S : Schema} {t : Shape} {α : Type}

namespace Codec

/-- What the codec writes, and whether it refuses, is a function of the value. -/
def Pure (c : Codec S) : Prop := ∀ (t : Shape) (d : Datum S t), Constant (c.encode d)

theorem Pure.constant_writeField {c : Codec S} (hc : c.Pure) (d : Datum S t) :
    Constant (c.writeField d) := (Constant.lift _).bind fun p => hc _ p

theorem pure_ofViews {name : String} {find : {t : Shape} → Datum S t → Option α}
    {put : α → {t : Shape} → Datum S t → Option (Datum S t)} {write : α → Writing Nat}
    {read : Reading α} (hw : ∀ a, Constant (write a)) :
    (ofViews name find put write read).Pure := by
  intro t d
  unfold ofViews
  dsimp only
  split
  · exact hw _
  · exact Constant.fail _

theorem pure_string : (string : Codec S).Pure := by
  intro t d
  unfold string
  dsimp only
  split
  · exact Constant.of_emits (Writer.emits_text _)
  · exact Constant.of_emits (Writer.emits_textBytes _)
  · exact Constant.fail _

theorem pure_uuid : (uuid : Codec S).Pure := by
  intro t d
  exact (Constant.lift _).bind fun o => Constant.of_emits (Writer.emits_octets o)

theorem pure_time : (time : Codec S).Pure := by
  intro t d
  unfold time
  dsimp only
  split
  · exact Writer.constant_millis _
  · exact Writer.constant_millis _
  · split
    · exact Writer.constant_millis _
    · exact Constant.fail _
  · exact Constant.fail _

end Codec

theorem Builtin.pure_codec (b : Builtin) : (b.codec : Codec S).Pure := by
  cases b with
  | bool => exact Codec.pure_ofViews fun b => Constant.of_emits (Writer.emits_bool b)
  | byte | type | short | int | long =>
    exact Codec.pure_ofViews fun _ => Writer.constant_numberAs _ _
  | float => exact Codec.pure_ofViews fun _ => Constant.of_emits (Writer.emits_float32 _)
  | double => exact Codec.pure_ofViews fun _ => Constant.of_emits (Writer.emits_float64 _)
  | nullSize => exact Codec.pure_ofViews fun _ => Constant.of_emits (Writer.emits_nullableSize _)
  | size => exact Codec.pure_ofViews fun _ => Constant.of_emits (Writer.emits_size _)
  | string => exact Codec.pure_string
  | uuid => exact Codec.pure_uuid
  | time => exact Codec.pure_time

namespace Setting

variable {setting : Setting S} {u : Shape} {r : Nat}

def Employs (setting : Setting S) (t : Shape) (c : Codec S) : Prop :=
  ∃ (r : Nat) (i : Fin (S.arity r)) (d : Descriptor) (name : String), S.Contains t (.record r) ∧
    S.descriptor r i = .ok d ∧ d.codec = some name ∧ setting.registry.lookup name = .ok c

theorem Employs.of_part {c : Codec S} (hu : u ∈ S.parts t) (h : setting.Employs u c) :
    setting.Employs t c := by
  obtain ⟨r, i, d, name, hr, hd⟩ := h
  exact ⟨r, i, d, name, hr.head hu, hd⟩

theorem Employs.pure {c : Codec S} (hb : setting.registry = .builtins)
    (h : setting.Employs t c) : c.Pure := by
  obtain ⟨r, i, d, name, -, -, -, hl⟩ := h
  rw [hb] at hl
  obtain ⟨b, rfl⟩ := Registry.lookup_builtins hl
  exact b.pure_codec

theorem constant_field {nested : {t : Shape} → Datum S t → Encoding Unit} {fields : Fields S r}
    (hc : ∀ c, setting.Employs (.record r) c → c.Pure) {ds : List Descriptor}
    (hl : (S.record r).layout = .ok ds) {d : Descriptor} (hd : d ∈ ds) {name : String}
    (hn : d.codec = some name) : Constant (Encoding.field setting nested fields d) := by
  unfold Encoding.field
  rw [hn]
  refine Constant.lift_bind fun c hlook => ?_
  split
  · next hi =>
    have hdesc := (Schema.mem_layout hl ⟨d.index, hi⟩ d).1 ⟨hd, rfl⟩
    have hp := hc c ⟨r, ⟨d.index, hi⟩, d, name, Schema.Contains.refl, hdesc, hn, hlook⟩
    have hw := Encoding.constant_write (hp.constant_writeField (fields ⟨d.index, hi⟩))
    exact hw.bind fun _ => Encoding.constant_count _
  · exact Constant.fail _

end Setting

end TagWire
