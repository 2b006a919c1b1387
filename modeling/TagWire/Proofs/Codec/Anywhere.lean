import TagWire.Proofs.Codec.Direct
import TagWire.Proofs.Wire.Anywhere

/-! Codecs for which it makes no difference where in a stream a field stands. So it is with all that
are built in. -/
namespace TagWire

variable {S : Schema} {t : Shape} {α : Type}

theorem Datum.unplaced_of_pointee {d : Datum S t} {e : Error} (h : d.pointee = .error e) :
    e.offset? = none := by
  induction d with
  | absent =>
    cases h
    rfl
  | present d ih | boxed d ih => exact ih h
  | _ => cases h

namespace Codec

/-- Writes a field the same in all places. -/
def WritesAnywhere (c : Codec S) : Prop :=
  ∀ (t : Shape) (d : Datum S t), Writer.Anywhere (c.encode d)

def ReadsAnywhere (c : Codec S) : Prop := ∀ t : Shape, Reader.AnywhereInPlace (c.decode (t := t))

theorem WritesAnywhere.writeField {c : Codec S} (hc : c.WritesAnywhere) (d : Datum S t) :
    Writer.Anywhere (c.writeField d) :=
  .lift_bind (fun _ h => Datum.unplaced_of_pointee h) fun d => hc _ d

theorem ReadsAnywhere.readField {c : Codec S} (hc : c.ReadsAnywhere) (t : Shape) :
    Reader.AnywhereInPlace (c.readField (t := t)) :=
  fun d L n => (hc _ d.opened L n).through _

theorem anywhere_counted {g : Datum S t → Reading (Datum S t)}
    (hg : ∀ d, Reader.Anywhere (g d)) : Reader.AnywhereInPlace fun d => counted (g d) d := by
  rintro d L n r _ ⟨hl, hp, rfl⟩
  obtain ⟨r', hy, hr⟩ := (hg d L n).run ⟨hl, hp, rfl⟩
  obtain rfl := hr.onward
  unfold counted
  dsimp only
  rw [hy]
  rcases hx : g d r with ⟨e | d', r₁⟩
  · rw [hx] at hr
    exact ⟨rfl, hr⟩
  · rw [hx] at hr
    exact ⟨congrArg (fun k => (Except.ok k, d')) (Nat.add_sub_add_left ..), hr⟩

section Views

variable {name : String} {find : {t : Shape} → Datum S t → Option α}
  {put : α → {t : Shape} → Datum S t → Option (Datum S t)} {write : α → Writing Nat}
  {read : Reading α}

theorem writesAnywhere_ofViews (hw : ∀ a, Writer.Anywhere (write a)) :
    (ofViews name find put write read).WritesAnywhere := by
  intro t d
  unfold ofViews
  dsimp only
  split
  · exact hw _
  · exact .fail rfl

theorem readsAnywhere_ofViews (hr : Reader.Anywhere read) :
    (ofViews name find put write read).ReadsAnywhere := by
  intro t
  refine anywhere_counted fun d => hr.bind fun a => ?_
  split
  · exact .pure _
  · exact .fail rfl

end Views

theorem writesAnywhere_string : (string : Codec S).WritesAnywhere := by
  intro t d
  unfold string
  dsimp only
  split
  · exact .of_emits (Writer.emits_text _)
  · exact .of_emits (Writer.emits_textBytes _)
  · exact .fail rfl

theorem anywhere_readString (t : Shape) : Reader.Anywhere (readString (S := S) t) := by
  rw [readString.eq_def]
  split
  · exact Reader.anywhere_text.map _
  · exact Reader.anywhere_textBytes.map _
  · exact .fail rfl

theorem readsAnywhere_string : (string : Codec S).ReadsAnywhere := by
  intro t
  rw [funext (f := string.decode) decode_string]
  exact anywhere_counted fun _ => anywhere_readString t

theorem writesAnywhere_uuid : (uuid : Codec S).WritesAnywhere := by
  intro t d
  refine .lift_bind (fun e he => ?_) fun o => .of_emits (Writer.emits_octets o)
  unfold uuidOf at he
  split at he
  · cases he
  · cases he
  · split at he <;> cases he
    rfl
  · split at he <;> cases he
    rfl
  · cases he
    rfl

theorem readsAnywhere_uuid : (uuid : Codec S).ReadsAnywhere := by
  intro t
  refine anywhere_counted fun d => Reader.anywhere_octets.bind fun o => .lift fun e he => ?_
  unfold putUuid at he
  split at he <;> cases he
  rfl

theorem writesAnywhere_time : (time : Codec S).WritesAnywhere := by
  intro t d
  unfold time
  dsimp only
  split
  · exact Writer.anywhere_millis _
  · exact Writer.anywhere_millis _
  · split
    · exact Writer.anywhere_millis _
    · exact .fail rfl
  · exact .fail rfl

theorem anywhere_readTime (t : Shape) : Reader.Anywhere (readTime (S := S) t) := by
  rw [readTime.eq_def]
  split
  · exact Reader.anywhere_instant.map _
  · exact Reader.anywhere_millis.map _
  · refine Reader.anywhere_millis.bind fun m => ?_
    split
    · exact .pure _
    · exact .fail rfl
  · exact .fail rfl

theorem readsAnywhere_time : (time : Codec S).ReadsAnywhere := by
  intro t
  rw [funext (f := time.decode) decode_time]
  exact anywhere_counted fun _ => anywhere_readTime t

end Codec

namespace Builtin

theorem writesAnywhere_codec (b : Builtin) : (b.codec : Codec S).WritesAnywhere := by
  cases b with
  | bool => exact Codec.writesAnywhere_ofViews fun b => .of_emits (Writer.emits_bool b)
  | byte | type | short | int | long =>
    exact Codec.writesAnywhere_ofViews fun _ => Writer.anywhere_numberAs _ _
  | float => exact Codec.writesAnywhere_ofViews fun _ => .of_emits (Writer.emits_float32 _)
  | double => exact Codec.writesAnywhere_ofViews fun _ => .of_emits (Writer.emits_float64 _)
  | nullSize => exact Codec.writesAnywhere_ofViews fun _ => .of_emits (Writer.emits_nullableSize _)
  | size => exact Codec.writesAnywhere_ofViews fun _ => .of_emits (Writer.emits_size _)
  | string => exact Codec.writesAnywhere_string
  | uuid => exact Codec.writesAnywhere_uuid
  | time => exact Codec.writesAnywhere_time

theorem readsAnywhere_codec (b : Builtin) : (b.codec : Codec S).ReadsAnywhere := by
  cases b with
  | bool => exact Codec.readsAnywhere_ofViews Reader.anywhere_bool
  | byte | type | short | int | long =>
    exact Codec.readsAnywhere_ofViews ((Reader.anywhere_numberAs _ _).map _)
  | float => exact Codec.readsAnywhere_ofViews (Reader.anywhere_float32.map _)
  | double => exact Codec.readsAnywhere_ofViews Reader.anywhere_float64
  | nullSize => exact Codec.readsAnywhere_ofViews (Reader.anywhere_nullableSize.map _)
  | size => exact Codec.readsAnywhere_ofViews (Reader.anywhere_size.map _)
  | string => exact Codec.readsAnywhere_string
  | uuid => exact Codec.readsAnywhere_uuid
  | time => exact Codec.readsAnywhere_time

end Builtin

end TagWire
