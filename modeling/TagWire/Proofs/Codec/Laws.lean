import TagWire.Proofs.Codec.Direct

/-! The laws of all built-in codecs. What was in a field before has no part in what is read, reading
judges only what it has consumed, and an exact codec brings a value back up to its conversion. -/
namespace TagWire.Builtin

variable {S : Schema} {t : Shape} {L : Limits}

theorem codec_of_kind? {b : Builtin} {w : IntKind} (h : b.kind? = some w) :
    ∃ name write read, (b.codec : Codec S) = Codec.integer name write read ∧
      Codec.Numeric w write read := by
  have hs := Codec.numeric_counted Writer.emits_size Reader.takes_size Reader.guarded_size
    (Reader.yields_size.mono fun _ _ h => h.1)
  have hn := Codec.numeric_counted Writer.emits_nullableSize Reader.takes_nullableSize
    Reader.guarded_nullableSize (Reader.yields_nullableSize.mono fun _ _ h => h.1)
  cases b <;> cases h
  case nullSize => exact ⟨_, _, _, rfl, hn⟩
  case size => exact ⟨_, _, _, rfl, hs⟩
  all_goals exact ⟨_, _, _, rfl, Codec.numeric_fixed rfl _⟩

theorem steady_codec (b : Builtin) : (b.codec : Codec S).Steady := by
  cases b with
  | bool => exact Codec.steady_ofViews Datum.putTruth?_congr
  | byte | type | short | int | long | nullSize | size =>
    exact Codec.steady_ofViews Datum.putInteger?_congr
  | float | double => exact Codec.steady_ofViews Datum.putDouble?_congr
  | string => exact Codec.steady_string
  | uuid => exact Codec.steady_uuid
  | time => exact Codec.steady_time

theorem guarded_fresh (b : Builtin) (t : Shape) : Guarded ((b.codec : Codec S).fresh t) := by
  cases hk : b.kind? with
  | some w =>
    obtain ⟨name, write, read, hb, hn⟩ := codec_of_kind? (S := S) hk
    rw [hb]
    exact Codec.guarded_ofViews hn.guarded t
  | none =>
    cases b with
    | bool => exact Codec.guarded_ofViews Reader.guarded_bool t
    | byte | type | short | int | long | nullSize | size => cases hk
    | float => exact Codec.guarded_ofViews (Reader.guarded_float32.map _) t
    | double => exact Codec.guarded_ofViews Reader.guarded_float64 t
    | string => exact Codec.guarded_string t
    | uuid => exact Codec.guarded_uuid t
    | time => exact Codec.guarded_time t

theorem carries_codec {b : Builtin} (hb : b.Exact) {d : Datum S t} (h : b.Within L d) :
    b.codec.Carries L d (b.convert d) := by
  cases hk : b.kind? with
  | some w =>
    obtain ⟨name, write, read, hc, hn⟩ := codec_of_kind? (S := S) hk
    rw [hc]
    exact Codec.carries_integer hk hn d
  | none =>
    cases b with
    | bool => exact Codec.carries_bool d
    | byte | type | short | int | long | nullSize | size => cases hk
    | float => exact absurd rfl hb.1
    | double => exact absurd rfl hb.2
    | string => exact Codec.carries_string h
    | uuid => exact Codec.carries_uuid d
    | time => exact Codec.carries_time d

theorem restores_codec {b : Builtin} (hb : b.Exact) (ht : b = time → t ≠ .scalar (.int .i64)) :
    Yields L (b.codec.fresh t) fun d _ => b.Restores L (b.codec : Codec S) d := by
  cases hk : b.kind? with
  | some w =>
    obtain ⟨name, write, read, hc, hn⟩ := codec_of_kind? (S := S) hk
    rw [hc]
    exact Codec.restores_integer hk hn t
  | none =>
    cases b with
    | bool => exact Codec.restores_bool t
    | byte | type | short | int | long | nullSize | size => cases hk
    | float => exact absurd rfl hb.1
    | double => exact absurd rfl hb.2
    | string => exact Codec.restores_string t
    | uuid => exact Codec.restores_uuid t
    | time => exact Codec.restores_time (ht rfl)

end TagWire.Builtin
