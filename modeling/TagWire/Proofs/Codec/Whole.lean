import TagWire.Proofs.Bounded
import TagWire.Proofs.Depth
import TagWire.Proofs.Room

/-! Built-in codecs are all or nothing. Each looks at the shape of a field, and at its value, before
it writes: so a value is refused with the sink untouched, or written whole and counted, and what was
written is read with the same count. -/
namespace TagWire

variable {S : Schema} {t : Shape} {L : Limits}

theorem Emits.of_appends {α : Type} {x : Writing α} {a : α} {bs : List UInt8}
    {P : α → List UInt8 → Prop} (hx : Emits x a bs) (h : Appends x P) : P a bs := by
  obtain ⟨w, hw, hbs⟩ := hx {} rfl
  obtain ⟨cs, hcs, hp⟩ := h {} a w rfl hw
  have htaken : ([] : List UInt8) ++ bs = [] ++ cs := congrArg (·.sink.taken) (hbs.symm.trans hcs)
  rwa [show bs = cs from htaken]

namespace Writer

/-- The writer once its sink took `bs`. -/
def fill (w : Writer) (bs : List UInt8) : Writer where
  sink := ⟨w.sink.taken ++ bs, w.sink.room.map (· - bs.length)⟩
  offset := w.offset + bs.length

/-- A sink with room for all that a step writes is as good as one that never fills. -/
theorem eq_fill_of_emits {α : Type} {x : Writing α} {a : α} {bs : List UInt8} {w : Writer}
    (hp : Piecewise x) (he : Emits x a bs) (hw : ∀ n ∈ w.sink.room, bs.length ≤ n) :
    x w = (.ok a, w.fill bs) := by
  obtain ⟨ps, result, hps⟩ := hp w.offset
  obtain ⟨w₁, hx₁, hw₁⟩ := hps { offset := w.offset } rfl
  rw [pieces_of_fits (by simp)] at hx₁ hw₁
  obtain ⟨w₂, hx₂, hw₂⟩ := he { offset := w.offset } rfl
  have hsame := hx₁.symm.trans hx₂
  have hresult : result = .ok a := congrArg Prod.fst hsame
  have hflat : Piece.flat ps = bs := by
    have hwriter : w₁ = w₂ := congrArg Prod.snd hsame
    have htaken := congrArg (·.sink.taken) ((hw₁.symm.trans hwriter).trans hw₂)
    exact htaken
  obtain ⟨w₃, hx₃, hw₃⟩ := hps w rfl
  rw [pieces_of_fits (hflat ▸ hw), hflat] at hx₃ hw₃
  obtain rfl : w₃ = w.fill bs := hw₃
  rw [hx₃, hresult]
  rfl

end Writer

inductive Builtin.Refusal (S : Schema) (t : Shape) : Builtin → Error → Prop
  | unsupported (b : Builtin) :
      Refusal S t b (Codec.unsupported (b.codec (S := S)).name S t)
  | invalidUuid : Refusal S t .uuid .invalidUuid
  | outOfRange (m : Int) : Refusal S t .time (.valueOutOfRange "time" m)

namespace Codec

/-- On every sink with room for them the value is written as these bytes, and the count is what the
position moves by. -/
def Sends (c : Codec S) (d : Datum S t) (bs : List UInt8) : Prop :=
  ∀ w : Writer, (∀ n ∈ w.sink.room, bs.length ≤ n) → c.encode d w = (.ok bs.length, w.fill bs)

/-- The value is refused with this error, and whatever writer is left as it was. -/
def Declines (c : Codec S) (d : Datum S t) (e : Error) : Prop :=
  ∀ w, c.encode d w = (.error e, w)

/-- Under limits `L` these bytes are read as this value and counted, whatever the field held before
and whatever follows. -/
def Receives (L : Limits) (c : Codec S) (bs : List UInt8) (d : Datum S t) : Prop :=
  ∀ (old : Datum S t) (r : Reader), r.limits = L → r.Starts bs →
    c.decode old r = ((.ok bs.length, d), r.advance bs.length)

/-- The value is written whole and counted, or refused at once in an error of the codec's own. -/
def WritesWhole (own : Error → Prop) (c : Codec S) (d : Datum S t) : Prop :=
  (∃ bs, Emits (c.encode d) bs.length bs) ∨ ∃ e, own e ∧ c.encode d = .fail e

theorem writesWhole_ofViews {α : Type} {name : String} {find : {t : Shape} → Datum S t → Option α}
    {put : α → {t : Shape} → Datum S t → Option (Datum S t)} {write : α → Writing Nat}
    {read : Reading α} {own : Error → Prop} (hown : own (unsupported name S t))
    (hw : ∀ a, ∃ bs, Emits (write a) bs.length bs) (d : Datum S t) :
    (ofViews name find put write read).WritesWhole own d := by
  unfold WritesWhole ofViews
  dsimp only
  cases find d with
  | none => exact .inr ⟨_, hown, rfl⟩
  | some a => exact .inl (hw a)

theorem writesWhole_string (d : Datum S t) :
    string.WritesWhole (Builtin.Refusal S t .string) d := by
  unfold WritesWhole string
  dsimp only
  split
  · exact .inl ⟨_, Writer.emits_text _⟩
  · exact .inl ⟨_, Writer.emits_textBytes _⟩
  · exact .inr ⟨_, .unsupported .string, rfl⟩

theorem refusal_of_uuidOf {d : Datum S t} {e : Error} (h : uuidOf d = .error e) :
    Builtin.Refusal S t .uuid e := by
  unfold uuidOf at h
  split at h
  · cases h
  · cases h
  · split at h <;> cases h
    exact .invalidUuid
  · split at h <;> cases h
    exact .invalidUuid
  · cases h
    exact .unsupported .uuid

theorem encode_uuid_of_ok {d : Datum S t} {o : Octets} (h : uuidOf d = .ok o) :
    uuid.encode d = Writer.octets o := by
  change (Attempt.lift (uuidOf d) >>= Writer.octets) = _
  rw [h]
  rfl

theorem encode_uuid_of_error {d : Datum S t} {e : Error} (h : uuidOf d = .error e) :
    uuid.encode d = .fail e := by
  change (Attempt.lift (uuidOf d) >>= Writer.octets) = _
  rw [h]
  rfl

theorem writesWhole_uuid (d : Datum S t) : uuid.WritesWhole (Builtin.Refusal S t .uuid) d := by
  unfold WritesWhole
  cases h : uuidOf d with
  | ok o =>
    rw [encode_uuid_of_ok h]
    exact .inl ⟨_, Writer.emits_octets o⟩
  | error e => exact .inr ⟨e, refusal_of_uuidOf h, encode_uuid_of_error h⟩

theorem millis_whole (m : Int) :
    (∃ bs, Emits (Writer.millis m) bs.length bs) ∨
      ∃ e, Builtin.Refusal S t .time e ∧ Writer.millis m = .fail e := by
  cases h : Ticks.ofMillis m with
  | none =>
    refine .inr ⟨_, .outOfRange m, ?_⟩
    unfold Writer.millis
    rw [h]
  | some ticks => exact .inl ⟨_, Writer.emits_millis h⟩

theorem writesWhole_time (d : Datum S t) : time.WritesWhole (Builtin.Refusal S t .time) d := by
  unfold WritesWhole time
  dsimp only
  split
  · exact .inl ⟨_, Writer.emits_instant _⟩
  · exact millis_whole _
  · split
    · exact millis_whole _
    · exact .inr ⟨_, .outOfRange _, rfl⟩
  · exact .inr ⟨_, .unsupported .time, rfl⟩

theorem decode_eq_counted {c : Codec S} {g : Datum S t → Reading (Datum S t)} (hc : c.Steady)
    (h : ∀ d, c.decode d = counted (g d) d) (d : Datum S t) :
    c.decode d = counted (c.fresh t) d := by
  have hdecode : (c.decode : InPlace Error Reader Nat (Datum S t)) = fun d => counted (g d) d :=
    funext h
  rw [← hc d, hdecode, produce_counted]

theorem yields_fresh_bool (t : Shape) : Yields L ((bool : Codec S).fresh t) fun _ n => n = 1 := by
  rw [fresh, bool, produce_ofViews]
  refine Reader.yields_bool.bind fun x n hn => ?_
  split
  · exact Yields.pure hn
  · exact Yields.fail _

end Codec

namespace Builtin

theorem writesWhole_codec (b : Builtin) (d : Datum S t) :
    b.codec.WritesWhole (Refusal S t b) d := by
  cases hk : b.kind? with
  | some w =>
    obtain ⟨name, write, read, hc, hn⟩ := codec_of_kind? (S := S) hk
    have hown : Refusal S t b (Codec.unsupported name S t) := by
      have := Refusal.unsupported (S := S) (t := t) b
      rwa [hc] at this
    rw [hc]
    apply Codec.writesWhole_ofViews hown
    intro x
    obtain ⟨bs, he, -⟩ := hn.sends x
    exact ⟨bs, he⟩
  | none =>
    cases b with
    | bool =>
      refine Codec.writesWhole_ofViews (.unsupported .bool) (fun x => ?_) d
      exact ⟨[if x then 1 else 0], Writer.emits_bool x⟩
    | byte | type | short | int | long | nullSize | size => cases hk
    | float =>
      exact Codec.writesWhole_ofViews (.unsupported .float)
        (fun _ => ⟨_, Writer.emits_float32 _⟩) d
    | double =>
      exact Codec.writesWhole_ofViews (.unsupported .double)
        (fun x => ⟨_, Writer.emits_float64 x⟩) d
    | string => exact Codec.writesWhole_string d
    | uuid => exact Codec.writesWhole_uuid d
    | time => exact Codec.writesWhole_time d

theorem decode_eq_counted (b : Builtin) (d : Datum S t) :
    b.codec.decode d = Codec.counted (b.codec.fresh t) d := by
  have hs : (b.codec : Codec S).Steady := b.steady_codec
  cases b with
  | string => exact Codec.decode_eq_counted hs Codec.decode_string d
  | time => exact Codec.decode_eq_counted hs Codec.decode_time d
  | bool | byte | type | short | int | long | float | double | nullSize | size | uuid =>
    exact Codec.decode_eq_counted hs (fun _ => rfl) d

theorem yields_fresh (b : Builtin) (t : Shape) :
    Yields L ((b.codec : Codec S).fresh t) fun _ _ => True := by
  let setting : Setting S := ⟨{ maxText := L.maxText, maxItems := L.maxItems }, .builtins⟩
  have hbounded : Yields setting.options.limits (b.codec.fresh t) fun d _ =>
      d.Bounded setting (some b) := b.yields_bounded t
  exact hbounded.mono fun _ _ _ => trivial

theorem offset_of_decode {b : Builtin} {old d : Datum S t} {r r' : Reader} {n : Nat}
    (h : b.codec.decode old r = ((.ok n, d), r')) :
    r'.offset = r.offset + n ∧ (b = .bool → n = 1) := by
  rw [decode_eq_counted] at h
  unfold Codec.counted at h
  split at h
  · next hx =>
    cases h
    obtain ⟨-, m, hm, -⟩ := b.yields_fresh t r d r' rfl hx
    refine ⟨?_, ?_⟩
    · change r'.offset = r.offset + m at hm
      omega
    · rintro rfl
      obtain ⟨-, k, hk, rfl⟩ := Codec.yields_fresh_bool t r d r' rfl hx
      change r'.offset = r.offset + 1 at hk
      omega
  · cases h

theorem sends_of_emits {b : Builtin} {d : Datum S t} {bs : List UInt8}
    (h : Emits (b.codec.encode d) bs.length bs) : b.codec.Sends d bs :=
  fun _ hw => Writer.eq_fill_of_emits (b.spoken_codec t d).piecewise h hw

theorem receives_of_takes {b : Builtin} {d : Datum S t} {bs : List UInt8}
    (h : Takes L (b.codec.fresh t) bs d) : b.codec.Receives L bs d := by
  intro old r hl hs
  obtain ⟨r', hx, hr⟩ := h r.offset r hl rfl hs
  obtain rfl : r' = r.advance bs.length := hr
  rw [decode_eq_counted, Codec.counted, hx]
  simp [Reader.advance]

end Builtin

/-- Built-in codecs are all or nothing. On a sink with room a value of whatever shape is written
whole, and the count is what the position moves by; whatever follows, this is read into a field of
the shape with the same count, if its length is admitted. Or the value is refused in an error of the
codec's own, and the writer is as it was. Whatever is read through one counts what the position
moved by. -/
theorem Codec.builtins_all_or_nothing {names : List String} {c : Codec S}
    (h : (names, c) ∈ Codec.builtins) : ∃ b : Builtin, c = b.codec ∧
    (∀ (t : Shape) (d : Datum S t),
      (∃ bs, c.Sends d bs ∧ ∀ L, b.Within L d → ∃ d' : Datum S t, c.Receives L bs d') ∨
      ∃ e, Builtin.Refusal S t b e ∧ c.Declines d e) ∧
    ∀ (t : Shape) (old d : Datum S t) (r r' : Reader) (n : Nat),
      c.decode old r = ((.ok n, d), r') → r'.offset = r.offset + n ∧ (b = .bool → n = 1) := by
  obtain ⟨b, rfl⟩ := Builtin.exists_of_mem_builtins h
  refine ⟨b, rfl, fun t d => ?_, fun t old d r r' n hd => Builtin.offset_of_decode hd⟩
  rcases b.writesWhole_codec d with ⟨bs, he⟩ | ⟨e, hown, he⟩
  · refine .inl ⟨bs, Builtin.sends_of_emits he, fun L hb => ?_⟩
    obtain ⟨d', hcarries⟩ := b.exists_carries hb
    exact ⟨d', Builtin.receives_of_takes (he.of_appends hcarries)⟩
  · refine .inr ⟨e, hown, fun w => ?_⟩
    rw [he]
    rfl

namespace Sample

def ticking (m : Int) : Datum schema (int .u64) := .scalar (s := .int .u64) (IntKind.u64.wrap m)

end Sample

/-- Of the milliseconds in an unsigned field those that fit no signed one are refused. -/
theorem Codec.builtins_all_or_nothing_time :
    (["time"], (time : Codec Sample.schema)) ∈ Codec.builtins ∧
    (∃ (bs : List UInt8) (d : Datum Sample.schema (Sample.int .u64)),
      time.encode (Sample.ticking 7) {} = (.ok 8, Writer.fill {} bs) ∧
      ∀ tail : List UInt8, time.decode (Sample.ticking 0) { source := { unread := bs ++ tail } } =
        ((.ok 8, d), { source := { unread := tail }, offset := 8 })) ∧
    ∃ e, Builtin.Refusal Sample.schema (Sample.int .u64) .time e ∧
      ∀ w, time.encode (Sample.ticking 9223372036854775808) w = (.error e, w) := by
  have hmem : (["time"], (time : Codec Sample.schema)) ∈ Codec.builtins := by simp [builtins]
  obtain ⟨b, hb, hall, -⟩ := builtins_all_or_nothing hmem
  obtain rfl : b = .time := Builtin.codec_injective hb.symm
  refine ⟨hmem, ?_, ?_⟩
  · have hcount : (time.encode (Sample.ticking 7) {}).1.toOption = some 8 := by decide +kernel
    rcases hall _ (Sample.ticking 7) with ⟨bs, hwrite, hread⟩ | ⟨e, -, he⟩
    · have hw := hwrite {} nofun
      rw [hw] at hcount
      have hlen : bs.length = 8 := Option.some.inj hcount
      obtain ⟨d, hd⟩ := hread {} trivial
      refine ⟨bs, d, hlen ▸ hw, fun tail => ?_⟩
      have hstarts := Reader.starts_of_prefix (List.prefix_append bs tail) {} 0
      rw [hd (Sample.ticking 0) _ rfl hstarts]
      simp [Reader.advance, Source.advance, hlen]
    · rw [he] at hcount
      cases hcount
  · have hfails : (time.encode (Sample.ticking 9223372036854775808) {}).1.toOption = none := by
      decide +kernel
    rcases hall _ (Sample.ticking 9223372036854775808) with ⟨bs, hwrite, -⟩ | hrefused
    · rw [hwrite {} nofun] at hfails
      cases hfails
    · exact hrefused

end TagWire
