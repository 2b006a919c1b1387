import TagWire.Proofs.Codec.Pure
import TagWire.Proofs.Passage
import TagWire.Proofs.Session
import TagWire.Proofs.Wire.WriteScript
import TagWire.Sample.Schema

/-! Sinks that run full. An encoder does nothing with its sink but primitive writes, which the sink
has no part in choosing; so a sink with too little room ends up with the first bytes of what one
without bounds would hold, and the position stays at the start of the write that did not fit. -/
namespace TagWire

variable {S : Schema} {setting : Setting S} {t : Shape}

namespace Codec

def Spoken (c : Codec S) : Prop := ∀ (t : Shape) (d : Datum S t), WriteScript (c.encode d)

theorem spoken_ofViews {α : Type} {name : String} {find : {t : Shape} → Datum S t → Option α}
    {put : α → {t : Shape} → Datum S t → Option (Datum S t)} {write : α → Writing Nat}
    {read : Reading α} (hw : ∀ a, TypedWrite (write a)) :
    (ofViews name find put write read).Spoken := by
  intro t d
  unfold ofViews
  dsimp only
  split
  · exact .of_typed (hw _)
  · exact .fail _

theorem spoken_string : (string : Codec S).Spoken := by
  intro t d
  unfold string
  dsimp only
  split
  · exact .of_typed (.text _)
  · exact .of_typed (.textBytes _)
  · exact .fail _

theorem spoken_uuid : (uuid : Codec S).Spoken :=
  fun _ _ => .lift_bind fun o => .of_typed (.octets o)

theorem spoken_time : (time : Codec S).Spoken := by
  intro t d
  unfold time
  dsimp only
  split
  · exact .of_typed (.instant _)
  · exact .of_typed (.millis _)
  · split
    · exact .of_typed (.millis _)
    · exact .fail _
  · exact .fail _

end Codec

theorem Builtin.spoken_codec (b : Builtin) : (b.codec : Codec S).Spoken := by
  cases b with
  | bool => exact Codec.spoken_ofViews .bool
  | byte | type | short | int | long => exact Codec.spoken_ofViews fun _ => .number _ _
  | float => exact Codec.spoken_ofViews fun _ => .float32 _
  | double => exact Codec.spoken_ofViews .float64
  | nullSize => exact Codec.spoken_ofViews fun _ => .nullableSize _
  | size => exact Codec.spoken_ofViews fun _ => .size _
  | string => exact Codec.spoken_string
  | uuid => exact Codec.spoken_uuid
  | time => exact Codec.spoken_time

theorem Setting.Overrides.spoken {allowed : Builtin → Shape → Prop} {c : Codec S}
    (ho : setting.Overrides allowed t) (h : setting.Employs t c) : c.Spoken := by
  obtain ⟨r, i, d, name, hr, hd, hn, hl⟩ := h
  obtain ⟨b, rfl, -⟩ := ho r hr i d name c hd hn hl
  exact b.spoken_codec

namespace Encoding

theorem piecewise_write {α : Type} {x : Writing α} (h : Piecewise x) : Piecewise (write x) := by
  intro start
  obtain ⟨ps, result, h⟩ := h start
  refine ⟨ps, result, fun s ho => ?_⟩
  obtain ⟨w, hx, hw⟩ := h s.writer ho
  refine ⟨{ s with writer := w }, ?_, hw⟩
  simp only [write, Attempt.within, hx]
  rfl

theorem piecewise_count (f : Metrics → Metrics) : Piecewise (count f) :=
  Piecewise.update fun _ => rfl

theorem piecewise_announce (t : Shape) : Piecewise (announce t) := by
  cases t with
  | custom k => exact piecewise_count _
  | _ => exact Piecewise.pure ()

variable {enc : {t : Shape} → Datum S t → Encoding Unit}

theorem piecewise_field {r : Nat} {fields : Fields S r}
    (hc : ∀ c, setting.Employs (.record r) c → c.Spoken)
    (hplain : ∀ i, Piecewise (enc (fields i))) {ds : List Descriptor}
    (hl : (S.record r).layoutAt setting.options.version = .ok ds) {d : Descriptor} (hd : d ∈ ds) :
    Piecewise (field setting enc fields d) := by
  unfold field
  split
  · next name hn =>
    refine Piecewise.lift_bind fun c hlook => ?_
    split
    · next hi =>
      have hdesc := (Schema.mem_layoutAt hl ⟨d.index, hi⟩ d).1 ⟨hd, rfl⟩
      have hs := hc c ⟨r, ⟨d.index, hi⟩, d, name, Schema.Contains.refl, hdesc.1, hn, hlook⟩
      have hw : WriteScript (c.writeField (fields ⟨d.index, hi⟩)) := .lift_bind fun p => hs _ p
      exact (piecewise_write hw.piecewise).bind fun _ => piecewise_count _
    · exact Piecewise.fail _
  · split
    · exact hplain _
    · exact Piecewise.fail _

theorem piecewise_value (levels : Nat) (hc : ∀ c, setting.Employs t c → c.Spoken)
    (hm : ∀ k, S.Contains t (.custom k) → ∀ (x : (S.custom k).Carrier) (version : Int),
      WriteScript ((S.custom k).marshal x version))
    (d : Datum S t) : Piecewise (value setting levels d) := by
  induction levels generalizing t with
  | zero => exact Piecewise.fail _
  | succ levels ih =>
    refine (piecewise_announce t).bind fun _ => ?_
    have hpart := fun (u : Shape) (hu : u ∈ S.parts t) (d : Datum S u) =>
      ih (fun c h => hc c (h.of_part hu)) (fun k hk => hm k (hk.head hu)) d
    cases d with
    | @scalar s x =>
      rw [body_scalar]
      exact (piecewise_write (s.typedWrite_write x).piecewise).bind fun _ => Piecewise.pure ()
    | @sequence t n item =>
      rw [body_sequence]
      refine (piecewise_write (Writer.piecewise_bytes _ _)).bind fun _ => ?_
      exact Piecewise.forEach fun d _ => hpart t (S.mem_parts_sequence t) d
    | absent => exact Piecewise.fail _
    | @present t d => exact hpart t (S.mem_parts_optional t) d
    | @boxed t d => exact hpart t (S.mem_parts_boxed t) d
    | @record r fields =>
      rw [body_record]
      refine Piecewise.lift_bind fun ds hl => Piecewise.forEach fun d hd => ?_
      exact piecewise_field hc (fun i => hpart _ (Schema.fieldShape_mem_parts r i) _) hl hd
    | @custom k x =>
      have hx := piecewise_write (hm k Schema.Contains.refl x setting.options.version).piecewise
      exact hx.bind fun _ => Piecewise.pure ()

end Encoding

namespace Encoder

def withWriter (e : Encoder S) (writer : Writer) : Encoder S := { e with writer }

def withRoom (e : Encoder S) (room : Nat) : Encoder S :=
  e.withWriter ⟨⟨e.writer.sink.taken, some room⟩, e.writer.offset⟩

/-- A call leaves the writer as its primitive writes leave it, and gives the number of bytes by
which these have moved the position. -/
theorem encode_of_spells {e : Encoder S} {d : Datum S t} {ps : List Piece}
    {result : Except Error Unit} (w : Writer)
    (h : Spells (Encoding.value e.setting e.setting.options.maxDepth d) w.offset ps result) :
    ((e.withWriter w).encode d).2.writer = (Writer.pieces ps w).2 ∧
      ((e.withWriter w).encode d).1 = ((Writer.pieces ps w).1 >>= fun _ => result).map
        fun _ => (Writer.pieces ps w).2.offset - w.offset := by
  obtain ⟨s, hx, hw⟩ := h ⟨w, e.metrics⟩ rfl
  have hrun : (e.withWriter w).value d =
      ((Writer.pieces ps w).1 >>= fun _ => result, ⟨e.setting, s.writer, s.metrics⟩) := by
    simp only [value, run, withWriter, hx]
    rfl
  have hs : s.writer = (Writer.pieces ps w).2 := hw
  unfold encode
  rw [hrun, hs]
  cases (Writer.pieces ps w).1 >>= fun _ => result <;> exact ⟨rfl, rfl⟩

/-- A value is written by one list of primitive writes, whatever the sink. Where there is room for
all of them, no bound is noticed. With less room, those before some write are done and of that one
the sink takes what fits: it holds the first bytes of what it would hold otherwise, and the error
and the position both name the start of the write that did not fit. -/
theorem encode_withRoom {e : Encoder S} (he : e.writer.sink.room = none)
    (ho : e.setting.Overrides (fun _ _ => True) t)
    (hm : ∀ k, S.Contains t (.custom k) → ∀ (x : (S.custom k).Carrier) (version : Int),
      WriteScript ((S.custom k).marshal x version))
    (d : Datum S t) : ∃ ps : List Piece,
      (∀ w : Writer, w.offset = e.writer.offset →
        ((e.withWriter w).encode d).2.writer = (Writer.pieces ps w).2) ∧
      (e.encode d).2.writer.sink.taken = e.writer.sink.taken ++ Piece.flat ps ∧
      (∀ room, (Piece.flat ps).length ≤ room →
        ((e.withRoom room).encode d).1 = (e.encode d).1 ∧
        ((e.withRoom room).encode d).2.writer.sink.taken = (e.encode d).2.writer.sink.taken) ∧
      (∀ room, room < (Piece.flat ps).length → ∃ before p after, ps = before ++ p :: after ∧
        (Piece.flat before).length ≤ room ∧
        room < (Piece.flat before).length + p.bytes.length ∧
        ((e.withRoom room).encode d).1 =
          .error (.io p.op (e.writer.offset + (Piece.flat before).length) .full) ∧
        ((e.withRoom room).encode d).2.writer.sink.taken =
          e.writer.sink.taken ++ (Piece.flat ps).take room ∧
        ((e.withRoom room).encode d).2.writer.offset =
          e.writer.offset + (Piece.flat before).length) ∧
      ∀ (op : String) (w : Writer), Writer.bytes op [] w = (.ok 0, w) := by
  have hpiece : Piecewise (Encoding.value e.setting e.setting.options.maxDepth d) :=
    Encoding.piecewise_value _ (fun c h => ho.spoken h) hm d
  obtain ⟨ps, result, hps⟩ := hpiece e.writer.offset
  have hall : Writer.pieces ps e.writer = (.ok (),
      ⟨⟨e.writer.sink.taken ++ Piece.flat ps, none⟩,
        e.writer.offset + (Piece.flat ps).length⟩) := by
    rw [Writer.pieces_of_fits (by simp [he]), he]
    rfl
  obtain ⟨hwriter, hresult⟩ := encode_of_spells e.writer hps
  have hself : e.withWriter e.writer = e := rfl
  rw [hall, hself] at hwriter hresult
  have hbounded := fun room => encode_of_spells ⟨⟨e.writer.sink.taken, some room⟩, _⟩ hps
  refine ⟨ps, fun w hw => ?_, by rw [hwriter], fun room hr => ?_, fun room hr => ?_,
    Writer.bytes_nil⟩
  · exact (encode_of_spells w (hw ▸ hps)).1
  · obtain ⟨hw, hx⟩ := hbounded room
    rw [Writer.pieces_of_fits (by simpa using hr)] at hw hx
    exact ⟨hx.trans hresult.symm, by rw [withRoom, hw, hwriter]⟩
  · obtain ⟨before, p, after, hsplit, hle, hlt, hfull⟩ :=
      Writer.pieces_of_full hr e.writer.sink.taken e.writer.offset
    obtain ⟨hw, hx⟩ := hbounded room
    rw [hfull] at hw hx
    exact ⟨before, p, after, hsplit, hle, hlt, hx, by rw [withRoom, hw], by rw [withRoom, hw]⟩

end Encoder

namespace Sample

theorem Endpoint.writeScript_marshal (e : Endpoint) (version : Int) :
    WriteScript (marshal e version) := by
  refine .write (.number _ e.id) fun n => ?_
  split
  · exact .done (.ok n)
  · exact .write (.text e.label) fun m => .done (.ok (n + m))

def parcel : RecordType := recordType "Parcel" [
  ⟨"target", endpoint, ",1"⟩, ⟨"limit", int .i64, "int,2"⟩, ⟨"note", text, ",3"⟩]

def parcelSchema : TagWire.Schema := schemaWith parcel (by decide)

def parcelShapes : List Shape := [.record spare, endpoint, int .i64, text]

def posted : Datum parcelSchema (.record spare) := .record fun
  | ⟨0, _⟩ => .custom (k := 0) (⟨IntKind.u16.wrap 258, "ab"⟩ : Endpoint)
  | ⟨1, _⟩ => .scalar (IntKind.i64.wrap 9)
  | ⟨2, _⟩ => .scalar "wxyz"

def poster : Encoder parcelSchema := { setting := ⟨.atVersion 5, .builtins⟩ }

def postedBytes : List UInt8 := [1, 2, 2, 97, 98, 0, 0, 0, 9, 4, 119, 120, 121, 122]

end Sample

/-- The sink fills within the note, after its length. -/
theorem Encoder.encode_withRoom_posted : ∃ op,
    ((Sample.poster.withRoom 12).encode Sample.posted).1 = .error (.io op 10 .full) ∧
      ((Sample.poster.withRoom 12).encode Sample.posted).2.writer.sink.taken =
        Sample.postedBytes.take 12 ∧
      ((Sample.poster.withRoom 12).encode Sample.posted).2.writer.offset = 10 ∧
      ((Sample.poster.withRoom 14).encode Sample.posted).2.writer.sink.taken =
        Sample.postedBytes := by
  have hcl : Sample.parcelSchema.Closed Sample.parcelShapes := by decide +kernel
  have ht : .record Sample.spare ∈ Sample.parcelShapes := by decide
  have hm : ∀ k, Sample.parcelSchema.Contains (.record Sample.spare) (.custom k) →
      ∀ (x : (Sample.parcelSchema.custom k).Carrier) (version : Int),
        WriteScript ((Sample.parcelSchema.custom k).marshal x version) := by
    intro k hk
    obtain rfl : k = 0 := by
      simpa [Sample.parcelShapes, Sample.endpoint] using hk.mem_of_closed hcl ht
    exact Sample.Endpoint.writeScript_marshal
  have hall : (Sample.poster.encode Sample.posted).2.writer.sink.taken = Sample.postedBytes := by
    decide +kernel
  have hten : ((Sample.poster.withRoom 12).encode Sample.posted).2.writer.offset = 10 := by
    decide +kernel
  have hb : Sample.poster.setting.registry = .builtins := rfl
  have ho : Sample.poster.setting.Overrides (fun _ _ => True) (.record Sample.spare) :=
    .of_closed hb hcl ht fun _ _ _ _ _ _ _ => trivial
  obtain ⟨ps, -, htaken, hfits, hfull, -⟩ := encode_withRoom rfl ho hm Sample.posted
  have hflat : Piece.flat ps = Sample.postedBytes := by
    rw [hall] at htaken
    exact htaken.symm
  rw [hflat] at hfits hfull
  obtain ⟨before, p, after, -, -, -, hx, hprefix, ho⟩ := hfull 12 (by decide)
  rw [← ho, hten] at hx
  exact ⟨p.op, hx, hprefix, hten, (hfits 14 (by decide)).2.trans hall⟩

end TagWire
