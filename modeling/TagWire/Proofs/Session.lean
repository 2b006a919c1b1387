import TagWire.Proofs.Decoding
import TagWire.Proofs.Encoding
import TagWire.Proofs.Layout
import TagWire.Session

/-! Encoders and decoders from the steps they run: what a call gives is what the step of its
top-level value gives. -/
namespace TagWire

variable {S : Schema} {t : Shape}

def Setting.encode (setting : Setting S) (d : Datum S t) : Except Error (List UInt8) :=
  match Encoder.encode d { setting } with
  | (.ok _, e) => .ok e.writer.sink.taken
  | (.error err, _) => .error err

namespace Setting

variable {setting : Setting S} {d : Datum S t} {bs : List UInt8}

theorem encode_of_toOption (h : (setting.encode d).toOption = some bs) :
    setting.encode d = .ok bs := eq_ok_of_toOption h

theorem encode_eq_output (setting : Setting S) (d : Datum S t) : setting.encode d =
    output (Encoding.value setting setting.options.maxDepth d) ⟨{}, {}⟩ := by
  simp only [encode, Encoder.encode, Encoder.value, Encoder.run, output]
  rcases Encoding.value setting setting.options.maxDepth d ⟨{}, {}⟩ with ⟨_ | _, _⟩ <;> rfl

theorem encode_of_emits (h : Emits (Encoding.value setting setting.options.maxDepth d) () bs) :
    setting.encode d = .ok bs := by
  obtain ⟨s, hs, hw⟩ := h ⟨{}, {}⟩ rfl
  rw [encode_eq_output]
  exact output_of_append hs rfl hw

theorem of_encode {P : Unit → List UInt8 → Prop}
    (h : Appends (Encoding.value setting setting.options.maxDepth d) P)
    (he : setting.encode d = .ok bs) : P () bs := by
  rw [encode_eq_output] at he
  obtain ⟨_, s, hs⟩ := of_output he
  obtain ⟨cs, hw, hp⟩ := h _ _ _ rfl hs
  rw [output_of_append hs rfl hw] at he
  cases he
  exact hp

end Setting

namespace Encoder

variable {E : Encoder S} {d : Datum S t} {s : EncodeState} {e : Error}

theorem encode_of_ok (h : Encoding.value E.setting E.setting.options.maxDepth d
      ⟨E.writer, E.metrics⟩ = (.ok (), s)) :
    E.encode d = (.ok (s.writer.offset - E.writer.offset),
      ⟨E.setting, s.writer, s.metrics.encoded (s.writer.offset - E.writer.offset)⟩) := by
  simp only [encode, value, run, h]

theorem encode_of_error (h : Encoding.value E.setting E.setting.options.maxDepth d
      ⟨E.writer, E.metrics⟩ = (.error e, s)) :
    E.encode d = (.error e, ⟨E.setting, s.writer, s.metrics.encodeFailed⟩) := by
  simp only [encode, value, run, h]

end Encoder

namespace Decoder

/-- A decoder of an input in memory that has consumed `n` bytes and has `rest` before it. -/
def midway (setting : Setting S) (n : Nat) (rest : List UInt8) (metrics : Metrics) : Decoder S where
  setting := setting
  reader := { source := { unread := rest }, limits := setting.options.limits, offset := n }
  metrics := metrics

def produce (D : Decoder S) (d : Datum S t) : Decoding (Datum S t) :=
  InPlace.produce (Decoding.value D.setting D.setting.options.maxDepth) d

variable {D : Decoder S} {d v half : Datum S t} {s : DecodeState} {e : Error}

theorem ends_ofSource (setting : Setting S) (bytes : List UInt8) :
    (Decoder.ofSource { unread := bytes } setting).reader.Ends := ⟨nofun, rfl⟩

theorem advance_ofSource (setting : Setting S) (bs rest : List UInt8) (metrics : Metrics) :
    (Decoder.ofSource { unread := bs ++ rest } setting).reader.advance bs.length =
      (midway setting bs.length rest metrics).reader := by
  simp [ofSource, midway, Reader.advance, Source.advance]

theorem decodeInto_of_ok (h : D.produce d ⟨D.reader, D.metrics⟩ = (.ok v, s)) :
    D.decodeInto d = ((.ok (s.reader.offset - D.reader.offset), v),
      ⟨D.setting, s.reader, s.metrics.decoded (s.reader.offset - D.reader.offset)⟩) := by
  unfold produce InPlace.produce at h
  simp only [decodeInto, value, run]
  split at h
  · next hv =>
    cases h
    simp only [hv]
  · cases h

theorem decodeInto_of_error (h : D.produce d ⟨D.reader, D.metrics⟩ = (.error e, s)) :
    ∃ half, D.decodeInto d = ((.error e, half),
      ⟨D.setting, s.reader, failed e s.metrics⟩) := by
  unfold produce InPlace.produce at h
  simp only [decodeInto, value, run]
  split at h
  · cases h
  · next err half _ hv =>
    cases h
    exact ⟨half, by simp only [hv]⟩

theorem decode_of_ok (h : D.produce (.initial t) ⟨D.reader, D.metrics⟩ = (.ok v, s)) :
    D.decode t = (.ok v,
      ⟨D.setting, s.reader, s.metrics.decoded (s.reader.offset - D.reader.offset)⟩) := by
  rw [decode, decodeInto_of_ok h]

theorem decode_of_error (h : D.produce (.initial t) ⟨D.reader, D.metrics⟩ = (.error e, s)) :
    D.decode t = (.error e, ⟨D.setting, s.reader, failed e s.metrics⟩) := by
  obtain ⟨half, hd⟩ := decodeInto_of_error h
  rw [decode, hd]

theorem decode_of_decodeInto {n : Nat} {D' : Decoder S}
    (h : D.decodeInto (.initial t) = ((.ok n, v), D')) : D.decode t = (.ok v, D') := by
  rw [decode, h]

theorem decodeInto_of_decode {D' : Decoder S} (h : D.decode t = (.ok v, D')) :
    ∃ n, D.decodeInto (.initial t) = ((.ok n, v), D') := by
  unfold decode at h
  split at h
  · next n _ _ hd =>
    cases h
    exact ⟨n, hd⟩
  · cases h

theorem decodeInto_of_decode_error {D' : Decoder S} (h : D.decode t = (.error e, D')) :
    ∃ half, D.decodeInto (.initial t) = ((.error e, half), D') := by
  unfold decode at h
  split at h
  · cases h
  · next half _ hd =>
    cases h
    exact ⟨half, hd⟩

theorem produce_of_decodeInto {n : Nat} {D' : Decoder S}
    (h : D.decodeInto d = ((.ok n, v), D')) :
    ∃ s, D.produce d ⟨D.reader, D.metrics⟩ = (.ok v, s) ∧ D'.reader = s.reader ∧
      D'.metrics = s.metrics.decoded (s.reader.offset - D.reader.offset) := by
  cases hx : D.produce d ⟨D.reader, D.metrics⟩ with
  | mk result s =>
    cases result with
    | error e =>
      obtain ⟨half, hd⟩ := decodeInto_of_error hx
      rw [hd] at h
      cases h
    | ok w =>
      rw [decodeInto_of_ok hx] at h
      cases h
      exact ⟨s, rfl, rfl, rfl⟩

theorem produce_of_decodeInto_error {D' : Decoder S}
    (h : D.decodeInto d = ((.error e, half), D')) :
    ∃ s, D.produce d ⟨D.reader, D.metrics⟩ = (.error e, s) ∧
      D' = ⟨D.setting, s.reader, failed e s.metrics⟩ := by
  cases hx : D.produce d ⟨D.reader, D.metrics⟩ with
  | mk result s =>
    cases result with
    | error e' =>
      obtain ⟨half', hd⟩ := decodeInto_of_error hx
      rw [hd] at h
      cases h
      exact ⟨s, rfl, rfl⟩
    | ok w =>
      rw [decodeInto_of_ok hx] at h
      cases h

theorem produce_of_decode {D' : Decoder S} (h : D.decode t = (.ok v, D')) :
    ∃ s, D.produce (.initial t) ⟨D.reader, D.metrics⟩ = (.ok v, s) ∧ D'.reader = s.reader ∧
      D'.metrics = s.metrics.decoded (s.reader.offset - D.reader.offset) := by
  obtain ⟨n, hn⟩ := decodeInto_of_decode h
  exact produce_of_decodeInto hn

end Decoder

end TagWire
