import TagWire.Proofs.Sequential
import TagWire.Proofs.Walk.Anywhere

/-! Encoders and decoders that go on after a failure. Whatever becomes of a call, the counter of
levels is back where it was, and a call finds nothing of those before it but the position: an
encoder appends what a new one would write, and a decoder reads what a new one would read from what
is left. -/
namespace TagWire

variable {S : Schema} {setting : Setting S} {t : Shape}

abbrev Batch (S : Schema) := List ((t : Shape) × Datum S t)

/-! ### Encoders -/

namespace Encoder

variable (enc : {t : Shape} → Datum S t → Attempt Error (Counted EncodeState) Unit)

/-- A call of an encoder that keeps a counter of levels; values are written by `enc`. -/
def encodeBy (d : Datum S t) : Counted (Encoder S) → Except Error Nat × Counted (Encoder S) :=
  fun c =>
    match enc d ⟨⟨c.state.writer, c.state.metrics⟩, c.depth⟩ with
    | (.ok (), s) =>
      let n := s.state.writer.offset - c.state.writer.offset
      (.ok n, ⟨⟨c.state.setting, s.state.writer, s.state.metrics.encoded n⟩, s.depth⟩)
    | (.error e, s) =>
      (.error e, ⟨⟨c.state.setting, s.state.writer, s.state.metrics.encodeFailed⟩, s.depth⟩)

def after (calls : Batch S) (E : Encoder S) : Counted (Encoder S) :=
  calls.foldl (fun c k => (encodeBy enc k.2 c).2) ⟨E, 0⟩

/-- Where the encoder stands, `call` leaves the counter as it is, and does what `run` does on a new
encoder: it ends alike, with errors counted from there, and appends the same bytes. -/
structure AsNew (setting : Setting S) (run : Encoder S → Except Error Nat × Encoder S)
    (call : Counted (Encoder S) → Except Error Nat × Counted (Encoder S))
    (c : Counted (Encoder S)) : Prop where
  depth : (call c).2.depth = c.depth
  result : (call c).1 = (run { setting }).1.mapError (.onward c.state.writer.offset)
  taken : (call c).2.state.writer.sink.taken =
    c.state.writer.sink.taken ++ (run { setting }).2.writer.sink.taken
  offset : (call c).2.state.writer.offset =
    c.state.writer.offset + (run { setting }).2.writer.offset

structure Beyond (setting : Setting S) (base : Writer) (E E' : Encoder S) : Prop where
  setting_eq : E.setting = setting
  setting_eq' : E'.setting = setting
  writer : base.Beyond E.writer E'.writer

variable {base : Writer}

theorem follows_encode (h : setting.WritesAnywhere t) (d : Datum S t) :
    Follows (Beyond setting base) (Except.mapError (.onward base.offset)) (Encoder.encode d)
      (Encoder.encode d) := by
  rintro E E' ⟨rfl, hset, hw⟩
  have hown : Encoding.OwnSteps (EncodeState.Beyond base) (.onward base.offset) E.setting t :=
    Encoding.ownSteps_beyond h
  have hvalue := Encoding.follows_levels hown E.setting.options.maxDepth d
  obtain ⟨s', hy, hr⟩ := hvalue.run (s := ⟨E.writer, E.metrics⟩) (u := ⟨E'.writer, E'.metrics⟩) hw
  rcases hx : Encoding.value E.setting E.setting.options.maxDepth d ⟨E.writer, E.metrics⟩ with
    ⟨e | _, s⟩
  · rw [hx, ← hset] at hy
    rw [hx] at hr
    rw [encode_of_error hx, encode_of_error hy]
    exact ⟨rfl, rfl, hset, hr⟩
  · rw [hx, ← hset] at hy
    rw [hx] at hr
    rw [encode_of_ok hx, encode_of_ok hy]
    refine ⟨congrArg Except.ok ?_, rfl, hset, hr⟩
    rw [hr.2, hw.2]
    exact Nat.add_sub_add_left ..

structure Unbounded (setting : Setting S) (E : Encoder S) : Prop where
  setting_eq : E.setting = setting
  room : E.writer.sink.room = none

theorem Unbounded.beyond_new {E : Encoder S} (hE : E.Unbounded setting) :
    Beyond setting E.writer { setting } E :=
  ⟨rfl, hE.setting_eq, rfl, (Writer.beyond_new hE.room).symm⟩

theorem Beyond.unbounded {E E' : Encoder S} (h : Beyond setting base E E') :
    E'.Unbounded setting := by
  refine ⟨h.setting_eq', ?_⟩
  rw [h.writer.2]
  exact h.writer.1

theorem Unbounded.encode {E : Encoder S} (hE : E.Unbounded setting)
    (h : setting.WritesAnywhere t) (d : Datum S t) : (E.encode d).2.Unbounded setting :=
  (follows_encode h d _ _ hE.beyond_new).2.unbounded

section Counting

variable {enc : {t : Shape} → Datum S t → Attempt Error (Counted EncodeState) Unit}
  (henc : ∀ {t : Shape} (d : Datum S t), enc d = Encoding.counting setting enc d)

include henc

theorem encodeBy_eq {E : Encoder S} (hset : E.setting = setting) (d : Datum S t) :
    encodeBy enc d ⟨E, 0⟩ = ((E.encode d).1, ⟨(E.encode d).2, 0⟩) := by
  subst hset
  unfold encodeBy
  dsimp only
  rw [Encoding.eq_counted henc]
  unfold Encoding.counted
  dsimp only
  rw [Nat.sub_zero]
  rcases hx : Encoding.value E.setting E.setting.options.maxDepth d ⟨E.writer, E.metrics⟩ with
    ⟨e | _, s⟩
  · rw [encode_of_error hx]
  · rw [encode_of_ok hx]

theorem follows_encodeBy (h : setting.WritesAnywhere t) (d : Datum S t) :
    Follows (Counted.Resting (Unbounded setting)) id (Encoder.encode d) (encodeBy enc d) := by
  rintro E _ ⟨rfl, hE⟩
  rw [encodeBy_eq henc hE.setting_eq]
  exact ⟨rfl, rfl, hE.encode h d⟩

theorem Unbounded.after {calls : Batch S} (hcalls : ∀ k ∈ calls, setting.WritesAnywhere k.1)
    {E : Encoder S} (hE : E.Unbounded setting) :
    ∃ E' : Encoder S, after enc calls E = ⟨E', 0⟩ ∧ E'.Unbounded setting := by
  have hstart : Counted.Resting (Unbounded setting) E ⟨E, 0⟩ := ⟨rfl, hE⟩
  exact ⟨_, Follows.foldl (fun k hk => follows_encodeBy henc (hcalls k hk) k.2) hstart⟩

theorem Unbounded.asNew {E : Encoder S} (hE : E.Unbounded setting)
    (h : setting.WritesAnywhere t) (d : Datum S t) :
    AsNew setting (Encoder.encode d) (encodeBy enc d) ⟨E, 0⟩ := by
  obtain ⟨hresult, -, -, -, hwriter⟩ := follows_encode h d _ _ hE.beyond_new
  have hcall := encodeBy_eq henc hE.setting_eq d
  exact {
    depth := by rw [hcall]
    result := by
      rw [hcall]
      exact hresult
    taken := by
      rw [hcall]
      exact congrArg (fun w => w.sink.taken) hwriter
    offset := by
      rw [hcall]
      exact congrArg Writer.offset hwriter }

end Counting

end Encoder

/-! ### Decoders -/

namespace Decoder

variable (dec : {t : Shape} → InPlace Error (Counted DecodeState) Unit (Datum S t))

def decodeIntoBy : InPlace Error (Counted (Decoder S)) Nat (Datum S t) := fun d c =>
  match dec d ⟨⟨c.state.reader, c.state.metrics⟩, c.depth⟩ with
  | ((.ok (), v), s) =>
    let n := s.state.reader.offset - c.state.reader.offset
    ((.ok n, v), ⟨⟨c.state.setting, s.state.reader, s.state.metrics.decoded n⟩, s.depth⟩)
  | ((.error e, v), s) =>
    ((.error e, v), ⟨⟨c.state.setting, s.state.reader, failed e s.state.metrics⟩, s.depth⟩)

def decodeBy (t : Shape) : Attempt Error (Counted (Decoder S)) (Datum S t) :=
  InPlace.produce (decodeIntoBy dec) (.initial t)

def after (calls : Batch S) (D : Decoder S) : Counted (Decoder S) :=
  calls.foldl (fun c k => (decodeIntoBy dec k.2 c).2) ⟨D, 0⟩

def Succeed : Batch S → Counted (Decoder S) → Prop
  | [], _ => True
  | k :: calls, c => (decodeIntoBy dec k.2 c).1.1.isOk = true ∧
      Succeed calls (decodeIntoBy dec k.2 c).2

/-- Where the decoder stands, `call` leaves the counter as it is, and does what `run` does on a new
decoder of what is left: it ends alike, with errors counted from there, and leaves the same. -/
structure AsNew (setting : Setting S) {α : Type} (onError : (Error → Error) → α → α)
    (run : Decoder S → α × Decoder S) (call : Counted (Decoder S) → α × Counted (Decoder S))
    (c : Counted (Decoder S)) : Prop where
  depth : (call c).2.depth = c.depth
  result : (call c).1 = onError (.onward c.state.reader.offset)
    (run (ofSource c.state.reader.source setting)).1
  reader : (call c).2.state.reader =
    { (run (ofSource c.state.reader.source setting)).2.reader with
      offset := c.state.reader.offset +
        (run (ofSource c.state.reader.source setting)).2.reader.offset }

structure Ahead (setting : Setting S) (n : Nat) (D D' : Decoder S) : Prop where
  setting_eq : D.setting = setting
  setting_eq' : D'.setting = setting
  reader : Reader.Ahead setting.options.limits n D.reader D'.reader

variable {n : Nat}

theorem follows_decodeInto (h : setting.ReadsAnywhere t) (d : Datum S t) :
    Follows (Ahead setting n) (InPlace.onError (.onward n)) (Decoder.decodeInto d)
      (Decoder.decodeInto d) := by
  rintro D D' ⟨rfl, hset, hr⟩
  have hown := Decoding.ownSteps_ahead (L := D.setting.options.limits) (n := n) h
  have hvalue := Decoding.follows_levels hown D.setting.options.maxDepth d
  obtain ⟨s', hy, hr'⟩ := hvalue.run (s := ⟨D.reader, D.metrics⟩) (u := ⟨D'.reader, D'.metrics⟩) hr
  simp only [Decoder.decodeInto, value, run, hset, hy]
  rcases hx : Decoding.value D.setting D.setting.options.maxDepth d ⟨D.reader, D.metrics⟩ with
    ⟨⟨e | _, v⟩, s⟩
  · rw [hx] at hr'
    exact ⟨rfl, rfl, rfl, hr'⟩
  · rw [hx] at hr'
    refine ⟨congrArg (fun k => (Except.ok k, v)) ?_, rfl, rfl, hr'⟩
    rw [hr'.onward, hr.onward]
    exact Nat.add_sub_add_left ..

theorem decode_eq_decodeInto (t : Shape) :
    (Decoder.decode t : Decoder S → Except Error (Datum S t) × Decoder S) =
      InPlace.produce Decoder.decodeInto (.initial t) := by
  funext D
  unfold Decoder.decode InPlace.produce
  rcases Decoder.decodeInto (.initial t) D with ⟨⟨_ | _, _⟩, _⟩ <;> rfl

theorem follows_decode (h : setting.ReadsAnywhere t) :
    Follows (Ahead setting n) (Except.mapError (.onward n)) (Decoder.decode t)
      (Decoder.decode (S := S) t) := by
  rw [decode_eq_decodeInto]
  exact (follows_decodeInto h _).produce

structure Plain (setting : Setting S) (D : Decoder S) : Prop where
  setting_eq : D.setting = setting
  limits : D.reader.limits = setting.options.limits
  pushback : D.reader.pushback = []

theorem plain_ofSource (source : Source) (setting : Setting S) :
    (ofSource source setting).Plain setting := ⟨rfl, rfl, rfl⟩

theorem Plain.ahead_new {D : Decoder S} (hD : D.Plain setting) :
    Ahead setting D.reader.offset (ofSource D.reader.source setting) D := by
  obtain ⟨hset, hl, hp⟩ := hD
  refine ⟨rfl, hset, rfl, rfl, ?_⟩
  cases hr : D.reader with
  | mk source limits pushback offset =>
    rw [hr] at hl hp
    obtain rfl : limits = setting.options.limits := hl
    obtain rfl : pushback = [] := hp
    rfl

theorem Ahead.plain {D D' : Decoder S} (h : Ahead setting n D D') : D'.Plain setting where
  setting_eq := h.setting_eq'
  limits := by
    rw [h.reader.onward]
    exact h.reader.limits
  pushback := by
    rw [h.reader.onward]
    exact h.reader.pushback

theorem Plain.decodeInto {D : Decoder S} (hD : D.Plain setting) (h : setting.ReadsAnywhere t)
    (d : Datum S t) : (D.decodeInto d).2.Plain setting :=
  (follows_decodeInto h d _ _ hD.ahead_new).2.plain

theorem Plain.asNew {D : Decoder S} (hD : D.Plain setting) {α : Type}
    {onError : (Error → Error) → α → α} {run : Decoder S → α × Decoder S}
    {call : Counted (Decoder S) → α × Counted (Decoder S)}
    (hrun : ∀ n, Follows (Ahead setting n) (onError (.onward n)) run run)
    (hcall : call ⟨D, 0⟩ = ((run D).1, ⟨(run D).2, 0⟩)) :
    AsNew setting onError run call ⟨D, 0⟩ := by
  obtain ⟨hresult, -, -, hreader⟩ := hrun _ _ _ hD.ahead_new
  exact {
    depth := by rw [hcall]
    result := by
      rw [hcall]
      exact hresult
    reader := by
      rw [hcall]
      exact hreader.onward }

/-- A call that succeeds, where everything is read by typed reads, takes off the source what it
counts. -/
theorem advance_of_decodeInto {D : Decoder S} {d : Datum S t}
    (hreads : D.setting.Reads (fun _ => True) t) (hpieces : D.reader.source.chunk ≠ some 0)
    (hok : (D.decodeInto d).1.1.isOk = true) :
    ∃ n, (D.decodeInto d).2.reader = D.reader.advance n := by
  have hsteps : StepClosed fun _ x => Stepwise x := ⟨id, Stepwise.bind⟩
  have hstep : Stepwise (D.produce d) :=
    hsteps.readClosed.value_of_reads D.setting.options.maxDepth hreads d
  rcases hd : D.decodeInto d with ⟨⟨e | n, v⟩, D'⟩
  · rw [hd] at hok
    cases hok
  · obtain ⟨s, hx, hreader, -⟩ := produce_of_decodeInto hd
    obtain ⟨bs, -, hs, -⟩ := hstep.of_ok hpieces hx
    exact ⟨bs.length, hreader.trans hs⟩

section Counting

variable {dec : {t : Shape} → InPlace Error (Counted DecodeState) Unit (Datum S t)}
  (hdec : ∀ {t : Shape} (d : Datum S t), dec d = Decoding.counting setting dec d)

include hdec

theorem decodeIntoBy_eq {D : Decoder S} (hset : D.setting = setting) (d : Datum S t) :
    decodeIntoBy dec d ⟨D, 0⟩ = ((D.decodeInto d).1, ⟨(D.decodeInto d).2, 0⟩) := by
  subst hset
  unfold decodeIntoBy
  dsimp only
  rw [Decoding.eq_counted hdec]
  unfold Decoding.counted
  dsimp only
  rw [Nat.sub_zero]
  simp only [Decoder.decodeInto, value, run]
  rcases Decoding.value D.setting D.setting.options.maxDepth d ⟨D.reader, D.metrics⟩ with
    ⟨⟨e | _, v⟩, s⟩
  · rfl
  · rfl

theorem decodeBy_eq {D : Decoder S} (hset : D.setting = setting) (t : Shape) :
    decodeBy dec t ⟨D, 0⟩ = ((D.decode t).1, ⟨(D.decode t).2, 0⟩) := by
  rw [decodeBy, decode_eq_decodeInto]
  unfold InPlace.produce
  rw [decodeIntoBy_eq hdec hset]
  rcases D.decodeInto (.initial t) with ⟨⟨_ | _, _⟩, _⟩ <;> rfl

theorem follows_decodeIntoBy (h : setting.ReadsAnywhere t) (d : Datum S t) :
    Follows (Counted.Resting (Plain setting)) id (Decoder.decodeInto d)
      (decodeIntoBy dec d) := by
  rintro D _ ⟨rfl, hD⟩
  rw [decodeIntoBy_eq hdec hD.setting_eq]
  exact ⟨rfl, rfl, hD.decodeInto h d⟩

theorem Plain.after {calls : Batch S} (hcalls : ∀ k ∈ calls, setting.ReadsAnywhere k.1)
    {D : Decoder S} (hD : D.Plain setting) :
    ∃ D' : Decoder S, after dec calls D = ⟨D', 0⟩ ∧ D'.Plain setting := by
  have hstart : Counted.Resting (Plain setting) D ⟨D, 0⟩ := ⟨rfl, hD⟩
  exact ⟨_, Follows.foldl (fun k hk => follows_decodeIntoBy hdec (hcalls k hk) k.2) hstart⟩

theorem succeed_cons {k : (t : Shape) × Datum S t} {calls : Batch S} {D : Decoder S}
    (hset : D.setting = setting) (h : Succeed dec (k :: calls) ⟨D, 0⟩) :
    (D.decodeInto k.2).1.1.isOk = true ∧ Succeed dec calls ⟨(D.decodeInto k.2).2, 0⟩ := by
  rwa [Succeed, decodeIntoBy_eq hdec hset] at h

theorem Plain.advance_after {calls : Batch S} (hcalls : ∀ k ∈ calls, setting.ReadsAnywhere k.1)
    (hreads : ∀ k ∈ calls, setting.Reads (fun _ => True) k.1) {D : Decoder S}
    (hD : D.Plain setting) (hpieces : D.reader.source.chunk ≠ some 0)
    (hok : Succeed dec calls ⟨D, 0⟩) :
    ∃ n, (Decoder.after dec calls D).state.reader = D.reader.advance n := by
  induction calls generalizing D with
  | nil => exact ⟨0, (D.reader.advance_zero).symm⟩
  | cons k calls ih =>
    obtain ⟨hfirst, hrest⟩ := succeed_cons hdec hD.setting_eq hok
    obtain ⟨m, hm⟩ := advance_of_decodeInto (hD.setting_eq ▸ hreads k List.mem_cons_self) hpieces
      hfirst
    have hD' := hD.decodeInto (hcalls k List.mem_cons_self) k.2
    obtain ⟨n, hn⟩ := ih (fun k hk => hcalls k (List.mem_cons_of_mem _ hk))
      (fun k hk => hreads k (List.mem_cons_of_mem _ hk)) hD' (by rw [hm]; exact hpieces) hrest
    refine ⟨m + n, ?_⟩
    rw [← Reader.advance_advance, ← hm, ← hn, Decoder.after, Decoder.after, List.foldl_cons,
      decodeIntoBy_eq hdec hD.setting_eq]

end Counting

end Decoder

/-! ### Both -/

namespace Setting

/-- Encoders and decoders with a counter of levels, whose values go to `enc` and `dec`, may be used
again after any failure. -/
structure Reusable (setting : Setting S)
    (enc : {t : Shape} → Datum S t → Attempt Error (Counted EncodeState) Unit)
    (dec : {t : Shape} → InPlace Error (Counted DecodeState) Unit (Datum S t)) : Prop where
  /-- Whatever becomes of a value, on top or within others, the counter is then as it was. -/
  encode_depth : ∀ {t : Shape} (d : Datum S t) (c : Counted EncodeState),
    (enc d c).2.depth = c.depth
  decode_depth : ∀ {t : Shape} (d : Datum S t) (c : Counted DecodeState),
    (dec d c).2.depth = c.depth
  /-- After calls of any outcome a call writes what a new encoder writes. -/
  encode : ∀ {E : Encoder S} (calls : Batch S) {t : Shape} (d : Datum S t), E.Unbounded setting →
    (∀ k ∈ calls, setting.WritesAnywhere k.1) → setting.WritesAnywhere t →
    Encoder.AsNew setting (Encoder.encode d) (Encoder.encodeBy enc d) (Encoder.after enc calls E)
  /-- After calls of any outcome a call reads what a new decoder reads from what is left. -/
  decodeInto : ∀ (source : Source) (calls : Batch S) {t : Shape} (d : Datum S t),
    (∀ k ∈ calls, setting.ReadsAnywhere k.1) → setting.ReadsAnywhere t →
    Decoder.AsNew setting InPlace.onError (Decoder.decodeInto d) (Decoder.decodeIntoBy dec d)
      (Decoder.after dec calls (.ofSource source setting))
  decode : ∀ (source : Source) (calls : Batch S) (t : Shape),
    (∀ k ∈ calls, setting.ReadsAnywhere k.1) → setting.ReadsAnywhere t →
    Decoder.AsNew setting Except.mapError (Decoder.decode t) (Decoder.decodeBy dec t)
      (Decoder.after dec calls (.ofSource source setting))
  /-- After calls that succeed there is left what they have not consumed. -/
  remaining : ∀ (source : Source) (calls : Batch S), source.chunk ≠ some 0 →
    (∀ k ∈ calls, setting.ReadsAnywhere k.1 ∧ setting.Reads (fun _ => True) k.1) →
    Decoder.Succeed dec calls ⟨.ofSource source setting, 0⟩ →
    (Decoder.after dec calls (.ofSource source setting)).state.reader.source =
      source.advance (Decoder.after dec calls (.ofSource source setting)).state.reader.offset

theorem reusable
    {enc : {t : Shape} → Datum S t → Attempt Error (Counted EncodeState) Unit}
    {dec : {t : Shape} → InPlace Error (Counted DecodeState) Unit (Datum S t)}
    (henc : ∀ {t : Shape} (d : Datum S t), enc d = Encoding.counting setting enc d)
    (hdec : ∀ {t : Shape} (d : Datum S t), dec d = Decoding.counting setting dec d) :
    setting.Reusable enc dec where
  encode_depth d c := by
    rw [Encoding.eq_counted henc]
    rfl
  decode_depth d c := by
    rw [Decoding.eq_counted hdec]
    rfl
  encode calls t d hE hcalls ht := by
    obtain ⟨E', hafter, hE'⟩ := hE.after henc hcalls
    rw [hafter]
    exact hE'.asNew henc ht d
  decodeInto source calls t d hcalls ht := by
    obtain ⟨D, hafter, hD⟩ := (Decoder.plain_ofSource source setting).after hdec hcalls
    rw [hafter]
    exact hD.asNew (fun _ => Decoder.follows_decodeInto ht d)
      (Decoder.decodeIntoBy_eq hdec hD.setting_eq d)
  decode source calls t hcalls ht := by
    obtain ⟨D, hafter, hD⟩ := (Decoder.plain_ofSource source setting).after hdec hcalls
    rw [hafter]
    exact hD.asNew (fun _ => Decoder.follows_decode ht) (Decoder.decodeBy_eq hdec hD.setting_eq t)
  remaining source calls hpieces hcalls hok := by
    obtain ⟨n, hn⟩ := (Decoder.plain_ofSource source setting).advance_after hdec
      (fun k hk => (hcalls k hk).1) (fun k hk => (hcalls k hk).2) hpieces hok
    rw [hn]
    simp [Decoder.ofSource, Reader.advance]

end Setting

namespace Sample

namespace Endpoint

theorem anywhere_marshal (e : Endpoint) (version : Int) : Writer.Anywhere (marshal e version) := by
  refine .bind (Writer.anywhere_numberAs _ e.id) fun n => ?_
  split
  · exact .pure n
  · exact .bind (.of_emits (Writer.emits_text e.label)) fun m => .pure (n + m)

theorem anywhere_unmarshal (version : Int) : Reader.AnywhereInPlace (unmarshal version) := by
  intro e L n
  have hfinish (start : Nat) (e : Endpoint) : Follows (Reader.Ahead L n)
      (InPlace.onError (.onward n)) (finish start e) (finish (n + start) e) := by
    refine Run.follows_position _ fun stop => ?_
    rw [Nat.add_sub_add_left]
    exact Run.follows_done _ e
  rw [unmarshal_eq_run]
  refine Run.follows_position _ fun start => ?_
  refine Run.follows_read (Reader.anywhere_numberAs _ _) _ (fun _ => rfl) fun id => ?_
  by_cases hv : version < labelVersion
  · rw [if_pos hv, if_pos hv]
    exact hfinish start _
  · rw [if_neg hv, if_neg hv]
    exact Run.follows_read Reader.anywhere_text _ (fun _ => rfl) fun label => hfinish start _

end Endpoint

def relay : RecordType := recordType "Relay" [
  ⟨"hops", int .u8, ",1"⟩, ⟨"target", .optional endpoint, ",2"⟩, ⟨"port", int .u32, "short,3"⟩]

def relaySchema : TagWire.Schema := schemaWith relay (by decide)

def relaySetting : Setting relaySchema := ⟨.atVersion 5, .builtins⟩

def relayShapes : List Shape := [.record spare, int .u8, .optional endpoint, endpoint, int .u32]

def relayed (target : Datum relaySchema (.optional endpoint)) :
    Datum relaySchema (.record spare) := .record fun
  | ⟨0, _⟩ => .scalar (IntKind.u8.wrap 7)
  | ⟨1, _⟩ => target
  | ⟨2, _⟩ => .scalar (IntKind.u32.wrap 9)

def aimed : Datum relaySchema (.record spare) :=
  relayed (.present (.custom (k := 0) (⟨IntKind.u16.wrap 258, "ab"⟩ : Endpoint)))

def aimless : Datum relaySchema (.record spare) := relayed .absent

def aimedBytes : List UInt8 := [7, 1, 2, 2, 97, 98, 0, 9]

def garbledBytes : List UInt8 := [7, 1, 2, 2, 255, 254]

def relayInput : List UInt8 := garbledBytes ++ aimedBytes ++ garbledBytes

theorem customs_relay {k : Nat} (hk : relaySchema.Contains (.record spare) (.custom k)) :
    k = 0 := by
  have hc : relaySchema.Closed relayShapes := by decide +kernel
  simpa [relayShapes, endpoint] using hk.mem_of_closed hc (by decide)

theorem employs_relay {c : Codec relaySchema} (h : relaySetting.Employs (.record spare) c) :
    ∃ b : Builtin, c = b.codec := by
  obtain ⟨r, i, d, name, -, -, -, hl⟩ := h
  exact Registry.lookup_builtins hl

theorem writesAnywhere_relay : relaySetting.WritesAnywhere (.record spare) where
  codecs _ hc := .inl (employs_relay hc)
  customs k hk x := by
    obtain rfl := customs_relay hk
    exact Endpoint.anywhere_marshal x _

theorem readsAnywhere_relay : relaySetting.ReadsAnywhere (.record spare) where
  codecs _ hc := .inl (employs_relay hc)
  customs k hk := by
    obtain rfl := customs_relay hk
    exact ⟨_, rfl, Endpoint.anywhere_unmarshal _⟩

theorem reads_relay : relaySetting.Reads (fun _ => True) (.record spare) where
  codecs _ h := h.typed (fun _ _ => trivial) rfl
  customs k hk := by
    obtain rfl := customs_relay hk
    exact ⟨_, rfl, Endpoint.candid_unmarshal⟩

def relayer : Counted (Encoder relaySchema) :=
  Encoder.after (Encoding.counted relaySetting) [⟨_, aimless⟩] { setting := relaySetting }

def receiver (calls : Nat) (input : List UInt8) : Counted (Decoder relaySchema) :=
  Decoder.after (Decoding.counted relaySetting)
    (List.replicate calls ⟨.record spare, .initial _⟩) (.ofSource { unread := input } relaySetting)

def errorAt? {α : Type} : Except Error α → Option Nat
  | .error e => e.offset?
  | .ok _ => none

theorem errorAt?_onward {α : Type} (n : Nat) (result : Except Error α) :
    errorAt? (result.mapError (.onward n)) = (errorAt? result).map (n + ·) := by
  cases result with
  | error e => exact e.offset?_onward n
  | ok a => rfl

end Sample

open Sample in
/-- The first value fails behind its first byte, for want of a target; of the three that are read
the first and the last fail, at labels that are no text. -/
theorem Setting.reusable_relay :
    (Encoder.encode aimless { setting := relaySetting }).1.isOk = false ∧
    (Encoder.encodeBy (Encoding.counted relaySetting) aimed relayer).1.toOption = some 8 ∧
    (Encoder.encodeBy (Encoding.counted relaySetting) aimed relayer).2.depth = 0 ∧
    (Encoder.encodeBy (Encoding.counted relaySetting) aimed relayer).2.state.writer.sink.taken =
      7 :: aimedBytes ∧
    errorAt? (Decoder.decodeBy (Decoding.counted relaySetting) (.record spare)
      (receiver 2 relayInput)).1 = some 17 ∧
    (receiver 1 (aimedBytes ++ garbledBytes)).state.reader.source.unread = garbledBytes := by
  have h : relaySetting.Reusable (Encoding.counted relaySetting) (Decoding.counted relaySetting) :=
    reusable (Encoding.counted_eq relaySetting) (Decoding.counted_eq relaySetting)
  have hw : ∀ k ∈ [(⟨_, aimless⟩ : (t : Shape) × Datum relaySchema t)],
      relaySetting.WritesAnywhere k.1 := by
    intro k hk
    obtain rfl := List.mem_singleton.1 hk
    exact writesAnywhere_relay
  have hr (calls : Nat) : ∀ k ∈ List.replicate calls
      (⟨.record spare, .initial _⟩ : (t : Shape) × Datum relaySchema t),
      relaySetting.ReadsAnywhere k.1 ∧ relaySetting.Reads (fun _ => True) k.1 := by
    intro k hk
    obtain rfl := List.eq_of_mem_replicate hk
    exact ⟨readsAnywhere_relay, reads_relay⟩
  have hE : ({ setting := relaySetting } : Encoder relaySchema).Unbounded relaySetting := ⟨rfl, rfl⟩
  have hsent := h.encode _ aimed hE hw writesAnywhere_relay
  have hread := h.decode { unread := relayInput } _ (.record spare) (fun k hk => (hr 2 k hk).1)
    readsAnywhere_relay
  have hleft := h.remaining { unread := aimedBytes ++ garbledBytes } _ nofun (hr 1)
    ⟨by decide +kernel, trivial⟩
  have hwritten : (Encoder.encode aimed { setting := relaySetting }).1 = .ok 8 :=
    eq_ok_of_toOption (by decide +kernel)
  refine ⟨by decide +kernel, ?_, hsent.depth, ?_, ?_, ?_⟩
  · rw [relayer, hsent.result, hwritten]
    rfl
  · rw [relayer, hsent.taken]
    decide +kernel
  · rw [receiver, hread.result, errorAt?_onward]
    decide +kernel
  · rw [receiver, hleft]
    decide +kernel

end TagWire
