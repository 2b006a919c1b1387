import TagWire.Proofs.Intake
import TagWire.Proofs.Session
import TagWire.Sample.Schema

/-! What is encoded is decoded. The induction is on the levels that encoder and decoder have left,
which are the same on both sides; a step goes through the parts of a value in the order in which
they are written. -/
namespace TagWire

variable {S : Schema} {setting : Setting S} {L : Limits} {t : Shape} {r : Nat}

theorem appends_value {levels : Nat} {d : Datum S t} (hp : S.Plain t)
    (ho : setting.Overrides (fun b _ => b.Exact) t) (hw : d.Within setting) :
    Appends (Encoding.value setting levels d) fun _ bs =>
      Takes setting.options.limits (Decoding.fresh (Decoding.value setting levels) t) bs
        (d.carried setting) :=
  (Intake.takes _).appends_value (fun k hk => absurd hk (hp k)) ho
    (d.all_of_forall (P := fun _ _ => True) fun _ _ => trivial) hw

theorem Decoder.decode_of_takes {bs : List UInt8} {v : Datum S t}
    (h : Takes setting.options.limits
      (Decoding.fresh (Decoding.value setting setting.options.maxDepth) t) bs v)
    (rest : List UInt8) : ∃ metrics,
      (Decoder.ofSource { unread := bs ++ rest } setting).decodeInto (.initial t) =
        ((.ok bs.length, v), .midway setting bs.length rest metrics) ∧
      (Decoder.ofSource { unread := bs ++ rest } setting).decode t =
        (.ok v, .midway setting bs.length rest metrics) := by
  have hs := (ends_ofSource setting (bs ++ rest)).starts (List.prefix_append bs rest)
  obtain ⟨⟨reader, metrics⟩, hx, hr⟩ := h 0 ⟨_, {}⟩ rfl rfl hs
  have hreader := hr.trans (advance_ofSource setting bs rest metrics)
  change reader = _ at hreader
  subst hreader
  refine ⟨metrics.decoded bs.length, ?_, ?_⟩
  · exact decodeInto_of_ok (D := .ofSource { unread := bs ++ rest } setting) hx
  · exact decode_of_ok (D := .ofSource { unread := bs ++ rest } setting) hx

/-- The round trip. Under whatever setting, the bytes of a value of the engine with all its codecs
exact are read back, whatever follows them: the decoder reports and consumes just those bytes, and
gives what the wire carries of the value. -/
theorem Setting.decode_of_encode (hp : S.Plain t) (ho : setting.Overrides (fun b _ => b.Exact) t)
    {x : Datum S t} (hw : x.Within setting) {bs : List UInt8} (he : setting.encode x = .ok bs)
    (rest : List UInt8) : ∃ metrics,
      (Decoder.ofSource { unread := bs ++ rest } setting).decodeInto (.initial t) =
        ((.ok bs.length, x.carried setting), .midway setting bs.length rest metrics) ∧
      (Decoder.ofSource { unread := bs ++ rest } setting).decode t =
        (.ok (x.carried setting), .midway setting bs.length rest metrics) :=
  Decoder.decode_of_takes (of_encode (appends_value hp ho hw) he) rest

namespace Sample

def third : Setting schema := ⟨.atVersion 3, .builtins⟩

def heavyEntry : Fields schema 1
  | ⟨0, _⟩ => .scalar (default : Octets)
  | ⟨1, _⟩ => .scalar (IntKind.u32.wrap 300)
  | ⟨2, _⟩ => .scalar "ab"

def batch : Datum schema (.record 13) := .record fun
  | ⟨0, _⟩ => .scalar (default : Octets)
  | ⟨1, _⟩ => .scalar (IntKind.i64.wrap 4294967303)
  | ⟨2, _⟩ => .sequence 1 fun _ => .record heavyEntry
  | ⟨3, _⟩ => .sequence 1 fun _ => .scalar "x"

def batchShapes : List Shape :=
  [.record 13, .record 1, uuid, int .i64, int .u32, text, .sequence (.record 1), .sequence text]

def batchBytes : List UInt8 :=
  List.replicate 16 0 ++ [0, 0, 0, 7, 1] ++ List.replicate 16 0 ++ [108, 4, 2, 97, 98]

end Sample

theorem Setting.decode_of_encode_batch : ∃ metrics,
    (Decoder.ofSource { unread := Sample.batchBytes ++ [255] } Sample.third).decodeInto
        (.initial (.record 13)) =
      ((.ok 42, Sample.batch.carried Sample.third), .midway Sample.third 42 [255] metrics) ∧
    (Decoder.ofSource { unread := Sample.batchBytes ++ [255] } Sample.third).decode (.record 13) =
      (.ok (Sample.batch.carried Sample.third), .midway Sample.third 42 [255] metrics) := by
  have hc : Sample.schema.Closed Sample.batchShapes := by decide +kernel
  have ht : .record 13 ∈ Sample.batchShapes := by decide
  have hp : Sample.schema.Plain (.record 13) := .of_closed hc ht (by decide)
  have ho : Sample.third.Overrides (fun b _ => b.Exact) (.record 13) :=
    .of_closed rfl hc ht (by decide +kernel)
  have hw : Sample.batch.Within Sample.third := by decide +kernel
  exact decode_of_encode hp ho hw (encode_of_toOption (by decide +kernel)) [255]

end TagWire
