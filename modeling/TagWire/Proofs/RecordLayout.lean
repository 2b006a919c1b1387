import TagWire.Proofs.Arrangement
import TagWire.Proofs.Parallel
import TagWire.Sample.Schema

/-! What a record writes. Its bytes are those of its fields, one field after the other in the order
of their wire numbers, each as it would be written on its own; the first field that fails fails the
record. -/
namespace TagWire

variable {S : Schema} {setting : Setting S} {t u : Shape} {r : Nat}

/-- No self-describing type within the shape can see what was written before it. -/
def Schema.Blind (S : Schema) (t : Shape) : Prop :=
  ∀ k, S.Contains t (.custom k) → ∀ (x : (S.custom k).Carrier) (version : Int),
    TagWire.Blind ((S.custom k).marshal x version)

theorem Schema.Blind.part (h : S.Blind t) (hu : u ∈ S.parts t) : S.Blind u :=
  fun k hk => h k (hk.head hu)

theorem Schema.Plain.blind (h : S.Plain t) : S.Blind t := fun k hk => absurd hk (h k)

theorem blind_value {levels : Nat} (hc : ∀ c, setting.Employs t c → c.Pure) (hb : S.Blind t)
    (d : Datum S t) : Blind (Encoding.value setting levels d) := by
  -- Both runs are at one version and so the same run, of which the relation looks at the first.
  have hR : ParallelClosed fun _ x _ => Blind x :=
    ⟨Constant.blind, fun hx hf => hx.bind fun a => hf a a, fun _ => (Constant.pure ()).blind⟩
  have hm := fun k hk x => Encoding.blind_write (hb k hk x setting.options.version)
  exact hR.value (Int.le_refl setting.options.version) hc hm d

/-- What a field writes on its own from a position on: through the codec that its tag names, and
this wherever it stands, or as a value with a number of levels left. -/
def Setting.fieldOutput (setting : Setting S) (levels : Nat) (d : Fin (S.arity r) → Descriptor)
    (fields : Fields S r) (i : Fin (S.arity r)) (start : Nat) : Except Error (List UInt8) :=
  match (d i).codec with
  | some name => do
    let c ← setting.registry.lookup name
    let p ← (fields i).pointee
    output (c.encode p) {}
  | none => output (Encoding.value setting levels (fields i)) ⟨{ offset := start }, {}⟩

theorem outputs_field {levels : Nat} {d : Fin (S.arity r) → Descriptor} (h : S.Tagged r d)
    (hc : ∀ c, setting.Employs (.record r) c → c.Pure) (hb : S.Blind (.record r))
    (fields : Fields S r) (i : Fin (S.arity r)) :
    Outputs (Encoding.field setting (Encoding.value setting levels) fields (d i))
      (setting.fieldOutput levels d fields i) := by
  rw [Encoding.field_eq_fieldValue (h.index i)]
  unfold Encoding.fieldValue Setting.fieldOutput
  cases hn : (d i).codec with
  | none =>
    have hpart := Schema.fieldShape_mem_parts (S := S) r i
    have hv : Blind (Encoding.value setting levels (fields i)) :=
      blind_value (fun c h => hc c (h.of_part hpart)) (hb.part hpart) (fields i)
    exact hv.outputs fun _ => rfl
  | some name =>
    refine Outputs.lift_bind fun c hl => ?_
    have hp := hc c ⟨r, i, d i, name, Schema.Contains.refl, h.parses i, hn, hl⟩
    have hw : Outputs (c.writeField (fields i)) fun _ =>
        (fields i).pointee >>= fun p => output (c.encode p) {} :=
      Outputs.lift_bind fun p _ => (hp _ p).outputs rfl
    exact (Encoding.outputs_write hw).bind_quiet fun _ => Encoding.emits_count _

theorem output_value_record {levels : Nat} {d : Fin (S.arity r) → Descriptor} (h : S.Tagged r d)
    (hc : ∀ c, setting.Employs (.record r) c → c.Pure) (hb : S.Blind (.record r))
    {order : List (Fin (S.arity r))}
    (hl : (S.record r).layoutAt setting.options.version = .ok (order.map d))
    (fields : Fields S r) :
    output (Encoding.value setting (levels + 1) (.record fields)) ⟨{}, {}⟩ =
      inTurn (setting.fieldOutput levels d fields) order 0 := by
  have hfield : ∀ i, Outputs (Encoding.field setting (Encoding.value setting levels) fields (d i))
      (setting.fieldOutput levels d fields i) := outputs_field h hc hb fields
  rw [Encoding.value_record, Encoding.body_record, hl]
  change output (Attempt.forEach _ (order.map d)) _ = _
  rw [Attempt.forEach_map]
  exact (Outputs.forEach hfield order).output rfl

/-- Wire numbers alone decide the layout of a record with well-formed tags. What is written of it is
what its fields write, in wire order, as far as the version has them; and a record with the same
fields in another order is written and read alike, if the numbers tell the fields apart. -/
theorem Schema.Tagged.wire_numbers_decide {d : Fin (S.arity r) → Descriptor} (h : S.Tagged r d) :
    (∀ setting : Setting S, (∀ c, setting.Employs (.record r) c → c.Pure) → S.Blind (.record r) →
      ∃ order, WireOrder d setting.options.version order ∧ ∀ fields : Fields S r,
        setting.encode (.record fields) = match setting.options.maxDepth with
          | 0 => .error (.depthExceeded 0)
          | levels + 1 => inTurn (setting.fieldOutput levels d fields) order 0) ∧
    ((∀ i j, (d i).ignored = false → (d j).ignored = false → (d i).number = (d j).number → i = j) →
      ∀ (r' : Nat) (e : S.Rearrangement r r'), (S.record r').extraTags = [] →
        (∀ (fields : Fields S r) (E : Encoder S),
          E.encode (.record (e.carry fields)) = E.encode (.record fields)) ∧
        (∀ (old : Datum S (.record r)) (D : Decoder S),
          D.decodeInto (e.carryDatum old) = InPlace.relabel e.carryDatum (D.decodeInto old)) ∧
        ∀ D : Decoder S, D.decode (.record r') =
          ((D.decode (.record r)).1.map e.carryDatum, (D.decode (.record r)).2)) := by
  refine ⟨fun setting hc hb => ?_, fun hd r' e he => ?_⟩
  · obtain ⟨order, ho, hl⟩ := h.exists_order setting.options.version
    refine ⟨order, ho, fun fields => ?_⟩
    rw [Setting.encode_eq_output]
    cases hm : setting.options.maxDepth with
    | zero => exact congrArg (fun n => Except.error (Error.depthExceeded n)) hm
    | succ levels => exact output_value_record h hc hb hl fields
  · exact ⟨Encoder.encode_carry e h he hd, Decoder.decodeInto_carry e h he hd,
      Decoder.decode_carry e h he hd⟩

namespace Sample

def backwards : RecordType := recordType "Backwards" [
  ⟨"tags", .sequence text, ",4,5"⟩, ⟨"entries", .sequence (.record 1), ",3"⟩,
  ⟨"limit", int .i64, "int,2,3"⟩, ⟨"owner", uuid, ",1"⟩]

def backwardsSchema : TagWire.Schema := schemaWith backwards (by decide)

def batchTags : Fin (backwardsSchema.arity 13) → Descriptor
  | ⟨0, _⟩ => ⟨1, false, 0, none, 0⟩
  | ⟨1, _⟩ => ⟨2, false, 3, some "int", 1⟩
  | ⟨2, _⟩ => ⟨3, false, 0, none, 2⟩
  | ⟨3, _⟩ => ⟨4, false, 5, none, 3⟩

def turn : backwardsSchema.Rearrangement 13 spare where
  index := Fin.revPerm (n := 4)
  shape := by decide +kernel
  tag := by decide +kernel

def smallBatch : Fields backwardsSchema 13
  | ⟨0, _⟩ => .scalar (default : Octets)
  | ⟨1, _⟩ => .scalar (IntKind.i64.wrap 7)
  | ⟨2, _⟩ => .sequence 0 Fin.elim0
  | ⟨3, _⟩ => .sequence 0 Fin.elim0

def backwardsShapes : List Shape :=
  [.record 13, .record 1, uuid, int .i64, int .u32, text, .sequence (.record 1), .sequence text]

def backwardsSetting : Setting backwardsSchema := ⟨.atVersion 3, .builtins⟩

end Sample

theorem Sample.tagged_batch : Sample.backwardsSchema.Tagged 13 Sample.batchTags where
  parses i := eq_ok_of_toOption (by revert i; decide +kernel)
  exact := rfl

theorem Schema.Tagged.wire_numbers_decide_turn :
    ∃ order, WireOrder Sample.batchTags 3 order ∧
      Sample.backwardsSetting.encode (.record Sample.smallBatch) =
        inTurn (Sample.backwardsSetting.fieldOutput 63 Sample.batchTags Sample.smallBatch) order 0 ∧
      Sample.backwardsSetting.encode (.record (Sample.turn.carry Sample.smallBatch)) =
        .ok (List.replicate 16 0 ++ [0, 0, 0, 7, 0]) := by
  have hcl : Sample.backwardsSchema.Closed Sample.backwardsShapes := by decide +kernel
  have hb : Sample.backwardsSchema.Plain (.record 13) := .of_closed hcl (by decide) (by decide)
  obtain ⟨hout, hturn⟩ := wire_numbers_decide Sample.tagged_batch
  obtain ⟨order, ho, heq⟩ := hout Sample.backwardsSetting (fun _ h => h.pure rfl) hb.blind
  obtain ⟨hcarry, -⟩ := hturn (by decide +kernel) Sample.spare Sample.turn rfl
  have hsame : Sample.backwardsSetting.encode (.record (Sample.turn.carry Sample.smallBatch)) =
      Sample.backwardsSetting.encode (.record Sample.smallBatch) := by
    unfold Setting.encode
    rw [hcarry]
  refine ⟨order, ho, heq Sample.smallBatch, ?_⟩
  rw [hsame]
  exact Setting.encode_of_toOption (by decide +kernel)

end TagWire
