import TagWire.Proofs.Intake
import TagWire.Proofs.Session
import TagWire.Proofs.Steps
import TagWire.Proofs.Stream.Alike
import TagWire.Proofs.Wire.Script
import TagWire.Sample.Schema

/-! Types that decode from all that is left, in the midst of others. Each of them empties the source
and hands back what it did not use, so whatever comes after it is read from the bytes handed back;
no reader sees the difference. -/
namespace TagWire

open HasReader (reader)

variable {S : Schema} {setting : Setting S} {L : Limits} {t u : Shape}

/-- Where `bs` is in front of a source that ends, the step succeeds with `a` and leaves a reader
that can not be told from one that has consumed just `bs`. -/
def Obtains {σ α : Type} [HasReader σ] (L : Limits) (x : Attempt Error σ α) (bs : List UInt8)
    (a : α) : Prop :=
  ∀ s, (reader s).limits = L → (reader s).Ends → bs <+: (reader s).rest →
    ∃ s', x s = (.ok a, s') ∧ (reader s').Alike ((reader s).advance bs.length)

namespace Obtains

variable {σ α β : Type} [HasReader σ] {x : Attempt Error σ α} {f : α → Attempt Error σ β}
  {bs cs : List UInt8} {a : α} {b : β}

theorem of_takes (h : Takes L x bs a) : Obtains L x bs a := by
  intro s hl he hb
  have hs := he.starts hb
  obtain ⟨s', hx, hr⟩ := h (reader s).offset s hl rfl hs
  exact ⟨s', hx, by rw [hr]; exact .refl (he.advance hs.enough)⟩

theorem bind (hx : Obtains L x bs a) (hf : Obtains L (f a) cs b) :
    Obtains L (x >>= f) (bs ++ cs) b := by
  intro s hl he hb
  have hs := he.starts hb
  obtain ⟨s₁, h₁, hal₁⟩ := hx s hl he hs.left.front
  obtain ⟨s₂, h₂, hal₂⟩ := hf s₁ (hal₁.limits.trans hl) hal₁.ends (hal₁.rest ▸ hs.right.front)
  refine ⟨s₂, (Attempt.bind_ok h₁).trans h₂, hal₂.trans ?_⟩
  rw [List.length_append, ← Reader.advance_advance]
  exact hal₁.advance (hal₁.supply ▸ hs.right.enough)

theorem of_runs {y : Reading α} (h : Runs y x) (hy : Obtains L y bs a) : Obtains L x bs a := by
  intro s hl he hb
  obtain ⟨s', hx, hr⟩ := h s
  obtain ⟨r, hyr, hal⟩ := hy (reader s) hl he hb
  rw [hyr] at hx hr
  exact ⟨s', hx, hr ▸ hal⟩

theorem intake (L : Limits) : Intake L fun _ x bs a => Obtains L x bs a := ⟨of_takes, bind⟩

end Obtains

theorem Reader.obtains_remaining {α : Type} (op : String)
    {consume : List UInt8 → α → Except Error Nat × α} {start w : α} {bs : List UInt8}
    (h : ∀ tail, consume (bs ++ tail) start = (.ok bs.length, w)) :
    Obtains L (InPlace.produce (remaining op consume) start) bs w := by
  intro r _ he hb
  simp only [HasReader.reader_self] at he hb ⊢
  have hs := he.starts hb
  obtain ⟨tail, ht⟩ := hb
  have hlen : ¬ r.rest.length < bs.length := by
    rw [← ht, List.length_append]
    omega
  refine ⟨r.used bs.length, ?_, rfl, rfl, ?_, he.used _, he.advance hs.enough⟩
  · unfold InPlace.produce
    rw [remaining_eq he, ← ht, h tail, ht]
    simp only [if_neg hlen]
  · rw [rest_used he, rest_advance]

/-- Decodes from all that is left, and brings back every value of the set from the bytes that were
written of it, whatever follows them. -/
def Custom.Delimits (C : Custom) (version : Int) (P : C.Carrier → Prop) : Prop :=
  ∃ take, C.unmarshal = .whole take ∧ ∀ w, P w → Appends (C.marshal w version) fun _ bs =>
    ∀ tail, take version (bs ++ tail) C.initial = (.ok bs.length, w)

theorem appends_body_whole {k : Nat} {P : (S.custom k).Carrier → Prop}
    (h : (S.custom k).Delimits setting.options.version P) {w : (S.custom k).Carrier} (hw : P w)
    (enc : {t : Shape} → Datum S t → Encoding Unit) (dec : {t : Shape} → Overwriting S t) :
    Appends (Encoding.body setting enc (.custom w)) fun _ bs =>
      Obtains L (InPlace.produce (Decoding.body setting dec (.custom k)) (.initial _)) bs
        (.custom w) := by
  obtain ⟨take, hu, hlaw⟩ := h
  refine (Encoding.appends_write (hlaw w hw)).bind fun _ bs ht => ?_
  refine (Emits.pure ()).appends ?_
  rw [List.append_nil]
  change Obtains L (InPlace.produce _ (Datum.custom (S.custom k).initial)) bs _
  rw [Decoding.produce_body_whole hu]
  apply (Obtains.intake L).map
  exact .of_runs (Decoding.runs_read _) (Reader.obtains_remaining "unmarshal" ht)

/-! ### Later calls -/

/-- Every self-describing type within the shape takes its bytes from all that is left or reads by a
script. -/
def Schema.Orderly (S : Schema) (t : Shape) : Prop :=
  ∀ k, S.Contains t (.custom k) → (∃ take, (S.custom k).unmarshal = .whole take) ∨
    ∃ step, (S.custom k).unmarshal = .stream step ∧ ∀ version, TagWire.Scripted (step version)

theorem indifferent_value {allowed : Builtin → Shape → Prop} (levels : Nat) (hs : S.Orderly t)
    (ho : setting.Overrides allowed t) (d : Datum S t) :
    Indifferent (InPlace.produce (Decoding.value setting levels) d) := by
  have hP : StepClosed fun _ x => Indifferent x := ⟨Stepwise.indifferent, Indifferent.bind⟩
  refine hP.value levels ho (fun k hk dec d => ?_) d
  cases d with
  | custom x =>
    rcases hs k hk with ⟨take, hu⟩ | ⟨step, hu, hscript⟩
    · rw [Decoding.produce_body_whole hu]
      apply hP.map
      exact .of_runs (Decoding.runs_read _) (Reader.indifferent_remaining _ _ x)
    · rw [Decoding.produce_body_custom hu]
      exact (Decoding.stepwise_read (((hscript _).stepwise x).map _)).indifferent

namespace Decoder

def decodeAll : List Shape → Decoder S → Except Error (List ((t : Shape) × Datum S t))
  | [], _ => .ok []
  | t :: ts, D => match D.decode t with
    | (.ok d, D) => (⟨t, d⟩ :: ·) <$> decodeAll ts D
    | (.error e, _) => .error e

theorem decode_congr {D E : Decoder S} (hset : D.setting = E.setting)
    (h : D.reader.Alike E.reader) (hs : S.Orderly t)
    (ho : E.setting.Overrides (fun _ _ => True) t) :
    (∃ e D' E', D.decode t = (.error e, D') ∧ E.decode t = (.error e, E')) ∨
      ∃ v D' E', D.decode t = (.ok v, D') ∧ E.decode t = (.ok v, E') ∧
        D'.setting = E'.setting ∧ E'.setting = E.setting ∧ D'.reader.Alike E'.reader := by
  have hx : Indifferent (E.produce (.initial t)) := indifferent_value _ hs ho _
  have hsame : D.produce (.initial t) = E.produce (.initial t) := by
    unfold produce
    rw [hset]
  obtain ⟨heq, hal⟩ := hx ⟨D.reader, D.metrics⟩ ⟨E.reader, E.metrics⟩ h
  rcases hd : E.produce (.initial t) ⟨D.reader, D.metrics⟩ with ⟨result, s⟩
  rcases he : E.produce (.initial t) ⟨E.reader, E.metrics⟩ with ⟨result', s'⟩
  rw [hd, he] at heq hal
  obtain rfl : result = result' := heq
  rw [← hsame] at hd
  cases result with
  | error e => exact .inl ⟨e, _, _, decode_of_error hd, decode_of_error he⟩
  | ok v => exact .inr ⟨v, _, _, decode_of_ok hd, decode_of_ok he, hset, rfl, hal v rfl⟩

theorem decodeAll_congr {D E : Decoder S} (hset : D.setting = E.setting)
    (h : D.reader.Alike E.reader) {ts : List Shape}
    (hts : ∀ t ∈ ts, S.Orderly t ∧ E.setting.Overrides (fun _ _ => True) t) :
    D.decodeAll ts = E.decodeAll ts := by
  induction ts generalizing D E with
  | nil => rfl
  | cons t ts ih =>
    obtain ⟨hs, ho⟩ := hts t List.mem_cons_self
    unfold decodeAll
    rcases decode_congr hset h hs ho with
      ⟨e, D', E', hd, he⟩ | ⟨v, D', E', hd, he, hset', hkeep, hal⟩
    · rw [hd, he]
    · rw [hd, he]
      dsimp only
      rw [ih hset' hal fun t ht => hkeep ▸ hts t (List.mem_cons_of_mem _ ht)]

/-- Under the setting and with just the input before it, wherever this is kept and however the
source hands it out. -/
structure Before (D : Decoder S) (setting : Setting S) (input : List UInt8) : Prop where
  setting_eq : D.setting = setting
  limits_eq : D.reader.limits = setting.options.limits
  ends : D.reader.Ends
  /-- What the decoder would give back in the end, then what the source still holds. -/
  rest_eq : D.reader.pushback ++ D.reader.source.unread = input

def refill (D : Decoder S) (input : List UInt8) : Decoder S where
  setting := D.setting
  reader := { source := { unread := input }, limits := D.reader.limits, offset := D.reader.offset }
  metrics := D.metrics

theorem Before.alike_refill {D : Decoder S} {input : List UInt8} (h : D.Before setting input) :
    D.reader.Alike (D.refill input).reader where
  limits := rfl
  offset := rfl
  rest := h.rest_eq
  ends := h.ends
  ends' := ⟨nofun, rfl⟩

theorem Before.decode_of_obtains {D : Decoder S} {bs rest : List UInt8} {v : Datum S t}
    (hD : D.Before setting (bs ++ rest))
    (h : Obtains setting.options.limits
      (Decoding.fresh (Decoding.value setting setting.options.maxDepth) t) bs v) :
    ∃ D' : Decoder S, D.decodeInto (.initial t) = ((.ok bs.length, v), D') ∧
      D.decode t = (.ok v, D') ∧ D'.reader.offset = D.reader.offset + bs.length ∧
      D'.Before setting rest := by
  obtain ⟨hset, hl, he, hr⟩ := hD
  have hrest : D.reader.rest = bs ++ rest := hr
  obtain ⟨s, hx, hal⟩ := h ⟨D.reader, D.metrics⟩ hl he ⟨rest, hrest.symm⟩
  rw [← hset] at hx
  have ho : s.reader.offset = D.reader.offset + bs.length := hal.offset
  have hafter : s.reader.rest = D.reader.rest.drop bs.length :=
    hal.rest.trans (Reader.rest_advance _ _)
  rw [hrest, List.drop_left] at hafter
  refine ⟨_, ?_, decode_of_ok hx, ho, hset, hal.limits.trans hl, hal.ends, hafter⟩
  rw [decodeInto_of_ok hx, ho, Nat.add_sub_cancel_left]

end Decoder

/-- The round trip of values with self-describing parts that decode from all that is left. From
wherever a decoder keeps its input, the bytes of a value are read back and nothing else is used up;
what is left comes next, as if the source had only just brought it. -/
theorem Setting.decode_of_encode_whole {P : (k : Nat) → (S.custom k).Carrier → Prop}
    (hc : ∀ k, S.Contains t (.custom k) → (S.custom k).Delimits setting.options.version (P k))
    (ho : setting.Overrides (fun b _ => b.Exact) t) {x : Datum S t} (hx : x.All P)
    (hw : x.Within setting) {bs : List UInt8} (he : setting.encode x = .ok bs) {rest : List UInt8}
    {D : Decoder S} (hD : D.Before setting (bs ++ rest)) :
    ∃ D' : Decoder S, D.decodeInto (.initial t) = ((.ok bs.length, x.carried setting), D') ∧
      D.decode t = (.ok (x.carried setting), D') ∧
      D'.reader.offset = D.reader.offset + bs.length ∧ D'.Before setting rest ∧
      ∀ ts : List Shape,
        (∀ u ∈ ts, S.Orderly u ∧ setting.Overrides (fun _ _ => True) u) →
          D'.decodeAll ts = (D'.refill rest).decodeAll ts := by
  have hvalue : Appends (Encoding.value setting setting.options.maxDepth x) fun _ bs =>
      Obtains setting.options.limits
        (Decoding.fresh (Decoding.value setting setting.options.maxDepth) t) bs
        (x.carried setting) := by
    refine (Obtains.intake _).appends_value (fun k hk w hw enc dec => ?_) ho hx hw
    exact appends_body_whole (hc k hk) hw enc dec
  obtain ⟨D', hinto, hdecode, hoff, hD'⟩ := hD.decode_of_obtains (of_encode hvalue he)
  refine ⟨D', hinto, hdecode, hoff, hD', fun ts hts => ?_⟩
  have hset : (D'.refill rest).setting = setting := hD'.setting_eq
  refine Decoder.decodeAll_congr (E := D'.refill rest) ?_ hD'.alike_refill fun u hu => ?_
  · rfl
  · rw [hset]
    exact hts u hu

namespace Sample

theorem Blob.delimits (version : Int) :
    Blob.type.Delimits version fun b => b.bytes.length ≤ 255 := by
  refine ⟨take, rfl, fun b hb => ?_⟩
  have hlt : b.bytes.length < IntKind.u8.count := Nat.lt_succ_of_le hb
  have hform : Writer.numberForm (IntKind.u8.wrap b.bytes.length) =
      [UInt8.ofNat b.bytes.length] := by
    change BigEndian.encode 1 (IntKind.u8.wrap (IntKind.u8.wrap b.bytes.length).val).pattern = _
    rw [IntKind.wrap_val, Num.pattern_wrap hlt]
    rfl
  have hlen : Emits (Writer.number (IntKind.u8.wrap b.bytes.length)) 1
      [UInt8.ofNat b.bytes.length] := by
    have h := Writer.emits_numberAs IntKind.u8.op (IntKind.u8.wrap b.bytes.length).fits
    rwa [hform] at h
  have hmarshal : Emits (marshal b version) (1 + b.bytes.length)
      ([UInt8.ofNat b.bytes.length] ++ (b.bytes ++ [])) :=
    hlen.bind (f := fun n => do return n + (← Writer.bytes "blob" b.bytes))
      ((Writer.emits_bytes "blob" b.bytes).bind (Emits.pure _))
  refine hmarshal.appends fun tail => ?_
  have hn : (UInt8.ofNat b.bytes.length).toNat = b.bytes.length := toNat_ofNat_of_lt hlt
  have henough : ¬ b.bytes.length + tail.length < b.bytes.length := by omega
  have htake : take version (UInt8.ofNat b.bytes.length :: (b.bytes ++ tail)) type.initial =
      (.ok (b.bytes.length + 1), ⟨b.bytes⟩) := by
    simp [take, hn, henough]
  rw [List.append_nil]
  exact htake

def bundle : RecordType := recordType "Bundle" [
  ⟨"tail", int .u16, ",5"⟩, ⟨"first", blob, ",2"⟩, ⟨"note", text, "-"⟩,
  ⟨"many", .sequence blob, ",3"⟩, ⟨"maybe", .optional (.boxed blob), ",4"⟩, ⟨"head", int .u8, ",1"⟩]

def bundleSchema : TagWire.Schema := schemaWith bundle (by decide)

def bundleShapes : List Shape :=
  [.record spare, int .u16, blob, text, .sequence blob, .optional (.boxed blob), .boxed blob,
    int .u8]

def bundleSetting : Setting bundleSchema := ⟨.atVersion 0, .builtins⟩

def blobOf (bytes : List UInt8) : Datum bundleSchema blob := .custom (k := 1) (⟨bytes⟩ : Blob)

def bundled : Datum bundleSchema (.record spare) := .record fun
  | ⟨0, _⟩ => .scalar (IntKind.u16.wrap 258)
  | ⟨1, _⟩ => blobOf [10, 11]
  | ⟨2, _⟩ => .scalar "x"
  | ⟨3, _⟩ => .sequence 2 fun i => blobOf (List.replicate i 9)
  | ⟨4, _⟩ => .present (.boxed (blobOf [7]))
  | ⟨5, _⟩ => .scalar (IntKind.u8.wrap 1)

def shortBlob : (k : Nat) → (bundleSchema.custom k).Carrier → Prop
  | 1 => fun b : Blob => b.bytes.length ≤ 255
  | _ => fun _ => False

def bundledBytes : List UInt8 := [1, 2, 10, 11, 2, 0, 1, 9, 1, 7, 1, 2]

def bundleSource : Source := { unread := bundledBytes ++ [255, 254], chunk := some 3 }

end Sample

theorem Setting.decode_of_encode_whole_bundled : ∃ D' : Decoder Sample.bundleSchema,
    (Decoder.ofSource Sample.bundleSource Sample.bundleSetting).decode (.record Sample.spare) =
      (.ok (Sample.bundled.carried Sample.bundleSetting), D') ∧
    D'.reader.pushback ++ D'.reader.source.unread = [255, 254] ∧
    D'.decodeAll [Sample.int .u16] = (D'.refill [255, 254]).decodeAll [Sample.int .u16] := by
  have hcl : Sample.bundleSchema.Closed Sample.bundleShapes := by decide +kernel
  have ht : .record Sample.spare ∈ Sample.bundleShapes := by decide
  have hc : ∀ k, Sample.bundleSchema.Contains (.record Sample.spare) (.custom k) →
      (Sample.bundleSchema.custom k).Delimits 0 (Sample.shortBlob k) := by
    intro k hk
    obtain rfl : k = 1 := by
      simpa [Sample.bundleShapes, Sample.blob] using hk.mem_of_closed hcl ht
    exact Sample.Blob.delimits 0
  have ho : Sample.bundleSetting.Overrides (fun b _ => b.Exact) (.record Sample.spare) :=
    .of_closed rfl hcl ht (by decide +kernel)
  have hall : Sample.bundled.All Sample.shortBlob := fun
    | ⟨0, _⟩ | ⟨2, _⟩ | ⟨5, _⟩ => trivial
    | ⟨1, _⟩ => show 2 ≤ 255 by decide
    | ⟨3, _⟩ => fun i => show (List.replicate i.val (9 : UInt8)).length ≤ 255 by
      rw [List.length_replicate]
      omega
    | ⟨4, _⟩ => show 1 ≤ 255 by decide
  have hw : Sample.bundled.Within Sample.bundleSetting := by decide +kernel
  have hD : (Decoder.ofSource Sample.bundleSource Sample.bundleSetting).Before
      Sample.bundleSetting (Sample.bundledBytes ++ [255, 254]) :=
    ⟨rfl, rfl, ⟨by decide, rfl⟩, rfl⟩
  obtain ⟨D', -, hdecode, -, hD', hlater⟩ := decode_of_encode_whole hc ho hall hw
    (encode_of_toOption (by decide +kernel)) hD
  refine ⟨D', hdecode, hD'.rest_eq, hlater _ fun u hu => ?_⟩
  obtain rfl := List.mem_singleton.1 hu
  have hone : Sample.bundleSchema.Closed [Sample.int .u16] := by decide
  have hself : Sample.int .u16 ∈ [Sample.int .u16] := List.mem_cons_self
  have hplain : Sample.bundleSchema.Plain (Sample.int .u16) := .of_closed hone hself (by decide)
  exact ⟨fun k hk => absurd hk (hplain k), .of_closed rfl hone hself (by decide)⟩

end TagWire
