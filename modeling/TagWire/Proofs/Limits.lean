import TagWire.Proofs.Bounded
import TagWire.Proofs.RoundTrip

/-! Limits only ever restrict. Two decoders at one place, one of them under lower limits, do the
same until the lower limits end the one; an encoder has nothing to do with limits on lengths. -/
namespace TagWire

variable {S : Schema} {o o' : Options} {R : Registry S} {t : Shape} {r : Nat}

namespace Options

structure AtMost (o o' : Options) : Prop where
  version : o.version = o'.version
  maxDepth : o.maxDepth ≤ o'.maxDepth
  maxItems : o.maxItems ≤ o'.maxItems
  maxText : o.maxText ≤ o'.maxText

theorem AtMost.limit (h : o.AtMost o') : (g : Gauge) → g.limit o.limits ≤ g.limit o'.limits
  | .text => h.maxText
  | .items => h.maxItems

/-- Whether the error is that of a limit, and names it. -/
def Cuts (o : Options) (e : Error) : Prop := o.limits.Cuts e ∨ e = .depthExceeded o.maxDepth

end Options

def DecodeState.withLimits (s : DecodeState) (L : Limits) : DecodeState :=
  { s with reader := { s.reader with limits := L } }

/-- Under `o` the first step ends in the error of a limit, or as the second one does under `o'`. -/
def Restricts {α : Type} (o o' : Options) (x y : Decoding α) : Prop :=
  ∀ s : DecodeState, s.reader.limits = o.limits →
    (∃ e s', x s = (.error e, s') ∧ o.Cuts e) ∨
    ∃ result s', s'.reader.limits = o.limits ∧ x s = (result, s') ∧
      y (s.withLimits o'.limits) = (result, s'.withLimits o'.limits)

namespace Restricts

variable {α β : Type} {x y : Decoding α} {f g : α → Decoding β}

theorem same (hkeep : ∀ s, (x s).2.reader.limits = s.reader.limits)
    (h : ∀ s L, x (s.withLimits L) = ((x s).1, (x s).2.withLimits L)) : Restricts o o' x x :=
  fun s hs => .inr ⟨(x s).1, (x s).2, (hkeep s).trans hs, rfl, h s _⟩

theorem pure (a : α) : Restricts o o' (pure a) (pure a) := same (fun _ => rfl) fun _ _ => rfl

theorem fail (e : Error) : Restricts o o' (.fail e : Decoding α) (.fail e) :=
  same (fun _ => rfl) fun _ _ => rfl

theorem count (f : Metrics → Metrics) :
    Restricts o o' (Decoding.count f) (Decoding.count f) := same (fun _ => rfl) fun _ _ => rfl

theorem cut {e : Error} (h : o.Cuts e) (y : Decoding α) : Restricts o o' (.fail e) y :=
  fun s _ => .inl ⟨e, s, rfl, h⟩

theorem bind (hx : Restricts o o' x y) (hf : ∀ a, Restricts o o' (f a) (g a)) :
    Restricts o o' (x >>= f) (y >>= g) := by
  intro s hs
  rcases hx s hs with ⟨e, s₁, h₁, he⟩ | ⟨result, s₁, hs₁, h₁, h₁'⟩
  · exact .inl ⟨e, s₁, Attempt.bind_error h₁, he⟩
  · cases result with
    | error e => exact .inr ⟨.error e, s₁, hs₁, Attempt.bind_error h₁, Attempt.bind_error h₁'⟩
    | ok a =>
      rw [Attempt.bind_ok h₁, Attempt.bind_ok h₁']
      exact hf a s₁ hs₁

theorem map (g : α → β) (hx : Restricts o o' x y) : Restricts o o' (g <$> x) (g <$> y) :=
  hx.bind fun a => pure (g a)

theorem collect (hx : Restricts o o' x y) (count : Nat) (done : Array α) :
    Restricts o o' (Attempt.collect x count done) (Attempt.collect y count done) := by
  induction count generalizing done with
  | zero => exact pure done
  | succ count ih =>
    rw [Attempt.collect_succ, Attempt.collect_succ]
    exact hx.bind fun a => ih (done.push a)

end Restricts

namespace Decoding

theorem read_congr {α : Type} {x y : Reading α} {s : DecodeState} (h : x s.reader = y s.reader) :
    read x s = read y s := by
  simp only [read, Attempt.within, h]

theorem restricts_bytes (op : String) (n : Nat) :
    Restricts o o' (read (Reader.bytes op n)) (read (Reader.bytes op n)) := by
  have hbytes (r : Reader) (L : Limits) : Reader.bytes op n { r with limits := L } =
      ((Reader.bytes op n r).1, { (Reader.bytes op n r).2 with limits := L }) ∧
      (Reader.bytes op n r).2.limits = r.limits := by
    unfold Reader.bytes
    dsimp only
    split
    · exact ⟨rfl, rfl⟩
    · exact ⟨rfl, rfl⟩
  apply Restricts.same
  · intro s
    exact (hbytes s.reader {}).2
  · intro s L
    simp only [read, Attempt.within, DecodeState.withLimits, (hbytes s.reader L).1]

/-- A length that passes the lower limit passes the higher one. -/
theorem restricts_read {α : Type} {x : Reading α} (hle : o.AtMost o') (h : Guarded x) :
    Restricts o o' (read x) (read x) := by
  induction h with
  | idle f h =>
    apply Restricts.same
    · simp [read, Attempt.within, h]
    · simp [read, Attempt.within, h, DecodeState.withLimits]
  | bytes op n => exact restricts_bytes op n
  | @gauged α x g start n _ ih =>
    intro s hs
    by_cases hn : n ≤ g.limit o.limits
    · have hn' : n ≤ g.limit (s.withLimits o'.limits).reader.limits :=
        Nat.le_trans hn (hle.limit g)
      rw [read_congr (Reader.gauged_of_le (hs ▸ hn) start x),
        read_congr (Reader.gauged_of_le hn' start x)]
      exact ih s hs
    · have hlt := Nat.not_le.1 hn
      have hcut := read_congr (y := .fail _) (Reader.gauged_of_lt (hs ▸ hlt) start x)
      rw [hs] at hcut
      exact .inl ⟨_, s, hcut, .inl ⟨g, start, n, hlt, rfl⟩⟩
  | bind _ _ hx hf =>
    rw [read_bind]
    exact hx.bind hf

variable {allowed : Builtin → Shape → Prop} {dec dec' : {t : Shape} → Overwriting S t}
  (hle : o.AtMost o')
  (hplain : ∀ (i : Fin (S.arity r)) (d : Datum S (S.fieldShape r i)),
    Restricts o o' (InPlace.produce dec d) (InPlace.produce dec' d))

include hle hplain

theorem restricts_field {setting : Setting S} {d : Descriptor} (hd : setting.Faces allowed r d)
    (fields : Fields S r) : Restricts o o' (InPlace.produce (field setting dec d) fields)
      (InPlace.produce (field setting dec' d) fields) := by
  cases hd with
  | refused e _ decode =>
    rw [decode, decode]
    exact Restricts.fail e
  | plain i _ _ _ decode =>
    rw [decode, decode]
    exact (hplain i (fields i)).map _
  | through i b _ _ _ _ decode =>
    rw [decode, decode]
    refine (restricts_read hle ((b.guarded_fresh _).map _)).bind fun v => ?_
    exact (Restricts.count _).bind fun _ => Restricts.pure _

theorem restricts_fieldsInOrder {setting : Setting S} {ds : List Descriptor}
    (hd : ∀ d ∈ ds, setting.Faces allowed r d) (fields : Fields S r) :
    Restricts o o' (InPlace.produce (fieldsInOrder setting dec ds) fields)
      (InPlace.produce (fieldsInOrder setting dec' ds) fields) := by
  induction ds generalizing fields with
  | nil => exact Restricts.pure fields
  | cons d ds ih =>
    rw [produce_fieldsInOrder_cons, produce_fieldsInOrder_cons]
    refine (restricts_field hle hplain (hd d List.mem_cons_self) fields).bind fun fields => ?_
    exact ih (fun d hm => hd d (List.mem_cons_of_mem _ hm)) fields

omit hplain

theorem restricts_value {levels levels' : Nat} (hlevels : levels ≤ levels') (hp : S.Plain t)
    (ho : Setting.Overrides ⟨o, R⟩ allowed t) (d : Datum S t) :
    Restricts o o' (InPlace.produce (value ⟨o, R⟩ levels) d)
      (InPlace.produce (value ⟨o', R⟩ levels') d) := by
  induction levels generalizing t levels' with
  | zero => exact Restricts.cut (.inr rfl) _
  | succ levels ih =>
    obtain ⟨levels', rfl⟩ : ∃ n, levels' = n + 1 := ⟨levels' - 1, by omega⟩
    have hbody (nested : {t : Shape} → Overwriting S t) :
        body ⟨o', R⟩ nested t = body ⟨o, R⟩ nested t := by
      apply body_congr
      · rfl
      · exact hle.version.symm
    rw [produce_value_of_ne hp.ne_custom, produce_value_of_ne hp.ne_custom, hbody]
    have hpart := fun (u : Shape) (hu : u ∈ S.parts t) (d : Datum S u) =>
      ih (Nat.le_of_succ_le_succ hlevels) (hp.part hu) (ho.part hu) d
    cases d with
    | @scalar s x =>
      rw [produce_body_scalar, produce_body_scalar]
      exact restricts_read hle (s.guarded_read.map _)
    | @sequence t n item =>
      rw [produce_body_sequence, produce_body_sequence]
      refine (restricts_read hle Reader.guarded_itemCount).bind fun n => ?_
      exact ((hpart t (S.mem_parts_sequence t) _).collect n #[]).map _
    | @absent t | @present t d =>
      rw [produce_body_optional, produce_body_optional]
      exact (hpart t (S.mem_parts_optional t) _).map _
    | @boxed t d =>
      rw [produce_body_boxed, produce_body_boxed]
      exact (hpart t (S.mem_parts_boxed t) _).map _
    | @record r fields =>
      rw [produce_body_record, produce_body_record]
      cases hl : (S.record r).layoutAt o.version with
      | error e => exact Restricts.fail e
      | ok layout =>
        apply Restricts.map
        apply restricts_fieldsInOrder hle _ fun d => ho.faces hl
        intro i d
        exact hpart _ (Schema.fieldShape_mem_parts r i) d
    | @custom k x => exact absurd rfl (hp.ne_custom k)

end Decoding

def Decoder.withOptions (D : Decoder S) (o : Options) : Decoder S where
  setting := ⟨o, D.setting.registry⟩
  reader := { D.reader with limits := o.limits }
  metrics := D.metrics

def Encoder.withLimits (E : Encoder S) (L : Limits) : Encoder S :=
  { E with setting := ⟨(E.setting.options.withMaxText L.maxText).withMaxItems L.maxItems,
      E.setting.registry⟩ }

theorem Encoder.value_withLimits (E : Encoder S) (L : Limits) (d : Datum S t) :
    (E.withLimits L).value d = Prod.map id (·.withLimits L) (E.value d) := by
  have hvalue : Encoding.value (E.withLimits L).setting E.setting.options.maxDepth d =
      Encoding.value E.setting E.setting.options.maxDepth d := by
    apply Encoding.value_congr
    · rfl
    · rfl
    · rfl
  show run (Encoding.value (E.withLimits L).setting E.setting.options.maxDepth d) _ = _
  rw [hvalue]
  rfl

theorem Encoder.encode_withLimits (E : Encoder S) (L : Limits) (d : Datum S t) :
    (E.withLimits L).encode d = Prod.map id (·.withLimits L) (E.encode d) := by
  unfold encode
  rw [value_withLimits]
  rcases E.value d with ⟨_ | _, E'⟩
  · rfl
  · rfl

namespace Decoder

variable {allowed : Builtin → Shape → Prop} {D D₁ : Decoder S}

inductive Outcome (D : Decoder S) (o o' : Options) (target : Datum S t) : Prop
  | cut (e : Error) (half : Datum S t) (D₁ : Decoder S)
      (low : (D.withOptions o).decodeInto target = ((.error e, half), D₁)) (cuts : o.Cuts e)
  | value (n : Nat) (v : Datum S t) (D₁ : Decoder S)
      (low : (D.withOptions o).decodeInto target = ((.ok n, v), D₁))
      (high : (D.withOptions o').decodeInto target = ((.ok n, v), D₁.withOptions o'))
  | error (e : Error) (half half' : Datum S t) (D₁ : Decoder S)
      (low : (D.withOptions o).decodeInto target = ((.error e, half), D₁))
      (high : (D.withOptions o').decodeInto target = ((.error e, half'), D₁.withOptions o'))

theorem outcome (hp : S.Plain t) (hle : o.AtMost o')
    (ho : Setting.Overrides ⟨o, D.setting.registry⟩ allowed t) (target : Datum S t) :
    D.Outcome o o' target := by
  rcases Decoding.restricts_value hle hle.maxDepth hp ho target
    ⟨(D.withOptions o).reader, D.metrics⟩ rfl with ⟨e, s, hx, he⟩ | ⟨result, s, _, hx, hx'⟩
  · obtain ⟨half, hd⟩ := decodeInto_of_error (D := D.withOptions o) hx
    exact .cut e half _ hd he
  · cases result with
    | error e =>
      obtain ⟨half, hd⟩ := decodeInto_of_error (D := D.withOptions o) hx
      obtain ⟨half', hd'⟩ := decodeInto_of_error (D := D.withOptions o') hx'
      exact .error e half half' _ hd hd'
    | ok v =>
      have hd := decodeInto_of_ok (D := D.withOptions o) hx
      exact .value _ v _ hd (decodeInto_of_ok (D := D.withOptions o') hx')

theorem bounded_of_decodeInto (hp : S.Plain t) (ho : D.setting.Overrides allowed t)
    (hl : D.reader.limits = D.setting.options.limits) {target v : Datum S t} {n : Nat}
    (h : D.decodeInto target = ((.ok n, v), D₁)) (ht : target.Bounded D.setting none) :
    v.Bounded D.setting none := by
  obtain ⟨s, hx, _⟩ := produce_of_decodeInto h
  obtain ⟨_, _, _, hv⟩ := yields_value_bounded D.setting.options.maxDepth hp ho ht _ v s hl hx
  exact hv

end Decoder

/-- Limits only ever restrict. What is decoded under some limits is decoded under higher ones to the
same value, from as many bytes and with the same ones left; an error under the lower limits is that
of a limit, and names it, or else comes under the higher ones too. No text and no sequence that is
decoded is longer than the limits allow. What an encoder does has nothing to do with limits on
lengths. -/
theorem Decoder.limits_only_restrict (hp : S.Plain t) (hle : o.AtMost o') {D : Decoder S}
    (ho : (D.withOptions o).setting.Overrides (fun _ _ => True) t) :
    (∀ target : Datum S t,
      (∀ n v D₁, (D.withOptions o).decodeInto target = ((.ok n, v), D₁) →
        (D.withOptions o').decodeInto target = ((.ok n, v), D₁.withOptions o') ∧
        (target.Bounded (D.withOptions o).setting none →
          v.Bounded (D.withOptions o).setting none)) ∧
      ∀ e half D₁, (D.withOptions o).decodeInto target = ((.error e, half), D₁) →
        o.Cuts e ∨
        ∃ half', (D.withOptions o').decodeInto target = ((.error e, half'), D₁.withOptions o')) ∧
    (∀ v D₁, (D.withOptions o).decode t = (.ok v, D₁) →
      (D.withOptions o').decode t = (.ok v, D₁.withOptions o') ∧
      v.Bounded (D.withOptions o).setting none) ∧
    ∀ (E : Encoder S) (u : Shape) (d : Datum S u) (L : Limits),
      (E.withLimits L).encode d = Prod.map id (·.withLimits L) (E.encode d) := by
  have hinto : ∀ target : Datum S t, ∀ n v D₁,
      (D.withOptions o).decodeInto target = ((.ok n, v), D₁) →
      (D.withOptions o').decodeInto target = ((.ok n, v), D₁.withOptions o') := by
    intro target n v D₁ h
    cases outcome hp hle ho target with
    | cut _ _ _ low | error _ _ _ _ low =>
      rw [h] at low
      cases low
    | value n v D₁ low high =>
      rw [h] at low
      cases low
      exact high
  refine ⟨fun target => ⟨fun n v D₁ h => ?_, fun e half D₁ h => ?_⟩, fun v D₁ h => ?_,
    fun E _ d L => E.encode_withLimits L d⟩
  · exact ⟨hinto target n v D₁ h, bounded_of_decodeInto hp ho rfl h⟩
  · cases outcome hp hle ho target with
    | value _ _ _ low =>
      rw [h] at low
      cases low
    | cut _ _ _ low cuts =>
      rw [h] at low
      cases low
      exact .inl cuts
    | error _ _ half' _ low high =>
      rw [h] at low
      cases low
      exact .inr ⟨half', high⟩
  · obtain ⟨n, hn⟩ := decodeInto_of_decode h
    exact ⟨decode_of_decodeInto (hinto _ n v D₁ hn),
      bounded_of_decodeInto hp ho rfl hn (Datum.bounded_initial t none)⟩

namespace Sample

def snug : Options := { version := 3, maxDepth := 4, maxItems := 1, maxText := 2 }

def short : Options := snug.withMaxText 1

def batchDecoder : Decoder schema := .ofSource { unread := batchBytes } third

end Sample

theorem Decoder.limits_only_restrict_batch :
    (∃ v D, (Sample.batchDecoder.withOptions Sample.snug).decode (.record 13) = (.ok v, D) ∧
      Sample.batchDecoder.decode (.record 13) = (.ok v, D.withOptions Sample.third.options) ∧
      v.Bounded (Sample.batchDecoder.withOptions Sample.snug).setting none) ∧
    ∃ e half D, (Sample.batchDecoder.withOptions Sample.short).decodeInto (.initial (.record 13)) =
      ((.error e, half), D) ∧ Sample.short.Cuts e := by
  have hc : Sample.schema.Closed Sample.batchShapes := by decide +kernel
  have ht : .record 13 ∈ Sample.batchShapes := by decide
  have hp : Sample.schema.Plain (.record 13) := .of_closed hc ht (by decide)
  have ho (o : Options) : (Sample.batchDecoder.withOptions o).setting.Overrides (fun _ _ => True)
      (.record 13) := .of_closed rfl hc ht fun _ _ _ _ _ _ _ => trivial
  have hsnug : Sample.snug.AtMost Sample.third.options := ⟨rfl, by decide, by decide, by decide⟩
  have hshort : Sample.short.AtMost Sample.third.options := ⟨rfl, by decide, by decide, by decide⟩
  have hok : ((Sample.batchDecoder.withOptions Sample.snug).decode (.record 13)).1.isOk = true := by
    decide +kernel
  have hfails : ((Sample.batchDecoder.withOptions Sample.short).decodeInto
      (.initial (.record 13))).1.1.isOk = false := by decide +kernel
  have hhigh : (Sample.batchDecoder.decodeInto (.initial (.record 13))).1.1.isOk = true := by
    decide +kernel
  constructor
  · rcases hd : (Sample.batchDecoder.withOptions Sample.snug).decode (.record 13) with ⟨e | v, D⟩
    · rw [hd] at hok
      cases hok
    · obtain ⟨hsame, hv⟩ := (limits_only_restrict hp hsnug (ho _)).2.1 v D hd
      exact ⟨v, D, rfl, hsame, hv⟩
  · rcases hd : (Sample.batchDecoder.withOptions Sample.short).decodeInto
      (.initial (.record 13)) with ⟨⟨e | n, half⟩, D⟩
    · refine ⟨e, half, D, rfl, ?_⟩
      rcases ((limits_only_restrict hp hshort (ho _)).1 _).2 e half D hd with hcut | ⟨_, hsame⟩
      · exact hcut
      · have hsame : Sample.batchDecoder.decodeInto (.initial (.record 13)) = _ := hsame
        rw [hsame] at hhigh
        cases hhigh
    · rw [hd] at hfails
      cases hfails

def Datum.Holds (content : String) : {t : Shape} → Datum S t → Prop
  | _, .scalar (s := s) x => s.text? x = some content
  | _, .sequence _ item => ∃ i, (item i).Holds content
  | _, .absent => False
  | _, .present d => d.Holds content
  | _, .boxed d => d.Holds content
  | _, .record field => ∃ i, (field i).Holds content
  | _, .custom _ => False

namespace Sample

def overridesShapes : List Shape :=
  [.record 7, int .u32, text, .optional (.boxed (int .i64)), .boxed (int .i64), int .i64]

def idField (d : Datum schema (.record 7)) : Datum schema text := d.fields ⟨1, by decide⟩

def idText (d : Datum schema (.record 7)) : String :=
  match idField d with
  | .scalar s => s

theorem holds_idText (d : Datum schema (.record 7)) : d.Holds (idText d) := by
  cases d with
  | record fields =>
    refine ⟨⟨1, by decide⟩, ?_⟩
    show (idField (.record fields)).Holds (idText (.record fields))
    unfold idText
    cases idField (.record fields) with
    | scalar s => exact rfl

end Sample

/-- Text that the codec for UUIDs spells is not held to the limit. -/
theorem Decoder.text_over_limit : Sample.schema.Plain (.record 7) ∧
    (∀ o : Options, Setting.Overrides (S := Sample.schema) ⟨o, .builtins⟩ (fun _ _ => True)
      (.record 7)) ∧
    ¬ ∀ (o : Options) (bytes : List UInt8) (v : Datum Sample.schema (.record 7))
      (D : Decoder Sample.schema),
      (Decoder.ofSource { unread := bytes } ⟨o, .builtins⟩).decode (.record 7) = (.ok v, D) →
      ∀ content, v.Holds content → (Text.utf8 content).length ≤ o.maxText := by
  have hc : Sample.schema.Closed Sample.overridesShapes := by decide +kernel
  have ht : .record 7 ∈ Sample.overridesShapes := by decide
  refine ⟨.of_closed hc ht (by decide), fun o => .of_closed rfl hc ht fun _ _ _ _ _ _ _ => trivial,
    fun h => ?_⟩
  have hid : ((Decoder.ofSource { unread := List.replicate 30 0 }
      ⟨Options.withMaxText {} 10, .builtins⟩).decode (.record 7)).1.toOption.map
        (fun v => (Text.utf8 (Sample.idText v)).length) = some 36 := by decide +kernel
  rcases hd : (Decoder.ofSource { unread := List.replicate 30 0 }
      ⟨Options.withMaxText {} 10, .builtins⟩).decode (.record 7) with ⟨e | v, D⟩
  · rw [hd] at hid
    cases hid
  · rw [hd] at hid
    have hlen : (Text.utf8 (Sample.idText v)).length = 36 := Option.some.inj hid
    have hle : (Text.utf8 (Sample.idText v)).length ≤ 10 :=
      h _ _ v D hd _ (Sample.holds_idText v)
    omega

end TagWire
