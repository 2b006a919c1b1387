import TagWire.Proofs.Session
import TagWire.Proofs.Steps
import TagWire.Proofs.WireOrder
import TagWire.Proofs.Wire.Incurs
import TagWire.Sample.Schema

/-! Sound schemas. Where every tag is well-formed and every codec that a tag names is built in and
takes the value behind its field, a decoder never blames the schema or the call: on an input in
memory it succeeds, says what is wrong with the bytes, or asks for more memory than there is. -/
namespace TagWire

open HasReader (reader)

variable {S : Schema} {setting : Setting S} {t u : Shape} {r : Nat} {L : Limits}
  {P : Error → Prop}

def Shape.isInteger : Shape → Bool
  | scalar (.int _) => true
  | _ => false

/-- The shapes of which the codec reads and writes values. -/
def Builtin.Supports (b : Builtin) (u : Shape) : Prop :=
  match b with
  | bool => u = .scalar .bool ∨ u.isInteger
  | byte | type | short | int | long | nullSize | size => u.isInteger
  | float | double => u = .scalar .float32 ∨ u = .scalar .float64
  | string => u = .scalar .text ∨ u = Datum.byteSequence
  | uuid =>
    u = .scalar .uuid ∨ u = .scalar .octets ∨ u = .scalar .text ∨ u = Datum.byteSequence
  | time => u = .scalar .time ∨ u = .scalar (.int .i64) ∨ u = .scalar (.int .u64)

instance (b : Builtin) (u : Shape) : Decidable (b.Supports u) := by
  unfold Builtin.Supports
  cases b <;> infer_instance

namespace Datum

theorem exists_putInteger? (d : Datum S u) (h : u.isInteger = true) (x : Int) :
    ∃ d', putInteger? x d = some d' := by
  unfold Shape.isInteger at h
  split at h
  · cases d
    exact ⟨_, rfl⟩
  · cases h

theorem exists_putTruth? (h : Builtin.bool.Supports u) (d : Datum S u) (b : Bool) :
    ∃ d', putTruth? b d = some d' := by
  rcases h with rfl | h
  · cases d
    exact ⟨_, rfl⟩
  · unfold Shape.isInteger at h
    split at h
    · cases d
      exact ⟨_, rfl⟩
    · cases h

theorem exists_putDouble?_of_supports (h : Builtin.double.Supports u) (d : Datum S u) (x : UInt64) :
    ∃ d', putDouble? x d = some d' := by
  rcases h with rfl | rfl <;> cases d <;> exact ⟨_, rfl⟩

end Datum

namespace Codec

theorem exists_putUuid (h : Builtin.uuid.Supports u) (d : Datum S u) (o : Octets) :
    ∃ d', putUuid o d = .ok d' := by
  rcases h with rfl | rfl | rfl | rfl <;> cases d <;> exact ⟨_, rfl⟩

theorem incurs_ofViews {α : Type} {name : String} {find : {t : Shape} → Datum S t → Option α}
    {put : α → {t : Shape} → Datum S t → Option (Datum S t)} {write : α → Writing Nat}
    {read : Reading α} (hr : Incurs L P read) {d : Datum S u}
    (hput : ∀ a, ∃ d', put a d = some d') :
    Incurs L P (InPlace.produce (ofViews name find put write read).decode d) := by
  rw [produce_ofViews]
  refine hr.bind fun a => ?_
  obtain ⟨d', hd'⟩ := hput a
  rw [hd']
  exact Incurs.pure d'

end Codec

/-- A codec before a field that it supports has no error of its own but that for a time before 1970
which is to be unsigned. -/
theorem Builtin.incurs_decode (hP : ∀ e : Error, e.blamesInput = true → P e)
    (hover : ∀ e, L.Overruns e → P e) {b : Builtin} (h : b.Supports u)
    (htime : b = time → u = .scalar (.int .u64) → ∀ m, P (.valueOutOfRange "time" m))
    (d : Datum S u) : Incurs L P (InPlace.produce b.codec.decode d) := by
  cases b with
  | bool => exact Codec.incurs_ofViews (Reader.incurs_bool hP) (Datum.exists_putTruth? h d)
  | byte | type | short | int | long =>
    exact Codec.incurs_ofViews ((Reader.incurs_numberAs hP _ _).map _) (d.exists_putInteger? h)
  | nullSize =>
    exact Codec.incurs_ofViews ((Reader.incurs_nullableSize hP).map _) (d.exists_putInteger? h)
  | size =>
    exact Codec.incurs_ofViews ((Reader.incurs_size hP).map _) (d.exists_putInteger? h)
  | float =>
    exact Codec.incurs_ofViews ((Reader.incurs_float32 hP).map _)
      (Datum.exists_putDouble?_of_supports h d)
  | double =>
    exact Codec.incurs_ofViews (Reader.incurs_float64 hP)
      (Datum.exists_putDouble?_of_supports h d)
  | string =>
    have hd : InPlace.produce Codec.string.decode d = _ := Codec.produce_string d
    rw [codec, hd]
    rcases h with rfl | rfl
    · exact (Reader.incurs_text hP hover).map _
    · exact (Reader.incurs_textBytes hP hover).map _
  | uuid =>
    have hd : InPlace.produce Codec.uuid.decode d = _ := Codec.produce_uuid d
    rw [codec, hd]
    refine (Reader.incurs_octets hP).bind fun o => ?_
    obtain ⟨d', hd'⟩ := Codec.exists_putUuid h d o
    rw [hd']
    exact Incurs.pure d'
  | time =>
    have hd : InPlace.produce Codec.time.decode d = _ := Codec.produce_time d
    rw [codec, hd]
    rcases h with rfl | rfl | rfl
    · exact (Reader.incurs_instant hP).map _
    · exact (Reader.incurs_millis hP).map _
    · refine (Reader.incurs_millis hP).bind fun m => ?_
      split
      · exact Incurs.pure _
      · exact Incurs.fail (htime rfl rfl m)

namespace Setting

/-- No self-describing types, well-formed tags throughout, and every codec that one of them names is
registered, built in, and supports what is behind its field. -/
structure Sound (setting : Setting S) (t : Shape) : Prop where
  plain : S.Plain t
  tagged : ∀ r, S.Contains t (.record r) → ∃ d, S.Tagged r d
  supported : ∀ r, S.Contains t (.record r) → ∀ (i : Fin (S.arity r)) (d : Descriptor)
    (name : String), S.descriptor r i = .ok d → d.codec = some name →
      ∃ b : Builtin, setting.registry.lookup name = .ok b.codec ∧
        b.Supports (S.fieldShape r i).pointee

theorem Sound.part (h : setting.Sound t) (hu : u ∈ S.parts t) : setting.Sound u :=
  ⟨h.plain.part hu, fun r hr => h.tagged r (hr.head hu), fun r hr => h.supported r (hr.head hu)⟩

def isSound (setting : Setting S) (r : Nat) (i : Fin (S.arity r)) : Bool :=
  match S.descriptor r i with
  | .error _ => false
  | .ok d => match d.codec with
    | none => true
    | some name => match setting.registry.lookup name with
      | .error _ => false
      | .ok c => (Builtin.ofCodec? c).any (·.Supports (S.fieldShape r i).pointee)

theorem Sound.of_closed (hb : setting.registry = .builtins) {ts : List Shape} (hc : S.Closed ts)
    (ht : t ∈ ts) (hplain : ∀ u ∈ ts, u.custom? = none)
    (h : ∀ u ∈ ts, ∀ r ∈ u.record?, (S.record r).extraTags = [] ∧
      ∀ i, setting.isSound r i = true) : setting.Sound t where
  plain := .of_closed hc ht hplain
  tagged r hr := by
    obtain ⟨hexact, hsound⟩ := h _ (hr.mem_of_closed hc ht) r rfl
    have hparses : ∀ i, ∃ d, S.descriptor r i = .ok d := by
      intro i
      have hi := hsound i
      unfold isSound at hi
      split at hi
      · cases hi
      · next d hd => exact ⟨d, hd⟩
    choose tags htags using hparses
    exact ⟨tags, htags, hexact⟩
  supported r hr i d name hd hname := by
    have hi := (h _ (hr.mem_of_closed hc ht) r rfl).2 i
    simp only [isSound, hd, hname] at hi
    cases hl : setting.registry.lookup name with
    | error e =>
      rw [hl] at hi
      cases hi
    | ok c =>
      obtain ⟨b, rfl⟩ := Registry.lookup_builtins (hb ▸ hl)
      simp only [hl, Builtin.ofCodec?_codec, Option.any_some, decide_eq_true_eq] at hi
      exact ⟨b, rfl, hi⟩

def TimesUnsigned (setting : Setting S) (t : Shape) : Prop :=
  ∃ (r : Nat) (i : Fin (S.arity r)) (d : Descriptor) (name : String),
    S.Contains t (.record r) ∧ S.descriptor r i = .ok d ∧ d.codec = some name ∧
      setting.registry.lookup name = .ok Builtin.time.codec ∧
      (S.fieldShape r i).pointee = .scalar (.int .u64)

theorem TimesUnsigned.of_part (hu : u ∈ S.parts t) (h : setting.TimesUnsigned u) :
    setting.TimesUnsigned t := by
  obtain ⟨r, i, d, name, hr, hd⟩ := h
  exact ⟨r, i, d, name, hr.head hu, hd⟩

end Setting

namespace Decoding

theorem incurs_read {α : Type} {x : Reading α} (h : Incurs L P x) : Incurs L P (read x) := by
  constructor
  · intro s s' e hs hx
    obtain ⟨s₁, h₁, -⟩ := runs_read x s
    rw [hx] at h₁
    simp only [Prod.mk.injEq] at h₁
    exact h.error hs (Prod.ext h₁.1.symm rfl)
  · intro s s' a hs hx
    obtain ⟨s₁, h₁, hr⟩ := runs_read x s
    rw [hx] at h₁
    simp only [Prod.mk.injEq] at h₁
    obtain ⟨ha, rfl⟩ := h₁
    rw [hr]
    exact h.ends hs (Prod.ext ha.symm rfl)

theorem incurs_count (f : Metrics → Metrics) : Incurs L P (count f) :=
  Incurs.of_apply () fun _ => ⟨_, rfl, rfl⟩

variable {dec : {t : Shape} → Overwriting S t} {layout : List Descriptor}
  (hP : ∀ e : Error, e.blamesInput = true → P e) (hover : ∀ e, L.Overruns e → P e)
  (htime : setting.TimesUnsigned (.record r) → ∀ m, P (.valueOutOfRange "time" m))
  (hplain : ∀ (i : Fin (S.arity r)) (d : Datum S (S.fieldShape r i)),
    Incurs L P (InPlace.produce dec d))

include hP hover htime hplain

theorem incurs_field (h : setting.Sound (.record r))
    (hl : (S.record r).layoutAt setting.options.version = .ok layout) {d : Descriptor}
    (hd : d ∈ layout) (fields : Fields S r) :
    Incurs L P (InPlace.produce (field setting dec d) fields) := by
  obtain ⟨tags, htags⟩ := h.tagged r Schema.Contains.refl
  obtain ⟨order, -, horder⟩ := htags.exists_order setting.options.version
  obtain rfl : layout = order.map tags := Except.ok.inj (hl.symm.trans horder)
  obtain ⟨i, -, htag⟩ := List.mem_map.1 hd
  have hi : d.index < S.arity r := by
    rw [← htag, htags.index i]
    exact i.isLt
  cases hc : d.codec with
  | none =>
    rw [produce_field_plain hc hi]
    exact (hplain _ _).map _
  | some name =>
    have hparses := ((S.mem_layoutAt hl ⟨d.index, hi⟩ d).1 ⟨hd, rfl⟩).1
    obtain ⟨b, hlook, hb⟩ := h.supported r Schema.Contains.refl _ _ name hparses hc
    rw [produce_field_codec hc hlook hi]
    have hread := b.incurs_decode hP hover hb (fun hbt hu => htime ⟨r, _, _, name,
      Schema.Contains.refl, hparses, hc, hbt ▸ hlook, hu⟩) (fields ⟨d.index, hi⟩).opened
    refine (incurs_read (hread.map _)).bind fun v => ?_
    exact (incurs_count Metrics.overridden).bind fun _ => Incurs.pure _

theorem incurs_fieldsInOrder (h : setting.Sound (.record r))
    (hl : (S.record r).layoutAt setting.options.version = .ok layout) {ds : List Descriptor}
    (hds : ∀ d ∈ ds, d ∈ layout) (fields : Fields S r) :
    Incurs L P (InPlace.produce (fieldsInOrder setting dec ds) fields) := by
  induction ds generalizing fields with
  | nil => exact Incurs.pure fields
  | cons d ds ih =>
    rw [produce_fieldsInOrder_cons]
    have hfield := incurs_field hP hover htime hplain h hl (hds d List.mem_cons_self) fields
    refine hfield.bind fun fields => ?_
    exact ih (fun d hm => hds d (List.mem_cons_of_mem _ hm)) fields

omit htime hplain

theorem incurs_value (levels : Nat) (h : setting.Sound t)
    (htime : setting.TimesUnsigned t → ∀ m, P (.valueOutOfRange "time" m)) (d : Datum S t) :
    Incurs L P (InPlace.produce (value setting levels) d) := by
  induction levels generalizing t with
  | zero => exact Incurs.fail (hP (.depthExceeded setting.options.maxDepth) rfl)
  | succ levels ih =>
    rw [produce_value_of_ne h.plain.ne_custom]
    have hpart := fun (u : Shape) (hu : u ∈ S.parts t) (d : Datum S u) =>
      ih (h.part hu) (fun hT => htime (hT.of_part hu)) d
    cases d with
    | @scalar s x =>
      rw [produce_body_scalar]
      exact incurs_read ((s.incurs_read hP hover).map _)
    | @sequence t n item =>
      rw [produce_body_sequence]
      refine (incurs_read (Reader.incurs_itemCount hP)).bind fun n => ?_
      exact ((hpart t (S.mem_parts_sequence t) _).collect n #[]).map _
    | @absent t | @present t d =>
      rw [produce_body_optional]
      exact (hpart t (S.mem_parts_optional t) _).map _
    | @boxed t d =>
      rw [produce_body_boxed]
      exact (hpart t (S.mem_parts_boxed t) _).map _
    | @record r fields =>
      rw [produce_body_record]
      obtain ⟨tags, htags⟩ := h.tagged r Schema.Contains.refl
      obtain ⟨order, -, hl⟩ := htags.exists_order setting.options.version
      rw [hl]
      refine Incurs.map _
        (incurs_fieldsInOrder hP hover htime (fun i d => ?_) h hl (fun _ hd => hd) fields)
      exact hpart _ (Schema.fieldShape_mem_parts r i) d
    | custom x => exact absurd rfl (h.plain.ne_custom _)

end Decoding

/-- The errors of a sound shape: the bytes are to blame, or a time is that was to be unsigned. -/
def Setting.Blames (setting : Setting S) (t : Shape) (e : Error) : Prop :=
  e.blamesInput = true ∨ ∃ m, e = .valueOutOfRange "time" m ∧ setting.TimesUnsigned t

theorem Decoder.error_of_sound {D : Decoder S} (h : D.setting.Sound t) (hends : D.reader.Ends)
    (hblames : ∀ e, D.setting.Blames t e → P e) (hover : ∀ e, D.reader.limits.Overruns e → P e)
    {old half : Datum S t} {e : Error} {D' : Decoder S}
    (he : D.decodeInto old = ((.error e, half), D')) : P e := by
  obtain ⟨s, hx, -⟩ := produce_of_decodeInto_error he
  have hvalue : Incurs D.reader.limits P (D.produce old) :=
    Decoding.incurs_value (fun e he => hblames e (.inl he)) hover _ h
      (fun hT m => hblames _ (.inr ⟨m, rfl, hT⟩)) old
  exact hvalue.error (s := ⟨D.reader, D.metrics⟩) ⟨hends, rfl⟩ hx

/-- Whatever the bytes, a decoder of an input that only ends succeeds with a value of a sound shape,
decoded afresh or over an old value, or fails with an error of those few kinds, or its run is over:
a text is announced that is within the limit, but for which no buffer can be had. Where the limit
itself is within what a buffer can hold, that is out of the question. -/
theorem Decoder.blames_or_overruns_of_sound {D : Decoder S} (h : D.setting.Sound t)
    (hends : D.reader.Ends) :
    (∀ e D', D.decode t = (.error e, D') → D.setting.Blames t e ∨ D.reader.limits.Overruns e) ∧
      ∀ (old half : Datum S t) (e : Error) (D' : Decoder S),
        D.decodeInto old = ((.error e, half), D') →
          D.setting.Blames t e ∨ D.reader.limits.Overruns e := by
  have hinto : ∀ (old half : Datum S t) (e : Error) (D' : Decoder S),
      D.decodeInto old = ((.error e, half), D') →
        D.setting.Blames t e ∨ D.reader.limits.Overruns e := by
    intro old half e D' he
    exact error_of_sound (P := fun e => D.setting.Blames t e ∨ D.reader.limits.Overruns e) h hends
      (fun _ => .inl) (fun _ => .inr) he
  refine ⟨fun e D' he => ?_, hinto⟩
  obtain ⟨half, hd⟩ := decodeInto_of_decode_error he
  exact hinto _ half e _ hd

namespace Sample

def freight : RecordType := recordType "Freight" [
  ⟨"posted", .optional (int .u64), "Time,2"⟩, ⟨"id", .boxed text, "uuid,1"⟩,
  ⟨"label", .sequence (int .u8), "string,3,1"⟩, ⟨"parts", .sequence (.record spare), ",4"⟩,
  ⟨"note", float32, "-"⟩]

def freightSchema : TagWire.Schema := schemaWith freight (by decide)

def freightShapes : List Shape :=
  [.record spare, .optional (int .u64), int .u64, .boxed text, text, .sequence (int .u8), int .u8,
    .sequence (.record spare), float32]

def freightSetting : Setting freightSchema := ⟨.atVersion 1, .builtins⟩

def freightBytes : List UInt8 := List.replicate 16 1 ++ List.replicate 8 0

end Sample

/-- A time before 1970 is not among the errors of bad bytes; the limit leaves no room for others. -/
theorem Decoder.blames_or_overruns_of_sound_freight : ∃ e D',
    (Decoder.ofSource { unread := Sample.freightBytes } Sample.freightSetting).decode
      (.record Sample.spare) = (.error e, D') ∧
    Sample.freightSetting.Blames (.record Sample.spare) e ∧ e.blamesInput = false := by
  have hcl : Sample.freightSchema.Closed Sample.freightShapes := by decide +kernel
  have hs : Sample.freightSetting.Sound (.record Sample.spare) :=
    .of_closed rfl hcl (by decide) (by decide) (by decide +kernel)
  obtain ⟨hblames, -⟩ := blames_or_overruns_of_sound (t := .record Sample.spare)
    (D := Decoder.ofSource { unread := Sample.freightBytes } Sample.freightSetting) hs
    (ends_ofSource _ _)
  have hwhy : (match ((Decoder.ofSource { unread := Sample.freightBytes }
      Sample.freightSetting).decode (.record Sample.spare)).1 with
    | .error e => e.blamesInput
    | .ok _ => true) = false := by decide +kernel
  cases hd : (Decoder.ofSource { unread := Sample.freightBytes } Sample.freightSetting).decode
      (.record Sample.spare) with
  | mk result D' =>
    rw [hd] at hwhy
    cases result with
    | ok v => cases hwhy
    | error e =>
      rcases hblames e D' hd with hb | ⟨n, hcap, hle, -⟩
      · exact ⟨e, D', rfl, hb, hwhy⟩
      · exact absurd (Nat.le_trans hle (by decide)) (Nat.not_le.2 hcap)

namespace Sample

def boundlessSetting : Setting freightSchema := ⟨{ maxText := 18446744073709551615 }, .builtins⟩

/-- The length of a text, 2 ^ 63, and nothing of the text. -/
def announcement : List UInt8 := [64, 128, 128, 128, 128, 128, 128, 128, 128, 2]

end Sample

theorem Setting.not_blames_of_isFatal {e : Error} (h : e.isFatal = true) :
    ¬ setting.Blames t e := by
  rintro (hb | ⟨m, rfl, -⟩)
  · cases e with
    | unallocatable n => cases hb
    | _ => cases h
  · cases h

/-- A text is a sound shape, and yet its announced length alone may end the run, which is none of
the errors of bad bytes. -/
theorem Decoder.overruns_of_announcement :
    Sample.boundlessSetting.Sound (.scalar .text) ∧ ∃ e D',
      (Decoder.ofSource { unread := Sample.announcement } Sample.boundlessSetting).decode
        (.scalar .text) = (.error e, D') ∧
      e.isFatal = true ∧ ¬ Sample.boundlessSetting.Blames (.scalar .text) e := by
  have hcl : Sample.freightSchema.Closed [.scalar .text] := by decide
  have hsound : Sample.boundlessSetting.Sound (.scalar .text) :=
    .of_closed rfl hcl (by decide) (by decide) (by decide)
  have hwhy : (match ((Decoder.ofSource { unread := Sample.announcement }
      Sample.boundlessSetting).decode (.scalar .text)).1 with
    | .error e => e.isFatal
    | .ok _ => false) = true := by decide +kernel
  refine ⟨hsound, ?_⟩
  cases hd : (Decoder.ofSource { unread := Sample.announcement } Sample.boundlessSetting).decode
      (.scalar .text) with
  | mk result D' =>
    rw [hd] at hwhy
    cases result with
    | ok v => cases hwhy
    | error e => exact ⟨e, D', rfl, hwhy, Setting.not_blames_of_isFatal hwhy⟩

end TagWire
