import TagWire.Proofs.Height
import TagWire.Proofs.WholeBuffer

/-! Decoding costs as many levels as encoding. On the bytes of a value a decoder with as many levels
as the value is high succeeds, whatever follows them; with fewer it ends where they run out, in the
error in which the encoder ends. -/
namespace TagWire

open HasReader (reader)

variable {S : Schema} {setting : Setting S} {L : Limits} {t : Shape} {r : Nat}
  {allowed : Builtin → Shape → Prop}

/-- Where `bs` is in front of a source that ends, the step consumes just these bytes for a value if
`p` holds, and ends in the error `e` if not. -/
structure Admits {σ α : Type} [HasReader σ] (L : Limits) (x : Attempt Error σ α) (bs : List UInt8)
    (p : Prop) (e : Error) : Prop where
  accepts : p → ∃ a, Obtains L x bs a
  refuses : ¬ p → ∀ s, (reader s).limits = L → (reader s).Ends → bs <+: (reader s).rest →
    ∃ s', x s = (.error e, s')

namespace Admits

variable {σ α β : Type} [HasReader σ] {x : Attempt Error σ α} {f : α → Attempt Error σ β}
  {bs cs : List UInt8} {a : α} {p q : Prop} {e : Error}

theorem of_obtains (h : Obtains L x bs a) (hp : p) : Admits L x bs p e :=
  ⟨fun _ => ⟨a, h⟩, fun hn => absurd hp hn⟩

theorem fail (h : ¬ p) : Admits L (.fail e : Attempt Error σ α) bs p e :=
  ⟨fun hp => absurd hp h, fun _ s _ _ _ => ⟨s, rfl⟩⟩

theorem congr (hpq : p ↔ q) (h : Admits L x bs p e) : Admits L x bs q e := by
  rwa [← propext hpq]

theorem after (hx : Obtains L x bs a) (hf : Admits L (f a) cs q e) :
    Admits L (x >>= f) (bs ++ cs) q e := by
  constructor
  · intro hq
    obtain ⟨b, hb⟩ := hf.accepts hq
    exact ⟨b, hx.bind hb⟩
  · intro hn s hl he hb
    have hs := he.starts hb
    obtain ⟨s₁, h₁, hal⟩ := hx s hl he hs.left.front
    rw [Attempt.bind_ok h₁]
    exact hf.refuses hn s₁ (hal.limits.trans hl) hal.ends (hal.rest ▸ hs.right.front)

theorem bind (hx : Admits L x bs p e) (hf : ∀ a, Admits L (f a) cs q e) :
    Admits L (x >>= f) (bs ++ cs) (p ∧ q) e := by
  by_cases hp : p
  · obtain ⟨a, ha⟩ := hx.accepts hp
    exact (after ha (hf a)).congr (and_iff_right hp).symm
  · refine ⟨fun h => absurd h.1 hp, fun _ s hl he hb => ?_⟩
    obtain ⟨s₁, h₁⟩ := hx.refuses hp s hl he (he.starts hb).left.front
    exact ⟨s₁, Attempt.bind_error h₁⟩

theorem map (g : α → β) (hx : Admits L x bs p e) : Admits L (g <$> x) bs p e := by
  have hg : ∀ a, Admits L (pure (g a) : Attempt Error σ β) [] True e := fun a =>
    of_obtains (.of_takes (Takes.pure (g a))) trivial
  have h := hx.bind hg
  rw [List.append_nil] at h
  exact h.congr (and_iff_left trivial)

end Admits

/-! ### Parts that are leaves -/

theorem Datum.exists_putDouble? {d : Datum S t} {x : UInt64} (h : d.double? = some x)
    (y : UInt64) : ∃ d' : Datum S t, putDouble? y (.initial t) = some d' := by
  cases d with
  | @scalar s z =>
    cases s with
    | float32 | float64 => exact ⟨_, rfl⟩
    | _ => cases h
  | _ => cases h

theorem Codec.exists_carries_float {name : String} {write : UInt64 → Writing Nat}
    {read : Reading UInt64}
    (h : ∀ x, ∃ y, Appends (write x) fun _ bs => Takes L read bs y) (d : Datum S t) :
    ∃ d', (float name write read).Carries L d d' := by
  cases hf : d.double? with
  | none =>
    refine ⟨d, carries_ofViews fun x hx => ?_⟩
    rw [hf] at hx
    cases hx
  | some x =>
    obtain ⟨y, hy⟩ := h x
    obtain ⟨d', hd'⟩ := Datum.exists_putDouble? hf y
    refine ⟨d', carries_ofViews fun z hz => ?_⟩
    obtain rfl : x = z := Option.some.inj (hf.symm.trans hz)
    exact ⟨y, hy, hd'⟩

theorem Builtin.exists_carries {b : Builtin} {d : Datum S t} (h : b.Within L d) :
    ∃ d', b.codec.Carries L d d' := by
  by_cases hb : b.Exact
  · exact ⟨_, carries_codec hb h⟩
  · cases b with
    | float =>
      refine Codec.exists_carries_float (fun x => ⟨Float.widen (Float.narrow x), ?_⟩) d
      exact (Writer.emits_float32 _).appends ((Reader.takes_float32 _).map Float.widen)
    | double =>
      refine Codec.exists_carries_float (fun x => ⟨x, ?_⟩) d
      exact (Writer.emits_float64 x).appends (Reader.takes_float64 x)
    | _ => exact absurd ⟨nofun, nofun⟩ hb

theorem Builtin.exists_takes_field {b : Builtin} {d : Datum S t}
    (h : ∀ p, d.pointee = .ok p → b.Within L p) :
    Appends (b.codec.writeField d) fun _ bs =>
      ∃ v : Datum S t, Takes L (Datum.wrap t <$> b.codec.fresh t.pointee) bs v := by
  refine Appends.lift_bind fun p hp => ?_
  obtain ⟨d', hd'⟩ := b.exists_carries (h p hp)
  exact hd'.mono fun _ bs hbs => ⟨_, hbs.map _⟩

def Custom.read (C : Custom) (version : Int) : Reading C.Carrier :=
  match C.unmarshal with
  | .stream step => InPlace.produce (step version) C.initial
  | .whole take => InPlace.produce (Reader.remaining "unmarshal" (take version)) C.initial

/-- Just the bytes that are written of the value are read for one, whatever follows them. -/
def Custom.ReadsBack (C : Custom) (L : Limits) (version : Int) (w : C.Carrier) : Prop :=
  Appends (C.marshal w version) fun _ bs => ∃ v, Obtains L (C.read version) bs v

theorem Custom.Delimits.readsBack {C : Custom} {version : Int} {P : C.Carrier → Prop}
    (h : C.Delimits version P) {w : C.Carrier} (hw : P w) : C.ReadsBack L version w := by
  obtain ⟨take, hu, hlaw⟩ := h
  refine (hlaw w hw).mono fun _ bs ht => ⟨w, ?_⟩
  unfold Custom.read
  rw [hu]
  exact Reader.obtains_remaining "unmarshal" ht

theorem Decoding.fresh_body_custom (nested : {t : Shape} → Overwriting S t) (k : Nat) :
    InPlace.produce (body setting nested (.custom k)) (.initial (.custom k)) =
      Datum.custom <$> read ((S.custom k).read setting.options.version) := by
  change InPlace.produce _ (Datum.custom (S.custom k).initial) = _
  unfold Custom.read
  cases hu : (S.custom k).unmarshal with
  | stream step =>
    rw [produce_body_custom hu]
    exact read_bind _ _
  | whole take => exact produce_body_whole hu _

theorem Decoding.body_withMaxDepth (n : Nat) (nested : {t : Shape} → Overwriting S t)
    (t : Shape) : body (setting.withMaxDepth n) nested t = body setting nested t := by
  apply body_congr
  · rfl
  · rfl

/-! ### Values -/

variable {enc : {t : Shape} → Datum S t → Encoding Unit} {dec : {t : Shape} → Overwriting S t}
  {e : Error} {levels : Nat}

theorem admits_items {α β : Type} {f : α → Encoding Unit} {x : Decoding β} {P : α → Prop}
    (as : List α) (h : ∀ a ∈ as, Appends (f a) fun _ bs => Admits L x bs (P a) e) :
    Appends (Attempt.forEach f as : Encoding Unit) fun _ bs => ∀ done,
      Admits L (Attempt.collect x as.length done : Decoding (Array β)) bs (∀ a ∈ as, P a) e := by
  induction as with
  | nil =>
    refine (Emits.pure ()).appends fun done => ?_
    exact .of_obtains (.of_takes (Takes.pure done)) nofun
  | cons a as ih =>
    rw [Attempt.forEach_cons]
    refine (h a List.mem_cons_self).bind fun _ bs hb => ?_
    refine (ih fun a ha => h a (List.mem_cons_of_mem _ ha)).mono fun _ cs hc done => ?_
    rw [List.length_cons, Attempt.collect_succ]
    exact (hb.bind fun b => hc (done.push b)).congr List.forall_mem_cons.symm

/-- The fields of a record one after the other. Fields whose turn is still to come have their first
value. -/
theorem admits_fields {fields : Fields S r}
    (hplain : ∀ i, setting.passage r i = .plain → Appends (enc (fields i)) fun _ bs =>
      Admits L (Decoding.fresh dec (S.fieldShape r i)) bs
        ((fields i).height setting.options.version ≤ levels) e)
    (hthrough : ∀ i b, setting.passage r i = .through b →
      Appends (b.codec.writeField (fields i)) fun _ bs => ∃ v : Datum S (S.fieldShape r i),
        Takes L (Datum.wrap _ <$> b.codec.fresh (S.fieldShape r i).pointee) bs v)
    {ds : List Descriptor} (hd : ∀ d ∈ ds, setting.Faces allowed r d)
    (hn : (ds.map Descriptor.index).Nodup) :
    Appends (Attempt.forEach (Encoding.field setting enc fields) ds : Encoding Unit) fun _ bs =>
      ∀ old : Fields S r, old.EqOn ds (fun _ => .initial _) →
        Admits L (InPlace.produce (Decoding.fieldsInOrder setting dec ds) old) bs
          (∀ d ∈ ds, d.Shallow setting.options.version levels fields) e := by
  induction ds with
  | nil =>
    refine (Emits.pure ()).appends fun old _ => ?_
    exact .of_obtains (.of_takes (Takes.pure old)) nofun
  | cons d ds ih =>
    rw [List.map_cons, List.nodup_cons] at hn
    have ih := ih (fun d hm => hd d (List.mem_cons_of_mem _ hm)) hn.2
    rw [Attempt.forEach_cons]
    cases hd d List.mem_cons_self with
    | refused e' encode _ =>
      rw [encode]
      exact Appends.bind (P := fun _ _ => False) (Appends.fail e') fun _ _ h => h.elim
    | plain i hi hp encode decode =>
      rw [encode]
      refine (hplain i hp).bind fun _ bs hb => ih.mono fun _ cs hc old hon => ?_
      rw [Decoding.produce_fieldsInOrder_cons, decode, hon.head hi, List.forall_mem_cons,
        Descriptor.shallow_iff hi hp, bind_map_left]
      exact hb.bind fun v => hc (old.set i v) (hon.set hn.1 hi v)
    | through i b hi hp hb encode decode =>
      rw [encode]
      have hfield : Appends (do
          let _ ← Encoding.write (b.codec.writeField (fields i))
          Encoding.count Metrics.overridden) fun _ bs => ∃ v : Datum S (S.fieldShape r i),
          Takes L (Decoding.read (Datum.wrap _ <$> b.codec.fresh _)) bs v :=
        (Encoding.appends_write (hthrough i b hp)).bind fun _ bs hb =>
          Encoding.appends_count _ (by
            rw [List.append_nil]
            exact hb.imp fun v hv => Decoding.takes_read hv)
      refine hfield.bind fun _ bs hb => ih.mono fun _ cs hc old hon => ?_
      obtain ⟨v, hv⟩ := hb
      have htakes : Takes L (do
          let v ← Decoding.read (Datum.wrap _ <$> b.codec.fresh _)
          Decoding.count Metrics.overridden
          return old.set i v) bs (old.set i v) :=
        hv.bind_nil ((Decoding.takes_count _).bind (Takes.pure _))
      rw [Decoding.produce_fieldsInOrder_cons, decode, List.forall_mem_cons]
      have hrest := Admits.after (.of_takes htakes) (hc (old.set i v) (hon.set hn.1 hi v))
      exact hrest.congr (and_iff_right (Descriptor.shallow_of_through hi hp)).symm

theorem admits_body_sequence {n : Nat} {item : Fin n → Datum S t}
    (hw : (Datum.sequence n item).Within setting)
    (h : ∀ i, Appends (enc (item i)) fun _ bs =>
      Admits setting.options.limits (Decoding.fresh dec t) bs
        ((item i).height setting.options.version ≤ levels) e) :
    Appends (Encoding.body setting enc (.sequence n item)) fun _ bs =>
      Admits setting.options.limits
        (InPlace.produce (Decoding.body setting dec _) (.initial (.sequence t))) bs
        ((Datum.sequence n item).height setting.options.version ≤ levels + 1) e := by
  rw [Encoding.body_sequence, Decoding.produce_body_sequence]
  apply Appends.after (Encoding.emits_write (Writer.emits_size n))
  have hitem : ∀ d ∈ List.ofFn item, Appends (enc d) fun _ bs =>
      Admits setting.options.limits (Decoding.fresh dec t) bs
        (d.height setting.options.version ≤ levels) e := by
    intro d hd
    obtain ⟨i, rfl⟩ := List.mem_ofFn.1 hd
    exact h i
  refine (admits_items (List.ofFn item) hitem).mono fun _ bs hbs => ?_
  have hcount : Takes setting.options.limits (Decoding.read Reader.itemCount) _ n :=
    Decoding.takes_read (Reader.takes_itemCount hw.2.1 hw.1)
  apply Admits.after (.of_takes hcount)
  have hall := (hbs #[]).map Datum.ofArray
  rw [List.length_ofFn] at hall
  exact hall.congr Datum.height_sequence_le_iff.symm

theorem admits_body_record {fields : Fields S r} (ho : setting.Overrides allowed (.record r))
    (hw : (Datum.record fields).Within setting)
    (h : ∀ i, setting.passage r i = .plain → Appends (enc (fields i)) fun _ bs =>
      Admits setting.options.limits (Decoding.fresh dec (S.fieldShape r i)) bs
        ((fields i).height setting.options.version ≤ levels) e) :
    Appends (Encoding.body setting enc (.record fields)) fun _ bs =>
      Admits setting.options.limits
        (InPlace.produce (Decoding.body setting dec _) (.initial (.record r))) bs
        ((Datum.record fields).height setting.options.version ≤ levels + 1) e := by
  rw [Encoding.body_record, Datum.initial_record, Decoding.produce_body_record]
  refine Appends.lift_bind fun layout hl => ?_
  have hthrough := fun i b (hi : setting.passage r i = .through b) =>
    b.exists_takes_field fun p => hw.through hi (p := p)
  refine (admits_fields h hthrough (fun d => ho.faces hl) (S.nodup_layoutAt hl)).mono
    fun _ bs hbs => ?_
  rw [hl]
  have hall := (hbs _ fun _ _ => rfl).map Datum.record
  exact hall.congr (Datum.height_record_le_iff_shallow hl).symm

theorem admits_value {n₀ levels₀ : Nat} (ho : setting.Overrides allowed t) {d : Datum S t}
    (hall : d.All fun k w =>
      (S.custom k).ReadsBack setting.options.limits setting.options.version w)
    (hw : d.Within setting) (n levels : Nat) :
    Appends (Encoding.value (setting.withMaxDepth n₀) levels₀ d) fun _ bs =>
      Admits setting.options.limits
        (Decoding.fresh (Decoding.value (setting.withMaxDepth n) levels) t) bs
        (d.height setting.options.version ≤ levels) (.depthExceeded n) := by
  induction levels₀ generalizing t levels with
  | zero => exact Appends.fail _
  | succ levels₀ ih =>
    suffices h : ∀ levels, Appends (Encoding.value (setting.withMaxDepth n₀) (levels₀ + 1) d)
        fun _ bs => Admits setting.options.limits
          (Decoding.fresh (Decoding.value (setting.withMaxDepth n) (levels + 1)) t) bs
          (d.height setting.options.version ≤ levels + 1) (.depthExceeded n) by
      cases levels with
      | zero => exact (h 0).mono fun _ _ _ => .fail (Nat.not_le.2 d.height_pos)
      | succ levels => exact h levels
    intro levels
    have hpart := fun (u : Shape) (hu : u ∈ S.parts t) (d : Datum S u) hall hw =>
      ih (ho.part hu) (d := d) hall hw levels
    rw [Encoding.value_withMaxDepth_succ, Decoding.fresh, Decoding.produce_value_succ,
      Decoding.body_withMaxDepth]
    apply Appends.after (Encoding.emits_announce t)
    refine Appends.mono (P := fun _ bs => Admits setting.options.limits
      (InPlace.produce (Decoding.body setting
        (Decoding.value (setting.withMaxDepth n) levels) t) (.initial t)) bs
      (d.height setting.options.version ≤ levels + 1) (.depthExceeded n)) ?_
      fun _ _ h => .after (.of_takes (Decoding.takes_announce t)) h
    have hleaf : 1 ≤ levels + 1 := Nat.le_add_left 1 levels
    cases d with
    | @scalar s x =>
      rw [Encoding.body_scalar, Decoding.produce_body_scalar]
      refine (Encoding.appends_write Scalar.appends_write).bind fun _ bs h => ?_
      apply (Emits.pure ()).appends
      rw [List.append_nil, h.2]
      have htakes := (Scalar.takes_read h.1 hw).map (Datum.scalar (S := S))
      exact .of_obtains (.of_takes (Decoding.takes_read htakes)) hleaf
    | @sequence t m item =>
      exact admits_body_sequence hw fun i =>
        hpart t (S.mem_parts_sequence t) (item i) (hall i) (hw.2.2 i)
    | absent => exact Appends.fail _
    | @present t d =>
      rw [Decoding.produce_body_optional]
      refine (hpart t (S.mem_parts_optional t) d hall hw).mono fun _ bs h => ?_
      exact (h.map Datum.present).congr Datum.height_present_le_iff.symm
    | @boxed t d =>
      rw [Decoding.produce_body_boxed]
      refine (hpart t (S.mem_parts_boxed t) d hall hw).mono fun _ bs h => ?_
      exact (h.map Datum.boxed).congr Datum.height_boxed_le_iff.symm
    | @record r fields =>
      exact admits_body_record ho hw fun i hi =>
        hpart _ (Schema.fieldShape_mem_parts r i) (fields i) (hall i) (hw.plain hi)
    | @custom k x =>
      rw [Decoding.fresh_body_custom]
      refine (Encoding.appends_write hall).bind fun _ bs h => ?_
      apply (Emits.pure ()).appends
      obtain ⟨v, hv⟩ := h
      rw [List.append_nil]
      have hread : Obtains setting.options.limits (Decoding.read _) bs v :=
        .of_runs (Decoding.runs_read _) hv
      exact (Admits.of_obtains hread hleaf).map _

/-- Encoder and decoder charge a value alike, and just its height. With as many levels as this any
encoder writes the bytes that some number of levels gives, and a decoder reads a value from them and
consumes nothing else, whatever follows and wherever its input is kept; with fewer levels both end
in the error that names their number. -/
theorem Setting.height_decides (ho : setting.Overrides (fun _ _ => True) t) {x : Datum S t}
    (hx : x.All fun k w =>
      (S.custom k).ReadsBack setting.options.limits setting.options.version w)
    (hw : x.Within setting) {n₀ : Nat} {bs : List UInt8}
    (he : (setting.withMaxDepth n₀).encode x = .ok bs) (n : Nat) :
    (x.height setting.options.version ≤ n →
      (setting.withMaxDepth n).encode x = .ok bs ∧
      ∀ (rest : List UInt8) (D : Decoder S), D.Before (setting.withMaxDepth n) (bs ++ rest) →
        ∃ (v : Datum S t) (D' : Decoder S), D.decode t = (.ok v, D') ∧
          D.decodeInto (.initial t) = ((.ok bs.length, v), D') ∧
          D'.Before (setting.withMaxDepth n) rest) ∧
    (n < x.height setting.options.version →
      (setting.withMaxDepth n).encode x = .error (.depthExceeded n) ∧
      ∀ (rest : List UInt8) (D : Decoder S), D.Before (setting.withMaxDepth n) (bs ++ rest) →
        ∃ D' : Decoder S, D.decode t = (.error (.depthExceeded n), D')) := by
  have hencode := encode_withMaxDepth ho he n
  obtain ⟨haccepts, hrefuses⟩ := of_encode (admits_value ho hx hw n n) he
  constructor
  · intro hn
    rw [hencode, if_pos hn]
    refine ⟨rfl, fun rest D hD => ?_⟩
    obtain ⟨v, hv⟩ := haccepts hn
    obtain ⟨D', hinto, hdecode, -, hD'⟩ := hD.decode_of_obtains hv
    exact ⟨v, D', hdecode, hinto, hD'⟩
  · intro hn
    have hlow := Nat.not_le.2 hn
    rw [hencode, if_neg hlow]
    refine ⟨rfl, fun rest D hD => ?_⟩
    have hfront : bs <+: D.reader.rest := ⟨rest, hD.rest_eq.symm⟩
    obtain ⟨s, hs⟩ := hrefuses hlow ⟨D.reader, D.metrics⟩ hD.limits_eq hD.ends hfront
    have hx : D.produce (.initial t) ⟨D.reader, D.metrics⟩ = (.error (.depthExceeded n), s) := by
      rw [Decoder.produce, hD.setting_eq]
      exact hs
    exact ⟨_, Decoder.decode_of_error hx⟩

namespace Sample

def shelf : RecordType := recordType "Shelf" [
  ⟨"chain", .optional (.boxed (.record 15)), ",1"⟩, ⟨"limit", .optional (int .i64), "int,2"⟩,
  ⟨"blobs", .sequence blob, ",3"⟩, ⟨"speed", float64, "float,4"⟩]

def shelfSchema : TagWire.Schema := schemaWith shelf (by decide)

def shelfShapes : List Shape :=
  [.record spare, .optional (.boxed (.record 15)), .boxed (.record 15), .record 15, int .u8,
    .optional (int .i64), int .i64, .sequence blob, blob, float64]

def shelfSetting : Setting shelfSchema := ⟨.atVersion 0, .builtins⟩

/-- Its successor is not on the wire at version 0. -/
def link : Fields shelfSchema 15
  | ⟨0, _⟩ => .scalar (IntKind.u8.wrap 7)
  | ⟨1, _⟩ => .absent

def stocked : Datum shelfSchema (.record spare) := .record fun
  | ⟨0, _⟩ => .present (.boxed (.record link))
  | ⟨1, _⟩ => .present (.scalar (IntKind.i64.wrap 9))
  | ⟨2, _⟩ => .sequence 1 fun _ => .custom (k := 1) (⟨[5, 6]⟩ : Blob)
  | ⟨3, _⟩ => .scalar (0 : UInt64)

def stockedBytes : List UInt8 := [7, 0, 0, 0, 9, 1, 2, 5, 6, 0, 0, 0, 0]

end Sample

theorem Setting.height_decides_stocked : Sample.stocked.height 0 = 5 ∧
    (Sample.shelfSetting.withMaxDepth 5).encode Sample.stocked = .ok Sample.stockedBytes ∧
    (∃ v D', (Decoder.ofSource { unread := Sample.stockedBytes }
      (Sample.shelfSetting.withMaxDepth 5)).decode (.record Sample.spare) = (.ok v, D')) ∧
    (Sample.shelfSetting.withMaxDepth 4).encode Sample.stocked = .error (.depthExceeded 4) ∧
    ∃ D', (Decoder.ofSource { unread := Sample.stockedBytes }
      (Sample.shelfSetting.withMaxDepth 4)).decode (.record Sample.spare) =
        (.error (.depthExceeded 4), D') := by
  have hcl : Sample.shelfSchema.Closed Sample.shelfShapes := by decide +kernel
  have ht : .record Sample.spare ∈ Sample.shelfShapes := by decide
  have ho : Sample.shelfSetting.Overrides (fun _ _ => True) (.record Sample.spare) :=
    .of_closed rfl hcl ht fun _ _ _ _ _ _ _ => trivial
  have hall : Sample.stocked.All fun k w => (Sample.shelfSchema.custom k).ReadsBack
      Sample.shelfSetting.options.limits Sample.shelfSetting.options.version w := fun
    | ⟨0, _⟩ => fun
      | ⟨0, _⟩ | ⟨1, _⟩ => trivial
    | ⟨1, _⟩ | ⟨3, _⟩ => trivial
    | ⟨2, _⟩ => fun _ => (Sample.Blob.delimits 0).readsBack (show 2 ≤ 255 by decide)
  have hw : Sample.stocked.Within Sample.shelfSetting := by decide +kernel
  have he : (Sample.shelfSetting.withMaxDepth 64).encode Sample.stocked =
      .ok Sample.stockedBytes := encode_of_toOption (by decide +kernel)
  have hheight : Sample.stocked.height 0 = 5 := by decide +kernel
  have hD : ∀ n, (Decoder.ofSource { unread := Sample.stockedBytes }
      (Sample.shelfSetting.withMaxDepth n)).Before (Sample.shelfSetting.withMaxDepth n)
        (Sample.stockedBytes ++ []) := fun n => ⟨rfl, rfl, ⟨nofun, rfl⟩, rfl⟩
  obtain ⟨hfive, hread⟩ := (height_decides ho hall hw he 5).1 (Nat.le_of_eq hheight)
  obtain ⟨hfour, hrefuse⟩ := (height_decides ho hall hw he 4).2 (by
    rw [show Sample.shelfSetting.options.version = 0 from rfl, hheight]
    decide)
  obtain ⟨v, D', hv, -, -⟩ := hread [] _ (hD 5)
  exact ⟨hheight, hfive, ⟨v, D', hv⟩, hfour, hrefuse [] _ (hD 4)⟩

end TagWire
