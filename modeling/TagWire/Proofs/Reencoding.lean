import TagWire.Proofs.RoundTrip

/-! What is decoded can be encoded. A decoder takes forms that no encoder writes, but what it gives
always has a form, is carried as it is, and was not read from fewer bytes than it is written in. -/
namespace TagWire

variable {S : Schema} {setting : Setting S} {L : Limits} {t : Shape} {r : Nat}

/-- The exact codecs, without milliseconds in a signed long. -/
def Builtin.Rewritable (b : Builtin) (t : Shape) : Prop :=
  b.Exact ∧ (b = .time → t ≠ .scalar (.int .i64))

instance (b : Builtin) (t : Shape) : Decidable (b.Rewritable t) :=
  inferInstanceAs (Decidable (_ ∧ _))

/-- No tag within the shape names a codec. -/
def Schema.Generic (S : Schema) (t : Shape) : Prop :=
  ∀ r, S.Contains t (.record r) → ∀ (i : Fin (S.arity r)) (d : Descriptor),
    S.descriptor r i = .ok d → d.codec = none

theorem Schema.Generic.part {u : Shape} (h : S.Generic t) (hu : u ∈ S.parts t) : S.Generic u :=
  fun r hr => h r (hr.head hu)

theorem Schema.Generic.of_closed {ts : List Shape} (hc : S.Closed ts) (ht : t ∈ ts)
    (h : ∀ u ∈ ts, ∀ r ∈ u.record?, ∀ i : Fin (S.arity r), ∀ d ∈ (S.descriptor r i).toOption,
      d.codec = none) : S.Generic t := by
  intro r hr i d hd
  refine h _ (hr.mem_of_closed hc ht) r rfl i d ?_
  rw [hd]
  rfl

theorem Schema.Generic.passage_ne (h : S.Generic (.record r)) (i : Fin (S.arity r)) (b : Builtin) :
    setting.passage r i ≠ .through b := by
  unfold Setting.passage
  split
  · exact nofun
  · next d hd =>
    rw [h r Schema.Contains.refl i d hd]
    split <;> exact nofun

namespace Datum

/-- What was read, or left as it was first: it is let in, and the wire carries it as it is. -/
def Settled (setting : Setting S) : Passage → Datum S t → Prop
  | .off, v => v = .initial t
  | .plain, v => v.Within setting ∧ v.carried setting = v
  | .through b, v =>
    (∀ p, v.pointee = .ok p → b.Within setting.options.limits p) ∧ v.recode b.convert = v

theorem settled_record {fields : Fields S r}
    (hs : ∀ i, (fields i).Settled setting (setting.passage r i)) :
    (Datum.record fields).Settled setting .plain := by
  constructor
  · intro i
    have hi := hs i
    split
    · trivial
    · next hp =>
      rw [hp] at hi
      exact hi.1
    · next b hp =>
      rw [hp] at hi
      exact hi.1
  · rw [carried_record]
    refine congrArg _ (funext fun i => ?_)
    have hi := hs i
    cases hp : setting.passage r i with
    | off =>
      rw [hp] at hi
      rw [carriedField_off fields hp, hi]
    | plain =>
      rw [hp] at hi
      rw [carriedField_plain fields hp, hi.2]
    | through b =>
      rw [hp] at hi
      rw [carriedField_through fields hp, hi.2]

theorem settled_ofArray {a : Array (Datum S t)} (hmax : a.size ≤ setting.options.maxItems)
    (hlt : a.size < sizeBound) (ha : ∀ y ∈ a, y.Settled setting .plain) :
    (ofArray a).Settled setting .plain := by
  refine ⟨⟨hmax, hlt, fun i => (ha _ (Array.getElem_mem i.isLt)).1⟩, ?_⟩
  exact congrArg (Datum.sequence a.size) (funext fun i => (ha _ (Array.getElem_mem i.isLt)).2)

end Datum

theorem Builtin.yields_wrap {b : Builtin} (hb : b.Rewritable t.pointee) :
    Yields setting.options.limits (.wrap t <$> b.codec.fresh t.pointee) fun v _ =>
      v.Settled setting (.through b) ∧ ∃ n bs, Emits (b.codec.writeField v) n bs := by
  refine Yields.map ((Builtin.restores_codec hb.1 hb.2).mono ?_)
  rintro p _ ⟨⟨n, bs, hbs⟩, hw, hc⟩
  have hp := Datum.pointee_wrap t p
  refine ⟨⟨fun q hq => ?_, ?_⟩, n, bs, ?_⟩
  · rw [hp] at hq
    cases hq
    exact hw
  · rw [Datum.recode_of_pointee hp, hc]
  · unfold Codec.writeField
    rw [hp]
    exact hbs

theorem yields_items {α : Type} {short : Prop} {good : α → Prop} {f : α → Encoding Unit}
    {x : Decoding α} (hx : Yields L x fun a n => good a ∧
      ∃ bs, Emits (f a) () bs ∧ (short → bs.length ≤ n)) (count : Nat) (done : Array α) :
    Yields L (Attempt.collect x count done : Decoding (Array α)) fun all n =>
      ∃ as, all = done ++ as.toArray ∧ as.length = count ∧ (∀ a ∈ as, good a) ∧
        ∃ bs, Emits (Attempt.forEach f as : Encoding Unit) () bs ∧ (short → bs.length ≤ n) := by
  induction count generalizing done with
  | zero =>
    refine Yields.pure ⟨[], by simp, rfl, by simp, [], ?_, fun _ => Nat.le_refl 0⟩
    exact Emits.pure ()
  | succ count ih =>
    rw [Attempt.collect_succ]
    refine hx.bind ?_
    rintro a n ⟨ha, bs, hbs, hlen⟩
    refine (ih (done.push a)).mono ?_
    rintro all m ⟨as, rfl, rfl, hall, cs, hcs, hlen'⟩
    refine ⟨a :: as, by simp, rfl, ?_, bs ++ cs, ?_, fun hs => ?_⟩
    · simpa using ⟨ha, hall⟩
    · rw [Attempt.forEach_cons]
      exact hbs.bind hcs
    · have := hlen hs
      have := hlen' hs
      rw [List.length_append]
      omega

section Fields

variable (enc : {t : Shape} → Datum S t → Encoding Unit) {dec : {t : Shape} → Overwriting S t}
  (short : Prop) (good : (i : Fin (S.arity r)) → Datum S (S.fieldShape r i) → Prop)
  (hplain : ∀ i, setting.passage r i = .plain → Yields L (Decoding.fresh dec _) fun v n =>
    good i v ∧ ∃ bs, Emits (enc v) () bs ∧ (short → bs.length ≤ n))
  (hthrough : ∀ i b, setting.passage r i = .through b → b.Rewritable (S.fieldShape r i).pointee →
    ¬ short ∧ Yields L (.wrap _ <$> b.codec.fresh _) fun v _ =>
      good i v ∧ ∃ n bs, Emits (b.codec.writeField v) n bs)

include hplain hthrough

theorem yields_field {d : Descriptor} (hd : setting.Faces Builtin.Rewritable r d)
    {old : Fields S r} (hon : ∀ i : Fin (S.arity r), d.index = i → old i = .initial _) :
    Yields L (InPlace.produce (Decoding.field setting dec d) old) fun fields n =>
      ∃ (i : Fin (S.arity r)) (v : Datum S (S.fieldShape r i)), d.index = i ∧
        fields = old.set i v ∧ good i v ∧ ∃ bs, (short → bs.length ≤ n) ∧
          ∀ later : Fields S r, later i = v → Emits (Encoding.field setting enc later d) () bs := by
  cases hd with
  | refused e _ decode =>
    rw [decode]
    exact Yields.fail e
  | plain i hi hp encode decode =>
    rw [decode, hon i hi]
    refine Yields.map ((hplain i hp).mono ?_)
    rintro v n ⟨hv, bs, hbs, hlen⟩
    refine ⟨i, v, hi, rfl, hv, bs, hlen, fun later hl => ?_⟩
    rw [encode, hl]
    exact hbs
  | through i b hi hp hb encode decode =>
    rw [decode]
    obtain ⟨hshort, hyields⟩ := hthrough i b hp hb
    refine (Decoding.yields_read hyields).bind ?_
    rintro v n ⟨hv, k, bs, hbs⟩
    refine Yields.bind (P := fun _ _ => True) ?_ fun _ m _ => Yields.pure ?_
    · exact Yields.update (fun _ => rfl) trivial
    · refine ⟨i, v, hi, rfl, hv, bs, fun h => absurd h hshort, fun later hl => ?_⟩
      rw [encode, hl, ← List.append_nil bs]
      exact (Encoding.emits_write hbs).bind (Encoding.emits_count _)

theorem yields_fields {ds : List Descriptor}
    (hd : ∀ d ∈ ds, setting.Faces Builtin.Rewritable r d) (hn : (ds.map Descriptor.index).Nodup)
    {old : Fields S r} (hon : old.EqOn ds fun _ => .initial _) :
    Yields L (InPlace.produce (Decoding.fieldsInOrder setting dec ds) old) fun fields n =>
      old.EqOff ds fields ∧
      (∀ i : Fin (S.arity r), i.val ∈ ds.map Descriptor.index → good i (fields i)) ∧
      ∃ bs, Emits (Attempt.forEach (Encoding.field setting enc fields) ds : Encoding Unit) () bs ∧
        (short → bs.length ≤ n) := by
  induction ds generalizing old with
  | nil =>
    refine Yields.pure ⟨fun _ _ => rfl, by simp, [], ?_, fun _ => Nat.le_refl 0⟩
    exact Emits.pure ()
  | cons d ds ih =>
    rw [List.map_cons, List.nodup_cons] at hn
    rw [Decoding.produce_fieldsInOrder_cons]
    refine (yields_field enc short good hplain hthrough (hd d List.mem_cons_self)
      fun i => hon.head).bind ?_
    rintro _ n ⟨i, v, hi, rfl, hv, bs, hlen, hbs⟩
    refine (ih (fun d hm => hd d (List.mem_cons_of_mem _ hm)) hn.2 (hon.set hn.1 hi v)).mono ?_
    rintro fields m ⟨hoff, hgood, cs, hcs, hlen'⟩
    -- Later fields leave this one alone, so it is written from the finished record as well.
    obtain ⟨hfi, hoff⟩ := hoff.of_set hn.1 hi
    refine ⟨hoff, fun j hj => ?_, bs ++ cs, ?_, fun hs => ?_⟩
    · rcases List.mem_cons.1 hj with hj | hj
      · have hji : j = i := Fin.ext (hj.trans hi)
        subst hji
        exact hfi ▸ hv
      · exact hgood j hj
    · rw [Attempt.forEach_cons]
      exact (hbs fields hfi).bind hcs
    · have := hlen hs
      have := hlen' hs
      rw [List.length_append]
      omega

end Fields

/-- What is known of a value that was read from `n` bytes: it is settled, and it is written in no
more bytes than that, if it need not go through codecs. -/
def Datum.Restored (setting : Setting S) (enc : Datum S t → Encoding Unit) (short : Prop)
    (y : Datum S t) (n : Nat) : Prop :=
  y.Settled setting .plain ∧ ∃ bs, Emits (enc y) () bs ∧ (short → bs.length ≤ n)

section Bodies

variable {enc : {t : Shape} → Datum S t → Encoding Unit} {dec : {t : Shape} → Overwriting S t}
  {short : Prop}

theorem yields_body_sequence (old : Datum S (.sequence t))
    (hitem : Yields setting.options.limits (Decoding.fresh dec t)
      (Datum.Restored setting enc short)) :
    Yields setting.options.limits (InPlace.produce (Decoding.body setting dec _) old)
      (Datum.Restored setting (Encoding.body setting enc) short) := by
  rw [Decoding.produce_body_sequence]
  refine (Decoding.yields_read Reader.yields_itemCount).bind ?_
  rintro n k ⟨hlt, hmax, hsize⟩
  refine Yields.map ((yields_items hitem n #[]).mono ?_)
  rintro _ m ⟨as, rfl, rfl, has, bs, hbs, hlen⟩
  rw [Array.empty_append]
  refine ⟨?_, Size.encode as.length ++ bs, ?_, fun hs => ?_⟩
  · exact Datum.settled_ofArray hmax hlt (by simpa using has)
  · rw [Encoding.body_items, Datum.items_ofArray]
    exact (Encoding.emits_write (Writer.emits_size _)).bind hbs
  · have := hlen hs
    rw [List.length_append]
    omega

theorem yields_body_record (ho : setting.Overrides Builtin.Rewritable (.record r))
    (hshort : short → S.Generic (.record r))
    (hfield : ∀ u ∈ S.parts (.record r), Yields setting.options.limits (Decoding.fresh dec u)
      (Datum.Restored setting enc short)) :
    Yields setting.options.limits
      (InPlace.produce (Decoding.body setting dec _) (.initial (.record r)))
      (Datum.Restored setting (Encoding.body setting enc) short) := by
  rw [Datum.initial_record, Decoding.produce_body_record]
  refine Yields.lift_bind fun layout hl => Yields.map ?_
  refine (yields_fields enc short (fun i v => v.Settled setting (setting.passage r i))
    (fun i hi => ?_) (fun i b hi hb => ?_) (fun d => ho.faces hl) (S.nodup_layoutAt hl)
    (fun _ _ => rfl)).mono ?_
  · rw [hi]
    exact hfield _ (Schema.fieldShape_mem_parts r i)
  · exact ⟨fun hs => (hshort hs).passage_ne i b hi, hi ▸ Builtin.yields_wrap hb⟩
  · rintro fields n ⟨hoff, hgood, bs, hbs, hlen⟩
    refine ⟨Datum.settled_record fun i => ?_, bs, ?_, hlen⟩
    · by_cases hi : i.val ∈ layout.map Descriptor.index
      · exact hgood i hi
      · rw [Setting.passage_of_not_mem hl hi]
        exact (hoff i hi).symm
    · rw [Encoding.body_record, hl]
      exact hbs

end Bodies

theorem yields_value (levels : Nat) (hp : S.Plain t)
    (ho : setting.Overrides Builtin.Rewritable t) :
    Yields setting.options.limits (Decoding.fresh (Decoding.value setting levels) t)
      (Datum.Restored setting (Encoding.value setting levels) (S.Generic t)) := by
  induction levels generalizing t with
  | zero => exact Yields.fail _
  | succ levels ih =>
    rw [Decoding.fresh, Decoding.produce_value_of_ne hp.ne_custom]
    have hbody : Encoding.value setting (levels + 1) (t := t) =
        Encoding.body setting (Encoding.value setting levels) :=
      funext fun y => Encoding.value_succ setting hp.ne_custom levels y
    rw [hbody]
    -- A part of what names no codec names none, so the bound passes from the whole to its parts.
    have hpart : ∀ u ∈ S.parts t, Yields setting.options.limits
        (Decoding.fresh (Decoding.value setting levels) u)
        (Datum.Restored setting (Encoding.value setting levels) (S.Generic t)) := by
      intro u hu
      refine (ih (hp.part hu) (ho.part hu)).mono ?_
      rintro y n ⟨hy, bs, hbs, hlen⟩
      exact ⟨hy, bs, hbs, fun hg => hlen (hg.part hu)⟩
    cases t with
    | scalar s =>
      rw [Decoding.produce_body_scalar]
      refine Decoding.yields_read (Yields.map (s.yields_read.mono ?_))
      rintro x n ⟨hx, hw, hc, hlen⟩
      refine ⟨⟨hw, congrArg Datum.scalar hc⟩, s.form x, ?_, fun _ => hlen⟩
      rw [Encoding.body_scalar]
      exact (Encoding.emits_write (Scalar.emits_write hx)).map fun _ => ()
    | sequence t => exact yields_body_sequence _ (hpart t (S.mem_parts_sequence t))
    | optional t =>
      rw [Decoding.produce_body_optional]
      refine Yields.map ((hpart t (S.mem_parts_optional t)).mono ?_)
      rintro y n ⟨hy, hbs⟩
      exact ⟨⟨hy.1, congrArg Datum.present hy.2⟩, hbs⟩
    | boxed t =>
      rw [Decoding.produce_body_boxed]
      refine Yields.map ((hpart t (S.mem_parts_boxed t)).mono ?_)
      rintro y n ⟨hy, hbs⟩
      exact ⟨⟨hy.1, congrArg Datum.boxed hy.2⟩, hbs⟩
    | record r => exact yields_body_record ho id hpart
    | custom k => exact absurd rfl (hp.ne_custom k)

/-- Whatever an input in memory is decoded to can be encoded, and is decoded from that just the
same. Without codecs, no input for a value is shorter than its encoding. -/
theorem Setting.encode_of_decode (hp : S.Plain t) (ho : setting.Overrides Builtin.Rewritable t)
    {bytes : List UInt8} {y : Datum S t} {D : Decoder S}
    (hd : (Decoder.ofSource { unread := bytes } setting).decode t = (.ok y, D)) :
    ∃ bs metrics, setting.encode y = .ok bs ∧
      (Decoder.ofSource { unread := bs } setting).decode t =
        (.ok y, .midway setting bs.length [] metrics) ∧
      (S.Generic t → bs.length ≤ D.reader.offset) := by
  obtain ⟨s, hx, hreader, -⟩ := Decoder.produce_of_decode hd
  obtain ⟨_, n, hn, hy, bs, hbs, hlen⟩ := yields_value _ hp ho _ y s rfl hx
  have he := encode_of_emits hbs
  -- What was read is let in and carried as it is, so the way there is the round trip.
  have ht := of_encode (appends_value hp (ho.mono fun _ _ h => h.1) hy.1) he
  rw [hy.2] at ht
  obtain ⟨metrics, _, hdecode⟩ := Decoder.decode_of_takes ht []
  rw [List.append_nil] at hdecode
  refine ⟨bs, metrics, he, hdecode, fun hg => ?_⟩
  have ho : s.reader.offset = n := hn.trans (Nat.zero_add n)
  rw [hreader, ho]
  exact hlen hg

namespace Sample

def wrapperShapes : List Shape :=
  [.record 4, .optional (.boxed (.record 0)), .boxed (.record 0), .record 0, uuid, int .i32, text,
    .sequence (.sequence (int .u8)), .sequence (int .u8), int .u8]

/-- A wrapper whose name is the null and whose count of sequences is padded, and a byte after it. -/
def paddedWrapper : List UInt8 :=
  List.replicate 16 0 ++ [0, 0, 0, 5, 128, 129, 0, 2, 7, 8, 9]

end Sample

theorem Setting.encode_of_decode_padded : ∃ y D bs metrics,
    (Decoder.ofSource { unread := Sample.paddedWrapper } Sample.third).decode (.record 4) =
      (.ok y, D) ∧
    Sample.third.encode y = .ok bs ∧
    (Decoder.ofSource { unread := bs } Sample.third).decode (.record 4) =
      (.ok y, .midway Sample.third bs.length [] metrics) ∧
    bs.length ≤ D.reader.offset := by
  have hc : Sample.schema.Closed Sample.wrapperShapes := by decide +kernel
  have ht : .record 4 ∈ Sample.wrapperShapes := by decide
  have hp : Sample.schema.Plain (.record 4) := .of_closed hc ht (by decide)
  have ho : Sample.third.Overrides Builtin.Rewritable (.record 4) :=
    .of_closed rfl hc ht (by decide +kernel)
  have hg : Sample.schema.Generic (.record 4) := .of_closed hc ht (by decide +kernel)
  have hok : ((Decoder.ofSource { unread := Sample.paddedWrapper } Sample.third).decode
      (.record 4)).1.isOk = true := by decide +kernel
  cases hd : (Decoder.ofSource { unread := Sample.paddedWrapper } Sample.third).decode
      (.record 4) with
  | mk result D =>
    cases result with
    | error e =>
      rw [hd] at hok
      cases hok
    | ok y =>
      obtain ⟨bs, metrics, he, hy, hlen⟩ := Setting.encode_of_decode hp ho hd
      exact ⟨y, D, bs, metrics, rfl, he, hy, hlen hg⟩

end TagWire
