import TagWire.Proofs.Height
import TagWire.Proofs.Session
import TagWire.Sample.Schema

/-! Shapes without an end. Where a value of a shape always has one of the same kind within it on the
wire, what is within it has one again: an encoder comes to a value that is absent or runs out of
levels, and a decoder, to which the shape alone says what comes next, runs out of levels if not of
input. A record linked to itself through an optional indirection is of this kind. -/
namespace TagWire

variable {S : Schema} {setting : Setting S} {version : Int} {t u : Shape} {r : Nat}

def Fails {σ α : Type} (x : Attempt Error σ α) : Prop := ∀ s, ∃ e s', x s = (.error e, s')

namespace Fails

variable {σ α β : Type} {x : Attempt Error σ α} {f : α → Attempt Error σ β}

theorem fail (e : Error) : Fails (.fail e : Attempt Error σ α) := fun s => ⟨e, s, rfl⟩

theorem bind (hx : Fails x) : Fails (x >>= f) := by
  intro s
  obtain ⟨e, s', hs⟩ := hx s
  exact ⟨e, s', Attempt.bind_error hs⟩

theorem after (x : Attempt Error σ α) (hf : ∀ a, Fails (f a)) : Fails (x >>= f) := by
  intro s
  rcases hx : x s with ⟨e | a, s'⟩
  · exact ⟨e, s', Attempt.bind_error hx⟩
  · rw [Attempt.bind_ok hx]
    exact hf a s'

theorem map (g : α → β) (hx : Fails x) : Fails (g <$> x) := hx.bind

theorem lift_bind {result : Except Error α} (hf : ∀ a, result = .ok a → Fails (f a)) :
    Fails (Attempt.lift result >>= f) := by
  cases result with
  | error e => exact (fail e).bind
  | ok a => exact hf a rfl

theorem forEach {f : α → Attempt Error σ Unit} {as : List α} {a : α} (ha : a ∈ as)
    (hf : Fails (f a)) : Fails (Attempt.forEach f as : Attempt Error σ Unit) := by
  induction as with
  | nil => cases ha
  | cons b as ih =>
    rw [Attempt.forEach_cons]
    rcases List.mem_cons.1 ha with rfl | ha
    · exact hf.bind
    · exact after _ fun _ => ih ha

end Fails

namespace Schema

/-- Every value of the first shape that is on the wire at a version has one of the second on the
wire within it. -/
inductive Forces (S : Schema) (version : Int) : Shape → Shape → Prop
  | optional (t : Shape) : S.Forces version (.optional t) t
  | boxed (t : Shape) : S.Forces version (.boxed t) t
  | field {r : Nat} (i : Fin (S.arity r)) (plain : S.isPlainAt version r i = true) :
      S.Forces version (.record r) (S.fieldShape r i)

/-- Among these shapes each forces another one of them. -/
def Endless (S : Schema) (version : Int) (shapes : Shape → Prop) : Prop :=
  ∀ t, shapes t → ∃ u, S.Forces version t u ∧ shapes u

theorem Forces.ne_custom (h : S.Forces version t u) (k : Nat) : t ≠ .custom k := by
  rintro rfl
  cases h

theorem mem_layoutAt_of_isPlainAt {layout : List Descriptor}
    (hl : (S.record r).layoutAt version = .ok layout) {i : Fin (S.arity r)}
    (h : S.isPlainAt version r i = true) :
    ∃ d ∈ layout, d.index = i ∧ d.codec = none := by
  unfold isPlainAt at h
  split at h
  · next d hd =>
    rw [Bool.and_eq_true, Option.isNone_iff_eq_none] at h
    obtain ⟨hm, hi⟩ := (S.mem_layoutAt hl i d).2 ⟨hd, h.1⟩
    exact ⟨d, hm, hi, h.2⟩
  · cases h

end Schema

/-- One level: what no value of the forced shape gets through, none of the forcing one does. -/
theorem Encoding.fails_body {nested : {t : Shape} → Datum S t → Encoding Unit}
    (h : S.Forces setting.options.version t u) (hu : ∀ d : Datum S u, Fails (nested d))
    (d : Datum S t) : Fails (body setting nested d) := by
  cases h with
  | optional =>
    cases d with
    | absent => exact Fails.fail _
    | present d => exact hu d
  | boxed =>
    cases d with
    | boxed d => exact hu d
  | @field r i hplain =>
    cases d with
    | record fields =>
      rw [body_record]
      refine Fails.lift_bind fun layout hl => ?_
      obtain ⟨d, hd, hi, hc⟩ := Schema.mem_layoutAt_of_isPlainAt hl hplain
      apply Fails.forEach hd
      rw [field_eq_fieldValue hi, hc]
      exact hu (fields i)

namespace Decoding

variable {nested : {t : Shape} → Overwriting S t}

theorem fails_fieldsInOrder {ds : List Descriptor} {d : Descriptor} (hd : d ∈ ds)
    {i : Fin (S.arity r)} (hi : d.index = i) (hc : d.codec = none)
    (h : ∀ v, Fails (InPlace.produce nested (v : Datum S (S.fieldShape r i))))
    (fields : Fields S r) :
    Fails (InPlace.produce (fieldsInOrder setting nested ds) fields) := by
  induction ds generalizing fields with
  | nil => cases hd
  | cons d' ds ih =>
    rw [produce_fieldsInOrder_cons]
    rcases List.mem_cons.1 hd with rfl | hd
    · have hlt : d.index < S.arity r := hi ▸ i.isLt
      obtain rfl : i = ⟨d.index, hlt⟩ := Fin.ext hi.symm
      rw [produce_field_plain hc hlt]
      exact ((h _).map _).bind
    · exact Fails.after _ fun fields => ih hd fields

theorem fails_body (h : S.Forces setting.options.version t u)
    (hu : ∀ d : Datum S u, Fails (InPlace.produce nested d)) (d : Datum S t) :
    Fails (InPlace.produce (body setting nested t) d) := by
  cases h with
  | optional =>
    rw [produce_body_optional]
    exact (hu _).map _
  | boxed =>
    rw [produce_body_boxed]
    exact (hu _).map _
  | @field r i hplain =>
    cases d with
    | record fields =>
      rw [produce_body_record]
      refine Fails.lift_bind fun layout hl => Fails.map _ ?_
      obtain ⟨d, hd, hi, hc⟩ := Schema.mem_layoutAt_of_isPlainAt hl hplain
      exact fails_fieldsInOrder hd hi hc hu fields

end Decoding

namespace Schema.Endless

variable {shapes : Shape → Prop} (h : S.Endless setting.options.version shapes)

include h

/-- The induction is on the levels, not on the value: a finite one comes to an end no better. -/
theorem fails_encode (levels : Nat) (ht : shapes t) (d : Datum S t) :
    Fails (Encoding.value setting levels d) := by
  induction levels generalizing t with
  | zero => exact Fails.fail _
  | succ levels ih =>
    obtain ⟨u, hforces, hu⟩ := h t ht
    rw [Encoding.value_succ setting hforces.ne_custom]
    exact Encoding.fails_body hforces (fun d => ih hu d) d

theorem fails_decode (levels : Nat) (ht : shapes t) (d : Datum S t) :
    Fails (InPlace.produce (Decoding.value setting levels) d) := by
  induction levels generalizing t with
  | zero => exact Fails.fail _
  | succ levels ih =>
    obtain ⟨u, hforces, hu⟩ := h t ht
    rw [Decoding.produce_value_of_ne hforces.ne_custom]
    exact Decoding.fails_body hforces (fun d => ih hu d) d

end Schema.Endless

theorem Encoder.error_of_fails {E : Encoder S} {d : Datum S t}
    (h : Fails (Encoding.value E.setting E.setting.options.maxDepth d)) :
    ∃ e E', E.encode d = (.error e, E') := by
  obtain ⟨e, s, hs⟩ := h ⟨E.writer, E.metrics⟩
  exact ⟨e, _, encode_of_error hs⟩

theorem Decoder.error_of_fails {D : Decoder S}
    (h : ∀ d : Datum S t, Fails (D.produce d)) :
    (∃ e D', D.decode t = (.error e, D')) ∧
      ∀ target : Datum S t, ∃ e half D', D.decodeInto target = ((.error e, half), D') := by
  constructor
  · obtain ⟨e, s, hs⟩ := h (.initial t) ⟨D.reader, D.metrics⟩
    exact ⟨e, _, decode_of_error hs⟩
  · intro target
    obtain ⟨e, s, hs⟩ := h target ⟨D.reader, D.metrics⟩
    obtain ⟨half, hd⟩ := decodeInto_of_error hs
    exact ⟨e, half, _, hd⟩

def Schema.links (r : Nat) (t : Shape) : Prop :=
  t = .record r ∨ t = .optional (.boxed (.record r)) ∨ t = .boxed (.record r)

theorem Schema.endless_links {i : Fin (S.arity r)}
    (hlink : S.fieldShape r i = .optional (.boxed (.record r)))
    (hplain : S.isPlainAt version r i = true) : S.Endless version (links r) := by
  rintro t (rfl | rfl | rfl)
  · exact ⟨_, .field i hplain, .inr (.inl hlink)⟩
  · exact ⟨_, .optional _, .inr (.inr rfl)⟩
  · exact ⟨_, .boxed _, .inl rfl⟩

/-- A list linked through an optional indirection never crosses the wire. If at the version a record
has a field, in its generic form, for another of the record behind an optional indirection, then no
value of the record is encoded and none is decoded, in place or afresh, from whatever is left of
whatever source. -/
theorem Schema.linked_never_crosses {i : Fin (S.arity r)} {d : Descriptor}
    (hlink : S.fieldShape r i = .optional (.boxed (.record r))) (hd : S.descriptor r i = .ok d)
    (hcodec : d.codec = none) (hkept : d.ignored = false)
    (hversion : d.minVersion ≤ setting.options.version) :
    (∀ E : Encoder S, E.setting = setting → ∀ x : Datum S (.record r),
      ∃ e E', E.encode x = (.error e, E')) ∧
    ∀ D : Decoder S, D.setting = setting →
      (∃ e D', D.decode (.record r) = (.error e, D')) ∧
      ∀ target : Datum S (.record r), ∃ e half D',
        D.decodeInto target = ((.error e, half), D') := by
  have hplain : S.isPlainAt setting.options.version r i = true := by
    simp [isPlainAt, hd, Descriptor.isPresent, hcodec, hkept, hversion]
  have hends := endless_links hlink hplain
  have hr : links r (.record r) := .inl rfl
  constructor
  · rintro E rfl x
    exact Encoder.error_of_fails (hends.fails_encode _ hr x)
  · rintro D rfl
    exact Decoder.error_of_fails fun target => hends.fails_decode _ hr target

namespace Sample

def linkTag : Descriptor where
  number := 2
  ignored := false
  minVersion := 1
  codec := none
  index := 1

def chain : Nat → Datum schema (.record 15)
  | 0 => .record fun
    | ⟨0, _⟩ => .scalar (IntKind.u8.wrap 0)
    | ⟨1, _⟩ => .absent
  | n + 1 => .record fun
    | ⟨0, _⟩ => .scalar (IntKind.u8.wrap (n + 1))
    | ⟨1, _⟩ => .present (.boxed (chain n))

end Sample

theorem Schema.linked_never_crosses_chain :
    (∃ e E', Encoder.encode (Sample.chain 3) (.atVersion {} 1) = (.error e, E')) ∧
    ∃ e D', Decoder.decode (.record 15)
      (.atVersion { unread := List.replicate 300 7 } 1 : Decoder Sample.schema) =
        (.error e, D') := by
  have hd : Sample.schema.descriptor 15 ⟨1, by decide⟩ = .ok Sample.linkTag :=
    eq_ok_of_toOption (by decide +kernel)
  have hversion : Sample.linkTag.minVersion ≤
      (⟨.atVersion 1, .builtins⟩ : Setting Sample.schema).options.version := by decide
  obtain ⟨hencode, hdecode⟩ := linked_never_crosses rfl hd rfl rfl hversion
  exact ⟨hencode _ rfl _, (hdecode _ rfl).1⟩

end TagWire
