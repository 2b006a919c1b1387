import TagWire.Proofs.Decoding
import TagWire.Proofs.Encoding
import TagWire.Proofs.Layout
import TagWire.Proofs.Schema.Contains

/-! How the fields of a record travel. For each field of a layout this says once what encoding it
and decoding it do; the theorems about whole values go by these cases. -/
namespace TagWire

/-- Whether and in which form a field is on the wire. -/
inductive Passage
  | off
  | plain
  | through (b : Builtin)
  deriving DecidableEq

namespace Setting

variable {S : Schema}

def passage (setting : Setting S) (r : Nat) (i : Fin (S.arity r)) : Passage :=
  match S.descriptor r i with
  | .error _ => .off
  | .ok d =>
    if d.isPresent setting.options.version then
      match d.codec with
      | none => .plain
      | some name => match setting.registry.lookup name with
        | .error _ => .off
        | .ok c => (Builtin.ofCodec? c).elim .off .through
    else .off

/-- Every codec that a tag within the shape names, so far as it is registered, is built in and
allowed for what it stands before. -/
def Overrides (setting : Setting S) (allowed : Builtin → Shape → Prop) (t : Shape) : Prop :=
  ∀ r, S.Contains t (.record r) → ∀ (i : Fin (S.arity r)) (d : Descriptor) (name : String)
    (c : Codec S), S.descriptor r i = .ok d → d.codec = some name →
    setting.registry.lookup name = .ok c →
    ∃ b : Builtin, c = b.codec ∧ allowed b (S.fieldShape r i).pointee

variable {setting : Setting S} {allowed : Builtin → Shape → Prop} {t u : Shape} {r : Nat}

theorem Overrides.part (h : setting.Overrides allowed t) (hu : u ∈ S.parts t) :
    setting.Overrides allowed u := fun r hr => h r (hr.head hu)

theorem Overrides.mono {allowed' : Builtin → Shape → Prop} (h : setting.Overrides allowed t)
    (ha : ∀ b u, allowed b u → allowed' b u) : setting.Overrides allowed' t := by
  intro r hr i d name c hd hc hl
  obtain ⟨b, hb, hu⟩ := h r hr i d name c hd hc hl
  exact ⟨b, hb, ha b _ hu⟩

def override? (setting : Setting S) (r : Nat) (i : Fin (S.arity r)) : Option Builtin := do
  let d ← (S.descriptor r i).toOption
  let c ← (setting.registry.lookup (← d.codec)).toOption
  Builtin.ofCodec? c

theorem Overrides.of_closed (hb : setting.registry = .builtins) {ts : List Shape}
    (hc : S.Closed ts) (ht : t ∈ ts)
    (h : ∀ u ∈ ts, ∀ r ∈ u.record?, ∀ i : Fin (S.arity r), ∀ b ∈ setting.override? r i,
      allowed b (S.fieldShape r i).pointee) : setting.Overrides allowed t := by
  intro r hr i d name c hd hcodec hl
  obtain ⟨b, rfl⟩ := Registry.lookup_builtins (hb ▸ hl)
  refine ⟨b, rfl, h _ (hr.mem_of_closed hc ht) r rfl i b ?_⟩
  simp [override?, hd, hcodec, hl, Except.toOption, Builtin.ofCodec?_codec]

/-- What encoding and decoding one field of a layout do: both refuse it for one reason, or both
go to the field of that index, in its generic form or through a built-in codec. -/
inductive Faces (setting : Setting S) (allowed : Builtin → Shape → Prop) (r : Nat)
    (d : Descriptor) : Prop
  | refused (e : Error)
      (encode : ∀ (nested : {t : Shape} → Datum S t → Encoding Unit) (fields : Fields S r),
        Encoding.field setting nested fields d = .fail e)
      (decode : ∀ (nested : {t : Shape} → Overwriting S t) (fields : Fields S r),
        InPlace.produce (Decoding.field setting nested d) fields = .fail e)
  | plain (i : Fin (S.arity r)) (index : d.index = i) (passage : setting.passage r i = .plain)
      (encode : ∀ (nested : {t : Shape} → Datum S t → Encoding Unit) (fields : Fields S r),
        Encoding.field setting nested fields d = nested (fields i))
      (decode : ∀ (nested : {t : Shape} → Overwriting S t) (fields : Fields S r),
        InPlace.produce (Decoding.field setting nested d) fields =
          fields.set i <$> InPlace.produce nested (fields i))
  | through (i : Fin (S.arity r)) (b : Builtin) (index : d.index = i)
      (passage : setting.passage r i = .through b)
      (allowed : allowed b (S.fieldShape r i).pointee)
      (encode : ∀ (nested : {t : Shape} → Datum S t → Encoding Unit) (fields : Fields S r),
        Encoding.field setting nested fields d = (do
          let _ ← Encoding.write (b.codec.writeField (fields i))
          Encoding.count Metrics.overridden))
      (decode : ∀ (nested : {t : Shape} → Overwriting S t) (fields : Fields S r),
        InPlace.produce (Decoding.field setting nested d) fields = (do
          let v ← Decoding.read (.wrap _ <$> b.codec.fresh (S.fieldShape r i).pointee)
          Decoding.count Metrics.overridden
          return fields.set i v))

theorem passage_of_descriptor {i : Fin (S.arity r)} {d : Descriptor}
    (h : S.descriptor r i = .ok d ∧ d.isPresent setting.options.version = true) :
    setting.passage r i = match d.codec with
      | none => .plain
      | some name => match setting.registry.lookup name with
        | .error _ => .off
        | .ok c => (Builtin.ofCodec? c).elim .off .through := by
  rw [passage, h.1]
  exact if_pos h.2

theorem passage_of_not_mem {layout : List Descriptor}
    (hl : (S.record r).layoutAt setting.options.version = .ok layout) {i : Fin (S.arity r)}
    (h : i.val ∉ layout.map Descriptor.index) : setting.passage r i = .off := by
  unfold passage
  split
  · rfl
  · next d hd =>
    rw [if_neg]
    intro hp
    obtain ⟨hm, hi⟩ := (S.mem_layoutAt hl i d).2 ⟨hd, hp⟩
    exact h (hi ▸ List.mem_map_of_mem hm)

theorem Overrides.faces (h : setting.Overrides allowed (.record r)) {layout : List Descriptor}
    (hl : (S.record r).layoutAt setting.options.version = .ok layout) {d : Descriptor}
    (hd : d ∈ layout) : setting.Faces allowed r d := by
  have hp := fun hi : d.index < S.arity r => (S.mem_layoutAt hl ⟨d.index, hi⟩ d).1 ⟨hd, rfl⟩
  cases hc : d.codec with
  | none =>
    by_cases hi : d.index < S.arity r
    · have hpass := passage_of_descriptor (hp hi)
      simp only [hc] at hpass
      refine .plain ⟨d.index, hi⟩ rfl hpass (fun nested fields => ?_) fun nested fields =>
        Decoding.produce_field_plain hc hi
      simp only [Encoding.field, hc, dif_pos hi]
    · -- The tag stands for no field: both sides refuse it in the same words.
      refine .refused (.noSuchField (S.record r).name d.index) (fun nested fields => ?_)
        fun nested fields => ?_
      · simp only [Encoding.field, hc, dif_neg hi]
      · funext s
        simp only [InPlace.produce, Decoding.field, hc, dif_neg hi]
        rfl
  | some name =>
    cases hn : setting.registry.lookup name with
    | error e =>
      -- The codec is looked up before the field, so this comes first on both sides.
      refine .refused e (fun nested fields => ?_) fun nested fields => ?_
      · simp only [Encoding.field, hc, hn]
        rfl
      · funext s
        simp only [InPlace.produce, Decoding.field, hc, hn]
        rfl
    | ok c =>
      by_cases hi : d.index < S.arity r
      · have hpass := passage_of_descriptor (hp hi)
        obtain ⟨b, rfl, hb⟩ := h r Schema.Contains.refl _ d name c (hp hi).1 hc hn
        simp only [hc, hn, Builtin.ofCodec?_codec, Option.elim] at hpass
        refine .through ⟨d.index, hi⟩ b rfl hpass hb (fun nested fields => ?_)
          fun nested fields => Decoding.produce_field_through b.steady_codec hc hn hi
        simp only [Encoding.field, hc, hn, dif_pos hi]
        rfl
      · refine .refused (.noSuchField (S.record r).name d.index) (fun nested fields => ?_)
          fun nested fields => ?_
        · simp only [Encoding.field, hc, hn, dif_neg hi]
          rfl
        · funext s
          simp only [InPlace.produce, Decoding.field, hc, hn, dif_neg hi]
          rfl

end Setting

end TagWire
