import TagWire.Proofs.Bounded
import TagWire.Proofs.Height
import TagWire.Proofs.Reencoding

/-! Shapes that take no bytes. A scalar and the length of a sequence are always on the wire, so what
is written in no bytes at all is a record none of whose present fields writes any, or such a record
behind indirections. -/
namespace TagWire

variable {S : Schema} {setting : Setting S} {version : Int} {t u : Shape} {r : Nat}

/-- Nothing of the shape is on the wire at a version. -/
inductive Schema.Hollow (S : Schema) (version : Int) : Shape → Prop
  | optional {t : Shape} (inner : S.Hollow version t) : S.Hollow version (.optional t)
  | boxed {t : Shape} (inner : S.Hollow version t) : S.Hollow version (.boxed t)
  | record {r : Nat} {layout : List Descriptor}
      (tags : (S.record r).layoutAt version = .ok layout)
      (inside : ∀ d ∈ layout, d.index < S.arity r)
      (fields : ∀ i : Fin (S.arity r), i.val ∈ layout.map Descriptor.index →
        S.Hollow version (S.fieldShape r i)) : S.Hollow version (.record r)

/-- Under the setting, no value of the shape is written in no bytes. -/
def Setting.Solid (setting : Setting S) (t : Shape) : Prop :=
  ∀ d : Datum S t, setting.encode d ≠ .ok []

theorem Schema.Generic.of_contains (h : S.Generic t) (hu : S.Contains t u) : S.Generic u :=
  fun r hr => h r (hu.trans hr)

theorem Schema.Generic.overrides {allowed : Builtin → Shape → Prop} (h : S.Generic t) :
    setting.Overrides allowed t := by
  intro r hr i d name c hd hc _
  rw [h r hr i d hd] at hc
  cases hc

theorem Writer.length_lt_textForm (bs : List UInt8) : bs.length < (textForm bs).length := by
  by_cases h : bs = []
  · subst h
    exact Nat.one_pos
  · rw [textForm_of_ne_nil h, List.length_append]
    have : 0 < (NullableSize.encode bs.length).length := by
      unfold NullableSize.encode
      split <;> exact Nat.succ_pos _
    omega

namespace Scalar

def textLength (s : Scalar) (x : s.Carrier) : Nat :=
  (s.text? x).elim 0 fun content => (Text.utf8 content).length

theorem textLength_lt_form (s : Scalar) (x : s.Carrier) :
    s.textLength x < (s.form x).length := by
  cases s with
  | bool => exact Nat.one_pos
  | int k =>
    rw [form, Writer.length_numberForm]
    cases k <;> exact Nat.succ_pos _
  | float32 | float64 =>
    rw [form, BigEndian.length_encode]
    exact Nat.succ_pos _
  | text => exact Writer.length_lt_textForm _
  | uuid | octets =>
    rw [form, Octets.length_eq]
    exact Nat.succ_pos _
  | time =>
    rw [form, Writer.length_ticksForm]
    exact Nat.succ_pos _
  | variant =>
    cases x with
    | text content => exact Nat.lt_succ_of_lt (Writer.length_lt_textForm _)
    | _ => exact Nat.succ_pos _

theorem form_ne_nil (s : Scalar) (x : s.Carrier) : s.form x ≠ [] :=
  List.ne_nil_of_length_pos (Nat.zero_lt_of_lt (s.textLength_lt_form x))

end Scalar

theorem Appends.forEach_eq_nil {σ α : Type} [HasWriter σ] {f : α → Attempt Error σ Unit}
    {P : α → Prop} {as : List α} (h : ∀ a ∈ as, Appends (f a) fun _ bs => bs = [] → P a) :
    Appends (Attempt.forEach f as : Attempt Error σ Unit) fun _ bs =>
      bs = [] → ∀ a ∈ as, P a := by
  induction as with
  | nil => exact (Emits.pure ()).appends fun _ => nofun
  | cons a as ih =>
    rw [Attempt.forEach_cons]
    refine (h a List.mem_cons_self).bind fun _ bs hbs => ?_
    refine (ih fun a ha => h a (List.mem_cons_of_mem _ ha)).mono fun _ cs hcs hnil => ?_
    obtain ⟨hb, hc⟩ := List.append_eq_nil_iff.1 hnil
    exact List.forall_mem_cons.2 ⟨hbs hb, hcs hc⟩

theorem Emits.forEach_nil {σ α : Type} [HasWriter σ] {f : α → Attempt Error σ Unit} {as : List α}
    (h : ∀ a ∈ as, Emits (f a) () []) :
    Emits (Attempt.forEach f as : Attempt Error σ Unit) () [] := by
  induction as with
  | nil => exact Emits.pure ()
  | cons a as ih =>
    rw [Attempt.forEach_cons]
    exact (h a List.mem_cons_self).bind (ih fun a ha => h a (List.mem_cons_of_mem _ ha))

namespace Encoding

theorem hollow_field_of_appends_nil (hg : S.Generic (.record r))
    {nested : {t : Shape} → Datum S t → Encoding Unit}
    (hnested : ∀ (i : Fin (S.arity r)) (x : Datum S (S.fieldShape r i)),
      Appends (nested x) fun _ bs => bs = [] → S.Hollow version (S.fieldShape r i))
    {d : Descriptor} (hd : setting.Faces (fun _ _ => True) r d) (fields : Fields S r) :
    Appends (field setting nested fields d) fun _ bs =>
      bs = [] → ∃ i : Fin (S.arity r), d.index = i ∧ S.Hollow version (S.fieldShape r i) := by
  cases hd with
  | refused e encode _ =>
    rw [encode]
    exact Appends.fail e
  | plain i hi _ encode _ =>
    rw [encode]
    exact (hnested i _).mono fun _ _ h hnil => ⟨i, hi, h hnil⟩
  | through i b _ hpass _ _ _ => exact absurd hpass (hg.passage_ne i b)

theorem hollow_of_appends_nil (hp : S.Plain t) (hg : S.Generic t) (levels : Nat) (d : Datum S t) :
    Appends (value setting levels d) fun _ bs =>
      bs = [] → S.Hollow setting.options.version t := by
  induction levels generalizing t with
  | zero => exact Appends.fail _
  | succ levels ih =>
    rw [value_succ setting hp.ne_custom]
    have hpart := fun (u : Shape) (hu : u ∈ S.parts t) (d : Datum S u) =>
      ih (hp.part hu) (hg.part hu) d
    cases d with
    | @scalar s x =>
      rw [body_scalar]
      refine (appends_write Scalar.appends_write).bind fun _ bs hbs => ?_
      refine (Emits.pure ()).appends fun hnil => ?_
      rw [List.append_nil, hbs.2] at hnil
      exact absurd hnil (s.form_ne_nil x)
    | @sequence t n item =>
      rw [body_sequence]
      refine Appends.after (emits_write (Writer.emits_size n)) ?_
      refine (Appends.forEach_eq_nil fun d _ => hpart t (S.mem_parts_sequence t) d).mono ?_
      intro _ cs _ hnil
      have := Size.length_encode_pos n
      rw [(List.append_eq_nil_iff.1 hnil).1] at this
      cases this
    | absent => exact Appends.fail _
    | @present t d =>
      exact (hpart t (S.mem_parts_optional t) d).mono fun _ _ h hnil => (h hnil).optional
    | @boxed t d =>
      exact (hpart t (S.mem_parts_boxed t) d).mono fun _ _ h hnil => (h hnil).boxed
    | @record r fields =>
      rw [body_record]
      refine Appends.lift_bind fun layout hl => ?_
      have hfield := fun d (hd : d ∈ layout) => hollow_field_of_appends_nil hg
        (fun i x => hpart _ (Schema.fieldShape_mem_parts r i) x) (hg.overrides.faces hl hd) fields
      refine (Appends.forEach_eq_nil hfield).mono fun _ _ h hnil => ?_
      refine .record hl (fun d hd => ?_) fun i hi => ?_
      · obtain ⟨i, hi, -⟩ := h hnil d hd
        exact hi ▸ i.isLt
      · obtain ⟨d, hd, hdi⟩ := List.mem_map.1 hi
        obtain ⟨j, hj, hh⟩ := h hnil d hd
        obtain rfl : j = i := Fin.ext (hj.symm.trans hdi)
        exact hh
    | custom x => exact absurd rfl (hp.ne_custom _)

/-- With levels enough, some value of a hollow shape is written, in no bytes. -/
theorem exists_emits_nil (hg : S.Generic t) (h : S.Hollow setting.options.version t) :
    ∃ (n : Nat) (d : Datum S t), ∀ m levels, n ≤ levels →
      Emits (value (setting.withMaxDepth m) levels d) () [] := by
  induction h with
  | @optional t _ ih =>
    obtain ⟨n, d, hd⟩ := ih (hg.part (S.mem_parts_optional t))
    refine ⟨n + 1, .present d, fun m levels hn => ?_⟩
    obtain ⟨levels, rfl⟩ := Nat.exists_eq_add_one_of_ne_zero (Nat.ne_zero_of_lt hn)
    exact hd m levels (Nat.le_of_succ_le_succ hn)
  | @boxed t _ ih =>
    obtain ⟨n, d, hd⟩ := ih (hg.part (S.mem_parts_boxed t))
    refine ⟨n + 1, .boxed d, fun m levels hn => ?_⟩
    obtain ⟨levels, rfl⟩ := Nat.exists_eq_add_one_of_ne_zero (Nat.ne_zero_of_lt hn)
    exact hd m levels (Nat.le_of_succ_le_succ hn)
  | @record r layout hl inside _ ih =>
    have ih := fun i hi => ih i hi (hg.part (Schema.fieldShape_mem_parts r i))
    -- Fields off the wire may hold anything, and take no levels.
    have hall : ∀ i : Fin (S.arity r), ∃ (n : Nat) (d : Datum S (S.fieldShape r i)),
        i.val ∈ layout.map Descriptor.index → ∀ m levels, n ≤ levels →
          Emits (value (setting.withMaxDepth m) levels d) () [] := by
      intro i
      by_cases hi : i.val ∈ layout.map Descriptor.index
      · obtain ⟨n, d, hd⟩ := ih i hi
        exact ⟨n, d, fun _ => hd⟩
      · exact ⟨0, .initial _, fun hm => absurd hm hi⟩
    choose n fields hfields using hall
    refine ⟨Finset.univ.sup n + 1, .record fields, fun m levels hn => ?_⟩
    obtain ⟨levels, rfl⟩ := Nat.exists_eq_add_one_of_ne_zero (Nat.ne_zero_of_lt hn)
    rw [value_record, body_record]
    have htags : (S.record r).layoutAt (setting.withMaxDepth m).options.version = .ok layout := hl
    rw [htags]
    refine (Emits.lift layout).bind (Emits.forEach_nil fun d hd => ?_)
    have hi : d.index < S.arity r := inside d hd
    obtain ⟨hd', -⟩ := (S.mem_layoutAt hl ⟨d.index, hi⟩ d).1 ⟨hd, rfl⟩
    rw [field_eq_fieldValue (i := ⟨d.index, hi⟩) rfl, hg r Schema.Contains.refl _ d hd']
    apply hfields ⟨d.index, hi⟩ (List.mem_map_of_mem hd) m levels
    exact (Finset.le_sup (Finset.mem_univ _)).trans (Nat.le_of_succ_le_succ hn)

theorem emits_of_levels_le {allowed : Builtin → Shape → Prop} (ho : setting.Overrides allowed t)
    {d : Datum S t} {bs : List UInt8} {levels levels' : Nat} (hle : levels ≤ levels')
    (h : Emits (value setting levels d) () bs) : Emits (value setting levels' d) () bs := by
  intro s hs
  obtain ⟨s', hrun, hw⟩ := h s hs
  have hcap : ∀ n, Capped (d.height setting.options.version ≤ n)
      (.depthExceeded setting.options.maxDepth) (value setting levels d) (value setting n d) :=
    capped_value ho d setting.options.maxDepth setting.options.maxDepth
  have hheight : d.height setting.options.version ≤ levels := by
    by_contra hn
    obtain ⟨s'', hfails⟩ := (hcap levels s () s' hrun).2 hn
    cases hrun.symm.trans hfails
  exact ⟨s', (hcap levels' s () s' hrun).1 (hheight.trans hle), hw⟩

end Encoding

/-- Only hollow shapes have values that are written in no bytes, and all of them have, with levels
enough. -/
theorem Setting.solid_iff (hp : S.Plain t) (hg : S.Generic t) :
    (∀ n, (setting.withMaxDepth n).Solid t) ↔ ¬ S.Hollow setting.options.version t := by
  constructor
  · intro hs hh
    obtain ⟨n, d, hd⟩ := Encoding.exists_emits_nil hg hh
    exact hs n d (encode_of_emits (hd n n (Nat.le_refl n)))
  · intro hh n d he
    have hnil : Appends (Encoding.value (setting.withMaxDepth n) n d) fun _ bs =>
        bs = [] → S.Hollow setting.options.version t := Encoding.hollow_of_appends_nil hp hg n d
    exact hh (of_encode hnil he rfl)

theorem Setting.solid_of_not_hollow (hp : S.Plain t) (hg : S.Generic t)
    (hh : ¬ S.Hollow setting.options.version t) : setting.Solid t :=
  (solid_iff hp hg).2 hh setting.options.maxDepth

theorem Setting.solid_items_of_not_hollow (hp : S.Plain t) (hg : S.Generic t)
    (hu : S.Contains t (.sequence u)) (hh : ¬ S.Hollow setting.options.version u) :
    setting.Solid u :=
  have hitem := S.mem_parts_sequence u
  solid_of_not_hollow ((hp.of_contains hu).part hitem) ((hg.of_contains hu).part hitem) hh

end TagWire
