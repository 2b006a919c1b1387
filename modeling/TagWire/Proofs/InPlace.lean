import TagWire.Proofs.RoundTrip

/-! Decoding in place against decoding afresh. Both run side by side on one input; they stop with
one error or give values that differ in nothing but the fields that are not on the wire. -/
namespace TagWire

section Agreement

variable {ε σ α β γ δ : Type}

inductive SameEnd (R : α → β → Prop) : Except ε α × σ → Except ε β × σ → Prop
  | ok {a : α} {b : β} (s : σ) (h : R a b) : SameEnd R (.ok a, s) (.ok b, s)
  | error (e : ε) (s : σ) : SameEnd R (.error e, s) (.error e, s)

/-- Two steps that end the same from every state, up to related values. -/
def Agree (R : α → β → Prop) (x : Attempt ε σ α) (y : Attempt ε σ β) : Prop :=
  ∀ s, SameEnd R (x s) (y s)

variable {R : α → β → Prop} {Q : γ → δ → Prop} {x : Attempt ε σ α} {y : Attempt ε σ β}

namespace Agree

theorem self {R : α → α → Prop} (h : ∀ a, R a a) (x : Attempt ε σ α) : Agree R x x := by
  intro s
  rcases x s with ⟨e | a, s'⟩
  · exact .error e s'
  · exact .ok s' (h a)

theorem pure {a : α} {b : β} (h : R a b) :
    Agree R (pure a : Attempt ε σ α) (pure b : Attempt ε σ β) := fun s => .ok s h

theorem fail (e : ε) : Agree R (Attempt.fail e : Attempt ε σ α) (Attempt.fail e : Attempt ε σ β) :=
  fun s => .error e s

theorem bind {f : α → Attempt ε σ γ} {g : β → Attempt ε σ δ} (hx : Agree R x y)
    (hf : ∀ a b, R a b → Agree Q (f a) (g b)) : Agree Q (x >>= f) (y >>= g) := by
  intro s
  rw [Attempt.bind_apply, Attempt.bind_apply]
  have h := hx s
  generalize x s = p at h ⊢
  generalize y s = q at h ⊢
  cases h with
  | ok s' h => exact hf _ _ h s'
  | error e s' => exact .error e s'

theorem map {f : α → γ} {g : β → δ} (hx : Agree R x y) (h : ∀ a b, R a b → Q (f a) (g b)) :
    Agree Q (f <$> x) (g <$> y) := hx.bind fun a b hab => pure (h a b hab)

theorem of_error (h : Agree R x y) {s s' : σ} {e : ε} (hy : y s = (.error e, s')) :
    x s = (.error e, s') := by
  have hs := h s
  rw [hy] at hs
  generalize x s = p at hs ⊢
  cases hs
  rfl

theorem of_ok (h : Agree R x y) {s s' : σ} {b : β} (hy : y s = (.ok b, s')) :
    ∃ a, x s = (.ok a, s') ∧ R a b := by
  have hs := h s
  rw [hy] at hs
  generalize x s = p at hs ⊢
  cases hs with
  | ok _ hr => exact ⟨_, rfl, hr⟩

end Agree

end Agreement

variable {S : Schema} {t : Shape} {r : Nat}

namespace Datum

/-- A decoded value put over an old one: the fields that are not on the wire are the old ones, also
in records that are fields of records; what is behind a sequence, an optional or a boxed value is
the decoded one. -/
def overlay (setting : Setting S) : {t : Shape} → (new old : Datum S t) → Datum S t
  | _, .record (r := r) field, old => .record fun i => match setting.passage r i with
    | .off => old.fields i
    | .plain => (field i).overlay setting (old.fields i)
    | .through _ => field i
  | _, .scalar x, _ => .scalar x
  | _, .sequence n item, _ => .sequence n item
  | _, .absent, _ => .absent
  | _, .present d, _ => .present d
  | _, .boxed d, _ => .boxed d
  | _, .custom x, _ => .custom x

variable {setting : Setting S}

theorem overlay_of_record? (h : t.record? = none) (new old : Datum S t) :
    new.overlay setting old = new := by
  cases new with
  | record field => cases h
  | _ => rfl

def overlayField (setting : Setting S) (new old : Fields S r) (i : Fin (S.arity r)) :
    Datum S (S.fieldShape r i) :=
  ((Datum.record new).overlay setting (.record old)).fields i

theorem overlay_record (new old : Fields S r) :
    (Datum.record new).overlay setting (.record old) = .record (overlayField setting new old) := rfl

theorem overlayField_congr {new new' : Fields S r} (old : Fields S r) {i : Fin (S.arity r)}
    (h : new i = new' i) : overlayField setting new old i = overlayField setting new' old i := by
  simp only [overlayField, overlay, fields, h]

theorem overlayField_off (new old : Fields S r) {i : Fin (S.arity r)}
    (h : setting.passage r i = .off) : overlayField setting new old i = old i := by
  simp only [overlayField, overlay, fields, h]

theorem overlayField_plain (new old : Fields S r) {i : Fin (S.arity r)}
    (h : setting.passage r i = .plain) :
    overlayField setting new old i = (new i).overlay setting (old i) := by
  simp only [overlayField, overlay, fields, h]

theorem overlayField_through (new old : Fields S r) {i : Fin (S.arity r)} {b : Builtin}
    (h : setting.passage r i = .through b) : overlayField setting new old i = new i := by
  simp only [overlayField, overlay, fields, h]

end Datum

variable {setting : Setting S}

section Fields

variable {allowed : Builtin → Shape → Prop} {dec : {t : Shape} → Overwriting S t}
  (old : Fields S r)
  (hplain : ∀ i, setting.passage r i = .plain → Agree (fun a y => a = y.overlay setting (old i))
    (InPlace.produce dec (old i)) (Decoding.fresh dec _))

include hplain

theorem agree_field {d : Descriptor} (hd : setting.Faces allowed r d) {f g : Fields S r}
    (hf : ∀ i : Fin (S.arity r), d.index = i → f i = old i)
    (hg : ∀ i : Fin (S.arity r), d.index = i → g i = .initial _) :
    Agree (fun f' g' => ∃ (i : Fin (S.arity r)) (y : Datum S (S.fieldShape r i)), d.index = i ∧
        g' = g.set i y ∧ f' = f.set i (Datum.overlayField setting (g.set i y) old i))
      (InPlace.produce (Decoding.field setting dec d) f)
      (InPlace.produce (Decoding.field setting dec d) g) := by
  cases hd with
  | refused e _ decode =>
    rw [decode, decode]
    exact Agree.fail e
  | plain i hi hp _ decode =>
    rw [decode, decode, hf i hi, hg i hi]
    refine (hplain i hp).map fun a y h => ⟨i, y, hi, rfl, ?_⟩
    rw [Datum.overlayField_plain _ _ hp, Fields.set_self, h]
  | through i b hi hp _ _ decode =>
    rw [decode, decode]
    refine (Agree.self (R := Eq) (fun _ => rfl) _).bind fun v w hv => ?_
    subst hv
    refine (Agree.self (R := Eq) (fun _ => rfl) _).bind fun _ _ _ => Agree.pure ?_
    refine ⟨i, v, hi, rfl, ?_⟩
    rw [Datum.overlayField_through _ _ hp, Fields.set_self]

/-- Overwritten fields against fresh ones. Those that are pending are the old ones and the first
ones; those that are done differ by the overlay. -/
theorem agree_fields {ds : List Descriptor} (hd : ∀ d ∈ ds, setting.Faces allowed r d)
    (hn : (ds.map Descriptor.index).Nodup) {f g : Fields S r} (hf : f.EqOn ds old)
    (hg : g.EqOn ds fun _ => .initial _) (hfg : f.EqOff ds (Datum.overlayField setting g old)) :
    Agree (fun a y => a = Datum.overlayField setting y old)
      (InPlace.produce (Decoding.fieldsInOrder setting dec ds) f)
      (InPlace.produce (Decoding.fieldsInOrder setting dec ds) g) := by
  induction ds generalizing f g with
  | nil => exact Agree.pure hfg.eq
  | cons d ds ih =>
    rw [List.map_cons, List.nodup_cons] at hn
    rw [Decoding.produce_fieldsInOrder_cons, Decoding.produce_fieldsInOrder_cons]
    refine (agree_field old hplain (hd d List.mem_cons_self) (fun i => hf.head)
      fun i => hg.head).bind ?_
    rintro _ _ ⟨i, y, hi, rfl, rfl⟩
    -- An overlay looks at one field at a time: the new field leaves it as it is everywhere else.
    refine ih (fun d hm => hd d (List.mem_cons_of_mem _ hm)) hn.2 (hf.set hn.1 hi _)
      (hg.set hn.1 hi y) (Fields.EqOff.set hi fun j hj => ?_)
    have hji : j ≠ i := by
      rintro rfl
      exact hj (by rw [← hi]; exact List.mem_cons_self)
    rw [hfg j hj]
    exact Datum.overlayField_congr old (Fields.set_ne g hji y).symm

end Fields

theorem agree_value {allowed : Builtin → Shape → Prop} (levels : Nat) (hp : S.Plain t)
    (ho : setting.Overrides allowed t) (old : Datum S t) :
    Agree (fun a y => a = y.overlay setting old)
      (InPlace.produce (Decoding.value setting levels) old)
      (Decoding.fresh (Decoding.value setting levels) t) := by
  induction levels generalizing t with
  | zero => exact Agree.fail _
  | succ levels ih =>
    rw [Decoding.fresh, Decoding.produce_value_of_ne hp.ne_custom,
      Decoding.produce_value_of_ne hp.ne_custom]
    -- Outside records nothing of the old value is kept, so both sides run the same step.
    have hself := fun (h : t.record? = none) (x : Decoding (Datum S t)) =>
      Agree.self (R := fun a y => a = y.overlay setting old)
        (fun a => (Datum.overlay_of_record? h a old).symm) x
    cases old with
    | scalar x =>
      rw [Decoding.produce_body_scalar, Decoding.produce_body_scalar]
      exact hself rfl _
    | sequence n item =>
      rw [Decoding.produce_body_sequence, Decoding.produce_body_sequence]
      exact hself rfl _
    | absent | present d =>
      rw [Decoding.produce_body_optional, Decoding.produce_body_optional]
      exact hself rfl _
    | boxed d =>
      rw [Decoding.produce_body_boxed, Decoding.produce_body_boxed]
      exact hself rfl _
    | @record r old =>
      rw [Datum.initial_record, Decoding.produce_body_record, Decoding.produce_body_record]
      cases hl : (S.record r).layoutAt setting.options.version with
      | error e => exact Agree.fail e
      | ok layout =>
        refine (agree_fields old (fun i hi => ?_) (fun d => ho.faces hl)
          (S.nodup_layoutAt hl) (fun _ _ => rfl) (fun _ _ => rfl) fun i hi => ?_).map ?_
        · have hfield := Schema.fieldShape_mem_parts r i
          exact ih (hp.part hfield) (ho.part hfield) (old i)
        · exact (Datum.overlayField_off _ _ (Setting.passage_of_not_mem hl hi)).symm
        · rintro _ y rfl
          exact Datum.overlay_record y old
    | custom x => exact absurd rfl (hp.ne_custom _)

/-- Decoding in place from any state of a decoder, over any old value. It fails as decoding afresh
does and where that does, or gives the fresh value put over the old one. -/
theorem Decoder.decodeInto_eq_overlay {D : Decoder S} (hp : S.Plain t)
    (ho : D.setting.Overrides (fun _ _ => True) t) :
    (∃ e D', D.decode t = (.error e, D') ∧
      ∀ old : Datum S t, ∃ half, D.decodeInto old = ((.error e, half), D')) ∨
    ∃ y D', D.decode t = (.ok y, D') ∧ ∀ old : Datum S t, D.decodeInto old =
      ((.ok (D'.reader.offset - D.reader.offset), y.overlay D.setting old), D') := by
  have hagree := fun old : Datum S t => agree_value D.setting.options.maxDepth hp ho old
  cases hx : D.produce (.initial t) ⟨D.reader, D.metrics⟩ with
  | mk result s =>
    cases result with
    | error e =>
      refine .inl ⟨e, _, decode_of_error hx, fun old => ?_⟩
      exact decodeInto_of_error ((hagree old).of_error hx)
    | ok y =>
      refine .inr ⟨y, _, decode_of_ok hx, fun old => ?_⟩
      obtain ⟨a, ha, rfl⟩ := (hagree old).of_ok hx
      exact decodeInto_of_ok ha

theorem Decoder.decodeInto_eq_overlay_batch :
    let D : Decoder Sample.schema := .ofSource { unread := Sample.batchBytes } Sample.third
    ∃ y D', D.decode (.record 13) = (.ok y, D') ∧ ∀ old : Datum Sample.schema (.record 13),
      D.decodeInto old = ((.ok D'.reader.offset, y.overlay Sample.third old), D') := by
  intro D
  have hc : Sample.schema.Closed Sample.batchShapes := by decide +kernel
  have ht : .record 13 ∈ Sample.batchShapes := by decide
  have hp : Sample.schema.Plain (.record 13) := .of_closed hc ht (by decide)
  have ho : D.setting.Overrides (fun _ _ => True) (.record 13) :=
    .of_closed rfl hc ht (by decide +kernel)
  have hok : (D.decode (.record 13)).1.isOk = true := by decide +kernel
  refine (decodeInto_eq_overlay hp ho).resolve_left ?_
  rintro ⟨e, D', hd, -⟩
  rw [hd] at hok
  cases hok

end TagWire
