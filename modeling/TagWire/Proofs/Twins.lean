import TagWire.Proofs.Interchange
import TagWire.Proofs.Session

/-! Two runs on one value, under tags that name the own codecs of some fields and under tags that do
not. They go through the same fields; where only one of them goes through a codec, that writes and
reads what the other run does for itself, with fewer levels spent. -/
namespace TagWire

variable {S : Schema} {tag : Nat → Nat → String} {setting : Setting S} {t : Shape} {r : Nat}
  {P Q : Set Error} {name : String} {b : Builtin} {levels : Nat}

def Setting.tooDeep (setting : Setting S) : Error := .depthExceeded setting.options.maxDepth

namespace Encoding

def coded (c : Codec S) (d : Datum S t) : Encoding Unit := do
  let _ ← write (c.writeField d)
  count Metrics.overridden

theorem fieldValue_of_lookup {name : String} {c : Codec S}
    (h : setting.registry.lookup name = .ok c)
    (nested : {t : Shape} → Datum S t → Encoding Unit) (d : Datum S t) :
    fieldValue setting nested (some name) d = coded c d := by
  simp only [fieldValue, h]
  rfl

theorem lockstep_mirrors {c : Codec S} {c' : Codec (S.retag tag)} (h : c.Mirrors c')
    (d : Datum S t) : Lockstep .writing P Q Eq (coded c d) (coded c' (d.retag tag)) := by
  have hfield : c'.writeField (d.retag tag) = c.writeField d := by
    unfold Codec.writeField
    rw [Datum.pointee_retag]
    cases d.pointee with
    | error e => rfl
    | ok p => exact h.encode p
  rw [coded, coded, hfield]
  exact (Lockstep.same _).write.bind fun _ _ _ => Lockstep.update (fun _ => rfl) fun _ => rfl

/-- A field that is left generic is written as through its own codec. -/
theorem lockstep_coded (h : t.Owns name b) (d : Datum S t) :
    Lockstep .writing {setting.tooDeep} ∅ Eq (value setting levels d) (coded b.codec d) := by
  obtain ⟨s, key, ht, ho, -⟩ := h
  -- The generic run spends a level on each option and box; the codec looks through them for none.
  induction d generalizing levels with
  | scalar x =>
    cases ht
    cases levels with
    | zero => exact Lockstep.excused (Set.mem_singleton setting.tooDeep) _
    | succ levels =>
      rw [value_succ setting (by rintro k ⟨⟩), body_scalar]
      refine (Scalar.lockstep_write ho x).write.bind fun _ _ _ => ?_
      exact Lockstep.update (f := id) (fun _ => rfl) fun _ => rfl
  | @absent t =>
    cases levels with
    | zero => exact Lockstep.excused (Set.mem_singleton setting.tooDeep) _
    | succ levels => exact Lockstep.of_alike fun _ _ hs => ⟨.error _, hs⟩
  | @present t d ih | @boxed t d ih =>
    cases levels with
    | zero => exact Lockstep.excused (Set.mem_singleton setting.tooDeep) _
    | succ levels =>
      rw [value_succ setting (by rintro k ⟨⟩)]
      exact ih ht
  | sequence | record | custom => cases ht

end Encoding

def Registry.HasOwn (R : Registry S) : Prop :=
  ∀ s key b name, Scalar.own? s = some (key, b) → keyOf name = key → R.lookup name = .ok b.codec

namespace Setting

/-- Two settings with one set of options, and with codecs that do the same for every name. -/
structure Twins (setting : Setting S) (setting' : Setting (S.retag tag)) : Prop where
  options : setting'.options = setting.options
  codecs : ∀ name, Accord False Codec.Mirrors (setting.registry.lookup name)
    (setting'.registry.lookup name)
  own : setting.registry.HasOwn
  own' : setting'.registry.HasOwn

variable {setting' : Setting (S.retag tag)}

theorem Twins.tooDeep (h : setting.Twins setting') : setting'.tooDeep = setting.tooDeep := by
  rw [Setting.tooDeep, Setting.tooDeep, h.options]

end Setting

theorem Registry.HasOwn.lookup {R : Registry S} (hR : R.HasOwn) {name : String}
    (h : t.Owns name b) : R.lookup name = .ok b.codec := by
  obtain ⟨s, key, -, hb, hkey⟩ := h
  exact hR s key b name hb hkey

namespace Encoding

variable {setting' : Setting (S.retag tag)} (htwins : setting.Twins setting')

section Nested

variable (ih : ∀ {t : Shape} (d : Datum S t), Lockstep .writing {setting.tooDeep} {setting.tooDeep}
  Eq (value setting levels d) (value setting' levels (d.retag tag)))

include htwins ih

theorem lockstep_fieldValue {codec codec' : Option String} (h : t.Interchangeable codec codec')
    (d : Datum S t) :
    Lockstep .writing {setting.tooDeep} {setting.tooDeep} Eq
      (fieldValue setting (value setting levels) codec d)
      (fieldValue setting' (value setting' levels) codec' (d.retag tag)) := by
  cases h with
  | same codec =>
    cases codec with
    | none => exact ih d
    | some name =>
      exact (Lockstep.lift (htwins.codecs name)).bind fun c c' hc => lockstep_mirrors hc d
  | named h =>
    -- In between stands the own codec of the first schema, which neither run goes through.
    rw [fieldValue_of_lookup (htwins.own'.lookup h)]
    exact (lockstep_coded h d).trans (lockstep_mirrors (Builtin.mirrors_codec _) d)
      fun _ _ _ => Eq.trans
  | @dropped name b h =>
    have hown : Lockstep .writing ∅ {setting.tooDeep} Eq (coded b.codec (d.retag tag))
        (value setting' levels (d.retag tag)) := htwins.tooDeep ▸ (lockstep_coded h _).symm
    rw [fieldValue_of_lookup (htwins.own.lookup h)]
    exact ((lockstep_mirrors (Builtin.mirrors_codec _) d).trans hown fun _ _ _ => Eq.trans).mono
      (Set.empty_subset _) le_rfl
  | renamed h h' =>
    rw [fieldValue_of_lookup (htwins.own.lookup h), fieldValue_of_lookup (htwins.own'.lookup h')]
    exact lockstep_mirrors (Builtin.mirrors_codec _) d

theorem lockstep_field {d d' : Descriptor} (h : S.Pairs r d d') (fields : Fields S r) :
    Lockstep .writing {setting.tooDeep} {setting.tooDeep} Eq
      (field setting (value setting levels) fields d)
      (field setting' (value setting' levels) (fields.retag tag) d') := by
  by_cases hi : d.index < S.arity r
  · rw [field_eq_fieldValue (i := ⟨d.index, hi⟩) rfl,
      field_eq_fieldValue (i := Schema.retagged tag ⟨d.index, hi⟩) h.index,
      Fields.retag_retagged,
      Datum.apply_cast (fieldValue setting' (value setting' levels) d'.codec)]
    exact lockstep_fieldValue htwins ih (h.codecs rfl) (fields _)
  · obtain rfl := h.eq_of_stray hi
    have hi' : ¬ d'.index < (S.retag tag).arity r := S.arity_retag tag r ▸ hi
    unfold field
    cases d'.codec with
    | none =>
      rw [dif_neg hi, dif_neg hi']
      exact Lockstep.fail _
    | some name =>
      refine (Lockstep.lift (htwins.codecs name)).bind fun c c' _ => ?_
      rw [dif_neg hi, dif_neg hi']
      exact Lockstep.fail _

end Nested

include htwins

theorem lockstep_value (h : S.Interchanges tag) (levels : Nat) (d : Datum S t) :
    Lockstep .writing {setting.tooDeep} {setting.tooDeep} Eq (value setting levels d)
      (value setting' levels (d.retag tag)) := by
  induction levels generalizing t with
  | zero => exact Lockstep.excused (Set.mem_singleton setting.tooDeep) _
  | succ levels ih =>
    cases d with
    | scalar x =>
      rw [Datum.retag, value_succ setting (by rintro k ⟨⟩), value_succ setting' (by rintro k ⟨⟩),
        body_scalar, body_scalar]
      exact (Lockstep.same _).write.bind fun _ _ _ => Lockstep.pure rfl
    | @sequence t n item =>
      rw [value_succ setting (by rintro k ⟨⟩), value_succ setting' (by rintro k ⟨⟩),
        body_items, body_items, Datum.items_retag, List.length_map, Attempt.forEach_map]
      have hitems : ∀ items : List (Datum S t), List.Forall₂ Eq items items :=
        fun items => List.forall₂_same.2 fun _ _ => rfl
      refine (Lockstep.same _).write.bind fun _ _ _ => Lockstep.forEach (hitems _) ?_
      rintro c _ rfl
      exact ih c
    | @absent t =>
      have hname : t.optional.typeName (S.retag tag) = t.optional.typeName S :=
        Schema.typeName_retag _
      change Lockstep _ _ _ _ (Attempt.fail _) (Attempt.fail (.missingValue _))
      rw [hname]
      exact Lockstep.fail _
    | @present t d | @boxed t d =>
      rw [value_succ setting (by rintro k ⟨⟩), value_succ setting' (by rintro k ⟨⟩)]
      exact ih d
    | @record r fields =>
      rw [Datum.retag_record, value_record, value_record, body_record, body_record, htwins.options]
      refine (Lockstep.lift (h.layoutAt r _)).bind fun ds ds' hds => ?_
      exact Lockstep.forEach hds fun d d' hd => lockstep_field htwins ih hd fields
    | @custom k x =>
      have hmarshal : Lockstep .writing {setting.tooDeep} {setting.tooDeep} Eq
          (write ((S.custom k).marshal x setting.options.version))
          (write ((S.custom k).marshal x setting'.options.version)) := by
        rw [htwins.options]
        exact (Lockstep.same _).write
      have hannounce : Lockstep .writing {setting.tooDeep} {setting.tooDeep} Eq
          (count Metrics.delegated) (count Metrics.delegated) :=
        Lockstep.update (fun _ => rfl) fun _ => rfl
      exact hannounce.bind fun _ _ _ => hmarshal.bind fun _ _ _ => Lockstep.pure rfl

end Encoding

namespace InPlace

variable {ε σ α β γ : Type}

theorem produce_through (view : γ → α) (rebuild : γ → α → γ) (x : InPlace ε σ β α) (c : γ) :
    produce (through view rebuild x) c = rebuild c <$> produce x (view c) := by
  funext s
  simp only [produce, through, Functor.map]
  rcases x (view c) s with ⟨⟨_ | _, _⟩, _⟩ <;> rfl

theorem produce_cast {S : Schema} {x : {t : Shape} → InPlace ε σ β (Datum S t)} {t u : Shape}
    (h : t = u) (d : Datum S t) :
    produce (x (t := u)) (d.cast h) = Datum.cast h <$> produce (x (t := t)) d := by
  subst h
  exact (id_map _).symm

end InPlace

namespace Decoding

def coded (c : Codec S) (d : Datum S t) : Decoding (Datum S t) := do
  let v ← read (.wrap t <$> InPlace.produce c.decode d.opened)
  count Metrics.overridden
  return v

theorem produce_fieldValue (name : String) (nested : {t : Shape} → Overwriting S t)
    (d : Datum S t) : InPlace.produce (fieldValue setting nested (some name)) d = (do
      let c ← .lift (setting.registry.lookup name)
      coded c d) := by
  cases h : setting.registry.lookup name with
  | error e =>
    funext u
    simp only [InPlace.produce, fieldValue, h]
    rfl
  | ok c =>
    change _ = coded c d
    rw [coded, ← produce_readField_opened]
    funext u
    simp only [InPlace.produce, fieldValue, h, bind]
    rcases readInPlace c.readField d u with ⟨⟨_ | _, _⟩, _⟩ <;> rfl

theorem produce_fieldValue_of_lookup {name : String} {c : Codec S}
    (h : setting.registry.lookup name = .ok c) (nested : {t : Shape} → Overwriting S t)
    (d : Datum S t) : InPlace.produce (fieldValue setting nested (some name)) d = coded c d := by
  rw [produce_fieldValue, h]
  rfl

section Stray

/-! Tags without a field behind them. -/

variable {d : Descriptor} {nested : {t : Shape} → Overwriting S t} {fields : Fields S r}

theorem produce_stray (hc : d.codec = none) (hi : ¬ d.index < S.arity r) :
    InPlace.produce (field setting nested d) fields =
      .fail (.noSuchField (S.record r).name d.index) := by
  funext u
  simp only [InPlace.produce, field, hc, dif_neg hi, Attempt.fail]

theorem produce_stray_codec (hc : d.codec = some name) (hi : ¬ d.index < S.arity r) :
    InPlace.produce (field setting nested d) fields = (do
      let _ ← .lift (setting.registry.lookup name)
      .fail (.noSuchField (S.record r).name d.index)) := by
  funext u
  rw [Attempt.bind_apply]
  simp only [InPlace.produce, field, hc, Attempt.lift]
  cases setting.registry.lookup name with
  | error e => rfl
  | ok c =>
    simp only [dif_neg hi]
    rfl

end Stray

def Retagged (tag : Nat → Nat → String) (v : Datum S t) (v' : Datum (S.retag tag) t) : Prop :=
  v' = v.retag tag

theorem lockstep_mirrors {c : Codec S} {c' : Codec (S.retag tag)} (h : c.Mirrors c')
    (d : Datum S t) :
    Lockstep .reading P Q (Retagged tag) (coded c d) (coded c' (d.retag tag)) := by
  have hread : Lockstep .reading P Q (Retagged tag)
      (read (.wrap t <$> InPlace.produce c.decode d.opened))
      (read (.wrap t <$> InPlace.produce c'.decode (d.retag tag).opened)) := by
    rw [Datum.opened_retag, h.decode, Functor.map_map]
    refine Lockstep.read ((Lockstep.same _).map fun v _ hv => ?_)
    subst hv
    exact (Datum.retag_wrap t v).symm
  refine hread.bind fun v v' hv => ?_
  have hcount : Lockstep .reading P Q Eq (count Metrics.overridden) (count Metrics.overridden) :=
    Lockstep.update (fun _ => rfl) fun _ => rfl
  exact hcount.bind fun _ _ _ => Lockstep.pure hv

section Steady

variable {c : Codec S} (hc : c.Steady)

include hc

theorem coded_optional (d : Datum S (.optional t)) :
    coded c d = .present <$> coded c (.initial t) := by
  rw [coded, coded, hc, hc]
  funext u
  simp only [bind, Functor.map, read, Attempt.within, Shape.pointee]
  rcases c.fresh t.pointee u.reader with ⟨_ | _, _⟩ <;> rfl

theorem coded_boxed (d : Datum S (.boxed t)) : coded c d = .boxed <$> coded c (.initial t) := by
  rw [coded, coded, hc, hc]
  funext u
  simp only [bind, Functor.map, read, Attempt.within, Shape.pointee]
  rcases c.fresh t.pointee u.reader with ⟨_ | _, _⟩ <;> rfl

end Steady

theorem lockstep_coded (h : t.Owns name b) (d : Datum S t) :
    Lockstep .reading {setting.tooDeep} ∅ Eq (InPlace.produce (value setting levels) d)
      (coded b.codec d) := by
  obtain ⟨s, key, ht, ho, -⟩ := h
  -- Neither side keeps anything of the old value, so the induction is on the shape.
  induction t generalizing levels with
  | scalar s' =>
    cases ht
    cases levels with
    | zero => exact Lockstep.excused (Set.mem_singleton setting.tooDeep) _
    | succ levels =>
      have hcoded : coded b.codec d = (do
          let v ← read (id <$> b.codec.fresh (.scalar s))
          count Metrics.overridden
          return v) := by
        rw [coded, b.steady_codec]
        rfl
      rw [produce_value_of_ne (by rintro k ⟨⟩), produce_body_scalar, hcoded, id_map,
        ← bind_pure (read (Datum.scalar <$> s.read))]
      refine (Scalar.lockstep_read ho).read.bind fun v _ hv => ?_
      subst hv
      exact Lockstep.of_alike fun _ _ hs => ⟨.ok rfl, hs⟩
  | optional t ih =>
    cases levels with
    | zero => exact Lockstep.excused (Set.mem_singleton setting.tooDeep) _
    | succ levels =>
      rw [produce_value_of_ne (by rintro k ⟨⟩), produce_body_optional,
        coded_optional b.steady_codec]
      exact (ih _ ht).map fun _ _ hv => congrArg Datum.present hv
  | boxed t ih =>
    cases levels with
    | zero => exact Lockstep.excused (Set.mem_singleton setting.tooDeep) _
    | succ levels =>
      rw [produce_value_of_ne (by rintro k ⟨⟩), produce_body_boxed, coded_boxed b.steady_codec]
      exact (ih _ ht).map fun _ _ hv => congrArg Datum.boxed hv
  | sequence | record | custom => cases ht

section Twins

variable {setting' : Setting (S.retag tag)} (htwins : setting.Twins setting')

section Nested

variable (ih : ∀ {t : Shape} (d : Datum S t), Lockstep .reading {setting.tooDeep} {setting.tooDeep}
  (Retagged tag) (InPlace.produce (value setting levels) d)
  (InPlace.produce (value setting' levels) (d.retag tag)))

include htwins ih

theorem lockstep_fieldValue {codec codec' : Option String} (h : t.Interchangeable codec codec')
    (d : Datum S t) :
    Lockstep .reading {setting.tooDeep} {setting.tooDeep} (Retagged tag)
      (InPlace.produce (fieldValue setting (value setting levels) codec) d)
      (InPlace.produce (fieldValue setting' (value setting' levels) codec') (d.retag tag)) := by
  cases h with
  | same codec =>
    cases codec with
    | none => exact ih d
    | some name =>
      rw [produce_fieldValue, produce_fieldValue]
      exact (Lockstep.lift (htwins.codecs name)).bind fun c c' hc => lockstep_mirrors hc d
  | named h =>
    rw [produce_fieldValue_of_lookup (htwins.own'.lookup h)]
    exact (lockstep_coded h d).trans (lockstep_mirrors (Builtin.mirrors_codec _) d)
      fun _ _ _ hab hbc => hab ▸ hbc
  | @dropped name b h =>
    have hown : Lockstep .reading ∅ {setting.tooDeep} Eq (coded b.codec (d.retag tag))
        (InPlace.produce (value setting' levels) (d.retag tag)) :=
      htwins.tooDeep ▸ (lockstep_coded h _).symm
    rw [produce_fieldValue_of_lookup (htwins.own.lookup h)]
    exact ((lockstep_mirrors (Builtin.mirrors_codec _) d).trans hown
      fun _ _ _ hab hbc => hbc ▸ hab).mono (Set.empty_subset _) le_rfl
  | renamed h h' =>
    rw [produce_fieldValue_of_lookup (htwins.own.lookup h),
      produce_fieldValue_of_lookup (htwins.own'.lookup h')]
    exact lockstep_mirrors (Builtin.mirrors_codec _) d

theorem lockstep_field {d d' : Descriptor} (h : S.Pairs r d d') (fields : Fields S r) :
    Lockstep .reading {setting.tooDeep} {setting.tooDeep} (fun f f' => f' = f.retag tag)
      (InPlace.produce (field setting (value setting levels) d) fields)
      (InPlace.produce (field setting' (value setting' levels) d') (fields.retag tag)) := by
  by_cases hi : d.index < S.arity r
  · have hshape : S.fieldShape r ⟨d.index, hi⟩ =
        (S.retag tag).fieldShape r (Schema.retagged tag ⟨d.index, hi⟩) :=
      (Schema.fieldShape_retag _).symm
    have hcast := InPlace.produce_cast (x := fieldValue setting' (value setting' levels) d'.codec)
      hshape
    rw [field_eq_through (i := ⟨d.index, hi⟩) rfl,
      field_eq_through (i := Schema.retagged tag ⟨d.index, hi⟩) h.index,
      InPlace.produce_through, InPlace.produce_through, Fields.retag_retagged, hcast,
      Functor.map_map]
    refine (lockstep_fieldValue htwins ih (h.codecs rfl) _).map fun v v' hv => ?_
    rw [show v' = v.retag tag from hv]
    exact Fields.retag_set fields _ v
  · obtain rfl := h.eq_of_stray hi
    have hi' : ¬ d'.index < (S.retag tag).arity r := S.arity_retag tag r ▸ hi
    cases hc : d'.codec with
    | none =>
      rw [produce_stray hc hi, produce_stray hc hi']
      exact Lockstep.fail _
    | some name =>
      rw [produce_stray_codec hc hi, produce_stray_codec hc hi']
      exact (Lockstep.lift (htwins.codecs name)).bind fun _ _ _ => Lockstep.fail _

theorem lockstep_fields {ds ds' : List Descriptor} (h : List.Forall₂ (S.Pairs r) ds ds')
    (fields : Fields S r) :
    Lockstep .reading {setting.tooDeep} {setting.tooDeep} (fun f f' => f' = f.retag tag)
      (InPlace.produce (fieldsInOrder setting (value setting levels) ds) fields)
      (InPlace.produce (fieldsInOrder setting' (value setting' levels) ds')
        (fields.retag tag)) := by
  induction h generalizing fields with
  | nil => exact Lockstep.pure rfl
  | cons hd _ ihds =>
    rw [produce_fieldsInOrder_cons, produce_fieldsInOrder_cons]
    refine (lockstep_field htwins ih hd fields).bind fun f f' hf => ?_
    subst hf
    exact ihds f

end Nested

include htwins

theorem lockstep_value (h : S.Interchanges tag) (levels : Nat) (d : Datum S t) :
    Lockstep .reading {setting.tooDeep} {setting.tooDeep} (Retagged tag)
      (InPlace.produce (value setting levels) d)
      (InPlace.produce (value setting' levels) (d.retag tag)) := by
  induction levels generalizing t with
  | zero => exact Lockstep.excused (Set.mem_singleton setting.tooDeep) _
  | succ levels ih =>
    have hfresh : ∀ t, Lockstep .reading {setting.tooDeep} {setting.tooDeep} (Retagged tag)
        (fresh (value setting levels) t) (fresh (value setting' levels) t) := by
      intro t
      have hinitial := ih (.initial t)
      rw [Datum.retag_initial] at hinitial
      exact hinitial
    cases d with
    | scalar x =>
      rw [produce_value_of_ne (by rintro k ⟨⟩), produce_value_of_ne (by rintro k ⟨⟩),
        produce_body_scalar, produce_body_scalar]
      exact Lockstep.read ((Lockstep.same _).map fun _ _ hx => congrArg Datum.scalar hx.symm)
    | @sequence t n item =>
      rw [produce_value_of_ne (by rintro k ⟨⟩), produce_value_of_ne (by rintro k ⟨⟩),
        produce_body_sequence, produce_body_sequence]
      refine (Lockstep.same _).read.bind ?_
      rintro n _ rfl
      have hitems := (hfresh t).collect n #[]
      rw [Array.map_empty] at hitems
      refine hitems.map fun a a' ha => ?_
      subst ha
      exact (Datum.retag_ofArray a).symm
    | @absent t | @present t =>
      rw [produce_value_of_ne (by rintro k ⟨⟩), produce_value_of_ne (by rintro k ⟨⟩),
        produce_body_optional, produce_body_optional]
      exact (hfresh t).map fun _ _ hv => congrArg Datum.present hv
    | @boxed t =>
      rw [produce_value_of_ne (by rintro k ⟨⟩), produce_value_of_ne (by rintro k ⟨⟩),
        produce_body_boxed, produce_body_boxed]
      exact (hfresh t).map fun _ _ hv => congrArg Datum.boxed hv
    | @record r fields =>
      rw [produce_value_of_ne (by rintro k ⟨⟩), produce_value_of_ne (by rintro k ⟨⟩),
        Datum.retag_record, produce_body_record, produce_body_record, htwins.options]
      refine (Lockstep.lift (h.layoutAt r _)).bind fun ds ds' hds => ?_
      refine (lockstep_fields htwins ih hds fields).map fun f f' hf => ?_
      subst hf
      exact Datum.retag_record f
    | @custom k x =>
      rw [produce_value_succ, produce_value_succ]
      have hannounce : Lockstep .reading {setting.tooDeep} {setting.tooDeep} Eq
          (Attempt.update (announce (.custom k))) (Attempt.update (announce (.custom k))) :=
        Lockstep.update (fun _ => rfl) fun _ => rfl
      refine hannounce.bind fun _ _ _ => ?_
      let again (x : (S.custom k).Carrier) : Datum (S.retag tag) (.custom k) :=
        (Datum.custom x).retag tag
      cases hu : (S.custom k).unmarshal with
      | stream step =>
        have hu' : ((S.retag tag).custom k).unmarshal = .stream step := hu
        have hbody' : InPlace.produce (body setting' (value setting' levels) (.custom k))
            (again x) = read (again <$> InPlace.produce (step setting.options.version) x) := by
          rw [← htwins.options]
          exact produce_body_custom hu' x
        rw [produce_body_custom hu, hbody']
        exact Lockstep.read ((Lockstep.same _).map fun _ _ hx => congrArg again hx.symm)
      | whole take =>
        have hu' : ((S.retag tag).custom k).unmarshal = .whole take := hu
        have hbody' : InPlace.produce (body setting' (value setting' levels) (.custom k))
            (again x) = again <$> read (InPlace.produce
              (Reader.remaining "unmarshal" (take setting.options.version)) x) := by
          rw [← htwins.options]
          exact produce_body_whole hu' x
        rw [produce_body_whole hu, hbody']
        exact (Lockstep.same _).read.map fun _ _ hx => congrArg again hx.symm

end Twins

end Decoding

end TagWire
