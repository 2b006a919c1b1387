import TagWire.Proofs.Carried
import TagWire.Proofs.Schema.Fields

/-! What is written of a value is read as what it carries. Encoder and decoder go through the parts
of a value in the same order and with as many levels left, and each part that is written is taken by
the step that reads it. What taking means, and of which readers, is left open. -/
namespace TagWire

variable {S : Schema} {setting : Setting S} {L : Limits} {t : Shape} {r : Nat}
  {T : (α : Type) → Decoding α → List UInt8 → α → Prop}

/-- A meaning of taking bytes for a value: steps that take them of every reader do, and it passes
from two steps to the one after the other. -/
structure Intake (L : Limits) (T : (α : Type) → Decoding α → List UInt8 → α → Prop) : Prop where
  of_takes : ∀ {α : Type} {x : Decoding α} {bs : List UInt8} {a : α}, Takes L x bs a → T α x bs a
  bind : ∀ {α β : Type} {x : Decoding α} {f : α → Decoding β} {bs cs : List UInt8} {a : α} {b : β},
    T α x bs a → T β (f a) cs b → T β (x >>= f) (bs ++ cs) b

theorem Intake.takes (L : Limits) : Intake L fun _ x bs a => Takes L x bs a := ⟨id, Takes.bind⟩

theorem Intake.map (hT : Intake L T) {α β : Type} {x : Decoding α} {bs : List UInt8} {a : α}
    (g : α → β) (hx : T α x bs a) : T β (g <$> x) bs (g a) := by
  have h := hT.bind (f := fun a => pure (g a)) hx (hT.of_takes (Takes.pure (g a)))
  rwa [List.append_nil] at h

namespace Datum

def All (P : (k : Nat) → (S.custom k).Carrier → Prop) : {t : Shape} → Datum S t → Prop
  | _, .scalar _ => True
  | _, .sequence _ item => ∀ i, (item i).All P
  | _, .absent => True
  | _, .present d => d.All P
  | _, .boxed d => d.All P
  | _, .record field => ∀ i, (field i).All P
  | _, .custom (k := k) x => P k x

theorem all_of_forall {P : (k : Nat) → (S.custom k).Carrier → Prop} (h : ∀ k x, P k x) :
    {t : Shape} → (d : Datum S t) → d.All P
  | _, .scalar _ => trivial
  | _, .sequence _ item => fun i => all_of_forall h (item i)
  | _, .absent => trivial
  | _, .present d => all_of_forall h d
  | _, .boxed d => all_of_forall h d
  | _, .record field => fun i => all_of_forall h (field i)
  | _, .custom (k := k) x => h k x

end Datum

theorem Builtin.appends_writeField {b : Builtin} (hb : b.Exact) {d : Datum S t}
    (h : ∀ p, d.pointee = .ok p → b.Within L p) :
    Appends (b.codec.writeField d) fun _ bs =>
      Takes L (.wrap t <$> b.codec.fresh t.pointee) bs (d.recode b.convert) := by
  refine Appends.lift_bind fun p hp => (Builtin.carries_codec hb (h p hp)).mono fun _ bs hbs => ?_
  rw [Datum.recode_of_pointee hp]
  exact hbs.map _

namespace Intake

theorem appends_items (hT : Intake L T) {α β : Type} {f : α → Encoding Unit} {x : Decoding β}
    (g : α → β) (as : List α) (h : ∀ a ∈ as, Appends (f a) fun _ bs => T β x bs (g a)) :
    Appends (Attempt.forEach f as : Encoding Unit) fun _ bs => ∀ done,
      T (Array β) (Attempt.collect x as.length done) bs (done ++ (as.map g).toArray) := by
  induction as with
  | nil =>
    refine (Emits.pure ()).appends fun done => ?_
    rw [List.map_nil, Array.append_empty]
    exact hT.of_takes (Takes.pure done)
  | cons a as ih =>
    rw [Attempt.forEach_cons]
    refine (h a List.mem_cons_self).bind fun _ bs hb => ?_
    refine (ih fun a ha => h a (List.mem_cons_of_mem _ ha)).mono fun _ cs hc done => ?_
    rw [List.length_cons, Attempt.collect_succ]
    have hd : done ++ ((a :: as).map g).toArray = done.push (g a) ++ (as.map g).toArray := by
      simp
    rw [hd]
    exact hT.bind hb (hc _)

theorem appends_fields (hT : Intake L T) (enc : {t : Shape} → Datum S t → Encoding Unit)
    (dec : {t : Shape} → Overwriting S t) (fields carried : Fields S r)
    (hplain : ∀ i, setting.passage r i = .plain →
      Appends (enc (fields i)) fun _ bs => T _ (Decoding.fresh dec _) bs (carried i))
    (hthrough : ∀ i b, setting.passage r i = .through b → b.Exact →
      Appends (b.codec.writeField (fields i)) fun _ bs =>
        Takes L (.wrap _ <$> b.codec.fresh _) bs (carried i))
    {ds : List Descriptor} (hd : ∀ d ∈ ds, setting.Faces (fun b _ => b.Exact) r d)
    (hn : (ds.map Descriptor.index).Nodup) :
    Appends (Attempt.forEach (Encoding.field setting enc fields) ds : Encoding Unit) fun _ bs =>
      ∀ old : Fields S r, old.EqOn ds (fun _ => .initial _) → old.EqOff ds carried →
        T _ (InPlace.produce (Decoding.fieldsInOrder setting dec ds) old) bs carried := by
  induction ds with
  | nil =>
    refine (Emits.pure ()).appends fun old _ hoff => ?_
    rw [Decoding.produce_fieldsInOrder_nil, hoff.eq]
    exact hT.of_takes (Takes.pure carried)
  | cons d ds ih =>
    rw [List.map_cons, List.nodup_cons] at hn
    have ih := ih (fun d hm => hd d (List.mem_cons_of_mem _ hm)) hn.2
    rw [Attempt.forEach_cons]
    cases hd d List.mem_cons_self with
    | refused e encode _ =>
      rw [encode]
      exact Appends.bind (P := fun _ _ => False) (Appends.fail e) fun _ _ h => h.elim
    | plain i hi hp encode decode =>
      rw [encode]
      -- The field is still pending, so what is read over its first value is read over `old`.
      refine (hplain i hp).bind fun _ bs hb => ih.mono fun _ cs hc old hon hoff => ?_
      rw [Decoding.produce_fieldsInOrder_cons, decode, hon.head hi]
      exact hT.bind (hT.map _ hb) (hc _ (hon.set hn.1 hi _) (hoff.set hi))
    | through i b hi hp hb encode decode =>
      rw [encode]
      have hfield : Appends (do
          let _ ← Encoding.write (b.codec.writeField (fields i))
          Encoding.count Metrics.overridden) fun _ bs =>
          Takes L (Decoding.read (.wrap _ <$> b.codec.fresh _)) bs (carried i) :=
        (Encoding.appends_write (hthrough i b hp hb)).bind fun _ bs hb =>
          Encoding.appends_count _ (by
            rw [List.append_nil]
            exact Decoding.takes_read hb)
      refine hfield.bind fun _ bs hb => ih.mono fun _ cs hc old hon hoff => ?_
      rw [Decoding.produce_fieldsInOrder_cons, decode]
      refine hT.bind (hT.of_takes ?_) (hc _ (hon.set hn.1 hi _) (hoff.set hi))
      rw [← List.append_nil bs]
      exact hb.bind ((Decoding.takes_count _).bind (Takes.pure _))

section Bodies

variable {enc : {t : Shape} → Datum S t → Encoding Unit} {dec : {t : Shape} → Overwriting S t}
  (hT : Intake setting.options.limits T)

include hT

theorem appends_body_sequence {n : Nat} {item : Fin n → Datum S t}
    (hw : (Datum.sequence n item).Within setting)
    (hitem : ∀ i, Appends (enc (item i)) fun _ bs =>
      T _ (Decoding.fresh dec t) bs ((item i).carried setting)) :
    Appends (Encoding.body setting enc (.sequence n item)) fun _ bs =>
      T _ (InPlace.produce (Decoding.body setting dec _) (.initial (.sequence t))) bs
        ((Datum.sequence n item).carried setting) := by
  rw [Encoding.body_sequence, Decoding.produce_body_sequence]
  refine Appends.after (Encoding.emits_write (Writer.emits_size n)) ?_
  have hitems := hT.appends_items (fun d => d.carried setting) (List.ofFn item) fun d hd => by
    obtain ⟨i, rfl⟩ := List.mem_ofFn.1 hd
    exact hitem i
  refine hitems.mono fun _ bs hbs => ?_
  refine hT.bind (hT.of_takes (Decoding.takes_read (Reader.takes_itemCount hw.2.1 hw.1))) ?_
  have hcollect := hT.map Datum.ofArray (hbs #[])
  have hall : #[] ++ ((List.ofFn item).map fun d => d.carried setting).toArray =
      ((Datum.sequence n item).carried setting).items.toArray := by
    simp [Datum.carried, Datum.items, List.map_ofFn, Function.comp_def]
  rwa [List.length_ofFn, hall, Datum.ofArray_items] at hcollect

theorem appends_body_record {fields : Fields S r}
    (ho : setting.Overrides (fun b _ => b.Exact) (.record r))
    (hw : (Datum.record fields).Within setting)
    (hfield : ∀ i, setting.passage r i = .plain → Appends (enc (fields i)) fun _ bs =>
      T _ (Decoding.fresh dec _) bs ((fields i).carried setting)) :
    Appends (Encoding.body setting enc (.record fields)) fun _ bs =>
      T _ (InPlace.produce (Decoding.body setting dec _) (.initial (.record r))) bs
        ((Datum.record fields).carried setting) := by
  rw [Encoding.body_record, Datum.initial_record, Decoding.produce_body_record]
  refine Appends.lift_bind fun layout hl => ?_
  refine (hT.appends_fields enc dec fields (Datum.carriedField setting fields) (fun i hi => ?_)
    (fun i b hi hb => ?_) (fun d => ho.faces hl) (S.nodup_layoutAt hl)).mono fun _ bs hbs => ?_
  · rw [Datum.carriedField_plain fields hi]
    exact hfield i hi
  · rw [Datum.carriedField_through fields hi]
    exact b.appends_writeField hb fun p => hw.through hi
  · -- A field without a descriptor was never read: it has its first value, as is carried.
    rw [hl, Datum.carried_record]
    refine hT.map _ (hbs _ (fun _ _ => rfl) fun i hi => ?_)
    exact (Datum.carriedField_off fields (Setting.passage_of_not_mem hl hi)).symm

theorem appends_value {P : (k : Nat) → (S.custom k).Carrier → Prop} {levels : Nat} {d : Datum S t}
    (hc : ∀ k, S.Contains t (.custom k) → ∀ x, P k x →
      ∀ (enc : {t : Shape} → Datum S t → Encoding Unit) (dec : {t : Shape} → Overwriting S t),
        Appends (Encoding.body setting enc (.custom x)) fun _ bs =>
          T _ (InPlace.produce (Decoding.body setting dec (.custom k)) (.initial _)) bs (.custom x))
    (ho : setting.Overrides (fun b _ => b.Exact) t) (hall : d.All P) (hw : d.Within setting) :
    Appends (Encoding.value setting levels d) fun _ bs =>
      T _ (Decoding.fresh (Decoding.value setting levels) t) bs (d.carried setting) := by
  induction levels generalizing t with
  | zero => exact Appends.fail _
  | succ levels ih =>
    have hpart := fun (u : Shape) (hu : u ∈ S.parts t) (d : Datum S u) =>
      ih (fun k hk => hc k (hk.head hu)) (ho.part hu) (d := d)
    rw [Decoding.fresh, Decoding.produce_value_succ]
    refine Appends.after (Encoding.emits_announce t) ?_
    have hannounce : ∀ {x : Decoding (Datum S t)} {bs : List UInt8} {v : Datum S t},
        T _ x bs v → T _ (do Attempt.update (Decoding.announce t); x) ([] ++ bs) v := fun hx =>
      hT.bind (hT.of_takes (Decoding.takes_announce t)) hx
    refine Appends.mono (P := fun _ bs => T _ (InPlace.produce (Decoding.body setting
      (Decoding.value setting levels) t) (.initial t)) bs (d.carried setting)) ?_
      fun _ _ => hannounce
    cases d with
    | @scalar s x =>
      rw [Encoding.body_scalar, Decoding.produce_body_scalar]
      refine (Encoding.appends_write Scalar.appends_write).bind fun _ bs h => ?_
      refine (Emits.pure ()).appends ?_
      rw [List.append_nil, h.2]
      exact hT.of_takes (Decoding.takes_read ((Scalar.takes_read h.1 hw).map _))
    | @sequence t n item =>
      exact hT.appends_body_sequence hw fun i =>
        hpart t (S.mem_parts_sequence t) (item i) (hall i) (hw.2.2 i)
    | absent => exact Appends.fail _
    | @present t d =>
      rw [Decoding.produce_body_optional]
      exact (hpart t (S.mem_parts_optional t) d hall hw).mono fun _ bs h => hT.map _ h
    | @boxed t d =>
      rw [Decoding.produce_body_boxed]
      exact (hpart t (S.mem_parts_boxed t) d hall hw).mono fun _ bs h => hT.map _ h
    | @record r fields =>
      exact hT.appends_body_record ho hw fun i hi =>
        hpart _ (Schema.fieldShape_mem_parts r i) (fields i) (hall i) (hw.plain hi)
    | @custom k x => exact hc k Schema.Contains.refl x hall _ _

end Bodies

end Intake

end TagWire
