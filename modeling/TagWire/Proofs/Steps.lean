import TagWire.Proofs.Codec.Typed

/-! What holds of all that a decoder does. A property of steps that holds of reading by typed reads,
and passes from two steps to the one after the other, holds of decoding a value of any shape, if it
holds of decoding the self-describing values within it. -/
namespace TagWire

variable {S : Schema} {setting : Setting S} {t : Shape} {r : Nat}

/-- Holds of reading by typed reads, of steps that leave the reader alone, and of two steps one
after the other. The errors that such steps may have of their own are among `own`. -/
structure ReadClosed (own : Error → Prop) (P : (α : Type) → Decoding α → Prop) : Prop where
  unplaced : ∀ e : Error, e.offset? = none → own e
  read : ∀ {α : Type} {x : Reading α}, Typed own x → P α (Decoding.read x)
  quiet : ∀ {α : Type} (f : Metrics → Metrics) (result : Except Error α),
    (∀ e, result = .error e → own e) → P α fun s => (result, { s with metrics := f s.metrics })
  bind : ∀ {α β : Type} {x : Decoding α} {f : α → Decoding β}, P α x → (∀ a, P β (f a)) →
    P β (x >>= f)

namespace ReadClosed

variable {own : Error → Prop} {P : (α : Type) → Decoding α → Prop} (hP : ReadClosed own P)

include hP

theorem update {α : Type} (f : Metrics → Metrics) (a : α) :
    P α fun s => (.ok a, { s with metrics := f s.metrics }) := by
  apply hP.quiet f (.ok a)
  rintro _ ⟨⟩

theorem pure {α : Type} (a : α) : P α (pure a) := hP.update id a

theorem fail {α : Type} {e : Error} (h : e.offset? = none) : P α (Attempt.fail e) := by
  apply hP.quiet id (.error e)
  rintro _ ⟨⟩
  exact hP.unplaced e h

theorem map {α β : Type} {x : Decoding α} (g : α → β) (hx : P α x) : P β (g <$> x) :=
  hP.bind hx fun a => hP.pure (g a)

theorem collect {α : Type} {x : Decoding α} (hx : P α x) (count : Nat) (done : Array α) :
    P (Array α) (Attempt.collect x count done) := by
  induction count generalizing done with
  | zero => exact hP.pure done
  | succ count ih =>
    rw [Attempt.collect_succ]
    exact hP.bind hx fun a => ih (done.push a)

theorem announce (t : Shape) : P Unit (Attempt.update (Decoding.announce t)) := by
  cases t with
  | custom => exact hP.update Metrics.delegated ()
  | _ => exact hP.update id ()

variable {dec : {t : Shape} → Overwriting S t} {layout : List Descriptor}
  (hplain : ∀ (i : Fin (S.arity r)) (d : Datum S (S.fieldShape r i)), P _ (InPlace.produce dec d))
  (hcodec : ∀ c, setting.Employs (.record r) c → c.Typed own)
  (hl : (S.record r).layoutAt setting.options.version = .ok layout)

include hplain hcodec hl

theorem field {d : Descriptor} (hd : d ∈ layout) (fields : Fields S r) :
    P _ (InPlace.produce (Decoding.field setting dec d) fields) := by
  by_cases hrefused : S.arity r ≤ d.index ∨
      ∃ name e, d.codec = some name ∧ setting.registry.lookup name = .error e
  · obtain ⟨e, he, hfield⟩ := Decoding.field_refused hrefused
    have hfail : InPlace.produce (Decoding.field setting dec d) fields = Attempt.fail e := by
      funext s
      simp only [InPlace.produce, hfield]
      rfl
    rw [hfail]
    exact hP.fail he
  · rw [not_or, Nat.not_le] at hrefused
    obtain ⟨hi, hknown⟩ := hrefused
    cases hc : d.codec with
    | none =>
      rw [Decoding.produce_field_plain hc hi]
      exact hP.map _ (hplain _ _)
    | some name =>
      cases hn : setting.registry.lookup name with
      | error e => exact absurd ⟨name, e, hc, hn⟩ hknown
      | ok c =>
        rw [Decoding.produce_field_codec hc hn hi]
        have hdesc := ((S.mem_layoutAt hl ⟨d.index, hi⟩ d).1 ⟨hd, rfl⟩).1
        have htyped := hcodec c ⟨r, _, d, name, Schema.Contains.refl, hdesc, hc, hn⟩
        refine hP.bind (hP.read ((htyped _ _).map _)) fun v => ?_
        exact hP.bind (hP.update Metrics.overridden ()) fun _ => hP.pure _

theorem fieldsInOrder {ds : List Descriptor} (hds : ∀ d ∈ ds, d ∈ layout) (fields : Fields S r) :
    P _ (InPlace.produce (Decoding.fieldsInOrder setting dec ds) fields) := by
  induction ds generalizing fields with
  | nil => exact hP.pure fields
  | cons d ds ih =>
    rw [Decoding.produce_fieldsInOrder_cons]
    refine hP.bind (hP.field hplain hcodec hl (hds d List.mem_cons_self) fields) fun fields => ?_
    exact ih (fun d hm => hds d (List.mem_cons_of_mem _ hm)) fields

omit hplain hcodec hl

theorem value (levels : Nat) (hcodec : ∀ c, setting.Employs t c → c.Typed own)
    (hc : ∀ k, S.Contains t (.custom k) → ∀ (dec : {t : Shape} → Overwriting S t)
      (d : Datum S (.custom k)), P _ (InPlace.produce (Decoding.body setting dec (.custom k)) d))
    (d : Datum S t) : P _ (InPlace.produce (Decoding.value setting levels) d) := by
  induction levels generalizing t with
  | zero => exact hP.fail (e := .depthExceeded setting.options.maxDepth) rfl
  | succ levels ih =>
    rw [Decoding.produce_value_succ]
    refine hP.bind (hP.announce t) fun _ => ?_
    have hpart := fun (u : Shape) (hu : u ∈ S.parts t) (d : Datum S u) =>
      ih (fun c h => hcodec c (h.of_part hu)) (fun k hk => hc k (hk.head hu)) d
    cases d with
    | @scalar s x =>
      rw [Decoding.produce_body_scalar]
      exact hP.read ((Typed.read s.typedRead_read).map _)
    | @sequence t n item =>
      rw [Decoding.produce_body_sequence]
      refine hP.bind (hP.read (.read .itemCount)) fun n => ?_
      exact hP.map _ (hP.collect (hpart t (S.mem_parts_sequence t) _) n #[])
    | @absent t | @present t d =>
      rw [Decoding.produce_body_optional]
      exact hP.map _ (hpart t (S.mem_parts_optional t) _)
    | @boxed t d =>
      rw [Decoding.produce_body_boxed]
      exact hP.map _ (hpart t (S.mem_parts_boxed t) _)
    | @record r fields =>
      rw [Decoding.produce_body_record]
      cases hl : (S.record r).layoutAt setting.options.version with
      | error e =>
        obtain ⟨index, tag, fault, rfl⟩ := Schema.invalidTag_of_layoutAt hl
        exact hP.fail (e := .invalidTag (S.record r).name index tag fault) rfl
      | ok layout =>
        refine hP.map _ (hP.fieldsInOrder (fun i d => ?_) hcodec hl (fun _ hd => hd) fields)
        exact hpart _ (Schema.fieldShape_mem_parts r i) d
    | @custom k x => exact hc k Schema.Contains.refl _ (.custom x)

end ReadClosed

/-- All codecs that tags within the shape name and all self-describing types within it read by typed
reads, and their own errors are among `own`. -/
structure Setting.Reads (setting : Setting S) (own : Error → Prop) (t : Shape) : Prop where
  codecs : ∀ c, setting.Employs t c → c.Typed own
  customs : ∀ k, S.Contains t (.custom k) → ∃ step, (S.custom k).unmarshal = .stream step ∧
    ∀ version x, Candid own (step version x)

theorem ReadClosed.value_of_reads {own : Error → Prop} {P : (α : Type) → Decoding α → Prop}
    (hP : ReadClosed own P) (levels : Nat) (h : setting.Reads own t) (d : Datum S t) :
    P _ (InPlace.produce (Decoding.value setting levels) d) := by
  refine hP.value levels h.codecs (fun k hk dec d => ?_) d
  obtain ⟨step, hstep, hcandid⟩ := h.customs k hk
  cases d with
  | custom x =>
    rw [Decoding.produce_body_custom hstep]
    exact hP.read ((typed_produce (hcandid _ x)).map _)

structure StepClosed (P : (α : Type) → Decoding α → Prop) : Prop where
  stepwise : ∀ {α : Type} {x : Decoding α}, Stepwise x → P α x
  bind : ∀ {α β : Type} {x : Decoding α} {f : α → Decoding β}, P α x → (∀ a, P β (f a)) →
    P β (x >>= f)

namespace StepClosed

variable {P : (α : Type) → Decoding α → Prop} (hP : StepClosed P)

include hP

theorem readClosed : ReadClosed (fun _ => True) P where
  unplaced _ _ := trivial
  read h := hP.stepwise (Decoding.stepwise_read h.stepwise)
  quiet _ result _ := hP.stepwise (.idle (fun _ _ => result) fun _ => ⟨_, rfl, rfl⟩)
  bind := hP.bind

theorem map {α β : Type} {x : Decoding α} (g : α → β) (hx : P α x) : P β (g <$> x) :=
  hP.readClosed.map g hx

theorem value {allowed : Builtin → Shape → Prop} (levels : Nat) (ho : setting.Overrides allowed t)
    (hc : ∀ k, S.Contains t (.custom k) → ∀ (dec : {t : Shape} → Overwriting S t)
      (d : Datum S (.custom k)), P _ (InPlace.produce (Decoding.body setting dec (.custom k)) d))
    (d : Datum S t) : P _ (InPlace.produce (Decoding.value setting levels) d) :=
  hP.readClosed.value levels (fun _ h => ho.typed (fun _ _ => trivial) h) hc d

end StepClosed

end TagWire
