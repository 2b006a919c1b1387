import TagWire.Proofs.Codec.Pure
import TagWire.Proofs.Decoding
import TagWire.Proofs.Follows

/-! Levels of a decoder by a counter, as those of an encoder: every value moves it up before it is
overwritten and down again after it, and the outcome is the one that levels give. A run that is over
for want of memory comes back through no levels; where the counter stands then is of no account. -/
namespace TagWire

namespace Decoding

variable {S : Schema} {σ τ : Type}

def codedInPlace (c : Codec S) {t : Shape} : Overwriting S t := fun v s =>
  let done := readInPlace c.readField v s
  (done.1, match done.1.1 with
    | .ok () => { done.2 with metrics := done.2.metrics.overridden }
    | .error _ => done.2)

def described (C : Custom) (version : Int) : InPlace Error DecodeState Unit C.Carrier :=
  match C.unmarshal with
  | .stream step => readInPlace (step version)
  | .whole take => readInPlace (Reader.remaining "unmarshal" (take version))

def walkField (lift : Lift DecodeState τ) (setting : Setting S)
    (nested : {t : Shape} → InPlace Error τ Unit (Datum S t)) {r : Nat} (d : Descriptor) :
    InPlace Error τ Unit (Fields S r) := fun fields s =>
  match d.codec with
  | some name =>
    match setting.registry.lookup name with
    | .error e => ((.error e, fields), s)
    | .ok codec =>
      if h : d.index < S.arity r then
        let done := lift (codedInPlace codec (fields ⟨d.index, h⟩)) s
        ((done.1.1, fields.set ⟨d.index, h⟩ done.1.2), done.2)
      else ((.error (.noSuchField (S.record r).name d.index), fields), s)
  | none =>
    if h : d.index < S.arity r then
      let done := nested (fields ⟨d.index, h⟩) s
      ((done.1.1, fields.set ⟨d.index, h⟩ done.1.2), done.2)
    else ((.error (.noSuchField (S.record r).name d.index), fields), s)

def walkFields (lift : Lift DecodeState τ) (setting : Setting S)
    (nested : {t : Shape} → InPlace Error τ Unit (Datum S t)) {r : Nat} :
    List Descriptor → InPlace Error τ Unit (Fields S r)
  | [], fields, s => ((.ok (), fields), s)
  | d :: rest, fields, s =>
    match walkField lift setting nested d fields s with
    | ((.ok (), fields), s) => walkFields lift setting nested rest fields s
    | ((.error e, fields), s) => ((.error e, fields), s)

/-- Overwrites a value itself; values within it go to `nested`, and steps of reading are carried
over by `lift`. -/
def walk (lift : Lift DecodeState τ) (setting : Setting S)
    (nested : {t : Shape} → InPlace Error τ Unit (Datum S t)) :
    (t : Shape) → InPlace Error τ Unit (Datum S t)
  | .scalar s => InPlace.assign (lift (read (.scalar <$> s.read)))
  | .sequence t => InPlace.assign do
    let n ← (lift (read Reader.itemCount) : Attempt Error τ Nat)
    .ofArray <$> Attempt.collect (InPlace.produce nested (.initial t)) n #[]
  | .optional t => InPlace.assign (.present <$> InPlace.produce nested (.initial t))
  | .boxed t => InPlace.assign (.boxed <$> InPlace.produce nested (.initial t))
  | .record r => fun (.record fields) s =>
    match (S.record r).layoutAt setting.options.version with
    | .error e => ((.error e, .record fields), s)
    | .ok layout =>
      let done := walkFields lift setting nested layout fields s
      ((done.1.1, .record done.1.2), done.2)
  | .custom k => fun (.custom x) s =>
    let done := lift (described (S.custom k) setting.options.version x) s
    ((done.1.1, .custom done.1.2), done.2)

section Identity

variable (setting : Setting S) (nested : {t : Shape} → Overwriting S t)

theorem walkField_id {r : Nat} (d : Descriptor) :
    (walkField id setting nested d : InPlace Error DecodeState Unit (Fields S r)) =
      field setting nested d := rfl

theorem walkFields_id {r : Nat} (ds : List Descriptor) :
    (walkFields id setting nested ds : InPlace Error DecodeState Unit (Fields S r)) =
      fieldsInOrder setting nested ds := by
  induction ds with
  | nil => rfl
  | cons d ds ih =>
    funext fields s
    rw [walkFields, fieldsInOrder, ih, walkField_id]
    rcases field setting nested d fields s with ⟨⟨_ | _, _⟩, _⟩ <;> rfl

theorem walk_id (t : Shape) : walk id setting nested t = body setting nested t := by
  funext d s
  cases d with
  | @record r fields =>
    cases hl : (S.record r).layoutAt setting.options.version <;>
      simp only [walk, body, hl, walkFields_id]
  | @custom k x =>
    cases hu : (S.custom k).unmarshal <;> simp only [walk, body, described, hu, id]
  | _ => rfl

end Identity

/-- What a value of the shape does with the reader by itself follows itself: reading scalars and
lengths, overwriting fields through codecs and self-describing values. Errors that know no position
stay as they are. -/
structure OwnSteps (R₀ : DecodeState → DecodeState → Prop) (h : Error → Error) (setting : Setting S)
    (t : Shape) : Prop where
  unplaced : ∀ e : Error, e.offset? = none → h e = e
  announce : ∀ (t : Shape) (s u : DecodeState), R₀ s u → R₀ (announce t s) (announce t u)
  scalar : ∀ s : Scalar, Follows R₀ (Except.mapError h)
    (read (.scalar <$> s.read) : Decoding (Datum S (.scalar s))) (read (.scalar <$> s.read))
  itemCount : Follows R₀ (Except.mapError h) (read Reader.itemCount) (read Reader.itemCount)
  codecs : ∀ c, setting.Employs t c → ∀ {u : Shape} (v : Datum S u),
    Follows R₀ (InPlace.onError h) (codedInPlace c v) (codedInPlace c v)
  customs : ∀ k, S.Contains t (.custom k) → ∀ x : (S.custom k).Carrier,
    Follows R₀ (InPlace.onError h) (described (S.custom k) setting.options.version x)
      (described (S.custom k) setting.options.version x)

variable {R₀ : DecodeState → DecodeState → Prop} {h : Error → Error} {setting : Setting S}
  {t u : Shape}

theorem OwnSteps.part (ho : OwnSteps R₀ h setting t) (hu : u ∈ S.parts t) :
    OwnSteps R₀ h setting u where
  unplaced := ho.unplaced
  announce := ho.announce
  scalar := ho.scalar
  itemCount := ho.itemCount
  codecs c hc := ho.codecs c (hc.of_part hu)
  customs k hk := ho.customs k (hk.head hu)

theorem OwnSteps.same (setting : Setting S) (t : Shape) : OwnSteps Eq id setting t where
  unplaced _ _ := rfl
  announce _ _ _ h := h ▸ rfl
  scalar _ := .same Follows.mapError_id
  itemCount := .same Follows.mapError_id
  codecs _ _ _ _ := .same Follows.onError_id
  customs _ _ _ := .same Follows.onError_id

section Walks

variable {R : σ → τ → Prop} {lift : Lift DecodeState σ} {lift' : Lift DecodeState τ}
  {nested : {t : Shape} → InPlace Error σ Unit (Datum S t)}
  {nested' : {t : Shape} → InPlace Error τ Unit (Datum S t)} (hlift : Lifts R₀ R lift lift')

include hlift

section Records

variable {r : Nat} {layout : List Descriptor} (hown : OwnSteps R₀ h setting (.record r))
  (hnested : ∀ (i : Fin (S.arity r)) (v : Datum S (S.fieldShape r i)),
    Follows R (InPlace.onError h) (nested v) (nested' v))
  (hlayout : (S.record r).layoutAt setting.options.version = .ok layout)

include hown hnested hlayout

theorem follows_walkField {d : Descriptor} (hd : d ∈ layout) (fields : Fields S r) :
    Follows R (InPlace.onError h) (walkField lift setting nested d fields)
      (walkField lift' setting nested' d fields) := by
  have hstray : h (.noSuchField (S.record r).name d.index) =
      .noSuchField (S.record r).name d.index := hown.unplaced _ rfl
  unfold walkField
  split
  · next name hname =>
    split
    · next e he =>
      have hunknown : h e = e := hown.unplaced e (by
        rw [Registry.eq_unknownCodec_of_lookup he]
        rfl)
      exact .refused hunknown fields
    · next c hc =>
      split
      · next hi =>
        have hdesc := (Schema.mem_layoutAt hlayout ⟨d.index, hi⟩ d).1 ⟨hd, rfl⟩
        have hcoded := hown.codecs c ⟨r, ⟨d.index, hi⟩, d, name, Schema.Contains.refl, hdesc.1,
          hname, hc⟩ (fields ⟨d.index, hi⟩)
        exact (hlift hcoded).through _
      · exact .refused hstray fields
  · split
    · exact (hnested _ _).through _
    · exact .refused hstray fields

theorem follows_walkFields {ds : List Descriptor} (hds : ∀ d ∈ ds, d ∈ layout)
    (fields : Fields S r) :
    Follows R (InPlace.onError h) (walkFields lift setting nested ds fields)
      (walkFields lift' setting nested' ds fields) := by
  induction ds generalizing fields with
  | nil => exact fun s u hs => ⟨rfl, hs⟩
  | cons d ds ih =>
    intro s u hs
    have hfirst := follows_walkField hlift hown hnested hlayout (hds d List.mem_cons_self) fields
    obtain ⟨u₁, hy, hr⟩ := hfirst.run hs
    rw [walkFields, walkFields, hy]
    rcases hx : walkField lift setting nested d fields s with ⟨⟨e | _, fields₁⟩, s₁⟩
    · rw [hx] at hr
      exact ⟨rfl, hr⟩
    · rw [hx] at hr
      exact ih (fun d hm => hds d (List.mem_cons_of_mem _ hm)) fields₁ s₁ u₁ hr

end Records

theorem follows_walk (hown : OwnSteps R₀ h setting t)
    (hnested : ∀ u ∈ S.parts t, ∀ d : Datum S u,
      Follows R (InPlace.onError h) (nested d) (nested' d)) (d : Datum S t) :
    Follows R (InPlace.onError h) (walk lift setting nested t d)
      (walk lift' setting nested' t d) := by
  cases d with
  | @scalar s x => exact Follows.assign (hlift (hown.scalar s)) _
  | @sequence t n item =>
    have hitem := (hnested t (S.mem_parts_sequence t) (.initial t)).produce
    refine Follows.assign ((hlift hown.itemCount).bind fun n => ?_) _
    exact (hitem.collect n #[]).map _
  | @absent t | @present t d =>
    exact ((hnested t (S.mem_parts_optional t) (.initial t)).produce.map _).assign _
  | @boxed t d =>
    exact ((hnested t (S.mem_parts_boxed t) (.initial t)).produce.map _).assign _
  | @record r fields =>
    rw [walk, walk]
    cases hlayout : (S.record r).layoutAt setting.options.version with
    | error e =>
      have hbad : h e = e := hown.unplaced e (by
        obtain ⟨index, tag, fault, rfl⟩ := Schema.invalidTag_of_layoutAt hlayout
        rfl)
      exact .refused hbad _
    | ok layout =>
      have hfields := follows_walkFields hlift hown
        (fun i d => hnested _ (Schema.fieldShape_mem_parts r i) d) hlayout (fun _ hd => hd) fields
      exact hfields.through _
  | @custom k x =>
    exact (hlift (hown.customs k Schema.Contains.refl x)).through _

end Walks

theorem follows_levels (hown : OwnSteps R₀ h setting t) (levels : Nat) (d : Datum S t) :
    Follows R₀ (InPlace.onError h) (value setting levels d) (value setting levels d) := by
  induction levels generalizing t with
  | zero => exact .refused (hown.unplaced _ rfl) d
  | succ levels ih =>
    have hid : Lifts R₀ R₀ (id : Lift DecodeState _) id := fun hx => hx
    have hwalk := follows_walk hid hown (fun _ hu d => ih (hown.part hu) d) d
    rw [walk_id] at hwalk
    exact fun s u hs => hwalk (announce t s) (announce t u) (hown.announce t s u hs)

/-- A value overwritten with a counter of levels, where `nested` overwrites the values within it. -/
def counting (setting : Setting S)
    (nested : {t : Shape} → InPlace Error (Counted DecodeState) Unit (Datum S t)) {t : Shape} :
    InPlace Error (Counted DecodeState) Unit (Datum S t) := fun d =>
  Counted.level setting.options.maxDepth
    (.error (.depthExceeded setting.options.maxDepth), d) fun c =>
      walk Counted.aside setting nested t d { c with state := announce t c.state }

def counted (setting : Setting S) {t : Shape} :
    InPlace Error (Counted DecodeState) Unit (Datum S t) := fun d c =>
  let r := value setting (setting.options.maxDepth - c.depth) d c.state
  (r.1, ⟨r.2, c.depth⟩)

theorem follows_counted (setting : Setting S) (depth : Nat) {t : Shape} (d : Datum S t) :
    Follows (Counted.At depth) (InPlace.onError id)
      (value setting (setting.options.maxDepth - depth) d) (counted setting d) := by
  rintro s _ rfl
  exact ⟨(Follows.onError_id _).symm, rfl⟩

/-- Within the limit the counter takes the place of one more level, and at the limit of none. -/
theorem follows_counting
    {nested : {t : Shape} → InPlace Error (Counted DecodeState) Unit (Datum S t)} {depth : Nat}
    (hnested : depth < setting.options.maxDepth → ∀ {t : Shape} (d : Datum S t),
      Follows (Counted.At (depth + 1)) (InPlace.onError id)
        (value setting (setting.options.maxDepth - (depth + 1)) d) (nested d))
    {t : Shape} (d : Datum S t) :
    Follows (Counted.At depth) (InPlace.onError id)
      (value setting (setting.options.maxDepth - depth) d) (counting setting nested d) := by
  by_cases hd : depth < setting.options.maxDepth
  · have hlevels : setting.options.maxDepth - depth =
        setting.options.maxDepth - (depth + 1) + 1 := by omega
    rw [hlevels]
    refine Counted.follows_level hd ?_
    have hlift : Lifts Eq (Counted.At (depth + 1)) (id : Lift DecodeState _) Counted.aside :=
      Counted.lifts_aside (depth + 1)
    have hwalk := follows_walk hlift (OwnSteps.same setting t) (fun u _ d => hnested hd d) d
    rw [walk_id] at hwalk
    rintro s _ rfl
    exact hwalk (announce t s) ⟨announce t s, depth + 1⟩ rfl
  · rintro s _ rfl
    have hrefused : counting setting nested d ⟨s, depth⟩ =
        ((.error (.depthExceeded setting.options.maxDepth), d), ⟨s, depth⟩) :=
      Counted.level_of_le (Nat.not_lt.1 hd)
    rw [hrefused, Nat.sub_eq_zero_of_le (Nat.not_lt.1 hd)]
    exact ⟨rfl, rfl⟩

/-- Reading with a counter has a solution, the levels that the counter leaves ... -/
theorem counted_eq (setting : Setting S) {t : Shape} (d : Datum S t) :
    counted setting d = counting setting (counted setting) d :=
  Counted.eq_of_follows (fun depth => follows_counted setting depth d)
    fun depth => follows_counting (fun _ => follows_counted setting (depth + 1)) d

section Solutions

variable {dec : {t : Shape} → InPlace Error (Counted DecodeState) Unit (Datum S t)}
  (hdec : ∀ {t : Shape} (d : Datum S t), dec d = counting setting dec d)

include hdec

theorem follows_of_counting (depth : Nat) {t : Shape} (d : Datum S t) :
    Follows (Counted.At depth) (InPlace.onError id)
      (value setting (setting.options.maxDepth - depth) d) (dec d) := by
  rw [hdec]
  exact follows_counting (fun _ => follows_of_counting (depth + 1)) d
termination_by setting.options.maxDepth - depth

/-- ... and no other. -/
theorem eq_counted {t : Shape} (d : Datum S t) : dec d = counted setting d :=
  Counted.eq_of_follows (fun depth => follows_of_counting hdec depth d)
    fun depth => follows_counted setting depth d

end Solutions

end Decoding

end TagWire
