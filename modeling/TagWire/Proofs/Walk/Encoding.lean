import TagWire.Proofs.Codec.Pure
import TagWire.Proofs.Encoding
import TagWire.Proofs.Follows

/-! Levels of an encoder by a counter. An encoder need not be handed the levels that are left: it
may keep a counter of the levels it is in, which every value moves up before it is written and down
again after it. Whatever the outcome, the counter is then where it was, and the outcome is the one
that levels give. -/
namespace TagWire

namespace Encoding

variable {S : Schema} {τ : Type}

def walkField (lift : Lift EncodeState τ) (setting : Setting S)
    (nested : {t : Shape} → Datum S t → Attempt Error τ Unit) {r : Nat} (fields : Fields S r)
    (d : Descriptor) : Attempt Error τ Unit :=
  match d.codec with
  | some name => do
    let codec ← .lift (setting.registry.lookup name)
    if h : d.index < S.arity r then
      let _ ← (lift (write (codec.writeField (fields ⟨d.index, h⟩))) : Attempt Error τ Nat)
      lift (count Metrics.overridden)
    else .fail (.noSuchField (S.record r).name d.index)
  | none =>
    if h : d.index < S.arity r then nested (fields ⟨d.index, h⟩)
    else .fail (.noSuchField (S.record r).name d.index)

def walk (lift : Lift EncodeState τ) (setting : Setting S)
    (nested : {t : Shape} → Datum S t → Attempt Error τ Unit) :
    {t : Shape} → Datum S t → Attempt Error τ Unit
  | .scalar s, .scalar x => do
    let _ ← (lift (write (s.write x)) : Attempt Error τ Nat)
  | .sequence _, .sequence n item => do
    let _ ← (lift (write (Writer.size n)) : Attempt Error τ Nat)
    Attempt.forEach nested (List.ofFn item)
  | .optional t, .absent => .fail (.missingValue (t.optional.typeName S))
  | .optional _, .present d => nested d
  | .boxed _, .boxed d => nested d
  | .record r, .record fields => do
    let layout ← .lift ((S.record r).layoutAt setting.options.version)
    Attempt.forEach (walkField lift setting nested fields) layout
  | .custom k, .custom x => do
    let _ ← (lift (write ((S.custom k).marshal x setting.options.version)) : Attempt Error τ Nat)

theorem walkField_id (setting : Setting S) (nested : {t : Shape} → Datum S t → Encoding Unit)
    {r : Nat} (fields : Fields S r) (d : Descriptor) :
    walkField id setting nested fields d = field setting nested fields d := rfl

theorem walk_id (setting : Setting S) (nested : {t : Shape} → Datum S t → Encoding Unit)
    {t : Shape} (d : Datum S t) : walk id setting nested d = body setting nested d := by
  cases d <;> rfl

structure OwnSteps (R₀ : EncodeState → EncodeState → Prop) (h : Error → Error) (setting : Setting S)
    (t : Shape) : Prop where
  unplaced : ∀ e : Error, e.offset? = none → h e = e
  count : ∀ f, Follows R₀ (Except.mapError h) (count f) (count f)
  scalar : ∀ (s : Scalar) (x : s.Carrier),
    Follows R₀ (Except.mapError h) (write (s.write x)) (write (s.write x))
  size : ∀ n, Follows R₀ (Except.mapError h) (write (Writer.size n)) (write (Writer.size n))
  codecs : ∀ c, setting.Employs t c → ∀ {u : Shape} (d : Datum S u),
    Follows R₀ (Except.mapError h) (write (c.writeField d)) (write (c.writeField d))
  customs : ∀ k, S.Contains t (.custom k) → ∀ x : (S.custom k).Carrier,
    Follows R₀ (Except.mapError h) (write ((S.custom k).marshal x setting.options.version))
      (write ((S.custom k).marshal x setting.options.version))

variable {R₀ : EncodeState → EncodeState → Prop} {h : Error → Error} {setting : Setting S}
  {t u : Shape}

theorem OwnSteps.part (ho : OwnSteps R₀ h setting t) (hu : u ∈ S.parts t) :
    OwnSteps R₀ h setting u where
  unplaced := ho.unplaced
  count := ho.count
  scalar := ho.scalar
  size := ho.size
  codecs c hc := ho.codecs c (hc.of_part hu)
  customs k hk := ho.customs k (hk.head hu)

section Walks

variable {σ : Type} {R : σ → τ → Prop} {lift : Lift EncodeState σ} {lift' : Lift EncodeState τ}
  {nested : {t : Shape} → Datum S t → Attempt Error σ Unit}
  {nested' : {t : Shape} → Datum S t → Attempt Error τ Unit} (hlift : Lifts R₀ R lift lift')

include hlift

theorem follows_walkField {r : Nat} {fields : Fields S r} {layout : List Descriptor}
    {d : Descriptor} (hown : OwnSteps R₀ h setting (.record r))
    (hnested : ∀ i, Follows R (Except.mapError h) (nested (fields i)) (nested' (fields i)))
    (hlayout : (S.record r).layoutAt setting.options.version = .ok layout) (hd : d ∈ layout) :
    Follows R (Except.mapError h) (walkField lift setting nested fields d)
      (walkField lift' setting nested' fields d) := by
  have hstray : h (.noSuchField (S.record r).name d.index) =
      .noSuchField (S.record r).name d.index := hown.unplaced _ rfl
  unfold walkField
  split
  · next name hname =>
    refine .lift_bind (fun e he => hown.unplaced e ?_) fun c hc => ?_
    · rw [Registry.eq_unknownCodec_of_lookup he]
      rfl
    · split
      · next hi =>
        have hdesc := (Schema.mem_layoutAt hlayout ⟨d.index, hi⟩ d).1 ⟨hd, rfl⟩
        have hwrite := hown.codecs c ⟨r, ⟨d.index, hi⟩, d, name, Schema.Contains.refl, hdesc.1,
          hname, hc⟩ (fields ⟨d.index, hi⟩)
        exact (hlift hwrite).bind fun _ => hlift (hown.count _)
      · exact .fail hstray
  · split
    · exact hnested _
    · exact .fail hstray

theorem follows_walk (hown : OwnSteps R₀ h setting t)
    (hnested : ∀ u ∈ S.parts t, ∀ d : Datum S u,
      Follows R (Except.mapError h) (nested d) (nested' d)) (d : Datum S t) :
    Follows R (Except.mapError h) (walk lift setting nested d)
      (walk lift' setting nested' d) := by
  cases d with
  | @scalar s x => exact (hlift (hown.scalar s x)).bind fun _ => .pure ()
  | @sequence t n item =>
    refine (hlift (hown.size n)).bind fun _ => ?_
    exact .forEach fun d _ => hnested t (S.mem_parts_sequence t) d
  | absent => exact .fail (hown.unplaced _ rfl)
  | @present t d => exact hnested t (S.mem_parts_optional t) d
  | @boxed t d => exact hnested t (S.mem_parts_boxed t) d
  | @record r fields =>
    refine .lift_bind (fun e he => hown.unplaced e ?_) fun layout hlayout => ?_
    · obtain ⟨index, tag, fault, rfl⟩ := Schema.invalidTag_of_layoutAt he
      rfl
    · refine .forEach fun d hd => follows_walkField hlift hown (fun i => ?_) hlayout hd
      exact hnested _ (Schema.fieldShape_mem_parts r i) _
  | @custom k x =>
    exact (hlift (hown.customs k Schema.Contains.refl x)).bind fun _ => .pure ()

end Walks

theorem OwnSteps.same (setting : Setting S) (t : Shape) : OwnSteps Eq id setting t where
  unplaced _ _ := rfl
  count _ := .same Follows.mapError_id
  scalar _ _ := .same Follows.mapError_id
  size _ := .same Follows.mapError_id
  codecs _ _ _ _ := .same Follows.mapError_id
  customs _ _ _ := .same Follows.mapError_id

theorem follows_announce (hown : OwnSteps R₀ h setting t) :
    Follows R₀ (Except.mapError h) (announce t) (announce t) := by
  cases t with
  | custom => exact hown.count _
  | _ => exact .pure ()

theorem follows_levels (hown : OwnSteps R₀ h setting t) (levels : Nat) (d : Datum S t) :
    Follows R₀ (Except.mapError h) (value setting levels d) (value setting levels d) := by
  induction levels generalizing t with
  | zero => exact .fail (hown.unplaced _ rfl)
  | succ levels ih =>
    have hid : Lifts R₀ R₀ (id : Lift EncodeState _) id := fun hx => hx
    refine (follows_announce hown).bind fun _ => ?_
    have hwalk := follows_walk hid hown (fun _ hu d => ih (hown.part hu) d) d
    rwa [walk_id] at hwalk

def counting (setting : Setting S)
    (nested : {t : Shape} → Datum S t → Attempt Error (Counted EncodeState) Unit) {t : Shape}
    (d : Datum S t) : Attempt Error (Counted EncodeState) Unit :=
  let inside : Attempt Error (Counted EncodeState) Unit := do
    let _ ← (Counted.aside (announce t) : Attempt Error (Counted EncodeState) Unit)
    walk Counted.aside setting nested d
  Counted.level setting.options.maxDepth (.error (.depthExceeded setting.options.maxDepth)) inside

def counted (setting : Setting S) {t : Shape} (d : Datum S t) :
    Attempt Error (Counted EncodeState) Unit := fun c =>
  let r := value setting (setting.options.maxDepth - c.depth) d c.state
  (r.1, ⟨r.2, c.depth⟩)

theorem follows_counted (setting : Setting S) (depth : Nat) {t : Shape} (d : Datum S t) :
    Follows (Counted.At depth) (Except.mapError id)
      (value setting (setting.options.maxDepth - depth) d) (counted setting d) := by
  rintro s _ rfl
  exact ⟨(Follows.mapError_id _).symm, rfl⟩

theorem follows_counting
    {nested : {t : Shape} → Datum S t → Attempt Error (Counted EncodeState) Unit} {depth : Nat}
    (hnested : depth < setting.options.maxDepth → ∀ {t : Shape} (d : Datum S t),
      Follows (Counted.At (depth + 1)) (Except.mapError id)
        (value setting (setting.options.maxDepth - (depth + 1)) d) (nested d))
    {t : Shape} (d : Datum S t) :
    Follows (Counted.At depth) (Except.mapError id)
      (value setting (setting.options.maxDepth - depth) d) (counting setting nested d) := by
  by_cases hd : depth < setting.options.maxDepth
  · have hlevels : setting.options.maxDepth - depth =
        setting.options.maxDepth - (depth + 1) + 1 := by omega
    rw [hlevels]
    refine Counted.follows_level hd ?_
    have hlift : Lifts Eq (Counted.At (depth + 1)) (id : Lift EncodeState _) Counted.aside :=
      Counted.lifts_aside (depth + 1)
    have hown := OwnSteps.same setting t
    refine (hlift (follows_announce hown)).bind fun _ => ?_
    have hwalk := follows_walk hlift hown (fun u _ d => hnested hd d) d
    rwa [walk_id] at hwalk
  · rintro s _ rfl
    have hrefused : counting setting nested d ⟨s, depth⟩ =
        (.error (.depthExceeded setting.options.maxDepth), ⟨s, depth⟩) :=
      Counted.level_of_le (Nat.not_lt.1 hd)
    rw [hrefused, Nat.sub_eq_zero_of_le (Nat.not_lt.1 hd)]
    exact ⟨rfl, rfl⟩

/-- Writing with a counter has a solution, the levels that the counter leaves ... -/
theorem counted_eq (setting : Setting S) {t : Shape} (d : Datum S t) :
    counted setting d = counting setting (counted setting) d :=
  Counted.eq_of_follows (fun depth => follows_counted setting depth d)
    fun depth => follows_counting (fun _ => follows_counted setting (depth + 1)) d

section Solutions

variable {enc : {t : Shape} → Datum S t → Attempt Error (Counted EncodeState) Unit}
  (henc : ∀ {t : Shape} (d : Datum S t), enc d = counting setting enc d)

include henc

theorem follows_of_counting (depth : Nat) {t : Shape} (d : Datum S t) :
    Follows (Counted.At depth) (Except.mapError id)
      (value setting (setting.options.maxDepth - depth) d) (enc d) := by
  rw [henc]
  exact follows_counting (fun _ => follows_of_counting (depth + 1)) d
termination_by setting.options.maxDepth - depth

/-- ... and no other. -/
theorem eq_counted {t : Shape} (d : Datum S t) : enc d = counted setting d :=
  Counted.eq_of_follows (fun depth => follows_of_counting henc depth d)
    fun depth => follows_counted setting depth d

end Solutions

end Encoding

end TagWire
