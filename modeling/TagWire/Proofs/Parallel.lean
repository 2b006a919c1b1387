import TagWire.Proofs.Codec.Pure
import TagWire.Proofs.Layout

/-! What holds of two runs of an encoder on one value, at two versions. They part in every record
with a field that only the higher version has; everywhere else they take the same steps. A relation
between steps that allows for both holds of the runs, if it holds where self-describing values are
written. -/
namespace TagWire

variable {S : Schema} {setting : Setting S} {t : Shape} {r : Nat} {v₁ v₂ : Int}

def Setting.withVersion (setting : Setting S) (version : Int) : Setting S :=
  { setting with options := { setting.options with version } }

theorem Descriptor.isPresent_of_le {d : Descriptor} (hv : v₁ ≤ v₂) (h : d.isPresent v₁ = true) :
    d.isPresent v₂ = true := by
  simp only [isPresent, Bool.and_eq_true, decide_eq_true_eq] at h ⊢
  exact ⟨h.1, Int.le_trans h.2 hv⟩

/-- Holds of a step and itself, if it always writes the same, and of two steps one after the other
in both runs; and the first run may leave out a step of the second. -/
structure ParallelClosed (R : (α : Type) → Encoding α → Encoding α → Prop) : Prop where
  constant : ∀ {α : Type} {x : Encoding α}, Constant x → R α x x
  bind : ∀ {α β : Type} {x y : Encoding α} {f g : α → Encoding β}, R α x y →
    (∀ a b, R β (f a) (g b)) → R β (x >>= f) (y >>= g)
  skip : ∀ {x y : Encoding Unit}, R Unit x y → R Unit (pure ()) y

namespace ParallelClosed

variable {R : (α : Type) → Encoding α → Encoding α → Prop} (hR : ParallelClosed R)

include hR

theorem forEach_filter {γ : Type} {f g : γ → Encoding Unit} {p q : γ → Bool} {cs : List γ}
    (h : ∀ c ∈ cs, R Unit (f c) (g c)) (hpq : ∀ c ∈ cs, p c = true → q c = true) :
    R Unit (Attempt.forEach f (cs.filter p)) (Attempt.forEach g (cs.filter q)) := by
  induction cs with
  | nil => exact hR.constant (Constant.pure ())
  | cons c cs ih =>
    have hc := h c List.mem_cons_self
    have ih := ih (fun c hm => h c (List.mem_cons_of_mem _ hm))
      fun c hm => hpq c (List.mem_cons_of_mem _ hm)
    by_cases hq : q c = true
    · rw [List.filter_cons_of_pos hq, Attempt.forEach_cons]
      by_cases hp : p c = true
      · rw [List.filter_cons_of_pos hp, Attempt.forEach_cons]
        exact hR.bind hc fun _ _ => ih
      · rw [List.filter_cons_of_neg hp]
        exact hR.bind (hR.skip hc) fun _ _ => ih
    · have hp : ¬ p c = true := fun hp => hq (hpq c List.mem_cons_self hp)
      rw [List.filter_cons_of_neg hq, List.filter_cons_of_neg hp]
      exact ih

theorem forEach {γ : Type} {f g : γ → Encoding Unit} {cs : List γ}
    (h : ∀ c ∈ cs, R Unit (f c) (g c)) :
    R Unit (Attempt.forEach f cs) (Attempt.forEach g cs) := by
  have hf := hR.forEach_filter (p := fun _ => true) (q := fun _ => true) h fun _ _ hp => hp
  have hall : cs.filter (fun _ => true) = cs := by simp
  rwa [hall] at hf

section Bodies

variable {enc₁ enc₂ : {t : Shape} → Datum S t → Encoding Unit}

theorem body_sequence {n : Nat} {item : Fin n → Datum S t}
    (h : ∀ d : Datum S t, R Unit (enc₁ d) (enc₂ d)) :
    R Unit (Encoding.body (setting.withVersion v₁) enc₁ (.sequence n item))
      (Encoding.body (setting.withVersion v₂) enc₂ (.sequence n item)) := by
  rw [Encoding.body_sequence, Encoding.body_sequence]
  have hsize := Constant.of_emits (Encoding.emits_write (Writer.emits_size n))
  exact hR.bind (hR.constant hsize) fun _ _ => hR.forEach fun d _ => h d

/-- A lower version passes over fields that a higher one has, and over no others. What a codec
writes of a field is the same at both. -/
theorem body_record {fields : Fields S r} (hv : v₁ ≤ v₂)
    (hc : ∀ c, setting.Employs (.record r) c → c.Pure)
    (hplain : ∀ i, R Unit (enc₁ (fields i)) (enc₂ (fields i))) :
    R Unit (Encoding.body (setting.withVersion v₁) enc₁ (.record fields))
      (Encoding.body (setting.withVersion v₂) enc₂ (.record fields)) := by
  rw [Encoding.body_record, Encoding.body_record]
  cases hl : (S.record r).layout with
  | error e =>
    have hbad : ∀ version, (S.record r).layoutAt version = .error e := by
      intro version
      unfold RecordType.layoutAt
      rw [hl]
      rfl
    simp only [Setting.withVersion, hbad]
    exact hR.constant (Constant.fail e)
  | ok ds =>
    simp only [Setting.withVersion, Schema.layoutAt_of_ok hl]
    refine hR.forEach_filter (fun d hd => ?_) fun d _ hp => Descriptor.isPresent_of_le hv hp
    cases hn : d.codec with
    | some name =>
      have hsame : Encoding.field setting enc₁ fields d = Encoding.field setting enc₂ fields d := by
        unfold Encoding.field
        rw [hn]
      change R Unit (Encoding.field setting enc₁ fields d) (Encoding.field setting enc₂ fields d)
      rw [hsame]
      exact hR.constant (Setting.constant_field hc hl hd hn)
    | none =>
      unfold Encoding.field
      rw [hn]
      dsimp only
      split
      · exact hplain _
      · exact hR.constant (Constant.fail _)

end Bodies

theorem value {levels : Nat} (hv : v₁ ≤ v₂) (hc : ∀ c, setting.Employs t c → c.Pure)
    (hm : ∀ k, S.Contains t (.custom k) → ∀ x : (S.custom k).Carrier,
      R Nat (Encoding.write ((S.custom k).marshal x v₁))
        (Encoding.write ((S.custom k).marshal x v₂)))
    (d : Datum S t) :
    R Unit (Encoding.value (setting.withVersion v₁) levels d)
      (Encoding.value (setting.withVersion v₂) levels d) := by
  induction levels generalizing t with
  | zero => exact hR.constant (Constant.fail _)
  | succ levels ih =>
    have hannounce := hR.constant (Constant.of_emits (Encoding.emits_announce t))
    refine hR.bind hannounce fun _ _ => ?_
    have hpart := fun (u : Shape) (hu : u ∈ S.parts t) (d : Datum S u) =>
      ih (fun c h => hc c (h.of_part hu)) (fun k hk => hm k (hk.head hu)) d
    cases d with
    | scalar x =>
      have hx := Encoding.constant_write (Scalar.constant_write x)
      exact hR.constant (hx.bind fun _ => Constant.pure ())
    | @sequence t => exact hR.body_sequence (hpart t (S.mem_parts_sequence t))
    | absent => exact hR.constant (Constant.fail _)
    | @present t d => exact hpart t (S.mem_parts_optional t) d
    | @boxed t d => exact hpart t (S.mem_parts_boxed t) d
    | @record r fields =>
      exact hR.body_record hv hc fun i => hpart _ (Schema.fieldShape_mem_parts r i) _
    | @custom k x =>
      have hx := hm k Schema.Contains.refl x
      exact hR.bind hx fun _ _ => hR.constant (Constant.pure ())

end ParallelClosed

end TagWire
