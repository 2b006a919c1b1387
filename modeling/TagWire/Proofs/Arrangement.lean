import Mathlib.Logic.Equiv.Defs
import TagWire.Proofs.Session
import TagWire.Proofs.WireOrder

/-! Records with the same fields in another order. Where wire numbers tell the fields apart, the
order of declaration has no part in what is written and read: both records go through the same
fields in the same order, and each step on one does the same as the step on the other. -/
namespace TagWire

variable {S : Schema} {setting : Setting S} {r r' : Nat}

namespace Datum

variable {t u : Shape}

def cast (h : t = u) (d : Datum S t) : Datum S u := h ▸ d

@[simp] theorem initial_cast (h : t = u) : (initial t : Datum S t).cast h = initial u := by
  subst h
  rfl

theorem apply_cast {γ : Type} (f : {t : Shape} → Datum S t → γ) (h : t = u) (d : Datum S t) :
    f (d.cast h) = f d := by
  subst h
  rfl

end Datum

namespace InPlace

variable {ε σ α β γ : Type}

def relabel (g : α → γ) (r : (Except ε β × α) × σ) : (Except ε β × γ) × σ := ((r.1.1, g r.1.2), r.2)

/-- The second step does on corresponding values what the first does. -/
def Follows (g : α → γ) (x : InPlace ε σ β α) (x' : InPlace ε σ β γ) : Prop :=
  ∀ a s, x' (g a) s = relabel g (x a s)

theorem Follows.cast {S : Schema} {x : {t : Shape} → InPlace ε σ β (Datum S t)} {t u : Shape}
    (h : t = u) : Follows (Datum.cast h) (x (t := t)) (x (t := u)) := by
  subst h
  exact fun _ _ => rfl

end InPlace

namespace Schema

/-- The fields of the second record are those of the first in another order. Of a field this has
the shape and the tag; its name is not on the wire. -/
structure Rearrangement (S : Schema) (r r' : Nat) where
  index : Fin (S.arity r) ≃ Fin (S.arity r')
  shape : ∀ i, S.fieldShape r i = S.fieldShape r' (index i)
  tag : ∀ i, ((S.record r').fields.get (index i)).tag = ((S.record r).fields.get i).tag

namespace Rearrangement

variable (e : S.Rearrangement r r') {d : Fin (S.arity r) → Descriptor}

theorem shape_symm (j : Fin (S.arity r')) :
    S.fieldShape r (e.index.symm j) = S.fieldShape r' j := by
  rw [e.shape, Equiv.apply_symm_apply]

def carry (fields : Fields S r) : Fields S r' := fun j =>
  (fields (e.index.symm j)).cast (e.shape_symm j)

def carryDatum : Datum S (.record r) → Datum S (.record r')
  | .record fields => .record (e.carry fields)

theorem carry_index (fields : Fields S r) (i : Fin (S.arity r)) :
    e.carry fields (e.index i) = (fields i).cast (e.shape i) := by
  -- The index found on the way back is `i` by an equation only, and the shape hangs on it.
  have hk : ∀ k (_ : k = i) (h : S.fieldShape r k = S.fieldShape r' (e.index i)),
      (fields k).cast h = (fields i).cast (e.shape i) := by
    rintro k rfl h
    rfl
  exact hk _ (e.index.symm_apply_apply i) _

theorem carry_set (fields : Fields S r) (i : Fin (S.arity r)) (v : Datum S (S.fieldShape r i)) :
    (e.carry fields).set (e.index i) (v.cast (e.shape i)) = e.carry (fields.set i v) := by
  funext j
  obtain ⟨k, rfl⟩ := e.index.surjective j
  rw [carry_index]
  by_cases hk : k = i
  · subst hk
    rw [Fields.set_self, Fields.set_self]
  · rw [Fields.set_ne _ (e.index.injective.ne hk), Fields.set_ne _ hk, carry_index]

theorem carryDatum_initial : e.carryDatum (.initial (.record r)) = .initial (.record r') := by
  rw [Datum.initial_record, Datum.initial_record, carryDatum]
  exact congrArg Datum.record <| funext fun j => Datum.initial_cast _

def descriptors (d : Fin (S.arity r) → Descriptor) (j : Fin (S.arity r')) : Descriptor :=
  { d (e.index.symm j) with index := j }

theorem descriptors_index (i : Fin (S.arity r)) :
    e.descriptors d (e.index i) = { d i with index := e.index i } := by
  rw [descriptors, Equiv.symm_apply_apply]

theorem tagged (h : S.Tagged r d) (he : (S.record r').extraTags = []) :
    S.Tagged r' (e.descriptors d) where
  parses j := by
    obtain ⟨i, rfl⟩ := e.index.surjective j
    have hi := h.parses i
    unfold descriptor at hi ⊢
    rw [e.tag, descriptors_index]
    exact Descriptor.ofTag_reindex hi _ _
  exact := he

/-- Where the numbers of all fields that may be on the wire differ, both records have theirs in the
same order. -/
theorem wireOrder {version : Int} {order : List (Fin (S.arity r))}
    (hd : ∀ i j, (d i).ignored = false → (d j).ignored = false →
      (d i).number = (d j).number → i = j)
    (h : WireOrder d version order) : WireOrder (e.descriptors d) version (order.map e.index) where
  mem_iff j := by
    obtain ⟨i, rfl⟩ := e.index.surjective j
    rw [List.mem_map_of_injective e.index.injective, descriptors_index]
    exact h.mem_iff i
  sorted := by
    rw [List.pairwise_map]
    refine h.sorted.imp_of_mem fun {i j} hi hj hij => ?_
    rw [descriptors_index, descriptors_index]
    refine .inl (hij.resolve_right fun heq => ?_)
    have := hd i j ((h.mem_iff i).1 hi).1 ((h.mem_iff j).1 hj).1 heq.1
    omega

theorem layouts (h : S.Tagged r d) (he : (S.record r').extraTags = [])
    (hd : ∀ i j, (d i).ignored = false → (d j).ignored = false →
      (d i).number = (d j).number → i = j) (version : Int) : ∃ order : List (Fin (S.arity r)),
    (S.record r).layoutAt version = .ok (order.map d) ∧
      (S.record r').layoutAt version = .ok (order.map fun i => e.descriptors d (e.index i)) := by
  obtain ⟨order, ho, hl⟩ := h.exists_order version
  obtain ⟨order', ho', hl'⟩ := (e.tagged h he).exists_order version
  rw [ho'.unique (e.wireOrder hd ho), List.map_map] at hl'
  exact ⟨order, hl, hl'⟩

end Rearrangement

end Schema

namespace Encoding

variable {nested : {t : Shape} → Datum S t → Encoding Unit}

theorem field_carry (e : S.Rearrangement r r') {d : Fin (S.arity r) → Descriptor}
    (h : S.Tagged r d) (fields : Fields S r) (i : Fin (S.arity r)) :
    field setting nested (e.carry fields) (e.descriptors d (e.index i)) =
      field setting nested fields (d i) := by
  rw [field_eq_fieldValue (h.index i), e.descriptors_index,
    field_eq_fieldValue (i := e.index i) rfl, e.carry_index]
  exact Datum.apply_cast (fieldValue setting nested (d i).codec) _ _

end Encoding

namespace Decoding

variable {nested : {t : Shape} → Overwriting S t}

theorem follows_field (e : S.Rearrangement r r') {d : Fin (S.arity r) → Descriptor}
    (h : S.Tagged r d) (i : Fin (S.arity r)) :
    InPlace.Follows e.carry (field setting nested (d i))
      (field setting nested (e.descriptors d (e.index i))) := by
  intro fields s
  rw [field_eq_through (h.index i), e.descriptors_index, field_eq_through (i := e.index i) rfl]
  have hv := InPlace.Follows.cast (x := fieldValue setting nested (d i).codec) (e.shape i)
    (fields i) s
  simp only [InPlace.through, e.carry_index, hv, InPlace.relabel, e.carry_set]

theorem follows_fields (e : S.Rearrangement r r') {d : Fin (S.arity r) → Descriptor}
    (h : S.Tagged r d) (order : List (Fin (S.arity r))) :
    InPlace.Follows e.carry (fieldsInOrder setting nested (order.map d))
      (fieldsInOrder setting nested (order.map fun i => e.descriptors d (e.index i))) := by
  induction order with
  | nil => exact fun _ _ => rfl
  | cons i order ih =>
    intro fields s
    rw [List.map_cons, List.map_cons, fieldsInOrder, fieldsInOrder, follows_field e h i]
    rcases field setting nested (d i) fields s with ⟨⟨_ | _, fields₁⟩, s₁⟩
    · rfl
    · exact ih fields₁ s₁

end Decoding

section Calls

variable (e : S.Rearrangement r r') {d : Fin (S.arity r) → Descriptor} (h : S.Tagged r d)
  (he : (S.record r').extraTags = [])
  (hd : ∀ i j, (d i).ignored = false → (d j).ignored = false → (d i).number = (d j).number → i = j)

include h he hd

theorem Encoding.value_carry (levels : Nat) (fields : Fields S r) :
    Encoding.value setting levels (.record (e.carry fields)) =
      Encoding.value setting levels (.record fields) := by
  cases levels with
  | zero => rfl
  | succ levels =>
    obtain ⟨order, hl, hl'⟩ := e.layouts h he hd setting.options.version
    rw [value_record, value_record, body_record, body_record, hl, hl']
    change Attempt.forEach _ _ = Attempt.forEach _ _
    rw [Attempt.forEach_map, Attempt.forEach_map]
    congr 1
    funext i
    exact field_carry e h fields i

theorem Decoding.follows_value (levels : Nat) :
    InPlace.Follows e.carryDatum (Decoding.value setting levels (t := .record r))
      (Decoding.value setting levels (t := .record r')) := by
  intro old s
  cases levels with
  | zero => rfl
  | succ levels =>
    cases old with
    | record fields =>
      obtain ⟨order, hl, hl'⟩ := e.layouts h he hd setting.options.version
      have hf : fieldsInOrder setting (value setting levels)
          (order.map fun i => e.descriptors d (e.index i)) (e.carry fields) s =
            InPlace.relabel e.carry
              (fieldsInOrder setting (value setting levels) (order.map d) fields s) :=
        follows_fields e h order fields s
      simp only [value, announce, body, Schema.Rearrangement.carryDatum, hl, hl', hf]
      rfl

theorem Encoder.encode_carry (fields : Fields S r) (E : Encoder S) :
    E.encode (.record (e.carry fields)) = E.encode (.record fields) := by
  unfold encode value
  rw [Encoding.value_carry e h he hd]

theorem Decoder.decodeInto_carry (old : Datum S (.record r)) (D : Decoder S) :
    D.decodeInto (e.carryDatum old) = InPlace.relabel e.carryDatum (D.decodeInto old) := by
  unfold decodeInto value run
  rw [Decoding.follows_value e h he hd]
  rcases Decoding.value D.setting D.setting.options.maxDepth old ⟨D.reader, D.metrics⟩ with
    ⟨⟨_ | _, _⟩, _⟩
  · rfl
  · rfl

theorem Decoder.decode_carry (D : Decoder S) :
    D.decode (.record r') =
      ((D.decode (.record r)).1.map e.carryDatum, (D.decode (.record r)).2) := by
  unfold decode
  rw [← e.carryDatum_initial, Decoder.decodeInto_carry e h he hd]
  rcases D.decodeInto (.initial (.record r)) with ⟨⟨_ | _, _⟩, _⟩
  · rfl
  · rfl

end Calls

end TagWire
