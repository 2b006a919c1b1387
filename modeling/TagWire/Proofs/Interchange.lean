import TagWire.Proofs.Codec.Mirrors
import TagWire.Proofs.Codec.Own
import TagWire.Proofs.WireOrder

/-! Tags that name the own codec of a field, or leave it out. They say the same of where the field
stands and of the versions that have it, so the layouts of a record under both tags go through the
same fields in the same order. -/
namespace TagWire

variable {S : Schema} {tag : Nat → Nat → String} {t : Shape} {r : Nat}

namespace Shape

/-- Whether the name is, in any case, that of the own codec of the scalar behind the optional and
boxed shapes. -/
def Owns (t : Shape) (name : String) (b : Builtin) : Prop :=
  ∃ s key, t.pointee = .scalar s ∧ s.own? = some (key, b) ∧ Registry.keyOf name = key

/-- Whether a tag names no codec for a field of the shape, or its own. -/
def Own (t : Shape) (codec : Option String) : Prop := ∀ name ∈ codec, ∃ b, t.Owns name b

/-- What two tags may name for one field of the shape: the same, or its own codec where the other
names that or none. -/
inductive Interchangeable (t : Shape) : Option String → Option String → Prop
  | same (codec : Option String) : Interchangeable t codec codec
  | named {name : String} {b : Builtin} (h : t.Owns name b) : Interchangeable t none (some name)
  | dropped {name : String} {b : Builtin} (h : t.Owns name b) : Interchangeable t (some name) none
  | renamed {name name' : String} {b : Builtin} (h : t.Owns name b) (h' : t.Owns name' b) :
    Interchangeable t (some name) (some name')

theorem Owns.unique {name name' : String} {b b' : Builtin} (h : t.Owns name b)
    (h' : t.Owns name' b') : b = b' := by
  obtain ⟨s, key, ht, hb, -⟩ := h
  obtain ⟨s', key', ht', hb', -⟩ := h'
  cases ht.symm.trans ht'
  cases hb.symm.trans hb'
  rfl

theorem Own.interchangeable {codec codec' : Option String} (h : t.Own codec) (h' : t.Own codec') :
    t.Interchangeable codec codec' := by
  cases codec with
  | none =>
    cases codec' with
    | none => exact .same none
    | some name' =>
      obtain ⟨b, hb⟩ := h' name' rfl
      exact .named hb
  | some name =>
    obtain ⟨b, hb⟩ := h name rfl
    cases codec' with
    | none => exact .dropped hb
    | some name' =>
      obtain ⟨b', hb'⟩ := h' name' rfl
      obtain rfl := hb.unique hb'
      exact .renamed hb hb'

end Shape

structure Descriptor.Interchanged (t : Shape) (d d' : Descriptor) : Prop where
  rest : d' = { d with codec := d'.codec }
  own : t.Own d.codec
  own' : t.Own d'.codec

namespace Schema

/-- Every field keeps its tag, or its own codec is named in the one tag and not in the other. -/
def Interchanges (S : Schema) (tag : Nat → Nat → String) : Prop :=
  ∀ (r : Nat) (i : Fin (S.arity r)), tag r i = ((S.record r).fields.get i).tag ∨
    ∃ d d', S.descriptor r i = .ok d ∧
      Descriptor.ofTag (S.record r).name i (tag r i) = .ok d' ∧
      Descriptor.Interchanged (S.fieldShape r i) d d'

def Pairs (S : Schema) (r : Nat) (d d' : Descriptor) : Prop :=
  d' = d ∨ ∃ i : Fin (S.arity r), d.index = i ∧ Descriptor.Interchanged (S.fieldShape r i) d d'

namespace Pairs

variable {d d' : Descriptor}

theorem rest (h : S.Pairs r d d') : d' = { d with codec := d'.codec } := by
  rcases h with rfl | ⟨i, -, h⟩
  · rfl
  · exact h.rest

theorem codecs (h : S.Pairs r d d') {i : Fin (S.arity r)} (hi : d.index = i) :
    (S.fieldShape r i).Interchangeable d.codec d'.codec := by
  rcases h with rfl | ⟨j, hj, h⟩
  · exact .same _
  · obtain rfl : i = j := Fin.ext (hi.symm.trans hj)
    exact h.own.interchangeable h.own'

theorem eq_of_stray (h : S.Pairs r d d') (hi : ¬ d.index < S.arity r) : d' = d := by
  rcases h with h | ⟨j, hj, -⟩
  · exact h
  · exact absurd (hj ▸ j.isLt) hi

theorem number (h : S.Pairs r d d') : d'.number = d.number := by
  rw [h.rest]

theorem index (h : S.Pairs r d d') : d'.index = d.index := by
  rw [h.rest]

theorem isPresent (h : S.Pairs r d d') (version : Int) :
    d'.isPresent version = d.isPresent version := by
  rw [h.rest]
  rfl

theorem insert (h : S.Pairs r d d') {ds ds' : List Descriptor}
    (hds : List.Forall₂ (S.Pairs r) ds ds') :
    List.Forall₂ (S.Pairs r) (d.insert ds) (d'.insert ds') := by
  induction hds with
  | nil => exact .cons h .nil
  | @cons e e' rest rest' he hrest ih =>
    unfold Descriptor.insert
    -- The numbers are the same on both sides, so both go in at the same place.
    rw [h.number, he.number]
    split
    · exact .cons h (.cons he hrest)
    · exact .cons he ih

theorem inWireOrder {ds ds' : List Descriptor} (h : List.Forall₂ (S.Pairs r) ds ds') :
    List.Forall₂ (S.Pairs r) (Descriptor.inWireOrder ds) (Descriptor.inWireOrder ds') := by
  induction h with
  | nil => exact .nil
  | cons hd _ ih => exact hd.insert ih

theorem filter {ds ds' : List Descriptor} (h : List.Forall₂ (S.Pairs r) ds ds') (version : Int) :
    List.Forall₂ (S.Pairs r) (ds.filter (·.isPresent version))
      (ds'.filter (·.isPresent version)) := by
  induction h with
  | nil => exact .nil
  | @cons d d' ds ds' hd _ ih =>
    rw [List.filter_cons, List.filter_cons, hd.isPresent]
    split
    · exact .cons hd ih
    · exact ih

end Pairs

theorem length_tags (S : Schema) (r : Nat) :
    (S.record r).tags.length = S.arity r + (S.record r).extraTags.length := by
  rw [RecordType.tags, List.length_append, List.length_map]
  rfl

theorem getElem?_tags_of_le {j : Nat} (h : S.arity r ≤ j) :
    (S.record r).tags[j]? = (S.record r).extraTags[j - S.arity r]? := by
  have hl : ((S.record r).fields.map Field.tag).length = S.arity r := List.length_map _
  rw [RecordType.tags, List.getElem?_append_right (hl ▸ h), hl]

theorem Interchanges.ofTag (h : S.Interchanges tag) {j : Nat} {text text' : String}
    (ht : (S.record r).tags[j]? = some text)
    (ht' : ((S.retag tag).record r).tags[j]? = some text') :
    Accord False (S.Pairs r) (Descriptor.ofTag (S.record r).name j text)
      (Descriptor.ofTag (S.record r).name j text') := by
  by_cases hj : j < S.arity r
  · have hi := getElem?_tags (S := S) (r := r) ⟨j, hj⟩
    have hi' := getElem?_tags (retagged tag (⟨j, hj⟩ : Fin (S.arity r)))
    rw [get_retagged] at hi'
    cases ht.symm.trans hi
    cases ht'.symm.trans hi'
    rcases h r ⟨j, hj⟩ with heq | ⟨d, d', hd, hd', hdd⟩
    · dsimp only at heq ⊢
      rw [heq]
      exact .refl (fun _ => .inl rfl) _
    · unfold descriptor at hd
      dsimp only at hd hd' ⊢
      rw [hd, hd']
      exact .ok (.inr ⟨⟨j, hj⟩, Descriptor.index_of_ofTag hd, hdd⟩)
  · rw [not_lt] at hj
    rw [getElem?_tags_of_le hj] at ht
    rw [getElem?_tags_of_le (arity_retag S tag r ▸ hj), arity_retag] at ht'
    cases ht.symm.trans ht'
    exact .refl (fun _ => .inl rfl) _

theorem Interchanges.layoutAt (h : S.Interchanges tag) (r : Nat) (version : Int) :
    Accord False (List.Forall₂ (S.Pairs r)) ((S.record r).layoutAt version)
      (((S.retag tag).record r).layoutAt version) := by
  have htags : List.Forall₂ (fun x y : String × Nat => Accord False (S.Pairs r)
      (Descriptor.ofTag (S.record r).name x.2 x.1) (Descriptor.ofTag (S.record r).name y.2 y.1))
      (S.record r).tags.zipIdx ((S.retag tag).record r).tags.zipIdx := by
    rw [List.forall₂_iff_get]
    refine ⟨?_, fun j hj hj' => ?_⟩
    · rw [List.length_zipIdx, List.length_zipIdx, length_tags, length_tags, arity_retag]
      rfl
    · rw [List.get_eq_getElem, List.get_eq_getElem, List.getElem_zipIdx, List.getElem_zipIdx]
      rw [Nat.zero_add]
      exact h.ofTag (List.getElem?_eq_getElem _) (List.getElem?_eq_getElem _)
  exact ((Accord.mapM htags).map fun _ _ => Pairs.inWireOrder).map fun _ _ hds =>
    Pairs.filter hds version

end Schema

end TagWire
