import Mathlib.Data.List.Basic
import Mathlib.Data.List.OfFn
import Mathlib.Data.Set.List
import TagWire.Proofs.Layout

/-! The order of fields on the wire. A layout is sorted by wire number and, where numbers are equal,
by declaration; this order and the fields that a version has say all there is to a layout. -/
namespace TagWire

namespace Descriptor

def Before (a b : Descriptor) : Prop :=
  a.number < b.number ∨ a.number = b.number ∧ a.index < b.index

/-- Inserting before the first number that is not smaller puts a descriptor ahead of all that were
declared after it and have its number. -/
theorem pairwise_insert {d : Descriptor} {ds : List Descriptor} (h : ds.Pairwise Before)
    (hd : ∀ e ∈ ds, d.index < e.index) : (insert d ds).Pairwise Before := by
  induction ds with
  | nil => simp [insert]
  | cons e rest ih =>
    have hi := hd e List.mem_cons_self
    rw [List.pairwise_cons] at h
    unfold insert
    split
    · next hle =>
      refine List.pairwise_cons.2 ⟨fun a ha => ?_, List.pairwise_cons.2 h⟩
      have hia := hd a ha
      unfold Before at h ⊢
      rcases List.mem_cons.1 ha with rfl | ha
      · omega
      · have := h.1 a ha
        omega
    · next hlt =>
      refine List.pairwise_cons.2 ⟨fun a ha => ?_, ih h.2 fun a ha => hd a (.tail e ha)⟩
      rcases mem_insert.1 ha with rfl | ha
      · exact .inl (by omega)
      · exact h.1 a ha

theorem pairwise_before_inWireOrder {ds : List Descriptor}
    (h : ds.Pairwise fun a b => a.index < b.index) : (inWireOrder ds).Pairwise Before := by
  induction ds with
  | nil => exact List.Pairwise.nil
  | cons d ds ih =>
    rw [List.pairwise_cons] at h
    apply pairwise_insert (ih h.2)
    intro e he
    exact h.1 e ((perm_inWireOrder ds).mem_iff.1 he)

end Descriptor

/-- The fields that are on the wire at a version, each once, in ascending order of their numbers
and, where these are equal, of their declaration. -/
structure WireOrder {n : Nat} (d : Fin n → Descriptor) (version : Int) (order : List (Fin n)) :
    Prop where
  mem_iff : ∀ i, i ∈ order ↔ (d i).ignored = false ∧ (d i).minVersion ≤ version
  sorted : order.Pairwise fun i j =>
    (d i).number < (d j).number ∨ (d i).number = (d j).number ∧ i < j

namespace WireOrder

variable {n : Nat} {d : Fin n → Descriptor} {version : Int} {order order' : List (Fin n)}

theorem nodup (h : WireOrder d version order) : order.Nodup := by
  refine h.sorted.imp fun hij e => ?_
  subst e
  omega

theorem unique (h : WireOrder d version order) (h' : WireOrder d version order') :
    order = order' := by
  have hp : order.Perm order' := by
    rw [List.perm_ext_iff_of_nodup h.nodup h'.nodup]
    intro i
    rw [h.mem_iff, h'.mem_iff]
  refine List.Perm.eq_of_pairwise (fun i j _ _ hij hji => ?_) h.sorted h'.sorted hp
  omega

end WireOrder

namespace Schema

/-- Every field of the record has a well-formed tag, which says `d`, and there are no others. -/
structure Tagged (S : Schema) (r : Nat) (d : Fin (S.arity r) → Descriptor) : Prop where
  parses : ∀ i, S.descriptor r i = .ok (d i)
  exact : (S.record r).extraTags = []

variable {S : Schema} {r : Nat} {d : Fin (S.arity r) → Descriptor}

theorem Tagged.index (h : S.Tagged r d) (i : Fin (S.arity r)) : (d i).index = i :=
  Descriptor.index_of_ofTag (h.parses i)

theorem Tagged.layout (h : S.Tagged r d) :
    (S.record r).layout = .ok (Descriptor.inWireOrder (List.ofFn d)) := by
  have htags : (S.record r).tags = (S.record r).fields.map Field.tag := by
    rw [RecordType.tags, h.exact, List.append_nil]
  refine congrArg (Descriptor.inWireOrder <$> ·) (mapM_of_map_ok ?_)
  rw [htags]
  apply List.ext_getElem
  · rw [List.length_map, List.length_zipIdx, List.length_map, List.length_map, List.length_ofFn]
    rfl
  · intro i hi hi'
    rw [List.length_map, List.length_ofFn] at hi'
    simp only [List.getElem_map, List.getElem_zipIdx, List.getElem_ofFn, Nat.zero_add]
    exact h.parses ⟨i, hi'⟩

theorem Tagged.exists_order (h : S.Tagged r d) (version : Int) : ∃ order : List (Fin (S.arity r)),
    WireOrder d version order ∧ (S.record r).layoutAt version = .ok (order.map d) := by
  have hl := layoutAt_of_ok h.layout version
  have hrange : (Descriptor.inWireOrder (List.ofFn d)).filter (·.isPresent version) ∈
      Set.range (List.map d) := by
    rw [Set.range_list_map]
    intro e he
    exact List.mem_ofFn.1 ((Descriptor.perm_inWireOrder _).mem_iff.1 (List.mem_filter.1 he).1)
  obtain ⟨order, horder⟩ := hrange
  rw [← horder] at hl
  have hinj : Function.Injective d := fun i j hij =>
    Fin.ext ((h.index i).symm.trans ((congrArg Descriptor.index hij).trans (h.index j)))
  refine ⟨order, ⟨fun i => ?_, ?_⟩, hl⟩
  · have hm := mem_layoutAt hl i (d i)
    rw [List.mem_map_of_injective hinj, h.parses] at hm
    simpa [Descriptor.isPresent, h.index] using hm
  · have hdeclared : (List.ofFn d).Pairwise fun a b => a.index < b.index := by
      rw [List.pairwise_ofFn]
      intro i j hij
      rw [h.index, h.index]
      exact hij
    have hp := (Descriptor.pairwise_before_inWireOrder hdeclared).filter (·.isPresent version)
    rw [← horder, List.pairwise_map] at hp
    refine hp.imp fun hij => ?_
    unfold Descriptor.Before at hij
    rwa [h.index, h.index] at hij

end Schema

end TagWire
