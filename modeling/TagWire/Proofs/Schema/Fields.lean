import TagWire.Schema.Datum
import TagWire.Tag

/-! Fields that are read one after the other. Descriptors stand for the fields whose turn is still
to come; each is read once, so one that is pending holds what it held before. -/
namespace TagWire.Fields

variable {S : Schema} {r : Nat} {ds : List Descriptor} {d : Descriptor} {f g : Fields S r}
  {i : Fin (S.arity r)}

/-- Equal but for the pending fields. -/
def EqOff (ds : List Descriptor) (f g : Fields S r) : Prop :=
  ∀ i : Fin (S.arity r), i.val ∉ ds.map Descriptor.index → f i = g i

def EqOn (ds : List Descriptor) (f g : Fields S r) : Prop :=
  ∀ i : Fin (S.arity r), i.val ∈ ds.map Descriptor.index → f i = g i

theorem EqOff.eq (h : EqOff [] f g) : f = g := funext fun i => h i List.not_mem_nil

theorem EqOff.set (hi : d.index = i) (h : EqOff (d :: ds) f g) : EqOff ds (f.set i (g i)) g := by
  intro j hj
  by_cases hji : j = i
  · subst hji
    exact set_self _ _ _
  · rw [set_ne _ hji]
    refine h j fun hm => ?_
    rcases List.mem_cons.1 hm with hm | hm
    · exact hji (Fin.ext (hm.trans hi))
    · exact hj hm

theorem EqOff.of_set (hn : d.index ∉ ds.map Descriptor.index) (hi : d.index = i)
    {v : Datum S (S.fieldShape r i)} (h : EqOff ds (f.set i v) g) :
    g i = v ∧ EqOff (d :: ds) f g := by
  refine ⟨?_, fun j hj => ?_⟩
  · rw [← h i (hi ▸ hn), set_self]
  · rw [List.map_cons, List.mem_cons, not_or] at hj
    have hji : j ≠ i := by
      rintro rfl
      exact hj.1 hi.symm
    rw [← h j hj.2, set_ne _ hji]

theorem EqOn.head (hi : d.index = i) (h : EqOn (d :: ds) f g) : f i = g i :=
  h i (by rw [← hi]; exact List.mem_cons_self)

theorem EqOn.set (hn : d.index ∉ ds.map Descriptor.index) (hi : d.index = i)
    (h : EqOn (d :: ds) f g) (v : Datum S (S.fieldShape r i)) : EqOn ds (f.set i v) g := by
  intro j hj
  have hji : j ≠ i := by
    rintro rfl
    exact hn (hi ▸ hj)
  rw [set_ne _ hji]
  exact h j (List.mem_cons_of_mem _ hj)

end TagWire.Fields
