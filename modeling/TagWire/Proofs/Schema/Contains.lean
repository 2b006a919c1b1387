import Mathlib.Logic.Relation
import TagWire.Schema.Basic

/-! What a shape is made of. Records may contain themselves, so containment is a closure and not a
recursion on shapes. -/
namespace TagWire

namespace Shape

def record? : Shape → Option Nat
  | record r => some r
  | _ => none

def custom? : Shape → Option Nat
  | custom k => some k
  | _ => none

end Shape

namespace Schema

def parts (S : Schema) : Shape → List Shape
  | .sequence t | .optional t | .boxed t => [t]
  | .record r => (S.record r).fields.map Field.shape
  | .scalar _ | .custom _ => []

/-- Whether the second shape is the first one or lies within it at any depth. -/
def Contains (S : Schema) : Shape → Shape → Prop := Relation.ReflTransGen fun t u => u ∈ S.parts t

/-- No self-describing type lies within the shape. -/
def Plain (S : Schema) (t : Shape) : Prop := ∀ k, ¬ S.Contains t (.custom k)

variable {S : Schema} {t u v : Shape}

theorem Contains.refl : S.Contains t t := Relation.ReflTransGen.refl

theorem Contains.head (h : u ∈ S.parts t) (hu : S.Contains u v) : S.Contains t v :=
  Relation.ReflTransGen.head h hu

theorem Plain.of_contains (h : S.Plain t) (hu : S.Contains t u) : S.Plain u :=
  fun k hk => h k (hu.trans hk)

theorem Plain.part (h : S.Plain t) (hu : u ∈ S.parts t) : S.Plain u :=
  fun k hk => h k (hk.head hu)

theorem Plain.ne_custom (h : S.Plain t) (k : Nat) : t ≠ .custom k := by
  rintro rfl
  exact h k Contains.refl

theorem mem_parts_sequence (t : Shape) : t ∈ S.parts (.sequence t) := List.mem_singleton.2 rfl

theorem mem_parts_optional (t : Shape) : t ∈ S.parts (.optional t) := List.mem_singleton.2 rfl

theorem mem_parts_boxed (t : Shape) : t ∈ S.parts (.boxed t) := List.mem_singleton.2 rfl

theorem fieldShape_mem_parts (r : Nat) (i : Fin (S.arity r)) :
    S.fieldShape r i ∈ S.parts (.record r) :=
  List.mem_map_of_mem (List.get_mem _ i)

/-- A list that has the parts of its members has all that they contain. -/
def Closed (S : Schema) (ts : List Shape) : Prop := ∀ t ∈ ts, ∀ u ∈ S.parts t, u ∈ ts

instance (ts : List Shape) : Decidable (S.Closed ts) :=
  inferInstanceAs (Decidable (∀ t ∈ ts, ∀ u ∈ S.parts t, u ∈ ts))

theorem Contains.mem_of_closed {ts : List Shape} (hc : S.Closed ts) (ht : t ∈ ts)
    (h : S.Contains t u) : u ∈ ts := by
  induction h with
  | refl => exact ht
  | tail _ hu ih => exact hc _ ih _ hu

theorem Plain.of_closed {ts : List Shape} (hc : S.Closed ts) (ht : t ∈ ts)
    (h : ∀ t ∈ ts, t.custom? = none) : S.Plain t := by
  intro k hk
  cases h _ (hk.mem_of_closed hc ht)

end Schema

end TagWire
