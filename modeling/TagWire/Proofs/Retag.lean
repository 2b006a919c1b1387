import TagWire.Proofs.Arrangement
import TagWire.Schema.Slot

/-! The same types with other tags on their fields. Tags are no part of a value, so every value of
the one schema is a value of the other, and so are its parts. -/
namespace TagWire

variable {S : Schema} {tag : Nat → Nat → String} {t u : Shape} {r : Nat}

namespace Schema

def retag (S : Schema) (tag : Nat → Nat → String) : Schema where
  record r := { S.record r with
    fields := (S.record r).fields.mapIdx fun i field => { field with tag := tag r i } }
  custom := S.custom
  grounded r f hf := by
    obtain ⟨i, hi, rfl⟩ := List.mem_mapIdx.1 hf
    exact S.grounded r (S.record r).fields[i] (List.getElem_mem hi)

theorem arity_retag (S : Schema) (tag : Nat → Nat → String) (r : Nat) :
    (S.retag tag).arity r = S.arity r := List.length_mapIdx

def retagged (tag : Nat → Nat → String) (i : Fin (S.arity r)) : Fin ((S.retag tag).arity r) :=
  i.cast (S.arity_retag tag r).symm

theorem get_retagged (i : Fin (S.arity r)) :
    ((S.retag tag).record r).fields.get (retagged tag i) =
      { (S.record r).fields.get i with tag := tag r i } :=
  List.getElem_mapIdx (h := (retagged tag i).isLt)

theorem fieldShape_retag (i : Fin (S.arity r)) :
    (S.retag tag).fieldShape r (retagged tag i) = S.fieldShape r i := by
  rw [fieldShape, get_retagged]
  rfl

theorem typeName_retag (t : Shape) : t.typeName (S.retag tag) = t.typeName S := by
  induction t with
  | sequence t ih => exact congrArg ("alloc::vec::Vec<" ++ · ++ ">") ih
  | optional t ih => exact congrArg ("core::option::Option<" ++ · ++ ">") ih
  | boxed t ih => exact congrArg ("alloc::boxed::Box<" ++ · ++ ">") ih
  | _ => rfl

end Schema

def Datum.retag (tag : Nat → Nat → String) : {t : Shape} → Datum S t → Datum (S.retag tag) t
  | _, .scalar x => .scalar x
  | _, .sequence n item => .sequence n fun i => (item i).retag tag
  | _, .absent => .absent
  | _, .present d => .present (d.retag tag)
  | _, .boxed d => .boxed (d.retag tag)
  | .record r, .record field => .record fun j =>
    ((field (j.cast (S.arity_retag tag r))).retag tag).cast (Schema.fieldShape_retag _).symm
  | _, .custom x => .custom x

namespace Fields

def retag (tag : Nat → Nat → String) (fields : Fields S r) : Fields (S.retag tag) r := fun j =>
  ((fields (j.cast (S.arity_retag tag r))).retag tag).cast (Schema.fieldShape_retag _).symm

theorem retag_retagged (fields : Fields S r) (i : Fin (S.arity r)) :
    fields.retag tag (Schema.retagged tag i) =
      ((fields i).retag tag).cast (Schema.fieldShape_retag i).symm := rfl

theorem retag_set (fields : Fields S r) (i : Fin (S.arity r)) (v : Datum S (S.fieldShape r i)) :
    (fields.retag tag).set (Schema.retagged tag i)
        ((v.retag tag).cast (Schema.fieldShape_retag i).symm) = (fields.set i v).retag tag := by
  funext j
  obtain ⟨k, rfl⟩ : ∃ k, j = Schema.retagged tag k := ⟨j.cast (S.arity_retag tag r), rfl⟩
  rw [retag_retagged]
  by_cases hk : k = i
  · subst hk
    rw [set_self, set_self]
  · have hne : Schema.retagged tag k ≠ Schema.retagged tag i :=
      (Fin.cast_injective _).ne hk
    rw [set_ne _ hne, set_ne _ hk, retag_retagged]

end Fields

namespace Datum

theorem retag_record (fields : Fields S r) :
    (Datum.record fields).retag tag = .record (fields.retag tag) := rfl

theorem items_retag (d : Datum S (.sequence t)) :
    (d.retag tag).items = d.items.map (Datum.retag tag) := by
  cases d with
  | sequence n item => exact List.map_ofFn.symm

theorem retag_ofArray (a : Array (Datum S t)) :
    (ofArray a).retag tag = ofArray (a.map (Datum.retag tag)) :=
  sequence_congr Array.size_map.symm fun _ => (Array.getElem_map _ _).symm

theorem retag_initial (t : Shape) : (initial t : Datum S t).retag tag = initial t := by
  match t with
  | .scalar _ | .optional _ | .custom _ => rfl
  | .sequence t => exact sequence_congr rfl (Fin.elim0 ·)
  | .boxed t => exact congrArg Datum.boxed (retag_initial t)
  | .record r =>
    rw [initial_record, initial_record, retag_record]
    refine congrArg Datum.record (funext fun j => ?_)
    obtain ⟨i, rfl⟩ : ∃ i, j = Schema.retagged tag i := ⟨j.cast (S.arity_retag tag r), rfl⟩
    rw [Fields.retag_retagged, retag_initial, initial_cast]
termination_by (t.rank, sizeOf t)
decreasing_by
  · exact Prod.Lex.right _ (by simp)
  · exact Prod.Lex.left _ _ (Nat.lt_succ_of_le (S.rank_fieldShape_le r _))

theorem pointee_retag (d : Datum S t) :
    (d.retag tag).pointee = d.pointee.map (Datum.retag tag) := by
  induction d with
  | @absent t =>
    exact congrArg (fun name => Except.error (Error.missingValue name))
      (Schema.typeName_retag t.optional)
  | @present t d ih | @boxed t d ih => exact ih
  | _ => rfl

theorem opened_retag (d : Datum S t) : (d.retag tag).opened = d.opened.retag tag := by
  cases d with
  | absent | present _ | boxed _ => exact (retag_initial _).symm
  | _ => rfl

theorem retag_wrap (t : Shape) (d : Datum S t.pointee) :
    (wrap t d).retag tag = wrap t (d.retag tag) := by
  induction t with
  | optional t ih => exact congrArg Datum.present (ih d)
  | boxed t ih => exact congrArg Datum.boxed (ih d)
  | _ => rfl

end Datum

end TagWire
