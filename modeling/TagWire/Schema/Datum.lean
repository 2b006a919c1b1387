import TagWire.Schema.Basic

/-! The values of a schema, a family over shapes: a value that does not fit its shape cannot be
written down. The items of a sequence and the fields of a record are functions of their position. -/
namespace TagWire

inductive Datum (S : Schema) : Shape → Type
  | scalar {s : Scalar} (x : s.Carrier) : Datum S (.scalar s)
  | sequence {t : Shape} (count : Nat) (item : Fin count → Datum S t) : Datum S (.sequence t)
  | absent {t : Shape} : Datum S (.optional t)
  | present {t : Shape} (inner : Datum S t) : Datum S (.optional t)
  | boxed {t : Shape} (inner : Datum S t) : Datum S (.boxed t)
  | record {r : Nat} (field : (i : Fin (S.arity r)) → Datum S (S.fieldShape r i)) :
      Datum S (.record r)
  | custom {k : Nat} (x : (S.custom k).Carrier) : Datum S (.custom k)

abbrev Fields (S : Schema) (r : Nat) : Type :=
  (i : Fin (S.arity r)) → Datum S (S.fieldShape r i)

variable {S : Schema}

namespace Fields

variable {r : Nat}

def set (fields : Fields S r) (i : Fin (S.arity r)) (d : Datum S (S.fieldShape r i)) :
    Fields S r := fun j => if h : j = i then h ▸ d else fields j

@[simp] theorem set_self (fields : Fields S r) (i : Fin (S.arity r))
    (d : Datum S (S.fieldShape r i)) : fields.set i d i = d := by
  simp [set]

@[simp] theorem set_eq_self (fields : Fields S r) (i : Fin (S.arity r)) :
    fields.set i (fields i) = fields := by
  funext j
  unfold set
  split
  · next h =>
    subst h
    rfl
  · rfl

theorem set_ne (fields : Fields S r) {i j : Fin (S.arity r)} (h : j ≠ i)
    (d : Datum S (S.fieldShape r i)) : fields.set i d j = fields j := by
  simp [set, h]

end Fields

namespace Datum

def items {t : Shape} : Datum S (.sequence t) → List (Datum S t)
  | .sequence _ item => List.ofFn item

def ofArray {t : Shape} (a : Array (Datum S t)) : Datum S (.sequence t) :=
  .sequence a.size fun i => a[i]

@[simp] theorem items_ofArray {t : Shape} (a : Array (Datum S t)) :
    (ofArray a).items = a.toList := by
  obtain ⟨l⟩ := a
  exact List.ofFn_getElem

theorem sequence_congr {t : Shape} {m n : Nat} {f : Fin m → Datum S t} {g : Fin n → Datum S t}
    (h : m = n) (hf : ∀ i, f i = g (Fin.cast h i)) : Datum.sequence m f = .sequence n g := by
  subst h
  exact congrArg _ (funext hf)

@[simp] theorem ofArray_items {t : Shape} :
    (d : Datum S (.sequence t)) → ofArray d.items.toArray = d
  | .sequence _ item =>
    sequence_congr (by simp [items]) fun i => List.getElem_ofFn (f := item) i.isLt

def fields {r : Nat} : Datum S (.record r) → Fields S r
  | .record field => field

/-- The initial value of a shape, given those of the records that it contains. -/
def initialWith {n : Nat} (record : (r : Nat) → r < n → Datum S (.record r)) :
    (t : Shape) → t.rank ≤ n → Datum S t
  | .scalar s, _ => .scalar s.initial
  | .sequence _, _ => .sequence 0 Fin.elim0
  | .optional _, _ => .absent
  | .boxed t, h => .boxed (initialWith record t h)
  | .record r, h => record r h
  | .custom k, _ => .custom (S.custom k).initial

def initialRecord : (n r : Nat) → r < n → Datum S (.record r)
  | n + 1, r, h => .record fun i =>
    initialWith (initialRecord n) (S.fieldShape r i)
      (Nat.le_trans (S.rank_fieldShape_le r i) (Nat.le_of_lt_succ h))

/-- The value of a field that nobody has set: empty sequences, absent optional values, records of
initial fields. -/
def initial (t : Shape) : Datum S t := initialWith (initialRecord t.rank) t (Nat.le_refl _)

theorem initialWith_congr {m n : Nat} {f : (r : Nat) → r < m → Datum S (.record r)}
    {g : (r : Nat) → r < n → Datum S (.record r)} (h : ∀ r hm hn, f r hm = g r hn) :
    (t : Shape) → (hm : t.rank ≤ m) → (hn : t.rank ≤ n) → initialWith f t hm = initialWith g t hn
  | .scalar _, _, _ | .sequence _, _, _ | .optional _, _, _ | .custom _, _, _ => rfl
  | .record r, hm, hn => h r hm hn
  | .boxed t, hm, hn => congrArg Datum.boxed (initialWith_congr h t hm hn)

theorem initialRecord_congr : (m n r : Nat) → (hm : r < m) → (hn : r < n) →
    (initialRecord m r hm : Datum S _) = initialRecord n r hn
  | m + 1, n + 1, _, _, _ => congrArg Datum.record <| funext fun _ =>
    initialWith_congr (fun r hm hn => initialRecord_congr m n r hm hn) _ _ _

theorem initial_record (r : Nat) :
    (initial (.record r) : Datum S _) = .record fun _ => initial _ :=
  congrArg Datum.record <| funext fun _ => initialWith_congr (initialRecord_congr _ _) _ _ _

end Datum

end TagWire
