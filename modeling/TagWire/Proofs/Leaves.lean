import TagWire.Proofs.Height
import TagWire.Proofs.WireOrder
import TagWire.Sample.Schema

/-! What an encoder comes to in a value: lengths, scalars and optional values that are not set, one
after the other in wire order. Of these only a missing value and a machine-sized integer that is too
wide have no bytes. The first such leaf is where a call ends, and the bytes of those before it are
what it has written by then. -/
namespace TagWire

variable {S : Schema} {setting : Setting S} {t : Shape} {r : Nat}

inductive Leaf
  /-- The length of a sequence. -/
  | count (n : Nat)
  | scalar {s : Scalar} (x : s.Carrier)
  /-- An optional value of the shape that is not set. -/
  | missing (t : Shape)

namespace Leaf

def bytes : Leaf → List UInt8
  | count n => Size.encode n
  | @scalar s x => s.form x
  | missing _ => []

def fault? (S : Schema) : Leaf → Option Error
  | count _ => none
  | @scalar (.int .isize) n =>
    if IntKind.i32.Fits n.val then none else some (.valueOutOfRange "int32" n.val)
  | @scalar (.int .usize) n =>
    if IntKind.u32.Fits n.val then none else some (.valueOutOfRange "uint32" n.val)
  | scalar _ => none
  | missing t => some (.missingValue (t.optional.typeName S))

theorem scalar_cases {s : Scalar} (x : s.Carrier) :
    (scalar x).fault? S = none ∧ s.Writable x ∨
      ∃ e, (scalar x).fault? S = some e ∧ s.write x = .fail e := by
  cases s with
  | int k =>
    cases k with
    | isize =>
      by_cases h : IntKind.i32.Fits x.val
      · exact .inl ⟨if_pos h, h⟩
      · exact .inr ⟨_, if_neg h, if_neg h⟩
    | usize =>
      by_cases h : IntKind.u32.Fits x.val
      · exact .inl ⟨if_pos h, h⟩
      · exact .inr ⟨_, if_neg h, if_neg h⟩
    | _ => exact .inl ⟨rfl, x.fits⟩
  | _ => exact .inl ⟨rfl, trivial⟩

end Leaf

/-- What is written of leaves one after the other, and how this ends. -/
def told (S : Schema) : List Leaf → List UInt8 × Except Error Unit
  | [] => ([], .ok ())
  | a :: as => match a.fault? S with
    | some e => ([], .error e)
    | none => (a.bytes ++ (told S as).1, (told S as).2)

section Told

variable {a : Leaf} {as bs : List Leaf} {e : Error}

theorem told_cons (h : a.fault? S = none) :
    told S (a :: as) = (a.bytes ++ (told S as).1, (told S as).2) := by
  simp only [told, h]

theorem told_cons_of_fault (h : a.fault? S = some e) : told S (a :: as) = ([], .error e) := by
  simp only [told, h]

theorem told_append (h : ∀ a ∈ as, a.fault? S = none) :
    told S (as ++ bs) = (as.flatMap Leaf.bytes ++ (told S bs).1, (told S bs).2) := by
  induction as with
  | nil => rfl
  | cons a as ih =>
    rw [List.cons_append, told_cons (h a List.mem_cons_self),
      ih fun a ha => h a (List.mem_cons_of_mem _ ha), List.flatMap_cons, List.append_assoc]

theorem told_of_forall (h : ∀ a ∈ as, a.fault? S = none) :
    told S as = (as.flatMap Leaf.bytes, .ok ()) := by
  have hend : told S (as ++ []) = (as.flatMap Leaf.bytes ++ (told S []).1, (told S []).2) :=
    told_append h
  rwa [List.append_nil, told, List.append_nil] at hend

theorem told_append_cases (as bs : List Leaf) :
    (∃ e, (told S as).2 = .error e ∧ told S (as ++ bs) = told S as) ∨
      (told S as).2 = .ok () ∧
        told S (as ++ bs) = ((told S as).1 ++ (told S bs).1, (told S bs).2) := by
  induction as with
  | nil => exact .inr ⟨rfl, rfl⟩
  | cons a as ih =>
    rw [List.cons_append]
    cases ha : a.fault? S with
    | some e =>
      rw [told_cons_of_fault ha, told_cons_of_fault ha]
      exact .inl ⟨e, rfl, rfl⟩
    | none =>
      rw [told_cons ha, told_cons ha]
      rcases ih with ⟨e, he, h⟩ | ⟨hok, h⟩
      · exact .inl ⟨e, he, by rw [h]⟩
      · exact .inr ⟨hok, by rw [h, List.append_assoc]⟩

theorem exists_first_fault (h : ∃ a ∈ as, a.fault? S ≠ none) : ∃ before a after e,
    as = before ++ a :: after ∧ (∀ b ∈ before, b.fault? S = none) ∧ a.fault? S = some e := by
  cases hfind : as.find? fun a => (a.fault? S).isSome with
  | none =>
    obtain ⟨a, ha, hf⟩ := h
    have hnone := List.find?_eq_none.1 hfind a ha
    exact absurd (Option.not_isSome_iff_eq_none.1 hnone) hf
  | some a =>
    obtain ⟨ha, before, after, hsplit, hbefore⟩ := List.find?_eq_some_iff_append.1 hfind
    obtain ⟨e, he⟩ := Option.isSome_iff_exists.1 ha
    refine ⟨before, a, after, e, hsplit, fun b hb => ?_, he⟩
    simpa using hbefore b hb

end Told

/-- From wherever it starts, on a sink that never fills, the step writes the leaves and ends as they
do. -/
def Tells (S : Schema) (x : Encoding Unit) (as : List Leaf) : Prop :=
  ∀ start, Puts x start (told S as).1 (told S as).2

namespace Tells

variable {x y : Encoding Unit} {as bs : List Leaf} {a : Leaf} {e : Error}

theorem nil : Tells S (pure ()) [] := fun _ => Puts.of_apply fun s => ⟨s, rfl, rfl⟩

theorem fault (h : a.fault? S = some e) : Tells S (.fail e) [a] := by
  intro start
  rw [told_cons_of_fault h]
  exact Puts.of_apply fun s => ⟨s, rfl, rfl⟩

theorem bind (hx : Tells S x as) (hy : Tells S y bs) : Tells S (x >>= fun _ => y) (as ++ bs) := by
  intro start
  have hx := hx start
  rcases told_append_cases as bs with ⟨e, he, h⟩ | ⟨hok, h⟩
  · rw [h, he]
    rw [he] at hx
    exact hx.bind_error
  · rw [h]
    rw [hok] at hx
    exact hx.bind (hy _)

theorem cons {α : Type} {z : Encoding α} {v : α} {f : α → Encoding Unit} (h : a.fault? S = none)
    (hz : Emits z v a.bytes) (hf : Tells S (f v) as) : Tells S (z >>= f) (a :: as) := by
  intro start
  rw [told_cons h]
  have hput : Puts z start a.bytes (.ok v) := fun s hs _ => hz s hs
  exact hput.bind (hf _)

theorem forEach {β : Type} {f : β → Encoding Unit} {g : β → List Leaf} {xs : List β}
    (h : ∀ b ∈ xs, Tells S (f b) (g b)) : Tells S (Attempt.forEach f xs) (xs.flatMap g) := by
  induction xs with
  | nil => exact nil
  | cons b xs ih =>
    rw [Attempt.forEach_cons, List.flatMap_cons]
    exact (h b List.mem_cons_self).bind (ih fun b hb => h b (List.mem_cons_of_mem _ hb))

theorem write_scalar {s : Scalar} (v : s.Carrier) : Tells S (do
    let _ ← Encoding.write (s.write v)) [.scalar v] := by
  rcases Leaf.scalar_cases (S := S) v with ⟨hf, hw⟩ | ⟨e, hf, hw⟩
  · exact cons hf (Encoding.emits_write (Scalar.emits_write hw)) nil
  · rw [hw]
    exact fault hf

end Tells

namespace Datum

/-- The leaves of a value in the order in which they are written, given that of the fields of each
record. -/
def leaves (order : (r : Nat) → List (Fin (S.arity r))) : {t : Shape} → Datum S t → List Leaf
  | _, .scalar x => [.scalar x]
  | _, .sequence n item => .count n :: (List.finRange n).flatMap fun i => (item i).leaves order
  | _, .absent (t := t) => [.missing t]
  | _, .present d => d.leaves order
  | _, .boxed d => d.leaves order
  | _, .record (r := r) field => (order r).flatMap fun i => (field i).leaves order
  | _, .custom _ => []

end Datum

variable {d : (r : Nat) → Fin (S.arity r) → Descriptor}
  {order : (r : Nat) → List (Fin (S.arity r))}

theorem tells_value (levels : Nat) (hp : S.Plain t)
    (ht : ∀ r, S.Contains t (.record r) → S.Tagged r (d r) ∧ ∀ i, (d r i).codec = none)
    (hl : ∀ r, S.Contains t (.record r) →
      (S.record r).layoutAt setting.options.version = .ok ((order r).map (d r)))
    {x : Datum S t} (hx : x.height setting.options.version ≤ levels) :
    Tells S (Encoding.value setting levels x) (x.leaves order) := by
  induction levels generalizing t with
  | zero => exact absurd hx (Nat.not_le.2 x.height_pos)
  | succ levels ih =>
    rw [Encoding.value_succ setting hp.ne_custom]
    have hpart := fun (u : Shape) (hu : u ∈ S.parts t) (x : Datum S u)
        (hx : x.height setting.options.version ≤ levels) =>
      ih (hp.part hu) (fun r hr => ht r (hr.head hu)) (fun r hr => hl r (hr.head hu)) hx
    cases x with
    | scalar v => exact Tells.write_scalar v
    | @sequence t n item =>
      rw [Datum.height_sequence_le_iff] at hx
      rw [Encoding.body_sequence, List.ofFn_eq_map, Attempt.forEach_map]
      refine Tells.cons rfl (Encoding.emits_write (Writer.emits_size n)) (.forEach fun i _ => ?_)
      exact hpart t (S.mem_parts_sequence t) _ (hx _ (List.mem_ofFn.2 ⟨i, rfl⟩))
    | @absent t => exact Tells.fault rfl
    | @present t x =>
      exact hpart t (S.mem_parts_optional t) x (Datum.height_present_le_iff.1 hx)
    | @boxed t x => exact hpart t (S.mem_parts_boxed t) x (Datum.height_boxed_le_iff.1 hx)
    | @record r fields =>
      have hlay := hl r Schema.Contains.refl
      obtain ⟨htag, hcodec⟩ := ht r Schema.Contains.refl
      rw [Datum.height_record_le_iff_shallow hlay] at hx
      rw [Encoding.body_record, hlay]
      change Tells S (Attempt.forEach _ ((order r).map (d r))) _
      rw [Attempt.forEach_map]
      refine .forEach fun i hi => ?_
      have hmem := List.mem_map_of_mem (f := d r) hi
      have hpresent := ((S.mem_layoutAt hlay i (d r i)).1 ⟨hmem, htag.index i⟩).2
      have hplain : S.isPlainAt setting.options.version r i = true := by
        simp [Schema.isPlainAt, htag.parses, hpresent, hcodec]
      rw [Encoding.field_eq_fieldValue (htag.index i), hcodec]
      exact hpart _ (Schema.fieldShape_mem_parts r i) _ (hx _ hmem i (htag.index i) hplain)
    | custom v => exact absurd rfl (hp.ne_custom _)

theorem Encoder.encode_of_puts {E : Encoder S} (hroom : E.writer.sink.room = none) {x : Datum S t}
    {bs : List UInt8} {result : Except Error Unit}
    (h : Puts (Encoding.value E.setting E.setting.options.maxDepth x) E.writer.offset bs result) :
    ∃ E', E.encode x = (result.map fun _ => bs.length, E') ∧ E'.writer = E.writer.append bs := by
  obtain ⟨s, hs, hw⟩ := h ⟨E.writer, E.metrics⟩ hroom rfl
  cases result with
  | error e => exact ⟨_, encode_of_error hs, hw⟩
  | ok _ =>
    rw [encode_of_ok hs]
    refine ⟨_, Prod.ext (congrArg Except.ok ?_) rfl, hw⟩
    have ho : s.writer.offset = E.writer.offset + bs.length := congrArg Writer.offset hw
    rw [ho, Nat.add_sub_cancel_left]

/-- An encoder with levels enough fails exactly when there is a leaf without bytes among those that
are on the wire. It ends at the first of them, for its fault, and has written what comes before it;
a value without such leaves is written whole. A scalar that is not a machine-sized integer has no
fault. -/
theorem Encoder.encode_of_leaves (hp : S.Plain t)
    (ht : ∀ r, S.Contains t (.record r) → S.Tagged r (d r) ∧ ∀ i, (d r i).codec = none)
    {E : Encoder S} (hroom : E.writer.sink.room = none) {x : Datum S t}
    (hx : x.height E.setting.options.version ≤ E.setting.options.maxDepth) :
    ∃ order : (r : Nat) → List (Fin (S.arity r)),
      (∀ r, S.Contains t (.record r) →
        WireOrder (d r) E.setting.options.version (order r)) ∧
      ((∃ e E', E.encode x = (.error e, E')) ↔ ∃ a ∈ x.leaves order, a.fault? S ≠ none) ∧
      (∀ before a after e, x.leaves order = before ++ a :: after →
        (∀ b ∈ before, b.fault? S = none) → a.fault? S = some e →
        ∃ E', E.encode x = (.error e, E') ∧
          E'.writer = E.writer.append (before.flatMap Leaf.bytes)) ∧
      ((∀ a ∈ x.leaves order, a.fault? S = none) →
        ∃ E', E.encode x = (.ok ((x.leaves order).flatMap Leaf.bytes).length, E') ∧
          E'.writer = E.writer.append ((x.leaves order).flatMap Leaf.bytes)) ∧
      ∀ (s : Scalar) (v : s.Carrier), s ≠ .int .isize → s ≠ .int .usize →
        (Leaf.scalar v).fault? S = none := by
  have horder : ∀ r, ∃ order : List (Fin (S.arity r)), S.Contains t (.record r) →
      WireOrder (d r) E.setting.options.version order ∧
        (S.record r).layoutAt E.setting.options.version = .ok (order.map (d r)) := by
    intro r
    -- Records outside the shape may have bad tags, and are on no wire.
    by_cases hr : S.Contains t (.record r)
    · obtain ⟨order, ho⟩ := (ht r hr).1.exists_order E.setting.options.version
      exact ⟨order, fun _ => ho⟩
    · exact ⟨[], fun h => absurd h hr⟩
  choose order horder using horder
  have htells := tells_value E.setting.options.maxDepth hp ht (fun r hr => (horder r hr).2) hx
  obtain ⟨E₁, hE₁, hw₁⟩ := encode_of_puts hroom (htells E.writer.offset)
  have hfails : ∀ before a after e, x.leaves order = before ++ a :: after →
      (∀ b ∈ before, b.fault? S = none) → a.fault? S = some e →
      ∃ E', E.encode x = (.error e, E') ∧
        E'.writer = E.writer.append (before.flatMap Leaf.bytes) := by
    intro before a after e hsplit hbefore ha
    rw [hsplit, told_append hbefore, told_cons_of_fault ha, List.append_nil] at hE₁ hw₁
    exact ⟨E₁, hE₁, hw₁⟩
  have hsucceeds (h : ∀ a ∈ x.leaves order, a.fault? S = none) :
      E.encode x = (.ok ((x.leaves order).flatMap Leaf.bytes).length, E₁) ∧
        E₁.writer = E.writer.append ((x.leaves order).flatMap Leaf.bytes) := by
    rw [told_of_forall h] at hE₁ hw₁
    exact ⟨hE₁, hw₁⟩
  refine ⟨order, fun r hr => (horder r hr).1, ⟨?_, ?_⟩, hfails, fun h => ⟨E₁, hsucceeds h⟩, ?_⟩
  · rintro ⟨e, E', he⟩
    by_contra hnone
    push Not at hnone
    rw [(hsucceeds hnone).1] at he
    cases he
  · intro h
    obtain ⟨before, a, after, e, hsplit, hbefore, ha⟩ := exists_first_fault h
    obtain ⟨E', hE', -⟩ := hfails before a after e hsplit hbefore ha
    exact ⟨e, E', hE'⟩
  · intro s v hi hu
    cases s with
    | int k => cases k <;> first | rfl | contradiction
    | _ => rfl

namespace Sample

/-- The wire order is not that of the declaration; the note is never on the wire, and the due date
only from version 2 on. -/
def ledger : RecordType := recordType "Ledger" [
  ⟨"total", int .isize, ",3"⟩, ⟨"note", .optional text, "-"⟩,
  ⟨"owner", .optional (.boxed (int .u8)), ",2"⟩, ⟨"names", .sequence text, ",1"⟩,
  ⟨"due", .optional time, ",0,2"⟩]

def ledgerSchema : TagWire.Schema := schemaWith ledger (by decide)

def ledgerShapes : List Shape :=
  [.record spare, int .isize, .optional text, text, .optional (.boxed (int .u8)),
    .boxed (int .u8), int .u8, .sequence text, .optional time, time]

def ledgerTags : (r : Nat) → Fin (ledgerSchema.arity r) → Descriptor := fun r i =>
  (ledgerSchema.descriptor r i).toOption.getD ⟨0, true, 0, none, i⟩

def unsettled : Datum ledgerSchema (.record spare) := .record fun
  | ⟨0, _⟩ => .scalar (IntKind.isize.wrap 9000000000)
  | ⟨1, _⟩ => .absent
  | ⟨2, _⟩ => .absent
  | ⟨3, _⟩ => .sequence 1 fun _ => .scalar "ab"
  | ⟨4, _⟩ => .absent

def ledgerEncoder : Encoder ledgerSchema := .atVersion { taken := [9] } 1

theorem tagged_ledger : ledgerSchema.Tagged spare (ledgerTags spare) where
  parses i := eq_ok_of_toOption (by revert i; decide +kernel)
  exact := rfl

def ledgerOrder : List (Fin (ledgerSchema.arity spare)) :=
  [⟨3, by decide⟩, ⟨2, by decide⟩, ⟨0, by decide⟩]

theorem wireOrder_ledger : WireOrder (ledgerTags spare) 1 ledgerOrder where
  mem_iff := by decide +kernel
  sorted := by decide +kernel

end Sample

/-- The owner comes before the total, and what was written by then are the names. -/
theorem Encoder.encode_of_leaves_ledger : ∃ E' : Encoder Sample.ledgerSchema,
    Sample.ledgerEncoder.encode Sample.unsettled = (.error (.missingValue
      "core::option::Option<alloc::boxed::Box<u8>>"), E') ∧
    E'.writer.sink.taken = [9, 1, 2, 97, 98] := by
  have hcl : Sample.ledgerSchema.Closed Sample.ledgerShapes := by decide +kernel
  have hmem : .record Sample.spare ∈ Sample.ledgerShapes := by decide
  have honly : ∀ u ∈ Sample.ledgerShapes, ∀ r ∈ u.record?, r = Sample.spare := by decide
  have hp : Sample.ledgerSchema.Plain (.record Sample.spare) := .of_closed hcl hmem (by decide)
  have hx : Sample.unsettled.height 1 ≤ 64 := by decide +kernel
  obtain ⟨order, horder, -, hfails, -⟩ := encode_of_leaves (d := Sample.ledgerTags) hp
    (fun r hr => by
      obtain rfl := honly _ (hr.mem_of_closed hcl hmem) r rfl
      exact ⟨Sample.tagged_ledger, by decide +kernel⟩)
    (E := Sample.ledgerEncoder) rfl hx
  have hthree := (horder Sample.spare Schema.Contains.refl).unique Sample.wireOrder_ledger
  have hleaves : Sample.unsettled.leaves order =
      [.count 1, .scalar (s := .text) "ab"] ++ .missing (.boxed (Sample.int .u8)) ::
        [.scalar (s := .int .isize) (IntKind.isize.wrap 9000000000)] := by
    have hrecord : Sample.unsettled.leaves order = (order Sample.spare).flatMap fun i =>
        (Sample.unsettled.fields i).leaves order := rfl
    rw [hrecord, hthree]
    rfl
  obtain ⟨E', hE', hw⟩ := hfails _ _ _ _ hleaves (by decide +kernel) rfl
  exact ⟨E', hE', by rw [hw]; decide +kernel⟩

end TagWire
