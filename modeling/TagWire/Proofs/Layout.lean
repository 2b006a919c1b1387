import TagWire.Layout

/-! Layouts and tags. A record that has a layout parses every tag, and what is on the wire at a
version is what the tags themselves say, each field at most once. -/
namespace TagWire

theorem eq_ok_of_toOption {ε α : Type} {x : Except ε α} {a : α} (h : x.toOption = some a) :
    x = .ok a := by
  cases x with
  | error e => cases h
  | ok b => exact congrArg Except.ok (Option.some.inj h)

theorem map_ok_of_mapM {ε α β : Type} {f : α → Except ε β} {xs : List α} {ys : List β}
    (h : xs.mapM f = .ok ys) : ys.map Except.ok = xs.map f := by
  induction xs generalizing ys with
  | nil =>
    cases h
    rfl
  | cons x xs ih =>
    rw [List.mapM_cons] at h
    cases hx : f x with
    | error e =>
      rw [hx] at h
      cases h
    | ok y =>
      cases hs : xs.mapM f with
      | error e =>
        rw [hx, hs] at h
        cases h
      | ok zs =>
        rw [hx, hs] at h
        cases h
        rw [List.map_cons, List.map_cons, hx, ih hs]

theorem map_error_iff {ε α β : Type} {x : Except ε α} {f : α → β} {e : ε} :
    f <$> x = .error e ↔ x = .error e := by
  cases x <;> simp [Functor.map, Except.map]

theorem mapM_cons_of_error {ε α β : Type} {f : α → Except ε β} {x : α} {e : ε}
    (hx : f x = .error e) (xs : List α) : (x :: xs).mapM f = .error e := by
  rw [List.mapM_cons, hx]
  rfl

theorem mapM_cons_error_iff {ε α β : Type} {f : α → Except ε β} {x : α} {b : β} {e : ε}
    (hx : f x = .ok b) (xs : List α) : (x :: xs).mapM f = .error e ↔ xs.mapM f = .error e := by
  rw [List.mapM_cons, hx]
  exact map_error_iff

theorem first_error_of_mapM {ε α β : Type} {f : α → Except ε β} {xs : List α} {e : ε}
    (h : xs.mapM f = .error e) : ∃ (i : Nat) (x : α), xs[i]? = some x ∧ f x = .error e ∧
      ∀ j < i, ∀ y, xs[j]? = some y → ∃ b, f y = .ok b := by
  induction xs with
  | nil => cases h
  | cons x xs ih =>
    cases hx : f x with
    | error e' =>
      rw [mapM_cons_of_error hx] at h
      cases h
      exact ⟨0, x, rfl, hx, fun j hj => absurd hj (Nat.not_lt_zero j)⟩
    | ok b =>
      obtain ⟨i, y, hy, he, hbefore⟩ := ih ((mapM_cons_error_iff hx xs).1 h)
      refine ⟨i + 1, y, hy, he, fun j hj z hz => ?_⟩
      cases j with
      | zero =>
        cases hz
        exact ⟨b, hx⟩
      | succ j => exact hbefore j (Nat.lt_of_succ_lt_succ hj) z hz

theorem mapM_of_first_error {ε α β : Type} {f : α → Except ε β} {xs : List α} {e : ε} {i : Nat}
    {x : α} (hx : xs[i]? = some x) (he : f x = .error e)
    (hbefore : ∀ j < i, ∀ y, xs[j]? = some y → ∃ b, f y = .ok b) : xs.mapM f = .error e := by
  induction xs generalizing i with
  | nil => cases hx
  | cons y xs ih =>
    cases i with
    | zero =>
      cases hx
      exact mapM_cons_of_error he xs
    | succ i =>
      obtain ⟨b, hb⟩ := hbefore 0 i.succ_pos y rfl
      rw [mapM_cons_error_iff hb]
      exact ih hx fun j hj => hbefore (j + 1) (Nat.succ_lt_succ hj)

theorem error_of_mapM {ε α β : Type} {f : α → Except ε β} {xs : List α} {e : ε}
    (h : xs.mapM f = .error e) : ∃ x ∈ xs, f x = .error e := by
  obtain ⟨i, x, hx, he, -⟩ := first_error_of_mapM h
  exact ⟨x, List.mem_of_getElem? hx, he⟩

theorem mapM_of_map_ok {ε α β : Type} {f : α → Except ε β} {xs : List α} {ys : List β}
    (h : xs.map f = ys.map Except.ok) : xs.mapM f = .ok ys := by
  induction xs generalizing ys with
  | nil =>
    obtain rfl := List.map_eq_nil_iff.1 h.symm
    rfl
  | cons x xs ih =>
    cases ys with
    | nil => cases h
    | cons y ys =>
      rw [List.map_cons, List.map_cons, List.cons.injEq] at h
      rw [List.mapM_cons, h.1, ih h.2]
      rfl

namespace Descriptor

theorem perm_insert (d : Descriptor) (ds : List Descriptor) : (insert d ds).Perm (d :: ds) := by
  induction ds with
  | nil => exact List.Perm.refl _
  | cons e rest ih =>
    unfold insert
    split
    · exact List.Perm.refl _
    · exact (ih.cons e).trans (List.Perm.swap d e rest)

theorem perm_inWireOrder (ds : List Descriptor) : (inWireOrder ds).Perm ds := by
  induction ds with
  | nil => exact List.Perm.refl _
  | cons d ds ih => exact (perm_insert d (inWireOrder ds)).trans (ih.cons d)

theorem ofParts_reindex (i j : Nat) (parts : List (List Char)) :
    ofParts j parts = (ofParts i parts).map fun d => { d with index := j } := by
  unfold ofParts
  rcases integerPart .i32 .number (parts.getD 1 []) with e | number
  · rfl
  · rcases integerPart .i64 .version (parts.getD 2 []) with e | version
    · rfl
    · dsimp only [bind, Except.bind]
      split <;> rfl

theorem ofTag_reindex {record tag : String} {i : Nat} {d : Descriptor}
    (h : ofTag record i tag = .ok d) (record' : String) (j : Nat) :
    ofTag record' j tag = .ok { d with index := j } := by
  unfold ofTag at h ⊢
  rw [ofParts_reindex i j]
  cases hp : ofParts i ((Text.partsAt ',' tag.toList).map Text.trim) with
  | error e =>
    rw [hp] at h
    cases h
  | ok p =>
    rw [hp] at h
    cases h
    rfl

theorem index_of_ofTag {record tag : String} {index : Nat} {d : Descriptor}
    (h : ofTag record index tag = .ok d) : d.index = index := by
  have hd := h.symm.trans (ofTag_reindex h record index)
  exact congrArg Descriptor.index (Except.ok.inj hd)

theorem invalidTag_of_ofTag {record tag : String} {index : Nat} {e : Error}
    (h : ofTag record index tag = .error e) : ∃ fault, e = .invalidTag record index tag fault := by
  unfold ofTag at h
  cases hp : ofParts index ((Text.partsAt ',' tag.toList).map Text.trim) with
  | ok d =>
    rw [hp] at h
    cases h
  | error fault =>
    rw [hp] at h
    cases h
    exact ⟨fault, rfl⟩

variable {record : String} {tags : List String} {ds : List Descriptor}

theorem ofTags_ok (h : ofTags record tags = .ok ds) : ∃ es : List Descriptor,
    ds = inWireOrder es ∧
      es.map Except.ok = tags.zipIdx.map fun (tag, i) => ofTag record i tag := by
  unfold ofTags at h
  cases hm : tags.zipIdx.mapM fun (tag, index) => ofTag record index tag with
  | error e =>
    rw [hm] at h
    cases h
  | ok es =>
    rw [hm] at h
    cases h
    exact ⟨es, rfl, map_ok_of_mapM hm⟩

theorem mem_of_ofTags (h : ofTags record tags = .ok ds) (d : Descriptor) :
    d ∈ ds ↔ ∃ tag, tags[d.index]? = some tag ∧ ofTag record d.index tag = .ok d := by
  obtain ⟨es, rfl, hes⟩ := ofTags_ok h
  have hm : d ∈ es ↔ Except.ok d ∈ es.map (Except.ok (ε := Error)) := by simp
  rw [(perm_inWireOrder es).mem_iff, hm, hes, List.mem_map]
  constructor
  · rintro ⟨⟨tag, i⟩, hi, ht⟩
    have hd := index_of_ofTag ht
    subst hd
    exact ⟨tag, List.mem_zipIdx_iff_getElem?.1 hi, ht⟩
  · rintro ⟨tag, hi, ht⟩
    exact ⟨(tag, d.index), List.mem_zipIdx_iff_getElem?.2 hi, ht⟩

theorem map_index_eq_range {es : List Descriptor}
    (hes : es.map Except.ok = tags.zipIdx.map fun (tag, i) => ofTag record i tag) :
    es.map Descriptor.index = List.range tags.length := by
  have hl : es.length = tags.length := by simpa using congrArg List.length hes
  refine List.ext_getElem (by simp [hl]) fun i hi _ => ?_
  have he := List.getElem_of_eq hes (i := i) (by simpa using hi)
  simp only [List.getElem_map, List.getElem_zipIdx, Nat.zero_add] at he
  rw [List.getElem_map, List.getElem_range, index_of_ofTag he.symm]

theorem perm_index_of_ofTags (h : ofTags record tags = .ok ds) :
    (ds.map Descriptor.index).Perm (List.range tags.length) := by
  obtain ⟨es, rfl, hes⟩ := ofTags_ok h
  rw [← map_index_eq_range hes]
  exact (perm_inWireOrder es).map _

theorem nodup_index_of_ofTags (h : ofTags record tags = .ok ds) :
    (ds.map Descriptor.index).Nodup :=
  (perm_index_of_ofTags h).nodup_iff.2 List.nodup_range

end Descriptor

namespace Schema

def descriptor (S : Schema) (r : Nat) (i : Fin (S.arity r)) : Except Error Descriptor :=
  Descriptor.ofTag (S.record r).name i ((S.record r).fields.get i).tag

variable {S : Schema} {r : Nat} {version : Int} {layout : List Descriptor}

theorem getElem?_tags (i : Fin (S.arity r)) :
    (S.record r).tags[i.val]? = some ((S.record r).fields.get i).tag := by
  have hi : i.val < ((S.record r).fields.map Field.tag).length := by
    rw [List.length_map]
    exact i.isLt
  rw [RecordType.tags, List.getElem?_append_left hi, List.getElem?_eq_getElem hi, List.getElem_map]
  rfl

theorem layoutAt_ok (h : (S.record r).layoutAt version = .ok layout) : ∃ ds,
    (S.record r).layout = .ok ds ∧ layout = ds.filter (·.isPresent version) := by
  unfold RecordType.layoutAt at h
  cases hl : (S.record r).layout with
  | error e =>
    rw [hl] at h
    cases h
  | ok ds =>
    rw [hl] at h
    cases h
    exact ⟨ds, rfl, rfl⟩

theorem layoutAt_of_ok {R : RecordType} {ds : List Descriptor} (h : R.layout = .ok ds)
    (version : Int) : R.layoutAt version = .ok (ds.filter (·.isPresent version)) := by
  unfold RecordType.layoutAt
  rw [h]
  rfl

theorem invalidTag_of_layoutAt {R : RecordType} {e : Error} (h : R.layoutAt version = .error e) :
    ∃ index tag fault, e = .invalidTag R.name index tag fault := by
  rw [RecordType.layoutAt, RecordType.layout, Descriptor.ofTags, map_error_iff, map_error_iff] at h
  obtain ⟨⟨tag, index⟩, -, ht⟩ := error_of_mapM h
  obtain ⟨fault, rfl⟩ := Descriptor.invalidTag_of_ofTag ht
  exact ⟨index, tag, fault, rfl⟩

theorem mem_layout {ds : List Descriptor} (h : (S.record r).layout = .ok ds)
    (i : Fin (S.arity r)) (d : Descriptor) : d ∈ ds ∧ d.index = i ↔ S.descriptor r i = .ok d := by
  rw [Descriptor.mem_of_ofTags h]
  constructor
  · rintro ⟨⟨tag, ht, hd⟩, hi⟩
    rw [hi, getElem?_tags, Option.some_inj] at ht
    rw [hi, ← ht] at hd
    exact hd
  · intro hd
    have hi := Descriptor.index_of_ofTag hd
    exact ⟨⟨_, hi ▸ getElem?_tags i, hi ▸ hd⟩, hi⟩

/-- A field is on the wire exactly when its own tag puts it there. -/
theorem mem_layoutAt (h : (S.record r).layoutAt version = .ok layout) (i : Fin (S.arity r))
    (d : Descriptor) :
    d ∈ layout ∧ d.index = i ↔ S.descriptor r i = .ok d ∧ d.isPresent version = true := by
  obtain ⟨ds, hds, rfl⟩ := layoutAt_ok h
  rw [List.mem_filter, ← mem_layout hds]
  exact and_right_comm

theorem nodup_layoutAt (h : (S.record r).layoutAt version = .ok layout) :
    (layout.map Descriptor.index).Nodup := by
  obtain ⟨ds, hds, rfl⟩ := layoutAt_ok h
  exact (Descriptor.nodup_index_of_ofTags hds).sublist (List.filter_sublist.map _)

end Schema

end TagWire
