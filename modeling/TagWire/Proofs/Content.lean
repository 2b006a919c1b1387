import Mathlib.Algebra.BigOperators.Fin
import TagWire.Proofs.Hollow

/-! Decoding does not amplify. Each byte of text and each item of a sequence is paid for with a byte
of the input, at every depth, so far as the items take bytes at all; the bound that goes through an
induction leaves one byte over wherever any were read. -/
namespace TagWire

variable {S : Schema} {setting : Setting S} {L : Limits} {t : Shape} {r : Nat}

namespace Datum

/-- The items of all sequences within a value, and the bytes of all its text. What describes itself
has none of either that the engine knows of. -/
def content : {t : Shape} → Datum S t → Nat
  | _, .scalar (s := s) x => s.textLength x
  | _, .sequence _ item => ∑ i, ((item i).content + 1)
  | _, .absent => 0
  | _, .present d => d.content
  | _, .boxed d => d.content
  | _, .record field => ∑ i, (field i).content
  | _, .custom _ => 0

theorem content_initialWith {n : Nat} {record : (r : Nat) → r < n → Datum S (.record r)}
    (h : ∀ r hr, (record r hr).content = 0) :
    (t : Shape) → (ht : t.rank ≤ n) → (initialWith record t ht).content = 0
  | .scalar s, _ => by cases s <;> rfl
  | .sequence _, _ | .optional _, _ | .custom _, _ => rfl
  | .boxed t, ht => content_initialWith h t ht
  | .record r, ht => h r ht

theorem content_initialRecord : (n r : Nat) → (hr : r < n) →
    (initialRecord n r hr : Datum S _).content = 0
  | n + 1, _, _ => Finset.sum_eq_zero fun _ _ =>
    content_initialWith (content_initialRecord n) _ _

theorem content_initial (t : Shape) : (initial t : Datum S t).content = 0 :=
  content_initialWith (content_initialRecord _) t _

theorem content_items : (d : Datum S (.sequence t)) →
    d.content = (d.items.map fun y => y.content + 1).sum
  | .sequence n item => by
    rw [items, List.map_ofFn, List.sum_ofFn]
    rfl

theorem content_set (fields : Fields S r) (i : Fin (S.arity r)) (v : Datum S (S.fieldShape r i)) :
    (Datum.record (fields.set i v)).content + (fields i).content =
      (Datum.record fields).content + v.content := by
  have hset : (fun j => (fields.set i v j).content) =
      Function.update (fun j => (fields j).content) i v.content := by
    funext j
    by_cases hj : j = i
    · subst hj
      rw [Fields.set_self, Function.update_self]
    · rw [Fields.set_ne _ hj, Function.update_of_ne hj]
  have hall := Finset.sum_eq_add_sum_sdiff_singleton_of_mem (Finset.mem_univ i)
    fun j => (fields j).content
  rw [content, content, hset, Finset.sum_update_of_mem (Finset.mem_univ i), hall]
  omega

end Datum

theorem Yields.collect_sum {σ α : Type} [HasReader σ] {x : Attempt Error σ α} {f : α → Nat}
    (hx : Yields L x fun a n => f a ≤ n) (count : Nat) (done : Array α) :
    Yields L (Attempt.collect x count done : Attempt Error σ (Array α)) fun all n =>
      (all.toList.map f).sum ≤ (done.toList.map f).sum + n := by
  induction count generalizing done with
  | zero => exact Yields.pure (Nat.le_refl _)
  | succ count ih =>
    rw [Attempt.collect_succ]
    refine hx.bind fun a n ha => (ih (done.push a)).mono fun all m hall => ?_
    rw [Array.toList_push, List.map_append, List.sum_append, List.map_singleton,
      List.sum_singleton] at hall
    omega

theorem Yields.and {σ α : Type} [HasReader σ] {x : Attempt Error σ α} {P Q : α → Nat → Prop}
    (hp : Yields L x P) (hq : Yields L x Q) : Yields L x fun a n => P a n ∧ Q a n := by
  intro s a s' hl hx
  obtain ⟨hl', n, hn, h⟩ := hp s a s' hl hx
  obtain ⟨-, m, hm, h'⟩ := hq s a s' hl hx
  obtain rfl : n = m := by omega
  exact ⟨hl', n, hn, h, h'⟩

section Fields

variable {dec : {t : Shape} → Overwriting S t} (hg : S.Generic (.record r))
  (hplain : ∀ (i : Fin (S.arity r)) (d : Datum S (S.fieldShape r i)),
    Yields L (InPlace.produce dec d) fun v n => v.content ≤ d.content + (n - 1))

include hg hplain

theorem yields_field_content {d : Descriptor} (hd : setting.Faces (fun _ _ => True) r d)
    (fields : Fields S r) :
    Yields L (InPlace.produce (Decoding.field setting dec d) fields) fun fields' n =>
      (Datum.record fields').content ≤ (Datum.record fields).content + (n - 1) := by
  cases hd with
  | refused e _ decode =>
    rw [decode]
    exact Yields.fail e
  | plain i _ _ _ decode =>
    rw [decode]
    refine Yields.map ((hplain i (fields i)).mono fun v n hv => ?_)
    have := Datum.content_set fields i v
    omega
  | through i b _ hpass _ _ _ => exact absurd hpass (hg.passage_ne i b)

theorem yields_fieldsInOrder_content {ds : List Descriptor}
    (hds : ∀ d ∈ ds, setting.Faces (fun _ _ => True) r d) (fields : Fields S r) :
    Yields L (InPlace.produce (Decoding.fieldsInOrder setting dec ds) fields) fun fields' n =>
      (Datum.record fields').content ≤ (Datum.record fields).content + (n - 1) := by
  induction ds generalizing fields with
  | nil => exact Yields.pure (Nat.le_refl _)
  | cons d ds ih =>
    rw [Decoding.produce_fieldsInOrder_cons]
    refine (yields_field_content hg hplain (hds d List.mem_cons_self) fields).bind ?_
    intro fields' n hn
    refine (ih (fun d hd => hds d (List.mem_cons_of_mem _ hd)) fields').mono fun _ m hm => ?_
    omega

end Fields

theorem Setting.Solid.yields_fresh (hs : setting.Solid t) (hp : S.Plain t) (hg : S.Generic t)
    {levels : Nat} (hle : levels ≤ setting.options.maxDepth) :
    Yields setting.options.limits (Decoding.fresh (Decoding.value setting levels) t)
      fun _ n => 0 < n := by
  have ho : setting.Overrides Builtin.Rewritable t := hg.overrides
  refine (yields_value levels hp ho).mono ?_
  rintro y n ⟨-, bs, hbs, hlen⟩
  have hne : bs ≠ [] := by
    rintro rfl
    exact hs y (encode_of_emits (Encoding.emits_of_levels_le ho hle hbs))
  exact Nat.lt_of_lt_of_le (List.length_pos_iff.2 hne) (hlen hg)

/-- The content of a value grows by less than what it is overwritten from, where this is anything
at all. -/
theorem yields_value_content {levels : Nat} (hle : levels ≤ setting.options.maxDepth)
    (hp : S.Plain t) (hg : S.Generic t)
    (hs : ∀ u, S.Contains t (.sequence u) → setting.Solid u) (d : Datum S t) :
    Yields setting.options.limits (InPlace.produce (Decoding.value setting levels) d)
      fun v n => v.content ≤ d.content + (n - 1) := by
  induction levels generalizing t with
  | zero => exact Yields.fail _
  | succ levels ih =>
    rw [Decoding.produce_value_of_ne hp.ne_custom]
    have hlow : levels ≤ setting.options.maxDepth := Nat.le_of_succ_le hle
    have hpart : ∀ u ∈ S.parts t, ∀ d : Datum S u,
        Yields setting.options.limits (InPlace.produce (Decoding.value setting levels) d)
          fun v n => v.content ≤ d.content + (n - 1) := fun u hu =>
      ih hlow (hp.part hu) (hg.part hu) fun v hv => hs v (hv.head hu)
    have hfresh : ∀ u ∈ S.parts t,
        Yields setting.options.limits (Decoding.fresh (Decoding.value setting levels) u)
          fun v n => v.content ≤ n - 1 := by
      intro u hu
      refine (hpart u hu (.initial u)).mono fun v n hv => ?_
      rwa [Datum.content_initial, Nat.zero_add] at hv
    cases d with
    | @scalar s x =>
      rw [Decoding.produce_body_scalar]
      refine Decoding.yields_read (Yields.map (s.yields_read.mono ?_))
      rintro x n ⟨-, -, -, hlen⟩
      have := s.textLength_lt_form x
      change s.textLength x ≤ _
      omega
    | @sequence t n item =>
      rw [Decoding.produce_body_sequence]
      refine (Decoding.yields_read Reader.yields_itemCount).bind ?_
      rintro n k ⟨-, -, hk⟩
      have hu := S.mem_parts_sequence t
      -- An item takes at least one byte, and this is the one that it is counted for itself.
      have hitem := (hfresh t hu).and
        ((hs t Schema.Contains.refl).yields_fresh (hp.part hu) (hg.part hu) hlow)
      have hone : Yields setting.options.limits (Decoding.fresh (Decoding.value setting levels) t)
          fun v n => v.content + 1 ≤ n := hitem.mono fun v n h => by omega
      refine Yields.map ((Yields.collect_sum hone n #[]).mono fun all m hall => ?_)
      have := Size.length_encode_pos n
      rw [Datum.content_items, Datum.items_ofArray]
      simp only [List.map_nil, List.sum_nil, Nat.zero_add] at hall
      omega
    | @absent t | @present t d =>
      rw [Decoding.produce_body_optional]
      refine Yields.map ((hfresh t (S.mem_parts_optional t)).mono fun v n hv => ?_)
      exact Nat.le_trans hv (Nat.le_add_left _ _)
    | @boxed t d =>
      rw [Decoding.produce_body_boxed]
      refine Yields.map ((hfresh t (S.mem_parts_boxed t)).mono fun v n hv => ?_)
      exact Nat.le_trans hv (Nat.le_add_left _ _)
    | @record r fields =>
      rw [Decoding.produce_body_record]
      refine Yields.lift_bind fun layout hl => Yields.map ?_
      apply yields_fieldsInOrder_content hg
      · exact fun i d => hpart _ (Schema.fieldShape_mem_parts r i) d
      · exact fun d hd => hg.overrides.faces hl hd
    | @custom k x => exact absurd rfl (hp.ne_custom k)

namespace Decoder

variable {D D' : Decoder S} {y : Datum S t}

theorem content_le_of_solid (hp : S.Plain t) (hg : S.Generic t)
    (hl : D.reader.limits = D.setting.options.limits)
    (hs : ∀ u, S.Contains t (.sequence u) → D.setting.Solid u) (hd : D.decode t = (.ok y, D')) :
    y.content ≤ D'.reader.offset - D.reader.offset := by
  obtain ⟨s, hx, hreader, -⟩ := produce_of_decode hd
  obtain ⟨-, n, hn, hy⟩ := yields_value_content (Nat.le_refl _) hp hg hs _ _ _ _ hl hx
  have hoffset : D'.reader.offset = D.reader.offset + n := (congrArg Reader.offset hreader).trans hn
  rw [Datum.content_initial] at hy
  omega

/-- Decoding does not amplify. If no item of a sequence within the shape can be written in no bytes,
a value has no more items and bytes of text than the bytes it was read from, whatever the input and
the options; so where it does have more, some items are of a hollow shape. -/
theorem content_le_of_decode (hp : S.Plain t) (hg : S.Generic t)
    (hl : D.reader.limits = D.setting.options.limits) (hd : D.decode t = (.ok y, D')) :
    ((∀ u, S.Contains t (.sequence u) → D.setting.Solid u) →
      y.content ≤ D'.reader.offset - D.reader.offset) ∧
    (D'.reader.offset - D.reader.offset < y.content →
      ∃ u, S.Contains t (.sequence u) ∧ S.Hollow D.setting.options.version u) := by
  refine ⟨fun hs => content_le_of_solid hp hg hl hs hd, fun hlt => ?_⟩
  by_contra! hn
  refine Nat.not_le.2 hlt (content_le_of_solid hp hg hl (fun u hu => ?_) hd)
  exact Setting.solid_items_of_not_hollow hp hg hu (hn u hu)

end Decoder

namespace Sample

def filledWrapper : List UInt8 :=
  List.replicate 16 0 ++ [0, 0, 0, 5, 2, 97, 98] ++ [2, 2, 7, 8, 0] ++ [9]

end Sample

theorem Decoder.content_le_of_decode_filled : ∃ (y : Datum Sample.schema (.record 4)) (D' : _),
    (Decoder.ofSource { unread := Sample.filledWrapper } Sample.third).decode (.record 4) =
      (.ok y, D') ∧
    y.content = 6 ∧ y.content ≤ D'.reader.offset ∧ D'.reader.offset = 28 := by
  have hc : Sample.schema.Closed Sample.wrapperShapes := by decide +kernel
  have ht : .record 4 ∈ Sample.wrapperShapes := by decide
  have hp : Sample.schema.Plain (.record 4) := .of_closed hc ht (by decide)
  have hg : Sample.schema.Generic (.record 4) := .of_closed hc ht (by decide +kernel)
  have hs : ∀ u, Sample.schema.Contains (.record 4) (.sequence u) → Sample.third.Solid u := by
    intro u hu
    apply Setting.solid_items_of_not_hollow hp hg hu
    have hm := hu.mem_of_closed hc ht
    intro hh
    cases hh <;> simp [Sample.wrapperShapes] at hm
  have hok : ((Decoder.ofSource { unread := Sample.filledWrapper } Sample.third).decode
      (.record 4)).1.toOption.map Datum.content = some 6 := by decide +kernel
  have hoffset : ((Decoder.ofSource { unread := Sample.filledWrapper } Sample.third).decode
      (.record 4)).2.reader.offset = 28 := by decide +kernel
  cases hd : (Decoder.ofSource { unread := Sample.filledWrapper } Sample.third).decode
      (.record 4) with
  | mk result D' =>
    rw [hd] at hok hoffset
    cases result with
    | error e => cases hok
    | ok y =>
      have hle := (content_le_of_decode hp hg rfl hd).1 hs
      exact ⟨y, D', rfl, Option.some.inj hok, hle, hoffset⟩

/-- Hollow items are free: the one byte here is their number. -/
example : ((Decoder.ofSource { unread := [5] } Sample.third).decode
    (.sequence (.record 17))).1.toOption.map Datum.content = some 5 := by decide +kernel

end TagWire
