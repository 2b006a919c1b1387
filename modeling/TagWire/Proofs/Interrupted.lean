import TagWire.Proofs.Passage
import TagWire.Proofs.Schema.Fields
import TagWire.Proofs.Session
import TagWire.Sample.Schema

/-! What is left of a value when decoding into it fails. Everything but one field is as it was or
has been read; that field is untouched, opened, or a record that was itself interrupted. -/
namespace TagWire

variable {S : Schema} {t : Shape} {r : Nat} {setting : Setting S} {e : Error}

namespace Codec

/-- A codec that fails leaves what it was given. -/
def Keeps (c : Codec S) : Prop :=
  ∀ {t : Shape} {old half : Datum S t} {start stop : Reader} {e : Error},
    c.decode old start = ((.error e, half), stop) → half = old

theorem counted_of_error {x : Reading (Datum S t)} {old half : Datum S t} {start stop : Reader}
    (h : counted x old start = ((.error e, half), stop)) : half = old := by
  unfold counted at h
  split at h
  · cases h
  · cases h
    rfl

theorem keeps_ofViews {α : Type} {name : String} {find : {t : Shape} → Datum S t → Option α}
    {put : α → {t : Shape} → Datum S t → Option (Datum S t)} {write : α → Writing Nat}
    {read : Reading α} : (ofViews name find put write read).Keeps := counted_of_error

theorem keeps_string : (string : Codec S).Keeps := by
  intro t old half start stop e h
  unfold string at h
  dsimp only at h
  split at h <;> exact counted_of_error h

theorem keeps_uuid : (uuid : Codec S).Keeps := counted_of_error

theorem keeps_time : (time : Codec S).Keeps := by
  intro t old half start stop e h
  unfold time at h
  dsimp only at h
  split at h <;> exact counted_of_error h

end Codec

theorem Builtin.keeps_codec (b : Builtin) : (b.codec : Codec S).Keeps := by
  cases b with
  | string => exact Codec.keeps_string
  | uuid => exact Codec.keeps_uuid
  | time => exact Codec.keeps_time
  | _ => exact Codec.keeps_ofViews

def Shape.indirect : Shape → Bool
  | optional _ | boxed _ => true
  | _ => false

namespace Datum

theorem wrap_opened (h : t.indirect = false) (d : Datum S t) : wrap t d.opened = d := by
  cases d with
  | scalar | sequence | record | custom => rfl
  | absent | present | boxed => cases h

theorem opened_of_indirect (h : t.indirect = true) (d : Datum S t) :
    d.opened = .initial t.pointee := by
  cases d with
  | scalar | sequence | record | custom => cases h
  | absent | present | boxed => rfl

end Datum

namespace Decoding

/-- The fields of the descriptors, decoded one after the other from what they held, gave what they
hold now. -/
inductive Gave (setting : Setting S) (levels : Nat) (old new : Fields S r) :
    List Descriptor → DecodeState → DecodeState → Prop
  | nil {s : DecodeState} : Gave setting levels old new [] s s
  | cons {d : Descriptor} {ds : List Descriptor} {s s₁ s' : DecodeState} (i : Fin (S.arity r))
      (index : d.index = i)
      (value : fieldValue setting (value setting levels) d.codec (old i) s = ((.ok (), new i), s₁))
      (rest : Gave setting levels old new ds s₁ s') : Gave setting levels old new (d :: ds) s s'

/-- Decoding a record got as far as one of its present fields: those before it hold what their
decode gave, and all others but itself, present or not, are as they were. -/
def Reached (setting : Setting S) (levels : Nat) (s : DecodeState) (old half : Fields S r)
    (d : Descriptor) (s' : DecodeState) : Prop :=
  ∃ before after,
    (S.record r).layoutAt setting.options.version = .ok (before ++ d :: after) ∧
    Gave setting levels old half before s s' ∧ Fields.EqOff (before ++ [d]) old half

/-- What is left of a value when decoding into it fails, with the states before and after. -/
inductive Interrupted (setting : Setting S) : (levels : Nat) → DecodeState → {t : Shape} →
    (old half : Datum S t) → Error → DecodeState → Prop
  | deep {s t} (old : Datum S t) :
      Interrupted setting 0 s old old (.depthExceeded setting.options.maxDepth) s
  | badTag {levels s r e} {old : Fields S r}
      (layout : (S.record r).layoutAt setting.options.version = .error e) :
      Interrupted setting (levels + 1) s (.record old) (.record old) e s
  | kept {levels s s' t e} {old : Datum S t} (shape : t.record? = none)
      (fails : value setting (levels + 1) old s = ((.error e, old), s')) :
      Interrupted setting (levels + 1) s old old e s'
  | nested {levels s s₁ s' r e d} {old half : Fields S r}
      (reached : Reached setting levels s old half d s₁) (i : Fin (S.arity r))
      (index : d.index = i) (codec : d.codec = none)
      (left : Interrupted setting levels s₁ (old i) (half i) e s') :
      Interrupted setting (levels + 1) s (.record old) (.record half) e s'
  | unregistered {levels s s' r e d} {old half : Fields S r}
      (reached : Reached setting levels s old half d s') (i : Fin (S.arity r))
      (index : d.index = i) {name : String} (codec : d.codec = some name)
      (refused : setting.registry.lookup name = .error e) (left : half i = old i) :
      Interrupted setting (levels + 1) s (.record old) (.record half) e s'
  | direct {levels s s₁ s' r e d} {old half : Fields S r}
      (reached : Reached setting levels s old half d s₁) (i : Fin (S.arity r))
      (index : d.index = i) {name : String} (codec : d.codec = some name) {c : Codec S}
      (found : setting.registry.lookup name = .ok c)
      (fails : readInPlace c.readField (old i) s₁ = ((.error e, half i), s'))
      (shape : (S.fieldShape r i).indirect = false) (left : half i = old i) :
      Interrupted setting (levels + 1) s (.record old) (.record half) e s'
  | opened {levels s s₁ s' r e d} {old half : Fields S r}
      (reached : Reached setting levels s old half d s₁) (i : Fin (S.arity r))
      (index : d.index = i) {name : String} (codec : d.codec = some name) {c : Codec S}
      (found : setting.registry.lookup name = .ok c)
      (fails : readInPlace c.readField (old i) s₁ = ((.error e, half i), s'))
      (shape : (S.fieldShape r i).indirect = true) (left : half i = .wrap _ (.initial _)) :
      Interrupted setting (levels + 1) s (.record old) (.record half) e s'
  /-- A tag without a field behind it. -/
  | stray {levels s s' r e d} {old half : Fields S r}
      (reached : Reached setting levels s old half d s') (index : S.arity r ≤ d.index) :
      Interrupted setting (levels + 1) s (.record old) (.record half) e s'

variable {levels : Nat} {s s' : DecodeState} {old half : Fields S r}

theorem Gave.congr {ds : List Descriptor} {old' : Fields S r}
    (h : Gave setting levels old half ds s s') (ho : Fields.EqOn ds old old') :
    Gave setting levels old' half ds s s' := by
  induction h with
  | nil => exact .nil
  | cons i index value rest ih =>
    exact .cons i index (ho.head index ▸ value) (ih fun j hj => ho j (List.mem_cons_of_mem _ hj))

theorem Reached.descriptor {d : Descriptor} (h : Reached setting levels s old half d s')
    {i : Fin (S.arity r)} (hi : d.index = i) : S.descriptor r i = .ok d := by
  obtain ⟨before, after, hl, -⟩ := h
  exact ((S.mem_layoutAt hl i d).1 ⟨by simp, hi⟩).1

def Halted (setting : Setting S) (levels : Nat) (ds : List Descriptor) (s : DecodeState)
    (old half : Fields S r) (e : Error) (s' : DecodeState) : Prop :=
  ∃ (before after : List Descriptor) (d : Descriptor) (s₁ : DecodeState),
    ds = before ++ d :: after ∧ Gave setting levels old half before s s₁ ∧
    Fields.EqOff (before ++ [d]) old half ∧
    ((S.arity r ≤ d.index ∧ s' = s₁) ∨ ∃ i : Fin (S.arity r), d.index = i ∧
      fieldValue setting (value setting levels) d.codec (old i) s₁ = ((.error e, half i), s'))

theorem Halted.head {d : Descriptor} {i : Fin (S.arity r)} (hi : d.index = i)
    {v : Datum S (S.fieldShape r i)}
    (hv : fieldValue setting (value setting levels) d.codec (old i) s = ((.error e, v), s'))
    (ds : List Descriptor) : Halted setting levels (d :: ds) s old (old.set i v) e s' := by
  refine ⟨[], ds, d, s, rfl, .nil, fun j hj => ?_, .inr ⟨i, hi, ?_⟩⟩
  · refine (Fields.set_ne old ?_ v).symm
    rintro rfl
    exact hj (hi ▸ List.mem_cons_self)
  · rw [hv, Fields.set_self]

theorem Halted.cons {d : Descriptor} {ds : List Descriptor}
    (hn : d.index ∉ ds.map Descriptor.index) {i : Fin (S.arity r)} (hi : d.index = i)
    {v : Datum S (S.fieldShape r i)} {s₁ : DecodeState}
    (hv : fieldValue setting (value setting levels) d.codec (old i) s = ((.ok (), v), s₁))
    (h : Halted setting levels ds s₁ (old.set i v) half e s') :
    Halted setting levels (d :: ds) s old half e s' := by
  obtain ⟨before, after, f, s₂, rfl, hgave, hothers, hfails⟩ := h
  have hset : Fields.EqOn (before ++ f :: after) (old.set i v) old :=
    Fields.EqOn.set hn hi (fun _ _ => rfl) v
  have hout : d.index ∉ (before ++ [f]).map Descriptor.index := fun hm => hn <| by
    simp only [List.map_append, List.map_cons, List.map_nil, List.mem_append,
      List.mem_cons, List.not_mem_nil, or_false] at hm ⊢
    exact hm.imp_right .inl
  obtain ⟨hv', hothers⟩ := hothers.of_set hout hi
  refine ⟨d :: before, after, f, s₂, rfl, .cons i hi (hv' ▸ hv) ?_, hothers, ?_⟩
  · exact hgave.congr fun j hj => hset j (by simp [hj])
  · refine hfails.imp_right ?_
    rintro ⟨k, hk, hfails⟩
    refine ⟨k, hk, ?_⟩
    rw [← hset k (by simp [hk]), hfails]

theorem halted_of_fieldsInOrder {ds : List Descriptor} (hn : (ds.map Descriptor.index).Nodup)
    (h : fieldsInOrder setting (value setting levels) ds old s = ((.error e, half), s')) :
    Halted setting levels ds s old half e s' := by
  induction ds generalizing old s with
  | nil => cases h
  | cons d ds ih =>
    rw [List.map_cons, List.nodup_cons] at hn
    unfold fieldsInOrder at h
    by_cases hi : d.index < S.arity r
    · rw [field_eq_through (i := ⟨d.index, hi⟩) rfl] at h
      unfold InPlace.through at h
      dsimp only at h
      rcases hv : fieldValue setting (value setting levels) d.codec (old ⟨d.index, hi⟩) s with
        ⟨⟨_ | _, v⟩, s₁⟩
      · rw [hv] at h
        cases h
        exact .head rfl hv ds
      · rw [hv] at h
        exact .cons hn.1 rfl hv (ih hn.2 h)
    · have hle := Nat.le_of_not_lt hi
      obtain ⟨e₁, -, hfield⟩ := @field_refused S setting r d (.inl hle)
      rw [hfield] at h
      cases h
      exact ⟨[], ds, d, _, rfl, .nil, fun _ _ => rfl, .inl ⟨hle, rfl⟩⟩

theorem body_record_of_ok {nested : {t : Shape} → Overwriting S t} {layout : List Descriptor}
    (hl : (S.record r).layoutAt setting.options.version = .ok layout) :
    body setting nested (.record r) (.record old) s =
      (((fieldsInOrder setting nested layout old s).1.1,
        .record (fieldsInOrder setting nested layout old s).1.2),
        (fieldsInOrder setting nested layout old s).2) := by
  simp only [body, hl]

theorem body_record_of_error {nested : {t : Shape} → Overwriting S t}
    (hl : (S.record r).layoutAt setting.options.version = .error e) :
    body setting nested (.record r) (.record old) s = ((.error e, .record old), s) := by
  simp only [body, hl]

theorem assign_of_error {ε σ α : Type} {x : Attempt ε σ α} {old half : α} {start stop : σ} {e : ε}
    (h : InPlace.assign x old start = ((.error e, half), stop)) : half = old := by
  unfold InPlace.assign at h
  split at h
  · cases h
  · cases h
    rfl

theorem readField_of_error {c : Codec S} (hc : c.Keeps) {old half : Datum S t}
    {s s' : DecodeState} (h : readInPlace c.readField old s = ((.error e, half), s')) :
    half = .wrap t old.opened := by
  unfold readInPlace Codec.readField InPlace.through at h
  dsimp only at h
  rcases hd : c.decode old.opened s.reader with ⟨⟨_ | _, left⟩, stop⟩
  · rw [hd] at h
    cases h
    rw [hc hd]
  · rw [hd] at h
    cases h

theorem fieldValue_of_error {nested : {t : Shape} → Overwriting S t} {name : String}
    {old half : Datum S t}
    (h : fieldValue setting nested (some name) old s = ((.error e, half), s')) :
    (setting.registry.lookup name = .error e ∧ half = old ∧ s' = s) ∨
      ∃ c, setting.registry.lookup name = .ok c ∧
        readInPlace c.readField old s = ((.error e, half), s') := by
  unfold fieldValue at h
  dsimp only at h
  cases hl : setting.registry.lookup name with
  | error e₁ =>
    rw [hl] at h
    cases h
    exact .inl ⟨rfl, rfl, rfl⟩
  | ok c =>
    rw [hl] at h
    dsimp only at h
    rcases hr : readInPlace c.readField old s with ⟨⟨_ | _, v⟩, s₁⟩
    · rw [hr] at h
      cases h
      exact .inr ⟨c, rfl, hr⟩
    · rw [hr] at h
      cases h

theorem Interrupted.of_reached {d : Descriptor} {s₁ : DecodeState}
    (ho : setting.Overrides (fun _ _ => True) (.record r))
    (hr : Reached setting levels s old half d s₁) {i : Fin (S.arity r)} (hi : d.index = i)
    (hf : fieldValue setting (value setting levels) d.codec (old i) s₁ = ((.error e, half i), s'))
    (ih : value setting levels (old i) s₁ = ((.error e, half i), s') →
      Interrupted setting levels s₁ (old i) (half i) e s') :
    Interrupted setting (levels + 1) s (.record old) (.record half) e s' := by
  cases hc : d.codec with
  | none =>
    rw [hc] at hf
    exact .nested hr i hi hc (ih hf)
  | some name =>
    rw [hc] at hf
    rcases fieldValue_of_error hf with ⟨hl, hleft, rfl⟩ | ⟨c, hl, hread⟩
    · exact .unregistered hr i hi hc hl hleft
    · obtain ⟨b, rfl, -⟩ := ho r Schema.Contains.refl i d name c (hr.descriptor hi) hc hl
      have hleft := readField_of_error b.keeps_codec hread
      cases hshape : (S.fieldShape r i).indirect with
      | false => exact .direct hr i hi hc hl hread hshape (hleft.trans (Datum.wrap_opened hshape _))
      | true =>
        rw [Datum.opened_of_indirect hshape] at hleft
        exact .opened hr i hi hc hl hread hshape hleft

theorem interrupted_of_error (hp : S.Plain t) (ho : setting.Overrides (fun _ _ => True) t)
    {old half : Datum S t} (h : value setting levels old s = ((.error e, half), s')) :
    Interrupted setting levels s old half e s' := by
  induction levels generalizing t s s' with
  | zero =>
    cases h
    exact .deep old
  | succ levels ih =>
    have hkept (ht : t.record? = none) (hleft : half = old) :
        Interrupted setting (levels + 1) s old half e s' := by
      subst hleft
      exact .kept ht h
    cases old with
    | scalar | sequence | absent | present | boxed => exact hkept rfl (assign_of_error h)
    | custom => exact absurd rfl (hp.ne_custom _)
    | @record r old =>
      change body setting (value setting levels) (.record r) (.record old) s = _ at h
      cases hl : (S.record r).layoutAt setting.options.version with
      | error e₁ =>
        rw [body_record_of_error hl] at h
        cases h
        exact .badTag hl
      | ok layout =>
        rw [body_record_of_ok hl] at h
        rcases hd : fieldsInOrder setting (value setting levels) layout old s with
          ⟨⟨_ | _, left⟩, s₁⟩
        · rw [hd] at h
          cases h
          obtain ⟨before, after, d, s₂, rfl, hgave, hothers, hfails⟩ :=
            halted_of_fieldsInOrder (S.nodup_layoutAt hl) hd
          have hr : Reached setting levels s old left d s₂ := ⟨before, after, hl, hgave, hothers⟩
          rcases hfails with ⟨hstray, rfl⟩ | ⟨i, hi, hf⟩
          · exact .stray hr hstray
          · have hfield := Schema.fieldShape_mem_parts r i
            exact .of_reached ho hr hi hf (ih (hp.part hfield) (ho.part hfield))
        · rw [hd] at h
          cases h

end Decoding

/-- Decoding into a record that fails, from any state of a decoder, leaves all but the fields before
the failing one as it was, and of that one what its kind and its tag say. -/
theorem Decoder.interrupted_of_decodeInto {D D' : Decoder S} (hp : S.Plain (.record r))
    (ho : D.setting.Overrides (fun _ _ => True) (.record r)) {old half : Datum S (.record r)}
    (h : D.decodeInto old = ((.error e, half), D')) : ∃ s, D'.reader = s.reader ∧
      Decoding.Interrupted D.setting D.setting.options.maxDepth ⟨D.reader, D.metrics⟩ old half e
        s := by
  unfold decodeInto value run at h
  dsimp only at h
  rcases hv : Decoding.value D.setting D.setting.options.maxDepth old ⟨D.reader, D.metrics⟩ with
    ⟨⟨_ | _, left⟩, s⟩
  · rw [hv] at h
    cases h
    exact ⟨s, rfl, Decoding.interrupted_of_error hp ho hv⟩
  · rw [hv] at h
    cases h

namespace Sample

def crate : RecordType := recordType "Crate" [
  ⟨"lid", int .u8, ",1"⟩, ⟨"goods", .record 7, ",2"⟩, ⟨"note", text, ",3"⟩]

def crateSchema : TagWire.Schema := schemaWith crate (by decide)

def crateShapes : List Shape :=
  [.record spare, int .u8, .record 7, text, int .u32, .optional (.boxed (int .i64)),
    .boxed (int .i64), int .i64]

def filled : Datum crateSchema (.record spare) := .record fun
  | ⟨0, _⟩ => .scalar (IntKind.u8.wrap 9)
  | ⟨1, _⟩ => .initial _
  | ⟨2, _⟩ => .scalar "fragile"

/-- The lid, the port and the UUID of the goods, and half of the integer behind them. -/
def crateBytes : List UInt8 := 5 :: 1 :: 2 :: List.replicate 16 7 ++ [0, 0]

def packer : Decoder crateSchema :=
  .ofSource { unread := crateBytes } ⟨.atVersion 1, .builtins⟩

end Sample

theorem Decoder.interrupted_of_decodeInto_crate : ∃ e half D',
    Sample.packer.decodeInto Sample.filled = ((.error e, half), D') ∧ D'.reader.offset = 19 ∧
      ∃ s, D'.reader = s.reader ∧ Decoding.Interrupted Sample.packer.setting
        Sample.packer.setting.options.maxDepth ⟨Sample.packer.reader, Sample.packer.metrics⟩
        Sample.filled half e s := by
  have hc : Sample.crateSchema.Closed Sample.crateShapes := by decide +kernel
  have ht : .record Sample.spare ∈ Sample.crateShapes := by decide
  have hp : Sample.crateSchema.Plain (.record Sample.spare) := .of_closed hc ht (by decide)
  have ho : Sample.packer.setting.Overrides (fun _ _ => True) (.record Sample.spare) :=
    .of_closed rfl hc ht fun _ _ _ _ _ _ _ => trivial
  have hfails : (Sample.packer.decodeInto Sample.filled).1.1.isOk = false := by decide +kernel
  have hk : (Sample.packer.decodeInto Sample.filled).2.reader.offset = 19 := by decide +kernel
  rcases hd : Sample.packer.decodeInto Sample.filled with ⟨⟨e | n, half⟩, D'⟩
  · rw [hd] at hk
    exact ⟨e, half, D', rfl, hk, interrupted_of_decodeInto hp ho hd⟩
  · rw [hd] at hfails
    cases hfails

end TagWire
