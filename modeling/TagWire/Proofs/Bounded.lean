import TagWire.Proofs.Passage

/-! What the limits on lengths leave of a value that was decoded under them. They hold of all its
text and of all its sequences, at any depth and on every way they can have come; only a UUID is as
long as it is. -/
namespace TagWire

variable {S : Schema} {setting : Setting S} {L : Limits} {t : Shape} {r : Nat}

def Passage.codec? : Passage → Option Builtin
  | through b => some b
  | _ => none

namespace Options

/-- Most bytes of a text that is read through a codec or, for none, in its generic form. -/
def maxTextBy (o : Options) : Option Builtin → Nat
  | some .uuid => 36
  | _ => o.maxText

/-- Most items of a sequence. Through a codec these are the bytes of a text or of a UUID. -/
def maxItemsBy (o : Options) : Option Builtin → Nat
  | none => o.maxItems
  | some .uuid => 16
  | some _ => o.maxText

end Options

def Scalar.text? : (s : Scalar) → s.Carrier → Option String
  | text, s => some s
  | variant, .text s => some s
  | _, _ => none

theorem Scalar.Within.length_le {s : Scalar} {x : s.Carrier} (h : s.Within L x) {content : String}
    (hc : s.text? x = some content) : (Text.utf8 content).length ≤ L.maxText := by
  cases s with
  | text =>
    cases hc
    exact h.1
  | variant =>
    cases x with
    | text =>
      cases hc
      exact h.1
    | _ => cases hc
  | _ => cases hc

namespace Datum

/-- No text and no sequence of the value is longer than the options allow on the way it came. -/
def Bounded (setting : Setting S) : {t : Shape} → Datum S t → Option Builtin → Prop
  | _, .scalar (s := s) x, b => ∀ content, s.text? x = some content →
    (Text.utf8 content).length ≤ setting.options.maxTextBy b
  | _, .sequence n item, b =>
    n ≤ setting.options.maxItemsBy b ∧ ∀ i, (item i).Bounded setting none
  | _, .absent, _ => True
  | _, .present d, b => d.Bounded setting b
  | _, .boxed d, b => d.Bounded setting b
  | _, .record (r := r) field, _ => ∀ i, (field i).Bounded setting (setting.passage r i).codec?
  | _, .custom _, _ => True

theorem bounded_of_text? {s : Scalar} {x : s.Carrier} (h : s.text? x = none) (b : Option Builtin) :
    (Datum.scalar (S := S) x).Bounded setting b := by
  intro content hc
  rw [h] at hc
  cases hc

theorem bounded_initialWith {n : Nat} {record : (r : Nat) → r < n → Datum S (.record r)}
    (h : ∀ r hr b, (record r hr).Bounded setting b) :
    (t : Shape) → (ht : t.rank ≤ n) → (b : Option Builtin) →
      (initialWith record t ht).Bounded setting b
  | .scalar s, _, b => by
    cases s with
    | text =>
      intro content hc
      cases hc
      exact Nat.zero_le _
    | _ => exact bounded_of_text? rfl b
  | .sequence _, _, _ => ⟨Nat.zero_le _, nofun⟩
  | .optional _, _, _ => trivial
  | .boxed t, ht, b => bounded_initialWith h t ht b
  | .record r, ht, b => h r ht b
  | .custom _, _, _ => trivial

theorem bounded_initialRecord : (n r : Nat) → (hr : r < n) → (b : Option Builtin) →
    (initialRecord n r hr : Datum S _).Bounded setting b
  | n + 1, _, _, _ => fun _ => bounded_initialWith (bounded_initialRecord n) _ _ _

theorem bounded_initial (t : Shape) (b : Option Builtin) :
    (initial t : Datum S t).Bounded setting b :=
  bounded_initialWith (bounded_initialRecord _) t _ b

theorem bounded_wrap {b : Option Builtin} : (t : Shape) → {d : Datum S t.pointee} →
    d.Bounded setting b → (wrap t d).Bounded setting b
  | .scalar _, _, h | .sequence _, _, h | .record _, _, h | .custom _, _, h => h
  | .optional t, _, h | .boxed t, _, h => bounded_wrap t h

theorem bounded_set {fields : Fields S r} (h : (Datum.record fields).Bounded setting none)
    {i : Fin (S.arity r)} {v : Datum S (S.fieldShape r i)}
    (hv : v.Bounded setting (setting.passage r i).codec?) :
    (Datum.record (fields.set i v)).Bounded setting none := by
  intro j
  by_cases hj : j = i
  · subst hj
    rwa [Fields.set_self]
  · rw [Fields.set_ne _ hj]
    exact h j

theorem bounded_ofArray {a : Array (Datum S t)} (hmax : a.size ≤ setting.options.maxItems)
    (ha : ∀ d ∈ a, d.Bounded setting none) : (ofArray a).Bounded setting none :=
  ⟨hmax, fun i => ha _ (Array.getElem_mem i.isLt)⟩

theorem bounded_ofBytes {bs : List UInt8} {b : Option Builtin}
    (h : bs.length ≤ setting.options.maxItemsBy b) :
    (ofBytes bs : Datum S byteSequence).Bounded setting b := by
  have hbyte : ∀ d : Datum S (.scalar (.int .u8)), d.Bounded setting none := fun (.scalar _) =>
    bounded_of_text? rfl none
  exact ⟨by simpa using h, fun i => hbyte _⟩

/-! ### What the codecs put into a field -/

theorem bounded_of_putTruth? {d d' : Datum S t} {x : Bool} {b : Option Builtin}
    (h : putTruth? x d = some d') : d'.Bounded setting b := by
  unfold putTruth? at h
  split at h <;> cases h
  all_goals exact bounded_of_text? rfl b

theorem bounded_of_putInteger? {d d' : Datum S t} {x : Int} {b : Option Builtin}
    (h : putInteger? x d = some d') : d'.Bounded setting b := by
  unfold putInteger? at h
  split at h <;> cases h
  exact bounded_of_text? rfl b

theorem bounded_of_putDouble? {d d' : Datum S t} {x : UInt64} {b : Option Builtin}
    (h : putDouble? x d = some d') : d'.Bounded setting b := by
  unfold putDouble? at h
  split at h <;> cases h
  all_goals exact bounded_of_text? rfl b

theorem bounded_of_putUuid {d d' : Datum S t} {o : Octets} (h : Codec.putUuid o d = .ok d') :
    d'.Bounded setting (some .uuid) := by
  unfold Codec.putUuid at h
  split at h
  · cases h
    exact bounded_of_text? rfl _
  · cases h
    exact bounded_of_text? rfl _
  · cases h
    exact bounded_ofBytes (Nat.le_of_eq o.length_eq)
  · cases h
    intro content hc
    cases hc
    exact Nat.le_of_eq o.length_utf8_hyphenated
  · cases h

end Datum

namespace Codec

theorem yields_bounded_string (t : Shape) : Yields setting.options.limits
    ((string : Codec S).fresh t) fun d _ => d.Bounded setting (some .string) := by
  rw [fresh_string, readString.eq_def]
  split
  · refine Yields.map (Reader.yields_text.mono fun s n h => ?_)
    intro content hc
    cases hc
    exact h.1.1
  · exact Yields.map (Reader.yields_textBytes.mono fun bs n h => Datum.bounded_ofBytes h.1.1)
  · exact Yields.fail _

theorem yields_bounded_uuid (t : Shape) : Yields setting.options.limits
    ((uuid : Codec S).fresh t) fun d _ => d.Bounded setting (some .uuid) := by
  rw [fresh, produce_uuid]
  exact Reader.yields_octets.bind fun o n _ => Yields.lift fun d hd => Datum.bounded_of_putUuid hd

theorem yields_bounded_time (t : Shape) : Yields setting.options.limits
    ((time : Codec S).fresh t) fun d _ => d.Bounded setting (some .time) := by
  rw [fresh_time, readTime.eq_def]
  split
  · exact Yields.map (Reader.yields_instant.mono fun _ _ _ => Datum.bounded_of_text? rfl _)
  · exact Yields.map (Reader.yields_millis.mono fun _ _ _ => Datum.bounded_of_text? rfl _)
  · refine Reader.yields_millis.bind fun m n _ => ?_
    split
    · exact Yields.pure (Datum.bounded_of_text? rfl _)
    · exact Yields.fail _
  · exact Yields.fail _

end Codec

theorem Builtin.yields_bounded (b : Builtin) (t : Shape) : Yields setting.options.limits
    ((b.codec : Codec S).fresh t) fun d _ => d.Bounded setting (some b) := by
  cases hk : b.kind? with
  | some w =>
    obtain ⟨name, write, read, hc, hn⟩ := codec_of_kind? (S := S) hk
    rw [hc]
    exact Codec.yields_ofViews (hn.yields _) fun _ _ _ _ => Datum.bounded_of_putInteger?
  | none =>
    cases b with
    | bool =>
      exact Codec.yields_ofViews Reader.yields_bool fun _ _ _ _ => Datum.bounded_of_putTruth?
    | byte | type | short | int | long | nullSize | size => cases hk
    | float =>
      have hread : Yields setting.options.limits (Float.widen <$> Reader.float32) fun _ _ => True :=
        Yields.map (Reader.yields_float32.mono fun _ _ _ => trivial)
      exact Codec.yields_ofViews hread fun _ _ _ _ => Datum.bounded_of_putDouble?
    | double =>
      exact Codec.yields_ofViews Reader.yields_float64 fun _ _ _ _ => Datum.bounded_of_putDouble?
    | string => exact Codec.yields_bounded_string t
    | uuid => exact Codec.yields_bounded_uuid t
    | time => exact Codec.yields_bounded_time t

/-! ### Values -/

section Fields

variable {allowed : Builtin → Shape → Prop} {dec : {t : Shape} → Overwriting S t}
  (hplain : ∀ (i : Fin (S.arity r)) (d : Datum S (S.fieldShape r i)), d.Bounded setting none →
    Yields setting.options.limits (InPlace.produce dec d) fun v _ => v.Bounded setting none)

include hplain

theorem yields_field_bounded {d : Descriptor} (hd : setting.Faces allowed r d)
    {fields : Fields S r} (hf : (Datum.record fields).Bounded setting none) :
    Yields setting.options.limits (InPlace.produce (Decoding.field setting dec d) fields)
      fun fields _ => (Datum.record fields).Bounded setting none := by
  cases hd with
  | refused e _ decode =>
    rw [decode]
    exact Yields.fail e
  | plain i _ hp _ decode =>
    have hi := hf i
    rw [hp] at hi
    rw [decode]
    refine Yields.map ((hplain i _ hi).mono fun v _ hv => Datum.bounded_set hf ?_)
    rwa [hp]
  | through i b _ hp _ _ decode =>
    rw [decode]
    have hread : Yields setting.options.limits
        (Datum.wrap _ <$> b.codec.fresh (S.fieldShape r i).pointee)
        fun v _ => v.Bounded setting (setting.passage r i).codec? := by
      rw [hp]
      exact Yields.map ((b.yields_bounded _).mono fun _ _ h => Datum.bounded_wrap _ h)
    refine (Decoding.yields_read hread).bind fun v _ hv =>
      Yields.bind (P := fun _ _ => True) ?_ fun _ _ _ => Yields.pure (Datum.bounded_set hf hv)
    exact Yields.update (fun _ => rfl) trivial

theorem yields_fieldsInOrder_bounded {ds : List Descriptor}
    (hd : ∀ d ∈ ds, setting.Faces allowed r d) {fields : Fields S r}
    (hf : (Datum.record fields).Bounded setting none) :
    Yields setting.options.limits (InPlace.produce (Decoding.fieldsInOrder setting dec ds) fields)
      fun fields _ => (Datum.record fields).Bounded setting none := by
  induction ds generalizing fields with
  | nil => exact Yields.pure hf
  | cons d ds ih =>
    rw [Decoding.produce_fieldsInOrder_cons]
    refine (yields_field_bounded hplain (hd d List.mem_cons_self) hf).bind fun fields _ hf => ?_
    exact ih (fun d hm => hd d (List.mem_cons_of_mem _ hm)) hf

end Fields

theorem yields_value_bounded {allowed : Builtin → Shape → Prop} (levels : Nat) (hp : S.Plain t)
    (ho : setting.Overrides allowed t) {d : Datum S t} (hd : d.Bounded setting none) :
    Yields setting.options.limits (InPlace.produce (Decoding.value setting levels) d)
      fun v _ => v.Bounded setting none := by
  induction levels generalizing t with
  | zero => exact Yields.fail _
  | succ levels ih =>
    rw [Decoding.produce_value_of_ne hp.ne_custom]
    have hpart : ∀ u ∈ S.parts t, ∀ d : Datum S u, d.Bounded setting none →
        Yields setting.options.limits (InPlace.produce (Decoding.value setting levels) d)
          fun v _ => v.Bounded setting none :=
      fun u hu d hd => ih (hp.part hu) (ho.part hu) hd
    have hfresh := fun u (hu : u ∈ S.parts t) => hpart u hu _ (Datum.bounded_initial u none)
    cases d with
    | @scalar s x =>
      rw [Decoding.produce_body_scalar]
      refine Decoding.yields_read (Yields.map (s.yields_read.mono fun x _ h => ?_))
      exact fun content hc => h.2.1.length_le hc
    | @sequence t n item =>
      rw [Decoding.produce_body_sequence]
      refine (Decoding.yields_read Reader.yields_itemCount).bind fun n _ hn => ?_
      have hitems := Yields.collect (hfresh t (S.mem_parts_sequence t)) n #[] nofun
      refine Yields.map (hitems.mono fun a _ ⟨hsize, ha⟩ => ?_)
      apply Datum.bounded_ofArray _ ha
      rw [hsize, List.size_toArray, List.length_nil, Nat.zero_add]
      exact hn.2.1
    | @absent t | @present t d =>
      rw [Decoding.produce_body_optional]
      exact Yields.map (hfresh t (S.mem_parts_optional t))
    | @boxed t d =>
      rw [Decoding.produce_body_boxed]
      exact Yields.map (hfresh t (S.mem_parts_boxed t))
    | @record r fields =>
      rw [Decoding.produce_body_record]
      refine Yields.lift_bind fun layout hl => Yields.map ?_
      apply yields_fieldsInOrder_bounded _ (fun d => ho.faces hl) hd
      intro i d
      exact hpart _ (Schema.fieldShape_mem_parts r i) d
    | @custom k x => exact absurd rfl (hp.ne_custom k)

end TagWire
