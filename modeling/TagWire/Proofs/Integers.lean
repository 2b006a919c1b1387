import Mathlib.Data.Int.ModEq
import TagWire.Proofs.Codec.Laws
import TagWire.Proofs.Registrations
import TagWire.Sample.Schema

/-! Integers through the codecs that take every integer: which number arrives in a field of another
width, and which numbers survive. -/
namespace TagWire

variable {S : Schema} {t t' : Shape}

namespace IntKind

variable {k w : IntKind}

theorem wrap_wrap_eq_iff (x : Num k) :
    k.wrap (w.wrap x.val).val = x ↔ ∃ v : Num w, v.val ≡ x.val [ZMOD k.count] := by
  have hself (y : Int) : k.wrap y = x ↔ y ≡ x.val [ZMOD k.count] := by
    conv => lhs; rhs; rw [← k.wrap_val x]
    exact wrap_eq_wrap_iff k y x.val
  rw [hself]
  refine ⟨fun h => ⟨_, h⟩, fun ⟨v, hv⟩ => ?_⟩
  rcases Nat.le_total k.width w.width with hk | hk
  · rw [← hself, wrap_wrap hk, wrap_val]
  · -- a wider kind sees that the numbers of the narrow one agree, and so it is the one of `x`
    have hd : (w.count : Int) ∣ k.count := Int.natCast_dvd_natCast.2 (BigEndian.count_dvd hk)
    have hv' : w.wrap x.val = v := by
      rw [← w.wrap_val v]
      exact ((wrap_eq_wrap_iff w _ _).2 (hv.of_dvd hd)).symm
    rw [hv']
    exact hv

theorem count_eq (k : IntKind) : k.count = 2 ^ (8 * k.width) := by
  cases k <;> rfl

theorem width_le (k : IntKind) : k.width ≤ 8 := by
  cases k <;> decide

theorem count_lt_count {k w : IntKind} (h : w.width < k.width) : w.count < k.count := by
  rw [count_eq, count_eq]
  exact Nat.pow_lt_pow_right (by decide) (by omega)

/-- What becomes of a natural number that has the bytes of the other kind: beyond that kind's
greatest number it is taken for a negative one. -/
def turned (w : IntKind) {k : IntKind} (x : Num k) : Num k :=
  if k.width ≤ w.width ∨ x.val ≤ w.greatest then x else k.wrap (x.val - w.count)

theorem wrap_wrap_eq_turned {x : Num k} (h₀ : 0 ≤ x.val) (h : x.val < w.count) :
    k.wrap (w.wrap x.val).val = turned w x := by
  have hzero := w.fits_zero
  unfold Fits greatest at hzero
  unfold turned
  split
  · next hsame =>
    rcases hsame with hk | hx
    · rw [wrap_wrap hk, wrap_val]
    · rw [wrap_val_of_fits ⟨by omega, hx⟩, wrap_val]
  · next hnot =>
    have hx : w.greatest < x.val := by
      by_contra hle
      exact hnot (.inr (by omega))
    have hdown : w.Fits (x.val - w.count) := by
      unfold greatest at hx
      unfold Fits greatest
      omega
    have hsame : w.wrap x.val = w.wrap (x.val - w.count) := by
      rw [wrap_eq_wrap_iff, Int.sub_emod_right]
    rw [hsame, wrap_val_of_fits hdown]

theorem turned_eq_iff {x : Num k} :
    turned w x = x ↔ k.width ≤ w.width ∨ x.val ≤ w.greatest := by
  unfold turned
  split
  · next h => simp [h]
  · next h =>
    have hlt := count_lt_count (k := k) (w := w) (by omega)
    have hpos := w.count_pos
    refine iff_of_false (fun he => ?_) h
    have hd : (k.count : Int) ∣ w.count := by
      conv at he => rhs; rw [← k.wrap_val x]
      have hmod : x.val - w.count ≡ x.val [ZMOD k.count] := (wrap_eq_wrap_iff k _ _).1 he
      simpa using hmod.dvd
    exact absurd (Nat.le_of_dvd hpos (Int.natCast_dvd_natCast.1 hd)) (by omega)

end IntKind

namespace Codec

/-- What is written of the field `d` is read into a field as `d'`, whatever that field held before
and whatever follows on the wire; reading counts the bytes that were written. -/
def Conveys (c : Codec S) (d : Datum S t) (d' : Datum S t') : Prop :=
  ∃ bs, Emits (c.writeField d) bs.length bs ∧ ∀ (old : Datum S t') (r : Reader), r.Starts bs →
    c.readField old r = ((.ok bs.length, d'), r.advance bs.length)

theorem Conveys.unique {c : Codec S} {d : Datum S t} {d₁ d₂ : Datum S t'}
    (h₁ : c.Conveys d d₁) (h₂ : c.Conveys d d₂) : d₁ = d₂ := by
  obtain ⟨bs₁, he₁, hr₁⟩ := h₁
  obtain ⟨bs₂, he₂, hr₂⟩ := h₂
  obtain ⟨w, hw, ht⟩ := he₁ {} rfl
  obtain ⟨w', hw', ht'⟩ := he₂ {} rfl
  have hbs : bs₁ = bs₂ := by
    rw [hw] at hw'
    have heq := ht.symm.trans ((congrArg Prod.snd hw').trans ht')
    simpa [Writer.append] using congrArg (·.sink.taken) heq
  subst hbs
  have hs : Reader.Starts { source := { unread := bs₁ } } bs₁ :=
    Reader.starts_of_prefix (List.prefix_refl bs₁) {} 0
  have heq := (hr₁ (.initial t') _ hs).symm.trans (hr₂ (.initial t') _ hs)
  exact congrArg (·.1.2) heq

theorem conveys_integer {name : String} {write : Int → Writing Nat} {read : Reading Int}
    {w : IntKind} (h : Numeric w write read) {k : IntKind} (x : Num k) (k' : IntKind) :
    (integer name write read : Codec S).Conveys (.scalar (s := .int k) x)
      (.scalar (s := .int k') (k'.wrap (w.wrap x.val).val)) := by
  obtain ⟨bs, he, ht⟩ := h.sends x.val
  refine ⟨bs, he, fun old r hs => ?_⟩
  obtain ⟨r', hread, hr⟩ := ht r.limits r.offset r rfl rfl hs
  have hr' : r' = r.advance bs.length := hr
  subst hr'
  cases old with
  | scalar old =>
    let d : Datum S (.scalar (.int k')) := .scalar old
    have hview : readView name Datum.putInteger? read d r =
        (.ok (.scalar (k'.wrap (w.wrap x.val).val)), r.advance bs.length) := Attempt.bind_ok hread
    have hdecode : (integer name write read : Codec S).decode d r =
        ((.ok bs.length, .scalar (k'.wrap (w.wrap x.val).val)), r.advance bs.length) := by
      show counted (readView name Datum.putInteger? read d) d r = _
      unfold counted
      rw [hview]
      simp [Reader.advance]
    have hfield : (integer name write read : Codec S).readField d r =
        ((((integer name write read).decode d r).1.1, ((integer name write read).decode d r).1.2),
          ((integer name write read).decode d r).2) := rfl
    rw [hfield, hdecode]

end Codec

theorem Builtin.conveys_codec {b : Builtin} {w : IntKind} (hb : b.kind? = some w) {k : IntKind}
    (x : Num k) (k' : IntKind) :
    (b.codec : Codec S).Conveys (.scalar (s := .int k) x)
      (.scalar (s := .int k') (k'.wrap (w.wrap x.val).val)) := by
  obtain ⟨name, write, read, hc, hn⟩ := codec_of_kind? (S := S) hb
  rw [hc]
  exact Codec.conveys_integer hn x k'

theorem Builtin.conveys_self_iff {b : Builtin} {w : IntKind} (hb : b.kind? = some w) {k : IntKind}
    (x : Num k) :
    (b.codec : Codec S).Conveys (.scalar (s := .int k) x) (.scalar (s := .int k) x) ↔
      k.wrap (w.wrap x.val).val = x := by
  have hconveys := b.conveys_codec (S := S) hb x k
  constructor
  · intro h
    have hsame := hconveys.unique h
    injection hsame
  · intro h
    rwa [h] at hconveys

/-- What an integer codec carries, from a field of any kind to one of any other, and which numbers
survive it. -/
theorem Registry.builtins_convey {b : Builtin} {w : IntKind} {name : String}
    (hb : b.kind? = some w) (hname : keyOf name ∈ b.names) :
    ∃ c : Codec S, builtins.lookup name = .ok c ∧
      (∀ (k k' : IntKind) (x : Num k),
        c.Conveys (.scalar (s := .int k) x)
          (.scalar (s := .int k') (k'.wrap (w.wrap x.val).val))) ∧
      (∀ (k : IntKind) (x : Num k),
        c.Conveys (.scalar (s := .int k) x) (.scalar (s := .int k) x) ↔
          ∃ v : Num w, v.val ≡ x.val [ZMOD 2 ^ (8 * k.width)]) ∧
      (∀ (k : IntKind) (x : Num k), k.width ≤ w.width →
        c.Conveys (.scalar (s := .int k) x) (.scalar (s := .int k) x)) ∧
      (b = .size ∨ b = .nullSize → ∀ (k : IntKind) (x : Num k),
        c.Conveys (.scalar (s := .int k) x) (.scalar (s := .int k) x)) := by
  have hwide (k : IntKind) (x : Num k) (h : k.width ≤ w.width) :
      (b.codec : Codec S).Conveys (.scalar (s := .int k) x) (.scalar (s := .int k) x) := by
    rw [b.conveys_self_iff hb, IntKind.wrap_wrap h, IntKind.wrap_val]
  refine ⟨b.codec, lookup_of_mem_names hname, fun k k' x => b.conveys_codec hb x k',
    fun k x => ?_, hwide, fun hsize k x => hwide k x ?_⟩
  · rw [b.conveys_self_iff hb, IntKind.wrap_wrap_eq_iff, IntKind.count_eq]
    norm_cast
  · rcases hsize with rfl | rfl <;> cases hb <;> exact k.width_le

theorem Registry.builtins_convey_octet :
    let x : Num .i64 := ⟨-1, by decide⟩
    Builtin.kind? .byte = some .u8 ∧ keyOf " Byte " ∈ Builtin.names .byte ∧
      ∃ c : Codec Sample.schema, builtins.lookup " Byte " = .ok c ∧
        c.Conveys (.scalar (s := .int .i64) x) (.scalar (s := .int .i16) ⟨255, by decide⟩) ∧
        ¬ c.Conveys (.scalar (s := .int .i64) x) (.scalar (s := .int .i64) x) := by
  intro x
  have hname : keyOf " Byte " ∈ Builtin.names .byte := by decide +kernel
  refine ⟨rfl, hname, ?_⟩
  obtain ⟨c, hc, hconveys, hself, -⟩ :=
    builtins_convey (S := Sample.schema) (b := .byte) (w := .u8) rfl hname
  refine ⟨c, hc, hconveys .i64 .i16 x, fun h => ?_⟩
  obtain ⟨v, hv⟩ := (hself .i64 x).1 h
  have hfits : 0 ≤ v.val ∧ v.val ≤ 255 := v.fits
  have hmod : v.val % 18446744073709551616 = (-1) % 18446744073709551616 := hv
  omega

def Registry.unsignedNames : List (String × IntKind) :=
  [("uint16", .i16), ("uint32", .i32), ("uint64", .i64)]

/-- A natural number below the count of the wire kind survives its unsigned name, unless the field
is wider and the number is beyond the greatest of the kind: then it comes back that count less. -/
theorem Registry.unsigned_names_convey {name : String} {w : IntKind}
    (h : (name, w) ∈ unsignedNames) :
    ∃ c : Codec S, builtins.lookup name = .ok c ∧
      (∀ (k : IntKind) (x : Num k), 0 ≤ x.val → x.val < w.count →
        c.Conveys (.scalar (s := .int k) x)
          (.scalar (s := .int k) (IntKind.turned w x)) ∧
        (c.Conveys (.scalar (s := .int k) x) (.scalar (s := .int k) x) ↔
          k.width ≤ w.width ∨ x.val ≤ w.greatest)) ∧
      (name = "uint64" → ∀ (k : IntKind) (x : Num k),
        c.Conveys (.scalar (s := .int k) x) (.scalar (s := .int k) x)) := by
  obtain ⟨b, hb, hname⟩ : ∃ b : Builtin, b.kind? = some w ∧ keyOf name ∈ b.names := by
    simp only [unsignedNames, List.mem_cons, Prod.mk.injEq, List.not_mem_nil, or_false] at h
    rcases h with ⟨rfl, rfl⟩ | ⟨rfl, rfl⟩ | ⟨rfl, rfl⟩
    · exact ⟨.short, rfl, by decide +kernel⟩
    · exact ⟨.int, rfl, by decide +kernel⟩
    · exact ⟨.long, rfl, by decide +kernel⟩
  refine ⟨b.codec, lookup_of_mem_names hname, fun k x h₀ hx => ⟨?_, ?_⟩, ?_⟩
  · have hconveys := b.conveys_codec (S := S) hb x k
    rwa [IntKind.wrap_wrap_eq_turned h₀ hx] at hconveys
  · rw [b.conveys_self_iff hb, IntKind.wrap_wrap_eq_turned h₀ hx, IntKind.turned_eq_iff]
  · rintro rfl k x
    have hw : w = .i64 := by
      simp only [unsignedNames, List.mem_cons, Prod.mk.injEq, List.not_mem_nil, or_false] at h
      simp_all
    subst hw
    rw [b.conveys_self_iff hb, IntKind.wrap_wrap k.width_le, IntKind.wrap_val]

theorem Registry.unsigned_names_convey_port :
    let port : Num .u32 := ⟨40000, by decide⟩
    ("uint16", IntKind.i16) ∈ unsignedNames ∧
      ∃ c : Codec Sample.schema, builtins.lookup "uint16" = .ok c ∧
        c.Conveys (.scalar (s := .int .u32) port)
          (.scalar (s := .int .u32) (IntKind.turned .i16 port)) := by
  intro port
  refine ⟨.head _, ?_⟩
  obtain ⟨c, hc, hconveys, -⟩ := unsigned_names_convey (S := Sample.schema) (.head _)
  exact ⟨c, hc, (hconveys .u32 port (by decide) (by decide)).1⟩

/-- In a field of four bytes, the upper half of the range of two bytes does not survive. -/
theorem Registry.uint16_loses_upper_half :
    ∃ c : Codec Sample.schema, builtins.lookup "uint16" = .ok c ∧
      c.Conveys (.scalar (s := .int .u32) ⟨40000, by decide⟩)
        (.scalar (s := .int .u32) ⟨4294941760, by decide⟩) ∧
      ¬ c.Conveys (.scalar (s := .int .u32) ⟨40000, by decide⟩)
        (.scalar (s := .int .u32) ⟨40000, by decide⟩) := by
  refine ⟨Builtin.short.codec, lookup_of_mem_names (by decide +kernel), ?_, ?_⟩
  · exact Builtin.conveys_codec (b := .short) rfl ⟨40000, by decide⟩ .u32
  · rw [Builtin.conveys_self_iff (b := .short) rfl]
    decide

end TagWire
