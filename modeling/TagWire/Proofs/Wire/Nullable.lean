import TagWire.Proofs.Wire.Spelling

/-! Every form of a nullable size, and which of them is written. Six bits are in the first byte, and
behind a marked one groups as in a size; the null and all other high bytes are told from the first
byte alone. The written form has a seventh bit under the mark, which is the mark itself. -/
namespace TagWire

namespace NullableSize

inductive Spells : List UInt8 → Nat → Prop
  | short {b : UInt8} (low : b < 64) : Spells [b] b.toNat
  | long {b : UInt8} {bs : List UInt8} (marked : 64 ≤ b) (low : b < 128)
      (chained : Size.Chained bs) (length_le : bs.length ≤ 10)
      (fits : b.toNat % 64 + Size.worth 64 bs < sizeBound) :
      Spells (b :: bs) (b.toNat % 64 + Size.worth 64 bs)

/-- A marked byte, and groups that leave 64 bits or do not end in time. -/
def Overlong (s : List UInt8) : Prop :=
  ∃ b bs, (b :: bs) <+: s ∧ 64 ≤ b ∧ b < 128 ∧ Size.Overruns 10 64 (b.toNat % 64) bs

def Short (s : List UInt8) : Prop :=
  s = [] ∨ ∃ b bs, s = b :: bs ∧ 64 ≤ b ∧ b < 128 ∧ Size.CutShort 10 64 (b.toNat % 64) bs

theorem low_lt_sizeBound (b : UInt8) : b.toNat % 64 < sizeBound := by
  unfold sizeBound
  omega

theorem spelling_cases (s : List UInt8) : (∃ bs n, bs <+: s ∧ Spells bs n) ∨
    (∃ b ∈ s.head?, 128 ≤ b) ∨ Overlong s ∨ Short s := by
  cases s with
  | nil => exact .inr (.inr (.inr (.inl rfl)))
  | cons b s =>
    by_cases hhigh : 128 ≤ b
    · exact .inr (.inl ⟨b, rfl, hhigh⟩)
    have hlow := UInt8.not_le.1 hhigh
    by_cases hmark : 64 ≤ b
    · rcases Size.row_cases 10 64 (low_lt_sizeBound b) s with
        ⟨bs, hp, hc, hl, hw⟩ | ⟨bs, hp, ho⟩ | hcut
      · exact .inl ⟨b :: bs, _, List.cons_prefix_cons.2 ⟨rfl, hp⟩, .long hmark hlow hc hl hw⟩
      · exact .inr (.inr (.inl ⟨b, bs, List.cons_prefix_cons.2 ⟨rfl, hp⟩, hmark, hlow, ho⟩))
      · exact .inr (.inr (.inr (.inr ⟨b, s, rfl, hmark, hlow, hcut⟩)))
    · exact .inl ⟨[b], _, List.cons_prefix_cons.2 ⟨rfl, List.nil_prefix⟩,
        .short (UInt8.not_le.1 hmark)⟩

theorem Spells.encode_shortest {bs : List UInt8} {v : Nat} (h : Spells bs v) :
    bs = encode v ∨ (encode v).length < bs.length := by
  cases h with
  | short low =>
    rw [encode_of_lt ((lt_64_iff _).1 low), UInt8.ofNat_toNat]
    exact .inl rfl
  | @long b bs marked low chained =>
    have hmark : 64 ≤ b.toNat := UInt8.le_iff_toNat_le.1 marked
    have hlow := (lt_128_iff b).1 low
    have hlen := List.length_pos_iff.2 chained.ne_nil
    rw [Size.worth_eq_mul]
    by_cases hzero : Size.worth 1 bs = 0
    · rw [hzero, encode_of_lt (by omega)]
      exact .inr (Nat.succ_lt_succ hlen)
    · have hfirst : (b.toNat % 64 + Size.worth 1 bs * 64) % 64 + 64 = b.toNat := by omega
      have hrest : (b.toNat % 64 + Size.worth 1 bs * 64) / 64 = Size.worth 1 bs := by omega
      rw [encode_of_le (by omega), hfirst, hrest, UInt8.ofNat_toNat, List.length_cons,
        List.length_cons]
      exact chained.encode_shortest.imp (congrArg (b :: ·)) Nat.succ_lt_succ

theorem head_encode_lt (n : Nat) : ∃ b ∈ (encode n).head?, b < 128 := by
  fun_cases encode n with
  | case1 h => exact ⟨_, rfl, by rw [lt_128_iff, toNat_ofNat_of_lt (by omega)]; omega⟩
  | case2 h => exact ⟨_, rfl, by rw [lt_128_iff, toNat_ofNat_of_lt (by omega)]; omega⟩

end NullableSize

namespace Reader

variable {r r' : Reader} {b : UInt8} {bs s : List UInt8} {n : Nat}

theorem nullable_of_cons (hr : r.Ends) (h : r.rest = b :: s) :
    nullable r = (if b < 64 then pure (some b.toNat)
      else if b < 128 then some <$> sizeGroups "nullable-size" r.offset 10 64 (b.toNat % 64)
      else if b = 128 then pure none
      else .fail (.nullExpected "nullable-size" r.offset b) : Reading (Option Nat))
        (r.advance 1) := Attempt.bind_ok (byte_of_cons hr h "nullable-size").1

theorem nullable_of_high (hr : r.Ends) (h : b ∈ r.rest.head?) (hb : 128 ≤ b) : nullable r =
    (if b = 128 then .ok none else .error (.nullExpected "nullable-size" r.offset b),
      r.advance 1) := by
  obtain ⟨s, hs⟩ := List.head?_eq_some_iff.1 h
  have hmark : ¬ b < 64 := by
    rw [UInt8.not_lt]
    exact UInt8.le_trans (by decide) hb
  rw [nullable_of_cons hr hs, if_neg hmark, if_neg (UInt8.not_lt.2 hb)]
  split <;> rfl

theorem nullable_of_marked (hr : r.Ends) (h : r.rest = b :: s) (hmark : 64 ≤ b) (hlow : b < 128) :
    nullable r = (some <$> sizeGroups "nullable-size" r.offset 10 64 (b.toNat % 64) :
      Reading (Option Nat)) (r.advance 1) := by
  rw [nullable_of_cons hr h, if_neg (UInt8.not_lt.2 hmark), if_pos hlow]

theorem nullable_of_spells (hr : r.Ends) (hp : bs <+: r.rest) (h : NullableSize.Spells bs n) :
    nullable r = (.ok (some n), r.advance bs.length) := by
  cases h with
  | short low =>
    obtain ⟨s, hs⟩ := hp
    rw [nullable_of_cons hr hs.symm, if_pos low]
    rfl
  | @long b bs marked low chained length_le fits =>
    obtain ⟨s, hs⟩ := hp
    obtain ⟨-, hends, hrest⟩ := byte_of_cons hr hs.symm "nullable-size"
    have hgroups := groups_of_chained "nullable-size" r.offset hends
      (hrest ▸ List.prefix_append bs s) chained length_le fits
    rw [nullable_of_marked hr hs.symm marked low, List.length_cons, Nat.add_comm bs.length,
      ← advance_advance]
    exact Attempt.bind_ok hgroups

theorem nullable_of_overlong (hr : r.Ends) (h : NullableSize.Overlong r.rest) :
    ∃ r', nullable r = (.error (.sizeOverflow "nullable-size" r.offset), r') := by
  obtain ⟨b, bs, ⟨s, hs⟩, hmark, hlow, ho⟩ := h
  obtain ⟨-, hends, hrest⟩ := byte_of_cons hr hs.symm "nullable-size"
  obtain ⟨n, -, -, hgroups⟩ := groups_of_overruns "nullable-size" r.offset hends
    (hrest ▸ List.prefix_append bs s) (NullableSize.low_lt_sizeBound b) ho
  rw [nullable_of_marked hr hs.symm hmark hlow]
  exact ⟨_, Attempt.bind_error hgroups⟩

theorem nullable_of_short (hr : r.Ends) (h : NullableSize.Short r.rest) :
    ∃ place r', nullable r = (.error (.io "nullable-size" place .ended), r') := by
  rcases h with hnil | ⟨b, s, hs, hmark, hlow, hcut⟩
  · obtain ⟨r', hb⟩ := byte_of_nil hr hnil "nullable-size"
    exact ⟨_, r', (Attempt.bind_ok rfl).trans (Attempt.bind_error hb)⟩
  · obtain ⟨-, hends, rfl⟩ := byte_of_cons hr hs "nullable-size"
    obtain ⟨r', hgroups⟩ := groups_of_cutShort "nullable-size" r.offset hends hcut
    rw [nullable_of_marked hr hs hmark hlow]
    exact ⟨_, r', Attempt.bind_error hgroups⟩

theorem nullable_cases (hr : r.Ends) :
    (∃ bs n, bs <+: r.rest ∧ NullableSize.Spells bs n ∧
        nullable r = (.ok (some n), r.advance bs.length)) ∨
      (128 ∈ r.rest.head? ∧ nullable r = (.ok none, r.advance 1)) ∨
      (∃ b ∈ r.rest.head?, 128 < b ∧
        nullable r = (.error (.nullExpected "nullable-size" r.offset b), r.advance 1)) ∨
      (NullableSize.Overlong r.rest ∧
        ∃ r', nullable r = (.error (.sizeOverflow "nullable-size" r.offset), r')) ∨
      (NullableSize.Short r.rest ∧
        ∃ place r', nullable r = (.error (.io "nullable-size" place .ended), r')) := by
  rcases NullableSize.spelling_cases r.rest with
    ⟨bs, n, hp, hform⟩ | ⟨b, hb, hhigh⟩ | hlong | hshort
  · exact .inl ⟨bs, n, hp, hform, nullable_of_spells hr hp hform⟩
  · have hn := nullable_of_high hr hb hhigh
    by_cases hnull : b = 128
    · rw [if_pos hnull] at hn
      exact .inr (.inl ⟨hnull ▸ hb, hn⟩)
    · rw [if_neg hnull] at hn
      have hlt := UInt8.lt_of_le_of_ne hhigh (Ne.symm hnull)
      exact .inr (.inr (.inl ⟨b, hb, hlt, hn⟩))
  · exact .inr (.inr (.inr (.inl ⟨hlong, nullable_of_overlong hr hlong⟩)))
  · exact .inr (.inr (.inr (.inr ⟨hshort, nullable_of_short hr hshort⟩)))

theorem nullable_none_iff (hr : r.Ends) :
    nullable r = (.ok none, r') ↔ 128 ∈ r.rest.head? ∧ r' = r.advance 1 := by
  constructor
  · intro h
    rcases nullable_cases hr with ⟨_, _, _, _, hn⟩ | ⟨hb, hn⟩ | ⟨_, _, _, hn⟩ | ⟨_, _, hn⟩ |
      ⟨_, _, _, hn⟩ <;> rw [hn] at h <;> cases h
    exact ⟨hb, rfl⟩
  · rintro ⟨hb, rfl⟩
    exact nullable_of_high hr hb (UInt8.le_refl _)

theorem nullable_unexpected_iff (hr : r.Ends) {op : String} {start : Nat} :
    nullable r = (.error (.nullExpected op start b), r') ↔
      (op = "nullable-size" ∧ start = r.offset ∧ r' = r.advance 1) ∧
        b ∈ r.rest.head? ∧ 128 < b := by
  constructor
  · intro h
    rcases nullable_cases hr with ⟨_, _, _, _, hn⟩ | ⟨_, hn⟩ | ⟨_, hb, hhigh, hn⟩ | ⟨_, _, hn⟩ |
      ⟨_, _, _, hn⟩ <;> rw [hn] at h <;> cases h
    exact ⟨⟨rfl, rfl, rfl⟩, hb, hhigh⟩
  · rintro ⟨⟨rfl, rfl, rfl⟩, hb, hhigh⟩
    rw [nullable_of_high hr hb (UInt8.le_of_lt hhigh), if_neg (UInt8.ne_of_lt hhigh).symm]

theorem nullable_some_iff (hr : r.Ends) : nullable r = (.ok (some n), r') ↔
    ∃ bs, bs <+: r.rest ∧ NullableSize.Spells bs n ∧ r' = r.advance bs.length := by
  constructor
  · intro h
    rcases nullable_cases hr with ⟨bs, _, hp, hform, hn⟩ | ⟨_, hn⟩ | ⟨_, _, _, hn⟩ | ⟨_, _, hn⟩ |
      ⟨_, _, _, hn⟩ <;> rw [hn] at h <;> cases h
    exact ⟨bs, hp, hform, rfl⟩
  · rintro ⟨bs, hp, hform, rfl⟩
    exact nullable_of_spells hr hp hform

theorem nullable_overflow_iff (hr : r.Ends) {op : String} {start : Nat} :
    (∃ r', nullable r = (.error (.sizeOverflow op start), r')) ↔
      (op = "nullable-size" ∧ start = r.offset) ∧ NullableSize.Overlong r.rest := by
  constructor
  · rintro ⟨r', h⟩
    rcases nullable_cases hr with ⟨_, _, _, _, hn⟩ | ⟨_, hn⟩ | ⟨_, _, _, hn⟩ | ⟨hlong, _, hn⟩ |
      ⟨_, _, _, hn⟩ <;> rw [hn] at h <;> cases h
    exact ⟨⟨rfl, rfl⟩, hlong⟩
  · rintro ⟨⟨rfl, rfl⟩, hlong⟩
    exact nullable_of_overlong hr hlong

theorem nullable_truncated_iff (hr : r.Ends) :
    (∃ e r', nullable r = (.error e, r') ∧ e.isTruncated = true) ↔
      (¬ ∃ b ∈ r.rest.head?, 128 ≤ b) ∧ (¬ ∃ bs n, bs <+: r.rest ∧ NullableSize.Spells bs n) ∧
        ¬ NullableSize.Overlong r.rest := by
  constructor
  · rintro ⟨e, r', h, he⟩
    refine ⟨?_, ?_, ?_⟩
    · rintro ⟨b, hb, hhigh⟩
      rw [nullable_of_high hr hb hhigh] at h
      split at h <;> cases h
      cases he
    · rintro ⟨bs, n, hp, hform⟩
      rw [nullable_of_spells hr hp hform] at h
      cases h
    · intro hlong
      obtain ⟨_, hn⟩ := nullable_of_overlong hr hlong
      rw [hn] at h
      cases h
      cases he
  · rintro ⟨hhead, hform, hlong⟩
    rcases NullableSize.spelling_cases r.rest with h | h | h | h
    · exact absurd h hform
    · exact absurd h hhead
    · exact absurd h hlong
    · obtain ⟨_, r', hn⟩ := nullable_of_short hr h
      exact ⟨_, r', hn, rfl⟩

/-- A reader of nullable sizes tells the null, other high bytes, the forms of numbers, what is too
long for one and what is too short apart by these rules. A number has one shortest form, which is
the one that is written; for all the bits under its mark it fits the buffer and is no null. -/
theorem nullable_spelling (hr : r.Ends) (v : UInt64) (L : Limits) :
    (∀ r', nullable r = (.ok none, r') ↔ 128 ∈ r.rest.head? ∧ r' = r.advance 1) ∧
    (∀ op start b r', nullable r = (.error (.nullExpected op start b), r') ↔
      (op = "nullable-size" ∧ start = r.offset ∧ r' = r.advance 1) ∧
        b ∈ r.rest.head? ∧ 128 < b) ∧
    (∀ n r', nullable r = (.ok (some n), r') ↔
      ∃ bs, bs <+: r.rest ∧ NullableSize.Spells bs n ∧ r' = r.advance bs.length) ∧
    (∀ op start, (∃ r', nullable r = (.error (.sizeOverflow op start), r')) ↔
      (op = "nullable-size" ∧ start = r.offset) ∧ NullableSize.Overlong r.rest) ∧
    ((∃ e r', nullable r = (.error e, r') ∧ e.isTruncated = true) ↔
      (¬ ∃ b ∈ r.rest.head?, 128 ≤ b) ∧ (¬ ∃ bs n, bs <+: r.rest ∧ NullableSize.Spells bs n) ∧
        ¬ NullableSize.Overlong r.rest) ∧
    NullableSize.buffered v = some (NullableSize.encode v.toNat) ∧
    (∃ b ∈ (NullableSize.encode v.toNat).head?, b < 128) ∧
    Emits (Writer.nullableSize v.toNat) (NullableSize.encode v.toNat).length
      (NullableSize.encode v.toNat) ∧
    Takes L nullable (NullableSize.encode v.toNat) (some v.toNat) ∧
    (nullable r = (.ok (some v.toNat), r.advance r.rest.length) →
      r.rest = NullableSize.encode v.toNat ∨
        (NullableSize.encode v.toNat).length < r.rest.length) := by
  refine ⟨fun _ => nullable_none_iff hr, fun _ _ _ _ => nullable_unexpected_iff hr,
    fun _ _ => nullable_some_iff hr, fun _ _ => nullable_overflow_iff hr,
    nullable_truncated_iff hr, NullableSize.buffered_eq v, NullableSize.head_encode_lt _,
    Writer.emits_nullableSize _, takes_nullable v.toNat_lt, fun h => ?_⟩
  obtain ⟨bs, hp, hform, hend⟩ := (nullable_some_iff hr).1 h
  rw [← eq_rest_of_advance hp hend]
  exact hform.encode_shortest

def markedFive : Reader where
  source := { unread := [0x45, 0x00], chunk := some 1 }

theorem nullable_spelling_marked : markedFive.Ends ∧
    nullable markedFive = (.ok (some 5), markedFive.advance 2) ∧
    (markedFive.rest = NullableSize.encode 5 ∨
      (NullableSize.encode 5).length < markedFive.rest.length) := by
  have hr : markedFive.Ends := ⟨by decide, rfl⟩
  obtain ⟨-, -, hread, -, -, -, -, -, -, hshort⟩ := nullable_spelling hr 5 {}
  have hgroups : Size.Chained [0x00] := ⟨by simp, 0, rfl, by decide⟩
  have hform : NullableSize.Spells [0x45, 0x00] 5 :=
    .long (by decide) (by decide) hgroups (by decide) (by decide)
  have h := (hread 5 _).2 ⟨_, List.prefix_rfl, hform, rfl⟩
  exact ⟨hr, h, hshort h⟩

end Reader

end TagWire
