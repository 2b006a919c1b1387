import Mathlib.Data.Nat.Size
import TagWire.Proofs.Wire.Buffer
import TagWire.Proofs.Wire.Groups

/-! Every form of a size, and which of them is written. A reader takes exactly the rows of at most
ten groups that end and stay within 64 bits; all else it refuses, or misses where the input ends.
Among the forms of a number the written one is the shortest, and no other is as short. -/
namespace TagWire

namespace Size

structure Spells (bs : List UInt8) (v : Nat) : Prop where
  chained : Chained bs
  length_le : bs.length ≤ 10
  worth_eq : worth 1 bs = v
  fits : v < sizeBound

/-- Nine groups are followed by others, and the tenth leaves 64 bits or is not the last. -/
structure Overlong (s : List UInt8) : Prop where
  more : ∀ b ∈ s.take 9, 128 ≤ b
  excess : ∃ b ∈ s[9]?, 2 ≤ b

theorem count_mono {j k : Nat} (h : j ≤ k) : count j ≤ count k := by
  induction h with
  | refl => exact Nat.le_refl _
  | step _ ih =>
    rw [count_succ]
    omega

theorem length_encode_le_iff (n k : Nat) : (encode n).length ≤ k + 1 ↔ n < count (k + 1) := by
  refine ⟨fun h => ?_, length_encode_le⟩
  calc
    n = worth 1 (encode n) := (worth_encode n).symm
    _ < count (encode n).length := worth_lt _
    _ ≤ count (k + 1) := count_mono h

theorem lt_count_iff (n k : Nat) : n < count k ↔ n.size ≤ 7 * k := by
  have hpow : count k = 2 ^ (7 * k) := by
    induction k with
    | zero => rfl
    | succ k ih => rw [count_succ, ih, Nat.mul_succ, Nat.pow_add, Nat.mul_comm]
  rw [hpow, Nat.size_le]

theorem length_encode (n : Nat) : (encode n).length = max 1 ((n.size + 6) / 7) := by
  have hle (k : Nat) : (encode n).length ≤ k + 1 ↔ (n.size + 6) / 7 ≤ k + 1 := by
    rw [length_encode_le_iff, lt_count_iff]
    omega
  -- Both sides are at least one and have the same upper bounds.
  have hpos := length_encode_pos n
  have h₁ := (hle ((encode n).length - 1)).1 (by omega)
  have h₂ := (hle (max 1 ((n.size + 6) / 7) - 1)).2 (by omega)
  omega

theorem Chained.encode_shortest {bs : List UInt8} (h : Chained bs) :
    bs = encode (worth 1 bs) ∨ (encode (worth 1 bs)).length < bs.length := by
  induction bs with
  | nil => exact absurd h not_chained_nil
  | cons b bs ih =>
    rw [worth_cons, worth_eq_mul]
    by_cases hbs : bs = []
    · subst hbs
      have hb := (lt_128_iff b).1 (chained_singleton.1 h)
      have hv : b.toNat % 128 * 1 + worth 1 [] * (1 * 128) = b.toNat := by
        rw [worth_nil]
        omega
      rw [hv, encode_of_lt hb, UInt8.ofNat_toNat]
      exact .inl rfl
    · obtain ⟨hmore, hrest⟩ := (chained_cons hbs).1 h
      have hb : 128 ≤ b.toNat := UInt8.le_iff_toNat_le.1 hmore
      have hb' := b.toNat_lt
      have hlen := List.length_pos_iff.2 hbs
      by_cases hzero : worth 1 bs = 0
      · rw [hzero, encode_of_lt (by omega)]
        exact .inr (Nat.succ_lt_succ hlen)
      · have hlow : (b.toNat % 128 * 1 + worth 1 bs * (1 * 128)) % 128 + 128 = b.toNat := by omega
        have hhigh : (b.toNat % 128 * 1 + worth 1 bs * (1 * 128)) / 128 = worth 1 bs := by omega
        rw [encode_of_le (by omega), hlow, hhigh, UInt8.ofNat_toNat, List.length_cons,
          List.length_cons]
        exact (ih hrest).imp (congrArg (b :: ·)) Nat.succ_lt_succ

theorem ten_le_of_sizeBound_le {bs : List UInt8} (h : sizeBound ≤ worth 1 bs) :
    10 ≤ bs.length := by
  refine Nat.not_lt.1 fun hlen => ?_
  have hfits : count 9 ≤ sizeBound := by decide
  have hw := worth_lt bs
  have hnine : count bs.length ≤ count 9 := count_mono (Nat.le_of_lt_succ hlen)
  omega

variable {s bs : List UInt8} {b : UInt8}

theorem take_ten (h : s[9]? = some b) : s.take 10 = s.take 9 ++ [b] := by
  rw [List.take_add_one, h, Option.toList_some]

/-- The tenth group has one bit left. -/
theorem sizeBound_le_ten_iff (h : s[9]? = some b) :
    sizeBound ≤ worth 1 (s.take 10) ↔ 2 ≤ b.toNat % 128 := by
  have hlen : (s.take 9).length = 9 := by
    have := (List.getElem?_eq_some_iff.1 h).1
    rw [List.length_take]
    omega
  have hnine : count 9 = 9223372036854775808 := by decide
  have hw := worth_lt (s.take 9)
  rw [hlen, hnine] at hw
  rw [take_ten h, worth_append, hlen, worth_cons, worth_nil, hnine]
  unfold sizeBound
  omega

theorem length_eq_ten (hlen : bs.length ≤ 10)
    (h : bs.length = 10 ∨ sizeBound ≤ 0 + worth 1 bs) : bs.length = 10 := by
  rcases h with hfull | hover
  · exact hfull
  · rw [Nat.zero_add] at hover
    exact Nat.le_antisymm hlen (ten_le_of_sizeBound_le hover)

theorem Overruns.overlong (hp : bs <+: s) (h : Overruns 10 1 0 bs) : Overlong s := by
  obtain ⟨hlen, hmore, hover⟩ := h
  have hten := length_eq_ten hlen (hover.symm.imp_left And.left)
  have hbs : bs = s.take 10 := by
    rw [← hten]
    exact List.prefix_iff_eq_take.1 hp
  have hs : 9 < s.length := by
    have := hp.length_le
    omega
  have htenth : s[9]? = some s[9] := List.getElem?_eq_getElem hs
  rw [hbs, take_ten htenth, List.dropLast_concat] at hmore
  refine ⟨hmore, s[9], htenth, UInt8.le_iff_toNat_le.2 ?_⟩
  rcases hover with hover | ⟨-, hall⟩
  · rw [Nat.zero_add, hbs, sizeBound_le_ten_iff htenth] at hover
    exact Nat.le_trans hover (Nat.mod_le _ _)
  · rw [hbs, take_ten htenth, List.forall_mem_append] at hall
    have hnext := UInt8.le_iff_toNat_le.1 (hall.2 s[9] (by simp))
    exact Nat.le_trans (by decide) hnext

theorem Overlong.overruns (h : Overlong s) : Overruns 10 1 0 (s.take 10) := by
  obtain ⟨hmore, b, htenth, htwo⟩ := h
  have hs := (List.getElem?_eq_some_iff.1 htenth).1
  have htwo : 2 ≤ b.toNat := UInt8.le_iff_toNat_le.1 htwo
  refine ⟨List.length_take_le 10 s, ?_, ?_⟩
  · rwa [take_ten htenth, List.dropLast_concat]
  · rw [Nat.zero_add, sizeBound_le_ten_iff htenth]
    by_cases hlast : b.toNat < 128
    · rw [Nat.mod_eq_of_lt hlast]
      exact .inl htwo
    · refine .inr ⟨List.length_take_of_le hs, ?_⟩
      rw [take_ten htenth, List.forall_mem_append, List.forall_mem_singleton]
      exact ⟨hmore, UInt8.le_iff_toNat_le.2 (Nat.not_lt.1 hlast)⟩

theorem cutShort_iff : CutShort 10 1 0 s ↔ s.length ≤ 9 ∧ ∀ b ∈ s, 128 ≤ b := by
  refine ⟨fun ⟨hlen, hmore, _⟩ => ⟨Nat.le_of_lt_succ hlen, hmore⟩, fun ⟨hlen, hmore⟩ =>
    ⟨Nat.lt_succ_of_le hlen, hmore, ?_⟩⟩
  rw [Nat.zero_add]
  refine Nat.not_le.1 fun hover => ?_
  have := ten_le_of_sizeBound_le hover
  omega

theorem spelling_cases (s : List UInt8) :
    (∃ bs n, bs <+: s ∧ Spells bs n) ∨ Overlong s ∨ CutShort 10 1 0 s := by
  rcases row_cases 10 1 (show 0 < sizeBound by decide) s with
    ⟨bs, hp, hc, hl, hw⟩ | ⟨bs, hp, ho⟩ | hcut
  · rw [Nat.zero_add] at hw
    exact .inl ⟨bs, _, hp, hc, hl, rfl, hw⟩
  · exact .inr (.inl (ho.overlong hp))
  · exact .inr (.inr hcut)

end Size

namespace Reader

variable {r r' : Reader} {bs : List UInt8} {n : Nat}

theorem size_eq_at (r : Reader) : size r = sizeGroups "size" r.offset 10 1 0 r := by
  rw [size_eq_groups]
  rfl

theorem size_of_spells (hr : r.Ends) (hp : bs <+: r.rest) (h : Size.Spells bs n) :
    size r = (.ok n, r.advance bs.length) := by
  obtain ⟨hc, hl, rfl, hfits⟩ := h
  rw [← Nat.zero_add (Size.worth 1 bs)] at hfits ⊢
  rw [size_eq_at, groups_of_chained _ _ hr hp hc hl hfits]

theorem size_of_overlong (hr : r.Ends) (h : Size.Overlong r.rest) :
    size r = (.error (.sizeOverflow "size" r.offset), r.advance 10) := by
  obtain ⟨n, hn, hend, hsize⟩ :=
    groups_of_overruns "size" r.offset hr (List.take_prefix 10 r.rest) (by decide) h.overruns
  have hlen := List.length_take_of_le hn
  have hten := Size.length_eq_ten (Nat.le_trans (List.length_take_le' ..) h.overruns.length_le)
    (hend.imp_left hlen.trans)
  rw [size_eq_at, hsize, ← hten, hlen]

theorem size_of_cutShort (hr : r.Ends) (h : Size.CutShort 10 1 0 r.rest) :
    ∃ r', size r = (.error (.io "size" (r.offset + r.rest.length) .ended), r') := by
  rw [size_eq_at]
  exact groups_of_cutShort _ _ hr h

theorem size_cases (hr : r.Ends) :
    (∃ bs n, bs <+: r.rest ∧ Size.Spells bs n ∧ size r = (.ok n, r.advance bs.length)) ∨
      (Size.Overlong r.rest ∧ size r = (.error (.sizeOverflow "size" r.offset), r.advance 10)) ∨
      (Size.CutShort 10 1 0 r.rest ∧
        ∃ r', size r = (.error (.io "size" (r.offset + r.rest.length) .ended), r')) := by
  rcases Size.spelling_cases r.rest with ⟨bs, n, hp, hform⟩ | hlong | hcut
  · exact .inl ⟨bs, n, hp, hform, size_of_spells hr hp hform⟩
  · exact .inr (.inl ⟨hlong, size_of_overlong hr hlong⟩)
  · exact .inr (.inr ⟨hcut, size_of_cutShort hr hcut⟩)

theorem size_ok_iff (hr : r.Ends) : size r = (.ok n, r') ↔
    ∃ bs, bs <+: r.rest ∧ Size.Spells bs n ∧ r' = r.advance bs.length := by
  constructor
  · intro h
    rcases size_cases hr with ⟨bs, _, hp, hform, hs⟩ | ⟨_, hs⟩ | ⟨_, _, hs⟩ <;>
      rw [hs] at h <;> cases h
    exact ⟨bs, hp, hform, rfl⟩
  · rintro ⟨bs, hp, hform, rfl⟩
    exact size_of_spells hr hp hform

theorem size_overflow_iff (hr : r.Ends) {op : String} {start : Nat} :
    size r = (.error (.sizeOverflow op start), r') ↔
      (op = "size" ∧ start = r.offset ∧ r' = r.advance 10) ∧ Size.Overlong r.rest := by
  constructor
  · intro h
    rcases size_cases hr with ⟨_, _, _, _, hs⟩ | ⟨hlong, hs⟩ | ⟨_, _, hs⟩ <;>
      rw [hs] at h <;> cases h
    exact ⟨⟨rfl, rfl, rfl⟩, hlong⟩
  · rintro ⟨⟨rfl, rfl, rfl⟩, hlong⟩
    exact size_of_overlong hr hlong

theorem size_truncated_iff (hr : r.Ends) :
    (∃ e r', size r = (.error e, r') ∧ e.isTruncated = true) ↔
      r.rest.length ≤ 9 ∧ ∀ b ∈ r.rest, 128 ≤ b := by
  rw [← Size.cutShort_iff]
  constructor
  · rintro ⟨e, r', h, he⟩
    rcases size_cases hr with ⟨_, _, _, _, hs⟩ | ⟨_, hs⟩ | ⟨hcut, _⟩
    · rw [hs] at h
      cases h
    · rw [hs] at h
      cases h
      cases he
    · exact hcut
  · intro hcut
    obtain ⟨r', hs⟩ := size_of_cutShort hr hcut
    exact ⟨_, r', hs, rfl⟩

theorem eq_rest_of_advance (hp : bs <+: r.rest)
    (h : r.advance r.rest.length = r.advance bs.length) : bs = r.rest :=
  hp.eq_of_length (Nat.add_left_cancel (congrArg offset h)).symm

/-- A reader takes exactly the forms of a size, and each for its own worth. A size has one shortest
form, which is the one that is written and fits the buffer. -/
theorem size_spelling (hr : r.Ends) (v : UInt64) (L : Limits) :
    (∀ n r', size r = (.ok n, r') ↔
      ∃ bs, bs <+: r.rest ∧ Size.Spells bs n ∧ r' = r.advance bs.length) ∧
    (∀ op start r', size r = (.error (.sizeOverflow op start), r') ↔
      (op = "size" ∧ start = r.offset ∧ r' = r.advance 10) ∧ Size.Overlong r.rest) ∧
    ((∃ e r', size r = (.error e, r') ∧ e.isTruncated = true) ↔
      r.rest.length ≤ 9 ∧ ∀ b ∈ r.rest, 128 ≤ b) ∧
    Size.buffered v = some (Size.encode v.toNat) ∧
    Emits (Writer.size v.toNat) (max 1 ((v.toNat.size + 6) / 7)) (Size.encode v.toNat) ∧
    (Size.encode v.toNat).length = max 1 ((v.toNat.size + 6) / 7) ∧
    Takes L size (Size.encode v.toNat) v.toNat ∧
    (size r = (.ok v.toNat, r.advance r.rest.length) →
      r.rest = Size.encode v.toNat ∨ (Size.encode v.toNat).length < r.rest.length) := by
  refine ⟨fun _ _ => size_ok_iff hr, fun _ _ _ => size_overflow_iff hr, size_truncated_iff hr,
    Size.buffered_eq v, ?_, Size.length_encode _, takes_size v.toNat_lt, fun h => ?_⟩
  · rw [← Size.length_encode]
    exact Writer.emits_size _
  · obtain ⟨bs, hp, hform, hend⟩ := (size_ok_iff hr).1 h
    rw [← eq_rest_of_advance hp hend, ← hform.worth_eq]
    exact hform.chained.encode_shortest

def paddedFive : Reader where
  source := { unread := [0x85, 0x00], chunk := some 1 }

theorem size_spelling_padded : paddedFive.Ends ∧
    size paddedFive = (.ok 5, paddedFive.advance 2) ∧
    (paddedFive.rest = Size.encode 5 ∨ (Size.encode 5).length < paddedFive.rest.length) := by
  have hr : paddedFive.Ends := ⟨by decide, rfl⟩
  obtain ⟨hread, -, -, -, -, -, -, hshort⟩ := size_spelling hr 5 {}
  have hgroups : Size.Chained [0x85, 0x00] := ⟨by simp, 0, rfl, by decide⟩
  have hform : Size.Spells [0x85, 0x00] 5 := ⟨hgroups, by decide, rfl, by decide⟩
  have h := (hread 5 _).2 ⟨_, List.prefix_rfl, hform, rfl⟩
  exact ⟨hr, h, hshort h⟩

end Reader

end TagWire
