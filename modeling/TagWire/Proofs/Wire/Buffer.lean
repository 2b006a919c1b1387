import TagWire.Proofs.Wire.Size

/-! Sizes as words in a buffer of fixed length: groups are masked and shifted out of the word and
set one after another. The buffer has room for every word, and what is in front of its fill is the
written form. -/
namespace TagWire

namespace Size

def lowGroup (word : UInt64) : UInt8 := (word &&& 0x7F).toUInt8

/-- Sets the groups of `rest` from place `len` on; nothing if there is no such place. -/
def lay {room : Nat} (buffer : Vector UInt8 room) (len : Nat) (rest : UInt64) :
    Option (List UInt8) :=
  if h : len < room then
    let next := rest >>> 7
    if next = 0 then some ((buffer.set len (lowGroup rest)).toList.take (len + 1))
    else lay (buffer.set len (lowGroup rest ||| 0x80)) (len + 1) next
  else none
termination_by room - len

def buffered (v : UInt64) : Option (List UInt8) := lay (.replicate 10 0) 0 v

end Size

namespace NullableSize

def buffered (v : UInt64) : Option (List UInt8) :=
  let buffer : Vector UInt8 11 := .replicate 11 0
  let rest := v >>> 6
  if rest = 0 then some ((buffer.set 0 (0 ||| Size.lowGroup v)).toList.take 1)
  else Size.lay (buffer.set 0 (0x40 ||| Size.lowGroup v)) 1 rest

end NullableSize

namespace Size

theorem toNat_lowGroup (word : UInt64) : (lowGroup word).toNat = word.toNat % 128 := by
  have hmask : (0x7F : UInt64).toNat = 2 ^ 7 - 1 := by decide
  rw [lowGroup, UInt64.toNat_toUInt8, UInt64.toNat_and, hmask, Nat.and_two_pow_sub_one_eq_mod]
  omega

theorem lowGroup_eq_ofNat (word : UInt64) : lowGroup word = UInt8.ofNat (word.toNat % 128) :=
  UInt8.toNat.inj (by rw [toNat_lowGroup, toNat_ofNat_of_lt (by omega)])

theorem toNat_next (word : UInt64) : (word >>> 7).toNat = word.toNat / 128 := by
  rw [UInt64.toNat_shiftRight, Nat.shiftRight_eq_div_pow]
  rfl

theorem next_eq_zero (word : UInt64) : word >>> 7 = 0 ↔ word.toNat < 128 := by
  rw [← UInt64.toNat_inj, toNat_next]
  simp

theorem lowGroup_or_next (word : UInt64) :
    lowGroup word ||| 0x80 = UInt8.ofNat (word.toNat % 128 + 128) := by
  apply UInt8.toNat.inj
  have hor := Nat.two_pow_add_eq_or_of_lt (i := 7) (Nat.mod_lt word.toNat (by decide)) 1
  have hmark : (0x80 : UInt8).toNat = 2 ^ 7 * 1 := by decide
  rw [UInt8.toNat_or, toNat_lowGroup, toNat_ofNat_of_lt (by omega), Nat.or_comm, hmark, ← hor]
  omega

theorem take_set {room len : Nat} (buffer : Vector UInt8 room) (h : len < room) (b : UInt8) :
    (buffer.set len b h).toList.take (len + 1) = buffer.toList.take len ++ [b] := by
  rw [Vector.toList_set, List.take_add_one, List.take_set_of_le (Nat.le_refl _),
    List.getElem?_set_self (by simpa using h), Option.toList_some]

theorem lay_eq {room : Nat} (buffer : Vector UInt8 room) (len : Nat) (rest : UInt64) :
    lay buffer len rest =
      if len + (encode rest.toNat).length ≤ room
      then some (buffer.toList.take len ++ encode rest.toNat) else none := by
  -- By the rounds of the loop: the last group, one that another follows, and no place left.
  fun_induction lay buffer len rest with
  | case1 buffer len rest h next hnext =>
    rw [next_eq_zero] at hnext
    rw [encode_of_lt hnext, List.length_singleton, if_pos (Nat.succ_le_of_lt h), take_set,
      lowGroup_eq_ofNat, Nat.mod_eq_of_lt hnext]
  | case2 buffer len rest h next hnext ih =>
    rw [next_eq_zero, Nat.not_lt] at hnext
    have hnext' : next.toNat = rest.toNat / 128 := toNat_next rest
    rw [ih, encode_of_le hnext, hnext', take_set, lowGroup_or_next, List.append_assoc,
      List.length_cons, Nat.add_assoc, Nat.add_comm 1]
    rfl
  | case3 buffer len rest h =>
    have hpos := length_encode_pos rest.toNat
    rw [if_neg (by omega)]

theorem buffered_eq (v : UInt64) : buffered v = some (encode v.toNat) := by
  have hcount : v.toNat < count (9 + 1) := Nat.lt_trans v.toNat_lt (by decide)
  have hroom := length_encode_le hcount
  rw [buffered, lay_eq, if_pos (by omega)]
  rfl

end Size

namespace NullableSize

/-- The seventh bit under the mark is the mark itself. -/
theorem mark_or (n : Nat) : 64 ||| n % 128 = n % 64 + 64 := by
  have h : ∀ low < 128, 64 ||| low = low % 64 + 64 := by decide
  rw [h _ (Nat.mod_lt n (by decide))]
  omega

theorem buffered_eq (v : UInt64) : buffered v = some (encode v.toNat) := by
  have hrest : (v >>> 6).toNat = v.toNat / 64 := by
    rw [UInt64.toNat_shiftRight, Nat.shiftRight_eq_div_pow]
    rfl
  have hzero : v >>> 6 = 0 ↔ v.toNat < 64 := by
    rw [← UInt64.toNat_inj, hrest]
    simp
  unfold buffered
  dsimp only
  split
  · next h =>
    rw [hzero] at h
    rw [Size.take_set, encode_of_lt h, UInt8.zero_or, Size.lowGroup_eq_ofNat,
      Nat.mod_eq_of_lt (by omega)]
    rfl
  · next h =>
    rw [hzero, Nat.not_lt] at h
    have hcount : v.toNat / 64 < Size.count (9 + 1) :=
      Nat.lt_of_le_of_lt (Nat.div_le_self ..) (Nat.lt_trans v.toNat_lt (by decide))
    have hroom := Size.length_encode_le hcount
    have hfirst : 0x40 ||| Size.lowGroup v = UInt8.ofNat (v.toNat % 64 + 64) := by
      apply UInt8.toNat.inj
      rw [UInt8.toNat_or, Size.toNat_lowGroup, toNat_ofNat_of_lt (by omega)]
      exact mark_or v.toNat
    rw [Size.lay_eq, hrest, if_pos (by omega), Size.take_set _ _ _, encode_of_le h, hfirst]
    rfl

end NullableSize

end TagWire
