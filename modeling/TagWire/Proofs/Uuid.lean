import TagWire.Proofs.Wire.Text
import TagWire.Uuid

/-! The spelling of a UUID is read back, and is always as long. -/
namespace TagWire

namespace Text

def hexDigits (b : UInt8) : List Char := [(b.toNat / 16).digitChar, (b.toNat % 16).digitChar]

theorem toList_hexByte (b : UInt8) : (hexByte b).toList = hexDigits b := by
  have hb := b.toNat_lt
  unfold hexByte hex hexDigits
  by_cases h : b < 16
  · have hn : b.toNat < 16 := UInt8.lt_iff_toNat_lt.1 h
    rw [if_pos h, String.toList_append, String.toList_ofList, String.toList_ofList,
      Nat.toDigits_of_lt_base hn, Nat.div_eq_of_lt hn, Nat.mod_eq_of_lt hn]
    rfl
  · have hn : ¬ b.toNat < 16 := fun hn => h (UInt8.lt_iff_toNat_lt.2 hn)
    rw [if_neg h, String.toList_ofList, Nat.toDigits_of_base_le (by decide) (by omega),
      Nat.toDigits_of_lt_base (by omega)]
    rfl

end Text

namespace Octets

theorem nibble?_digitChar {n : Nat} (h : n < 16) :
    nibble? n.digitChar = some (UInt8.ofNat n) := by
  revert n
  decide

theorem bytesOfHex?_hexDigits (b : UInt8) (cs : List Char) :
    bytesOfHex? (Text.hexDigits b ++ cs) = (bytesOfHex? cs).map (b :: ·) := by
  have hb := b.toNat_lt
  have hsum : 16 * UInt8.ofNat (b.toNat / 16) + UInt8.ofNat (b.toNat % 16) = b := by
    apply UInt8.toNat_inj.1
    simp only [UInt8.toNat_add, UInt8.toNat_mul, UInt8.toNat_ofNat']
    show (16 * (b.toNat / 16 % 256) % 256 + b.toNat % 16 % 256) % 256 = b.toNat
    omega
  simp only [Text.hexDigits, List.cons_append, List.nil_append, bytesOfHex?]
  rw [nibble?_digitChar (by omega), nibble?_digitChar (by omega)]
  cases bytesOfHex? cs with
  | none => rfl
  | some bytes => exact congrArg (fun c => some (c :: bytes)) hsum

theorem bytesOfHex?_flatMap (bytes : List UInt8) :
    bytesOfHex? (bytes.flatMap Text.hexDigits) = some bytes := by
  induction bytes with
  | nil => rfl
  | cons b bytes ih => rw [List.flatMap_cons, bytesOfHex?_hexDigits, ih, Option.map_some]

def joined (a b c d e : List Char) : List Char :=
  a ++ '-' :: (b ++ '-' :: (c ++ '-' :: (d ++ '-' :: e)))

theorem hyphenated?_joined {a b c d e : List Char} (ha : a.length = 8) (hb : b.length = 4)
    (hc : c.length = 4) (hd : d.length = 4) (he : e.length = 12) :
    hyphenated? (joined a b c d e) = plain? (a ++ b ++ c ++ d ++ e) := by
  unfold hyphenated? joined
  rw [if_pos]
  · simp (disch := omega) [ha, hb, hc, hd, List.drop_append, List.drop_eq_nil_of_le]
  · simp [ha, hb, hc, hd, he]

variable (o : Octets)

def group (first count : Nat) : List Char :=
  ((o.bytes.drop first).take count).flatMap Text.hexDigits

theorem length_group (first count : Nat) (h : first + count ≤ 16) :
    (o.group first count).length = 2 * count := by
  have hc : ((o.bytes.drop first).take count).length = count := by
    rw [List.length_take, List.length_drop, o.length_eq]
    omega
  have hd : (fun b => (Text.hexDigits b).length) = fun _ => 2 := rfl
  rw [group, List.length_flatMap, hd, List.map_const', List.sum_replicate_nat, hc, Nat.mul_comm]

theorem group_append (first m n : Nat) :
    o.group first m ++ o.group (first + m) n = o.group first (m + n) := by
  rw [group, group, group, ← List.flatMap_append, List.take_add, List.drop_drop]

theorem plain?_group : plain? (o.group 0 16) = some o := by
  have hb : (o.bytes.drop 0).take 16 = o.bytes := List.take_of_length_le (Nat.le_of_eq o.length_eq)
  rw [plain?, group, hb, bytesOfHex?_flatMap]
  exact dif_pos o.length_eq

theorem toList_hyphenated : o.hyphenated.toList =
    joined (o.group 0 4) (o.group 4 2) (o.group 6 2) (o.group 8 2) (o.group 10 6) := by
  have hg : ∀ bytes : List UInt8,
      (String.join (bytes.map Text.hexByte)).toList = bytes.flatMap Text.hexDigits := by
    intro bytes
    rw [String.toList_join, List.flatMap_map]
    simp only [Text.toList_hexByte]
  rw [hyphenated, String.toList_intercalate]
  simp only [List.map_cons, List.map_nil, hg]
  simp [joined, group, List.intercalate]

theorem length_hyphenated : o.hyphenated.toList.length = 36 := by
  have h0 := o.length_group 0 4 (by decide)
  have h4 := o.length_group 4 2 (by decide)
  have h6 := o.length_group 6 2 (by decide)
  have h8 := o.length_group 8 2 (by decide)
  have h10 := o.length_group 10 6 (by decide)
  rw [toList_hyphenated]
  simp only [joined, List.length_append, List.length_cons, h0, h4, h6, h8, h10]

theorem utf8Size_group {first count : Nat} {c : Char} (h : c ∈ o.group first count) :
    c.utf8Size = 1 := by
  obtain ⟨b, _, hc⟩ := List.mem_flatMap.1 h
  have hdigit : ∀ n < 16, n.digitChar.utf8Size = 1 := by decide
  have hb := b.toNat_lt
  rw [Text.hexDigits, List.mem_cons, List.mem_singleton] at hc
  rcases hc with rfl | rfl
  · exact hdigit _ (by omega)
  · exact hdigit _ (by omega)

theorem length_utf8_hyphenated : (Text.utf8 o.hyphenated).length = 36 := by
  rw [Text.length_utf8_of_utf8Size, length_hyphenated]
  intro c hc
  rw [toList_hyphenated] at hc
  simp only [joined, List.mem_append, List.mem_cons] at hc
  have hhyphen : '-'.utf8Size = 1 := rfl
  grind [utf8Size_group]

theorem parse?_hyphenated : parse? o.hyphenated = some o := by
  have h0 := o.length_group 0 4 (by decide)
  have h4 := o.length_group 4 2 (by decide)
  have h6 := o.length_group 6 2 (by decide)
  have h8 := o.length_group 8 2 (by decide)
  have h10 := o.length_group 10 6 (by decide)
  have hl := o.length_hyphenated
  unfold parse?
  dsimp only
  rw [if_neg (by omega), if_neg (by omega), if_neg (by omega), toList_hyphenated,
    hyphenated?_joined h0 h4 h6 h8 h10, group_append, group_append, group_append, group_append]
  exact o.plain?_group

end Octets

end TagWire
