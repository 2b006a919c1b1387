import TagWire.Number.Kind

/-! Numbers on their way from one width to another and back. -/
namespace TagWire

theorem BigEndian.count_dvd {m n : Nat} (h : m ≤ n) : count m ∣ count n := by
  induction h with
  | refl => exact Nat.dvd_refl _
  | step _ ih => exact Nat.dvd_trans ih (Nat.dvd_mul_left _ _)

namespace IntKind

theorem fits_i64_iff {x : Int} :
    i64.Fits x ↔ -9223372036854775808 ≤ x ∧ x ≤ 9223372036854775807 := Iff.rfl

theorem fits_u64_iff {x : Int} : u64.Fits x ↔ 0 ≤ x ∧ x ≤ 18446744073709551615 := Iff.rfl

theorem wrap_emod (k : IntKind) (x : Int) : (k.wrap x).val % k.count = x % k.count :=
  (wrap_eq_wrap_iff k (k.wrap x).val x).1 (wrap_val k (k.wrap x))

theorem wrap_wrap {k w : IntKind} (h : k.width ≤ w.width) (x : Int) :
    k.wrap (w.wrap x).val = k.wrap x := by
  have hd : (k.count : Int) ∣ w.count := Int.natCast_dvd_natCast.2 (BigEndian.count_dvd h)
  rw [wrap_eq_wrap_iff, ← Int.emod_emod_of_dvd _ hd, wrap_emod, Int.emod_emod_of_dvd _ hd]

theorem wrap_wrap_wrap (k : IntKind) {w : IntKind} {x : Int} (hx : w.Fits x) :
    k.wrap (w.wrap (k.wrap x).val).val = k.wrap x := by
  rcases Nat.le_total k.width w.width with h | h
  · rw [wrap_wrap h, wrap_val]
  · rw [wrap_wrap h, wrap_val_of_fits hx]

end IntKind

namespace Num

variable {k : IntKind}

theorem pattern_lt (n : Num k) : n.pattern < k.count := by
  have h := k.count_pos
  have h₁ := Int.emod_nonneg n.val (show (k.count : Int) ≠ 0 by omega)
  have h₂ := Int.emod_lt_of_pos n.val (show (0 : Int) < k.count by omega)
  unfold pattern
  omega

theorem pattern_wrap {v : Nat} (h : v < k.count) : (k.wrap (v : Int)).pattern = v := by
  rw [pattern, IntKind.wrap_emod, ← Int.natCast_emod, Int.toNat_natCast, Nat.mod_eq_of_lt h]

theorem val_eq_pattern (n : Num .u64) : n.val = n.pattern := by
  have h := IntKind.fits_u64_iff.1 n.fits
  rw [pattern, show (IntKind.u64.count : Int) = 18446744073709551616 by decide]
  omega

theorem decode_encode_pattern (n : Num k) :
    BigEndian.decode (BigEndian.encode k.width n.pattern) = n.pattern := by
  rw [BigEndian.decode_encode]
  exact Nat.mod_eq_of_lt n.pattern_lt

end Num

end TagWire
