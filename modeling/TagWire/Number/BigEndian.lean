/-! Natural numbers as bytes, high byte first. -/
namespace TagWire.BigEndian

def count : (width : Nat) → Nat
  | 0 => 1
  | width + 1 => 256 * count width

def encode : Nat → Nat → List UInt8
  | 0, _ => []
  | width + 1, n => encode width (n / 256) ++ [UInt8.ofNat n]

def decode (bytes : List UInt8) : Nat := bytes.foldl (fun n b => 256 * n + b.toNat) 0

@[simp] theorem length_encode (width n : Nat) : (encode width n).length = width := by
  induction width generalizing n with
  | zero => rfl
  | succ width ih => simp [encode, ih]

theorem count_pos (width : Nat) : 0 < count width := by
  induction width with
  | zero => decide
  | succ width ih => exact Nat.mul_pos (by decide) ih

theorem decode_concat (bytes : List UInt8) (b : UInt8) :
    decode (bytes ++ [b]) = 256 * decode bytes + b.toNat := by
  simp [decode]

theorem decode_encode (width n : Nat) : decode (encode width n) = n % count width := by
  induction width generalizing n with
  | zero => simp [encode, decode, count, Nat.mod_one]
  | succ width ih =>
    rw [encode, decode_concat, ih, count, Nat.mod_mul]
    simp only [UInt8.toNat_ofNat']
    omega

end TagWire.BigEndian
