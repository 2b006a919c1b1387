import TagWire.Number.BigEndian

/-! Integers of fixed width. A number carries the proof that it lies in the range of its kind, and
`wrap` brings any integer into that range by dropping high bits. -/
namespace TagWire

inductive IntKind
  | u8 | i8 | u16 | i16 | u32 | i32 | u64 | i64 | usize | isize
  deriving DecidableEq

namespace IntKind

def signed : IntKind → Bool
  | i8 | i16 | i32 | i64 | isize => true
  | u8 | u16 | u32 | u64 | usize => false

def width : IntKind → Nat
  | u8 | i8 => 1
  | u16 | i16 => 2
  | u32 | i32 => 4
  | u64 | i64 | usize | isize => 8

def count (k : IntKind) : Nat := BigEndian.count k.width

def least (k : IntKind) : Int := if k.signed then -(k.count / 2 : Nat) else 0

def greatest (k : IntKind) : Int := k.least + k.count - 1

def name : IntKind → String
  | u8 => "u8" | i8 => "i8" | u16 => "u16" | i16 => "i16" | u32 => "u32" | i32 => "i32"
  | u64 => "u64" | i64 => "i64" | usize => "usize" | isize => "isize"

def all : List IntKind := [u8, i8, u16, i16, u32, i32, u64, i64, usize, isize]

def Fits (k : IntKind) (x : Int) : Prop := k.least ≤ x ∧ x ≤ k.greatest

instance (k : IntKind) (x : Int) : Decidable (k.Fits x) := inferInstanceAs (Decidable (_ ∧ _))

theorem count_pos (k : IntKind) : 0 < k.count := BigEndian.count_pos _

theorem fits_zero (k : IntKind) : k.Fits 0 := by cases k <;> decide

end IntKind

structure Num (k : IntKind) where
  val : Int
  fits : k.Fits val
  deriving DecidableEq

namespace IntKind

/-- The number of the kind that agrees with `x` in the low bits. -/
def wrap (k : IntKind) (x : Int) : Num k where
  val := k.least + (x - k.least) % k.count
  fits := by
    have h := k.count_pos
    have := Int.emod_nonneg (x - k.least) (show (k.count : Int) ≠ 0 by omega)
    have := Int.emod_lt_of_pos (x - k.least) (show (0 : Int) < k.count by omega)
    exact ⟨by omega, by unfold greatest; omega⟩

theorem wrap_val_of_fits {k : IntKind} {x : Int} (h : k.Fits x) : (k.wrap x).val = x := by
  obtain ⟨h₁, h₂⟩ := h
  unfold greatest at h₂
  show k.least + (x - k.least) % k.count = x
  rw [Int.emod_eq_of_lt (by omega) (by omega)]
  omega

@[simp] theorem wrap_val (k : IntKind) (n : Num k) : k.wrap n.val = n := by
  have h := wrap_val_of_fits n.fits
  revert h
  cases n
  cases h' : k.wrap _
  simp

theorem wrap_eq_wrap_iff (k : IntKind) (x y : Int) :
    k.wrap x = k.wrap y ↔ x % k.count = y % k.count := by
  have h : ∀ x : Int, (k.wrap x).val % k.count = x % k.count := fun x => by
    show (k.least + (x - k.least) % k.count) % k.count = _
    rw [Int.add_emod_emod]
    congr 1
    omega
  constructor
  · intro e
    rw [← h x, ← h y, e]
  · intro e
    have : (x - k.least) % k.count = (y - k.least) % k.count := by
      rw [Int.sub_emod x, e, ← Int.sub_emod]
    show Num.mk _ _ = Num.mk _ _
    simp only [this]

end IntKind

instance (k : IntKind) : Inhabited (Num k) := ⟨⟨0, k.fits_zero⟩⟩

def Num.pattern {k : IntKind} (n : Num k) : Nat := (n.val % k.count).toNat

theorem Num.wrap_pattern {k : IntKind} (n : Num k) : k.wrap n.pattern = n := by
  have h := k.count_pos
  have h₁ := Int.emod_nonneg n.val (show (k.count : Int) ≠ 0 by omega)
  rw [← k.wrap_val n, IntKind.wrap_eq_wrap_iff, k.wrap_val, pattern, Int.toNat_of_nonneg h₁,
    Int.emod_emod_of_dvd _ (Int.dvd_refl _)]

end TagWire
