import TagWire.Proofs.Wire.Time
import TagWire.Proofs.Wire.Variant
import TagWire.Schema.Scalar

/-! Scalars: all that a scalar loses on the wire is what an instant has below its millisecond, and
the writer refuses nothing but machine-sized integers. -/
namespace TagWire

variable {L : Limits}

namespace Scalar

/-- Whether the value has a form on the wire; a machine-sized integer may be too wide. -/
def Writable : (s : Scalar) → s.Carrier → Prop
  | int k, n => k.wire.Fits n.val
  | _, _ => True

def Within (L : Limits) : (s : Scalar) → s.Carrier → Prop
  | text, s => L.AdmitsText (Text.utf8 s).length
  | variant, v => v.Within L
  | _, _ => True

instance (s : Scalar) (x : s.Carrier) : Decidable (s.Within L x) := by
  unfold Within
  split <;> infer_instance

def carried : (s : Scalar) → s.Carrier → s.Carrier
  | time, t => t.floor
  | _, x => x

def form : (s : Scalar) → s.Carrier → List UInt8
  | bool, b => [if b then 1 else 0]
  | int _, n => Writer.numberForm n
  | float32, bits => BigEndian.encode 4 bits.toNat
  | float64, bits => BigEndian.encode 8 bits.toNat
  | text, s => Writer.textForm (Text.utf8 s)
  | uuid, o | octets, o => o.bytes
  | time, t => Writer.ticksForm (t.millis * 10 + Ticks.epoch)
  | variant, v => Writer.variantForm v

theorem emits_write {s : Scalar} {x : s.Carrier} (h : s.Writable x) :
    Emits (s.write x) (s.form x).length (s.form x) := by
  cases s with
  | bool => exact Writer.emits_bool x
  | int k => exact Writer.emits_numberAs _ h
  | float32 => exact Writer.emits_float32 x
  | float64 => exact Writer.emits_float64 x
  | text => exact Writer.emits_text x
  | uuid | octets => exact Writer.emits_octets x
  | time => exact Writer.emits_instant x
  | variant => exact Writer.emits_variant x

theorem appends_write {s : Scalar} {x : s.Carrier} :
    Appends (s.write x) fun _ bs => s.Writable x ∧ bs = s.form x := by
  cases s with
  | int k => exact (Writer.appends_numberAs _ x).mono fun _ _ h => ⟨h.2, h.1⟩
  | bool | float32 | float64 | text | uuid | octets | time | variant =>
    refine (emits_write ?_).appends ⟨?_, rfl⟩ <;> trivial

theorem constant_write {s : Scalar} (x : s.Carrier) : Constant (s.write x) := by
  cases s with
  | int k => exact Writer.constant_numberAs _ x
  | bool | float32 | float64 | text | uuid | octets | time | variant =>
    apply Constant.of_emits
    apply emits_write
    trivial

theorem takes_read {s : Scalar} {x : s.Carrier} (hx : s.Writable x) (h : s.Within L x) :
    Takes L s.read (s.form x) (s.carried x) := by
  cases s with
  | bool => exact Reader.takes_bool x
  | int k => exact Reader.takes_numberAs _ hx
  | float32 => exact Reader.takes_float32 x
  | float64 => exact Reader.takes_float64 x
  | text => exact Reader.takes_text h
  | uuid | octets => exact Reader.takes_octets x
  | time => exact Reader.takes_instant x
  | variant => exact Reader.takes_variant h

theorem guarded_read (s : Scalar) : Guarded s.read := by
  cases s with
  | bool => exact Reader.guarded_bool
  | int k => exact Reader.guarded_numberAs _ _
  | float32 => exact Reader.guarded_float32
  | float64 => exact Reader.guarded_float64
  | text => exact Reader.guarded_text
  | uuid | octets => exact Reader.guarded_octets
  | time => exact Reader.guarded_instant
  | variant => exact Reader.guarded_variant

theorem yields_read (s : Scalar) : Yields L s.read fun x n =>
    s.Writable x ∧ s.Within L x ∧ s.carried x = x ∧ (s.form x).length ≤ n := by
  cases s with
  | bool =>
    exact Reader.yields_bool.mono fun _ _ h => ⟨trivial, trivial, rfl, Nat.le_of_eq h.symm⟩
  | int k =>
    refine (Reader.yields_numberAs _ k).mono fun x n h => ⟨h.1, trivial, rfl, ?_⟩
    exact Nat.le_of_eq ((Writer.length_numberForm x).trans h.2.symm)
  | float32 =>
    refine Reader.yields_float32.mono fun x n h => ⟨trivial, trivial, rfl, ?_⟩
    exact Nat.le_of_eq ((BigEndian.length_encode 4 _).trans h.symm)
  | float64 =>
    refine Reader.yields_float64.mono fun x n h => ⟨trivial, trivial, rfl, ?_⟩
    exact Nat.le_of_eq ((BigEndian.length_encode 8 _).trans h.symm)
  | text => exact Reader.yields_text.mono fun _ _ h => ⟨trivial, h.1, rfl, h.2⟩
  | uuid | octets =>
    exact Reader.yields_octets.mono fun x _ h =>
      ⟨trivial, trivial, rfl, Nat.le_of_eq (x.length_eq.trans h.symm)⟩
  | time =>
    refine Reader.yields_instant.mono fun x n h => ⟨trivial, trivial, h.1, ?_⟩
    exact Nat.le_of_eq ((Writer.length_ticksForm _).trans h.2.symm)
  | variant => exact Reader.yields_variant.mono fun _ _ h => ⟨trivial, h.1, rfl, h.2⟩

end Scalar

end TagWire
