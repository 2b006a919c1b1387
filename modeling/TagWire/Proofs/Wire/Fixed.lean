import TagWire.Proofs.Number.Kind
import TagWire.Proofs.Stream.Appending
import TagWire.Proofs.Stream.Guarded
import TagWire.Wire.Fixed

/-! Values of fixed width: they are read back, and every value that is read can be written. -/
namespace TagWire

variable {L : Limits}

namespace Writer

theorem emits_bool (b : Bool) : Emits (bool b) 1 [if b then 1 else 0] := emits_bytes _ _

def numberForm {k : IntKind} (n : Num k) : List UInt8 :=
  BigEndian.encode k.wire.width (k.wire.wrap n.val).pattern

theorem length_numberForm {k : IntKind} (n : Num k) : (numberForm n).length = k.wire.width :=
  BigEndian.length_encode _ _

theorem emits_numberAs (op : String) {k : IntKind} {n : Num k} (h : k.wire.Fits n.val) :
    Emits (numberAs op n) (numberForm n).length (numberForm n) := by
  rw [numberAs, if_pos h]
  exact emits_bytes _ _

theorem appends_numberAs (op : String) {k : IntKind} (n : Num k) :
    Appends (numberAs op n) fun _ bs => bs = numberForm n ∧ k.wire.Fits n.val := by
  by_cases h : k.wire.Fits n.val
  · exact (emits_numberAs op h).appends ⟨rfl, h⟩
  · rw [numberAs, if_neg h]
    exact Appends.fail _

theorem constant_numberAs (op : String) {k : IntKind} (n : Num k) : Constant (numberAs op n) := by
  by_cases h : k.wire.Fits n.val
  · exact Constant.of_emits (emits_numberAs op h)
  · rw [numberAs, if_neg h]
    exact Constant.fail _

theorem emits_float32 (bits : UInt32) : Emits (float32 bits)
    (BigEndian.encode 4 bits.toNat).length (BigEndian.encode 4 bits.toNat) := emits_bytes _ _

theorem emits_float64 (bits : UInt64) : Emits (float64 bits)
    (BigEndian.encode 8 bits.toNat).length (BigEndian.encode 8 bits.toNat) := emits_bytes _ _

theorem emits_octets (o : Octets) : Emits (octets o) o.bytes.length o.bytes := emits_bytes _ _

end Writer

namespace Reader

theorem takes_bool (b : Bool) : Takes L bool [if b then 1 else 0] b := by
  refine Takes.position fun start => ?_
  refine ((takes_bytes "bool" [if b then 1 else 0]).map _).bind_nil ?_
  cases b <;> exact Takes.pure _

theorem guarded_bool : Guarded bool := by
  refine Guarded.position.bind fun start => ((Guarded.bytes _ _).map _).bind fun b => ?_
  split
  · exact Guarded.pure _
  · split
    · exact Guarded.pure _
    · exact Guarded.fail _

theorem yields_bool : Yields L bool fun _ n => n = 1 := by
  refine Yields.view fun r _ => ?_
  refine Yields.bind (P := fun _ n => n = 1) (Yields.map ((yields_bytes _ _).mono fun _ _ h => h.2))
    fun b n hn => ?_
  subst hn
  split
  · exact Yields.pure rfl
  · split
    · exact Yields.pure rfl
    · exact Yields.fail _

theorem takes_numberAs (op : String) {k : IntKind} {n : Num k} (h : k.wire.Fits n.val) :
    Takes L (numberAs op k) (Writer.numberForm n) n := by
  rw [← List.append_nil (Writer.numberForm n)]
  refine (takes_bytes_of_length op (Writer.length_numberForm n)).bind ?_
  rw [Writer.numberForm, Num.decode_encode_pattern, Num.wrap_pattern, IntKind.wrap_val_of_fits h,
    IntKind.wrap_val]
  exact Takes.pure n

theorem guarded_numberAs (op : String) (k : IntKind) : Guarded (numberAs op k) :=
  (Guarded.bytes _ _).bind fun _ => Guarded.pure _

theorem yields_numberAs (op : String) (k : IntKind) :
    Yields L (numberAs op k) fun n m => k.wire.Fits n.val ∧ m = k.wire.width := by
  refine (yields_bytes op _).bind fun bs m h => ?_
  have hf := (k.wire.wrap (BigEndian.decode bs)).fits
  refine Yields.pure ⟨?_, h.2⟩
  rwa [IntKind.wrap_val_of_fits hf.of_wire]

theorem takes_float32 (bits : UInt32) :
    Takes L float32 (BigEndian.encode 4 bits.toNat) bits := by
  have h := (takes_bytes_of_length (L := L) "float32" (BigEndian.length_encode 4 bits.toNat)).map
    (UInt32.ofNat ∘ BigEndian.decode)
  have hb : bits.toNat % BigEndian.count 4 = bits.toNat := Nat.mod_eq_of_lt bits.toNat_lt
  rwa [Function.comp, BigEndian.decode_encode, hb, UInt32.ofNat_toNat] at h

theorem takes_float64 (bits : UInt64) :
    Takes L float64 (BigEndian.encode 8 bits.toNat) bits := by
  have h := (takes_bytes_of_length (L := L) "float64" (BigEndian.length_encode 8 bits.toNat)).map
    (UInt64.ofNat ∘ BigEndian.decode)
  have hb : bits.toNat % BigEndian.count 8 = bits.toNat := Nat.mod_eq_of_lt bits.toNat_lt
  rwa [Function.comp, BigEndian.decode_encode, hb, UInt64.ofNat_toNat] at h

theorem takes_octets (o : Octets) : Takes L octets o.bytes o := by
  have h := (takes_bytes_of_length (L := L) "uuid" o.length_eq).map Octets.ofList
  rwa [Octets.ofList_bytes] at h

theorem guarded_float32 : Guarded float32 := (Guarded.bytes _ _).map _

theorem guarded_float64 : Guarded float64 := (Guarded.bytes _ _).map _

theorem guarded_octets : Guarded octets := (Guarded.bytes _ _).map _

theorem yields_float32 : Yields L float32 fun _ n => n = 4 :=
  Yields.map ((yields_bytes _ _).mono fun _ _ h => h.2)

theorem yields_float64 : Yields L float64 fun _ n => n = 8 :=
  Yields.map ((yields_bytes _ _).mono fun _ _ h => h.2)

theorem yields_octets : Yields L octets fun _ n => n = 16 :=
  Yields.map ((yields_bytes _ _).mono fun _ _ h => h.2)

end Reader

end TagWire
