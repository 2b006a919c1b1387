import TagWire.Proofs.Wire.Fixed
import TagWire.Proofs.Wire.Text
import TagWire.Wire.Variant

/-! Values that carry their own type: the marker brings back the form of the payload. The writer
never refuses one, and no form that is read is shorter than the written one. -/
namespace TagWire

variable {L : Limits}

theorem Num.pattern_lt_sizeBound (n : Num .u64) : n.pattern < sizeBound := n.pattern_lt

def Variant.Within (L : Limits) : Variant → Prop
  | .text s => L.AdmitsText (Text.utf8 s).length
  | _ => True

instance (v : Variant) : Decidable (v.Within L) := by
  unfold Variant.Within
  split <;> infer_instance

namespace Writer

def payloadForm : Variant → List UInt8
  | .bool b => [if b then 1 else 0]
  | .byte n => numberForm n
  | .short n => numberForm n
  | .int n => numberForm n
  | .long n => numberForm n
  | .float bits => BigEndian.encode 4 bits.toNat
  | .double bits => BigEndian.encode 8 bits.toNat
  | .size n => Size.encode n.pattern
  | .nullableSize n => NullableSize.encode n.pattern
  | .text s => textForm (Text.utf8 s)
  | .uuid o => o.bytes
  | .type n => numberForm n
  | .endpoint n => NullableSize.encode n.pattern

def variantForm (v : Variant) : List UInt8 := v.marker.toByte :: payloadForm v

theorem emits_payload (v : Variant) :
    Emits (payload v) (payloadForm v).length (payloadForm v) := by
  cases v with
  | bool b => exact emits_bool b
  | byte n => exact emits_numberAs _ n.fits
  | short n => exact emits_numberAs _ n.fits
  | int n => exact emits_numberAs _ n.fits
  | long n => exact emits_numberAs _ n.fits
  | float bits => exact emits_float32 bits
  | double bits => exact emits_float64 bits
  | size n => exact emits_size _
  | nullableSize n => exact emits_nullableSize _
  | text s => exact emits_text s
  | uuid o => exact emits_octets o
  | type n => exact emits_numberAs _ n.fits
  | endpoint n => exact emits_nullableSize _

theorem emits_variant (v : Variant) :
    Emits (variant v) (variantForm v).length (variantForm v) := by
  rw [variantForm, List.length_cons, Nat.add_comm]
  exact (emits_bytes "type" [v.marker.toByte]).bind ((emits_payload v).map (_ + ·))

end Writer

namespace Reader

theorem takes_counted {read : Reading Nat} {form : Nat → List UInt8}
    (h : ∀ {n}, n < sizeBound → Takes L read (form n) n) (make : Num .u64 → Variant)
    (n : Num .u64) :
    Takes L ((make ∘ IntKind.u64.wrap ∘ Int.ofNat) <$> read) (form n.pattern) (make n) := by
  have hn := (h n.pattern_lt_sizeBound).map (make ∘ IntKind.u64.wrap ∘ Int.ofNat)
  have hw := n.wrap_pattern
  simp only [Function.comp] at hn
  rwa [Int.ofNat_eq_natCast, hw] at hn

theorem takes_payload {v : Variant} (h : v.Within L) :
    Takes L (payload v.marker) (Writer.payloadForm v) v := by
  cases v with
  | bool b => exact (takes_bool b).map _
  | byte n => exact (takes_numberAs _ n.fits).map _
  | short n => exact (takes_numberAs _ n.fits).map _
  | int n => exact (takes_numberAs _ n.fits).map _
  | long n => exact (takes_numberAs _ n.fits).map _
  | float bits => exact (takes_float32 bits).map _
  | double bits => exact (takes_float64 bits).map _
  | size n => exact takes_counted takes_size .size n
  | nullableSize n => exact takes_counted takes_nullableSize .nullableSize n
  | text s => exact (takes_text h).map _
  | uuid o => exact (takes_octets o).map _
  | type n => exact (takes_numberAs _ n.fits).map _
  | endpoint n => exact takes_counted takes_nullableSize .endpoint n

theorem takes_variant {v : Variant} (h : v.Within L) :
    Takes L variant (Writer.variantForm v) v := by
  refine Takes.position fun start => ?_
  refine (takes_byte "type" v.marker.toByte).bind_cons ?_
  rw [Variant.Marker.ofByte?_toByte]
  exact takes_payload h

theorem guarded_payload (m : Variant.Marker) : Guarded (payload m) := by
  cases m with
  | bool => exact guarded_bool.map _
  | byte | short | int | long | type => exact (guarded_numberAs _ _).map _
  | float => exact guarded_float32.map _
  | double => exact guarded_float64.map _
  | size => exact guarded_size.map _
  | nullableSize | endpoint => exact guarded_nullableSize.map _
  | text => exact guarded_text.map _
  | uuid => exact guarded_octets.map _

theorem guarded_variant : Guarded variant := by
  refine Guarded.position.bind fun start => (guarded_byte _).bind fun b => ?_
  split
  · exact guarded_payload _
  · exact Guarded.fail _

/-- What a payload that was read satisfies: it is read again, and its form is not longer. -/
def Recovered (L : Limits) (v : Variant) (n : Nat) : Prop :=
  v.Within L ∧ (Writer.payloadForm v).length ≤ n

theorem yields_number {k : IntKind} {op : String} {make : Num k → Variant}
    (h : ∀ n, Recovered L (make n) k.wire.width) :
    Yields L (make <$> numberAs op k) (Recovered L) :=
  Yields.map ((yields_numberAs op k).mono fun n _ hm => hm.2 ▸ h n)

theorem yields_counted {read : Reading Nat} {form : Nat → List UInt8} {make : Num .u64 → Variant}
    (h : Yields L read fun v k => v < sizeBound ∧ (form v).length ≤ k)
    (hm : ∀ {n k}, (form n.pattern).length ≤ k → Recovered L (make n) k) :
    Yields L ((make ∘ IntKind.u64.wrap ∘ Int.ofNat) <$> read) (Recovered L) := by
  refine Yields.map (h.mono fun v k hv => hm ?_)
  show (form (IntKind.u64.wrap (v : Int)).pattern).length ≤ k
  rw [Num.pattern_wrap hv.1]
  exact hv.2

theorem yields_payload (m : Variant.Marker) : Yields L (payload m) (Recovered L) := by
  cases m with
  | bool => exact Yields.map (yields_bool.mono fun _ _ hn => ⟨trivial, Nat.le_of_eq hn.symm⟩)
  | byte | short | int | long | type =>
    exact yields_number fun n => ⟨trivial, Nat.le_of_eq (Writer.length_numberForm n)⟩
  | float =>
    refine Yields.map (yields_float32.mono fun bits n hn => ⟨trivial, ?_⟩)
    exact Nat.le_of_eq ((BigEndian.length_encode 4 _).trans hn.symm)
  | double =>
    refine Yields.map (yields_float64.mono fun bits n hn => ⟨trivial, ?_⟩)
    exact Nat.le_of_eq ((BigEndian.length_encode 8 _).trans hn.symm)
  | size => exact yields_counted yields_size fun h => ⟨trivial, h⟩
  | nullableSize | endpoint => exact yields_counted yields_nullableSize fun h => ⟨trivial, h⟩
  | text => exact Yields.map yields_text
  | uuid =>
    exact Yields.map (yields_octets.mono fun o _ hn =>
      ⟨trivial, Nat.le_of_eq (o.length_eq.trans hn.symm)⟩)

theorem yields_variant : Yields L variant fun v n =>
    v.Within L ∧ (Writer.variantForm v).length ≤ n := by
  refine Yields.view fun r _ => (yields_byte _).bind fun b _ hn => ?_
  subst hn
  split
  · refine (yields_payload _).mono fun v n h => ⟨h.1, ?_⟩
    have := h.2
    rw [Writer.variantForm, List.length_cons]
    omega
  · exact Yields.fail _

end Reader

end TagWire
