import TagWire.Proofs.Stream.Pieces
import TagWire.Schema.Scalar

/-! Steps that write step by step. A script goes from one typed write to the next and passes on the
errors of all of them, so that primitive writes are all it does with a sink; this holds of scalars
and of the built-in codecs, and is what a self-describing type is asked for. -/
namespace TagWire

/-- The writes that a writer offers for values of a type of their own. A look at the position is one
of them. -/
inductive TypedWrite : {β : Type} → Writing β → Prop
  | position : TypedWrite (.view Writer.offset)
  | bytes (op : String) (piece : List UInt8) : TypedWrite (Writer.bytes op piece)
  | null : TypedWrite Writer.null
  | bool (b : Bool) : TypedWrite (Writer.bool b)
  | number (op : String) {k : IntKind} (n : Num k) : TypedWrite (Writer.numberAs op n)
  | float32 (bits : UInt32) : TypedWrite (Writer.float32 bits)
  | float64 (bits : UInt64) : TypedWrite (Writer.float64 bits)
  | octets (o : Octets) : TypedWrite (Writer.octets o)
  | size (n : Nat) : TypedWrite (Writer.size n)
  | nullableSize (n : Nat) : TypedWrite (Writer.nullableSize n)
  | textBytes (bs : List UInt8) : TypedWrite (Writer.textBytes bs)
  | text (s : String) : TypedWrite (Writer.text s)
  | millis (m : Int) : TypedWrite (Writer.millis m)
  | instant (t : Instant) : TypedWrite (Writer.instant t)
  | variant (v : Variant) : TypedWrite (Writer.variant v)

namespace Writer

theorem piecewise_numberAs (op : String) {k : IntKind} (n : Num k) : Piecewise (numberAs op n) := by
  unfold numberAs
  split
  · exact piecewise_bytes _ _
  · exact Piecewise.fail _

theorem piecewise_textBytes (bs : List UInt8) : Piecewise (textBytes bs) := by
  unfold textBytes
  split
  · exact piecewise_bytes _ _
  · exact (piecewise_bytes _ _).bind fun _ => (piecewise_bytes _ _).bind fun _ => Piecewise.pure _

theorem piecewise_millis (m : Int) : Piecewise (millis m) := by
  unfold millis
  split
  · exact piecewise_numberAs _ _
  · exact Piecewise.fail _

theorem piecewise_payload (v : Variant) : Piecewise (payload v) := by
  cases v with
  | byte n | short n | int n | long n | type n => exact piecewise_numberAs _ n
  | text s => exact piecewise_textBytes _
  | _ => exact piecewise_bytes _ _

theorem piecewise_variant (v : Variant) : Piecewise (variant v) :=
  (piecewise_bytes _ _).bind fun _ => (piecewise_payload v).bind fun _ => Piecewise.pure _

end Writer

theorem TypedWrite.piecewise {β : Type} {x : Writing β} (h : TypedWrite x) : Piecewise x := by
  cases h with
  | position => exact Piecewise.idle (fun start => .ok start) fun w => ⟨w, rfl, rfl⟩
  | number op n => exact Writer.piecewise_numberAs op n
  | textBytes bs | text s => exact Writer.piecewise_textBytes _
  | millis m | instant t => exact Writer.piecewise_millis _
  | variant v => exact Writer.piecewise_variant v
  | _ => exact Writer.piecewise_bytes _ _

/-- The steps that do nothing with a writer but typed writes, and end where one of them fails. -/
inductive WriteScript {α : Type} : Writing α → Prop
  | done (outcome : Except Error α) : WriteScript (.lift outcome)
  | write {β : Type} {x : Writing β} (typed : TypedWrite x) {next : β → Writing α}
      (scripts : ∀ v, WriteScript (next v)) : WriteScript (x >>= next)

namespace WriteScript

variable {α β : Type} {x : Writing α}

theorem piecewise (h : WriteScript x) : Piecewise x := by
  induction h with
  | done outcome => exact Piecewise.lift outcome
  | write typed _ ih => exact typed.piecewise.bind ih

theorem fail (e : Error) : WriteScript (Attempt.fail e : Writing α) := done (.error e)

theorem of_typed (h : TypedWrite x) : WriteScript x := by
  rw [← bind_pure x]
  exact write h fun a => done (.ok a)

theorem lift_bind {result : Except Error β} {f : β → Writing α} (hf : ∀ b, WriteScript (f b)) :
    WriteScript (Attempt.lift result >>= f) := by
  cases result with
  | error e => exact fail e
  | ok b => exact hf b

end WriteScript

theorem Scalar.typedWrite_write (s : Scalar) (x : s.Carrier) : TypedWrite (s.write x) := by
  cases s with
  | bool => exact .bool x
  | int k => exact .number _ x
  | float32 => exact .float32 x
  | float64 => exact .float64 x
  | text => exact .text x
  | uuid | octets => exact .octets x
  | time => exact .instant x
  | variant => exact .variant x

end TagWire
