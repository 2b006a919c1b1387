import TagWire.Proofs.Wire.Time
import TagWire.Proofs.Wire.Variant

/-! Self-describing values that read step by step. A script goes from one read of the reader to the
next and passes on the errors of all of them; between two reads it may do as it likes. -/
namespace TagWire

/-- The reads that a reader offers for values of a type of their own. A look at the position or the
limits is one of them. -/
inductive TypedRead : {β : Type} → Reading β → Prop
  | position : TypedRead Reader.position
  | limits {β : Type} (g : Limits → β) : TypedRead (.view fun r : Reader => g r.limits)
  | bytes (op : String) (n : Nat) : TypedRead (Reader.bytes op n)
  | buffer (op : String) (n : Nat) : TypedRead (Reader.buffer op n)
  | byte (op : String) : TypedRead (Reader.byte op)
  | bool : TypedRead Reader.bool
  | number (op : String) (k : IntKind) : TypedRead (Reader.numberAs op k)
  | float32 : TypedRead Reader.float32
  | float64 : TypedRead Reader.float64
  | octets : TypedRead Reader.octets
  | size : TypedRead Reader.size
  | nullable : TypedRead Reader.nullable
  | nullableSize : TypedRead Reader.nullableSize
  | itemCount : TypedRead Reader.itemCount
  | textBytes : TypedRead Reader.textBytes
  | text : TypedRead Reader.text
  | ticks : TypedRead Reader.ticks
  | millis : TypedRead Reader.millis
  | instant : TypedRead Reader.instant
  | variant : TypedRead Reader.variant

theorem TypedRead.stepwise {β : Type} {x : Reading β} (h : TypedRead x) : Stepwise x := by
  cases h with
  | position => exact Stepwise.position
  | limits g => exact Stepwise.limits g
  | bytes op n => exact Reader.stepwise_bytes op n
  | buffer op n => exact (Reader.guarded_buffer op n).stepwise
  | byte op => exact (Reader.guarded_byte op).stepwise
  | bool => exact Reader.guarded_bool.stepwise
  | number op k => exact (Reader.guarded_numberAs op k).stepwise
  | float32 => exact Reader.guarded_float32.stepwise
  | float64 => exact Reader.guarded_float64.stepwise
  | octets => exact Reader.guarded_octets.stepwise
  | size => exact Reader.guarded_size.stepwise
  | nullable => exact Reader.guarded_nullable.stepwise
  | nullableSize => exact Reader.guarded_nullableSize.stepwise
  | itemCount => exact Reader.guarded_itemCount.stepwise
  | textBytes => exact Reader.guarded_textBytes.stepwise
  | text => exact Reader.guarded_text.stepwise
  | ticks => exact Reader.guarded_ticks.stepwise
  | millis => exact Reader.guarded_millis.stepwise
  | instant => exact Reader.guarded_instant.stepwise
  | variant => exact Reader.guarded_variant.stepwise

abbrev Run (α : Type) := Reader → (Except Error Nat × α) × Reader

namespace Run

variable {α β : Type}

def done (outcome : Except Error Nat) (a : α) : Run α := fun r => ((outcome, a), r)

def read (x : Reading β) (half : Error → α) (next : β → Run α) : Run α := fun r =>
  match x r with
  | (.ok v, r) => next v r
  | (.error e, r) => ((.error e, half e), r)

def result (run : Run α) : Reading α := fun r => ((run r).1.1.map fun _ => (run r).1.2, (run r).2)

theorem result_read (x : Reading β) (half : Error → α) (next : β → Run α) :
    result (read x half next) = x >>= fun v => result (next v) := by
  funext r
  rw [Attempt.bind_apply]
  unfold result read
  rcases x r with ⟨_ | _, _⟩ <;> rfl

end Run

/-- The runs that do nothing with the reader but typed reads. -/
inductive Script {α : Type} : Run α → Prop
  | done (outcome : Except Error Nat) (a : α) : Script (.done outcome a)
  | read {β : Type} {x : Reading β} (typed : TypedRead x) (half : Error → α) {next : β → Run α}
      (scripts : ∀ v, Script (next v)) : Script (.read x half next)

def Scripted {α : Type} (step : InPlace Error Reader Nat α) : Prop := ∀ a, Script (step a)

theorem Script.stepwise {α : Type} {run : Run α} (h : Script run) : Stepwise run.result := by
  induction h with
  | done outcome a => exact Stepwise.lift (outcome.map fun _ => a)
  | read typed half _ ih =>
    rw [Run.result_read]
    exact typed.stepwise.bind ih

theorem Run.produce_eq_result {α : Type} (step : InPlace Error Reader Nat α) (a : α) :
    InPlace.produce step a = result (step a) := by
  funext r
  unfold InPlace.produce result
  rcases step a r with ⟨⟨_ | _, _⟩, _⟩ <;> rfl

theorem Scripted.stepwise {α : Type} {step : InPlace Error Reader Nat α} (h : Scripted step)
    (a : α) : Stepwise (InPlace.produce step a) := by
  rw [Run.produce_eq_result]
  exact (h a).stepwise

end TagWire
