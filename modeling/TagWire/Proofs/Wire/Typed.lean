import TagWire.Proofs.Wire.Script
import TagWire.Schema.Scalar

/-! Steps that read by typed reads alone, and those of them that fail on their own account only in
certain ways. Every other failure is that of a typed read, passed on as it is. -/
namespace TagWire

theorem Scalar.typedRead_read (s : Scalar) : TypedRead s.read := by
  cases s with
  | bool => exact .bool
  | int k => exact .number k.op k
  | float32 => exact .float32
  | float64 => exact .float64
  | text => exact .text
  | uuid | octets => exact .octets
  | time => exact .instant
  | variant => exact .variant

/-- Steps made of typed reads, whose own errors are among `own`. -/
inductive Typed (own : Error → Prop) : {α : Type} → Reading α → Prop
  | lift {α : Type} (result : Except Error α) (h : ∀ e, result = .error e → own e) :
      Typed own (.lift result)
  | read {α : Type} {x : Reading α} (h : TypedRead x) : Typed own x
  | bind {α β : Type} {x : Reading α} {f : α → Reading β} (hx : Typed own x)
      (hf : ∀ a, Typed own (f a)) : Typed own (x >>= f)

namespace Typed

variable {own : Error → Prop} {α β : Type} {x : Reading α}

theorem pure (a : α) : Typed own (pure a) := by
  apply lift (.ok a)
  rintro _ ⟨⟩

theorem fail {e : Error} (h : own e) : Typed own (.fail e : Reading α) := by
  apply lift (.error e)
  rintro _ ⟨⟩
  exact h

theorem map (g : α → β) (hx : Typed own x) : Typed own (g <$> x) := hx.bind fun a => pure (g a)

theorem stepwise (h : Typed own x) : Stepwise x := by
  induction h with
  | lift result => exact Stepwise.lift result
  | read h => exact h.stepwise
  | bind _ _ hx hf => exact hx.bind hf

end Typed

inductive Candid (own : Error → Prop) {α : Type} : Run α → Prop
  | done (outcome : Except Error Nat) (a : α) (h : ∀ e, outcome = .error e → own e) :
      Candid own (.done outcome a)
  | read {β : Type} {x : Reading β} (typed : TypedRead x) (half : Error → α) {next : β → Run α}
      (scripts : ∀ v, Candid own (next v)) : Candid own (.read x half next)

variable {own : Error → Prop} {α : Type}

theorem Candid.script {run : Run α} (h : Candid own run) : Script run := by
  induction h with
  | done outcome a => exact .done outcome a
  | read typed half _ ih => exact .read typed half ih

theorem Candid.typed {run : Run α} (h : Candid own run) : Typed own run.result := by
  induction h with
  | done outcome a h =>
    refine Typed.lift (outcome.map fun _ => a) fun e he => h e ?_
    cases outcome with
    | ok n => cases he
    | error e' =>
      cases he
      rfl
  | read typed half _ ih =>
    rw [Run.result_read]
    exact (Typed.read typed).bind ih

theorem typed_produce {step : InPlace Error Reader Nat α} {a : α} (h : Candid own (step a)) :
    Typed own (InPlace.produce step a) := by
  rw [Run.produce_eq_result]
  exact h.typed

end TagWire
