import TagWire.Proofs.Stream.Stepwise

/-! Steps for which a limit is nothing but a check. What they do is in the bytes; a limit decides
only whether a length that was read may be gone on with, and a length that may not is the error. -/
namespace TagWire

inductive Gauge
  | text
  | items

namespace Gauge

def op : Gauge → String
  | text => "string"
  | items => "sequence"

def limit (L : Limits) : Gauge → Nat
  | text => L.maxText
  | items => L.maxItems

end Gauge

def Limits.Cuts (L : Limits) (e : Error) : Prop :=
  ∃ (g : Gauge) (start n : Nat), g.limit L < n ∧ e = .lengthLimit g.op start n (g.limit L)

namespace Reader

variable {α : Type} {r : Reader} {g : Gauge} {n : Nat}

def gauged (g : Gauge) (start n : Nat) (x : Reading α) : Reading α := do
  let limit ← .view fun r => g.limit r.limits
  if n ≤ limit then x
  else .fail (.lengthLimit g.op start n limit)

theorem gauged_of_le (h : n ≤ g.limit r.limits) (start : Nat) (x : Reading α) :
    gauged g start n x r = x r := congrFun (if_pos h) r

theorem gauged_of_lt (h : g.limit r.limits < n) (start : Nat) (x : Reading α) :
    gauged g start n x r = (.error (.lengthLimit g.op start n (g.limit r.limits)), r) :=
  congrFun (if_neg (Nat.not_le.2 h)) r

end Reader

/-- Steps made of reads of so many bytes, looks at the position, and checks of lengths. -/
inductive Guarded : {α : Type} → Reading α → Prop
  | idle {α : Type} {x : Reading α} (f : Nat → Except Error α) (h : ∀ r, x r = (f r.offset, r)) :
      Guarded x
  | bytes (op : String) (n : Nat) : Guarded (Reader.bytes op n)
  | gauged {α : Type} {x : Reading α} (g : Gauge) (start n : Nat) (hx : Guarded x) :
      Guarded (Reader.gauged g start n x)
  | bind {α β : Type} {x : Reading α} {f : α → Reading β} (hx : Guarded x)
      (hf : ∀ a, Guarded (f a)) : Guarded (x >>= f)

namespace Guarded

variable {α β : Type} {x : Reading α}

theorem pure (a : α) : Guarded (pure a) := idle (fun _ => .ok a) fun _ => rfl

theorem fail (e : Error) : Guarded (.fail e : Reading α) := idle (fun _ => .error e) fun _ => rfl

theorem lift (result : Except Error α) : Guarded (.lift result : Reading α) :=
  idle (fun _ => result) fun _ => rfl

theorem position : Guarded Reader.position := idle .ok fun _ => rfl

theorem map (g : α → β) (hx : Guarded x) : Guarded (g <$> x) := hx.bind fun a => pure (g a)

theorem stepwise (h : Guarded x) : Stepwise x := by
  induction h with
  | idle f h => exact .idle (fun _ start => f start) fun r => ⟨r, h r, rfl⟩
  | bytes op n => exact Reader.stepwise_bytes op n
  | gauged g start n _ ih =>
    refine (Stepwise.limits g.limit).bind fun limit => ?_
    split
    · exact ih
    · exact Stepwise.fail _
  | bind _ _ hx hf => exact hx.bind hf

end Guarded

theorem Reader.guarded_buffer (op : String) (n : Nat) : Guarded (buffer op n) := by
  unfold buffer
  split
  · exact .bytes op n
  · exact .fail _

end TagWire
