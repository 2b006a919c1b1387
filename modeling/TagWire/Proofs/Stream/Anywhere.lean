import TagWire.Proofs.Follows
import TagWire.Proofs.Stream.Appending
import TagWire.Proofs.Stream.Stepwise

/-! Steps for which it makes no difference where in a stream they stand. What is behind them has no
part in what they do, and they count positions from where they are. -/
namespace TagWire

namespace Error

def onward (n : Nat) : Error → Error
  | io op offset cause => io op (n + offset) cause
  | nullExpected op offset byte => nullExpected op (n + offset) byte
  | invalidBool offset byte => invalidBool (n + offset) byte
  | unknownMarker offset marker => unknownMarker (n + offset) marker
  | invalidUtf8 offset => invalidUtf8 (n + offset)
  | sizeOverflow op offset => sizeOverflow op (n + offset)
  | lengthLimit op offset length limit => lengthLimit op (n + offset) length limit
  | e => e

theorem offset?_onward (n : Nat) (e : Error) : (e.onward n).offset? = e.offset?.map (n + ·) := by
  cases e <;> rfl

theorem onward_of_unplaced (n : Nat) {e : Error} (h : e.offset? = none) : e.onward n = e := by
  cases e with
  | io | nullExpected | invalidBool | unknownMarker | invalidUtf8 | sizeOverflow | lengthLimit =>
    cases h
  | _ => rfl

theorem onward_onward (m n : Nat) (e : Error) : (e.onward n).onward m = e.onward (m + n) := by
  cases e <;> simp [onward, Nat.add_assoc]

theorem mapError_onward_onward {α : Type} (m n : Nat) (result : Except Error α) :
    (result.mapError (onward n)).mapError (onward m) = result.mapError (onward (m + n)) := by
  cases result with
  | error e => exact congrArg Except.error (onward_onward m n e)
  | ok a => rfl

end Error

/-! ### Writing -/

namespace Writer

def beyond (base w : Writer) : Writer where
  sink := { w.sink with taken := base.sink.taken ++ w.sink.taken }
  offset := base.offset + w.offset

theorem beyond_new {w : Writer} (h : w.sink.room = none) : w.beyond {} = w := by
  obtain ⟨⟨taken, room⟩, offset⟩ := w
  obtain rfl : room = none := h
  simp [beyond]

theorem beyond_append (base w : Writer) (bs : List UInt8) :
    base.beyond (w.append bs) = (base.beyond w).append bs := by
  simp [beyond, append, Nat.add_assoc]

/-- The second writer has besides what the first has written what `base` has before it; neither of
them ever fills. -/
def Beyond (base v w : Writer) : Prop := v.sink.room = none ∧ w = base.beyond v

variable {α β : Type} {x : Writing α} {a : α} {bs : List UInt8}

/-- On a sink that never fills, the step writes the same from every position on and ends alike, but
for the positions of errors. -/
def Anywhere (x : Writing α) : Prop :=
  ∃ bs, ∃ result : Except Error α, ∀ start, Puts x start bs (result.mapError (.onward start))

namespace Anywhere

theorem follows (h : Anywhere x) (base : Writer) :
    Follows (Beyond base) (Except.mapError (.onward base.offset)) x x := by
  rintro v _ ⟨hv, rfl⟩
  obtain ⟨bs, result, h⟩ := h
  obtain ⟨v', hx, hv'⟩ := h v.offset v hv rfl
  obtain ⟨w', hy, hw'⟩ := h (base.offset + v.offset) (base.beyond v) hv rfl
  simp only [HasWriter.writer_self] at hv' hw'
  rw [hx, hy, Error.mapError_onward_onward, hv', hw']
  exact ⟨rfl, hv, (beyond_append base v bs).symm⟩

theorem of_emits (h : Emits x a bs) : Anywhere x := ⟨bs, .ok a, fun _ w hw _ => h w hw⟩

theorem pure (a : α) : Anywhere (pure a) := of_emits (Emits.pure a)

theorem fail {e : Error} (he : e.offset? = none) : Anywhere (.fail e : Writing α) := by
  refine ⟨[], .error e, fun start => Puts.of_apply fun w => ⟨w, ?_, rfl⟩⟩
  exact congrArg (fun e => (Except.error e, w)) (e.onward_of_unplaced start he).symm

theorem lift_bind {result : Except Error α} {f : α → Writing β}
    (hr : ∀ e, result = .error e → e.offset? = none) (hf : ∀ a, Anywhere (f a)) :
    Anywhere (.lift result >>= f) := by
  cases result with
  | error e => exact fail (hr e rfl)
  | ok a => exact hf a

theorem bind {f : α → Writing β} (hx : Anywhere x) (hf : ∀ a, Anywhere (f a)) :
    Anywhere (x >>= f) := by
  obtain ⟨bs, result, hx⟩ := hx
  cases result with
  | error e => exact ⟨bs, .error e, fun start => (hx start).bind_error⟩
  | ok a =>
    obtain ⟨cs, result, hf⟩ := hf a
    refine ⟨bs ++ cs, result.mapError (.onward bs.length), fun start => ?_⟩
    rw [Error.mapError_onward_onward]
    exact (hx start).bind (hf (start + bs.length))

end Anywhere

end Writer

/-! ### Reading -/

namespace Reader

/-- Nothing was handed back, and the second reader differs from the first in nothing but that it is
`n` bytes further on. -/
structure Ahead (L : Limits) (n : Nat) (r r' : Reader) : Prop where
  limits : r.limits = L
  pushback : r.pushback = []
  onward : r' = { r with offset := n + r.offset }

variable {α β : Type} {x y : Reading α} {L : Limits} {n : Nat}

def Anywhere (x : Reading α) : Prop :=
  ∀ L n, Follows (Ahead L n) (Except.mapError (.onward n)) x x

def AnywhereInPlace (x : InPlace Error Reader Nat α) : Prop :=
  ∀ a L n, Follows (Ahead L n) (InPlace.onError (.onward n)) (x a) (x a)

theorem follows_position {f g : Nat → Reading α}
    (h : ∀ start, Follows (Ahead L n) (Except.mapError (.onward n)) (f start) (g (n + start))) :
    Follows (Ahead L n) (Except.mapError (.onward n)) (position >>= f) (position >>= g) := by
  rintro r _ ⟨hl, hp, rfl⟩
  exact h r.offset r _ ⟨hl, hp, rfl⟩

theorem anywhere_bytes (op : String) (k : Nat) : Anywhere (bytes op k) := by
  rintro L n ⟨source, limits, pushback, offset⟩ _ ⟨hl, hp, rfl⟩
  obtain rfl : pushback = [] := hp
  unfold bytes
  dsimp only
  rcases Source.fill (k - (([] : List UInt8).take k).length) source with ⟨cause | back, source'⟩
  · exact ⟨rfl, hl, List.drop_nil, rfl⟩
  · refine ⟨rfl, hl, List.drop_nil, ?_⟩
    simp only [Nat.add_assoc]

namespace Anywhere

theorem pure (a : α) : Anywhere (pure a) := fun _ _ => .pure a

theorem fail {e : Error} (he : e.offset? = none) : Anywhere (.fail e : Reading α) :=
  fun _ n => .fail (e.onward_of_unplaced n he)

theorem lift {result : Except Error α} (hr : ∀ e, result = .error e → e.offset? = none) :
    Anywhere (.lift result) :=
  fun _ n => .lift fun e he => e.onward_of_unplaced n (hr e he)

theorem limits (g : Limits → α) : Anywhere (.view fun r : Reader => g r.limits) := by
  rintro L n r _ ⟨hl, hp, rfl⟩
  exact ⟨rfl, hl, hp, rfl⟩

theorem bind {f : α → Reading β} (hx : Anywhere x) (hf : ∀ a, Anywhere (f a)) :
    Anywhere (x >>= f) := fun L n => (hx L n).bind fun a => hf a L n

theorem map (g : α → β) (hx : Anywhere x) : Anywhere (g <$> x) := fun L n => (hx L n).map g

/-- A step between whose start and whose end something is read that is then judged, which reports
where it started. -/
theorem anchored {f : Nat → α → Reading β} (hx : Anywhere x)
    (hf : ∀ L n start a,
      Follows (Ahead L n) (Except.mapError (.onward n)) (f start a) (f (n + start) a)) :
    Anywhere (position >>= fun start => x >>= f start) :=
  fun L n => follows_position fun start => (hx L n).bind fun a => hf L n start a

end Anywhere

end Reader

end TagWire
