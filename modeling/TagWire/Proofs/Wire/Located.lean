import TagWire.Proofs.Wire.Script

/-! Where the errors of typed reads point. A read that has begun to judge what it consumed reports
the position at which it started, and a read of bytes that fails reports where these should have
been. -/
namespace TagWire

def Hungry {α : Type} (x : Reading α) : Prop :=
  ∀ r : Reader, r.Ends → r.rest = [] →
    ∃ op r', x r = (.error (.io op r.offset .ended), r')

/-- Steps whose errors point at the start of a read. Those of the step itself carry no position or
that of `own`, the start of a read that the step is the last part of and that has consumed
something by then. -/
inductive Located : (own : Option Nat) → {α : Type} → Reading α → Prop
  | idle {own : Option Nat} {α : Type} {x : Reading α} (g : Limits → Nat → Except Error α)
      (h : ∀ r, x r = (g r.limits r.offset, r))
      (placed : ∀ L start e, g L start = .error e →
        e.kind ≠ .io ∧ (e.offset? = none ∨ e.offset? = own)) : Located own x
  | bytes {own : Option Nat} (op : String) (n : Nat) : Located own (Reader.bytes op n)
  | bind {own : Option Nat} {α β : Type} {x : Reading α} {f : α → Reading β} (hx : Located own x)
      (hf : ∀ a, Located own (f a)) : Located own (x >>= f)
  | anchored {own : Option Nat} {α β : Type} {x : Reading α} {f : Nat → α → Reading β}
      (hx : Located none x) (hungry : Hungry x) (hf : ∀ start a, Located (some start) (f start a)) :
      Located own (Reader.position >>= fun start => x >>= f start)

namespace Hungry

variable {α β : Type} {x : Reading α}

theorem bind (hx : Hungry x) (f : α → Reading β) : Hungry (x >>= f) := by
  intro r he hr
  obtain ⟨op, r', h⟩ := hx r he hr
  exact ⟨op, r', Attempt.bind_error h⟩

theorem map (hx : Hungry x) (g : α → β) : Hungry (g <$> x) := hx.bind _

theorem position {f : Nat → Reading α} (hf : ∀ start, Hungry (f start)) :
    Hungry (Reader.position >>= f) := fun r he hr => hf r.offset r he hr

end Hungry

namespace Located

variable {own : Option Nat} {α β : Type} {x : Reading α}

theorem of_apply (g : Limits → Nat → α) (h : ∀ r, x r = (.ok (g r.limits r.offset), r)) :
    Located own x := by
  apply idle (fun L start => .ok (g L start)) h
  rintro _ _ _ ⟨⟩

theorem pure (a : α) : Located own (pure a : Reading α) := of_apply (fun _ _ => a) fun _ => rfl

theorem fail {e : Error} (hk : e.kind ≠ .io) (ho : e.offset? = none ∨ e.offset? = own) :
    Located own (.fail e : Reading α) := by
  refine idle (fun _ _ => .error e) (fun _ => rfl) ?_
  rintro _ _ _ ⟨⟩
  exact ⟨hk, ho⟩

theorem limits (g : Limits → α) : Located own (.view fun r : Reader => g r.limits) :=
  of_apply (fun L _ => g L) fun _ => rfl

theorem position : Located own Reader.position :=
  of_apply (fun _ start => start) fun _ => rfl

theorem map (g : α → β) (hx : Located own x) : Located own (g <$> x) :=
  hx.bind fun a => pure (g a)

theorem stepwise (h : Located own x) : Stepwise x := by
  induction h with
  | idle g h => exact .idle g fun r => ⟨r, h r, rfl⟩
  | bytes op n => exact Reader.stepwise_bytes op n
  | bind _ _ hx hf => exact hx.bind hf
  | anchored _ _ _ hx hf => exact Stepwise.position.bind fun start => hx.bind (hf start)

end Located

namespace Reader

theorem hungry_bytes (op : String) (n : Nat) : Hungry (bytes op (n + 1)) := by
  intro r he hr
  have hb := bytes_eq he.pieces op (n + 1)
  have hs := he.supply
  rw [hr, List.length_nil] at hs
  rw [if_neg (by omega), he.ended] at hb
  exact ⟨op, _, hb⟩

theorem hungry_byte (op : String) : Hungry (byte op) := (hungry_bytes op 0).map _

theorem hungry_size : Hungry size := .position fun _ => (hungry_byte _).bind _

theorem hungry_nullable : Hungry nullable := .position fun _ => (hungry_byte _).bind _

theorem hungry_nullableSize : Hungry nullableSize := hungry_nullable.map _

theorem hungry_textBytes : Hungry textBytes := .position fun _ => hungry_nullableSize.bind _

variable {own : Option Nat}

theorem located_buffer (op : String) (n : Nat) : Located own (buffer op n) := by
  unfold buffer
  split
  · exact .bytes op n
  · exact .fail nofun (.inl rfl)

theorem located_byte (op : String) : Located own (byte op) := (Located.bytes op 1).map _

theorem located_bool : Located own bool := by
  refine .anchored (located_byte _) (hungry_byte _) fun start b => ?_
  split
  · exact .pure _
  · split
    · exact .pure _
    · exact .fail nofun (.inr rfl)

theorem located_numberAs (op : String) (k : IntKind) : Located own (numberAs op k) :=
  (Located.bytes op _).map _

theorem located_float32 : Located own float32 := (Located.bytes _ _).map _

theorem located_float64 : Located own float64 := (Located.bytes _ _).map _

theorem located_octets : Located own octets := (Located.bytes _ _).map _

theorem located_sizeGroups (op : String) (start groups weight sum : Nat) :
    Located (some start) (sizeGroups op start groups weight sum) := by
  induction groups generalizing weight sum with
  | zero => exact .fail nofun (.inr rfl)
  | succ groups ih =>
    refine (located_byte op).bind fun b => ?_
    dsimp only
    split
    · exact .fail nofun (.inr rfl)
    · split
      · exact .pure _
      · exact ih _ _

theorem located_size : Located own size := by
  refine .anchored (located_byte _) (hungry_byte _) fun start b => ?_
  split
  · exact .pure _
  · exact located_sizeGroups _ _ _ _ _

theorem located_nullable : Located own nullable := by
  refine .anchored (located_byte _) (hungry_byte _) fun start b => ?_
  split
  · exact .pure _
  · split
    · exact (located_sizeGroups _ _ _ _ _).map _
    · split
      · exact .pure _
      · exact .fail nofun (.inr rfl)

theorem located_nullableSize : Located own nullableSize := located_nullable.map _

theorem located_itemCount : Located own itemCount := by
  refine .anchored located_size hungry_size fun start n => (Located.limits _).bind fun limit => ?_
  split
  · exact .pure _
  · exact .fail nofun (.inr rfl)

theorem located_textBytes : Located own textBytes := by
  refine .anchored located_nullableSize hungry_nullableSize fun start n =>
    (Located.limits _).bind fun limit => ?_
  split
  · exact .pure _
  · split
    · exact located_buffer _ _
    · exact .fail nofun (.inr rfl)

theorem located_text : Located own text := by
  refine .anchored located_textBytes hungry_textBytes fun start bs => ?_
  split
  · exact .pure _
  · exact .fail nofun (.inr rfl)

theorem located_ticks : Located own ticks := (located_numberAs _ _).map _

theorem located_millis : Located own millis := located_ticks.map _

theorem located_instant : Located own instant := by
  refine located_ticks.bind fun t => ?_
  split
  · exact .pure _
  · exact .fail nofun (.inl rfl)

theorem located_payload (m : Variant.Marker) : Located own (payload m) := by
  cases m with
  | bool => exact located_bool.map _
  | byte | short | int | long | type => exact (located_numberAs _ _).map _
  | float => exact located_float32.map _
  | double => exact located_float64.map _
  | size => exact located_size.map _
  | nullableSize | endpoint => exact located_nullableSize.map _
  | text => exact located_text.map _
  | uuid => exact located_octets.map _

theorem located_variant : Located own variant := by
  refine .anchored (located_byte _) (hungry_byte _) fun start b => ?_
  split
  · exact located_payload _
  · exact .fail nofun (.inr rfl)

end Reader

theorem TypedRead.located {own : Option Nat} {β : Type} {x : Reading β} (h : TypedRead x) :
    Located own x := by
  cases h with
  | position => exact .position
  | limits g => exact .limits g
  | bytes op n => exact .bytes op n
  | buffer op n => exact Reader.located_buffer op n
  | byte op => exact Reader.located_byte op
  | bool => exact Reader.located_bool
  | number op k => exact Reader.located_numberAs op k
  | float32 => exact Reader.located_float32
  | float64 => exact Reader.located_float64
  | octets => exact Reader.located_octets
  | size => exact Reader.located_size
  | nullable => exact Reader.located_nullable
  | nullableSize => exact Reader.located_nullableSize
  | itemCount => exact Reader.located_itemCount
  | textBytes => exact Reader.located_textBytes
  | text => exact Reader.located_text
  | ticks => exact Reader.located_ticks
  | millis => exact Reader.located_millis
  | instant => exact Reader.located_instant
  | variant => exact Reader.located_variant

end TagWire
