import TagWire.Proofs.Stream.Anywhere
import TagWire.Proofs.Wire.Script
import TagWire.Schema.Scalar

/-! Typed reads and writes at any place in a stream. Only their errors tell where they stand, and
these count from there. -/
namespace TagWire

/-! ### Writing -/

namespace Writer

theorem anywhere_numberAs (op : String) {k : IntKind} (x : Num k) : Anywhere (numberAs op x) := by
  by_cases h : k.wire.Fits x.val
  · exact .of_emits (emits_numberAs op h)
  · rw [numberAs, if_neg h]
    exact .fail rfl

theorem anywhere_millis (m : Int) : Anywhere (millis m) := by
  unfold millis
  split
  · exact anywhere_numberAs _ _
  · exact .fail rfl

theorem anywhere_payload (v : Variant) : Anywhere (payload v) := by
  cases v with
  | byte x | short x | int x | long x | type x => exact anywhere_numberAs _ x
  | bool b => exact .of_emits (emits_bool b)
  | float bits => exact .of_emits (emits_float32 bits)
  | double bits => exact .of_emits (emits_float64 bits)
  | size x => exact .of_emits (emits_size _)
  | nullableSize x | endpoint x => exact .of_emits (emits_nullableSize _)
  | text s => exact .of_emits (emits_text s)
  | uuid o => exact .of_emits (emits_octets o)

theorem anywhere_variant (v : Variant) : Anywhere (variant v) :=
  .bind (.of_emits (emits_bytes _ _)) fun _ => .bind (anywhere_payload v) fun _ => .pure _

end Writer

theorem Scalar.anywhere_write (s : Scalar) (x : s.Carrier) : Writer.Anywhere (s.write x) := by
  cases s with
  | bool => exact .of_emits (Writer.emits_bool x)
  | int k => exact Writer.anywhere_numberAs _ x
  | float32 => exact .of_emits (Writer.emits_float32 x)
  | float64 => exact .of_emits (Writer.emits_float64 x)
  | text => exact .of_emits (Writer.emits_text x)
  | uuid | octets => exact .of_emits (Writer.emits_octets x)
  | time => exact Writer.anywhere_millis _
  | variant => exact Writer.anywhere_variant x

/-! ### Reading -/

namespace Reader

variable {L : Limits} {n : Nat}

theorem anywhere_buffer (op : String) (k : Nat) : Anywhere (buffer op k) := by
  unfold buffer
  split
  · exact anywhere_bytes op k
  · exact .fail rfl

theorem anywhere_byte (op : String) : Anywhere (byte op) := (anywhere_bytes op 1).map _

theorem anywhere_bool : Anywhere bool := by
  refine (anywhere_byte _).anchored fun L n start b => ?_
  split
  · exact .pure _
  · split
    · exact .pure _
    · exact .fail rfl

theorem anywhere_numberAs (op : String) (k : IntKind) : Anywhere (numberAs op k) :=
  (anywhere_bytes op _).map _

theorem anywhere_float32 : Anywhere float32 := (anywhere_bytes _ _).map _

theorem anywhere_float64 : Anywhere float64 := (anywhere_bytes _ _).map _

theorem anywhere_octets : Anywhere octets := (anywhere_bytes _ _).map _

theorem follows_sizeGroups (op : String) (start groups weight sum : Nat) :
    Follows (Ahead L n) (Except.mapError (.onward n)) (sizeGroups op start groups weight sum)
      (sizeGroups op (n + start) groups weight sum) := by
  induction groups generalizing weight sum with
  | zero => exact .fail rfl
  | succ groups ih =>
    refine (anywhere_byte op L n).bind fun b => ?_
    dsimp only
    split
    · exact .fail rfl
    · split
      · exact .pure _
      · exact ih _ _

theorem anywhere_size : Anywhere size := by
  refine (anywhere_byte _).anchored fun L n start b => ?_
  split
  · exact .pure _
  · exact follows_sizeGroups _ _ _ _ _

theorem anywhere_nullable : Anywhere nullable := by
  refine (anywhere_byte _).anchored fun L n start b => ?_
  split
  · exact .pure _
  · split
    · exact (follows_sizeGroups _ _ _ _ _).map _
    · split
      · exact .pure _
      · exact .fail rfl

theorem anywhere_nullableSize : Anywhere nullableSize := anywhere_nullable.map _

theorem anywhere_itemCount : Anywhere itemCount := by
  refine anywhere_size.anchored fun L n start count => ?_
  refine (Anywhere.limits _ L n).bind fun limit => ?_
  split
  · exact .pure _
  · exact .fail rfl

theorem anywhere_textBytes : Anywhere textBytes := by
  refine anywhere_nullableSize.anchored fun L n start count => ?_
  refine (Anywhere.limits _ L n).bind fun limit => ?_
  split
  · exact .pure _
  · split
    · exact anywhere_buffer _ _ L n
    · exact .fail rfl

theorem anywhere_text : Anywhere text := by
  refine anywhere_textBytes.anchored fun L n start bs => ?_
  split
  · exact .pure _
  · exact .fail rfl

theorem anywhere_ticks : Anywhere ticks := (anywhere_numberAs _ _).map _

theorem anywhere_millis : Anywhere millis := anywhere_ticks.map _

theorem anywhere_instant : Anywhere instant := by
  refine anywhere_ticks.bind fun t => ?_
  split
  · exact .pure _
  · exact .fail rfl

theorem anywhere_payload (m : Variant.Marker) : Anywhere (payload m) := by
  cases m with
  | bool => exact anywhere_bool.map _
  | byte | short | int | long | type => exact (anywhere_numberAs _ _).map _
  | float => exact anywhere_float32.map _
  | double => exact anywhere_float64.map _
  | size => exact anywhere_size.map _
  | nullableSize | endpoint => exact anywhere_nullableSize.map _
  | text => exact anywhere_text.map _
  | uuid => exact anywhere_octets.map _

theorem anywhere_variant : Anywhere variant := by
  refine (anywhere_byte _).anchored fun L n start b => ?_
  split
  · exact anywhere_payload _ L n
  · exact .fail rfl

end Reader

/-! ### Scripts -/

namespace Run

variable {α β : Type} {L : Limits} {n : Nat} {next next' : β → Run α}

theorem follows_done (count : Nat) (a : α) :
    Follows (Reader.Ahead L n) (InPlace.onError (.onward n)) (done (.ok count) a)
      (done (.ok count) a) := fun _ _ hr => ⟨rfl, hr⟩

theorem follows_read {x : Reading β} (hx : Reader.Anywhere x) (half : Error → α)
    (hhalf : ∀ e, half (e.onward n) = half e)
    (h : ∀ v, Follows (Reader.Ahead L n) (InPlace.onError (.onward n)) (next v) (next' v)) :
    Follows (Reader.Ahead L n) (InPlace.onError (.onward n)) (read x half next)
      (read x half next') := by
  intro r r' hr
  obtain ⟨r₂, hy, hr₁⟩ := (hx L n).run hr
  unfold read
  rw [hy]
  rcases h₁ : x r with ⟨e | v, r₁⟩
  · rw [h₁] at hr₁
    exact ⟨congrArg (Prod.mk _) (hhalf e), hr₁⟩
  · rw [h₁] at hr₁
    exact h v r₁ r₂ hr₁

theorem follows_position (half : Error → α) {next next' : Nat → Run α}
    (h : ∀ start,
      Follows (Reader.Ahead L n) (InPlace.onError (.onward n)) (next start) (next' (n + start))) :
    Follows (Reader.Ahead L n) (InPlace.onError (.onward n)) (read Reader.position half next)
      (read Reader.position half next') := by
  rintro r _ ⟨hl, hp, rfl⟩
  exact h r.offset r _ ⟨hl, hp, rfl⟩

end Run

theorem Scalar.anywhere_read (s : Scalar) : Reader.Anywhere s.read := by
  cases s with
  | bool => exact Reader.anywhere_bool
  | int k => exact Reader.anywhere_numberAs _ k
  | float32 => exact Reader.anywhere_float32
  | float64 => exact Reader.anywhere_float64
  | text => exact Reader.anywhere_text
  | uuid | octets => exact Reader.anywhere_octets
  | time => exact Reader.anywhere_instant
  | variant => exact Reader.anywhere_variant

end TagWire
