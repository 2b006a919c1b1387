import TagWire.Decoding
import TagWire.Proofs.Codec.Laws
import TagWire.Proofs.Lockstep

/-! Own codecs. The codec that is built in for a scalar type writes and reads the bytes that a field
of the type has without a codec, though integers go through a wider type on their way and unsigned
ones through signed ones. -/
namespace TagWire

variable {S : Schema} {P Q : Set Error} {α β : Type}

def Writer.Full (w : Writer) : Prop := w.sink.room = some 0

namespace Terms

def writing : Terms EncodeState Writer := ⟨EncodeState.writer, Writer.Full⟩

def reading : Terms DecodeState Reader := ⟨DecodeState.reader, fun _ => True⟩

end Terms

namespace Lockstep

variable {R : α → β → Prop}

theorem write {x : Writing α} {y : Writing β} (h : Lockstep ⟨id, Writer.Full⟩ P Q R x y) :
    Lockstep .writing P Q R (Encoding.write x) (Encoding.write y) := h.within fun _ _ => rfl

theorem read {x : Reading α} {y : Reading β} (h : Lockstep ⟨id, fun _ => True⟩ P Q R x y) :
    Lockstep .reading P Q R (Decoding.read x) (Decoding.read y) := h.within fun _ _ => rfl

end Lockstep

theorem Writer.lockstep_bytes (op op' : String) (piece : List UInt8) :
    Lockstep ⟨id, Full⟩ P Q Eq (bytes op piece) (bytes op' piece) := by
  refine Lockstep.of_alike fun w u hw => ?_
  obtain rfl : w = u := hw
  obtain ⟨⟨taken, room⟩, offset⟩ := w
  by_cases h : ∀ n ∈ room, piece.length ≤ n
  · rw [bytes_of_fits h, bytes_of_fits h]
    exact ⟨.ok rfl, rfl⟩
  · push Not at h
    obtain ⟨n, hn, hlt⟩ := h
    cases hn
    rw [bytes_of_full hlt, bytes_of_full hlt]
    exact ⟨.io op op' offset .full rfl, rfl⟩

theorem Reader.lockstep_bytes (op op' : String) (n : Nat) :
    Lockstep ⟨id, fun _ => True⟩ P Q Eq (bytes op n) (bytes op' n) := by
  refine Lockstep.of_alike fun r u hr => ?_
  obtain rfl : r = u := hr
  unfold bytes
  dsimp only
  rcases Source.fill (n - (r.pushback.take n).length) r.source with ⟨cause | back, source⟩
  · exact ⟨.io op op' r.offset cause trivial, rfl⟩
  · exact ⟨.ok rfl, rfl⟩

section Integers

variable {k w : IntKind} (hk : k.wire = k) (hw : w.wire = w) (hwidth : k.width = w.width)

include hk hw hwidth

theorem Writer.lockstep_numberAs (op op' : String) (n : Num k) :
    Lockstep ⟨id, Full⟩ P Q Eq (numberAs op n) (numberAs op' (w.wrap n.val)) := by
  have hpattern : n.pattern = (w.wrap n.val).pattern := by
    rw [Num.pattern, Num.pattern, IntKind.wrap_emod, IntKind.count, IntKind.count, hwidth]
  unfold numberAs
  rw [hk, hw, if_pos n.fits, if_pos (w.wrap n.val).fits, IntKind.wrap_val, IntKind.wrap_val,
    hwidth, hpattern]
  exact lockstep_bytes op op' _

theorem Reader.lockstep_numberAs (op op' : String) :
    Lockstep ⟨id, fun _ => True⟩ P Q (fun n m => n = k.wrap m.val) (numberAs op k)
      (numberAs op' w) := by
  unfold numberAs
  rw [hk, hw, hwidth]
  refine (lockstep_bytes op op' _).bind fun bs cs hbs => ?_
  subst hbs
  apply Lockstep.pure
  rw [IntKind.wrap_val, IntKind.wrap_val, IntKind.wrap_wrap hwidth.le]

end Integers

namespace Scalar

/-- The built-in codec for the values of a type in their generic form, and a name of it. -/
def own? : Scalar → Option (String × Builtin)
  | bool => some ("bool", .bool)
  | int .u8 | int .i8 => some ("byte", .byte)
  | int .i16 => some ("int16", .short)
  | int .u16 => some ("uint16", .short)
  | int .i32 => some ("int32", .int)
  | int .u32 => some ("uint32", .int)
  | int .i64 => some ("int64", .long)
  | int .u64 => some ("uint64", .long)
  | float64 => some ("double", .double)
  | text => some ("string", .string)
  | uuid | octets => some ("uuid", .uuid)
  | time => some ("time", .time)
  | int .usize | int .isize | float32 | variant => none

variable {s : Scalar} {name : String} {b : Builtin}

theorem exists_fixed {k : IntKind} (h : (int k).own? = some (name, b)) :
    ∃ (first : String) (w : IntKind) (op : String), (b.codec : Codec S) = .fixed first w op ∧
      k.wire = k ∧ w.wire = w ∧ k.width = w.width := by
  cases k <;> cases h <;> exact ⟨_, _, _, rfl, rfl, rfl, rfl⟩

theorem lockstep_write (h : s.own? = some (name, b)) (x : s.Carrier) :
    Lockstep ⟨id, Writer.Full⟩ P Q Eq (s.write x)
      (b.codec.encode (Datum.scalar (S := S) x)) := by
  cases s with
  | int k =>
    obtain ⟨first, w, op, hb, hk, hw, hwidth⟩ := exists_fixed (S := S) h
    rw [hb]
    exact Writer.lockstep_numberAs hk hw hwidth k.op op x
  | float32 | variant => cases h
  | bool | float64 | text | uuid | octets | time =>
    cases h
    exact Lockstep.same _

theorem lockstep_read (h : s.own? = some (name, b)) :
    Lockstep ⟨id, fun _ => True⟩ P Q Eq (Datum.scalar (S := S) <$> s.read)
      (b.codec.fresh (.scalar s)) := by
  cases s with
  | int k =>
    obtain ⟨first, w, op, hb, hk, hw, hwidth⟩ := exists_fixed (S := S) h
    rw [hb, Codec.fresh, Codec.fixed, Codec.integer, Codec.produce_ofViews, Codec.readView,
      bind_map_left]
    refine (Reader.lockstep_numberAs hk hw hwidth k.op op).bind fun n m hn => ?_
    subst hn
    exact Lockstep.pure rfl
  | float32 | variant => cases h
  | bool =>
    cases h
    rw [Codec.fresh, Builtin.codec, Codec.bool, Codec.produce_ofViews]
    exact Lockstep.same _
  | float64 =>
    cases h
    rw [Codec.fresh, Builtin.codec, Codec.float, Codec.produce_ofViews]
    exact Lockstep.same _
  | text =>
    cases h
    rw [Builtin.codec, Codec.fresh_string]
    exact Lockstep.same _
  | uuid | octets =>
    cases h
    rw [Codec.fresh, Builtin.codec, Codec.produce_uuid]
    exact Lockstep.same _
  | time =>
    cases h
    rw [Builtin.codec, Codec.fresh_time]
    exact Lockstep.same _

end Scalar

end TagWire
