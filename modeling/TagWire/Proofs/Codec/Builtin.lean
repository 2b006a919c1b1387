import TagWire.Proofs.Schema.Scalar
import TagWire.Registry

/-! The built-in codecs one by one. For each this says what becomes of a value that goes over the
wire through it; the registry of built-in codecs holds no others. -/
namespace TagWire

inductive Builtin
  | bool | byte | type | short | int | long | float | double | string | nullSize | size | uuid
  | time
  deriving DecidableEq

namespace Builtin

def all : List Builtin :=
  [bool, byte, type, short, int, long, float, double, string, nullSize, size, uuid, time]

variable {S : Schema}

def codec : Builtin → Codec S
  | bool => .bool
  | byte => .fixed "byte" .u8 "byte"
  | type => .fixed "type" .u8 "type"
  | short => .fixed "short" .i16 "int16"
  | int => .fixed "int" .i32 "int32"
  | long => .fixed "long" .i64 "int64"
  | float => .float "float" (Writer.float32 ∘ Float.narrow) (Float.widen <$> Reader.float32)
  | double => .float "double" Writer.float64 Reader.float64
  | string => .string
  | nullSize => .integer "null-size" (fun x => Writer.nullableSize (IntKind.u64.wrap x).pattern)
      (Int.ofNat <$> Reader.nullableSize)
  | size => .integer "size" (fun x => Writer.size (IntKind.u64.wrap x).pattern)
      (Int.ofNat <$> Reader.size)
  | uuid => .uuid
  | time => .time

def ofCodec? (c : Codec S) : Option Builtin := all.find? fun b => (b.codec (S := S)).name == c.name

theorem ofCodec?_codec (b : Builtin) : ofCodec? (b.codec (S := S)) = some b := by
  cases b <;> rfl

theorem codec_injective : Function.Injective (codec (S := S)) := by
  intro b b' h
  have hfound := ofCodec?_codec (S := S) b
  rw [h, ofCodec?_codec] at hfound
  exact (Option.some.inj hfound).symm

theorem exists_of_mem_builtins {e : List String × Codec S} (h : e ∈ Codec.builtins) :
    ∃ b : Builtin, e.2 = b.codec := by
  have hm : Codec.builtins.map Prod.snd = all.map (codec (S := S)) := rfl
  have he := List.mem_map_of_mem (f := Prod.snd) h
  rw [hm, List.mem_map] at he
  obtain ⟨b, _, hb⟩ := he
  exact ⟨b, hb.symm⟩

def kind? : Builtin → Option IntKind
  | byte | type => some .u8
  | short => some .i16
  | int => some .i32
  | long => some .i64
  | nullSize | size => some .u64
  | _ => none

def Exact (b : Builtin) : Prop := b ≠ float ∧ b ≠ double

instance (b : Builtin) : Decidable b.Exact := inferInstanceAs (Decidable (_ ∧ _))

/-- What becomes of a scalar on its way through an exact codec. Integers are cut to the numbers that
the codec carries, the text of a UUID is spelled anew, and the others lose no more than they do
without a codec. -/
def convertScalar (b : Builtin) : (s : Scalar) → s.Carrier → s.Carrier
  | .int k, n => match b, b.kind? with
    | bool, _ => k.wrap (if n.val = 0 then 0 else 1)
    | _, some w => k.wrap (w.wrap n.val).val
    | _, none => n
  | .text, s => match b, Octets.parse? s with
    | uuid, some o => o.hyphenated
    | _, _ => s
  | s, x => s.carried x

def convert (b : Builtin) : {t : Shape} → Datum S t → Datum S t
  | .scalar s, .scalar x => .scalar (b.convertScalar s x)
  | _, d => d

/-- Whether all text that the codec writes for the value is read. -/
def Within (L : Limits) : Builtin → {t : Shape} → Datum S t → Prop
  | string, .scalar .text, .scalar s => L.AdmitsText (Text.utf8 s).length
  | string, .sequence (.scalar (.int .u8)), d => L.AdmitsText d.toBytes.length
  | _, _, _ => True

instance (L : Limits) (b : Builtin) {t : Shape} (d : Datum S t) : Decidable (b.Within L d) := by
  unfold Within
  split <;> infer_instance

end Builtin

namespace Registry

variable {S : Schema}

theorem of_find?_insertAll {R : Registry S} {keys : List String} {c e : Codec S} {key : String}
    (h : (R.insertAll keys c).find? key = some e) : e = c ∨ R.find? key = some e := by
  induction keys generalizing R with
  | nil => exact .inr h
  | cons k keys ih =>
    rcases ih (R := R.insert k c) h with rfl | h
    · exact .inl rfl
    · rw [find?_insert] at h
      split at h
      · cases h
        exact .inl rfl
      · exact .inr h

theorem of_find?_foldl {P : Codec S → Prop} {es : List (List String × Codec S)}
    (hes : ∀ e ∈ es, P e.2) {R : Registry S} (hR : ∀ key c, R.find? key = some c → P c)
    {key : String} {c : Codec S}
    (h : (es.foldl (fun R e => R.insertAll e.1 e.2) R).find? key = some c) : P c := by
  induction es generalizing R with
  | nil => exact hR key c h
  | cons e es ih =>
    refine ih (fun e he => hes e (List.mem_cons_of_mem _ he)) (fun key c hc => ?_) h
    rcases of_find?_insertAll hc with rfl | hc
    · exact hes _ List.mem_cons_self
    · exact hR key c hc

theorem lookup_builtins {name : String} {c : Codec S}
    (h : Registry.builtins.lookup name = .ok c) : ∃ b : Builtin, c = b.codec := by
  have hf : ∀ {key c}, (Registry.builtins (S := S)).find? key = some c →
      ∃ b : Builtin, c = b.codec := fun hc =>
    of_find?_foldl (P := fun c => ∃ b : Builtin, c = b.codec)
      (fun e he => Builtin.exists_of_mem_builtins he) (fun _ _ h => by cases h) hc
  unfold lookup at h
  dsimp only at h
  split at h
  · next c' hc =>
    cases h
    rw [Option.orElse_eq_orElse, Option.orElse_eq_or, Option.or_eq_some_iff] at hc
    rcases hc with hc | ⟨_, hc⟩
    · exact hf hc
    · exact hf hc
  · cases h

end Registry

end TagWire
