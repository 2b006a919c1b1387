import TagWire.Proofs.Codec.Whole
import TagWire.Proofs.Uuid.Grammar
import TagWire.Sample.Schema

/-! The codec of UUIDs. A field may hold sixteen bytes as they are, as a sequence or as text; all
stand for the same on the wire. Of texts it takes those of thirty-two digits, of sequences those of
sixteen bytes, and declines the others before it writes. -/
namespace TagWire.Codec

variable {S : Schema} {t : Shape} {L : Limits} {o : Octets}

open Datum (byteSequence)
open Octets (IsDigits IsUrn Spelling hyphenate)

def uuidShapes : List Shape := [.scalar .uuid, .scalar .octets, byteSequence, .scalar .text]

/-- The value of a field that holds the sixteen bytes. -/
inductive Represents (o : Octets) : {t : Shape} → Datum S t → Prop
  | uuid : Represents o (.scalar (s := .uuid) o)
  | octets : Represents o (.scalar (s := .octets) o)
  | bytes {d : Datum S byteSequence} (h : d.toBytes = o.bytes) : Represents o d
  | text : Represents o (.scalar (s := .text) o.hyphenated)

theorem exists_represents (o : Octets) (ht : t ∈ uuidShapes) :
    ∃ d : Datum S t, Represents o d ∧ putUuid o (.initial t) = .ok d := by
  simp only [uuidShapes, List.mem_cons, List.not_mem_nil, or_false] at ht
  rcases ht with rfl | rfl | rfl | rfl
  · exact ⟨_, .uuid, rfl⟩
  · exact ⟨_, .octets, rfl⟩
  · exact ⟨_, .bytes (Datum.toBytes_ofBytes _), rfl⟩
  · exact ⟨_, .text, rfl⟩

theorem sends_uuid {d : Datum S t} (h : uuidOf d = .ok o) : uuid.Sends d o.bytes := by
  have he : Emits (uuid.encode d) o.bytes.length o.bytes := by
    rw [encode_uuid_of_ok h]
    exact Writer.emits_octets o
  exact Builtin.sends_of_emits (b := .uuid) he

theorem declines_uuid {d : Datum S t} {e : Error} (h : uuidOf d = .error e) :
    uuid.Declines d e := by
  intro w
  rw [encode_uuid_of_error h]
  rfl

theorem receives_uuid {d d₀ : Datum S t} (h : putUuid o d₀ = .ok d) :
    uuid.Receives L o.bytes d := by
  have ht : Takes L ((uuid : Codec S).fresh t) o.bytes d := by
    rw [fresh, produce_uuid]
    refine (Reader.takes_octets o).bind_nil ?_
    rw [putUuid_congr o _ d₀, h]
    exact Takes.pure d
  exact Builtin.receives_of_takes (b := .uuid) ht

theorem uuidOf_text_of_some {text : String} (h : Octets.parse? text = some o) :
    uuidOf (.scalar (s := .text) text : Datum S _) = .ok o := by
  simp only [uuidOf, h]

theorem uuidOf_text_of_none {text : String} (h : Octets.parse? text = none) :
    uuidOf (.scalar (s := .text) text : Datum S _) = .error .invalidUuid := by
  simp only [uuidOf, h]

theorem uuidOf_bytes (d : Datum S byteSequence) : uuidOf d =
    if h : d.toBytes.length = 16 then .ok ⟨d.toBytes, h⟩ else .error .invalidUuid := by
  simp only [uuidOf, Octets.ofList?]
  split_ifs <;> rfl

theorem eq_invalidUuid_of_uuidOf (ht : t ∈ uuidShapes) {d : Datum S t} {e : Error}
    (h : uuidOf d = .error e) : e = .invalidUuid := by
  simp only [uuidShapes, List.mem_cons, List.not_mem_nil, or_false] at ht
  rcases ht with rfl | rfl | rfl | rfl
  · cases d
    cases h
  · cases d
    cases h
  · rw [uuidOf_bytes] at h
    split at h <;> cases h
    rfl
  · cases d with
    | scalar text =>
      cases hp : Octets.parse? text with
      | none =>
        rw [uuidOf_text_of_none hp] at h
        cases h
        rfl
      | some o =>
        rw [uuidOf_text_of_some hp] at h
        cases h

/-- The representations of a UUID agree. Sixteen bytes are read into a field of each shape as the
value that holds them, and are written of it. A text is written where it is one of thirty-two
digits, as the bytes that these spell, which are read as the same digits, small and in groups; and
a sequence where it is of sixteen bytes. Whatever else is in a field of these shapes is declined for
one reason. -/
theorem uuid_representations_agree :
    (∀ o : Octets, ∀ t ∈ uuidShapes, ∃ d : Datum S t,
      Represents o d ∧ (∀ L, uuid.Receives L o.bytes d) ∧ uuid.Sends d o.bytes) ∧
    (∀ text : String,
      (∀ digits, IsDigits digits → Spelling IsUrn digits text.toList → ∃ o : Octets,
        o.SpelledBy digits ∧ uuid.Sends (.scalar (s := .text) text : Datum S _) o.bytes ∧
        (∀ L, uuid.Receives L o.bytes (.scalar (s := .text) o.hyphenated : Datum S _)) ∧
        o.hyphenated.toList = hyphenate (digits.map Char.toLower) ∧
        uuid.Sends (.scalar (s := .text) o.hyphenated : Datum S _) o.bytes) ∧
      ((∀ digits, IsDigits digits → ¬ Spelling IsUrn digits text.toList) →
        uuid.Declines (.scalar (s := .text) text : Datum S _) .invalidUuid)) ∧
    (∀ d : Datum S byteSequence,
      (d.toBytes.length = 16 → uuid.Sends d d.toBytes) ∧
      (d.toBytes.length ≠ 16 → uuid.Declines d .invalidUuid)) ∧
    ∀ t ∈ uuidShapes, ∀ d : Datum S t,
      (∃ o : Octets, uuid.Sends d o.bytes) ∨ uuid.Declines d .invalidUuid := by
  refine ⟨fun o t ht => ?_, fun text => ⟨fun digits hdigits hs => ?_, fun hnone => ?_⟩,
    fun d => ⟨fun hlen => ?_, fun hlen => ?_⟩, fun t ht d => ?_⟩
  · obtain ⟨d, hd, hput⟩ := exists_represents (S := S) o ht
    exact ⟨d, hd, fun L => receives_uuid hput, sends_uuid (uuidOf_putUuid hput)⟩
  · obtain ⟨o, ho⟩ := Octets.exists_spelledBy hdigits
    have hparse := Octets.parse?_eq_some_iff.2 ⟨digits, ho, hs⟩
    have hput : putUuid o (.initial (.scalar .text) : Datum S _) = .ok (.scalar o.hyphenated) := rfl
    exact ⟨o, ho, sends_uuid (uuidOf_text_of_some hparse), fun L => receives_uuid hput,
      ho.toList_hyphenated, sends_uuid (uuidOf_putUuid hput)⟩
  · apply declines_uuid
    apply uuidOf_text_of_none
    rw [Option.eq_none_iff_forall_ne_some]
    intro o ho
    obtain ⟨digits, hspell, hs⟩ := Octets.parse?_eq_some_iff.1 ho
    exact hnone digits hspell.isDigits hs
  · have ho := uuidOf_bytes d
    rw [dif_pos hlen] at ho
    exact sends_uuid ho
  · have ho := uuidOf_bytes d
    rw [dif_neg hlen] at ho
    exact declines_uuid ho
  · cases h : uuidOf d with
    | ok o => exact .inl ⟨o, sends_uuid h⟩
    | error e =>
      obtain rfl := eq_invalidUuid_of_uuidOf ht h
      exact .inr (declines_uuid h)

theorem uuid_representations_agree_braced :
    ∃ o : Octets, o.SpelledBy "550E8400E29B41D4A716446655440000".toList ∧
      uuid.Sends (.scalar (s := .text) "\x7b550E8400-E29B-41D4-A716-446655440000\x7d" :
        Datum Sample.schema _) o.bytes ∧
      uuid.Sends (.scalar (s := .text) "550e8400-e29b-41d4-a716-446655440000" :
        Datum Sample.schema _) o.bytes := by
  have htexts := (uuid_representations_agree (S := Sample.schema)).2.1
  have hbraced := (htexts "\x7b550E8400-E29B-41D4-A716-446655440000\x7d").1
  obtain ⟨o, ho, hsent, -, htext, hagain⟩ :=
    hbraced "550E8400E29B41D4A716446655440000".toList (by decide) .braced
  have hsmall : o.hyphenated = "550e8400-e29b-41d4-a716-446655440000" :=
    String.toList_inj.1 (htext.trans (by decide))
  exact ⟨o, ho, hsent, hsmall ▸ hagain⟩

/-- The name of the space in letters of one case. -/
def IsUniformUrn (name : List Char) : Prop :=
  name = "urn:uuid:".toList ∨ name = "URN:UUID:".toList

/-- The name is compared without regard to case, and one of mixed letters is taken too. -/
theorem uuid_sends_mixed_urn :
    uuid.Sends (.scalar (s := .text) "Urn:uuid:550e8400-e29b-41d4-a716-446655440000" :
        Datum Sample.schema _)
      [0x55, 0x0e, 0x84, 0x00, 0xe2, 0x9b, 0x41, 0xd4, 0xa7, 0x16, 0x44, 0x66, 0x55, 0x44, 0, 0] ∧
    ∀ digits, IsDigits digits →
      ¬ Spelling IsUniformUrn digits "Urn:uuid:550e8400-e29b-41d4-a716-446655440000".toList := by
  constructor
  · exact sends_uuid (o := ⟨[0x55, 0x0e, 0x84, 0x00, 0xe2, 0x9b, 0x41, 0xd4, 0xa7, 0x16, 0x44, 0x66,
      0x55, 0x44, 0, 0], rfl⟩) (uuidOf_text_of_some (by decide +kernel))
  · intro digits hdigits hs
    have hgroups := Octets.length_hyphenate hdigits.1
    generalize htext : "Urn:uuid:550e8400-e29b-41d4-a716-446655440000".toList = cs at hs
    have hlen : cs.length = 45 := htext ▸ by decide
    have hfirst : cs.take 9 = "Urn:uuid:".toList := htext ▸ by decide
    cases hs with
    | plain =>
      have := hdigits.1
      omega
    | grouped => omega
    | braced =>
      simp only [List.length_cons, List.length_append, List.length_nil] at hlen
      omega
    | named name hname =>
      rcases hname with rfl | rfl <;> simp at hfirst

end TagWire.Codec
