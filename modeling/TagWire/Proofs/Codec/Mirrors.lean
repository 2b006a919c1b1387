import TagWire.Proofs.Codec.Direct
import TagWire.Proofs.Lockstep
import TagWire.Proofs.Registrations
import TagWire.Proofs.Retag

/-! Codecs and new tags. No built-in codec knows the tags of a schema: on the schema with new tags
it writes the same bytes for the same values, and reads the same values. -/
namespace TagWire

variable {S : Schema} {tag : Nat → Nat → String} {t : Shape} {α : Type}

namespace Datum

theorem toBytes_retag (d : Datum S byteSequence) : (d.retag tag).toBytes = d.toBytes := by
  unfold toBytes
  rw [items_retag, List.map_map]
  refine List.map_congr_left fun item _ => ?_
  cases item
  rfl

theorem retag_ofBytes (bs : List UInt8) :
    (ofBytes bs : Datum S byteSequence).retag tag = ofBytes bs := by
  rw [ofBytes, retag_ofArray, List.map_toArray, List.map_map]
  rfl

end Datum

namespace Codec

/-- What a codec does with the values of a schema the other one does with the same values under new
tags. -/
structure Mirrors (c : Codec S) (c' : Codec (S.retag tag)) : Prop where
  encode : ∀ {t : Shape} (d : Datum S t), c'.encode (d.retag tag) = c.encode d
  decode : ∀ {t : Shape} (d : Datum S t), InPlace.produce c'.decode (d.retag tag) =
    Datum.retag tag <$> InPlace.produce c.decode d

theorem unsupported_retag (name : String) (t : Shape) :
    unsupported name (S.retag tag) t = unsupported name S t :=
  congrArg (Error.unsupportedTarget name) (Schema.typeName_retag t)

theorem fail_unsupported_retag {σ α : Type} (name : String) (t : Shape) :
    (.fail (unsupported name (S.retag tag) t) : Attempt Error σ α) = .fail (unsupported name S t) :=
  congrArg Attempt.fail (unsupported_retag name t)

section Views

variable {name : String} {find : {t : Shape} → Datum S t → Option α}
  {put : α → {t : Shape} → Datum S t → Option (Datum S t)}
  {find' : {t : Shape} → Datum (S.retag tag) t → Option α}
  {put' : α → {t : Shape} → Datum (S.retag tag) t → Option (Datum (S.retag tag) t)}
  {write : α → Writing Nat} {read : Reading α}

theorem mirrors_ofViews (hfind : ∀ {t : Shape} (d : Datum S t), find' (d.retag tag) = find d)
    (hput : ∀ {t : Shape} (a : α) (d : Datum S t),
      put' a (d.retag tag) = (put a d).map (Datum.retag tag)) :
    (ofViews name find put write read).Mirrors (ofViews name find' put' write read) where
  encode {t} d := by
    simp only [ofViews, hfind, unsupported_retag]
  decode {t} d := by
    rw [produce_ofViews, produce_ofViews, readView, readView, map_bind]
    refine bind_congr fun a => ?_
    rw [hput]
    cases put a d with
    | none => exact fail_unsupported_retag name t
    | some d' => rfl

end Views

end Codec

namespace Datum

theorem truth?_retag (d : Datum S t) : (d.retag tag).truth? = d.truth? := by
  cases d with
  | @scalar s x => cases s <;> rfl
  | _ => rfl

theorem putTruth?_retag (b : Bool) (d : Datum S t) :
    putTruth? b (d.retag tag) = (putTruth? b d).map (Datum.retag tag) := by
  cases d with
  | @scalar s x => cases s <;> rfl
  | _ => rfl

theorem integer?_retag (d : Datum S t) : (d.retag tag).integer? = d.integer? := by
  cases d with
  | @scalar s x => cases s <;> rfl
  | _ => rfl

theorem putInteger?_retag (x : Int) (d : Datum S t) :
    putInteger? x (d.retag tag) = (putInteger? x d).map (Datum.retag tag) := by
  cases d with
  | @scalar s x => cases s <;> rfl
  | _ => rfl

theorem double?_retag (d : Datum S t) : (d.retag tag).double? = d.double? := by
  cases d with
  | @scalar s x => cases s <;> rfl
  | _ => rfl

theorem putDouble?_retag (x : UInt64) (d : Datum S t) :
    putDouble? x (d.retag tag) = (putDouble? x d).map (Datum.retag tag) := by
  cases d with
  | @scalar s x => cases s <;> rfl
  | _ => rfl

end Datum

namespace Codec

theorem encode_string_retag (d : Datum S t) :
    string.encode (d.retag tag) = string.encode d := by
  cases d with
  | @scalar s x =>
    cases s with
    | text => rfl
    | _ => exact fail_unsupported_retag _ _
  | @sequence t n item =>
    cases t with
    | scalar s =>
      cases s with
      | int k =>
        cases k with
        | u8 => exact congrArg Writer.textBytes (Datum.toBytes_retag (.sequence n item))
        | _ => exact fail_unsupported_retag _ _
      | _ => exact fail_unsupported_retag _ _
    | _ => exact fail_unsupported_retag _ _
  | _ => exact fail_unsupported_retag _ _

theorem readString_retag (t : Shape) :
    (readString t : Reading (Datum (S.retag tag) t)) = Datum.retag tag <$> readString t := by
  cases t with
  | scalar s =>
    cases s with
    | text =>
      rw [readString, readString, Functor.map_map]
      rfl
    | _ => exact fail_unsupported_retag _ _
  | sequence t =>
    cases t with
    | scalar s =>
      cases s with
      | int k =>
        cases k with
        | u8 =>
          rw [readString, readString, Functor.map_map]
          exact congrArg (· <$> Reader.textBytes) (funext fun bs => (Datum.retag_ofBytes bs).symm)
        | _ => exact fail_unsupported_retag _ _
      | _ => exact fail_unsupported_retag _ _
    | _ => exact fail_unsupported_retag _ _
  | _ => exact fail_unsupported_retag _ _

theorem mirrors_string : (string : Codec S).Mirrors (string : Codec (S.retag tag)) where
  encode := encode_string_retag
  decode d := by rw [produce_string, produce_string, readString_retag]

theorem uuidOf_retag (d : Datum S t) : uuidOf (d.retag tag) = uuidOf d := by
  cases d with
  | @scalar s x =>
    cases s with
    | uuid | octets | text => rfl
    | _ => exact congrArg Except.error (unsupported_retag _ _)
  | @sequence t n item =>
    cases t with
    | scalar s =>
      cases s with
      | int k =>
        cases k with
        | u8 =>
          unfold uuidOf
          dsimp only
          rw [Datum.toBytes_retag]
        | _ => exact congrArg Except.error (unsupported_retag _ _)
      | _ => exact congrArg Except.error (unsupported_retag _ _)
    | _ => exact congrArg Except.error (unsupported_retag _ _)
  | _ => exact congrArg Except.error (unsupported_retag _ _)

theorem putUuid_retag (o : Octets) (d : Datum S t) :
    putUuid o (d.retag tag) = (putUuid o d).map (Datum.retag tag) := by
  cases d with
  | @scalar s x =>
    cases s with
    | uuid | octets | text => rfl
    | _ => exact congrArg Except.error (unsupported_retag _ _)
  | @sequence t n item =>
    cases t with
    | scalar s =>
      cases s with
      | int k =>
        cases k with
        | u8 => exact congrArg Except.ok (Datum.retag_ofBytes o.bytes).symm
        | _ => exact congrArg Except.error (unsupported_retag _ _)
      | _ => exact congrArg Except.error (unsupported_retag _ _)
    | _ => exact congrArg Except.error (unsupported_retag _ _)
  | _ => exact congrArg Except.error (unsupported_retag _ _)

theorem mirrors_uuid : (uuid : Codec S).Mirrors (uuid : Codec (S.retag tag)) where
  encode d := by
    unfold uuid
    dsimp only
    rw [uuidOf_retag]
  decode d := by
    rw [produce_uuid, produce_uuid, readUuid, readUuid, map_bind]
    refine bind_congr fun o => ?_
    rw [putUuid_retag]
    cases putUuid o d <;> rfl

theorem encode_time_retag (d : Datum S t) : time.encode (d.retag tag) = time.encode d := by
  cases d with
  | @scalar s x =>
    cases s with
    | time => rfl
    | int k =>
      cases k with
      | i64 | u64 => rfl
      | _ => exact fail_unsupported_retag _ _
    | _ => exact fail_unsupported_retag _ _
  | _ => exact fail_unsupported_retag _ _

theorem readTime_retag (t : Shape) :
    (readTime t : Reading (Datum (S.retag tag) t)) = Datum.retag tag <$> readTime t := by
  cases t with
  | scalar s =>
    cases s with
    | time =>
      rw [readTime, readTime, Functor.map_map]
      rfl
    | int k =>
      cases k with
      | i64 =>
        rw [readTime, readTime, Functor.map_map]
        rfl
      | u64 =>
        rw [readTime, readTime, map_bind]
        refine bind_congr fun m => ?_
        split <;> rfl
      | _ => exact fail_unsupported_retag _ _
    | _ => exact fail_unsupported_retag _ _
  | _ => exact fail_unsupported_retag _ _

theorem mirrors_time : (time : Codec S).Mirrors (time : Codec (S.retag tag)) where
  encode := encode_time_retag
  decode d := by rw [produce_time, produce_time, readTime_retag]

end Codec

theorem Builtin.mirrors_codec (b : Builtin) :
    (b.codec : Codec S).Mirrors (b.codec : Codec (S.retag tag)) := by
  cases b with
  | bool => exact Codec.mirrors_ofViews Datum.truth?_retag Datum.putTruth?_retag
  | byte | type | short | int | long | nullSize | size =>
    exact Codec.mirrors_ofViews Datum.integer?_retag Datum.putInteger?_retag
  | float | double => exact Codec.mirrors_ofViews Datum.double?_retag Datum.putDouble?_retag
  | string => exact Codec.mirrors_string
  | uuid => exact Codec.mirrors_uuid
  | time => exact Codec.mirrors_time

namespace Registry

theorem mirrors_builtins (name : String) :
    Accord False Codec.Mirrors ((builtins : Registry S).lookup name)
      ((builtins : Registry (S.retag tag)).lookup name) := by
  rw [lookup_builtins_eq, lookup_builtins_eq]
  cases Builtin.all.find? (keyOf name ∈ ·.names) with
  | none => exact .error _
  | some b => exact .ok b.mirrors_codec

end Registry

end TagWire
