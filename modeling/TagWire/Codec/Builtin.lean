import TagWire.Codec.Basic
import TagWire.Number.Float

/-! The codecs that every registry may start from. Each has one wire form and takes several shapes:
integer codecs any integer, cut to the wire width; `float` and `double` either width; `uuid` and
`time` their own type and its raw spellings. -/
namespace TagWire

variable {S : Schema}

namespace Datum

def integer? : {t : Shape} → Datum S t → Option Int
  | .scalar (.int _), .scalar n => some n.val
  | _, _ => none

/-- An integer of the same kind with the low bits of `x`. -/
def putInteger? (x : Int) : {t : Shape} → Datum S t → Option (Datum S t)
  | .scalar (.int k), .scalar _ => some (.scalar (k.wrap x))
  | _, _ => none

def double? : {t : Shape} → Datum S t → Option UInt64
  | .scalar .float64, .scalar bits => some bits
  | .scalar .float32, .scalar bits => some (Float.widen bits)
  | _, _ => none

def putDouble? (x : UInt64) : {t : Shape} → Datum S t → Option (Datum S t)
  | .scalar .float64, .scalar _ => some (.scalar x)
  | .scalar .float32, .scalar _ => some (.scalar (Float.narrow x))
  | _, _ => none

abbrev byteSequence : Shape := .sequence (.scalar (.int .u8))

def toBytes (d : Datum S byteSequence) : List UInt8 :=
  d.items.map fun (.scalar n) => UInt8.ofNat n.pattern

def ofBytes (bs : List UInt8) : Datum S byteSequence :=
  ofArray (bs.map fun b => .scalar (IntKind.u8.wrap b.toNat)).toArray

def truth? : {t : Shape} → Datum S t → Option Bool
  | .scalar .bool, .scalar b => some b
  | .scalar (.int _), .scalar n => some (n.val != 0)
  | _, _ => none

def putTruth? (b : Bool) : {t : Shape} → Datum S t → Option (Datum S t)
  | .scalar .bool, .scalar _ => some (.scalar b)
  | .scalar (.int k), .scalar _ => some (.scalar (k.wrap (if b then 1 else 0)))
  | _, _ => none

end Datum

namespace Codec

variable {t : Shape} {α : Type}

/-- A codec with one wire form for values `α`, and two views that find an `α` in a field and put one
there. A shape without views is refused, on the way in only after the wire form was read. -/
def ofViews (name : String) (find : {t : Shape} → Datum S t → Option α)
    (put : α → {t : Shape} → Datum S t → Option (Datum S t))
    (write : α → Writing Nat) (read : Reading α) : Codec S where
  name := name
  encode {t} d := match find d with
    | some a => write a
    | none => .fail (unsupported name S t)
  decode {t} d := counted (do
    let a ← read
    match put a d with
    | some d => return d
    | none => .fail (unsupported name S t)) d

def bool : Codec S := ofViews "bool" Datum.truth? Datum.putTruth? Writer.bool Reader.bool

def integer (name : String) (write : Int → Writing Nat) (read : Reading Int) : Codec S :=
  ofViews name Datum.integer? Datum.putInteger? write read

def fixed (name : String) (k : IntKind) (op : String) : Codec S :=
  integer name (fun x => Writer.numberAs op (k.wrap x)) ((·.val) <$> Reader.numberAs op k)

def float (name : String) (write : UInt64 → Writing Nat) (read : Reading UInt64) : Codec S :=
  ofViews name Datum.double? Datum.putDouble? write read

/-- Text or raw bytes. Another shape is refused before anything is read. -/
def string : Codec S where
  name := "string"
  encode {t} d := match t, d with
    | .scalar .text, .scalar s => Writer.text s
    | .sequence (.scalar (.int .u8)), d => Writer.textBytes d.toBytes
    | t, _ => .fail (unsupported "string" S t)
  decode {t} d := match t, d with
    | .scalar .text, d => counted (.scalar <$> Reader.text) d
    | .sequence (.scalar (.int .u8)), d => counted (.ofBytes <$> Reader.textBytes) d
    | t, d => counted (.fail (unsupported "string" S t)) d

def uuidOf : {t : Shape} → Datum S t → Except Error Octets
  | .scalar .uuid, .scalar o => .ok o
  | .scalar .octets, .scalar o => .ok o
  | .sequence (.scalar (.int .u8)), d => match Octets.ofList? d.toBytes with
    | some o => .ok o
    | none => .error .invalidUuid
  | .scalar .text, .scalar s => match Octets.parse? s with
    | some o => .ok o
    | none => .error .invalidUuid
  | t, _ => .error (unsupported "uuid" S t)

def putUuid (o : Octets) : {t : Shape} → Datum S t → Except Error (Datum S t)
  | .scalar .uuid, .scalar _ => .ok (.scalar o)
  | .scalar .octets, .scalar _ => .ok (.scalar o)
  | .sequence (.scalar (.int .u8)), _ => .ok (.ofBytes o.bytes)
  | .scalar .text, .scalar _ => .ok (.scalar o.hyphenated)
  | t, _ => .error (unsupported "uuid" S t)

def uuid : Codec S where
  name := "uuid"
  encode d := do Writer.octets (← .lift (uuidOf d))
  decode d := counted (do
    let o ← Reader.octets
    .lift (putUuid o d)) d

/-- An instant, or milliseconds since 1970 in a signed or unsigned long. Another shape is refused
before anything is read. -/
def time : Codec S where
  name := "time"
  encode {t} d := match t, d with
    | .scalar .time, .scalar date => Writer.instant date
    | .scalar (.int .i64), .scalar m => Writer.millis m.val
    | .scalar (.int .u64), .scalar m =>
      if IntKind.i64.Fits m.val then Writer.millis m.val
      else .fail (.valueOutOfRange "time" m.val)
    | t, _ => .fail (unsupported "time" S t)
  decode {t} d := match t, d with
    | .scalar .time, d => counted (.scalar <$> Reader.instant) d
    | .scalar (.int .i64), d => counted ((.scalar ∘ IntKind.i64.wrap) <$> Reader.millis) d
    | .scalar (.int .u64), d => counted (do
        let m ← Reader.millis
        if 0 ≤ m then return .scalar (IntKind.u64.wrap m)
        else .fail (.valueOutOfRange "time" m)) d
    | t, d => counted (.fail (unsupported "time" S t)) d

def builtins : List (List String × Codec S) := [
  (["bool"], bool),
  (["byte"], fixed "byte" .u8 "byte"),
  (["type"], fixed "type" .u8 "type"),
  (["short", "char", "int16", "uint16"], fixed "short" .i16 "int16"),
  (["int", "int32", "uint32"], fixed "int" .i32 "int32"),
  (["long", "int64", "uint64"], fixed "long" .i64 "int64"),
  (["float", "float32"], float "float" (Writer.float32 ∘ Float.narrow)
    (Float.widen <$> Reader.float32)),
  (["double", "float64"], float "double" Writer.float64 Reader.float64),
  (["string"], string),
  (["null-size", "nullable-size"], integer "null-size"
    (fun x => Writer.nullableSize (IntKind.u64.wrap x).pattern)
    (Int.ofNat <$> Reader.nullableSize)),
  (["size"], integer "size" (fun x => Writer.size (IntKind.u64.wrap x).pattern)
    (Int.ofNat <$> Reader.size)),
  (["uuid"], uuid),
  (["time"], time)]

end Codec

end TagWire
