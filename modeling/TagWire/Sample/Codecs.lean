import TagWire.Codec.Builtin

/-! Registry codecs for trying out the engine, among them codecs that do not look at their field. -/
namespace TagWire.Sample

variable {S : Schema}

namespace Codecs

/-- The low three bytes of an `i32`, high byte first; read back unsigned. Other fields count as
zero and stay as they are. -/
def int24 : Codec S where
  name := "int24"
  encode {t} d :=
    let x : Int := match t, d with
      | .scalar (.int .i32), .scalar n => n.val
      | _, _ => 0
    Writer.bytes "int24" (BigEndian.encode 3 (IntKind.u32.wrap x).pattern)
  decode := fun {t} d r => match Reader.bytes "int24" 3 r with
    | (.error e, r) => ((.error e, d), r)
    | (.ok bs, r) => match t, d with
      | .scalar (.int .i32), _ => ((.ok 3, .scalar (IntKind.i32.wrap (BigEndian.decode bs))), r)
      | _, d => ((.ok 3, d), r)

def port16 : Codec S where
  name := "port16"
  encode {t} d := match t, d with
    | .scalar (.int .u32), .scalar n =>
      if IntKind.u16.Fits n.val then Writer.number (IntKind.u16.wrap n.val)
      else .fail (.valueOutOfRange "port16" n.val)
    | _, _ => .fail (.custom "port16 expects u32")
  decode := fun {t} d r => match Reader.number .u16 r with
    | (.error e, r) => ((.error e, d), r)
    | (.ok n, r) => match t, d with
      | .scalar (.int .u32), _ => ((.ok 2, .scalar (IntKind.u32.wrap n.val)), r)
      | _, d => ((.ok 2, d), r)

def reverse (s : String) : String := String.ofList s.toList.reverse

def reversed : Codec S where
  name := "reversed"
  encode {t} d := match t, d with
    | .scalar .text, .scalar s => Writer.text (reverse s)
    | _, _ => Writer.text ""
  decode := fun {t} d r =>
    let start := r.offset
    match Reader.text r with
    | (.error e, r) => ((.error e, d), r)
    | (.ok s, r) => match t, d with
      | .scalar .text, _ => ((.ok (r.offset - start), .scalar (reverse s)), r)
      | _, d => ((.ok (r.offset - start), d), r)

def const : Codec S where
  name := "const"
  encode _ := Writer.bytes "byte" [0xee]
  decode := fun d r => match Reader.byte "byte" r with
    | (.error e, r) => ((.error e, d), r)
    | (.ok _, r) => ((.ok 1, d), r)

end Codecs

end TagWire.Sample
