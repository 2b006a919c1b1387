import TagWire.Wire.Size

/-! Text: a nullable size counts the bytes, then UTF-8. Empty text is a single zero byte. -/
namespace TagWire

namespace Text

def utf8 (s : String) : List UInt8 := s.toUTF8.data.toList

def ofUtf8? (bytes : List UInt8) : Option String := String.fromUTF8? ⟨bytes.toArray⟩

end Text

namespace Reader

def textBytes : Reading (List UInt8) := do
  let start ← position
  let n ← nullableSize
  let limit ← .view (·.limits.maxText)
  if n = 0 then return []
  else if n ≤ limit then buffer "string" n
  else .fail (.lengthLimit "string" start n limit)

def text : Reading String := do
  let start ← position
  let bs ← textBytes
  match Text.ofUtf8? bs with
  | some s => return s
  | none => .fail (.invalidUtf8 start)

end Reader

namespace Writer

def null : Writing Nat := bytes "null" [0]

def textBytes (bs : List UInt8) : Writing Nat :=
  if bs.isEmpty then null
  else do
    let counted ← nullableSize bs.length
    let body ← bytes "string" bs
    return counted + body

def text (s : String) : Writing Nat := textBytes (Text.utf8 s)

end Writer

end TagWire
