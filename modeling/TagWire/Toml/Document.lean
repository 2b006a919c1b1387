import TagWire.Toml.Value

/-! Documents: lines that open tables or add entries to the table opened last. -/
namespace TagWire.Toml

inductive Line
  | blank
  | header (key : Key)
  | element (key : Key)
  | entry (key : Key) (value : Value)

namespace Line

def scan : Scan Line := do
  let line ←
    (do newline; return .blank)
    <|> (do
      Scan.exactly "#"
      let _ ← Scan.span isCommentChar
      newline <|> Scan.done
      return .blank)
    <|> (do
      Scan.exactly "[["
      let k ← key
      Scan.exactly "]]"
      lineRest
      return .element k)
    <|> (do
      Scan.exactly "["
      let k ← key
      Scan.exactly "]"
      lineRest
      return .header k)
    <|> (do
      let k ← key
      Scan.exactly "="
      gap
      let v ← value nestingBound
      lineRest
      return .entry k v)
  gap
  return line

end Line

/-- A document in the making: all tables, and the path of the one opened last. -/
structure Document where
  root : Entries := []
  current : List String := []

namespace Document

def extend (doc : Document) : Line → Option Document
  | .blank => some doc
  | .header k => do
    let root ← Entries.descend false (fun _ => Entries.openTable k.last) k.path .header doc.root
    return { root, current := k.path ++ [k.last] }
  | .element k => do
    let root ← Entries.descend false (fun _ => Entries.openElement k.last) k.path .header doc.root
    return { root, current := k.path ++ [k.last] }
  | .entry k v => do
    let root ← Entries.descend false (fun _ => Entries.addDotted k.path k.last v) doc.current
      .header doc.root
    return { doc with root }

def scan : Scan (List Line) := do
  Scan.optionally (Scan.exactly "\ufeff")
  gap
  let lines ← Scan.many Line.scan
  Scan.done
  return lines

def parse? (text : String) : Option Entries := do
  let (lines, _) ← scan text.toList
  return (← lines.foldlM extend {}).root

end Document

end TagWire.Toml
