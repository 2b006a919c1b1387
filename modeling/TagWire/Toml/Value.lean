import TagWire.Toml.Number
import TagWire.Toml.Quote

/-! Values, and tables grown entry by entry. A table remembers how it came to be, since that decides
who may still add to it. -/
namespace TagWire.Toml

/-- How a table came to be: opened by a header, implied by the header of a table within it, implied
by a dotted key, or written inline. -/
inductive Origin
  | header
  | implied
  | dotted
  | inline
  deriving DecidableEq

inductive Value
  | string (s : String)
  | integer (n : Int)
  | boolean (b : Bool)
  /-- A float or a date, of which nothing is kept. -/
  | other
  | array (items : List Value)
  | table (origin : Origin) (entries : List (String × Value))
  /-- Tables opened one after the other under the same double-bracketed header. -/
  | tables (elements : List (List (String × Value)))

abbrev Entries := List (String × Value)

namespace Entries

def put (key : String) (v : Value) : Entries → Entries
  | [] => [(key, v)]
  | (k, w) :: rest => if k = key then (k, v) :: rest else (k, w) :: put key v rest

def add (key : String) (v : Value) (entries : Entries) : Option Entries :=
  match entries.lookup key with
  | none => some (entries.put key v)
  | some _ => none

/-- Changes the table at the end of a path, from a table of the given origin on. Missing tables are
made; the last of several tables counts; nobody enters an inline table, and a dotted key does not
enter a table with a header of its own. -/
def descend (viaDots : Bool) (change : Origin → Entries → Option Entries) :
    List String → Origin → Entries → Option Entries
  | [], origin, entries => change origin entries
  | key :: path, _, entries =>
    match entries.lookup key with
    | none => do
      let origin := if viaDots then .dotted else .implied
      return entries.put key (.table origin (← descend viaDots change path origin []))
    | some (.table origin inner) =>
      if origin = .inline ∨ (viaDots ∧ origin = .header) then none
      else do return entries.put key (.table origin (← descend viaDots change path origin inner))
    | some (.tables elements) =>
      match elements.reverse with
      | last :: before => do
        let last ← descend viaDots change path .header last
        return entries.put key (.tables (before.reverse ++ [last]))
      | [] => none
    | some _ => none

/-- Adds an entry under a dotted key, relative to a table. Only tables that came from dotted keys
take it. -/
def addDotted (path : List String) (key : String) (v : Value) (entries : Entries) :
    Option Entries :=
  descend true (fun origin inner =>
    if !path.isEmpty && origin != .dotted then none else inner.add key v) path .header entries

/-- Opens a table by its header: a new one, or one that was only implied so far. -/
def openTable (key : String) (entries : Entries) : Option Entries :=
  match entries.lookup key with
  | none => some (entries.put key (.table .header []))
  | some (.table .implied inner) => some (entries.put key (.table .header inner))
  | some _ => none

def openElement (key : String) (entries : Entries) : Option Entries :=
  match entries.lookup key with
  | none => some (entries.put key (.tables [[]]))
  | some (.tables elements) => some (entries.put key (.tables (elements ++ [[]])))
  | some _ => none

end Entries

structure Key where
  path : List String
  last : String

def isBareChar (c : Char) : Bool := c.isAlphanum || c = '-' || c = '_'

def keyPart : Scan String := basic <|> literal <|> do
  let first ← Scan.satisfy isBareChar
  return String.ofList (first :: (← Scan.span isBareChar))

/-- Most arrays and inline tables within each other, and most parts of a key. -/
def nestingBound : Nat := 80

def key : Scan Key := do
  let parts ← Scan.separated (Scan.exactly ".") do
    gap
    let part ← keyPart
    gap
    return part
  match parts.reverse with
  | last :: before =>
    if parts.length < nestingBound then return ⟨before.reverse, last⟩ else failure
  | [] => failure

def array (item : Scan Value) : Scan Value := do
  Scan.exactly "["
  let spaced : Scan Value := do
    spacing
    let v ← item
    spacing
    return v
  let items ← (do
    let items ← Scan.separated (Scan.exactly ",") spaced
    Scan.optionally (Scan.exactly ",")
    return items) <|> pure []
  spacing
  Scan.exactly "]"
  return .array items

def inlineTable (item : Scan Value) : Scan Value := do
  Scan.exactly "\x7b"
  let entry : Scan (Key × Value) := do
    let k ← key
    Scan.exactly "="
    gap
    let v ← item
    gap
    return (k, v)
  let pairs ← Scan.separated (Scan.exactly ",") entry <|> pure []
  gap
  Scan.exactly "\x7d"
  match pairs.foldlM (fun entries (k, v) => Entries.addDotted k.path k.last v entries) [] with
  | some entries => return .table .inline entries
  | none => failure

def value : (levels : Nat) → Scan Value
  | 0 => failure
  | levels + 1 =>
    (.string <$> string)
    <|> (do Scan.exactly "true"; return .boolean true)
    <|> (do Scan.exactly "false"; return .boolean false)
    <|> (if levels = 0 then failure else array (value levels) <|> inlineTable (value levels))
    <|> (do date; return .other)
    <|> (do float; return .other)
    <|> (.integer <$> integer)

end TagWire.Toml
