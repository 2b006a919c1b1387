import TagWire.Error
import TagWire.Number.Kind
import TagWire.Text.Blank
import TagWire.Text.Decimal

/-! Field tags: codec, wire number and minimum version, separated by commas, blanks around each
part ignored. Parts may be empty or left out from the right. -/
namespace TagWire

/-- What a tag says about the field with this index. -/
structure Descriptor where
  /-- Position on the wire. -/
  number : Int
  /-- Never on the wire. -/
  ignored : Bool
  /-- First version that has the field. -/
  minVersion : Int
  /-- Registry codec instead of the generic form. -/
  codec : Option String
  index : Nat
  deriving DecidableEq

namespace Descriptor

def isPresent (d : Descriptor) (version : Int) : Bool :=
  !d.ignored && decide (d.minVersion ≤ version)

def integerPart (k : IntKind) (fault : TagFault) (part : List Char) : Except TagFault Int :=
  if part.isEmpty then .ok 0
  else match Text.integer? part with
    | some n => if k.Fits n then .ok n else .error fault
    | none => .error fault

/-- Faults are looked for from left to right. -/
def ofParts (index : Nat) (parts : List (List Char)) : Except TagFault Descriptor := do
  let codec := String.ofList (parts.getD 0 [])
  let number ← integerPart .i32 .number (parts.getD 1 [])
  let minVersion ← integerPart .i64 .version (parts.getD 2 [])
  if 3 < parts.length then .error .parts
  else .ok {
    number, minVersion, index
    ignored := codec = "-"
    codec := if codec = "-" ∨ codec = "" then none else some codec }

def ofTag (record : String) (index : Nat) (tag : String) : Except Error Descriptor :=
  (ofParts index ((Text.partsAt ',' tag.toList).map Text.trim)).mapError
    (.invalidTag record index tag)

def insert (d : Descriptor) : List Descriptor → List Descriptor
  | [] => [d]
  | e :: rest => if d.number ≤ e.number then d :: e :: rest else e :: insert d rest

/-- Ascending wire numbers; equal numbers stay in the order of declaration. -/
def inWireOrder (ds : List Descriptor) : List Descriptor := ds.foldr insert []

def ofTags (record : String) (tags : List String) : Except Error (List Descriptor) :=
  inWireOrder <$> tags.zipIdx.mapM fun (tag, index) => ofTag record index tag

theorem mem_insert {a d : Descriptor} {ds : List Descriptor} :
    a ∈ insert d ds ↔ a = d ∨ a ∈ ds := by
  induction ds with
  | nil => simp [insert]
  | cons e rest ih =>
    unfold insert
    split <;> simp [ih, or_left_comm]

end Descriptor

end TagWire
