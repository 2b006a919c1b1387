import TagWire.Schema.Scalar

/-! Schemas. A shape says what a value looks like; a schema declares the records and the
self-describing types that shapes refer to by number, so that records may contain themselves. -/
namespace TagWire

inductive Shape
  | scalar (s : Scalar)
  | sequence (item : Shape)
  | optional (inner : Shape)
  | boxed (inner : Shape)
  | record (r : Nat)
  | custom (k : Nat)
  deriving DecidableEq

/-- One more than the number of the record that a value of the shape always contains; nothing is
contained through a sequence or an optional value. -/
def Shape.rank : Shape → Nat
  | boxed t => t.rank
  | record r => r + 1
  | _ => 0

structure Field where
  name : String
  shape : Shape
  /-- Codec, wire number and minimum version, separated by commas. -/
  tag : String

structure RecordType where
  name : String
  /-- The name with the path under which messages show it. -/
  path : String
  fields : List Field
  /-- Tags without a field behind them. -/
  extraTags : List String := []

def RecordType.tags (R : RecordType) : List String := R.fields.map Field.tag ++ R.extraTags

/-- How a self-describing type reads itself: as it goes, or from all that is left at once. Either
way it says how many bytes are its own. -/
inductive Unmarshal (α : Type)
  | stream (read : (version : Int) → InPlace Error Reader Nat α)
  | whole (take : (version : Int) → List UInt8 → α → Except Error Nat × α)

structure Custom where
  Carrier : Type
  path : String
  initial : Carrier
  marshal : Carrier → (version : Int) → Writing Nat
  unmarshal : Unmarshal Carrier

structure Schema where
  record : Nat → RecordType
  custom : Nat → Custom
  /-- A record directly contains only records of lower number, so every type has a first value. -/
  grounded : ∀ r, ∀ f ∈ (record r).fields, f.shape.rank ≤ r

namespace Schema

variable (S : Schema)

def arity (r : Nat) : Nat := (S.record r).fields.length

def fieldShape (r : Nat) (i : Fin (S.arity r)) : Shape := ((S.record r).fields.get i).shape

theorem rank_fieldShape_le (r : Nat) (i : Fin (S.arity r)) : (S.fieldShape r i).rank ≤ r :=
  S.grounded r _ (List.get_mem _ i)

def declare (r : Nat) (R : RecordType) (h : ∀ f ∈ R.fields, f.shape.rank ≤ r) : Schema where
  record n := if n = r then R else S.record n
  custom := S.custom
  grounded n f hf := by
    split at hf
    · next e => exact e ▸ h f hf
    · exact S.grounded n f hf

def Grounded (records : List RecordType) : Prop :=
  ∀ p ∈ records.zipIdx, ∀ f ∈ p.1.fields, f.shape.rank ≤ p.2

instance (records : List RecordType) : Decidable (Grounded records) := by
  unfold Grounded
  infer_instance

/-- The schema of two lists. Numbers past their ends stand for records without fields and types
without bytes. -/
def ofLists (records : List RecordType) (customs : List Custom) (h : Grounded records) :
    Schema where
  record r := records[r]?.getD ⟨"", "", [], []⟩
  custom k := customs[k]?.getD
    ⟨Unit, "", (), fun _ _ => pure 0, .stream fun _ u r => ((.ok 0, u), r)⟩
  grounded r f hf := by
    cases hr : records[r]? with
    | none => simp [hr] at hf
    | some R =>
      simp only [hr, Option.getD_some] at hf
      exact h (R, r) (List.mem_zipIdx_iff_getElem?.2 hr) f hf

end Schema

def Shape.typeName (S : Schema) : Shape → String
  | scalar s => s.name
  | sequence t => "alloc::vec::Vec<" ++ t.typeName S ++ ">"
  | optional t => "core::option::Option<" ++ t.typeName S ++ ">"
  | boxed t => "alloc::boxed::Box<" ++ t.typeName S ++ ">"
  | record r => (S.record r).path
  | custom k => (S.custom k).path

end TagWire
