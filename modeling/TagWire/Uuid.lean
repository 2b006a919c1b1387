import TagWire.Text.Quoted

/-! Sixteen raw bytes and their spelling as a UUID. Which spellings `parse?` takes and which one is
written is the UUID library's to say; they are assumed here as that library documents them. -/
namespace TagWire

structure Octets where
  bytes : List UInt8
  length_eq : bytes.length = 16
  deriving DecidableEq

namespace Octets

/-- The first sixteen bytes, zero where there are fewer. -/
def ofList (bytes : List UInt8) : Octets where
  bytes := (bytes ++ List.replicate 16 0).take 16
  length_eq := by simp

def zero : Octets := ofList []

instance : Inhabited Octets := ⟨zero⟩

@[simp] theorem ofList_bytes (o : Octets) : ofList o.bytes = o := by
  obtain ⟨bytes, h⟩ := o
  simp [ofList, List.take_append_of_le_length (Nat.le_of_eq h.symm),
    List.take_of_length_le (Nat.le_of_eq h)]

def ofList? (bytes : List UInt8) : Option Octets :=
  if h : bytes.length = 16 then some ⟨bytes, h⟩ else none

def nibble? (c : Char) : Option UInt8 :=
  if '0' ≤ c ∧ c ≤ '9' then some (UInt8.ofNat (c.toNat - 48))
  else if 'a' ≤ c ∧ c ≤ 'f' then some (UInt8.ofNat (c.toNat - 87))
  else if 'A' ≤ c ∧ c ≤ 'F' then some (UInt8.ofNat (c.toNat - 55))
  else none

def bytesOfHex? : List Char → Option (List UInt8)
  | [] => some []
  | high :: low :: rest => do
    let h ← nibble? high
    let l ← nibble? low
    let bytes ← bytesOfHex? rest
    return (16 * h + l) :: bytes
  | [_] => none

def plain? (cs : List Char) : Option Octets := do ofList? (← bytesOfHex? cs)

def hyphenated? (cs : List Char) : Option Octets :=
  if cs.length = 36 ∧ cs[8]? = some '-' ∧ cs[13]? = some '-' ∧ cs[18]? = some '-' ∧
      cs[23]? = some '-' then
    plain? (cs.take 8 ++ (cs.drop 9).take 4 ++ (cs.drop 14).take 4 ++ (cs.drop 19).take 4 ++
      cs.drop 24)
  else none

/-- Plain, hyphenated, in braces, or after `urn:uuid:` in letters of either case. -/
def parse? (s : String) : Option Octets :=
  let cs := s.toList
  if cs.length = 32 then plain? cs
  else if cs.length = 38 ∧ cs.head? = some '\x7b' ∧ cs.getLast? = some '\x7d' then
    hyphenated? ((cs.drop 1).take 36)
  else if cs.length = 45 ∧ (cs.take 9).map Char.toLower = "urn:uuid:".toList then
    hyphenated? (cs.drop 9)
  else hyphenated? cs

def hyphenated (o : Octets) : String :=
  let group (first count : Nat) : String :=
    String.join (((o.bytes.drop first).take count).map Text.hexByte)
  String.intercalate "-" [group 0 4, group 4 2, group 6 2, group 8 2, group 10 6]

end Octets

end TagWire
