/-! Scanning of characters from the left. -/
namespace TagWire.Toml

/-- A scanner takes characters off the front, or refuses. -/
abbrev Scan (α : Type) := StateT (List Char) Option α

namespace Scan

variable {α : Type}

def satisfy (p : Char → Bool) : Scan Char := fun
  | c :: cs => if p c then some (c, cs) else none
  | [] => none

def exactly (s : String) : Scan Unit := fun cs =>
  if s.toList.isPrefixOf cs then some ((), cs.drop s.length) else none

def span (p : Char → Bool) : Scan (List Char) := fun cs => some (cs.takeWhile p, cs.dropWhile p)

def upTo (x : Scan α) : (limit : Nat) → Scan (List α)
  | 0 => pure []
  | limit + 1 => (do return (← x) :: (← upTo x limit)) <|> pure []

/-- As often as it goes, for a scanner that takes at least one character. -/
def many (x : Scan α) : Scan (List α) := fun cs => upTo x cs.length cs

def separated (separator : Scan Unit) (x : Scan α) : Scan (List α) := do
  return (← x) :: (← many do separator; x)

def optionally (x : Scan Unit) : Scan Unit := x <|> pure ()

def done : Scan Unit := fun cs => if cs.isEmpty then some ((), cs) else none

end Scan

def isGap (c : Char) : Bool := c = ' ' || c = '\t'

def gap : Scan Unit := do let _ ← Scan.span isGap

def newline : Scan Unit := Scan.exactly "\n" <|> Scan.exactly "\r\n"

/-- Characters that may stand in comments: no control characters but the tab. -/
def isCommentChar (c : Char) : Bool := c = '\t' || (32 ≤ c.toNat && c.toNat ≠ 127)

def comment : Scan Unit := do
  Scan.exactly "#"
  let _ ← Scan.span isCommentChar

def lineRest : Scan Unit := do
  gap
  Scan.optionally comment
  newline <|> Scan.done

def spacing : Scan Unit := do
  gap
  let _ ← Scan.many do
    Scan.optionally comment
    newline
    gap

end TagWire.Toml
