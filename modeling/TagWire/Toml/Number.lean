import TagWire.Number.Kind
import TagWire.Toml.Scan

/-! Numbers, with underscores between digits, and dates. Of floats and dates only the form matters
here. -/
namespace TagWire.Toml

open Scan

def digitRun (isDigit : Char → Bool) : Scan (List Char) := do
  let first ← satisfy isDigit
  let more ← many (satisfy isDigit <|> do
    exactly "_"
    satisfy isDigit)
  return first :: more

def digitOf (c : Char) : Nat :=
  if c.isDigit then c.toNat - 48 else if 97 ≤ c.toNat then c.toNat - 87 else c.toNat - 55

def ofDigits (base : Nat) (cs : List Char) : Nat := cs.foldl (fun n c => base * n + digitOf c) 0

def decimal : Scan (Bool × List Char) := do
  let negative ← (do exactly "-"; return true) <|> (do exactly "+"; return false) <|> pure false
  let digits ← (do
    let first ← satisfy fun c => c.isDigit && c != '0'
    let more ← many (satisfy Char.isDigit <|> do
      exactly "_"
      satisfy Char.isDigit)
    return first :: more) <|> (do return [← satisfy Char.isDigit])
  return (negative, digits)

/-- An integer, decimal or after `0x`, `0o` or `0b`; its range is checked. -/
def integer : Scan Int := do
  let n : Int ← (do
      exactly "0x"
      return ofDigits 16 (← digitRun fun c =>
        c.isDigit || ('a' ≤ c && c ≤ 'f') || ('A' ≤ c && c ≤ 'F')))
    <|> (do exactly "0o"; return ofDigits 8 (← digitRun fun c => '0' ≤ c && c ≤ '7'))
    <|> (do exactly "0b"; return ofDigits 2 (← digitRun fun c => c = '0' || c = '1'))
    <|> (do
      let (negative, digits) ← decimal
      return if negative then -(ofDigits 10 digits : Int) else ofDigits 10 digits)
  if IntKind.i64.Fits n then return n else failure

/-- Whether `mantissa · 10 ^ scale` rounds beyond the greatest double. -/
def overflows (mantissa : Nat) (scale : Int) : Bool :=
  let bound := (1 <<< 1024) - (1 <<< 970)
  if mantissa = 0 then false
  else if 0 ≤ scale then 400 < scale || bound ≤ mantissa * Nat.pow 10 scale.toNat
  else
    300 ≤ (Nat.toDigits 10 mantissa).length + scale &&
      bound * Nat.pow 10 (-scale).toNat ≤ mantissa

def exponent : Scan Int := do
  let _ ← satisfy fun c => c = 'e' || c = 'E'
  let negative ← (do exactly "-"; return true) <|> (do exactly "+"; return false) <|> pure false
  let digits ← digitRun Char.isDigit
  return if negative then -(ofDigits 10 digits : Int) else ofDigits 10 digits

def finite : Scan Unit := do
  let (negative, whole) ← decimal
  let (fraction, scale) ← (do return ([], ← exponent)) <|> (do
    exactly "."
    let fraction ← digitRun Char.isDigit
    return (fraction, ← exponent <|> pure 0))
  if !negative && overflows (ofDigits 10 (whole ++ fraction)) (scale - fraction.length) then failure

def special : Scan Unit := do
  optionally (exactly "+" <|> exactly "-")
  exactly "inf" <|> exactly "nan"

def float : Scan Unit := finite <|> special

def field (digits least greatest : Nat) : Scan Nat := do
  let cs ← (List.range digits).mapM fun _ => satisfy Char.isDigit
  let n := ofDigits 10 cs
  if least ≤ n ∧ n ≤ greatest then return n else failure

def daysIn (year month : Nat) : Nat :=
  if month = 2 then
    if year % 4 = 0 ∧ (year % 100 ≠ 0 ∨ year % 400 = 0) then 29 else 28
  else if month ∈ [4, 6, 9, 11] then 30
  else 31

def day : Scan Unit := do
  let year ← field 4 0 9999
  exactly "-"
  let month ← field 2 1 12
  exactly "-"
  let _ ← field 2 1 (daysIn year month)

def clock : Scan Unit := do
  let _ ← field 2 0 23
  exactly ":"
  let _ ← field 2 0 59
  exactly ":"
  let _ ← field 2 0 60
  optionally do
    exactly "."
    let _ ← satisfy Char.isDigit
    let _ ← span Char.isDigit

def offset : Scan Unit := exactly "Z" <|> exactly "z" <|> do
  exactly "+" <|> exactly "-"
  let _ ← field 2 0 23
  exactly ":"
  let _ ← field 2 0 59

def date : Scan Unit := clock <|> do
  day
  optionally do
    exactly "T" <|> exactly "t" <|> exactly " "
    clock
    optionally offset

end TagWire.Toml
