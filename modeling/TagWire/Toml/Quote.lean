import TagWire.Toml.Scan

/-! Strings: basic ones with escapes, literal ones without, each also over several lines. A string
is written in the plainest of these forms that shows it as it is. -/
namespace TagWire.Toml

open Scan

def hexValue? (cs : List Char) : Option Nat :=
  cs.foldlM (fun n c =>
    if '0' ≤ c ∧ c ≤ '9' then some (16 * n + (c.toNat - 48))
    else if 'a' ≤ c ∧ c ≤ 'f' then some (16 * n + (c.toNat - 87))
    else if 'A' ≤ c ∧ c ≤ 'F' then some (16 * n + (c.toNat - 55))
    else none) 0

def codePoint (digits : Nat) : Scan Char := do
  let cs ← (List.range digits).mapM fun _ => satisfy fun _ => true
  match hexValue? cs with
  | some n => if n.isValidChar then return Char.ofNat n else failure
  | none => failure

def escape : Scan Char := do
  match ← satisfy fun _ => true with
  | 'b' => return Char.ofNat 8
  | 't' => return '\t'
  | 'n' => return '\n'
  | 'f' => return Char.ofNat 12
  | 'r' => return '\r'
  | '"' => return '"'
  | '\\' => return '\\'
  | 'u' => codePoint 4
  | 'U' => codePoint 8
  | _ => failure

/-- Characters that stand for themselves in every kind of string, quotes and backslashes apart. -/
def isStringChar (c : Char) : Bool := c = '\t' || (32 ≤ c.toNat && c.toNat ≠ 127)

def basicChar : Scan Char :=
  satisfy (fun c => isStringChar c && c != '"' && c != '\\') <|> do
    exactly "\\"
    escape

def basic : Scan String := do
  exactly "\""
  let cs ← many basicChar
  exactly "\""
  return String.ofList cs

def literal : Scan String := do
  exactly "'"
  let cs ← span fun c => isStringChar c && c != '\''
  exactly "'"
  return String.ofList cs

def lineBreak : Scan (List Char) := do
  newline
  return ['\n']

/-- A backslash at the end of a line takes away all blanks up to the next character. -/
def joinedLine : Scan (List Char) := do
  exactly "\\"
  gap
  newline
  let _ ← many ((do let _ ← satisfy isGap) <|> newline)
  return []

/-- One or two quotation marks that do not end the string. -/
def innerQuotes (quote : Char) : Scan (List Char) := fun cs =>
  match (cs.takeWhile (· = quote)).length with
  | 1 => some ([quote], cs.drop 1)
  | 2 => some ([quote, quote], cs.drop 2)
  | _ => none

/-- Three quotation marks end the string; up to two before them belong to it. -/
def closingQuotes (quote : Char) : Scan (List Char) := fun cs =>
  match (cs.takeWhile (· = quote)).length with
  | 0 | 1 | 2 => none
  | n => some (List.replicate (min n 5 - 3) quote, cs.drop (min n 5))

/-- A string over several lines; a line end right after the opening marks is not part of it. -/
def multiline (quote : Char) (piece : Scan (List Char)) : Scan String := do
  exactly (String.ofList [quote, quote, quote])
  optionally newline
  let cs ← many (piece <|> innerQuotes quote)
  let last ← closingQuotes quote
  return String.ofList (cs.flatten ++ last)

def multilineBasic : Scan String := multiline '"'
  (joinedLine <|> (do return [← basicChar]) <|> lineBreak)

def multilineLiteral : Scan String := multiline '\''
  ((do return [← satisfy fun c => isStringChar c && c != '\'']) <|> lineBreak)

def string : Scan String := multilineBasic <|> basic <|> multilineLiteral <|> literal

inductive Form
  | basic
  | literal
  | multilineBasic
  | multilineLiteral

def longestRun (c : Char) (cs : List Char) : Nat :=
  (cs.foldl (fun (run, longest) d =>
    if d = c then (run + 1, max longest (run + 1)) else (0, longest)) (0, 0)).2

/-- The plainest form that shows a string without escapes, tabs apart. Where none does, line feeds
decide. -/
def formOf (cs : List Char) : Form :=
  let lines := cs.contains '\n'
  let backslash := cs.contains '\\'
  if cs.any fun c => c != '\n' && !isStringChar c then
    if lines then .multilineBasic else .basic
  else if !lines && !backslash && longestRun '"' cs = 0 then .basic
  else if !lines && longestRun '\'' cs = 0 then .literal
  else if !backslash && longestRun '"' cs ≤ 2 then .multilineBasic
  else if longestRun '\'' cs ≤ 2 then .multilineLiteral
  else if lines then .multilineBasic
  else .basic

/-- A character of a basic string that is no quotation mark; over several lines a line feed stands
for itself. -/
def escaped (lines : Bool) (c : Char) : String :=
  match c.toNat with
  | 8 => "\\b"
  | 9 => "\\t"
  | 10 => if lines then "\n" else "\\n"
  | 12 => "\\f"
  | 13 => "\\r"
  | 92 => "\\\\"
  | n =>
    if n < 32 ∨ n = 127 then
      let digits := (Nat.toDigits 16 n).map Char.toUpper
      "\\u" ++ String.ofList (List.replicate (4 - digits.length) '0' ++ digits)
    else String.singleton c

/-- The inside of a basic string. Over several lines two quotation marks in a row are plain; `run`
counts those just passed. -/
def escapedFrom (lines : Bool) (run : Nat) : List Char → String
  | [] => ""
  | c :: cs =>
    if c = '"' then
      if lines && run < 2 then "\"" ++ escapedFrom lines (run + 1) cs
      else "\\\"" ++ escapedFrom lines 0 cs
    else escaped lines c ++ escapedFrom lines 0 cs

def render (s : String) : String :=
  let cs := s.toList
  let opening := if cs.contains '\n' then "\n" else ""
  match formOf cs with
  | .basic => "\"" ++ escapedFrom false 0 cs ++ "\""
  | .literal => "'" ++ s ++ "'"
  | .multilineBasic => "\"\"\"" ++ opening ++ escapedFrom true 0 cs ++ "\"\"\""
  | .multilineLiteral => "'''" ++ opening ++ s ++ "'''"

end TagWire.Toml
