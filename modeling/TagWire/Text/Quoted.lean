import TagWire.Text.Printable

/-! Quoted text for messages: quotation marks, backslashes and everything that would not show as
itself is escaped. -/
namespace TagWire.Text

def hex (n : Nat) : String := String.ofList (Nat.toDigits 16 n)

def hexByte (b : UInt8) : String := if b < 16 then "0" ++ hex b.toNat else hex b.toNat

def escapedChar (c : Char) : String :=
  if c = '"' then "\\\""
  else if c = '\\' then "\\\\"
  else if c = '\n' then "\\n"
  else if c = '\r' then "\\r"
  else if c = '\t' then "\\t"
  else if c.toNat = 0 then "\\0"
  else if isExtender c || !isPrintable c then "\\u\x7b" ++ hex c.toNat ++ "\x7d"
  else String.singleton c

def quoted (s : String) : String := "\"" ++ String.join (s.toList.map escapedChar) ++ "\""

end TagWire.Text
