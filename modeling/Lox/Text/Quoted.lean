import Lox.Text.Hidden

/-!
Quoted text: a text between double quotes, as a record field and as a path in a message.
-/

namespace Lox.Text

def hexDigit (n : Nat) : Char :=
  if n < 10 then Char.ofNat ('0'.toNat + n) else Char.ofNat ('a'.toNat + (n - 10))

/-- The escape of one character in a record field. Only quotes, backslashes and control characters
are escaped. -/
def fieldChar (c : Char) : List Char :=
  if c = '"' then ['\\', '"']
  else if c = '\\' then ['\\', '\\']
  else if c = '\n' then ['\\', 'n']
  else if c = '\t' then ['\\', 't']
  else if c = '\r' then ['\\', 'r']
  else if c = '\x08' then ['\\', 'b']
  else if c = '\x0c' then ['\\', 'f']
  else if c.toNat < 0x20 then
    ['\\', 'u', '0', '0', hexDigit (c.toNat / 16), hexDigit (c.toNat % 16)]
  else [c]

/-- A text as a record field. -/
def field (s : String) : String :=
  "\"" ++ String.ofList (s.toList.flatMap fieldChar) ++ "\""

/-- The escape of one character of a path in a message. Hidden characters are shown by their code
points. -/
def pathChar (c : Char) : List Char :=
  if c = '"' then ['\\', '"']
  else if c = '\\' then ['\\', '\\']
  else if c = '\n' then ['\\', 'n']
  else if c = '\t' then ['\\', 't']
  else if c = '\r' then ['\\', 'r']
  else if c = '\x00' then ['\\', '0']
  else if isHidden c then ['\\', 'u', '\x7b'] ++ Nat.toDigits 16 c.toNat ++ ['\x7d']
  else [c]

/-- A path as a message shows it. -/
def path (s : String) : String :=
  "\"" ++ String.ofList (s.toList.flatMap pathChar) ++ "\""

end Lox.Text
