import GardenMap.Text.Hidden

/-!
# Quoted text

Two ways to put text between double quotes: the wire form, which escapes what JSON demands, and the
message form, which also shows controls by their code points.
-/

namespace GardenMap.Text

def hex (n : Nat) : List Char := Nat.toDigits 16 n

/-- How a character is written inside wire text. -/
def wireChar (c : Char) : List Char :=
  if c = '"' then ['\\', '"']
  else if c = '\\' then ['\\', '\\']
  else if c = '\n' then ['\\', 'n']
  else if c = '\r' then ['\\', 'r']
  else if c = '\t' then ['\\', 't']
  else if c = '\x08' then ['\\', 'b']
  else if c = '\x0c' then ['\\', 'f']
  else if c.toNat < 0x10 then ['\\', 'u', '0', '0', '0'] ++ hex c.toNat
  else if c.toNat < 0x20 then ['\\', 'u', '0', '0'] ++ hex c.toNat
  else [c]

def wireQuoted (s : String) : String :=
  String.ofList ('"' :: s.toList.flatMap wireChar ++ ['"'])

/-- How a character is written inside message text. -/
def messageChar (c : Char) : List Char :=
  if c = '"' then ['\\', '"']
  else if c = '\\' then ['\\', '\\']
  else if c = '\n' then ['\\', 'n']
  else if c = '\r' then ['\\', 'r']
  else if c = '\t' then ['\\', 't']
  else if c = '\x00' then ['\\', '0']
  else if isHidden c then ['\\', 'u', '\x7b'] ++ hex c.toNat ++ ['\x7d']
  else [c]

def messageQuoted (s : String) : String :=
  String.ofList ('"' :: s.toList.flatMap messageChar ++ ['"'])

end GardenMap.Text
