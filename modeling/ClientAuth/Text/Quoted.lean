import ClientAuth.Text.Printable
import ClientAuth.Bytes

/-!
# Quoted text and the display of values

`quoted` writes a text between double quotes such that nothing in it is invisible. `record` and `tuple` write a value
that is made of named or single parts, which is how values are shown in logs.
-/

namespace ClientAuth.Text

/-- The digits of a number in hexadecimal, without leading zeros. -/
def hexNumber (n : Nat) : List Char :=
  if n < 16 then [Hex.digit n] else hexNumber (n / 16) ++ [Hex.digit (n % 16)]

/-- A character as it stands within quotes. -/
def quotedChar (c : Char) : List Char :=
  if c = '"' then ['\\', '"']
  else if c = '\\' then ['\\', '\\']
  else if c = '\n' then ['\\', 'n']
  else if c = '\r' then ['\\', 'r']
  else if c = '\t' then ['\\', 't']
  else if c.toNat = 0 then ['\\', '0']
  else if isPrintable c then [c]
  else ['\\', 'u', '{'] ++ hexNumber c.toNat ++ ['}']

/-- A text between double quotes. -/
def quoted (s : String) : String :=
  String.ofList ('"' :: s.toList.flatMap quotedChar ++ ['"'])

/-- A value shown as its name and its named parts. -/
def record (name : String) (parts : List (String × String)) : String :=
  name ++ " \x7b " ++ ", ".intercalate (parts.map fun part => part.1 ++ ": " ++ part.2) ++ " \x7d"

/-- A value shown as its name around one part. -/
def tuple (name part : String) : String :=
  name ++ "(" ++ part ++ ")"

/-- An optional value shown. -/
def optional : Option String → String
  | none => "None"
  | some s => tuple "Some" s

/-- Values shown in a row. -/
def row (parts : List String) : String :=
  "[" ++ ", ".intercalate parts ++ "]"

end ClientAuth.Text
