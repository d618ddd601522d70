import ProtoForge.Bytes
import ProtoForge.Text.Printable

/-!
# Quoted text

Text in double quotes for messages: quotes, backslashes and the usual control
characters have short escapes, all that does not show on its own is spelled by
its code point.
-/
namespace ProtoForge.Text

/-- The hexadecimal digits of a number, without leading zeros. -/
def hexDigits (n : Nat) : List Char :=
  if n < 16 then [Bytes.hexDigit n] else hexDigits (n / 16) ++ [Bytes.hexDigit (n % 16)]
termination_by n
decreasing_by omega

/-- The code point escape of a character. -/
def codePointEscape (c : Char) : List Char :=
  ['\\', 'u', '\x7b'] ++ hexDigits c.toNat ++ ['\x7d']

/-- The form of a character between double quotes. -/
def quoteChar (c : Char) : List Char :=
  if c = '\x00' then ['\\', '0']
  else if c = '\t' then ['\\', 't']
  else if c = '\r' then ['\\', 'r']
  else if c = '\n' then ['\\', 'n']
  else if c = '"' then ['\\', '"']
  else if c = '\\' then ['\\', '\\']
  else if isExtending c || !isPrintable c then codePointEscape c
  else [c]

/-- A text between double quotes in which every character has a form. -/
def inQuotes (form : Char → List Char) (s : String) : String :=
  String.ofList ('"' :: s.toList.flatMap form ++ ['"'])

/-- A text in double quotes. -/
def quoted (s : String) : String := inQuotes quoteChar s

/-- The form of a character of a path between double quotes: an apostrophe is escaped as well. -/
def quotePathChar (c : Char) : List Char := if c = '\'' then ['\\', c] else quoteChar c

/-- The text of a path in double quotes. -/
def quotedPath (s : String) : String := inQuotes quotePathChar s

end ProtoForge.Text
