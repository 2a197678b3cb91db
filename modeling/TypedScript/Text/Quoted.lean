/-
Quoted text, as messages and listings show it: between double quotes, with the null character, tab, carriage return,
line feed, the double quote and the backslash written as backslash escapes, and every other character that is not
printable written by its code point in lower-case hexadecimal, as in `\u{1b}`.
-/
import TypedScript.Text.Printable

namespace TypedScript.Quoted

/-- one character as it stands inside the quotes -/
def encodeChar (c : Char) : List Char :=
  if c = '\x00' then ['\\', '0']
  else if c = '\t' then ['\\', 't']
  else if c = '\r' then ['\\', 'r']
  else if c = '\n' then ['\\', 'n']
  else if c = '"' then ['\\', '"']
  else if c = '\\' then ['\\', '\\']
  else if isPrintable c then [c]
  else ['\\', 'u', '\x7b'] ++ Nat.toDigits 16 c.toNat ++ ['\x7d']

/-- the characters between the quotes -/
def encode (text : List Char) : List Char := text.flatMap encodeChar

end TypedScript.Quoted

namespace TypedScript

/-- the text between double quotes, with everything that could mislead the eye escaped -/
def quoted (text : String) : String :=
  String.ofList ('"' :: Quoted.encode text.toList ++ ['"'])

end TypedScript
