import DynamicDispatch.Text.Extending
import DynamicDispatch.Text.Unprintable

/-!
# Quoted texts

A text is inspected between double quotes. What could not be seen or would end the text is escaped:
quotes and backslashes, the common controls by a letter, and every other character that prints
nothing of its own by its code point.
-/

namespace DynamicDispatch.Text

/-- A character as it is written in a quoted text. -/
def escape (c : Char) : List Char :=
  if c = '"' then ['\\', '"']
  else if c = '\\' then ['\\', '\\']
  else if c = '\n' then ['\\', 'n']
  else if c = '\r' then ['\\', 'r']
  else if c = '\t' then ['\\', 't']
  else if c = '\x00' then ['\\', '0']
  else if isExtending c || isUnprintable c then
    ['\\', 'u', '\x7b'] ++ Nat.toDigits 16 c.toNat ++ ['\x7d']
  else [c]

/-- A text between quotes, with its characters escaped. -/
def quote (s : String) : String := String.ofList ('"' :: s.toList.flatMap escape ++ ['"'])

end DynamicDispatch.Text
