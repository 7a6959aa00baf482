import Docroot.Text.Unprintable

/-!
Text between double quotes, for messages that name what was given. Tab, line feed, carriage return, NUL,
quote and backslash have short escapes; what cannot be shown is given by its number.
-/
namespace Docroot.Text

def quotedChar (c : Char) : List Char :=
  if c = '\t' then ['\\', 't']
  else if c = '\n' then ['\\', 'n']
  else if c = '\r' then ['\\', 'r']
  else if c = '\x00' then ['\\', '0']
  else if c = '"' then ['\\', '"']
  else if c = '\\' then ['\\', '\\']
  else if isUnprintable c then
    ['\\', 'u', '\x7b'] ++ Nat.toDigits 16 c.toNat ++ ['\x7d']
  else [c]

def quoted (text : List Char) : String :=
  String.ofList (['"'] ++ text.flatMap quotedChar ++ ['"'])

end Docroot.Text
