import Haxify.Text.Hidden

/-!
# Texts in messages

A text inside a message is shown between double quotes, with the characters that
do not show spelled out.
-/

namespace Haxify.Text

/-- How one character is shown. -/
def showChar (char : Char) : List Char :=
  if char = '\x00' then ['\\', '0']
  else if char = '\t' then ['\\', 't']
  else if char = '\r' then ['\\', 'r']
  else if char = '\n' then ['\\', 'n']
  else if char = '\\' then ['\\', '\\']
  else if char = '"' then ['\\', '"']
  else if isHidden char then
    ['\\', 'u', '\x7b'] ++ Nat.toDigits 16 char.toNat ++ ['\x7d']
  else [char]

/-- A text between double quotes as it is shown in a message. -/
def shown (text : String) : String :=
  String.ofList ('"' :: (text.toList.flatMap showChar ++ ['"']))

end Haxify.Text
