import Haxify.Json.Printer

/-!
# Haxe string literals

A text is written between double quotes, on one line: the quote, the backslash
and every control character are escaped, all else stands for itself. A literal is
that of JSON, but for two escapes that are spelled with digits.
-/

namespace Haxify.Haxe

/-- The escape with a letter or sign, where Haxe has one. -/
def escapeOf (sign : Char) : List Char :=
  if sign = 'b' then ['\\', 'x', '0', '8']
  else if sign = 'f' then ['\\', 'x', '0', 'C']
  else ['\\', sign]

/-- Spells the escapes of a literal anew. -/
def respelled : List Char → List Char
  | [] => []
  | [char] => [char]
  | char :: next :: rest =>
    if char = '\\' then escapeOf next ++ respelled rest else char :: respelled (next :: rest)

/-- A text as a string literal. -/
def quote (text : String) : String :=
  String.ofList (respelled (Json.printString text).toList)

end Haxify.Haxe
