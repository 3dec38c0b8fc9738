import Haxify.Json.Value

/-!
# Printing JSON

Reports are printed with two spaces for each level and one member or item on a
line; empty containers stay on one line. Members are printed in the order given,
which need not be that of their keys.
-/

namespace Haxify.Json

/-- A hexadecimal digit with lower-case letters. -/
def hexDigit (value : Nat) : Char :=
  (Nat.toDigits 16 (value % 16)).headD '0'

/-- How one character is written inside a string. -/
def printChar (char : Char) : List Char :=
  if char = '"' then ['\\', '"']
  else if char = '\\' then ['\\', '\\']
  else if char = '\n' then ['\\', 'n']
  else if char = '\r' then ['\\', 'r']
  else if char = '\t' then ['\\', 't']
  else if char = '\x08' then ['\\', 'b']
  else if char = '\x0c' then ['\\', 'f']
  else if char.toNat < 0x20 then
    ['\\', 'u', '0', '0', hexDigit (char.toNat / 16), hexDigit char.toNat]
  else [char]

def printString (text : String) : String :=
  String.ofList ('"' :: (text.toList.flatMap printChar ++ ['"']))

/-- What is printed of a report. -/
inductive Layout where
  | atom (text : String)
  /-- An array. -/
  | list (items : List Layout)
  /-- An object with its members in the order to print. -/
  | record (members : List (String × Layout))

namespace Layout

def string (text : String) : Layout := .atom (printString text)

/-- A whole number. -/
def number (value : Nat) : Layout := .atom (toString value)

def bool (value : Bool) : Layout := .atom (if value then "true" else "false")

/-- A value that may be missing. -/
def optional {α : Type} (layout : α → Layout) : Option α → Layout
  | some value => layout value
  | none => .atom "null"

/-- Lines between two brackets, one level further in than the brackets. -/
def enclose (opening closing margin : String) : List String → String
  | [] => opening ++ closing
  | lines =>
    opening ++ "\n" ++ Text.joinWith ",\n" (lines.map fun line => margin ++ "  " ++ line)
      ++ "\n" ++ margin ++ closing

mutual

def print (margin : String) : Layout → String
  | .atom text => text
  | .list items => enclose "[" "]" margin (printItems (margin ++ "  ") items)
  | .record members => enclose "\x7b" "\x7d" margin (printMembers (margin ++ "  ") members)

/-- The texts of array items. -/
def printItems (margin : String) : List Layout → List String
  | [] => []
  | item :: rest => print margin item :: printItems margin rest

/-- The texts of object members. -/
def printMembers (margin : String) : List (String × Layout) → List String
  | [] => []
  | (key, item) :: rest =>
    (printString key ++ ": " ++ print margin item) :: printMembers margin rest

end

/-- The printed document with a line break at its end. -/
def document (layout : Layout) : String := layout.print "" ++ "\n"

end Layout

end Haxify.Json
