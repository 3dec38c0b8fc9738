/-!
# Byte offsets

Places in a text are given by offsets into its UTF-8 form. A slice between two
offsets is taken character by character, and a line and column are counted from
one, the column in bytes.
-/

namespace Haxify.Text

/-- What is left after the characters that occupy the first `count` bytes. -/
def dropBytes : Nat → List Char → List Char
  | _, [] => []
  | 0, chars => chars
  | count + 1, char :: rest => dropBytes (count + 1 - char.utf8Size) rest

/-- The characters that occupy the first `count` bytes. -/
def takeBytes : Nat → List Char → List Char
  | _, [] => []
  | 0, _ => []
  | count + 1, char :: rest => char :: takeBytes (count + 1 - char.utf8Size) rest

/-- The part of a text between two byte offsets. -/
def slice (chars : List Char) (start stop : Nat) : String :=
  String.ofList (takeBytes (stop - start) (dropBytes start chars))

/-- A place in a text, counted from one; columns count bytes. -/
structure Position where
  line : Nat
  /-- Number of the byte in its line. -/
  column : Nat
deriving DecidableEq, Repr

def advance (place : Position) : Nat → List Char → Position
  | 0, _ => place
  | _, [] => place
  | offset + 1, char :: rest =>
    let next : Position :=
      if char = '\n' then ⟨place.line + 1, 1⟩
      else ⟨place.line, place.column + char.utf8Size⟩
    advance next (offset + 1 - char.utf8Size) rest

/-- The place of a byte offset in a text. -/
def position (chars : List Char) (offset : Nat) : Position :=
  advance ⟨1, 1⟩ offset chars

end Haxify.Text
