/-!
# Blank characters

The characters of the Unicode property `White_Space`, and trimming by it.
-/

namespace Haxify.Text

/-- The code points of the Unicode property `White_Space`, as inclusive ranges. -/
def blankRanges : List (Nat × Nat) :=
  [(0x09, 0x0D), (0x20, 0x20), (0x85, 0x85), (0xA0, 0xA0), (0x1680, 0x1680),
   (0x2000, 0x200A), (0x2028, 0x2029), (0x202F, 0x202F), (0x205F, 0x205F), (0x3000, 0x3000)]

/-- Whether a character is white space. -/
def isBlank (char : Char) : Bool :=
  blankRanges.any fun range => range.1 ≤ char.toNat && char.toNat ≤ range.2

/-- The characters without the blanks at their end. -/
def dropBlanksEnd (chars : List Char) : List Char :=
  (chars.reverse.dropWhile isBlank).reverse

def trimEnd (text : String) : String :=
  String.ofList (dropBlanksEnd text.toList)

/-- The text without the blanks at either end. -/
def trim (text : String) : String :=
  String.ofList (dropBlanksEnd (text.toList.dropWhile isBlank))

end Haxify.Text
