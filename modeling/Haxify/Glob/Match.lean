import Haxify.Glob.Pattern

/-!
# Matching

A path matches when some sequence of a pattern takes all of its bytes. Each step
yields every rest it can leave, so matching is a search over rests.
-/

namespace Haxify.Glob

def slash : UInt8 := 0x2F

/-- What can be left after any bytes but slashes. -/
def restsWithin : List UInt8 → List (List UInt8)
  | [] => [[]]
  | byte :: rest =>
    (byte :: rest) :: (if byte == slash then [] else restsWithin rest)

/-- What can be left after any bytes. -/
def rests : List UInt8 → List (List UInt8)
  | [] => [[]]
  | byte :: rest => (byte :: rest) :: rests rest

/-- What stands behind each slash. -/
def restsAfterSlash : List UInt8 → List (List UInt8)
  | [] => []
  | byte :: rest => (if byte == slash then [rest] else []) ++ restsAfterSlash rest

/-- The rests that one step can leave. -/
def Atom.rests (atom : Atom) (bytes : List UInt8) : List (List UInt8) :=
  match atom, bytes with
  | .byte value, first :: rest => if first == value then [rest] else []
  | .any, first :: rest => if first == slash then [] else [rest]
  | .star, bytes => restsWithin bytes
  | .directories, bytes => bytes :: restsAfterSlash bytes
  | .below, first :: rest => if first == slash then Glob.rests rest else []
  | .between, first :: rest => if first == slash then rest :: restsAfterSlash rest else []
  | .oneOf negated ranges, first :: rest =>
    let isListed := ranges.any fun range => range.1 ≤ first && first ≤ range.2
    if first != slash && isListed != negated then [rest] else []
  | _, [] => []

/-- Whether a sequence takes all of the bytes. -/
def matchesAll : List Atom → List UInt8 → Bool
  | [], bytes => bytes.isEmpty
  | atom :: others, bytes => (atom.rests bytes).any (matchesAll others)

def Pattern.accepts (pattern : Pattern) (path : String) : Bool :=
  pattern.choices.isEmpty || pattern.choices.any fun choice => matchesAll choice path.toUTF8.toList

end Haxify.Glob
