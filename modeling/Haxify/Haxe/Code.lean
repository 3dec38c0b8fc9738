import Haxify.Haxe.Writer

/-!
# Statement text as a tree

Generated statements are lines, and lines one level further in. Keeping the
nesting as data makes every statement end at the level it started from.
-/

namespace Haxify.Haxe

/-- Generated source text, before it is indented. -/
inductive Code where
  | line (text : String)
  /-- Lines one level further in. -/
  | nest (body : List Code)

namespace Code

mutual

/-- Writes one piece of code and comes back to the level it started from. -/
def write (writer : Writer) : Code → Writer
  | .line text => writer.line text
  | .nest body => (writeAll writer.indent body).dedent

def writeAll (writer : Writer) : List Code → Writer
  | [] => writer
  | code :: rest => writeAll (write writer code) rest

end

/-- A header with an opening brace, a nested body and the closing brace. -/
def block (header : String) (body : List Code) : List Code :=
  [.line (header ++ " \x7b"), .nest body, .line "\x7d"]

/-- The text of code written from the outermost level. -/
def render (unit : String) (code : List Code) : String :=
  (writeAll (Writer.empty unit) code).finish

end Code

end Haxify.Haxe
