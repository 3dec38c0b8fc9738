import Haxify.Text.Pieces

/-!
# The indenting writer

Source text is written line by line at an indentation level. A text that spans
several lines is placed line by line at the current level, so a body rendered on
its own can be spliced into another one; an empty line stays empty.
-/

namespace Haxify.Haxe

/-- How one level of indentation looks. -/
inductive IndentStyle where
  | spaces (count : Nat)
  | tabs
deriving DecidableEq, Repr

def IndentStyle.usual : IndentStyle := .spaces 2

def IndentStyle.unit : IndentStyle → String
  | .spaces count => Text.copies " " count
  | .tabs => "\t"

/-- Lines written so far, and the level at which the next ones go. -/
structure Writer where
  unit : String
  level : Nat
  /-- The lines, first to last. -/
  lines : List String
deriving DecidableEq, Repr

namespace Writer

/-- A writer without lines at the outermost level. -/
def empty (unit : String) : Writer := ⟨unit, 0, []⟩

def indent (writer : Writer) : Writer := { writer with level := writer.level + 1 }

/-- One level further out; the outermost level stays. -/
def dedent (writer : Writer) : Writer := { writer with level := writer.level - 1 }

/-- What stands in front of a line at the current level. -/
def margin (writer : Writer) : String := Text.copies writer.unit writer.level

/-- A line of text behind a margin; an empty line has none. -/
def placed (margin line : String) : String :=
  if line = "" then "" else margin ++ line

/-- Writes each line of a text at the current level. -/
def line (writer : Writer) (text : String) : Writer :=
  { writer with
    lines := writer.lines ++ (Text.splitOn '\n' text).map (placed writer.margin) }

/-- Writes an empty line. -/
def blank (writer : Writer) : Writer := { writer with lines := writer.lines ++ [""] }

/-- Writes a header with an opening brace, a body one level further in, and the
closing brace, which is written also when the body fails. -/
def block {ε : Type} (writer : Writer) (header : String)
    (body : Writer → Except ε Unit × Writer) : Except ε Unit × Writer :=
  let (outcome, written) := body (writer.line (header ++ " \x7b")).indent
  (outcome, written.dedent.line "\x7d")

def finish (writer : Writer) : String := Text.joinWith "\n" writer.lines

/-- One operation on a writer; a block has operations of its own. -/
inductive Step where
  | line (text : String)
  /-- Write an empty line. -/
  | blank
  | indent
  /-- Go one level out. -/
  | dedent
  | block (header : String) (body : List Step)
  /-- Stop the enclosing body with an error. -/
  | fail (error : String)
deriving Inhabited

/-- What a run shows after one of its steps. -/
structure Shown where
  added : List String
  margin : String
  /-- Whether nothing has been written yet. -/
  isEmpty : Bool
  /-- The error that the step ended with. -/
  failed : Option String

def shown (before after : Writer) (failed : Option String) : Shown :=
  ⟨after.lines.drop before.lines.length, after.margin, after.lines.isEmpty, failed⟩

mutual

/-- Runs one step and shows it, behind what the steps of its body showed. -/
def runStep (writer : Writer) : Step → Except String Unit × Writer × List Shown
  | .line text => let after := writer.line text; (.ok (), after, [shown writer after none])
  | .blank => let after := writer.blank; (.ok (), after, [shown writer after none])
  | .indent => let after := writer.indent; (.ok (), after, [shown writer after none])
  | .dedent => let after := writer.dedent; (.ok (), after, [shown writer after none])
  | .block header body =>
    let (outcome, written, trace) := runSteps (writer.line (header ++ " \x7b")).indent body
    let after := written.dedent.line "\x7d"
    let failed := match outcome with
      | .ok _ => none
      | .error error => some error
    (outcome, after, trace ++ [shown writer after failed])
  | .fail error => (.error error, writer, [shown writer writer (some error)])

/-- Runs steps in order until one fails. -/
def runSteps (writer : Writer) : List Step → Except String Unit × Writer × List Shown
  | [] => (.ok (), writer, [])
  | step :: rest =>
    match runStep writer step with
    | (.ok _, after, trace) =>
      let (outcome, last, more) := runSteps after rest
      (outcome, last, trace ++ more)
    | (.error error, after, trace) => (.error error, after, trace)

end

end Writer

end Haxify.Haxe
