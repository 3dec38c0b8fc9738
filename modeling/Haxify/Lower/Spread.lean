import Haxify.Text.Pieces

/-!
# Literals with spreads

A literal whose items may be spread becomes a sequence of pieces: literals of
plain items, and spread operands between them. No item is lost or moved.
-/

namespace Haxify.Lower

/-- One item of an array or object literal. -/
inductive Item where
  | plain (text : String)
  /-- All elements or fields of an operand. -/
  | spread (text : String)
deriving DecidableEq, Repr

def Item.isSpread : Item → Bool
  | .spread _ => true
  | .plain _ => false

def arrayLiteral (elements : List String) : String :=
  "[" ++ Text.joinWith ", " elements ++ "]"

def objectLiteral (fields : List String) : String :=
  if fields.isEmpty then "\x7b\x7d" else "\x7b " ++ Text.joinWith ", " fields ++ " \x7d"

/-- What is put down of a literal while its items are gone through. -/
structure Gathered where
  /-- The texts of literals and operands. -/
  pieces : List String
  /-- The plain items behind the last of them. -/
  pending : List String

/-- The pieces, with a literal of the pending items where one is due. -/
def Gathered.flushed (literal : List String → String) (due : Bool) (sofar : Gathered) :
    List String :=
  if due then sofar.pieces ++ [literal sofar.pending] else sofar.pieces

/-- Takes up an item. Before an operand the pending items are put down; where a literal has to lead,
one stands before the first operand even if it is empty. -/
def gather (literal : List String → String) (leads : Bool) (sofar : Gathered) : Item → Gathered
  | .plain text => { sofar with pending := sofar.pending ++ [text] }
  | .spread text =>
    let due := !sofar.pending.isEmpty || leads && sofar.pieces.isEmpty
    { pieces := sofar.flushed literal due ++ [text], pending := [] }

/-- The first text followed by the others as arguments of concatenations. -/
def concatenated : List String → String
  | [] => "[]"
  | first :: rest => rest.foldl (fun done next => done ++ ".concat(" ++ next ++ ")") first

def arrayText (items : List Item) : String :=
  let gathered := items.foldl (gather arrayLiteral true) ⟨[], []⟩
  if items.any Item.isSpread then
    concatenated (gathered.flushed arrayLiteral !gathered.pending.isEmpty)
  else arrayLiteral gathered.pending

def objectText (items : List Item) : String :=
  let gathered := items.foldl (gather objectLiteral false) ⟨[], []⟩
  if items.any Item.isSpread then
    let pieces := gathered.flushed objectLiteral !gathered.pending.isEmpty
    "(js.lib.Object.assign(\x7b\x7d, " ++ Text.joinWith ", " pieces ++ ") : Dynamic)"
  else objectLiteral gathered.pending

end Haxify.Lower
