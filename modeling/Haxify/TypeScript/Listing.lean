import Haxify.Json.Value
import Haxify.TypeScript.Tree

/-!
# Listed trees

A parser hands a syntax tree over as a JSON array with one entry for each node in document
order: the kind, flags, the field, the byte offsets of start and end, and the
number of children. The flags add up: one for a named node, two for an error, four
for a missing node.
-/

namespace Haxify.TypeScript

def natural? : Json → Option Nat
  | .integer (.ofNat value) => some value
  | _ => none

def text? : Json → Option String
  | .string value => some value
  | _ => none

def Entry.ofJson? : Json → Option Entry
  | .array [kind, flags, field, start, stop, children] => do
    let flags ← natural? flags
    return {
      kind := ← text? kind
      isNamed := flags % 2 == 1
      isFaulty := flags / 2 != 0
      field := ← text? field
      start := ← natural? start
      stop := ← natural? stop
      children := ← natural? children }
  | _ => none

/-- The tree of a source text that a listing holds. -/
def Node.ofJson? (source : String) : Json → Option Node
  | .array entries => (entries.mapM Entry.ofJson?).bind (Node.ofEntries? source)
  | _ => none

end Haxify.TypeScript
